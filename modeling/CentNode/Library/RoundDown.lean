import Mathlib.Algebra.Order.Ring.Nat
import Mathlib.Data.Nat.Log

/-!
# Numbers that are cut off to a few bits

A format keeps the bits of a number down to a place that is told by its length.  If the
place moves up no faster than the length, cutting off keeps the order.
-/

namespace RoundDown

/-- The number without the bits below the place for its length. -/
def roundDown (place : Nat → Nat) (value : Nat) : Nat :=
  value / 2 ^ place value.log2 * 2 ^ place value.log2

variable {place : Nat → Nat}

theorem roundDown_le (value : Nat) : roundDown place value ≤ value := Nat.div_mul_le_self _ _

section

variable (below : ∀ length, place length ≤ length)

include below

theorem two_pow_log2_le_roundDown {value : Nat}
    (nonzero : value ≠ 0) : 2 ^ value.log2 ≤ roundDown place value := by
  have first : 2 ^ value.log2 ≤ value := Nat.log2_self_le nonzero
  have whole : 2 ^ (value.log2 - place value.log2) * 2 ^ place value.log2 = 2 ^ value.log2 := by
    rw [← Nat.pow_add, Nat.sub_add_cancel (below _)]
  have kept : 2 ^ (value.log2 - place value.log2) ≤ value / 2 ^ place value.log2 := by
    rw [Nat.le_div_iff_mul_le (Nat.two_pow_pos _), whole]
    exact first
  rw [← whole]
  exact Nat.mul_le_mul_right _ kept

theorem roundDown_pos {value : Nat}
    (positive : 0 < value) : 0 < roundDown place value :=
  Nat.lt_of_lt_of_le (Nat.two_pow_pos _)
    (two_pow_log2_le_roundDown below (Nat.pos_iff_ne_zero.mp positive))

theorem roundDown_mono :
    Monotone (roundDown place) := by
  intro value other le
  rcases Nat.eq_zero_or_pos value with rfl | positive
  · rw [roundDown, Nat.zero_div, Nat.zero_mul]
    exact Nat.zero_le _
  have nonzero : other ≠ 0 := by omega
  rcases Nat.lt_or_ge value.log2 other.log2 with longer | short
  · have less : value < 2 ^ other.log2 :=
      Nat.lt_of_lt_of_le Nat.lt_log2_self (Nat.pow_le_pow_right (by decide) longer)
    calc
      roundDown place value ≤ value := roundDown_le value
      _ ≤ 2 ^ other.log2 := Nat.le_of_lt less
      _ ≤ roundDown place other := two_pow_log2_le_roundDown below nonzero
  · have same : value.log2 = other.log2 := by
      have reached : 2 ^ value.log2 ≤ other :=
        Nat.le_trans (Nat.log2_self_le (Nat.pos_iff_ne_zero.mp positive)) le
      have longest := (Nat.le_log2 nonzero).mpr reached
      omega
    rw [roundDown, roundDown, same]
    exact Nat.mul_le_mul_right _ (Nat.div_le_div_right le)

end

end RoundDown
