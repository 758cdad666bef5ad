import Mathlib.Data.Nat.Bitwise
import Mathlib.Tactic.LinearCombination
import Mathlib.Tactic.Ring

/-!
# Numbers as words

A number is written as words of `w` bits, the lowest first.  The arithmetic of
one word with carries, as school does it, computes modulo the power of two that
the words can hold.
-/

namespace Limbs

open List BitVec

variable {w : Nat}

def value : List (BitVec w) → Nat
  | [] => 0
  | word :: rest => word.toNat + 2 ^ w * value rest

variable (words : List (BitVec w))

theorem value_lt : value words < 2 ^ (w * words.length) := by
  induction words with
  | nil => exact Nat.one_pos
  | cons word rest ih =>
    have low := word.isLt
    calc
      value (word :: rest) < 2 ^ w * (value rest + 1) := by
        rw [value, Nat.mul_add_one]
        omega
      _ ≤ 2 ^ w * 2 ^ (w * rest.length) := Nat.mul_le_mul_left _ ih
      _ = 2 ^ (w * (word :: rest).length) := by
        rw [← Nat.pow_add, length_cons, Nat.mul_add_one, Nat.add_comm]

theorem testBit_value (positive : 0 < w) (words : List (BitVec w)) (index : Nat) :
    (value words).testBit index = (words[index / w]?.getD 0).getLsbD (index % w) := by
  induction words generalizing index with
  | nil => simp [value]
  | cons word rest ih =>
    rw [value, Nat.add_comm, Nat.testBit_two_pow_mul_add _ word.isLt]
    by_cases here : index < w
    · rw [if_pos here, Nat.div_eq_of_lt here, Nat.mod_eq_of_lt here]
      rfl
    · have further : w ≤ index := Nat.le_of_not_lt here
      rw [if_neg here, ih, Nat.div_eq_sub_div positive further, Nat.mod_eq_sub_mod further]
      rfl

variable {number : Nat}

theorem value_eq_of_bits (positive : 0 < w) {words : List (BitVec w)}
    (fits : number < 2 ^ (w * words.length))
    (bits : ∀ {word bit : Nat}, word < words.length → bit < w →
      (words[word]?.getD 0).getLsbD bit = number.testBit (w * word + bit)) :
    value words = number := by
  apply Nat.eq_of_testBit_eq
  intro index
  by_cases inside : index < w * words.length
  · have place : w * (index / w) + index % w = index := Nat.div_add_mod index w
    rw [testBit_value positive,
      bits ((Nat.div_lt_iff_lt_mul positive).mpr (by rwa [Nat.mul_comm]))
        (Nat.mod_lt _ positive), place]
  · have beyond := Nat.pow_le_pow_right Nat.two_pos (Nat.le_of_not_lt inside)
    rw [Nat.testBit_lt_two_pow (Nat.lt_of_lt_of_le (value_lt words) beyond),
      Nat.testBit_lt_two_pow (Nat.lt_of_lt_of_le fits beyond)]

theorem value_eq_zero_iff {words : List (BitVec w)} :
    value words = 0 ↔ ∀ word ∈ words, word = 0 := by
  induction words with
  | nil => simp [value]
  | cons word rest ih =>
    have power := Nat.two_pow_pos w
    rw [value, Nat.add_eq_zero_iff, Nat.mul_eq_zero, forall_mem_cons, ih]
    constructor
    · rintro ⟨low, absurdity | high⟩
      · omega
      · exact ⟨eq_of_toNat_eq low, high⟩
    · rintro ⟨low, high⟩
      exact ⟨congrArg BitVec.toNat low, .inr high⟩

theorem value_replicate_zero (count : Nat) : value (List.replicate count (0 : BitVec w)) = 0 :=
  value_eq_zero_iff.mpr fun _ member => eq_of_mem_replicate member

/-! ## Complement, sum and successor -/

theorem value_complement :
    value (words.map fun word => ~~~word) + value words + 1 = 2 ^ (w * words.length) := by
  induction words with
  | nil => rfl
  | cons word rest ih =>
    have low := word.isLt
    rw [length_cons, Nat.mul_add_one, Nat.pow_add, ← ih]
    simp only [map_cons, value, toNat_not]
    generalize value (rest.map fun word => ~~~word) = high
    rw [Nat.mul_comm _ (2 ^ w), Nat.mul_add, Nat.mul_add]
    omega

/-- One word of the sum, and the carry into the next. -/
def addCarry : Nat → List (BitVec w) → List (BitVec w) → List (BitVec w)
  | carry, left :: restLeft, right :: restRight =>
    let sum := carry + left.toNat + right.toNat
    BitVec.ofNat w sum :: addCarry (sum / 2 ^ w) restLeft restRight
  | _, _, _ => []

variable {left right : List (BitVec w)}

theorem length_addCarry (same : left.length = right.length) (carry : Nat) :
    (addCarry carry left right).length = left.length := by
  induction left generalizing right carry with
  | nil => rfl
  | cons word rest ih =>
    cases right with
    | nil => cases same
    | cons other restRight => exact congrArg Nat.succ (ih (Nat.succ.inj same) _)

theorem value_addCarry (same : left.length = right.length) (carry : Nat) :
    value (addCarry carry left right) =
      (carry + value left + value right) % 2 ^ (w * left.length) := by
  induction left generalizing right carry with
  | nil => exact (Nat.mod_one _).symm
  | cons word rest ih =>
    cases right with
    | nil => cases same
    | cons other restRight =>
      have power := Nat.two_pow_pos w
      have split : carry + value (word :: rest) + value (other :: restRight) =
          carry + word.toNat + other.toNat + 2 ^ w * (value rest + value restRight) := by
        simp only [value, Nat.mul_add]
        omega
      rw [addCarry, value, ih (Nat.succ.inj same), toNat_ofNat, length_cons,
        Nat.mul_add_one, Nat.add_comm (w * rest.length) w, Nat.pow_add, Nat.mod_mul, split,
        Nat.add_mul_mod_self_left, Nat.add_mul_div_left _ _ power, Nat.add_assoc _ (value rest)]

/-! ## Products -/

/-- A word times a word, a word and a carry fit in twice the bits. -/
theorem mul_add_add_lt {limit left right sum carry : Nat} (leftSmall : left < limit)
    (rightSmall : right < limit) (sumSmall : sum < limit) (carrySmall : carry < limit) :
    carry + sum + left * right < limit * limit := by
  cases limit with
  | zero => cases leftSmall
  | succ most =>
    have product := Nat.mul_le_mul (Nat.le_of_lt_succ leftSmall) (Nat.le_of_lt_succ rightSmall)
    rw [Nat.add_one_mul, Nat.mul_add_one]
    omega

/-- One word of the product with a factor, computed in twice the bits, and the carry. -/
def mulCarry (factor : BitVec w) : Nat → List (BitVec w) → List (BitVec w)
  | carry, word :: rest =>
    let product := (carry + factor.toNat * word.toNat) % 2 ^ (2 * w)
    BitVec.ofNat w product :: mulCarry factor (product / 2 ^ w) rest
  | _, [] => []

variable (factor : BitVec w)

theorem length_mulCarry (carry : Nat) : (mulCarry factor carry words).length = words.length := by
  induction words generalizing carry with
  | nil => rfl
  | cons word rest ih => exact congrArg Nat.succ (ih _)

theorem value_mulCarry {carry : Nat} (small : carry < 2 ^ w) :
    value (mulCarry factor carry words) =
      (carry + factor.toNat * value words) % 2 ^ (w * words.length) := by
  induction words generalizing carry with
  | nil => exact (Nat.mod_one _).symm
  | cons word rest ih =>
    have power := Nat.two_pow_pos w
    have fits := mul_add_add_lt factor.isLt word.isLt power small
    rw [Nat.add_zero, ← Nat.pow_add, ← Nat.two_mul] at fits
    have split : carry + factor.toNat * value (word :: rest) =
        carry + factor.toNat * word.toNat + 2 ^ w * (factor.toNat * value rest) := by
      rw [value]
      ring
    have next : (carry + factor.toNat * word.toNat) / 2 ^ w < 2 ^ w := by
      rwa [Nat.div_lt_iff_lt_mul power, ← Nat.pow_add, ← Nat.two_mul]
    rw [mulCarry, value, Nat.mod_eq_of_lt fits, ih next, toNat_ofNat, length_cons,
      Nat.mul_add_one, Nat.add_comm (w * rest.length) w, Nat.pow_add, Nat.mod_mul, split,
      Nat.add_mul_mod_self_left, Nat.add_mul_div_left _ _ power]

/-- Writing a word changes the value at its place only. -/
theorem value_set {index : Nat} (inside : index < words.length) (word : BitVec w) :
    value (words.set index word) + (words[index]?.getD 0).toNat * 2 ^ (w * index) =
      value words + word.toNat * 2 ^ (w * index) := by
  induction words generalizing index with
  | nil => cases inside
  | cons first rest ih =>
    cases index with
    | zero =>
      change word.toNat + 2 ^ w * value rest + first.toNat * 2 ^ (w * 0) =
        first.toNat + 2 ^ w * value rest + word.toNat * 2 ^ (w * 0)
      rw [Nat.mul_zero]
      omega
    | succ index =>
      have further := ih (Nat.lt_of_succ_lt_succ inside)
      rw [set_cons_succ, value, value, getElem?_cons_succ, Nat.mul_add_one,
        Nat.pow_add]
      linear_combination 2 ^ w * further

theorem value_take (count : Nat) : value (words.take count) = value words % 2 ^ (w * count) := by
  induction words generalizing count with
  | nil => rw [take_nil, value, Nat.zero_mod]
  | cons word rest ih =>
    cases count with
    | zero => rw [Nat.mul_zero, Nat.pow_zero, Nat.mod_one, take_zero, value]
    | succ count =>
      rw [take_succ_cons, value, value, ih, Nat.mul_add_one, Nat.add_comm (w * count) w,
        Nat.pow_add, Nat.mod_mul, Nat.add_mul_mod_self_left, Nat.mod_eq_of_lt word.isLt,
        Nat.add_mul_div_left _ _ (Nat.two_pow_pos w), Nat.div_eq_of_lt word.isLt, Nat.zero_add]

theorem value_take_succ (count : Nat) : value (words.take (count + 1)) =
    value (words.take count) + (words[count]?.getD 0).toNat * 2 ^ (w * count) := by
  induction words generalizing count with
  | nil => simp [value]
  | cons word rest ih =>
    cases count with
    | zero => simp [value]
    | succ count =>
      rw [take_succ_cons, value, ih, take_succ_cons, value, getElem?_cons_succ,
        Nat.mul_add_one, Nat.pow_add]
      ring

/-- The lowest word is counted up, and the next ones while a word wraps to zero. -/
def increment : List (BitVec w) → List (BitVec w)
  | [] => []
  | word :: rest => if word + 1 = 0 then (word + 1) :: increment rest else (word + 1) :: rest

theorem length_increment : (increment words).length = words.length := by
  induction words with
  | nil => rfl
  | cons word rest ih =>
    unfold increment
    split
    · exact congrArg Nat.succ ih
    · rfl

theorem value_increment :
    value (increment words) = (value words + 1) % 2 ^ (w * words.length) := by
  induction words with
  | nil => exact (Nat.mod_one _).symm
  | cons word rest ih =>
    have low := word.isLt
    have sum : (word + 1).toNat = (word.toNat + 1) % 2 ^ w := by
      rw [BitVec.toNat_add, ofNat_eq_ofNat, toNat_ofNat, Nat.add_mod_mod]
    have size : 2 ^ (w * (word :: rest).length) = 2 ^ w * 2 ^ (w * rest.length) := by
      rw [← Nat.pow_add, length_cons, Nat.mul_add_one, Nat.add_comm]
    rw [increment, size]
    by_cases wraps : word.toNat + 1 = 2 ^ w
    · have zero : word + 1 = 0 := by
        apply eq_of_toNat_eq
        rw [sum, wraps, Nat.mod_self]
        rfl
      have whole : value (word :: rest) + 1 = 2 ^ w * (value rest + 1) := by
        rw [value, Nat.mul_add_one]
        omega
      rw [if_pos zero, value, ih, sum, wraps, Nat.mod_self, whole, Nat.mul_mod_mul_left,
        Nat.zero_add]
    · have small : word.toNat + 1 < 2 ^ w := by omega
      have nonzero : word + 1 ≠ 0 := by
        intro zero
        have nothing := congrArg BitVec.toNat zero
        rw [sum, Nat.mod_eq_of_lt small] at nothing
        cases nothing
      have next : value ((word + 1) :: rest) = value (word :: rest) + 1 := by
        rw [value, value, sum, Nat.mod_eq_of_lt small]
        omega
      have fits : value ((word + 1) :: rest) < 2 ^ (w * (word :: rest).length) :=
        value_lt ((word + 1) :: rest)
      rw [if_neg nonzero, ← size, ← next, Nat.mod_eq_of_lt fits]

/-! ## Order and length -/

/-- The words are compared from the highest one down. -/
def order : List (BitVec w) → List (BitVec w) → Ordering
  | left :: restLeft, right :: restRight =>
    (order restLeft restRight).then (compare left.toNat right.toNat)
  | _, _ => .eq

theorem order_eq (same : left.length = right.length) :
    order left right = compare (value left) (value right) := by
  induction left generalizing right with
  | nil =>
    cases right with
    | nil => rfl
    | cons _ _ => cases same
  | cons word rest ih =>
    cases right with
    | nil => cases same
    | cons other restRight =>
      have low := word.isLt
      have lowToo := other.isLt
      rw [order, ih (Nat.succ.inj same), value, value]
      obtain less | equal | more := Nat.lt_trichotomy (value rest) (value restRight)
      · have step := Nat.mul_le_mul_left (2 ^ w) (Nat.succ_le_of_lt less)
        rw [Nat.mul_succ] at step
        have below : word.toNat + 2 ^ w * value rest <
            other.toNat + 2 ^ w * value restRight := by omega
        rw [Nat.compare_eq_lt.mpr less, Nat.compare_eq_lt.mpr below]
        rfl
      · rw [equal, Nat.compare_eq_eq.mpr rfl]
        change compare word.toNat other.toNat = _
        obtain less | equal | more := Nat.lt_trichotomy word.toNat other.toNat
        · rw [Nat.compare_eq_lt.mpr less, Nat.compare_eq_lt.mpr (Nat.add_lt_add_right less _)]
        · rw [equal, Nat.compare_eq_eq.mpr rfl, Nat.compare_eq_eq.mpr rfl]
        · rw [Nat.compare_eq_gt.mpr more, Nat.compare_eq_gt.mpr (Nat.add_lt_add_right more _)]
      · have step := Nat.mul_le_mul_left (2 ^ w) (Nat.succ_le_of_lt more)
        rw [Nat.mul_succ] at step
        have above : other.toNat + 2 ^ w * value restRight <
            word.toNat + 2 ^ w * value rest := by omega
        rw [Nat.compare_eq_gt.mpr more, Nat.compare_eq_gt.mpr above]
        rfl

/-- The length of a number in bits. -/
def width (number : Nat) : Nat := if number = 0 then 0 else number.log2 + 1

theorem lt_two_pow_width (number : Nat) : number < 2 ^ width number := by
  unfold width
  split
  · next zero =>
      rw [zero]
      exact Nat.one_pos
  · exact Nat.lt_log2_self

theorem two_pow_le_of_width (nonzero : number ≠ 0) : 2 ^ (width number - 1) ≤ number := by
  rw [width, if_neg nonzero, Nat.add_sub_cancel]
  exact Nat.log2_self_le nonzero

theorem width_eq_of_bounds {length : Nat} (low : 2 ^ length ≤ number)
    (high : number < 2 ^ (length + 1)) : width number = length + 1 := by
  have nonzero : number ≠ 0 := by
    have power := Nat.two_pow_pos length
    omega
  rw [width, if_neg nonzero, (Nat.log2_eq_iff nonzero).mpr ⟨low, high⟩]

theorem width_le_of_lt {length : Nat} (small : number < 2 ^ length) : width number ≤ length := by
  unfold width
  split
  · exact Nat.zero_le _
  · next nonzero => exact (Nat.log2_lt nonzero).mpr small

theorem width_eq_zero_iff : width number = 0 ↔ number = 0 := by
  unfold width
  split <;> simp [*]

theorem width_value_cons (word : BitVec w) (rest : List (BitVec w)) :
    width (value (word :: rest)) =
      if value rest = 0 then width word.toNat else w + width (value rest) := by
  split
  · next zero => rw [value, zero, Nat.mul_zero, Nat.add_zero]
  · next nonzero =>
      have low := word.isLt
      have least := two_pow_le_of_width nonzero
      have most := lt_two_pow_width (value rest)
      have positive : 0 < width (value rest) := by
        unfold width
        rw [if_neg nonzero]
        exact Nat.succ_pos _
      have index : w + width (value rest) = w + (width (value rest) - 1) + 1 := by omega
      rw [index]
      apply width_eq_of_bounds
      · calc
          2 ^ (w + (width (value rest) - 1)) = 2 ^ w * 2 ^ (width (value rest) - 1) := Nat.pow_add ..
          _ ≤ 2 ^ w * value rest := Nat.mul_le_mul_left _ least
          _ ≤ value (word :: rest) := Nat.le_add_left _ _
      · calc
          value (word :: rest) < 2 ^ w * (value rest + 1) := by
            rw [value, Nat.mul_add_one]
            omega
          _ ≤ 2 ^ w * 2 ^ width (value rest) := Nat.mul_le_mul_left _ most
          _ = 2 ^ (w + (width (value rest) - 1) + 1) := by rw [← Nat.pow_add, index]

/-! ## Division by shifting and subtracting -/

/-- The quotient of the steps below `count`: one bit for each multiple of the
divisor that can be taken off. -/
def quotient (divisor : Nat) : Nat → Nat → Nat
  | 0, _ => 0
  | count + 1, number =>
    if divisor * 2 ^ count ≤ number then
      2 ^ count + quotient divisor count (number - divisor * 2 ^ count)
    else quotient divisor count number

theorem quotient_eq {divisor count : Nat} (positive : 0 < divisor)
    (small : number < divisor * 2 ^ count) : quotient divisor count number = number / divisor := by
  induction count generalizing number with
  | zero =>
    rw [Nat.pow_zero, Nat.mul_one] at small
    exact (Nat.div_eq_of_lt small).symm
  | succ count ih =>
    have twice : divisor * 2 ^ (count + 1) = divisor * 2 ^ count + divisor * 2 ^ count := by
      rw [Nat.pow_succ, ← Nat.mul_assoc, Nat.mul_two]
    rw [quotient]
    by_cases taken : divisor * 2 ^ count ≤ number
    · rw [if_pos taken, ih (by omega), Nat.sub_mul_div]
      have bit : 2 ^ count ≤ number / divisor :=
        (Nat.le_div_iff_mul_le positive).mpr (by rwa [Nat.mul_comm])
      omega
    · rw [if_neg taken]
      exact ih (Nat.lt_of_not_le taken)

end Limbs
