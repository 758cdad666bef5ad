import Mathlib.Data.List.Basic

/-!
# Ring buffers

A ring of a size keeps the last elements of a sequence: the element with an index is
in the place of the index modulo the size.
-/

namespace RingBuffer

variable {α : Type}

/-- The ring holds the last `size` of the first `upto` elements. -/
def Holds (size upto : Nat) (content ring : Nat → α) : Prop :=
  ∀ index, index < upto → upto ≤ index + size → ring (index % size) = content index

/-- Elements are stored from the place of the first one on. -/
def store (size upto count : Nat) (content ring : Nat → α) : Nat → α := fun place =>
  if upto % size ≤ place ∧ place < upto % size + count then content (upto + (place - upto % size))
  else ring place

theorem holds_nothing (size : Nat) (content ring : Nat → α) : Holds size 0 content ring :=
  fun index before => absurd before (Nat.not_lt_zero index)

theorem place_eq {size turn place : Nat} (inside : place < size) :
    (size * turn + place) % size = place := by
  rw [Nat.mul_add_mod, Nat.mod_eq_of_lt inside]

/-- What is stored up to the end of the ring takes the places of the oldest elements. -/
theorem Holds.store {size upto count : Nat} {content ring : Nat → α}
    (holds : Holds size upto content ring) (fits : upto % size + count ≤ size) :
    Holds size (upto + count) content (RingBuffer.store size upto count content ring) := by
  intro index before recent
  have turns := Nat.div_add_mod upto size
  by_cases new : upto ≤ index
  · -- the element was just stored
    have place : index % size = upto % size + (index - upto) := by
      have here : index = size * (upto / size) + (upto % size + (index - upto)) := by omega
      rw [here]
      exact (place_eq (by omega)).trans (by omega)
    rw [RingBuffer.store, place, if_pos (by omega)]
    congr 1
    omega
  · have apart : ¬ (upto % size ≤ index % size ∧ index % size < upto % size + count) := by
      by_cases thisTurn : size * (upto / size) ≤ index
      · have here : index = size * (upto / size) + (index - size * (upto / size)) := by omega
        rw [here, place_eq (by omega)]
        omega
      · -- one turn before
        obtain ⟨turn, next⟩ : ∃ turn, upto / size = turn + 1 := by
          cases quotient : upto / size with
          | zero =>
            rw [quotient, Nat.mul_zero] at thisTurn
            exact absurd (Nat.zero_le index) thisTurn
          | succ turn => exact ⟨turn, rfl⟩
        rw [next, Nat.mul_succ] at turns thisTurn
        have here : index = size * turn + (index - size * turn) := by omega
        rw [here, place_eq (by omega)]
        omega
    rw [RingBuffer.store, if_neg apart]
    exact holds index (by omega) (by omega)

end RingBuffer
