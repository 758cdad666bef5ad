import Mathlib.Data.List.Sort

/-!
# The median of a list

A value of a list is its median if neither the smaller nor the greater values are more than
half of them.  It stands in the middle of the sorted list, and it is the least value
exactly if more than half of the values are least.
-/

namespace Median

open List

variable {α : Type}

theorem countP_le_of_drop {p : α → Bool} {values : List α} {position : Nat}
    (later : ∀ value ∈ values.drop position, p value = false) :
    values.countP p ≤ position := by
  have none : (values.drop position).countP p = 0 := by
    simpa [countP_eq_zero] using later
  have split := congrArg (countP p) (take_append_drop position values)
  rw [countP_append, none, Nat.add_zero] at split
  exact split ▸ Nat.le_trans countP_le_length (length_take_le _ _)

theorem countP_le_of_take {p : α → Bool} {values : List α} {position : Nat}
    (earlier : ∀ value ∈ values.take position, p value = false) :
    values.countP p ≤ values.length - position := by
  have none : (values.take position).countP p = 0 := by
    simpa [countP_eq_zero] using earlier
  have split := congrArg (countP p) (take_append_drop position values)
  rw [countP_append, none, Nat.zero_add] at split
  exact split ▸ Nat.le_trans countP_le_length (by simp)

variable [LinearOrder α]

/-- Neither the smaller nor the greater values are more than half of the list. -/
structure IsMedian (values : List α) (value : α) : Prop where
  mem : value ∈ values
  smaller : 2 * values.countP (fun other => other < value) ≤ values.length
  greater : 2 * values.countP (fun other => value < other) ≤ values.length

theorem IsMedian.perm {values others : List α} {value : α} (same : values.Perm others)
    (median : IsMedian values value) : IsMedian others value where
  mem := same.mem_iff.mp median.mem
  smaller := by simpa [same.countP_eq, same.length_eq] using median.smaller
  greater := by simpa [same.countP_eq, same.length_eq] using median.greater

section Sorted

variable {values : List α} (sorted : values.Pairwise (· ≤ ·)) {middle : Nat}
  (inside : middle < values.length)

include sorted

theorem le_of_mem_drop : ∀ value ∈ values.drop middle, values[middle] ≤ value := by
  intro value member
  obtain ⟨index, bound, rfl⟩ := mem_iff_getElem.mp member
  rw [getElem_drop]
  exact sorted.sortedLE.getElem_le_getElem_of_le (Nat.le_add_right _ _)

theorem le_of_mem_take : ∀ value ∈ values.take (middle + 1), value ≤ values[middle] := by
  intro value member
  obtain ⟨index, bound, rfl⟩ := mem_iff_getElem.mp member
  rw [getElem_take]
  rw [length_take] at bound
  exact sorted.sortedLE.getElem_le_getElem_of_le (by omega)

theorem isMedian_middle (odd : values.length = 2 * middle + 1) :
    IsMedian values values[middle] where
  mem := getElem_mem inside
  smaller := by
    have bound := @countP_le_of_drop _ (fun other => decide (other < values[middle])) values middle
      fun value member => by simpa using le_of_mem_drop sorted inside value member
    omega
  greater := by
    have bound := @countP_le_of_take _ (fun other => decide (values[middle] < other)) values
      (middle + 1) fun value member => by simpa using le_of_mem_take sorted inside value member
    omega

theorem middle_eq_least_iff {least : α} (bottom : ∀ value ∈ values, least ≤ value)
    (odd : values.length = 2 * middle + 1) :
    values[middle] = least ↔ values.length < 2 * values.countP (fun value => value = least) := by
  constructor
  · intro same
    have first : (values.take (middle + 1)).countP (fun value => decide (value = least)) =
        middle + 1 := by
      rw [countP_eq_length.mpr]
      · exact length_take_of_le inside
      · intro value member
        have below := same ▸ le_of_mem_take sorted inside value member
        simpa using le_antisymm below (bottom value (mem_of_mem_take member))
    have part := List.Sublist.countP_le (p := fun value => decide (value = least))
      (List.take_sublist (middle + 1) values)
    omega
  · intro many
    by_contra other
    have above : least < values[middle] :=
      lt_of_le_of_ne (bottom _ (getElem_mem inside)) (Ne.symm other)
    have few := @countP_le_of_drop _ (fun value => decide (value = least)) values middle
      fun value member => by
        simpa using (lt_of_lt_of_le above (le_of_mem_drop sorted inside value member)).ne'
    omega

end Sorted

end Median
