import Mathlib.Data.List.Basic

/-!
# Renumbering

Names of any type are replaced by their positions in a list.  A name that is
not in the list gets `-1`, which is no position.
-/

namespace Renumbering

variable {Name : Type} [DecidableEq Name] {order : List Name} {name : Name}

/-- The position of a name. -/
def numberOf (order : List Name) (name : Name) : Int :=
  if name ∈ order then (order.idxOf name : Int) else -1

theorem numberOf_eq_neg_one : numberOf order name = -1 ↔ name ∉ order := by
  unfold numberOf
  split
  case isTrue inside => exact iff_of_false (by omega) (not_not.mpr inside)
  case isFalse outside => exact iff_of_true rfl outside

theorem numberOf_eq (nodup : order.Nodup) {place : Nat} :
    numberOf order name = place ↔ order[place]? = some name := by
  unfold numberOf
  constructor
  · intro same
    split at same
    case isTrue inside =>
      rw [← Int.natCast_inj.mp same]
      exact List.getElem?_idxOf inside
    case isFalse => omega
  · intro here
    obtain ⟨short, there⟩ := List.getElem?_eq_some_iff.mp here
    rw [if_pos (List.mem_of_getElem? here), ← there, nodup.idxOf_getElem]

theorem exists_place (nodup : order.Nodup) (numbered : numberOf order name ≠ -1) :
    ∃ place : Nat, numberOf order name = place ∧ order[place]? = some name := by
  have inside := not_not.mp (numberOf_eq_neg_one.not.mp numbered)
  have place : numberOf order name = (order.idxOf name : Int) := if_pos inside
  exact ⟨_, place, (numberOf_eq nodup).mp place⟩

theorem numberOf_append (absent : name ∉ order) (other : Name) :
    numberOf (order ++ [name]) other =
      if other = name then (order.length : Int) else numberOf order other := by
  unfold numberOf
  rw [List.idxOf_append]
  by_cases same : other = name
  · have inside : other ∈ order ++ [name] := List.mem_append_right order (List.mem_singleton.mpr same)
    rw [if_pos inside, if_pos same, same, if_neg absent, List.idxOf_cons_self, Nat.zero_add]
  · rw [if_neg same]
    by_cases inside : other ∈ order
    · rw [if_pos (List.mem_append_left [name] inside), if_pos inside, if_pos inside]
    · have outside : other ∉ order ++ [name] := fun member =>
        (List.mem_append.mp member).elim inside fun last => same (List.mem_singleton.mp last)
      rw [if_neg outside, if_neg inside]

end Renumbering
