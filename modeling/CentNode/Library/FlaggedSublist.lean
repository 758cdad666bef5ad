import Mathlib.Algebra.Order.BigOperators.Group.List
import Mathlib.Algebra.Order.Ring.Int

/-!
# Sublists given by flags

A list of flags, one for each entry of a list, chooses a sublist.  Setting a flag that was not
set adds the amount of its entry.
-/

namespace FlaggedSublist

variable {α : Type}

/-- The entries whose flag is set. -/
def chosen : List α → List Bool → List α
  | entry :: rest, flag :: flags => if flag then entry :: chosen rest flags else chosen rest flags
  | _, _ => []

def total (amount : α → Int) (entries : List α) (flags : List Bool) : Int :=
  ((chosen entries flags).map amount).sum

variable (entries : List α)

theorem chosen_sublist (flags : List Bool) : (chosen entries flags).Sublist entries := by
  induction entries generalizing flags with
  | nil => cases flags <;> exact List.Sublist.refl []
  | cons entry rest ih =>
    cases flags with
    | nil => exact List.nil_sublist _
    | cons flag flags =>
      cases flag with
      | false => exact (ih flags).cons entry
      | true => exact (ih flags).cons_cons entry

theorem chosen_all : chosen entries (List.replicate entries.length true) = entries := by
  induction entries with
  | nil => rfl
  | cons entry rest ih => rw [List.length_cons, List.replicate_succ, chosen, if_pos rfl, ih]

theorem chosen_none (n : Nat) : chosen entries (List.replicate n false) = [] := by
  induction entries generalizing n with
  | nil => cases n <;> rfl
  | cons entry rest ih =>
    cases n with
    | zero => rfl
    | succ n =>
      rw [List.replicate_succ, chosen, if_neg Bool.false_ne_true]
      exact ih n

variable {amount : α → Int}

theorem total_none (n : Nat) : total amount entries (List.replicate n false) = 0 := by
  rw [total, chosen_none]
  rfl

theorem total_all :
    total amount entries (List.replicate entries.length true) = (entries.map amount).sum := by
  rw [total, chosen_all]

theorem total_set {entries : List α} {flags : List Bool} {i : Nat} {entry : α}
    (found : entries[i]? = some entry) (unset : flags[i]? = some false) :
    total amount entries (flags.set i true) = total amount entries flags + amount entry := by
  induction entries generalizing flags i with
  | nil => exact absurd found (by simp)
  | cons first rest ih =>
    cases flags with
    | nil => exact absurd unset (by simp)
    | cons flag flags =>
      cases i with
      | zero =>
        obtain rfl : first = entry := by simpa using found
        obtain rfl : flag = false := by simpa using unset
        simp [total, chosen, add_comm]
      | succ i =>
        have later := ih (by simpa using found) (by simpa using unset)
        unfold total at later
        cases flag with
        | false => simpa [total, chosen] using later
        | true =>
          simp only [total, List.set_cons_succ, chosen, if_pos, List.map_cons,
            List.sum_cons, later]
          exact (add_assoc _ _ _).symm

theorem total_le {entries : List α} (nonneg : ∀ entry ∈ entries, 0 ≤ amount entry)
    (flags : List Bool) : total amount entries flags ≤ (entries.map amount).sum := by
  refine ((chosen_sublist entries flags).map amount).sum_le_sum ?_
  intro value member
  obtain ⟨entry, held, rfl⟩ := List.mem_map.mp member
  exact nonneg entry held

theorem total_nonneg {entries : List α} (nonneg : ∀ entry ∈ entries, 0 ≤ amount entry)
    (flags : List Bool) : 0 ≤ total amount entries flags := by
  refine List.sum_nonneg ?_
  intro value member
  obtain ⟨entry, held, rfl⟩ := List.mem_map.mp member
  exact nonneg entry ((chosen_sublist entries flags).subset held)

end FlaggedSublist
