import Mathlib.Data.List.DropRight

/-!
# Lists trimmed of blanks

A list without blanks at its end is stored instead of one with them.  Blanking
an element and trimming loses nothing: growing the list with blanks and putting
the element back gives the list one started from.
-/

namespace Trim

open List

variable {α : Type} {p : α → Bool} {blank : α} {l : List α}

/-- The list grown with blanks to hold an element at index `n`, with the element there. -/
def putBack (blank : α) (l : List α) (n : Nat) (x : α) : List α :=
  (l ++ List.replicate (n + 1 - l.length) blank).set n x

theorem eq_append_replicate (l : List α) (blanks : ∀ y ∈ l, p y = true → y = blank) :
    l = l.rdropWhile p ++ List.replicate (l.rtakeWhile p).length blank := by
  have cut : l.rtakeWhile p = replicate (l.rtakeWhile p).length blank := by
    refine eq_replicate_iff.mpr ⟨rfl, fun y member => ?_⟩
    exact blanks y ((rtakeWhile_suffix p l).subset member) (mem_rtakeWhile_imp member)
  rw [← cut]
  exact rdropWhile_append_rtakeWhile.symm

theorem putBack_set (trimmed : l.rdropWhile p = l) (blanks : ∀ y ∈ l, p y = true → y = blank)
    {n : Nat} {x : α} (at_n : l[n]? = some x) :
    putBack blank ((l.set n blank).rdropWhile p) n x = l := by
  have inside : n < l.length := (List.getElem?_eq_some_iff.mp at_n).1
  have same : (l.set n blank).set n x = l := by
    rw [set_set]
    obtain ⟨_, value⟩ := List.getElem?_eq_some_iff.mp at_n
    rw [← value]
    exact set_getElem_self inside
  have blanksToo : ∀ y ∈ l.set n blank, p y = true → y = blank := by
    intro y member holds
    rcases mem_or_eq_of_mem_set member with old | new
    · exact blanks y old holds
    · exact new
  have parts := eq_append_replicate (l.set n blank) blanksToo
  have lengths := congrArg List.length parts
  rw [length_append, length_replicate, length_set] at lengths
  -- The last element is not blank, so only what stands at `n` can be cut off.
  have last : (l.set n blank).rdropWhile p = l.set n blank ∨ n + 1 = l.length := by
    by_contra neither
    obtain ⟨cut, short⟩ := not_or.mp neither
    have nonempty : l ≠ [] := ne_nil_of_length_pos (by omega)
    refine rdropWhile_eq_self_iff.mp trimmed nonempty ?_
    rw [rdropWhile_eq_self_iff] at cut
    obtain ⟨nonemptyToo, holds⟩ : ∃ h : l.set n blank ≠ [], p ((l.set n blank).getLast h) = true := by
      by_contra none_such
      exact cut fun h holds => none_such ⟨h, holds⟩
    rw [getLast_eq_getElem] at holds ⊢
    simp only [length_set] at holds
    rwa [getElem_set_ne (by omega)] at holds
  unfold putBack
  rcases last with uncut | atEnd
  · rw [uncut, length_set, Nat.sub_eq_zero_of_le (by omega), replicate_zero,
      append_nil, same]
  · have count : n + 1 - ((l.set n blank).rdropWhile p).length =
        ((l.set n blank).rtakeWhile p).length := by omega
    rw [count, ← parts, same]

end Trim
