import Mathlib.Data.List.Induction
import Mathlib.Algebra.Order.Group.Int

/-!
# Selecting the entry with the highest score

A loop walks over a list and keeps an entry when it is eligible and its score
is above the best score so far.  The first of several equal entries stays.
-/

namespace Selection

open List

variable {α : Type} (score : α → Int) (eligible : α → Bool)

/-- One entry of the loop. -/
def keepHigher (best : Int × Option α) (entry : α) : Int × Option α :=
  if score entry > best.1 ∧ eligible entry = true then (score entry, some entry) else best

/-- The best score above the initial one, and the entry that has it. -/
def selectHighest (initial : Int) (entries : List α) : Int × Option α :=
  entries.foldl (keepHigher score eligible) (initial, none)

variable {score eligible}

theorem keepHigher_fst_le (best : Int × Option α) (entry : α) :
    best.1 ≤ (keepHigher score eligible best entry).1 := by
  unfold keepHigher
  split
  · next higher => exact Int.le_of_lt higher.1
  · exact Int.le_refl best.1

theorem foldl_keepHigher_bounds (entries : List α) (best : Int × Option α) :
    best.1 ≤ (entries.foldl (keepHigher score eligible) best).1 ∧
      ∀ entry ∈ entries, eligible entry = true →
        score entry ≤ (entries.foldl (keepHigher score eligible) best).1 := by
  induction entries generalizing best with
  | nil => exact ⟨Int.le_refl best.1, fun entry impossible => (nomatch impossible)⟩
  | cons head rest ih =>
    obtain ⟨grows, covers⟩ := ih (keepHigher score eligible best head)
    rw [foldl_cons]
    refine ⟨(keepHigher_fst_le best head).trans grows, ?_⟩
    intro entry member allowed
    rcases mem_cons.mp member with rfl | later
    · refine Int.le_trans ?_ grows
      unfold keepHigher
      split
      · exact Int.le_refl _
      · next low => exact Int.not_lt.mp fun higher => low ⟨higher, allowed⟩
    · exact covers entry later allowed

theorem selectHighest_attained (initial : Int) (entries : List α) :
    selectHighest score eligible initial entries = (initial, none) ∨
      ∃ entry ∈ entries, eligible entry = true ∧
        selectHighest score eligible initial entries = (score entry, some entry) := by
  unfold selectHighest
  induction entries using reverseRecOn with
  | nil => exact Or.inl rfl
  | append_singleton earlier last ih =>
    rw [foldl_append, foldl_cons, foldl_nil]
    by_cases higher : score last >
        (earlier.foldl (keepHigher score eligible) (initial, none)).1 ∧ eligible last = true
    · exact Or.inr ⟨last, by simp, higher.2, if_pos higher⟩
    · rw [keepHigher, if_neg higher]
      rcases ih with unchanged | ⟨entry, member, allowed, found⟩
      · exact Or.inl unchanged
      · exact Or.inr ⟨entry, mem_append_left _ member, allowed, found⟩

variable {initial : Int} {entries : List α} {entry : α}

theorem le_selectHighest (member : entry ∈ entries) (allowed : eligible entry = true) :
    score entry ≤ (selectHighest score eligible initial entries).1 :=
  (foldl_keepHigher_bounds entries (initial, none)).2 entry member allowed

theorem selectHighest_of_lt (above : initial < (selectHighest score eligible initial entries).1) :
    ∃ entry ∈ entries, eligible entry = true ∧
      selectHighest score eligible initial entries = (score entry, some entry) := by
  rcases selectHighest_attained initial entries with
    unchanged | found
  · rw [unchanged] at above
    exact absurd above (Int.lt_irrefl initial)
  · exact found

theorem selectHighest_cons_of_top {rest : List α}
    (above : initial < score entry) (allowed : eligible entry = true)
    (top : ∀ other ∈ rest, score other ≤ score entry) :
    selectHighest score eligible initial (entry :: rest) = (score entry, some entry) := by
  have first : keepHigher score eligible (initial, none) entry = (score entry, some entry) :=
    if_pos ⟨above, allowed⟩
  rw [selectHighest, foldl_cons, first]
  induction rest with
  | nil => rfl
  | cons other later ih =>
    have low := top other mem_cons_self
    rw [foldl_cons, keepHigher, if_neg fun higher => absurd higher.1 (by omega)]
    exact ih fun next member => top next (mem_cons_of_mem _ member)

theorem foldl_eq_of_selectHighest {σ : Type} (step : σ → α → σ) (part : Int × Option α → σ)
    (initial : Int) (entries : List α)
    (follows : ∀ best entry, step (part best) entry = part (keepHigher score eligible best entry)) :
    entries.foldl step (part (initial, none)) =
      part (selectHighest score eligible initial entries) :=
  foldl_hom part follows

end Selection
