import Mathlib.Data.List.NodupEquivFin

/-!
# Ordered matchings

Each element of one list is to get a partner in another list, the partners in the same
order.  Taking the first partner that fits is as good as any other choice.
-/

namespace OrderedMatching

open List

variable {α β : Type}

/-- Partners for all elements of the left list, in order. -/
def Matches (holds : α → β → Prop) (left : List α) (right : List β) : Prop :=
  ∃ partners, partners.Sublist right ∧ List.Forall₂ holds left partners

/-- The first element takes the first partner that fits. -/
def greedy (test : α → β → Bool) : List α → List β → Bool
  | [], _ => true
  | _ :: _, [] => false
  | first :: rest, partner :: others =>
    if test first partner then greedy test rest others
    else greedy test (first :: rest) others

variable {holds : α → β → Prop} {left : List α} {right : List β}

theorem matches_nil (right : List β) : Matches holds [] right := ⟨[], nil_sublist _, .nil⟩

theorem not_matches_cons_nil (first : α) (rest : List α) : ¬ Matches holds (first :: rest) [] := by
  rintro ⟨partners, within, pairs⟩
  rw [sublist_nil.mp within] at pairs
  cases pairs

section

variable (matched : Matches holds left right)

include matched

theorem Matches.length_le : left.length ≤ right.length := by
  obtain ⟨partners, within, pairs⟩ := matched
  rw [pairs.length_eq]
  exact within.length_le

theorem Matches.skip (partner : β) :
    Matches holds left (partner :: right) := by
  obtain ⟨partners, within, pairs⟩ := matched
  exact ⟨partners, within.cons partner, pairs⟩

theorem Matches.take {first : α} {partner : β}
    (fits : holds first partner) : Matches holds (first :: left) (partner :: right) := by
  obtain ⟨partners, within, pairs⟩ := matched
  exact ⟨partner :: partners, within.cons_cons partner, .cons fits pairs⟩

end

theorem Matches.imp {weaker : α → β → Prop} (matched : Matches holds left right)
    (implies : ∀ first, ∀ partner ∈ right, holds first partner → weaker first partner) :
    Matches weaker left right := by
  obtain ⟨partners, within, pairs⟩ := matched
  refine ⟨partners, within, ?_⟩
  have inside := within.subset
  clear within
  induction pairs with
  | nil => exact .nil
  | cons fits _ ih =>
    exact .cons (implies _ _ (inside mem_cons_self) fits)
      (ih fun _ member => inside (mem_cons_of_mem _ member))

theorem Matches.exists_partner (matched : Matches holds left right) {first : α}
    (member : first ∈ left) : ∃ partner ∈ right, holds first partner := by
  obtain ⟨partners, within, pairs⟩ := matched
  have inside := within.subset
  clear within
  induction pairs with
  | nil => exact absurd member not_mem_nil
  | cons fits _ ih =>
    rcases mem_cons.mp member with rfl | later
    · exact ⟨_, inside mem_cons_self, fits⟩
    · exact ih later fun _ other => inside (mem_cons_of_mem _ other)

theorem matches_filterMap_take (named : β → Option α) (right : List β) (count : Nat) :
    Matches (fun first partner => named partner = some first)
      ((right.filterMap named).take count) right := by
  induction right generalizing count with
  | nil => exact ⟨[], by simp, by simp⟩
  | cons partner others ih =>
    cases name : named partner with
    | none =>
      rw [filterMap_cons_none name]
      exact (ih count).skip partner
    | some first =>
      rw [filterMap_cons_some name]
      cases count with
      | zero => exact matches_nil _
      | succ count => exact (ih count).take name

theorem length_filterMap_take (named : β → Option α) (right : List β) (count : Nat) :
    ((right.filterMap named).take count).length =
      min count (right.countP fun partner => (named partner).isSome) := by
  simp [length_filterMap_eq_countP]

section

variable {first : α} {rest : List α} {partner : β} {others : List β}

theorem matches_cons_cons (fits : holds first partner) :
    Matches holds (first :: rest) (partner :: others) ↔ Matches holds rest others := by
  constructor
  · rintro ⟨partners, within, pairs⟩
    cases pairs with
    | cons _ restPairs =>
      refine ⟨_, ?_, restPairs⟩
      cases within with
      | cons _ skipped => exact (sublist_cons_self _ _).trans skipped
      | cons_cons _ taken => exact taken
  · intro matched
    exact matched.take fits

theorem matches_cons_skip (misfit : ¬ holds first partner) :
    Matches holds (first :: rest) (partner :: others) ↔ Matches holds (first :: rest) others := by
  constructor
  · rintro ⟨partners, within, pairs⟩
    cases within with
    | cons _ skipped => exact ⟨partners, skipped, pairs⟩
    | cons_cons _ taken =>
      cases pairs with
      | cons fits _ => exact absurd fits misfit
  · intro matched
    exact matched.skip partner

end

theorem greedy_iff (test : α → β → Bool) (left : List α) (right : List β) :
    greedy test left right = true ↔
      Matches (fun first partner => test first partner = true) left right := by
  induction right generalizing left with
  | nil =>
    cases left with
    | nil => exact ⟨fun _ => matches_nil [], fun _ => rfl⟩
    | cons first rest =>
      exact ⟨fun impossible => (nomatch impossible),
        fun matched => absurd matched (not_matches_cons_nil first rest)⟩
  | cons partner others ih =>
    cases left with
    | nil => exact ⟨fun _ => matches_nil _, fun _ => rfl⟩
    | cons first rest =>
      rw [greedy]
      by_cases fits : test first partner = true
      · rw [if_pos fits, ih rest]
        exact (@matches_cons_cons _ _ (fun first partner => test first partner = true)
          _ _ _ _ fits).symm
      · rw [if_neg fits, ih (first :: rest)]
        exact (@matches_cons_skip _ _ (fun first partner => test first partner = true)
          _ _ _ _ fits).symm

theorem greedy_eq_false (test : α → β → Bool) (few : right.length < left.length) :
    greedy test left right = false := by
  refine Bool.eq_false_of_not_eq_true fun found => ?_
  have enough := ((greedy_iff test left right).mp found).length_le
  omega

theorem Matches.reverse (matched : Matches holds left right) :
    Matches holds left.reverse right.reverse := by
  obtain ⟨partners, within, pairs⟩ := matched
  exact ⟨partners.reverse, within.reverse, rel_reverse pairs⟩

theorem matches_reverse_iff : Matches holds left.reverse right.reverse ↔ Matches holds left right := by
  constructor
  · intro matched
    have back := matched.reverse
    rwa [reverse_reverse, reverse_reverse] at back
  · exact Matches.reverse

theorem matches_iff_positions :
    Matches holds left right ↔ ∃ position : Fin left.length → Fin right.length,
      StrictMono position ∧ ∀ index, holds (left.get index) (right.get (position index)) := by
  constructor
  · rintro ⟨partners, within, pairs⟩
    obtain ⟨position, same⟩ := sublist_iff_exists_fin_orderEmbedding_get_eq.mp within
    have length_eq := pairs.length_eq
    refine ⟨fun index => position (index.cast length_eq), ?_, fun index => ?_⟩
    · intro index later before
      exact position.strictMono before
    · rw [← same]
      exact pairs.get index.isLt (length_eq ▸ index.isLt)
  · rintro ⟨position, increasing, pairs⟩
    refine ⟨ofFn fun index => right.get (position index), ?_, ?_⟩
    · refine sublist_iff_exists_fin_orderEmbedding_get_eq.mpr
        ⟨OrderEmbedding.ofStrictMono (fun index => position (index.cast length_ofFn)) ?_, ?_⟩
      · intro index later before
        exact increasing before
      · intro index
        rw [get_ofFn]
        rfl
    · refine List.forall₂_iff_get.mpr ⟨length_ofFn.symm, fun index inside _ => ?_⟩
      rw [get_ofFn]
      exact pairs ⟨index, inside⟩

end OrderedMatching
