import Mathlib.Algebra.Order.BigOperators.Group.List
import Mathlib.Algebra.Order.Ring.Int
import Mathlib.Data.List.Sort

/-!
# Greedy selection

A loop walks over a list in the order of a rank and takes each entry whose
amount still fits under a total.  The order of entries of equal rank is left
open; the second part says when it does not matter.
-/

namespace Greedy

open List

variable {α ρ : Type} (amount : α → Int) (total : Int)

/-- The entries taken when `spent` is used up already. -/
def take : Int → List α → List α
  | _, [] => []
  | spent, entry :: rest =>
    if amount entry + spent ≤ total then entry :: take (spent + amount entry) rest
    else take spent rest

/-- The amount of the entries together. -/
def cost (entries : List α) : Int := (entries.map amount).sum

variable {amount total} {spent : Int} {entries : List α}

@[simp] theorem cost_nil : cost amount [] = 0 := rfl

@[simp] theorem cost_cons (entry : α) (rest : List α) :
    cost amount (entry :: rest) = amount entry + cost amount rest := sum_cons

theorem take_cons_of_fits {entry : α} (fits : amount entry + spent ≤ total) (rest : List α) :
    take amount total spent (entry :: rest) =
      entry :: take amount total (spent + amount entry) rest := by
  rw [take, if_pos fits]

theorem take_cons_of_not_fits {entry : α} (large : ¬ amount entry + spent ≤ total)
    (rest : List α) : take amount total spent (entry :: rest) = take amount total spent rest := by
  rw [take, if_neg large]

theorem take_sublist (spent : Int) (entries : List α) :
    (take amount total spent entries).Sublist entries := by
  induction entries generalizing spent with
  | nil => exact List.Sublist.refl []
  | cons entry rest ih =>
    rw [take]
    split
    · exact (ih _).cons_cons entry
    · exact (ih _).cons entry

theorem spent_add_cost_take_le (amount : α → Int) (within : spent ≤ total) (entries : List α) :
    spent + cost amount (take amount total spent entries) ≤ total := by
  induction entries generalizing spent with
  | nil => simpa [take] using within
  | cons entry rest ih =>
    rw [take]
    split
    case isTrue fits =>
      have later := ih (by omega : spent + amount entry ≤ total)
      rw [cost_cons]
      omega
    case isFalse => exact ih within

theorem take_append (spent : Int) (first second : List α) :
    take amount total spent (first ++ second) =
      take amount total spent first ++
        take amount total (spent + cost amount (take amount total spent first)) second := by
  induction first generalizing spent with
  | nil => simp [take]
  | cons entry rest ih =>
    rw [cons_append, take, take]
    split
    · rw [ih, cost_cons, cons_append, Int.add_assoc]
    · exact ih spent

theorem take_middle (amount : α → Int) (total spent : Int) (before : List α) (entry : α)
    (after : List α) :
    let earlier := take amount total spent before
    (∃ later, take amount total spent (before ++ entry :: after) = earlier ++ entry :: later) ∨
      (total < amount entry + (spent + cost amount earlier) ∧
        ∃ later, take amount total spent (before ++ entry :: after) = earlier ++ later ∧
          later.Sublist after) := by
  intro earlier
  by_cases fits : amount entry + (spent + cost amount earlier) ≤ total
  · refine Or.inl ⟨take amount total (spent + cost amount earlier + amount entry) after, ?_⟩
    rw [take_append, take_cons_of_fits fits]
  · refine Or.inr ⟨Int.not_le.mp fits, take amount total (spent + cost amount earlier) after, ?_,
      take_sublist _ after⟩
    rw [take_append, take_cons_of_not_fits fits]

theorem cost_nonneg (positive : ∀ entry ∈ entries, 0 ≤ amount entry) : 0 ≤ cost amount entries := by
  refine List.sum_nonneg fun value member => ?_
  obtain ⟨entry, inside, rfl⟩ := mem_map.mp member
  exact positive entry inside

theorem take_skip {before after : List α} {entry : α}
    (positive : ∀ other ∈ before, 0 ≤ amount other)
    (large : ¬ amount entry + spent ≤ total) :
    take amount total spent (before ++ entry :: after) =
      take amount total spent (before ++ after) := by
  have grows : 0 ≤ cost amount (take amount total spent before) :=
    cost_nonneg fun other member => positive other ((take_sublist spent before).subset member)
  rw [take_append, take_append, take_cons_of_not_fits (by omega)]

theorem take_map {β : Type} (amount : β → Int) (total : Int) (view : α → β) (spent : Int)
    (entries : List α) :
    take amount total spent (entries.map view) =
      (take (fun entry => amount (view entry)) total spent entries).map view := by
  induction entries generalizing spent with
  | nil => rfl
  | cons entry rest ih =>
    rw [map_cons, take, take]
    split
    · rw [ih, map_cons]
    · exact ih spent

theorem cost_map {β : Type} (amount : β → Int) (view : α → β) (entries : List α) :
    cost amount (entries.map view) = cost (fun entry => amount (view entry)) entries := by
  rw [cost, cost, map_map]
  rfl

/-! ## Entries of equal rank -/

section Ties

variable [LinearOrder ρ] (rank : α → ρ)

/-- Higher ranks come first. -/
def Ranked (entries : List α) : Prop :=
  entries.Pairwise fun first second => rank second ≤ rank first

/-- The entries of a higher rank than this one. -/
def above (entries : List α) (entry : α) : List α :=
  entries.filter fun other => rank entry < rank other

variable (amount total)

/-- Of different entries of one rank at most one fits into what the entries of
higher ranks leave. -/
def Clear (spent : Int) (entries : List α) : Prop :=
  ∀ first ∈ entries, ∀ second ∈ entries, first ≠ second → rank first = rank second →
    ¬ (amount first + (spent + cost amount (take amount total spent (above rank entries first))) ≤
        total ∧
      amount second + (spent + cost amount (take amount total spent (above rank entries first))) ≤
        total)

variable {amount total rank}

variable {top entry : α} {rest : List α}

theorem above_cons_of_lt (lower : rank entry < rank top) :
    above rank (top :: rest) entry = top :: above rank rest entry :=
  filter_cons_of_pos (decide_eq_true lower)

theorem above_eq_nil (highest : ∀ other ∈ entries, rank other ≤ rank entry) :
    above rank entries entry = [] := by
  rw [above, filter_eq_nil_iff]
  intro other member
  simpa using highest other member

theorem Clear.tail_of_not_fits (clear : Clear amount total rank spent (top :: rest))
    (highest : ∀ other ∈ rest, rank other ≤ rank top) (large : ¬ amount top + spent ≤ total) :
    Clear amount total rank spent rest := by
  intro first member second memberToo differ same
  have whole := clear first (mem_cons_of_mem top member) second
    (mem_cons_of_mem top memberToo) differ same
  rcases lt_or_eq_of_le (highest first member) with lower | equal
  · rw [above_cons_of_lt lower, take_cons_of_not_fits large] at whole
    exact whole
  · have nothing : above rank (top :: rest) first = above rank rest first :=
      filter_cons_of_neg (by simp [equal])
    rw [nothing] at whole
    exact whole

theorem Clear.tail_of_fits (clear : Clear amount total rank spent (top :: rest))
    (positive : 0 ≤ amount top) (new : top ∉ rest)
    (highest : ∀ other ∈ rest, rank other ≤ rank top) (fits : amount top + spent ≤ total) :
    Clear amount total rank (spent + amount top) rest := by
  intro first member second memberToo differ same
  have whole := clear first (mem_cons_of_mem top member) second
    (mem_cons_of_mem top memberToo) differ same
  rcases lt_or_eq_of_le (highest first member) with lower | equal
  · rw [above_cons_of_lt lower, take_cons_of_fits fits, cost_cons, ← Int.add_assoc spent] at whole
    exact whole
  · have nothing : above rank rest first = [] :=
      above_eq_nil fun other inside => equal ▸ highest other inside
    have withTop := clear first (mem_cons_of_mem top member) top mem_cons_self
      (fun equalToo => new (equalToo ▸ member)) equal
    have nothingToo : above rank (top :: rest) first = [] := by
      refine above_eq_nil fun other inside => ?_
      rcases mem_cons.mp inside with rfl | later
      · exact le_of_eq equal.symm
      · exact equal ▸ highest other later
    rw [nothingToo] at withTop
    rw [nothing]
    simp only [take, cost_nil] at withTop ⊢
    omega

/-- Where ties are clear, every order of the entries gives the same result. -/
theorem take_eq_of_clear {first second : List α}
    (positive : ∀ entry ∈ first, 0 ≤ amount entry) (distinct : first.Nodup)
    (clear : Clear amount total rank spent first) (ranked : Ranked rank first)
    (rankedToo : Ranked rank second) (perm : first.Perm second) :
    take amount total spent first = take amount total spent second := by
  induction first generalizing second spent with
  | nil => rw [perm.symm.eq_nil]
  | cons top rest ih =>
    obtain ⟨highest, restRanked⟩ := pairwise_cons.mp ranked
    obtain ⟨new, restDistinct⟩ := nodup_cons.mp distinct
    have restPositive : ∀ entry ∈ rest, 0 ≤ amount entry := fun entry member =>
      positive entry (mem_cons_of_mem top member)
    obtain ⟨before, after, rfl⟩ := append_of_mem (perm.mem_iff.mp mem_cons_self)
    have others : rest.Perm (before ++ after) := (perm.trans perm_middle).cons_inv
    have othersRanked : Ranked rank (before ++ after) :=
      rankedToo.sublist ((sublist_cons_self top after).append_left before)
    have beforePositive : ∀ entry ∈ before, 0 ≤ amount entry := fun entry member =>
      restPositive entry (others.mem_iff.mpr (mem_append_left after member))
    by_cases fits : amount top + spent ≤ total
    · -- nothing before the first entry of the other order fits
      have passed : ∀ entry ∈ before, ¬ amount entry + spent ≤ total := by
        intro entry member fitsToo
        have inside := others.mem_iff.mpr (mem_append_left after member)
        have higher : rank top ≤ rank entry :=
          (pairwise_append.mp rankedToo).2.2 entry member top mem_cons_self
        have equal : rank entry = rank top := le_antisymm (highest entry inside) higher
        have nothing : above rank (top :: rest) entry = [] := by
          refine above_eq_nil fun other member => ?_
          rcases mem_cons.mp member with rfl | later
          · exact higher
          · exact equal ▸ highest other later
        have tied := clear entry (mem_cons_of_mem top inside) top mem_cons_self
          (fun equalToo => new (equalToo ▸ inside)) equal
        rw [nothing] at tied
        simp only [take, cost_nil, Int.add_zero] at tied
        exact tied ⟨fitsToo, fits⟩
      have skip : ∀ (spentNow : Int) (rest : List α), spent ≤ spentNow →
          take amount total spentNow (before ++ rest) = take amount total spentNow rest := by
        intro spentNow rest later
        clear rankedToo perm others othersRanked
        induction before with
        | nil => rfl
        | cons entry more moreIh =>
          have large := passed entry mem_cons_self
          rw [cons_append, take_cons_of_not_fits (by omega)]
          exact moreIh
            (fun other member => beforePositive other (mem_cons_of_mem entry member))
            (fun other member => passed other (mem_cons_of_mem entry member))
      have taken := positive top mem_cons_self
      rw [take_cons_of_fits fits, skip spent _ le_rfl, take_cons_of_fits fits,
        ← skip (spent + amount top) after (by omega)]
      refine congrArg (top :: ·) ?_
      exact ih restPositive restDistinct
        (clear.tail_of_fits taken new highest fits) restRanked othersRanked others
    · rw [take_cons_of_not_fits fits, take_skip beforePositive fits]
      exact ih restPositive restDistinct (clear.tail_of_not_fits highest fits) restRanked
        othersRanked others

theorem clear_of_ranks (distinct : (entries.map rank).Nodup) (spent : Int) :
    Clear amount total rank spent entries := by
  intro first member second memberToo differ same
  exact absurd (inj_on_of_nodup_map distinct member memberToo same) differ

theorem Clear.map {β : Type} (amount : β → Int) (rank : β → ρ) (view : α → β)
    (clear : Clear (fun entry => amount (view entry)) total (fun entry => rank (view entry))
      spent entries) : Clear amount total rank spent (entries.map view) := by
  intro first member second memberToo differ same
  obtain ⟨one, inside, rfl⟩ := mem_map.mp member
  obtain ⟨two, insideToo, rfl⟩ := mem_map.mp memberToo
  have higher : above rank (entries.map view) (view one) =
      (above (fun entry => rank (view entry)) entries one).map view := filter_map
  rw [higher, take_map, cost_map]
  exact clear one inside two insideToo (fun equal => differ (congrArg view equal)) same

/-- The entries in one of the orders, an entry before those of its rank that
came after it. -/
def sortByRank (rank : α → ρ) (entries : List α) : List α :=
  entries.insertionSort fun first second => rank second ≤ rank first

theorem sortByRank_perm (entries : List α) : (sortByRank rank entries).Perm entries :=
  perm_insertionSort _ entries

theorem sortByRank_ranked (entries : List α) : Ranked rank (sortByRank rank entries) := by
  have total : Std.Total fun first second : α => rank second ≤ rank first :=
    ⟨fun first second => le_total (rank second) (rank first)⟩
  have transitive : IsTrans α fun first second : α => rank second ≤ rank first :=
    ⟨fun first second third one two => two.trans one⟩
  exact pairwise_insertionSort _ entries

/-- An entry can stand right after those of higher ranks. -/
theorem exists_order (ranked : Ranked rank entries) (member : entry ∈ entries) :
    ∃ rest, (above rank entries entry ++ entry :: rest).Perm entries ∧
      Ranked rank (above rank entries entry ++ entry :: rest) := by
  have inside : entry ∈ entries.filter fun other => !decide (rank entry < rank other) := by
    rw [mem_filter]
    exact ⟨member, by simp⟩
  obtain ⟨before, after, split⟩ := append_of_mem inside
  have low : ∀ other ∈ before ++ after, rank other ≤ rank entry := by
    intro other there
    have kept : other ∈ entries.filter fun other => !decide (rank entry < rank other) := by
      rw [split]
      rcases mem_append.mp there with early | late
      · exact mem_append_left _ early
      · exact mem_append_right _ (mem_cons_of_mem entry late)
    simpa using (mem_filter.mp kept).2
  refine ⟨before ++ after, ?_, ?_⟩
  · have parts := filter_append_perm (fun other => decide (rank entry < rank other)) entries
    rw [split] at parts
    exact (perm_middle.symm.append_left _).trans parts
  · have lowRanked : Ranked rank (before ++ after) := by
      refine List.Pairwise.sublist ?_ ranked
      refine List.Sublist.trans ?_ (filter_sublist
        (p := fun other => !decide (rank entry < rank other)))
      rw [split]
      exact (sublist_cons_self entry after).append_left before
    refine pairwise_append.mpr ⟨ranked.sublist filter_sublist,
      pairwise_cons.mpr ⟨low, lowRanked⟩, ?_⟩
    intro high there other later
    have higher : rank entry < rank high := by
      simpa using (mem_filter.mp there).2
    rcases mem_cons.mp later with rfl | later
    · exact higher.le
    · exact (low other later).trans higher.le

end Ties

end Greedy
