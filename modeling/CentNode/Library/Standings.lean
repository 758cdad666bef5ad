import CentNode.Library.Greedy

/-!
# Places in a ranked order

Entries are sorted by falling rank and known by their place in the order.  The
order of entries of equal rank is left open, so that a place is certain only
where there is no tie.
-/

namespace Standings

open List

open Greedy

variable {α κ ρ : Type} [LinearOrder ρ] (rank : α → ρ)

/-- An order in which a sort by rank may leave the entries. -/
structure IsOrder (entries order : List α) : Prop where
  perm : order.Perm entries
  ranked : Ranked rank order

variable {rank} {entries order : List α}

theorem isOrder_sortByRank (rank : α → ρ) (entries : List α) :
    IsOrder rank entries (sortByRank rank entries) :=
  ⟨sortByRank_perm entries, sortByRank_ranked entries⟩

theorem exists_isOrder (rank : α → ρ) {entry : α} (member : entry ∈ entries) :
    ∃ before after, before.Perm (above rank entries entry) ∧
      IsOrder rank entries (before ++ entry :: after) := by
  have sorted := isOrder_sortByRank rank entries
  obtain ⟨after, perm, ranked⟩ := exists_order sorted.ranked (sorted.perm.mem_iff.mpr member)
  exact ⟨_, after, sorted.perm.filter _, perm.trans sorted.perm, ranked⟩

/-- Without a tie an entry stands right after those of higher ranks. -/
theorem getElem?_of_untied {entry : α} (sorted : IsOrder rank entries order)
    (member : entry ∈ entries)
    (untied : ∀ other ∈ entries, other ≠ entry → rank other ≠ rank entry)
    (distinct : entries.Nodup) :
    order[(above rank entries entry).length]? = some entry := by
  obtain ⟨before, after, rfl⟩ := append_of_mem (sorted.perm.mem_iff.mpr member)
  obtain ⟨-, lower, across⟩ := pairwise_append.mp sorted.ranked
  have new : entry ∉ before ++ after :=
    (nodup_cons.mp ((perm_middle.nodup_iff).mp (sorted.perm.nodup_iff.mpr distinct))).1
  have strict : ∀ other ∈ before ++ after, rank other ≠ rank entry := by
    intro other there
    refine untied other (sorted.perm.mem_iff.mp ?_) fun same => new (same ▸ there)
    exact perm_middle.mem_iff.mpr (mem_cons_of_mem entry there)
  have kept : (before ++ entry :: after).filter (fun other => rank entry < rank other) =
      before := by
    rw [filter_append, filter_cons_of_neg (by simp)]
    have early : before.filter (fun other => rank entry < rank other) = before := by
      refine filter_eq_self.mpr fun other there => decide_eq_true ?_
      exact lt_of_le_of_ne (across other there entry mem_cons_self)
        (Ne.symm (strict other (mem_append_left after there)))
    have late : after.filter (fun other => rank entry < rank other) = [] := by
      refine filter_eq_nil_iff.mpr fun other there => ?_
      simpa using (pairwise_cons.mp lower).1 other there
    rw [early, late, append_nil]
  have length_eq : (above rank entries entry).length = before.length := by
    rw [above, ← (sorted.perm.filter _).length_eq, kept]
  rw [length_eq, getElem?_append_right (le_refl _), Nat.sub_self]
  rfl

/-! ## Two sorts that agree -/

section Keys

variable (key : α → κ) (rank)

/-- Entries with the same keys, in the same order of ranks, and no ties. -/
structure SameOrder (left right : List α) : Prop where
  keys : ∀ name, name ∈ left.map key ↔ name ∈ right.map key
  ranks : ∀ first ∈ left, ∀ second ∈ left, ∀ firstToo ∈ right, ∀ secondToo ∈ right,
    key first = key firstToo → key second = key secondToo → key first ≠ key second →
      (rank first < rank second ∧ rank firstToo < rank secondToo) ∨
        (rank second < rank first ∧ rank secondToo < rank firstToo)

variable {key rank} {left right : List α}

variable {first second : α}

theorem IsOrder.pairwise_key (sorted : IsOrder rank entries order)
    (distinct : (entries.map key).Nodup) (member : first ∈ entries) (memberToo : second ∈ entries)
    (lower : rank first < rank second) :
    (order.map key).Pairwise fun one two => ¬ (one = key first ∧ two = key second) := by
  rw [pairwise_map]
  refine pairwise_iff_forall_sublist.mpr ?_
  rintro one two within ⟨isFirst, isSecond⟩
  have inside : ∀ entry ∈ [one, two], entry ∈ entries := fun entry there =>
    sorted.perm.mem_iff.mp (within.subset there)
  have first_eq := inj_on_of_nodup_map distinct (inside one (by simp)) member isFirst
  have second_eq := inj_on_of_nodup_map distinct (inside two (by simp)) memberToo isSecond
  have falls := pairwise_iff_forall_sublist.mp sorted.ranked within
  rw [first_eq, second_eq] at falls
  exact absurd lower (not_lt.mpr falls)

variable {names : List κ}

theorem not_pairwise_both {first second : κ} (member : first ∈ names) (memberToo : second ∈ names)
    (differ : first ≠ second)
    (forward : names.Pairwise fun one two => ¬ (one = first ∧ two = second))
    (backward : names.Pairwise fun one two => ¬ (one = second ∧ two = first)) : False := by
  induction names with
  | nil => cases member
  | cons name rest ih =>
    obtain ⟨forwardHere, forwardRest⟩ := pairwise_cons.mp forward
    obtain ⟨backwardHere, backwardRest⟩ := pairwise_cons.mp backward
    rcases mem_cons.mp member with rfl | later
    · have behind := (mem_cons.mp memberToo).resolve_left (Ne.symm differ)
      exact forwardHere second behind ⟨rfl, rfl⟩
    · rcases mem_cons.mp memberToo with rfl | laterToo
      · exact backwardHere first later ⟨rfl, rfl⟩
      · exact ih later laterToo forwardRest backwardRest

theorem exists_orders_of_tie (member : first ∈ entries) (memberToo : second ∈ entries)
    (differ : key first ≠ key second) (tied : rank first = rank second) :
    ∃ one two, IsOrder rank entries one ∧ IsOrder rank entries two ∧ one.map key ≠ two.map key := by
  obtain ⟨before, after, perm, sorted⟩ := exists_isOrder rank member
  obtain ⟨beforeToo, afterToo, permToo, sortedToo⟩ := exists_isOrder rank memberToo
  refine ⟨_, _, sorted, sortedToo, fun same => differ ?_⟩
  have above_eq : above rank entries first = above rank entries second := by
    rw [above, above, tied]
  have length_eq : (before.map key).length = (beforeToo.map key).length := by
    rw [length_map, length_map, perm.length_eq, permToo.length_eq, above_eq]
  rw [map_append, map_append] at same
  exact (List.cons.inj (append_inj_right same length_eq)).1

theorem untied_of_keys_eq (agree : ∀ order, IsOrder rank entries order → order.map key = names)
    (member : first ∈ entries) (memberToo : second ∈ entries) (differ : key first ≠ key second) :
    rank first ≠ rank second := by
  intro tied
  obtain ⟨one, two, oneSorted, twoSorted, unequal⟩ :=
    exists_orders_of_tie member memberToo differ tied
  exact unequal ((agree one oneSorted).trans (agree two twoSorted).symm)

theorem not_opposed {order orderToo : List α} (sorted : IsOrder rank left order)
    (sortedToo : IsOrder rank right orderToo) (here : order.map key = names)
    (there : orderToo.map key = names) (distinct : (left.map key).Nodup)
    (distinctToo : (right.map key).Nodup) {firstToo secondToo : α} (member : first ∈ left)
    (memberToo : second ∈ left) (inside : firstToo ∈ right) (insideToo : secondToo ∈ right)
    (isFirst : key first = key firstToo) (isSecond : key second = key secondToo)
    (differ : key first ≠ key second) (lower : rank first < rank second) :
    ¬ rank secondToo < rank firstToo := by
  intro higher
  have forward := sorted.pairwise_key distinct member memberToo lower
  have backward := sortedToo.pairwise_key distinctToo insideToo inside higher
  rw [here] at forward
  rw [there, ← isFirst, ← isSecond] at backward
  have found : ∀ entry ∈ left, key entry ∈ names := by
    intro entry held
    rw [← here]
    exact mem_map_of_mem (sorted.perm.mem_iff.mpr held)
  exact not_pairwise_both (found first member) (found second memberToo) differ forward backward

theorem SameOrder.refl_right (alike : SameOrder rank key left right)
    (distinct : (right.map key).Nodup) : SameOrder rank key right right := by
  refine ⟨fun _ => Iff.rfl, ?_⟩
  intro first member second memberToo firstToo inside secondToo insideToo isFirst isSecond differ
  have first_eq := inj_on_of_nodup_map distinct member inside isFirst
  have second_eq := inj_on_of_nodup_map distinct memberToo insideToo isSecond
  subst first_eq second_eq
  obtain ⟨one, oneLeft, one_eq⟩ := mem_map.mp ((alike.keys (key first)).mpr (mem_map_of_mem member))
  obtain ⟨two, twoLeft, two_eq⟩ :=
    mem_map.mp ((alike.keys (key second)).mpr (mem_map_of_mem memberToo))
  have differToo : key one ≠ key two := by
    rw [one_eq, two_eq]
    exact differ
  rcases alike.ranks one oneLeft two twoLeft first member second memberToo one_eq two_eq
    differToo with lower | higher
  · exact Or.inl ⟨lower.2, lower.2⟩
  · exact Or.inr ⟨higher.2, higher.2⟩

theorem SameOrder.pairwise_right (alike : SameOrder rank key left right)
    (distinct : (left.map key).Nodup) (sorted : IsOrder rank left order) :
    (order.map key).Pairwise fun one two =>
      ∀ first ∈ right, ∀ second ∈ right, key first = one → key second = two →
        rank second < rank first := by
  rw [pairwise_map]
  refine pairwise_iff_forall_sublist.mpr ?_
  intro one two within first member second memberToo isOne isTwo
  have inside : ∀ entry ∈ [one, two], entry ∈ left := fun entry there =>
    sorted.perm.mem_iff.mp (within.subset there)
  have differ : key one ≠ key two := by
    have names := (sorted.perm.map key).nodup_iff.mpr distinct
    exact pairwise_iff_forall_sublist.mp (pairwise_map.mp names) within
  have falls := pairwise_iff_forall_sublist.mp sorted.ranked within
  rcases alike.ranks one (inside one (by simp)) two (inside two (by simp)) first member second
    memberToo isOne.symm isTwo.symm differ with lower | higher
  · exact absurd lower.1 (not_lt.mpr falls)
  · exact higher.2

theorem keys_eq_iff (distinct : (left.map key).Nodup) (distinctToo : (right.map key).Nodup) :
    (∀ one two, IsOrder rank left one → IsOrder rank right two → one.map key = two.map key) ↔
      SameOrder rank key left right := by
  constructor
  · intro agree
    have sorted := isOrder_sortByRank rank left
    have sortedToo := isOrder_sortByRank rank right
    have same := agree _ _ sorted sortedToo
    refine ⟨fun name => ?_, ?_⟩
    · rw [← (sorted.perm.map key).mem_iff, same, (sortedToo.perm.map key).mem_iff]
    · intro first member second memberToo firstToo inside secondToo insideToo isFirst isSecond
        differ
      have differToo : key firstToo ≠ key secondToo := by
        rw [← isFirst, ← isSecond]
        exact differ
      have untied := untied_of_keys_eq (fun order there => agree order _ there sortedToo) member
        memberToo differ
      have untiedToo := untied_of_keys_eq (fun order there => (agree _ order sorted there).symm)
        inside insideToo differToo
      rcases lt_or_gt_of_ne untied with lower | higher
      · refine Or.inl ⟨lower, lt_of_le_of_ne (not_lt.mp ?_) untiedToo⟩
        exact not_opposed sorted sortedToo rfl same.symm distinct distinctToo member memberToo
          inside insideToo isFirst isSecond differ lower
      · refine Or.inr ⟨higher, lt_of_le_of_ne (not_lt.mp ?_) untiedToo.symm⟩
        exact not_opposed sorted sortedToo rfl same.symm distinct distinctToo memberToo member
          insideToo inside isSecond isFirst differ.symm higher
  · intro alike one two sorted sortedToo
    have names : (one.map key).Perm (two.map key) := by
      refine (perm_ext_iff_of_nodup ((sorted.perm.map key).nodup_iff.mpr distinct)
        ((sortedToo.perm.map key).nodup_iff.mpr distinctToo)).mpr fun name => ?_
      rw [(sorted.perm.map key).mem_iff, (sortedToo.perm.map key).mem_iff]
      exact alike.keys name
    refine names.eq_of_pairwise ?_ (alike.pairwise_right distinct sorted)
      ((alike.refl_right distinctToo).pairwise_right distinctToo sortedToo)
    intro first second member memberToo lower higher
    rw [(sorted.perm.map key).mem_iff, alike.keys] at member
    rw [(sortedToo.perm.map key).mem_iff] at memberToo
    obtain ⟨one, oneRight, one_eq⟩ := mem_map.mp member
    obtain ⟨two, twoRight, two_eq⟩ := mem_map.mp memberToo
    have falls := lower one oneRight two twoRight one_eq two_eq
    exact absurd (higher two twoRight one oneRight two_eq one_eq) (not_lt.mpr falls.le)

end Keys

/-! ## A place found in a longer list -/

theorem mem_above {entry other : α} :
    other ∈ above rank entries entry ↔ other ∈ entries ∧ rank entry < rank other := by
  rw [above, mem_filter, decide_eq_true_eq]

section

variable {shorter longer : List α} (within : shorter.Sublist longer) (distinct : longer.Nodup)

include within distinct

/-- A sort that puts an entry of no lower rank before another one moves the
other behind its place. -/
theorem exists_displaced {entry extra : α} (member : entry ∈ shorter)
    (there : extra ∈ longer) (new : extra ∉ shorter) (higher : rank entry ≤ rank extra) :
    ∃ order, IsOrder rank longer order ∧
      order[(above rank shorter entry).length]? ≠ some entry := by
  obtain ⟨before, after, perm, sorted⟩ := exists_isOrder rank there
  refine ⟨_, sorted, fun found => ?_⟩
  have nodup := sorted.perm.nodup_iff.mpr distinct
  have inAfter : entry ∈ after := by
    have inside := sorted.perm.mem_iff.mpr (within.subset member)
    rcases mem_append.mp inside with early | late
    · have above_extra := (mem_above.mp (perm.mem_iff.mp early)).2
      exact absurd above_extra (not_lt.mpr higher)
    · refine (mem_cons.mp late).resolve_left fun same => ?_
      exact new (same ▸ member)
  obtain ⟨early, late, rfl⟩ := append_of_mem inAfter
  have place : (before ++ extra :: (early ++ entry :: late)) =
      (before ++ extra :: early) ++ entry :: late := by
    rw [append_assoc, cons_append]
  rw [place] at found nodup sorted
  -- the place of the entry is the number of entries before it
  have index : (above rank shorter entry).length = (before ++ extra :: early).length := by
    obtain ⟨bound, _⟩ := List.getElem?_eq_some_iff.mp found
    refine (getElem?_inj bound nodup).mp (found.trans ?_)
    rw [getElem?_append_right (le_refl _), Nat.sub_self]
    rfl
  have lower := (pairwise_cons.mp (pairwise_append.mp sorted.ranked).2.1).1
  have covered : extra :: above rank shorter entry ⊆ before ++ extra :: early := by
    intro other held
    rcases mem_cons.mp held with rfl | ahead
    · exact mem_append_right before mem_cons_self
    · obtain ⟨inShorter, rises⟩ := mem_above.mp ahead
      have inside := sorted.perm.mem_iff.mpr (within.subset inShorter)
      refine (mem_append.mp inside).resolve_right fun behind => ?_
      rcases mem_cons.mp behind with rfl | later
      · exact lt_irrefl _ rises
      · exact absurd rises (not_lt.mpr (lower other later))
  have fresh : (extra :: above rank shorter entry).Nodup :=
    nodup_cons.mpr ⟨fun held => new (mem_above.mp held).1,
      (distinct.sublist within).filter _⟩
  have count := (subperm_of_subset fresh covered).length_le
  rw [length_cons, index] at count
  omega

/-- The entries of a shorter list keep their places in every sort of a longer
one exactly if what the longer list has more ranks below all of them. -/
theorem places_kept_iff
    (untied : ∀ first ∈ shorter, ∀ second ∈ shorter, first ≠ second → rank first ≠ rank second) :
    (∀ entry ∈ shorter, ∀ order, IsOrder rank longer order →
        order[(above rank shorter entry).length]? = some entry) ↔
      ∀ entry ∈ shorter, ∀ extra ∈ longer, extra ∉ shorter → rank extra < rank entry := by
  constructor
  · intro kept entry member extra there new
    refine not_le.mp fun higher => ?_
    obtain ⟨order, sorted, displaced⟩ := exists_displaced within distinct member there new higher
    exact displaced (kept entry member order sorted)
  · intro below entry member order sorted
    have same : (above rank shorter entry).Perm (above rank longer entry) := by
      refine (perm_ext_iff_of_nodup ((distinct.sublist within).filter _)
        (distinct.filter _)).mpr fun other => ?_
      rw [← above, ← above, mem_above, mem_above]
      refine ⟨fun held => ⟨within.subset held.1, held.2⟩, fun held => ⟨?_, held.2⟩⟩
      by_contra new
      exact lt_asymm held.2 (below entry member other held.1 new)
    rw [same.length_eq]
    refine getElem?_of_untied sorted (within.subset member) ?_ distinct
    intro other there differ
    by_cases inside : other ∈ shorter
    · exact untied other inside entry member differ
    · exact (below entry member other there inside).ne

end

end Standings
