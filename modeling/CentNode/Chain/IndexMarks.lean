import CentNode.Chain.IndexActivate

/-!
# Blocks marked by hand

`InvalidateBlock` takes the block off the active chain and refills the
candidates.  `ReconsiderBlock` clears the flags of the block, of its descendants
and of its ancestors, but not of the other descendants of those ancestors.
-/

namespace CentNode

open List Function Option

variable {hashGenesisBlock : Uint256}

namespace IndexState

variable {state : IndexState} {tip pindex : BlockPtr}

/-! ## Refilling the candidates -/

theorem foldl_insertCandidate (offers : List BlockPtr) (state : IndexState) :
    ∃ candidates, offers.foldl insertCandidate state =
        { state with setBlockIndexCandidates := candidates } ∧
      ∀ {candidate}, candidate ∈ candidates ↔
        candidate ∈ state.setBlockIndexCandidates ∨ candidate ∈ offers := by
  induction offers generalizing state with
  | nil => exact ⟨state.setBlockIndexCandidates, rfl, by simp⟩
  | cons offer rest ih =>
    obtain ⟨candidates, same, members⟩ := ih (state.insertCandidate offer)
    refine ⟨candidates, same, fun {candidate} => ?_⟩
    rw [members, insertCandidate, mem_insert_iff, mem_cons]
    constructor
    · rintro ((isOffer | inside) | later)
      · exact .inr (.inl isOffer)
      · exact .inl inside
      · exact .inr (.inr later)
    · rintro (inside | isOffer | later)
      · exact .inl (.inr inside)
      · exact .inl (.inl isOffer)
      · exact .inr later

/-! ## InvalidateBlock -/

/-- The invariant while `InvalidateBlock` takes `pindex` off the active chain. -/
structure Unwinding (hashGenesisBlock : Uint256) (pindex : BlockPtr) (state : IndexState)
    (tip : BlockPtr) : Prop where
  formed : state.tree.WellFormed hashGenesisBlock
  status : StatusOk state.tree state.nStatus state.nTx
  links : LinkOk state.tree state.nTx state.nChainTx state.nSequenceId state.mapBlocksUnlinked []
  known : state.tree.Known tip
  linked : state.nChainTx tip ≠ 0
  active : state.chainActive = state.tree.path tip
  scripts : state.tree.pprev tip ≠ none → 4 ≤ (state.nStatus tip).validity.level
  clear : ∀ {elder}, state.tree.Below tip elder → ¬ state.tree.Below elder pindex →
    (state.nStatus elder).failed = false
  marked : (state.nStatus pindex).failedValid = true
  member : ∀ {candidate}, candidate ∈ state.setBlockIndexCandidates →
    state.tree.Known candidate ∧ state.nChainTx candidate ≠ 0 ∧ state.worse candidate tip = false

theorem Consistent.unwinding (consistent : state.Consistent hashGenesisBlock tip tip)
    (pindex : BlockPtr) :
    (state.invalidBlockFound pindex).Unwinding hashGenesisBlock pindex tip := by
  have marked : ((state.invalidBlockFound pindex).nStatus pindex).failedValid = true := by
    simp [IndexState.invalidBlockFound, updateStatus, eraseCandidate]
  have others : ∀ {other}, other ≠ pindex →
      (state.invalidBlockFound pindex).nStatus other = state.nStatus other :=
    fun differ => update_of_ne differ _ _
  constructor
  case formed => exact consistent.formed
  case status => exact consistent.status.mark rfl rfl (fun _ => rfl) ⟨pindex, .refl pindex, marked⟩
  case links => exact consistent.links
  case known => exact consistent.active.usable.known
  case linked => exact consistent.active.usable.linked
  case active => exact consistent.active.active
  case scripts =>
    intro inner
    have level := consistent.active.scripts inner
    by_cases here : tip = pindex
    · subst here
      simpa [IndexState.invalidBlockFound, updateStatus, eraseCandidate] using level
    · rw [others here]
      exact level
  case clear =>
    intro elder above notUnder
    rw [others (by rintro rfl; exact notUnder (.refl elder))]
    exact consistent.active.usable.clear above
  case marked => exact marked
  case member =>
    intro candidate inside
    exact consistent.candidates.member (mem_filter.mp inside).1

/-- One iteration: the tip is marked and disconnected. -/
theorem Unwinding.pop (unwinding : state.Unwinding hashGenesisBlock pindex tip) {parent : BlockPtr}
    (edge : state.tree.pprev tip = some parent) (under : state.tree.Below tip pindex) :
    ({ (state.updateStatus tip fun status =>
        { status with failedChild := true }).eraseCandidate tip with
          chainActive := state.tree.path parent } : IndexState).Unwinding
      hashGenesisBlock pindex parent := by
  have formed := unwinding.formed
  have above : state.tree.Below tip parent := .parent_of edge
  have others : ∀ {other}, other ≠ tip →
      ((state.updateStatus tip fun status =>
        { status with failedChild := true }).eraseCandidate tip).nStatus other =
          state.nStatus other :=
    fun differ => update_of_ne differ _ _
  have grows := formed.ranked.rank_parent unwinding.known edge
  have parentOther : parent ≠ tip := by
    rintro rfl
    omega
  have valid : ∀ other, (((state.updateStatus tip fun status =>
      { status with failedChild := true }).eraseCandidate tip).nStatus other).failedValid =
        (state.nStatus other).failedValid := by
    intro other
    by_cases here : other = tip
    · subst here
      simp [updateStatus, eraseCandidate]
    · rw [others here]
  constructor
  case formed => exact formed
  case status =>
    refine unwinding.status.mark rfl rfl id ⟨pindex, under, ?_⟩
    exact (valid pindex).trans unwinding.marked
  case links => exact unwinding.links
  case known => exact formed.ranked.parent_known unwinding.known edge
  case linked =>
    exact (unwinding.links.linked_above formed unwinding.known unwinding.linked above).1
  case active => rfl
  case scripts =>
    intro inner
    have reached := unwinding.status.level_above formed unwinding.known above unwinding.scripts inner
    refine Nat.le_of_succ_le ?_
    rw [show _ = state.nStatus parent from others parentOther]
    exact reached
  case clear =>
    intro elder upper notUnder
    have low := formed.ranked.rank_le (formed.ranked.parent_known unwinding.known edge) upper
    have overOther : elder ≠ tip := by
      rintro rfl
      omega
    rw [show _ = state.nStatus elder from others overOther]
    exact unwinding.clear (above.trans upper) notUnder
  case marked => exact (valid pindex).trans unwinding.marked
  case member =>
    intro candidate inside
    obtain ⟨known, linked, best⟩ := unwinding.member (mem_filter.mp inside).1
    exact ⟨known, linked, notWorse_trans best (notWorse_of_work (formed.work unwinding.known edge))⟩

theorem Unwinding.invalidateTips {fuel : Nat}
    (unwinding : state.Unwinding hashGenesisBlock pindex tip)
    (inner : state.tree.pprev pindex ≠ none) (enough : state.chainActive.length ≤ fuel) :
    ∃ final newTip, IndexState.invalidateTips pindex fuel state = (final, true) ∧
      final.Unwinding hashGenesisBlock pindex newTip ∧ ¬ final.tree.Below newTip pindex := by
  induction fuel generalizing state tip with
  | zero =>
    rw [unwinding.active] at enough
    exact absurd enough (Nat.not_succ_le_zero _)
  | succ fuel ih =>
    have formed := unwinding.formed
    have chain : state.ActivePath hashGenesisBlock tip :=
      ⟨formed, unwinding.known, unwinding.active⟩
    have contains_iff : state.contains pindex = true ↔ state.tree.Below tip pindex :=
      chain.contains_iff
    cases edge : state.tree.pprev tip with
    | none =>
      have off : ¬ state.tree.Below tip pindex := by
        intro under
        rw [under.of_root edge] at inner
        exact inner edge
      have active : state.chainActive = [tip] := by
        rw [unwinding.active, BlockTree.WellFormed.path_root tip edge]
      refine ⟨state, tip, ?_, unwinding, off⟩
      simp only [IndexState.invalidateTips, active, mt contains_iff.mp off, if_false,
        Bool.false_eq_true]
    | some parent =>
      have active : state.chainActive = tip :: state.tree.path parent := by
        rw [unwinding.active, formed.path_parent unwinding.known edge]
      by_cases under : state.tree.Below tip pindex
      · have shorter : (state.tree.path parent).length ≤ fuel := by
          rw [active, length_cons] at enough
          omega
        obtain ⟨final, newTip, ran, ends, off⟩ := ih (unwinding.pop edge under) inner shorter
        refine ⟨final, newTip, ?_, ends, off⟩
        have more : (state.tree.path parent).isEmpty = false := rfl
        simp only [IndexState.invalidateTips, active, contains_iff.mpr under, if_true, more,
          Bool.false_eq_true, if_false]
        exact ran
      · refine ⟨state, tip, ?_, unwinding, under⟩
        simp only [IndexState.invalidateTips, active, mt contains_iff.mp under, if_false,
          Bool.false_eq_true]

theorem Consistent.invalidateBlock (consistent : state.Consistent hashGenesisBlock tip tip)
    (inner : state.tree.pprev pindex ≠ none) :
    ∃ newTip, (state.invalidateBlock pindex).Consistent hashGenesisBlock newTip newTip := by
  obtain ⟨final, newTip, ran, ends, off⟩ :=
    (consistent.unwinding pindex).invalidateTips inner (Nat.le_refl _)
  refine ⟨newTip, ?_⟩
  simp only [IndexState.invalidateBlock, ran]
  obtain ⟨candidates, same, members⟩ := foldl_insertCandidate
    (final.tree.entries.filter fun other => (final.nStatus other).isValid .transactions &&
      final.nChainTx other ≠ 0 && final.notWorseThanTip other) final
  rw [same]
  have usable : Usable final.tree final.nStatus final.nChainTx newTip :=
    ⟨ends.known, ends.linked, fun above => ends.clear above fun under => off (above.trans under)⟩
  have head : final.tip = some newTip := by
    rw [IndexState.tip, ends.active]
    rfl
  have offered : ∀ {other}, (other ∈ final.tree.entries.filter fun other =>
      (final.nStatus other).isValid .transactions && final.nChainTx other ≠ 0 &&
        final.notWorseThanTip other) ↔ final.tree.Known other ∧
          ((final.nStatus other).isValid .transactions = true ∧ final.nChainTx other ≠ 0) ∧
          final.worse other newTip = false := by
    intro other
    rw [mem_filter, ends.formed.mem_entries, Bool.and_eq_true, Bool.and_eq_true,
      decide_eq_true_eq]
    refine and_congr_right fun _ => and_congr_right fun _ => ?_
    simp [notWorseThanTip, head]
  refine ⟨ends.formed, ends.status, ends.links, ⟨usable, ends.active, ends.scripts⟩, ⟨?_, ?_⟩, usable,
    final.worse_irrefl newTip⟩
  · intro candidate inside
    obtain inside | offer := members.mp inside
    · exact ends.member inside
    · obtain ⟨known, ⟨_, linked⟩, best⟩ := offered.mp offer
      exact ⟨known, linked, best⟩
  · intro candidate known linked clear best
    refine members.mpr (.inr (offered.mpr ⟨known, ⟨?_, linked⟩, best⟩))
    have received := (ends.links.linked_above ends.formed known linked (.refl candidate)).2
    rw [BlockStatus.isValid, clear]
    exact decide_eq_true ((ends.status.received known).mpr received)

/-! ## ReconsiderBlock -/

/-- No block above `pindex` is marked, so that `ReconsiderBlock` clears nothing there. -/
def ParentsClear (state : IndexState) (pindex : BlockPtr) : Prop :=
  ∀ elder, state.tree.Below pindex elder → elder ≠ pindex → (state.nStatus elder).failed = false

theorem clearFailed_failed (status : BlockStatus) : status.clearFailed.failed = false := rfl

theorem clearFailed_of_clear {status : BlockStatus} (clear : status.failed = false) :
    status.clearFailed = status := by
  obtain ⟨validity, haveData, haveUndo, failedValid, failedChild⟩ := status
  simp only [BlockStatus.failed, Bool.or_eq_false_iff] at clear
  obtain ⟨rfl, rfl⟩ := clear
  rfl

theorem reconsidered_iff (formed : state.tree.WellFormed hashGenesisBlock) {other : BlockPtr} :
    state.reconsidered pindex other = true ↔ state.tree.Known other ∧
      (state.nStatus other).isValid .transactions = false ∧ state.tree.Below other pindex := by
  rw [reconsidered, Bool.and_eq_true, Bool.and_eq_true, decide_eq_true_eq, contains_eq_mem,
    decide_eq_true_eq, formed.mem_entries, Bool.not_eq_true', and_assoc]
  refine and_congr_right fun known => and_congr_right fun _ => ?_
  exact formed.getAncestor_eq_iff known

theorem isValid_of_failed {status : BlockStatus} (failed : status.failed = true)
    (nUpTo : BlockValidity) : status.isValid nUpTo = false := by
  rw [BlockStatus.isValid, failed]
  rfl

/-- The statuses after `ReconsiderBlock`: with no marked ancestor, the marks of
the block and its descendants are gone, and no other entry changes. -/
structure Reconsidered (state : IndexState) (pindex : BlockPtr)
    (after : BlockPtr → BlockStatus) : Prop where
  under : ∀ {other}, state.tree.Known other → state.tree.Below other pindex →
    after other = (state.nStatus other).clearFailed
  apart : ∀ {other}, ¬ state.tree.Below other pindex → after other = state.nStatus other

section

variable (consistent : state.Consistent hashGenesisBlock tip tip)

include consistent

theorem Consistent.reconsidered
    (known : state.tree.Known pindex) (parents : state.ParentsClear pindex) :
    state.Reconsidered pindex fun other =>
      if (state.tree.path pindex).contains other then
        (if state.reconsidered pindex other then (state.nStatus other).clearFailed
          else state.nStatus other).clearFailed
      else if state.reconsidered pindex other then (state.nStatus other).clearFailed
      else state.nStatus other := by
  have formed := consistent.formed
  constructor
  case under =>
    intro other otherKnown under
    have once : (if state.reconsidered pindex other then (state.nStatus other).clearFailed
        else state.nStatus other) = (state.nStatus other).clearFailed := by
      cases failed : (state.nStatus other).failed with
      | true =>
        rw [if_pos ((reconsidered_iff formed).mpr ⟨otherKnown, isValid_of_failed failed _, under⟩)]
      | false => rw [clearFailed_of_clear failed, ite_self]
    rw [once]
    split <;> rfl
  case apart =>
    intro other apart
    have once : (if state.reconsidered pindex other then (state.nStatus other).clearFailed
        else state.nStatus other) = state.nStatus other :=
      if_neg fun chosen => apart ((reconsidered_iff formed).mp chosen).2.2
    rw [once]
    split
    case isTrue onPath =>
      rw [contains_eq_mem, decide_eq_true_eq, formed.mem_path known] at onPath
      refine clearFailed_of_clear (parents other onPath ?_)
      rintro rfl
      exact apart (.refl other)
    case isFalse => rfl

/-- Clearing a subtree and offering its entries that sort above the tip. -/
theorem Consistent.clearUnder
    {after : BlockPtr → BlockStatus} (cleared : state.Reconsidered pindex after)
    {candidates : List BlockPtr}
    (kept : ∀ {candidate}, candidate ∈ state.setBlockIndexCandidates → candidate ∈ candidates)
    (added : ∀ {candidate}, candidate ∈ candidates → candidate ∈ state.setBlockIndexCandidates ∨
      (state.tree.Known candidate ∧ state.nChainTx candidate ≠ 0 ∧
        state.worse tip candidate = true))
    (offered : ∀ {candidate}, state.tree.Known candidate → state.nChainTx candidate ≠ 0 →
      state.tree.Below candidate pindex → (state.nStatus candidate).failed = true →
        state.worse tip candidate = true → candidate ∈ candidates) :
    ({ state with nStatus := after, setBlockIndexCandidates := candidates } :
      IndexState).Consistent hashGenesisBlock tip tip := by
  have formed := consistent.formed
  have tipKnown := consistent.active.usable.known
  have sameKnown : ∀ {other}, state.tree.Known other →
      (after other).haveData = (state.nStatus other).haveData ∧
        (after other).validity = (state.nStatus other).validity ∧
        ((state.nStatus other).failed = false → (after other).failed = false) := by
    intro other otherKnown
    by_cases under : state.tree.Below other pindex
    · rw [cleared.under otherKnown under]
      exact ⟨rfl, rfl, fun _ => rfl⟩
    · rw [cleared.apart under]
      exact ⟨rfl, rfl, id⟩
  have status : StatusOk state.tree after state.nTx := by
    constructor
    case data =>
      intro other otherKnown
      rw [(sameKnown otherKnown).1]
      exact consistent.status.data otherKnown
    case received =>
      intro other otherKnown
      rw [(sameKnown otherKnown).2.1]
      exact consistent.status.received otherKnown
    case inTree =>
      intro other otherKnown
      rw [(sameKnown otherKnown).2.1]
      exact consistent.status.inTree otherKnown
    case chain =>
      intro other parent otherKnown edge
      rw [(sameKnown otherKnown).2.1,
        (sameKnown (formed.ranked.parent_known otherKnown edge)).2.1]
      exact consistent.status.chain otherKnown edge
    case blamed =>
      intro other otherKnown failed
      -- A mark that is left lies apart from the subtree, and so does its origin.
      by_cases under : state.tree.Below other pindex
      · rw [cleared.under otherKnown under, clearFailed_failed] at failed
        cases failed
      · rw [cleared.apart under] at failed
        obtain ⟨elder, above, blame⟩ := consistent.status.blamed otherKnown failed
        refine ⟨elder, above, ?_⟩
        rw [cleared.apart fun overUnder => under (above.trans overUnder)]
        exact blame
  have usable : Usable state.tree after state.nChainTx tip :=
    consistent.active.usable.reflag fun above =>
      (sameKnown (formed.ranked.known_of_below tipKnown above)).2.2
        (consistent.active.usable.clear above)
  refine ⟨formed, status, consistent.links, ⟨usable, consistent.active.active, fun inner => ?_⟩,
    ⟨?_, ?_⟩, usable, consistent.order⟩
  · rw [(sameKnown tipKnown).2.1]
    exact consistent.active.scripts inner
  · intro candidate inside
    obtain inside | ⟨candidateKnown, linked, better⟩ := added inside
    · exact consistent.candidates.member inside
    · exact ⟨candidateKnown, linked, notWorse_of_worse better⟩
  · intro candidate candidateKnown linked clear best
    cases failed : (state.nStatus candidate).failed with
    | false => exact kept (consistent.candidates.offered candidateKnown linked failed best)
    | true =>
      have under : state.tree.Below candidate pindex := by
        by_contra apart
        have failedAfter : (after candidate).failed = true := by
          rw [cleared.apart apart]
          exact failed
        rw [failedAfter] at clear
        cases clear
      refine offered candidateKnown linked under failed ?_
      by_contra notBetter
      have same := eq_of_notWorse (Bool.eq_false_of_not_eq_true notBetter) best
      subst same
      rw [consistent.active.usable.clear (.refl tip)] at failed
      cases failed

theorem Consistent.reconsiderBlock
    (known : state.tree.Known pindex) (parents : state.ParentsClear pindex) :
    (state.reconsiderBlock pindex).Consistent hashGenesisBlock tip tip := by
  have formed := consistent.formed
  have cleared := consistent.reconsidered known parents
  unfold IndexState.reconsiderBlock
  dsimp only
  obtain ⟨candidates, same, members⟩ := foldl_insertCandidate
    (state.tree.entries.filter fun other => state.reconsidered pindex other &&
      (if state.reconsidered pindex other then (state.nStatus other).clearFailed
        else state.nStatus other).isValid .transactions && state.nChainTx other ≠ 0 &&
      state.tip.any fun tip => state.worse tip other)
    { state with
      nStatus := fun other =>
        if state.reconsidered pindex other then (state.nStatus other).clearFailed
        else state.nStatus other }
  have frame : ∀ {after : IndexState}, after = { state with
      nStatus := fun other => if state.reconsidered pindex other then
        (state.nStatus other).clearFailed else state.nStatus other
      setBlockIndexCandidates := candidates } →
      ({ after with nStatus := fun other =>
        if (after.tree.path pindex).contains other then (after.nStatus other).clearFailed
        else after.nStatus other } : IndexState).Consistent hashGenesisBlock tip tip := by
    rintro after rfl
    refine consistent.clearUnder cleared (fun inside => members.mpr (.inl inside)) ?_ ?_
    · intro candidate inside
      obtain inside | offer := members.mp inside
      · exact .inl inside
      · obtain ⟨inEntries, chosen⟩ := mem_filter.mp offer
        simp only [Bool.and_eq_true, decide_eq_true_eq, consistent.tip_eq, any_some] at chosen
        exact .inr ⟨formed.mem_entries.mp inEntries, chosen.1.2, chosen.2⟩
    · intro candidate candidateKnown linked under failed better
      have chosen := (reconsidered_iff formed).mpr
        ⟨candidateKnown, isValid_of_failed failed .transactions, under⟩
      have received :=
        (consistent.links.linked_above formed candidateKnown linked (.refl candidate)).2
      have valid : (state.nStatus candidate).clearFailed.isValid .transactions = true :=
        decide_eq_true ((consistent.status.received candidateKnown).mpr received)
      refine members.mpr (.inr (mem_filter.mpr ⟨formed.mem_entries.mpr candidateKnown, ?_⟩))
      simp only [chosen, if_true, valid, consistent.tip_eq, any_some, better,
        Bool.and_true, Bool.true_and, decide_eq_true_eq]
      exact linked
  exact frame same

end

end IndexState

end CentNode
