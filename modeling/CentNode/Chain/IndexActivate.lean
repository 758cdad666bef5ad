import CentNode.Chain.IndexReceive

/-!
# Activating the best chain keeps the index consistent

During an activation the bar is the best tip so far.  It stays a candidate as
long as no block of its chain is rejected, so the activation can only end at it
or above it.
-/

namespace CentNode

open List Function

variable {tree : BlockTree} {hashGenesisBlock : Uint256}

/-! ## Walking down from a candidate -/

theorem BlockTree.WellFormed.below_of_mem_takeWhile (formed : tree.WellFormed hashGenesisBlock)
    {pindex elder middle : BlockPtr} (known : tree.Known pindex) (above : tree.Below pindex elder)
    (inside : middle ∈ (tree.path pindex).takeWhile (· ≠ elder)) :
    tree.Below pindex middle ∧ tree.Below middle elder := by
  induction above with
  | refl node =>
    rw [path, Forest.climb, takeWhile_cons] at inside
    simp at inside
  | @step node up elder edge above ih =>
    rw [formed.path_parent known edge, takeWhile_cons] at inside
    split at inside
    · obtain rfl | inside := mem_cons.mp inside
      · exact ⟨.refl _, .step edge above⟩
      · obtain ⟨lower, upper⟩ := ih (formed.ranked.parent_known known edge) inside
        exact ⟨.step edge lower, upper⟩
    · cases inside

theorem BlockTree.WellFormed.all_of_takeWhile (formed : tree.WellFormed hashGenesisBlock)
    {property : BlockPtr → Prop} {active : BlockPtr → Bool} {pindex elder : BlockPtr}
    (known : tree.Known pindex) (above : tree.Below pindex elder)
    (outside : ∀ {middle}, middle ∈ (tree.path pindex).takeWhile (!active ·) → property middle)
    (closed : ∀ {lower upper}, active lower = true → tree.Below lower upper → property upper) :
    property elder := by
  induction above with
  | refl node =>
    by_cases inside : active node = true
    · exact closed inside (.refl node)
    · refine outside ?_
      rw [path, Forest.climb, takeWhile_cons, if_pos (by simpa using inside)]
      exact mem_cons_self
  | @step node up elder edge above ih =>
    by_cases inside : active node = true
    · exact closed inside (.step edge above)
    · refine ih (formed.ranked.parent_known known edge) fun middleIn => outside ?_
      rw [formed.path_parent known edge, takeWhile_cons, if_pos (by simpa using inside)]
      exact mem_cons_of_mem _ middleIn

namespace IndexState

variable {state : IndexState} {tip bar : BlockPtr}

/-- The active chain leads from its tip to the genesis block of a well-formed tree. -/
structure ActivePath (hashGenesisBlock : Uint256) (state : IndexState) (tip : BlockPtr) : Prop where
  formed : state.tree.WellFormed hashGenesisBlock
  known : state.tree.Known tip
  active : state.chainActive = state.tree.path tip

theorem Consistent.activePath (consistent : state.Consistent hashGenesisBlock tip bar) :
    state.ActivePath hashGenesisBlock tip :=
  ⟨consistent.formed, consistent.active.usable.known, consistent.active.active⟩

variable {pindex : BlockPtr}

theorem ActivePath.contains_iff (chain : state.ActivePath hashGenesisBlock tip) :
    state.contains pindex = true ↔ state.tree.Below tip pindex := by
  rw [contains, contains_eq_mem, decide_eq_true_eq, chain.active,
    chain.formed.mem_path chain.known]

/-! ## Choosing the candidate -/

theorem lastOf_eq_none {candidates : List BlockPtr} (none : state.lastOf candidates = none) :
    candidates = [] := by
  cases candidates with
  | nil => rfl
  | cons pindex rest =>
    unfold lastOf at none
    split at none
    · cases none
    · split at none <;> cases none

theorem lastOf_eq_some {candidates : List BlockPtr} {best : BlockPtr}
    (last : state.lastOf candidates = some best) :
    best ∈ candidates ∧ ∀ {pindex}, pindex ∈ candidates → state.worse best pindex = false := by
  induction candidates generalizing best with
  | nil => cases last
  | cons pindex rest ih =>
    unfold lastOf at last
    split at last
    case h_1 none =>
      cases last
      rw [lastOf_eq_none none]
      refine ⟨mem_singleton_self pindex, fun inside => ?_⟩
      rw [mem_singleton.mp inside]
      exact state.worse_irrefl pindex
    case h_2 other found =>
      obtain ⟨inRest, top⟩ := ih found
      split at last
      case isTrue below =>
        cases last
        refine ⟨mem_cons_self, fun inside => ?_⟩
        obtain rfl | inside := mem_cons.mp inside
        · exact state.worse_irrefl _
        · exact notWorse_trans (notWorse_of_worse below) (top inside)
      case isFalse above =>
        cases last
        refine ⟨mem_cons_of_mem _ inRest, fun inside => ?_⟩
        obtain rfl | inside := mem_cons.mp inside
        · exact Bool.eq_false_of_not_eq_true above
        · exact top inside

theorem findUnusable_none {walk : List BlockPtr} (usable : state.findUnusable walk = some none)
    (inside : pindex ∈ walk) : (state.nStatus pindex).failed = false := by
  induction walk with
  | nil => cases inside
  | cons first rest ih =>
    unfold findUnusable at usable
    split at usable
    · cases usable
    · split at usable
      case isTrue => cases usable
      case isFalse good =>
        obtain rfl | inside := mem_cons.mp inside
        · rw [Bool.or_eq_true, not_or] at good
          exact Bool.eq_false_of_not_eq_true good.1
        · exact ih usable inside

variable {pindexTest : BlockPtr}

theorem findUnusable_some {walk : List BlockPtr}
    (unusable : state.findUnusable walk = some (some pindexTest)) :
    pindexTest ∈ walk ∧
      ((state.nStatus pindexTest).failed || !(state.nStatus pindexTest).haveData) = true := by
  induction walk with
  | nil => cases unusable
  | cons first rest ih =>
    unfold findUnusable at unusable
    split at unusable
    · cases unusable
    · split at unusable
      case isTrue bad =>
        cases unusable
        exact ⟨mem_cons_self, bad⟩
      case isFalse =>
        obtain ⟨inside, bad⟩ := ih unusable
        exact ⟨mem_cons_of_mem _ inside, bad⟩

theorem nStatus_removeChain {pindexNew pindexTest : BlockPtr}
    (failed : (state.nStatus pindexTest).failed = true) (pindex : BlockPtr) :
    (state.removeChain pindexNew pindexTest).nStatus pindex =
      if pindex ∈ (state.tree.path pindexNew).takeWhile (· ≠ pindexTest) then
        { state.nStatus pindex with failedChild := true } else state.nStatus pindex := by
  simp only [IndexState.removeChain, failed, Bool.true_and, contains_eq_mem,
    decide_eq_true_eq]

theorem mem_removeChain {pindexNew : BlockPtr} :
    pindex ∈ (state.removeChain pindexNew pindexTest).setBlockIndexCandidates ↔
      pindex ∈ state.setBlockIndexCandidates ∧
        pindex ∉ (state.tree.path pindexNew).takeWhile (· ≠ pindexTest) ∧ pindex ≠ pindexTest := by
  unfold IndexState.removeChain
  dsimp only
  rw [mem_filter, Bool.not_eq_true', Bool.or_eq_false_iff, contains_eq_mem,
    decide_eq_false_iff_not, decide_eq_false_iff_not]

/-- A candidate chain that leads over a failed entry leaves the candidates. -/
theorem Consistent.removeChain (consistent : state.Consistent hashGenesisBlock tip bar)
    {pindexNew : BlockPtr} (known : state.tree.Known pindexNew)
    (above : state.tree.Below pindexNew pindexTest)
    (failed : (state.nStatus pindexTest).failed = true) :
    (state.removeChain pindexNew pindexTest).Consistent hashGenesisBlock tip bar := by
  have formed := consistent.formed
  have chain : ∀ {pindex}, pindex ∈ (state.tree.path pindexNew).takeWhile (· ≠ pindexTest) →
      state.tree.Below pindex pindexTest :=
    fun inside => (formed.below_of_mem_takeWhile known above inside).2
  have flag := @nStatus_removeChain _ pindexNew _ failed
  have same : SameProgress state.nStatus (state.removeChain pindexNew pindexTest).nStatus := by
    constructor <;> intro pindex <;> rw [flag] <;> split <;> rfl
  have valid : ∀ pindex, ((state.removeChain pindexNew pindexTest).nStatus pindex).failedValid =
      (state.nStatus pindex).failedValid := by
    intro pindex
    rw [flag]
    split <;> rfl
  have grow : ∀ {pindex}, (state.nStatus pindex).failed = true →
      ((state.removeChain pindexNew pindexTest).nStatus pindex).failed = true := by
    intro pindex was
    rw [flag]
    split
    · exact Bool.or_true _
    · exact was
  have clear : ∀ {start}, (∀ {elder}, state.tree.Below start elder →
      (state.nStatus elder).failed = false) → ∀ {elder}, state.tree.Below start elder →
        ((state.removeChain pindexNew pindexTest).nStatus elder).failed = false := by
    intro start was elder aboveStart
    rw [flag, if_neg]
    · exact was aboveStart
    · intro inside
      have clearTest := was (aboveStart.trans (chain inside))
      rw [failed] at clearTest
      cases clearTest
  have unlinked : (state.removeChain pindexNew pindexTest).mapBlocksUnlinked =
      state.mapBlocksUnlinked := by
    simp only [IndexState.removeChain, failed, if_true]
  refine ⟨formed, consistent.status.reflag same ?blamed, unlinked ▸ consistent.links,
    consistent.active.reflag same (clear consistent.active.usable.clear),
    (consistent.candidates.reflag grow).shrink ?subset ?dropped,
    consistent.barUsable.reflag (clear consistent.barUsable.clear), consistent.order⟩
  case blamed =>
    intro pindex pindexKnown isFailed
    simp only [valid]
    by_cases inside : pindex ∈ (state.tree.path pindexNew).takeWhile (· ≠ pindexTest)
    · obtain ⟨elder, upper, blame⟩ :=
        consistent.status.blamed (formed.ranked.known_of_below known above) failed
      exact ⟨elder, (chain inside).trans upper, blame⟩
    · rw [flag, if_neg inside] at isFailed
      exact consistent.status.blamed pindexKnown isFailed
  case subset => exact fun inside => (mem_filter.mp inside).1
  case dropped =>
    intro pindex inside gone
    by_cases onChain : pindex ∈ (state.tree.path pindexNew).takeWhile (· ≠ pindexTest)
    · rw [flag, if_pos onChain]
      exact Bool.or_true _
    · by_cases isTest : pindex = pindexTest
      · rw [isTest]
        exact grow failed
      · exact absurd (mem_removeChain.mpr ⟨inside, onChain, isTest⟩) gone

/-- The fields that no part of an activation writes. -/
structure SameIndex (before after : IndexState) : Prop where
  tree : after.tree = before.tree
  sequence : after.nSequenceId = before.nSequenceId
  links : after.nChainTx = before.nChainTx

theorem SameIndex.refl (state : IndexState) : SameIndex state state := ⟨rfl, rfl, rfl⟩

theorem SameIndex.trans {first second third : IndexState} (left : SameIndex first second)
    (right : SameIndex second third) : SameIndex first third :=
  ⟨right.tree.trans left.tree, right.sequence.trans left.sequence, right.links.trans left.links⟩

theorem SameIndex.worse {before after : IndexState} (same : SameIndex before after) :
    after.worse = before.worse := by
  funext pa pb
  exact worse_congr (by rw [same.tree]) (by rw [same.tree]) (by rw [same.sequence])
    (by rw [same.sequence])

theorem Consistent.bar_candidate (consistent : state.Consistent hashGenesisBlock tip bar) :
    bar ∈ state.setBlockIndexCandidates :=
  consistent.candidates.offered consistent.barUsable.known consistent.barUsable.linked
    (consistent.barUsable.clear (.refl bar)) (state.worse_irrefl bar)

variable {next : IndexState}

/-- `FindMostWorkChain` returns a usable entry that does not sort below the bar. -/
theorem Consistent.findMostWorkChain {fuel : Nat}
    (consistent : state.Consistent hashGenesisBlock tip bar) {found : Option BlockPtr}
    (chosen : IndexState.findMostWorkChain fuel state = some (next, found)) :
    next.Consistent hashGenesisBlock tip bar ∧ SameIndex state next ∧
      ∃ pindexMostWork, found = some pindexMostWork ∧
        Usable next.tree next.nStatus next.nChainTx pindexMostWork ∧
        next.worse pindexMostWork bar = false := by
  induction fuel generalizing state with
  | zero => cases chosen
  | succ fuel ih =>
    unfold IndexState.findMostWorkChain at chosen
    split at chosen
    case h_1 none =>
      have empty := lastOf_eq_none none
      exact absurd consistent.bar_candidate (empty ▸ not_mem_nil)
    case h_2 pindexNew last =>
      obtain ⟨inside, top⟩ := lastOf_eq_some last
      obtain ⟨known, linked, _⟩ := consistent.candidates.member inside
      split at chosen
      case h_1 => cases chosen
      case h_2 usable =>
        cases chosen
        refine ⟨consistent, .refl _, pindexNew, rfl, ⟨known, linked, fun above => ?_⟩,
          top consistent.bar_candidate⟩
        exact consistent.formed.all_of_takeWhile known above
          (fun walked => findUnusable_none usable walked)
          (fun active upper => consistent.active.usable.clear
            ((consistent.activePath.contains_iff.mp active).trans upper))
      case h_3 pindexTest unusable =>
        obtain ⟨walked, bad⟩ := findUnusable_some unusable
        have above := (consistent.formed.mem_path known).mp
          ((takeWhile_sublist _).subset walked)
        have failed : (state.nStatus pindexTest).failed = true := by
          have testKnown := consistent.formed.ranked.known_of_below known above
          have received := (consistent.links.linked_above consistent.formed known linked above).2
          rw [(consistent.status.data testKnown).mpr received] at bad
          simpa using bad
        obtain ⟨kept, same, rest⟩ := ih (consistent.removeChain known above failed) chosen
        have removed : SameIndex state (state.removeChain pindexNew pindexTest) := ⟨rfl, rfl, rfl⟩
        exact ⟨kept, removed.trans same, rest⟩

/-! ## Leaving the active chain -/

theorem ActivePath.findFork (chain : state.ActivePath hashGenesisBlock tip)
    (known : state.tree.Known pindex) :
    ∃ fork, state.findFork pindex = some fork ∧ state.tree.Below pindex fork ∧
      state.tree.Below tip fork := by
  have formed := chain.formed
  have positive : 0 < state.chainActive.length := by
    rw [chain.active]
    exact Nat.succ_pos _
  obtain ⟨first, starts, above⟩ : ∃ first,
      (if (state.chainActive.length - 1 : Int) < state.tree.nHeight pindex then
        state.tree.getAncestor pindex (state.chainActive.length - 1) else some pindex) = some first ∧
      state.tree.Below pindex first := by
    split
    case isTrue high =>
      have low : state.chainActive.length - 1 ≤ state.tree.nHeight pindex := by omega
      obtain ⟨first, found, above, _⟩ := formed.getAncestor_spec known low
      refine ⟨first, ?_, above⟩
      rw [← found]
      congr 1
      omega
    case isFalse => exact ⟨pindex, rfl, .refl pindex⟩
  have firstKnown := formed.ranked.known_of_below known above
  obtain ⟨genesis, lookup, root⟩ := formed.genesis
  have genesisKnown := formed.known_of_lookup lookup
  have meets : ((state.tree.path first).find? state.contains).isSome = true := by
    rw [find?_isSome]
    exact ⟨genesis, (formed.mem_path firstKnown).mpr (formed.below_root genesisKnown root firstKnown),
      chain.contains_iff.mpr (formed.below_root genesisKnown root chain.known)⟩
  obtain ⟨fork, found⟩ := Option.isSome_iff_exists.mp meets
  refine ⟨fork, ?_, ?_, chain.contains_iff.mp (find?_some found)⟩
  · unfold IndexState.findFork
    dsimp only
    rw [starts]
    exact found
  · exact above.trans ((formed.mem_path firstKnown).mp (mem_of_find?_eq_some found))

theorem disconnectTo_path (formed : state.tree.WellFormed hashGenesisBlock) {start fork : BlockPtr}
    (known : state.tree.Known start) (above : state.tree.Below start fork) :
    disconnectTo (some fork) (state.tree.path start) = (state.tree.path fork, true) := by
  induction above with
  | refl node =>
    have head : state.tree.path node = node :: (state.tree.path node).tail := rfl
    rw [head, disconnectTo, if_pos rfl]
  | @step node up elder edge above ih =>
    by_cases here : node = elder
    · subst here
      have head : state.tree.path node = node :: (state.tree.path node).tail := rfl
      rw [head, disconnectTo, if_pos rfl]
    · rw [formed.path_parent known edge, disconnectTo, if_neg, if_neg]
      · exact ih (formed.ranked.parent_known known edge)
      · have head : state.tree.path up = up :: (state.tree.path up).tail := rfl
        rw [head]
        exact Bool.false_ne_true
      · exact fun same => here (Option.some.inj same)

theorem Consistent.rewind (consistent : state.Consistent hashGenesisBlock tip bar)
    {fork : BlockPtr} (above : state.tree.Below tip fork) :
    ({ state with chainActive := state.tree.path fork } : IndexState).Consistent
      hashGenesisBlock fork bar := by
  have formed := consistent.formed
  have tipKnown := consistent.active.usable.known
  refine ⟨formed, consistent.status, consistent.links, ⟨⟨formed.ranked.known_of_below tipKnown above,
    (consistent.links.linked_above formed tipKnown consistent.active.usable.linked above).1,
    fun upper => consistent.active.usable.clear (above.trans upper)⟩, rfl, fun inner => ?scripts⟩,
    consistent.candidates, consistent.barUsable, ?order⟩
  case scripts =>
    have reached := consistent.status.level_above formed tipKnown above consistent.active.scripts inner
    exact Nat.le_of_succ_le reached
  case order =>
    obtain rfl | less := formed.work_le tipKnown above
    · exact consistent.order
    · exact notWorse_trans consistent.order (notWorse_of_work less)

/-! ## The blocks to connect -/

/-- The blocks lead from one entry to another, each the parent of the next. -/
inductive Leads (tree : BlockTree) : BlockPtr → List BlockPtr → BlockPtr → Prop where
  | nil (start : BlockPtr) : Leads tree start [] start
  | cons {start next last : BlockPtr} {rest : List BlockPtr}
      (edge : tree.pprev next = some start) (onward : Leads tree next rest last) :
      Leads tree start (next :: rest) last

variable {last : BlockPtr}

theorem Leads.uncons {start next : BlockPtr} {rest : List BlockPtr}
    (leads : Leads tree start (next :: rest) last) :
    tree.pprev next = some start ∧ Leads tree next rest last := by
  cases leads with
  | cons edge onward => exact ⟨edge, onward⟩

variable {blocks : List BlockPtr}

theorem Leads.snoc {start middle : BlockPtr} (leads : Leads tree start blocks middle)
    (edge : tree.pprev last = some middle) : Leads tree start (blocks ++ [last]) last := by
  induction leads with
  | nil start => exact .cons edge (.nil last)
  | cons first _ ih => exact .cons first (ih edge)

theorem Leads.last_below {start : BlockPtr} (leads : Leads tree start blocks last) :
    tree.Below last start := by
  induction leads with
  | nil start => exact .refl start
  | cons edge _ ih => exact ih.trans (.parent_of edge)

theorem leads_takeWhile (formed : tree.WellFormed hashGenesisBlock) {start : BlockPtr}
    (known : tree.Known last) (above : tree.Below last start) :
    Leads tree start ((tree.path last).takeWhile fun pindex =>
      (tree.nHeight pindex : Int) ≠ tree.nHeight start).reverse last := by
  induction above with
  | refl node =>
    rw [BlockTree.path, Forest.climb, takeWhile_cons, if_neg (by simp)]
    exact .nil node
  | @step node up elder edge above ih =>
    have grows := formed.ranked.rank_parent known edge
    have low := formed.ranked.rank_le (formed.ranked.parent_known known edge) above
    rw [formed.path_parent known edge, takeWhile_cons, if_pos (by simp; omega),
      reverse_cons]
    exact (ih (formed.ranked.parent_known known edge)).snoc edge

variable {pindexMostWork : BlockPtr}

theorem ActivePath.blocksToConnect (chain : state.ActivePath hashGenesisBlock tip)
    (known : state.tree.Known pindexMostWork) (above : state.tree.Below pindexMostWork tip)
    {nTargetHeight : Int} (further : (state.tree.nHeight tip : Int) ≤ nTargetHeight)
    (inside : nTargetHeight ≤ state.tree.nHeight pindexMostWork) :
    ∃ last, Leads state.tree tip
        (state.blocksToConnect pindexMostWork (state.tree.nHeight tip) nTargetHeight) last ∧
      state.tree.Below pindexMostWork last ∧ (state.tree.nHeight last : Int) = nTargetHeight := by
  have formed := chain.formed
  obtain ⟨target, rfl⟩ := Int.eq_ofNat_of_zero_le (show 0 ≤ nTargetHeight by omega)
  obtain ⟨last, found, upper, height⟩ :=
    formed.getAncestor_spec known (show target ≤ state.tree.nHeight pindexMostWork by omega)
  have lastKnown := formed.ranked.known_of_below known upper
  have order : state.tree.nHeight tip ≤ state.tree.nHeight last := by omega
  refine ⟨last, ?_, upper, by rw [height]⟩
  unfold IndexState.blocksToConnect
  rw [found]
  exact leads_takeWhile formed lastKnown (formed.ranked.below_of_rank_le known above upper order)

/-! ## Connecting a block -/

/-- No failure flag changes. -/
def SameFlags (before after : IndexState) : Prop :=
  ∀ pindex, (after.nStatus pindex).failed = (before.nStatus pindex).failed ∧
    (after.nStatus pindex).failedValid = (before.nStatus pindex).failedValid

theorem Usable.transport {before after : IndexState}
    (usable : Usable before.tree before.nStatus before.nChainTx pindex)
    (same : SameIndex before after) (flags : SameFlags before after) :
    Usable after.tree after.nStatus after.nChainTx pindex := by
  refine ⟨same.tree ▸ usable.known, same.links ▸ usable.linked, fun above => ?_⟩
  rw [(flags _).1]
  rw [same.tree] at above
  exact usable.clear above

/-- All but the levels of the entries, and the undo flags, is as it was. -/
structure SameButLevels (before after : IndexState) : Prop where
  flags : SameFlags before after
  data : ∀ pindex, (after.nStatus pindex).haveData = (before.nStatus pindex).haveData
  same : SameIndex before after
  nTx : after.nTx = before.nTx
  unlinked : after.mapBlocksUnlinked = before.mapBlocksUnlinked
  active : after.chainActive = before.chainActive
  candidates : after.setBlockIndexCandidates = before.setBlockIndexCandidates

theorem sameButLevels_raiseScripts (state : IndexState) (pindex : BlockPtr) :
    SameButLevels state (state.raiseScripts pindex) := by
  unfold IndexState.raiseScripts
  split
  · exact ⟨fun _ => ⟨rfl, rfl⟩, fun _ => rfl, .refl state, rfl, rfl, rfl, rfl⟩
  · refine ⟨fun other => ?_, fun other => ?_, ⟨rfl, rfl, rfl⟩, rfl, rfl, rfl, rfl⟩
    · by_cases here : other = pindex
      · simp [here, updateStatus, BlockStatus.failed]
      · simp [here, updateStatus]
    · by_cases here : other = pindex
      · simp [here, updateStatus]
      · simp [here, updateStatus]

theorem nStatus_raiseScripts_of_ne {pindex other : BlockPtr} (differ : other ≠ pindex) :
    (state.raiseScripts pindex).nStatus other = state.nStatus other := by
  unfold IndexState.raiseScripts
  split
  · rfl
  · exact update_of_ne differ _ _

theorem level_raiseScripts {parent : BlockPtr} (edge : state.tree.pprev pindex = some parent)
    (clear : (state.nStatus pindex).failed = false) :
    5 ≤ ((state.raiseScripts pindex).nStatus pindex).validity.level := by
  have here : (state.raiseScripts pindex).nStatus pindex =
      ({ state.nStatus pindex with haveUndo := true } : BlockStatus).raiseValidity .scripts := by
    simp only [IndexState.raiseScripts, edge]
    exact update_self _ _ _
  have reached := BlockStatus.level_raiseValidity
    (show ({ state.nStatus pindex with haveUndo := true } : BlockStatus).failed = false from clear)
    .scripts
  rw [here, reached]
  exact Nat.le_max_right _ _

section

variable (consistent : state.Consistent hashGenesisBlock tip bar)
  (usable : Usable state.tree state.nStatus state.nChainTx pindex)
  (edge : state.tree.pprev pindex = some tip)

include consistent usable edge

/-- The status bits stay in order when a child of the tip is raised. -/
theorem Consistent.status_raiseScripts :
    StatusOk state.tree (state.raiseScripts pindex).nStatus state.nTx := by
  have received := (consistent.links.linked_above consistent.formed usable.known usable.linked
    (.refl pindex)).2
  have level := level_raiseScripts edge (usable.clear (.refl pindex))
  have kept := sameButLevels_raiseScripts state pindex
  have others := @nStatus_raiseScripts_of_ne state pindex
  constructor
  case data =>
    intro other known
    rw [kept.data]
    exact consistent.status.data known
  case received =>
    intro other known
    by_cases isHere : other = pindex
    · subst isHere
      exact ⟨fun _ => received, fun _ => Nat.le_trans (by decide) level⟩
    · rw [others isHere]
      exact consistent.status.received known
  case inTree =>
    intro other known
    by_cases isHere : other = pindex
    · subst isHere
      exact Nat.le_trans (by decide) level
    · rw [others isHere]
      exact consistent.status.inTree known
  case chain =>
    intro other parent known edgeToo high
    have tipOther : tip ≠ pindex := by
      rintro rfl
      have grows := consistent.formed.ranked.rank_parent usable.known edge
      omega
    by_cases isHere : other = pindex
    · subst isHere
      rw [edge] at edgeToo
      cases edgeToo
      refine ⟨level, fun inner => ?_⟩
      rw [others tipOther]
      exact consistent.active.scripts inner
    · rw [others isHere] at high ⊢
      obtain ⟨scripts, up⟩ := consistent.status.chain known edgeToo high
      refine ⟨scripts, fun inner => ?_⟩
      by_cases isParent : parent = pindex
      · rw [isParent]
        exact Nat.le_of_succ_le level
      · rw [others isParent]
        exact up inner
  case blamed =>
    intro other known failed
    rw [(kept.flags other).1] at failed
    obtain ⟨elder, above, blame⟩ := consistent.status.blamed known failed
    exact ⟨elder, above, by rw [(kept.flags elder).2]; exact blame⟩

/-- Raising the validity of a block whose parent is the tip. -/
theorem Consistent.raiseScripts :
    (state.raiseScripts pindex).Consistent hashGenesisBlock tip bar ∧
      SameIndex state (state.raiseScripts pindex) ∧ SameFlags state (state.raiseScripts pindex) ∧
      4 ≤ ((state.raiseScripts pindex).nStatus pindex).validity.level := by
  have level := level_raiseScripts edge (usable.clear (.refl pindex))
  obtain ⟨flags, _, same, sameTx, sameUnlinked, sameActive, sameCandidates⟩ :=
    sameButLevels_raiseScripts state pindex
  have clearAll : ∀ {start}, (∀ {elder}, state.tree.Below start elder →
      (state.nStatus elder).failed = false) → ∀ {elder}, state.tree.Below start elder →
        ((state.raiseScripts pindex).nStatus elder).failed = false := by
    intro start was elder above
    rw [(flags elder).1]
    exact was above
  refine ⟨⟨same.tree ▸ consistent.formed, ?_, ?_, ?_, ?_, ?_, same.worse ▸ consistent.order⟩, same,
    flags, Nat.le_of_succ_le level⟩
  · rw [same.tree, sameTx]
    exact consistent.status_raiseScripts usable edge
  · rw [same.tree, same.links, same.sequence, sameTx, sameUnlinked]
    exact consistent.links
  · rw [same.tree, same.links, sameActive]
    refine ⟨consistent.active.usable.reflag (clearAll consistent.active.usable.clear),
      consistent.active.active, fun inner => ?_⟩
    by_cases isHere : tip = pindex
    · rw [isHere]
      exact Nat.le_of_succ_le level
    · rw [nStatus_raiseScripts_of_ne isHere]
      exact consistent.active.scripts inner
  · rw [same.tree, same.links, same.worse, sameCandidates]
    refine consistent.candidates.reflag fun failed => ?_
    rw [(flags _).1]
    exact failed
  · rw [same.tree, same.links]
    exact consistent.barUsable.reflag (clearAll consistent.barUsable.clear)

/-- Connecting a block and pruning the candidates: the bar stays or moves up to
the new tip. -/
theorem Consistent.connect (pruned : ({ state.raiseScripts pindex with
      chainActive := pindex :: (state.raiseScripts pindex).chainActive } :
        IndexState).pruneBlockIndexCandidates = some next) :
    ∃ best, (best = bar ∨ best = pindex) ∧ next.Consistent hashGenesisBlock pindex best ∧
      SameIndex state next ∧ SameFlags state next := by
  obtain ⟨raised, same, flags, level⟩ := consistent.raiseScripts usable edge
  have usableRaised := Usable.transport usable same flags
  unfold pruneBlockIndexCandidates at pruned
  dsimp only at pruned
  split at pruned
  · cases pruned
  cases pruned
  have kept : ∀ {candidate}, candidate ∈ (state.raiseScripts pindex).setBlockIndexCandidates.filter
      (IndexState.notWorseThanTip { state.raiseScripts pindex with
        chainActive := pindex :: (state.raiseScripts pindex).chainActive }) ↔
      candidate ∈ (state.raiseScripts pindex).setBlockIndexCandidates ∧
        (state.raiseScripts pindex).worse candidate pindex = false := by
    intro candidate
    rw [mem_filter]
    refine and_congr_right fun _ => ⟨fun good => worse_of_notWorseThanTip good rfl, fun best => ?_⟩
    have test : (!(state.raiseScripts pindex).worse candidate pindex) = true := by rw [best]; rfl
    exact test
  have active : (pindex :: (state.raiseScripts pindex).chainActive) =
      (state.raiseScripts pindex).tree.path pindex := by
    rw [raised.active.active, raised.formed.path_parent usableRaised.known (same.tree ▸ edge)]
  have activeOk : ActiveOk (state.raiseScripts pindex).tree (state.raiseScripts pindex).nStatus
      (state.raiseScripts pindex).nChainTx (pindex :: (state.raiseScripts pindex).chainActive)
      pindex := ⟨usableRaised, active, fun _ => level⟩
  by_cases order : (state.raiseScripts pindex).worse bar pindex = true
  · refine ⟨pindex, .inr rfl, ⟨raised.formed, raised.status, raised.links, activeOk, ⟨?_, ?_⟩,
      usableRaised, (state.raiseScripts pindex).worse_irrefl pindex⟩, ⟨same.tree, same.sequence,
      same.links⟩, flags⟩
    · intro candidate inside
      obtain ⟨inside, best⟩ := kept.mp inside
      obtain ⟨known, linked, _⟩ := raised.candidates.member inside
      exact ⟨known, linked, best⟩
    · intro candidate known linked clear best
      refine kept.mpr ⟨raised.candidates.offered known linked clear ?_, best⟩
      exact notWorse_trans best (notWorse_of_worse order)
  · have order := Bool.eq_false_of_not_eq_true order
    refine ⟨bar, .inl rfl, ⟨raised.formed, raised.status, raised.links, activeOk, ⟨?_, ?_⟩,
      raised.barUsable, order⟩, ⟨same.tree, same.sequence, same.links⟩, flags⟩
    · exact fun inside => raised.candidates.member (kept.mp inside).1
    · intro candidate known linked clear best
      exact kept.mpr ⟨raised.candidates.offered known linked clear best, notWorse_trans best order⟩

end

/-! ## One activation -/

/-- `ConnectBlock` does not reject a block of the chain that is active at the
start, or one that it accepted earlier in the same activation, and the node only
fails at a block whose parent does not sort below the best tip so far. -/
structure ActivationSound (start : IndexState) (activation : Activation) : Prop where
  rejects : ∀ {call pindex}, activation.connect call pindex = .invalid →
    pindex ∉ start.chainActive ∧
      ∀ earlier, earlier < call → activation.connect earlier pindex ≠ .connected
  errors : ∀ {call pindex raised parent best}, activation.connect call pindex = .error raised →
    start.tree.pprev pindex = some parent →
      (start.tip = some best ∨ ∃ earlier, earlier < call ∧
        activation.connect earlier best = .connected) → start.worse parent best = false

def Vouched (activation : Activation) (start : IndexState) (calls : Nat) (pindex : BlockPtr) :
    Prop :=
  pindex ∈ start.chainActive ∨
    ∃ earlier, earlier < calls ∧ activation.connect earlier pindex = .connected

theorem Vouched.later {activation : Activation} {start : IndexState} {calls : Nat}
    (vouched : Vouched activation start calls pindex) :
    Vouched activation start (calls + 1) pindex :=
  vouched.imp_right fun ⟨earlier, before, accepted⟩ => ⟨earlier, Nat.lt_succ_of_lt before, accepted⟩

/-- The invariant of an activation, after `calls` calls of `ConnectBlock`. -/
structure Activating (hashGenesisBlock : Uint256) (activation : Activation) (start : IndexState)
    (calls : Nat) (state : IndexState) (tip bar : BlockPtr) : Prop where
  consistent : state.Consistent hashGenesisBlock tip bar
  same : SameIndex start state
  tipVouched : ∀ {pindex}, state.tree.Below tip pindex → Vouched activation start calls pindex
  barVouched : ∀ {pindex}, state.tree.Below bar pindex → Vouched activation start calls pindex
  best : start.tip = some bar ∨
    ∃ earlier, earlier < calls ∧ activation.connect earlier bar = .connected

variable {activation : Activation} {start : IndexState} {calls : Nat}

theorem Activating.later
    (activating : Activating hashGenesisBlock activation start calls state tip bar)
    (consistent : next.Consistent hashGenesisBlock tip bar) (same : SameIndex state next) :
    Activating hashGenesisBlock activation start (calls + 1) next tip bar where
  consistent := consistent
  same := activating.same.trans same
  tipVouched above := by
    rw [same.tree] at above
    exact (activating.tipVouched above).later
  barVouched above := by
    rw [same.tree] at above
    exact (activating.barVouched above).later
  best := activating.best.imp_right fun ⟨earlier, before, accepted⟩ =>
    ⟨earlier, Nat.lt_succ_of_lt before, accepted⟩

theorem Consistent.usable_above (consistent : state.Consistent hashGenesisBlock tip bar)
    {elder : BlockPtr} (usable : Usable state.tree state.nStatus state.nChainTx pindex)
    (above : state.tree.Below pindex elder) :
    Usable state.tree state.nStatus state.nChainTx elder where
  known := consistent.formed.ranked.known_of_below usable.known above
  linked := (consistent.links.linked_above consistent.formed usable.known usable.linked above).1
  clear upper := usable.clear (above.trans upper)

section

variable (activating : Activating hashGenesisBlock activation start calls state tip bar)

include activating

theorem Activating.connected (usable : Usable state.tree state.nStatus state.nChainTx pindex)
    (edge : state.tree.pprev pindex = some tip)
    (accepted : activation.connect calls pindex = .connected)
    (pruned : ({ state.raiseScripts pindex with
      chainActive := pindex :: (state.raiseScripts pindex).chainActive } :
        IndexState).pruneBlockIndexCandidates = some next) :
    ∃ best, (best = bar ∨ best = pindex) ∧
      Activating hashGenesisBlock activation start (calls + 1) next pindex best ∧
      SameIndex state next ∧ SameFlags state next := by
  obtain ⟨best, choice, consistent, same, flags⟩ := activating.consistent.connect usable edge pruned
  have here : Vouched activation start (calls + 1) pindex :=
    .inr ⟨calls, Nat.lt_succ_self calls, accepted⟩
  have tipVouched : ∀ {elder}, next.tree.Below pindex elder →
      Vouched activation start (calls + 1) elder := by
    intro elder above
    rw [same.tree] at above
    obtain rfl | ⟨up, edgeToo, above⟩ := above.cases_parent
    · exact here
    · rw [edge] at edgeToo
      cases edgeToo
      exact (activating.tipVouched above).later
  refine ⟨best, choice, ⟨consistent, activating.same.trans same, tipVouched, fun above => ?_, ?_⟩,
    same, flags⟩
  · obtain rfl | rfl := choice
    · rw [same.tree] at above
      exact (activating.barVouched above).later
    · exact tipVouched above
  · obtain rfl | rfl := choice
    · exact activating.best.imp_right fun ⟨earlier, before, ok⟩ =>
        ⟨earlier, Nat.lt_succ_of_lt before, ok⟩
    · exact .inr ⟨calls, Nat.lt_succ_self calls, accepted⟩

theorem Activating.bar_eq_tip (sound : ActivationSound start activation) {raised : Bool}
    (edge : state.tree.pprev pindex = some tip)
    (failed : activation.connect calls pindex = .error raised) : bar = tip := by
  rw [activating.same.tree] at edge
  have level := sound.errors failed edge activating.best
  rw [← activating.same.worse] at level
  exact eq_of_notWorse activating.consistent.order level

end

variable {called : Nat} {progress : StepProgress}

section

variable (sound : ActivationSound start activation)

include sound

/-- What a batch of blocks leaves. -/
theorem Activating.connectBlocks {pindexOldTip : Option BlockPtr}
    (activating : Activating hashGenesisBlock activation start calls state tip bar)
    (usable : Usable state.tree state.nStatus state.nChainTx pindexMostWork)
    (leads : Leads state.tree tip blocks last) (below : state.tree.Below pindexMostWork last)
    (top : state.worse pindexMostWork bar = false)
    (ran : IndexState.connectBlocks activation pindexOldTip blocks calls state =
      some (next, called, progress)) :
    ∃ newTip newBar, Activating hashGenesisBlock activation start called next newTip newBar ∧
      next.worse pindexMostWork newBar = false ∧
      (progress = .more → newTip = last ∧
        Usable next.tree next.nStatus next.nChainTx pindexMostWork) ∧
      (progress = .failed → newBar = newTip) := by
  induction blocks generalizing state tip bar calls with
  | nil =>
    cases ran
    cases leads
    exact ⟨_, bar, activating, top, fun _ => ⟨rfl, usable⟩, fun impossible => nomatch impossible⟩
  | cons pindex rest ih =>
    obtain ⟨edge, onward⟩ := leads.uncons
    have above : state.tree.Below pindexMostWork pindex := below.trans onward.last_below
    have usableHere := activating.consistent.usable_above usable above
    have asserted : state.tree.pprev pindex = state.tip := by
      rw [edge, activating.consistent.tip_eq]
    unfold IndexState.connectBlocks at ran
    cases outcome : activation.connect calls pindex with
    | connected =>
      simp only [outcome, connectTip, asserted, if_true] at ran
      split at ran
      case h_1 => cases ran
      case h_2 pruned prunes =>
        obtain ⟨best, choice, connected, same, flags⟩ :=
          activating.connected usableHere edge outcome prunes
        have usableNext := Usable.transport usable same flags
        have topNext : pruned.worse pindexMostWork best = false := by
          rw [same.worse]
          obtain rfl | rfl := choice
          · exact top
          · obtain rfl | less := activating.consistent.formed.work_le usable.known above
            · exact state.worse_irrefl _
            · exact notWorse_of_work less
        split at ran
        · cases ran
          exact ⟨pindex, best, connected, topNext, fun impossible => (nomatch impossible),
            fun impossible => nomatch impossible⟩
        · exact ih connected usableNext (same.tree ▸ onward) (same.tree ▸ below) topNext ran
    | invalid =>
      simp only [outcome, connectTip, asserted, if_true] at ran
      cases ran
      obtain ⟨offStart, never⟩ := sound.rejects outcome
      have off : ∀ {from_}, (∀ {elder}, state.tree.Below from_ elder →
          Vouched activation start calls elder) → ¬ state.tree.Below from_ pindex := by
        intro from_ vouched up
        obtain inStart | ⟨earlier, before, accepted⟩ := vouched up
        · exact offStart inStart
        · exact never earlier before accepted
      have marked := activating.consistent.invalidBlockFound (off activating.tipVouched)
        (off activating.barVouched)
      exact ⟨tip, bar, activating.later marked ⟨rfl, rfl, rfl⟩, top,
        fun impossible => (nomatch impossible), fun impossible => nomatch impossible⟩
    | corrupt =>
      simp only [outcome, connectTip, asserted, if_true] at ran
      cases ran
      exact ⟨tip, bar, activating.later activating.consistent (.refl _), top,
        fun impossible => (nomatch impossible), fun impossible => nomatch impossible⟩
    | error raised =>
      simp only [outcome, connectTip, asserted, if_true] at ran
      cases ran
      have sameTip := activating.bar_eq_tip sound edge outcome
      cases raised with
      | true =>
        obtain ⟨kept, same, _, _⟩ := activating.consistent.raiseScripts usableHere edge
        refine ⟨tip, bar, activating.later kept same, ?_,
          fun impossible => (nomatch impossible), fun _ => sameTip⟩
        rw [if_pos rfl, same.worse]
        exact top
      | false =>
        exact ⟨tip, bar, activating.later activating.consistent (.refl _), top,
          fun impossible => (nomatch impossible), fun _ => sameTip⟩

/-- All batches of a step: each starts at the height the last one reached. -/
theorem Activating.connectBatches {pindexOldTip : Option BlockPtr} {fuel : Nat} {nHeight : Int}
    (activating : Activating hashGenesisBlock activation start calls state tip bar)
    (usable : Usable state.tree state.nStatus state.nChainTx pindexMostWork)
    (below : state.tree.Below pindexMostWork tip) (height : nHeight = state.tree.nHeight tip)
    (top : state.worse pindexMostWork bar = false)
    (ran : IndexState.connectBatches activation pindexOldTip pindexMostWork fuel nHeight calls state =
      some (next, called, progress)) :
    ∃ newTip newBar, Activating hashGenesisBlock activation start called next newTip newBar ∧
      next.worse pindexMostWork newBar = false ∧ (progress = .failed → newBar = newTip) := by
  induction fuel generalizing state tip bar calls nHeight with
  | zero => cases ran
  | succ fuel ih =>
    unfold IndexState.connectBatches at ran
    split at ran
    · cases ran
      exact ⟨tip, bar, activating, top, fun impossible => nomatch impossible⟩
    · have lower := activating.consistent.formed.ranked.rank_le usable.known below
      subst height
      obtain ⟨last, leads, lastBelow, lastHeight⟩ :=
        activating.consistent.activePath.blocksToConnect usable.known below
          (show (state.tree.nHeight tip : Int) ≤ min ((state.tree.nHeight tip : Int) + 32)
            (state.tree.nHeight pindexMostWork) by omega) (min_le_right _ _)
      dsimp only at ran
      split at ran
      case h_1 middle reached batch =>
        obtain ⟨newTip, newBar, moved, topNext, goesOn, _⟩ :=
          Activating.connectBlocks sound activating usable leads lastBelow top batch
        obtain ⟨rfl, usableNext⟩ := goesOn rfl
        have sameTree : middle.tree = state.tree := moved.same.tree.trans activating.same.tree.symm
        refine ih moved usableNext (sameTree ▸ lastBelow) ?_ topNext ran
        rw [sameTree, lastHeight]
      case h_2 ended =>
        obtain ⟨newTip, newBar, moved, topNext, _, fails⟩ :=
          Activating.connectBlocks sound activating usable leads lastBelow top ran
        exact ⟨newTip, newBar, moved, topNext, fails⟩

theorem Activating.activateBestChainStep
    (activating : Activating hashGenesisBlock activation start calls state tip bar)
    (usable : Usable state.tree state.nStatus state.nChainTx pindexMostWork)
    (top : state.worse pindexMostWork bar = false)
    (ran : IndexState.activateBestChainStep activation pindexMostWork calls state =
      some (next, called, progress)) :
    ∃ newTip newBar, Activating hashGenesisBlock activation start called next newTip newBar ∧
      next.worse pindexMostWork newBar = false ∧ (progress = .failed → newBar = newTip) := by
  have consistent := activating.consistent
  obtain ⟨fork, forked, below, onChain⟩ := consistent.activePath.findFork usable.known
  have rewound : disconnectTo (some fork) state.chainActive = (state.tree.path fork, true) := by
    rw [consistent.active.active]
    exact disconnectTo_path consistent.formed consistent.active.usable.known onChain
  simp only [IndexState.activateBestChainStep, forked, rewound, if_true, Option.map_some,
    Option.getD_some] at ran
  have atFork : Activating hashGenesisBlock activation start calls
      { state with chainActive := state.tree.path fork } fork bar :=
    ⟨consistent.rewind onChain, activating.same.trans ⟨rfl, rfl, rfl⟩,
      fun above => activating.tipVouched (onChain.trans above), activating.barVouched,
      activating.best⟩
  exact Activating.connectBatches sound atFork usable below rfl top ran

theorem Activating.activateRounds {rounds : Nat}
    (activating : Activating hashGenesisBlock activation start calls state tip bar)
    (ran : IndexState.activateRounds activation rounds calls state = some next) :
    ∃ newTip, next.Consistent hashGenesisBlock newTip newTip := by
  induction rounds generalizing state tip bar calls with
  | zero => cases ran
  | succ rounds ih =>
    unfold IndexState.activateRounds at ran
    split at ran
    case h_1 => cases ran
    case h_2 found chosen =>
      obtain ⟨_, _, pindexMostWork, impossible, _⟩ := activating.consistent.findMostWorkChain chosen
      cases impossible
    case h_3 found pindexMostWork chosen =>
      obtain ⟨kept, same, other, isBest, usable, top⟩ :=
        activating.consistent.findMostWorkChain chosen
      cases isBest
      have here : Activating hashGenesisBlock activation start calls found tip bar :=
        ⟨kept, activating.same.trans same, fun above => activating.tipVouched (same.tree ▸ above),
          fun above => activating.barVouched (same.tree ▸ above), activating.best⟩
      split at ran
      case isTrue atBest =>
        cases ran
        rw [kept.tip_eq] at atBest
        cases atBest
        have level := eq_of_notWorse kept.order top
        exact ⟨tip, level ▸ kept⟩
      case isFalse =>
        split at ran
        case h_1 => cases ran
        case h_2 stepped =>
          cases ran
          obtain ⟨newTip, newBar, moved, _, fails⟩ :=
            Activating.activateBestChainStep sound here usable top stepped
          exact ⟨newTip, fails rfl ▸ moved.consistent⟩
        case h_3 middle called progress _ stepped =>
          obtain ⟨newTip, newBar, moved, topNext, _⟩ :=
            Activating.activateBestChainStep sound here usable top stepped
          split at ran
          case isTrue atBest =>
            cases ran
            rw [moved.consistent.tip_eq] at atBest
            have reached := Option.some.inj atBest
            rw [← reached] at topNext
            have level := eq_of_notWorse moved.consistent.order topNext
            exact ⟨newTip, level ▸ moved.consistent⟩
          case isFalse => exact ih moved ran

end

theorem Consistent.activateBestChain (consistent : state.Consistent hashGenesisBlock tip tip)
    (sound : ActivationSound state activation)
    (ran : state.activateBestChain activation = some next) :
    ∃ newTip, next.Consistent hashGenesisBlock newTip newTip := by
  have start : ∀ {pindex}, state.tree.Below tip pindex → Vouched activation state 0 pindex := by
    intro pindex above
    left
    rw [consistent.active.active]
    exact (consistent.formed.mem_path consistent.active.usable.known).mpr above
  exact Activating.activateRounds sound
    ⟨consistent, .refl state, start, start, .inl consistent.tip_eq⟩ ran

end IndexState

end CentNode
