import CentNode.Chain.Consistency

/-!
# Headers and blocks that arrive keep the index consistent
-/

namespace CentNode

open Function List BlockStatus

variable {tree : BlockTree} {hashGenesisBlock : Uint256} {nStatus : BlockPtr → BlockStatus}
  {nTx nChainTx nSequenceId : BlockPtr → Nat} {queue : List BlockPtr}
  {mapBlocksUnlinked : List (Option BlockPtr × BlockPtr)}

/-! ## Changes of the failure flags -/

/-- Only failure flags differ. -/
structure SameProgress (before after : BlockPtr → BlockStatus) : Prop where
  data : ∀ pindex, (after pindex).haveData = (before pindex).haveData
  validity : ∀ pindex, (after pindex).validity = (before pindex).validity

section Flags

variable {after : BlockPtr → BlockStatus}

theorem StatusOk.reflag (status : StatusOk tree nStatus nTx) (same : SameProgress nStatus after)
    (blamed : ∀ {pindex}, tree.Known pindex → (after pindex).failed = true →
      ∃ elder, tree.Below pindex elder ∧ (after elder).failedValid = true) :
    StatusOk tree after nTx where
  data known := by rw [same.data]; exact status.data known
  received known := by rw [same.validity]; exact status.received known
  inTree known := by rw [same.validity]; exact status.inTree known
  chain known edge := by
    rw [same.validity, same.validity]
    exact status.chain known edge
  blamed := blamed

theorem StatusOk.mark (status : StatusOk tree nStatus nTx) {pindex : BlockPtr}
    {flagged : BlockStatus} (data : flagged.haveData = (nStatus pindex).haveData)
    (validity : flagged.validity = (nStatus pindex).validity)
    (valid : (nStatus pindex).failedValid = true → flagged.failedValid = true)
    (origin : ∃ elder, tree.Below pindex elder ∧
      (Function.update nStatus pindex flagged elder).failedValid = true) :
    StatusOk tree (Function.update nStatus pindex flagged) nTx := by
  have same : SameProgress nStatus (Function.update nStatus pindex flagged) := by
    constructor <;> intro other <;> by_cases here : other = pindex <;> simp [here, data, validity]
  refine status.reflag same fun {other} known failed => ?_
  by_cases here : other = pindex
  · rw [here]
    exact origin
  · rw [update_of_ne here] at failed
    obtain ⟨elder, above, blame⟩ := status.blamed known failed
    refine ⟨elder, above, ?_⟩
    by_cases isMarked : elder = pindex
    · subst isMarked
      rw [update_self]
      exact valid blame
    · rw [update_of_ne isMarked]
      exact blame

theorem Usable.reflag {pindex : BlockPtr} (usable : Usable tree nStatus nChainTx pindex)
    (clear : ∀ {elder}, tree.Below pindex elder → (after elder).failed = false) :
    Usable tree after nChainTx pindex :=
  ⟨usable.known, usable.linked, clear⟩

theorem ActiveOk.reflag {chainActive : List BlockPtr} {tip : BlockPtr}
    (active : ActiveOk tree nStatus nChainTx chainActive tip) (same : SameProgress nStatus after)
    (clear : ∀ {elder}, tree.Below tip elder → (after elder).failed = false) :
    ActiveOk tree after nChainTx chainActive tip where
  usable := active.usable.reflag clear
  active := active.active
  scripts inner := by
    rw [same.validity]
    exact active.scripts inner

variable {worse : BlockPtr → BlockPtr → Bool}

theorem CandidatesOk.reflag {candidates : List BlockPtr} {bar : BlockPtr}
    (ok : CandidatesOk tree nStatus nChainTx worse candidates bar)
    (grow : ∀ {pindex}, (nStatus pindex).failed = true → (after pindex).failed = true) :
    CandidatesOk tree after nChainTx worse candidates bar where
  member := ok.member
  offered known linked clear := by
    refine ok.offered known linked ?_
    by_contra failed
    rw [Bool.not_eq_false] at failed
    rw [grow failed] at clear
    cases clear

theorem CandidatesOk.shrink {candidates kept : List BlockPtr} {bar : BlockPtr}
    (ok : CandidatesOk tree nStatus nChainTx worse candidates bar)
    (subset : ∀ {pindex}, pindex ∈ kept → pindex ∈ candidates)
    (dropped : ∀ {pindex}, pindex ∈ candidates → pindex ∉ kept → (nStatus pindex).failed = true) :
    CandidatesOk tree nStatus nChainTx worse kept bar where
  member inside := ok.member (subset inside)
  offered {pindex} known linked clear best := by
    by_contra gone
    rw [dropped (ok.offered known linked clear best) gone] at clear
    cases clear

end Flags

namespace IndexState

variable {state : IndexState} {tip bar : BlockPtr}

/-- Marking an entry that is neither on the active chain nor on that of the bar. -/
theorem Consistent.invalidBlockFound (consistent : state.Consistent hashGenesisBlock tip bar)
    {pindex : BlockPtr} (offTip : ¬ state.tree.Below tip pindex)
    (offBar : ¬ state.tree.Below bar pindex) :
    (state.invalidBlockFound pindex).Consistent hashGenesisBlock tip bar := by
  have same : SameProgress state.nStatus (state.invalidBlockFound pindex).nStatus := by
    constructor <;> intro other <;> by_cases here : other = pindex <;>
      simp [IndexState.invalidBlockFound, updateStatus, eraseCandidate, here]
  have marked : ((state.invalidBlockFound pindex).nStatus pindex).failedValid = true := by
    simp [IndexState.invalidBlockFound, updateStatus, eraseCandidate]
  have others : ∀ {other}, other ≠ pindex →
      (state.invalidBlockFound pindex).nStatus other = state.nStatus other := by
    intro other differ
    exact update_of_ne differ _ _
  have clearOff : ∀ {start}, ¬ state.tree.Below start pindex →
      (∀ {elder}, state.tree.Below start elder → (state.nStatus elder).failed = false) →
      ∀ {elder}, state.tree.Below start elder →
        ((state.invalidBlockFound pindex).nStatus elder).failed = false := by
    intro start off clear elder above
    rw [others (by rintro rfl; exact off above)]
    exact clear above
  have failedHere : ((state.invalidBlockFound pindex).nStatus pindex).failed = true := by
    rw [BlockStatus.failed, marked, Bool.true_or]
  have grow : ∀ {other}, (state.nStatus other).failed = true →
      ((state.invalidBlockFound pindex).nStatus other).failed = true := by
    intro other failed
    by_cases here : other = pindex
    · rw [here, failedHere]
    · rw [others here, failed]
  have status : StatusOk state.tree (state.invalidBlockFound pindex).nStatus state.nTx :=
    consistent.status.mark rfl rfl (fun _ => rfl) ⟨pindex, .refl pindex, marked⟩
  refine ⟨consistent.formed, status, consistent.links,
    consistent.active.reflag same (clearOff offTip consistent.active.usable.clear), ?_,
    consistent.barUsable.reflag (clearOff offBar consistent.barUsable.clear), consistent.order⟩
  refine (consistent.candidates.reflag grow).shrink ?_ ?_
  · exact fun inside => (mem_filter.mp inside).1
  · intro other inside gone
    by_cases here : other = pindex
    · rw [here, failedHere]
    · exact absurd (mem_filter.mpr ⟨inside, decide_eq_true here⟩) gone

end IndexState

/-! ## New entries -/

section NewEntry

variable {pindexNew parent : BlockPtr} {block : CBlock}

theorem StatusOk.insertBlock (status : StatusOk tree nStatus nTx)
    (formed : tree.WellFormed hashGenesisBlock) (fresh : tree.Fresh pindexNew block parent) :
    StatusOk (tree.insertBlock pindexNew block)
      (Function.update nStatus pindexNew (({} : BlockStatus).raiseValidity .tree))
      (Function.update nTx pindexNew 0) := by
  have statusOld : ∀ {pindex}, tree.Known pindex → Function.update nStatus pindexNew
      (({} : BlockStatus).raiseValidity .tree) pindex = nStatus pindex :=
    fun known => update_of_ne (fresh.ne_of_known formed known) _ _
  have txOld : ∀ {pindex}, tree.Known pindex → Function.update nTx pindexNew 0 pindex = nTx pindex :=
    fun known => update_of_ne (fresh.ne_of_known formed known) _ _
  have pprevOld : ∀ {pindex}, tree.Known pindex →
      (tree.insertBlock pindexNew block).pprev pindex = tree.pprev pindex :=
    fun known => update_of_ne (fresh.ne_of_known formed known) _ _
  constructor
  case data =>
    intro pindex known
    obtain rfl | known := fresh.known_insertBlock.mp known
    · simp [raiseValidity, BlockStatus.failed, BlockValidity.level]
    · rw [statusOld known, txOld known]
      exact status.data known
  case received =>
    intro pindex known
    obtain rfl | known := fresh.known_insertBlock.mp known
    · simp [raiseValidity, BlockStatus.failed, BlockValidity.level]
    · rw [statusOld known, txOld known]
      exact status.received known
  case inTree =>
    intro pindex known
    obtain rfl | known := fresh.known_insertBlock.mp known
    · simp [raiseValidity, BlockStatus.failed, BlockValidity.level]
    · rw [statusOld known]
      exact status.inTree known
  case chain =>
    intro pindex up known edge high
    obtain rfl | known := fresh.known_insertBlock.mp known
    · simp [raiseValidity, BlockStatus.failed, BlockValidity.level] at high
    · rw [pprevOld known] at edge
      have upKnown := formed.ranked.parent_known known edge
      rw [statusOld known] at high ⊢
      rw [statusOld upKnown, pprevOld upKnown]
      exact status.chain known edge high
  case blamed =>
    intro pindex known failed
    obtain rfl | known := fresh.known_insertBlock.mp known
    · simp [raiseValidity, BlockStatus.failed, BlockValidity.level] at failed
    · rw [statusOld known] at failed
      obtain ⟨elder, above, blame⟩ := status.blamed known failed
      refine ⟨elder, (fresh.below_insertBlock formed known).mpr above, ?_⟩
      rw [statusOld (formed.ranked.known_of_below known above)]
      exact blame

theorem LinkOk.insertBlock (links : LinkOk tree nTx nChainTx nSequenceId mapBlocksUnlinked [])
    (formed : tree.WellFormed hashGenesisBlock) (fresh : tree.Fresh pindexNew block parent) :
    LinkOk (tree.insertBlock pindexNew block) (Function.update nTx pindexNew 0)
      (Function.update nChainTx pindexNew 0) (Function.update nSequenceId pindexNew 0)
      mapBlocksUnlinked [] := by
  have old : ∀ {values : BlockPtr → Nat} {pindex}, tree.Known pindex →
      Function.update values pindexNew 0 pindex = values pindex :=
    fun known => update_of_ne (fresh.ne_of_known formed known) _ _
  have pprevOld : ∀ {pindex}, tree.Known pindex →
      (tree.insertBlock pindexNew block).pprev pindex = tree.pprev pindex :=
    fun known => update_of_ne (fresh.ne_of_known formed known) _ _
  constructor
  case linked =>
    intro pindex known _
    obtain rfl | known := fresh.known_insertBlock.mp known
    · simp
    · rw [old known, old known, pprevOld known, links.linked known not_mem_nil]
      refine and_congr_right fun _ => forall_congr' fun up => imp_congr_right fun edge => ?_
      rw [old (formed.ranked.parent_known known edge)]
  case counted =>
    intro pindex known linked
    obtain rfl | known := fresh.known_insertBlock.mp known
    · simp at linked
    · rw [old known] at linked ⊢
      rw [links.counted known linked, BlockTree.chainTx, BlockTree.chainTx,
        fresh.path_insertBlock formed known]
      have sums : (tree.path pindex).map (Function.update nTx pindexNew 0) =
          (tree.path pindex).map nTx := by
        refine map_congr_left fun elder inside => ?_
        exact old (formed.ranked.known_of_below known ((formed.mem_path known).mp inside))
      rw [sums]
  case unsequenced =>
    intro pindex known unlinked
    obtain rfl | known := fresh.known_insertBlock.mp known
    · simp
    · rw [old known] at unlinked ⊢
      exact links.unsequenced known unlinked
  case waiting =>
    intro up pindex inside
    obtain ⟨known, edge, received, unlinked, free⟩ := links.waiting inside
    rw [old known, old known, pprevOld known]
    exact ⟨fresh.known_insertBlock.mpr (.inr known), edge, received, unlinked, free⟩
  case listed =>
    intro pindex known received unlinked free
    obtain rfl | known := fresh.known_insertBlock.mp known
    · simp at received
    · rw [old known] at received unlinked
      rw [pprevOld known]
      exact links.listed known received unlinked free
  case distinct => exact links.distinct
  case queued =>
    intro pindex inside
    cases inside
  case queuedOnce => exact links.queuedOnce

theorem Usable.insertBlock {pindex : BlockPtr} (usable : Usable tree nStatus nChainTx pindex)
    (formed : tree.WellFormed hashGenesisBlock) (fresh : tree.Fresh pindexNew block parent)
    (new : BlockStatus) :
    Usable (tree.insertBlock pindexNew block) (Function.update nStatus pindexNew new)
      (Function.update nChainTx pindexNew 0) pindex where
  known := fresh.known_insertBlock.mpr (.inr usable.known)
  linked := by
    rw [update_of_ne (fresh.ne_of_known formed usable.known)]
    exact usable.linked
  clear above := by
    have old := (fresh.below_insertBlock formed usable.known).mp above
    rw [update_of_ne
      (fresh.ne_of_known formed (formed.ranked.known_of_below usable.known old))]
    exact usable.clear old

theorem CandidatesOk.insertBlock {worse after : BlockPtr → BlockPtr → Bool}
    {candidates : List BlockPtr} {bar : BlockPtr}
    (ok : CandidatesOk tree nStatus nChainTx worse candidates bar)
    (formed : tree.WellFormed hashGenesisBlock) (fresh : tree.Fresh pindexNew block parent)
    (agree : ∀ {pindex}, tree.Known pindex → after pindex bar = worse pindex bar)
    (new : BlockStatus) :
    CandidatesOk (tree.insertBlock pindexNew block) (Function.update nStatus pindexNew new)
      (Function.update nChainTx pindexNew 0) after candidates bar := by
  constructor
  case member =>
    intro pindex inside
    obtain ⟨known, linked, best⟩ := ok.member inside
    rw [update_of_ne (fresh.ne_of_known formed known), agree known]
    exact ⟨fresh.known_insertBlock.mpr (.inr known), linked, best⟩
  case offered =>
    intro pindex known linked clear best
    obtain rfl | known := fresh.known_insertBlock.mp known
    · simp at linked
    · rw [update_of_ne (fresh.ne_of_known formed known)] at linked clear
      rw [agree known] at best
      exact ok.offered known linked clear best

end NewEntry

namespace IndexState

variable {state : IndexState} {tip bar : BlockPtr}

theorem Consistent.insertBlock (consistent : state.Consistent hashGenesisBlock tip bar)
    {address parent : BlockPtr} {block : CBlock} (fresh : state.tree.Fresh address block parent)
    (adds : state.tree.AddsWork block parent) {next : IndexState} {pindex : BlockPtr}
    (added : state.addToBlockIndex address block = some (next, pindex)) :
    next.Consistent hashGenesisBlock tip bar ∧ next.tree.Known pindex ∧
      (next.nStatus pindex).failed = false ∧ next.tree.pprev pindex = some parent ∧
      next.nStatus parent = state.nStatus parent := by
  have formed := consistent.formed
  unfold addToBlockIndex at added
  rw [fresh.unknown] at added
  simp only [fresh.unused, if_false, Option.some.injEq, Prod.mk.injEq] at added
  obtain ⟨rfl, rfl⟩ := added
  have tipKnown := consistent.active.usable.known
  have barKnown := consistent.barUsable.known
  have other : ∀ {pindex}, state.tree.Known pindex → pindex ≠ address :=
    fun known => fresh.ne_of_known formed known
  refine ⟨⟨fresh.wellFormed_insertBlock formed adds, consistent.status.insertBlock formed fresh,
    consistent.links.insertBlock formed fresh, ⟨consistent.active.usable.insertBlock formed fresh _,
      ?active, ?scripts⟩, consistent.candidates.insertBlock formed fresh ?agree _,
      consistent.barUsable.insertBlock formed fresh _, ?order⟩,
    fresh.known_insertBlock.mpr (.inl rfl), ?clear, fresh.pprev_new,
    update_of_ne (other (fresh.parent_known formed)) _ _⟩
  case active => exact consistent.active.active.trans (fresh.path_insertBlock formed tipKnown).symm
  case scripts =>
    simp only [BlockTree.insertBlock, update_of_ne (other tipKnown)]
    exact consistent.active.scripts
  case agree =>
    intro pindex known
    exact worse_congr (update_of_ne (other known) _ _)
      (update_of_ne (other barKnown) _ _) (update_of_ne (other known) _ _)
      (update_of_ne (other barKnown) _ _)
  case order =>
    rw [← consistent.order]
    exact worse_congr (update_of_ne (other barKnown) _ _)
      (update_of_ne (other tipKnown) _ _) (update_of_ne (other barKnown) _ _)
      (update_of_ne (other tipKnown) _ _)
  case clear => simp [raiseValidity, BlockStatus.failed, BlockValidity.level]

/-- The parent under which `AcceptBlockHeader` adds an entry for the header. -/
def newHeaderParent (params : CChainParams) (state : IndexState) (arrival : BlockArrival) :
    Option BlockPtr :=
  match state.tree.mapBlockIndex.lookup arrival.block.hash,
      state.findParent params arrival.block, arrival.contextualCheckBlockHeader with
  | none, .ok pindexPrev, .ok () => pindexPrev
  | _, _, _ => none

/-- A header that becomes a new entry adds work to its chain. -/
def HeaderFits (params : CChainParams) (state : IndexState) (arrival : BlockArrival) : Prop :=
  ∀ pindexPrev, state.newHeaderParent params arrival = some pindexPrev →
    state.tree.AddsWork arrival.block pindexPrev

theorem findParent_ok {params : CChainParams} {block : CBlock} {found : Option BlockPtr}
    (ok : state.findParent params block = .ok found) :
    (found = none ∧ block.hash = params.hashGenesisBlock) ∨
      ∃ pindexPrev, found = some pindexPrev ∧
        state.tree.mapBlockIndex.lookup block.hashPrevBlock = some pindexPrev ∧
        (state.nStatus pindexPrev).failed = false := by
  unfold findParent at ok
  split at ok
  case isTrue genesis =>
    cases ok
    exact .inl ⟨rfl, genesis⟩
  case isFalse =>
    split at ok
    case h_1 => cases ok
    case h_2 pindexPrev lookup =>
      split at ok
      case isTrue => cases ok
      case isFalse clear =>
        cases ok
        exact .inr ⟨pindexPrev, rfl, lookup, Bool.eq_false_of_not_eq_true clear⟩

/-- What `AcceptBlockHeader` gives back: an entry that is not failed, known
before or new under a parent that is not failed. -/
structure HeaderEntry (state next : IndexState) (block : CBlock) (pindex : BlockPtr) : Prop where
  known : next.tree.Known pindex
  clear : (next.nStatus pindex).failed = false
  origin : (next = state ∧ state.tree.mapBlockIndex.lookup block.hash = some pindex) ∨
    ∃ parent, next.tree.pprev pindex = some parent ∧ (next.nStatus parent).failed = false

theorem Consistent.acceptBlockHeader {params : CChainParams} {arrival : BlockArrival}
    (consistent : state.Consistent params.hashGenesisBlock tip bar)
    (fits : state.HeaderFits params arrival) {next : IndexState} {result : Checked BlockPtr}
    (accepted : state.acceptBlockHeader params arrival = some (next, result)) :
    next.Consistent params.hashGenesisBlock tip bar ∧
      ∀ pindex, result = .ok pindex → state.HeaderEntry next arrival.block pindex := by
  unfold IndexState.acceptBlockHeader at accepted
  split at accepted
  case h_1 pindex found =>
    split at accepted
    case isTrue =>
      cases accepted
      exact ⟨consistent, fun _ impossible => nomatch impossible⟩
    case isFalse clear =>
      cases accepted
      refine ⟨consistent, fun other same => ?_⟩
      cases same
      exact ⟨consistent.formed.known_of_lookup found, Bool.eq_false_of_not_eq_true clear,
        .inl ⟨rfl, found⟩⟩
  case h_2 unknown =>
    split at accepted
    case h_1 failure _ =>
      cases accepted
      exact ⟨consistent, fun _ impossible => nomatch impossible⟩
    case h_2 parent parentFound =>
      split at accepted
      case h_1 failure _ =>
        cases accepted
        exact ⟨consistent, fun _ impossible => nomatch impossible⟩
      case h_2 contextual =>
        obtain ⟨⟨grown, pindex⟩, added, same⟩ := Option.map_eq_some_iff.mp accepted
        cases same
        obtain ⟨rfl, isGenesis⟩ | ⟨pindexPrev, rfl, lookup, parentClear⟩ :=
          findParent_ok parentFound
        · obtain ⟨genesis, found, _⟩ := consistent.formed.genesis
          rw [isGenesis, found] at unknown
          cases unknown
        · have unused : arrival.address ∉ state.tree.entries := by
            intro used
            simp [addToBlockIndex, unknown, used] at added
          have adds := fits pindexPrev (by
            simp only [newHeaderParent, unknown, parentFound, contextual])
          obtain ⟨kept, known, clear, edge, sameStatus⟩ :=
            consistent.insertBlock ⟨unknown, lookup, unused⟩ adds added
          refine ⟨kept, fun other same => ?_⟩
          cases same
          exact ⟨known, clear, .inr ⟨pindexPrev, edge, sameStatus ▸ parentClear⟩⟩

end IndexState

/-! ## Linking -/

variable {state : IndexState}

theorem mem_waitingFor {pindex child : BlockPtr} :
    child ∈ state.waitingFor pindex ↔ (some pindex, child) ∈ state.mapBlocksUnlinked := by
  unfold IndexState.waitingFor
  rw [mem_map]
  constructor
  · rintro ⟨⟨up, other⟩, inside, rfl⟩
    obtain ⟨inside, same⟩ := mem_filter.mp inside
    cases of_decide_eq_true same
    exact inside
  · exact fun inside => ⟨_, mem_filter.mpr ⟨inside, decide_eq_true rfl⟩, rfl⟩

theorem nodup_waitingFor (distinct : state.mapBlocksUnlinked.Nodup) (pindex : BlockPtr) :
    (state.waitingFor pindex).Nodup := by
  refine List.Nodup.map_on ?_ (distinct.filter _)
  rintro ⟨left, child⟩ leftIn ⟨right, other⟩ rightIn same
  cases same
  cases of_decide_eq_true (mem_filter.mp leftIn).2
  cases of_decide_eq_true (mem_filter.mp rightIn).2
  rfl

/-- One iteration: the head of the queue is linked, and its children join the queue. -/
theorem LinkOk.linkBlock {pindex : BlockPtr}
    (links : LinkOk state.tree state.nTx state.nChainTx state.nSequenceId state.mapBlocksUnlinked
      (pindex :: queue)) (formed : state.tree.WellFormed hashGenesisBlock)
    (counts : state.tree.chainTx state.nTx pindex % 2 ^ 32 ≠ 0) :
    LinkOk state.tree state.nTx (state.linkBlock pindex).nChainTx
      (state.linkBlock pindex).nSequenceId (state.linkBlock pindex).mapBlocksUnlinked
      (queue ++ state.waitingFor pindex) := by
  obtain ⟨pindexKnown, received, unlinked, parents⟩ := links.queued mem_cons_self
  obtain ⟨once, rest⟩ := nodup_cons.mp links.queuedOnce
  have countHere : (state.linkBlock pindex).nChainTx pindex =
      state.tree.chainTx state.nTx pindex % 2 ^ 32 := by
    refine (update_self _ _ _).trans ?_
    cases edge : state.tree.pprev pindex with
    | none => simp [BlockTree.chainTx_root edge]
    | some parent =>
      have parentKnown := formed.ranked.parent_known pindexKnown edge
      rw [BlockTree.chainTx_parent formed pindexKnown edge, Option.map_some, Option.getD_some,
        links.counted parentKnown (parents parent edge), Nat.mod_add_mod, Nat.add_comm]
  have countOther : ∀ {other}, other ≠ pindex →
      (state.linkBlock pindex).nChainTx other = state.nChainTx other :=
    fun differ => update_of_ne differ _ _
  have linkedKeeps : ∀ {other}, state.nChainTx other ≠ 0 →
      (state.linkBlock pindex).nChainTx other ≠ 0 := by
    intro other linked
    rw [countOther (by rintro rfl; exact linked unlinked)]
    exact linked
  have child : ∀ {other}, other ∈ state.waitingFor pindex ↔
      (some pindex, other) ∈ state.mapBlocksUnlinked := mem_waitingFor
  constructor
  case linked =>
    intro other known free
    by_cases here : other = pindex
    · subst here
      rw [countHere]
      refine ⟨fun _ => ⟨received, fun parent edge => linkedKeeps (parents parent edge)⟩, fun _ => counts⟩
    · have notQueued : other ∉ pindex :: queue := by
        intro inside
        obtain same | inside := mem_cons.mp inside
        · exact here same
        · exact free (mem_append.mpr (.inl inside))
      rw [countOther here, links.linked known notQueued]
      refine and_congr_right fun hasTx => forall_congr' fun parent => imp_congr_right fun edge => ?_
      by_cases isParent : parent = pindex
      · subst isParent
        have alone : state.nChainTx other = 0 := by
          by_contra linked
          exact ((links.linked known notQueued).mp linked).2 parent edge unlinked
        have waits := links.listed known hasTx alone notQueued
        rw [edge] at waits
        exact absurd (mem_append.mpr (.inr (child.mpr waits))) free
      · rw [countOther isParent]
  case counted =>
    intro other known linked
    by_cases here : other = pindex
    · rw [here, countHere]
    · rw [countOther here] at linked ⊢
      exact links.counted known linked
  case unsequenced =>
    intro other known notLinked
    by_cases here : other = pindex
    · rw [here, countHere] at notLinked
      exact absurd notLinked counts
    · rw [countOther here] at notLinked
      exact (update_of_ne here _ _).trans (links.unsequenced known notLinked)
  case waiting =>
    intro up other inside
    obtain ⟨inside, differ⟩ := mem_filter.mp inside
    obtain ⟨known, edge, hasTx, notLinked, free⟩ := links.waiting inside
    rw [mem_cons, not_or] at free
    rw [countOther free.1]
    refine ⟨known, edge, hasTx, notLinked, fun queued => ?_⟩
    obtain queued | queued := mem_append.mp queued
    · exact free.2 queued
    · have sameUp := (links.waiting (child.mp queued)).2.1
      exact of_decide_eq_true differ (edge.trans sameUp.symm)
  case listed =>
    intro other known hasTx notLinked free
    have here : other ≠ pindex := by
      rintro rfl
      rw [countHere] at notLinked
      exact counts notLinked
    rw [countOther here] at notLinked
    rw [mem_append, not_or] at free
    have inside := links.listed known hasTx notLinked
      (by rw [mem_cons, not_or]; exact ⟨here, free.1⟩)
    refine mem_filter.mpr ⟨inside, decide_eq_true fun sameUp => free.2 (child.mpr ?_)⟩
    rw [← show state.tree.pprev other = some pindex from sameUp]
    exact inside
  case distinct => exact links.distinct.filter _
  case queued =>
    intro other inside
    obtain later | waits := mem_append.mp inside
    · obtain ⟨known, hasTx, notLinked, otherParents⟩ := links.queued (mem_cons_of_mem _ later)
      rw [countOther (by rintro rfl; exact once later)]
      exact ⟨known, hasTx, notLinked, fun parent edge => linkedKeeps (otherParents parent edge)⟩
    · obtain ⟨known, edge, hasTx, notLinked, free⟩ := links.waiting (child.mp waits)
      rw [mem_cons, not_or] at free
      rw [countOther free.1]
      refine ⟨known, hasTx, notLinked, fun parent edgeToo => ?_⟩
      rw [← edge] at edgeToo
      cases edgeToo
      rw [countHere]
      exact counts
  case queuedOnce =>
    refine nodup_append.mpr ⟨rest, nodup_waitingFor links.distinct pindex, ?_⟩
    rintro other inQueue another inChildren rfl
    exact (links.waiting (child.mp inChildren)).2.2.2.2 (mem_cons_of_mem _ inQueue)

namespace IndexState

variable {state : IndexState} {tip bar : BlockPtr}

theorem Consistent.tip_eq (consistent : state.Consistent hashGenesisBlock tip bar) :
    state.tip = some tip := by
  rw [IndexState.tip, consistent.active.active, BlockTree.path]
  rfl

variable {pindex : BlockPtr}

theorem worse_of_notWorseThanTip {good : Bool} (test : state.notWorseThanTip pindex = good)
    (head : state.tip = some tip) : state.worse pindex tip = !good := by
  simp only [notWorseThanTip, head] at test
  rw [← test, Bool.not_not]

theorem mem_linkBlock_candidates {other : BlockPtr} (head : state.tip = some tip) :
    other ∈ (state.linkBlock pindex).setBlockIndexCandidates ↔
      (other = pindex ∧ (state.linkBlock pindex).worse pindex tip = false) ∨
        other ∈ state.setBlockIndexCandidates := by
  unfold linkBlock
  dsimp only
  split
  case isTrue good =>
    have best := worse_of_notWorseThanTip good head
    rw [mem_insert_iff]
    exact or_congr_left ⟨fun same => ⟨same, best⟩, And.left⟩
  case isFalse bad =>
    have below := worse_of_notWorseThanTip (Bool.eq_false_of_not_eq_true bad) head
    refine ⟨.inr, fun inside => inside.resolve_left fun here => ?_⟩
    exact Bool.false_ne_true (here.2.symm.trans below)

/-- The invariant inside the loop of `ReceivedBlockTransactions`. -/
structure Linking (hashGenesisBlock : Uint256) (state : IndexState) (tip : BlockPtr)
    (queue : List BlockPtr) : Prop where
  formed : state.tree.WellFormed hashGenesisBlock
  status : StatusOk state.tree state.nStatus state.nTx
  links : LinkOk state.tree state.nTx state.nChainTx state.nSequenceId state.mapBlocksUnlinked
    queue
  active : ActiveOk state.tree state.nStatus state.nChainTx state.chainActive tip
  candidates : CandidatesOk state.tree state.nStatus state.nChainTx state.worse
    state.setBlockIndexCandidates tip

theorem Linking.consistent (linking : state.Linking hashGenesisBlock tip []) :
    state.Consistent hashGenesisBlock tip tip :=
  ⟨linking.formed, linking.status, linking.links, linking.active, linking.candidates,
    linking.active.usable, state.worse_irrefl tip⟩

theorem Linking.linkBlock (linking : state.Linking hashGenesisBlock tip (pindex :: queue))
    (counts : state.tree.chainTx state.nTx pindex % 2 ^ 32 ≠ 0) :
    (state.linkBlock pindex).Linking hashGenesisBlock tip (queue ++ state.waitingFor pindex) := by
  have unlinked := (linking.links.queued mem_cons_self).2.2.1
  have other : ∀ {other}, state.nChainTx other ≠ 0 → other ≠ pindex := by
    rintro other linked rfl
    exact linked unlinked
  have countOther : ∀ {other}, other ≠ pindex →
      (state.linkBlock pindex).nChainTx other = state.nChainTx other :=
    fun differ => update_of_ne differ _ _
  have tipOther := other linking.active.usable.linked
  have sameOrder : ∀ {other}, other ≠ pindex →
      (state.linkBlock pindex).worse other tip = state.worse other tip :=
    fun differ => worse_congr rfl rfl (update_of_ne differ _ _)
      (update_of_ne tipOther _ _)
  have head : state.tip = some tip := by
    rw [IndexState.tip, linking.active.active, BlockTree.path]
    rfl
  have links := linking.links.linkBlock linking.formed counts
  refine ⟨linking.formed, linking.status, links, ⟨⟨linking.active.usable.known, ?_,
    linking.active.usable.clear⟩, linking.active.active, linking.active.scripts⟩, ⟨?_, ?_⟩⟩
  · rw [countOther tipOther]
    exact linking.active.usable.linked
  · intro candidate inside
    obtain ⟨rfl, good⟩ | inside := (mem_linkBlock_candidates head).mp inside
    · have here := linking.links.queued mem_cons_self
      refine ⟨here.1, (links.linked here.1 ?_).mpr ⟨here.2.1, ?_⟩, good⟩
      · intro again
        obtain later | waits := mem_append.mp again
        · exact (nodup_cons.mp linking.links.queuedOnce).1 later
        · exact (linking.links.waiting (mem_waitingFor.mp waits)).2.2.2.2 mem_cons_self
      · intro parent edge
        have linked := here.2.2.2 parent edge
        rw [countOther (other linked)]
        exact linked
    · obtain ⟨known, linked, best⟩ := linking.candidates.member inside
      rw [countOther (other linked), sameOrder (other linked)]
      exact ⟨known, linked, best⟩
  · intro candidate known linked clear best
    refine (mem_linkBlock_candidates head).mpr ?_
    by_cases here : candidate = pindex
    · subst here
      exact .inl ⟨rfl, best⟩
    · rw [countOther here] at linked
      rw [sameOrder here] at best
      exact .inr (linking.candidates.offered known linked clear best)

/-- Every chain through `start` whose blocks have all been received has a
transaction count that fits the counter without wrapping to zero. -/
def CountsFit (tree : BlockTree) (nTx : BlockPtr → Nat) (start : BlockPtr) : Prop :=
  ∀ pindex, tree.Known pindex → tree.Below pindex start →
    (∀ elder, tree.Below pindex elder → nTx elder ≠ 0) → tree.chainTx nTx pindex % 2 ^ 32 ≠ 0

theorem Linking.counts {start : BlockPtr}
    (linking : state.Linking hashGenesisBlock tip (pindex :: queue))
    (fits : CountsFit state.tree state.nTx start) (below : state.tree.Below pindex start) :
    state.tree.chainTx state.nTx pindex % 2 ^ 32 ≠ 0 := by
  obtain ⟨known, received, _, parents⟩ := linking.links.queued mem_cons_self
  refine fits pindex known below fun elder above => ?_
  obtain rfl | ⟨parent, edge, above⟩ := above.cases_parent
  · exact received
  · exact (linking.links.linked_above linking.formed
      (linking.formed.ranked.parent_known known edge) (parents parent edge) above).2

theorem length_waitingFor (state : IndexState) (pindex : BlockPtr) :
    (state.waitingFor pindex).length + (state.linkBlock pindex).mapBlocksUnlinked.length =
      state.mapBlocksUnlinked.length := by
  have splits := state.mapBlocksUnlinked.length_eq_length_filter_add fun pair =>
    decide (pair.1 = some pindex)
  simp only [waitingFor, linkBlock, length_map, ne_eq, decide_not]
  exact splits.symm

theorem Linking.linkQueue {start : BlockPtr} {fuel : Nat}
    (linking : state.Linking hashGenesisBlock tip queue)
    (fits : CountsFit state.tree state.nTx start)
    (below : ∀ {pindex}, pindex ∈ queue → state.tree.Below pindex start)
    (enough : queue.length + state.mapBlocksUnlinked.length ≤ fuel) :
    (IndexState.linkQueue fuel queue state).Consistent hashGenesisBlock tip tip := by
  induction fuel generalizing state queue with
  | zero =>
    have empty : queue = [] := length_eq_zero_iff.mp (by omega)
    subst empty
    exact linking.consistent
  | succ fuel ih =>
    cases queue with
    | nil => exact linking.consistent
    | cons pindex queue =>
      have here := below mem_cons_self
      refine ih (linking.linkBlock (linking.counts fits here)) fits ?_ ?_
      · intro other inside
        obtain later | waits := mem_append.mp inside
        · exact below (mem_cons_of_mem _ later)
        · obtain ⟨_, edge, _⟩ := linking.links.waiting (mem_waitingFor.mp waits)
          exact .step edge.symm here
      · have moved := state.length_waitingFor pindex
        rw [length_append]
        rw [length_cons] at enough
        omega

end IndexState

/-! ## Receiving a block -/

section Received

variable {pindex : BlockPtr} {count : Nat}

theorem StatusOk.receive (status : StatusOk tree nStatus nTx) (known : tree.Known pindex)
    (clear : (nStatus pindex).failed = false) (absent : nTx pindex = 0) (counted : count ≠ 0) :
    StatusOk tree
      (Function.update nStatus pindex
        (({ nStatus pindex with haveData := true }).raiseValidity .transactions))
      (Function.update nTx pindex count) := by
  have low : (nStatus pindex).validity.level ≤ 3 := by
    have notReceived := (not_congr (status.received known)).mpr (not_not.mpr absent)
    omega
  have levelHere : ((({ nStatus pindex with haveData := true } :
      BlockStatus).raiseValidity .transactions)).validity.level = 3 := by
    refine (level_raiseValidity ?_ _).trans (max_eq_right ?_)
    · exact clear
    · exact low
  constructor
  case data =>
    intro other otherKnown
    by_cases here : other = pindex
    · subst here
      simp [counted]
    · rw [update_of_ne here, update_of_ne here]
      exact status.data otherKnown
  case received =>
    intro other otherKnown
    by_cases here : other = pindex
    · subst here
      simp [levelHere, counted]
    · rw [update_of_ne here, update_of_ne here]
      exact status.received otherKnown
  case inTree =>
    intro other otherKnown
    by_cases here : other = pindex
    · subst here
      simp [levelHere]
    · rw [update_of_ne here]
      exact status.inTree otherKnown
  case chain =>
    intro other parent otherKnown edge high
    by_cases here : other = pindex
    · subst here
      simp [levelHere] at high
    · rw [update_of_ne here] at high ⊢
      obtain ⟨scripts, up⟩ := status.chain otherKnown edge high
      refine ⟨scripts, fun inner => ?_⟩
      by_cases isParent : parent = pindex
      · -- The parent of a block on the chain level has its data already.
        subst isParent
        have notReceived := (not_congr (status.received known)).mpr (not_not.mpr absent)
        have reached := up inner
        omega
      · rw [update_of_ne isParent]
        exact up inner
  case blamed =>
    have flags : ∀ other, (Function.update nStatus pindex
        (({ nStatus pindex with haveData := true }).raiseValidity .transactions) other).failedValid =
          (nStatus other).failedValid ∧
        (Function.update nStatus pindex
        (({ nStatus pindex with haveData := true }).raiseValidity .transactions) other).failed =
          (nStatus other).failed := by
      intro other
      by_cases here : other = pindex
      · subst here
        simp [BlockStatus.failed]
      · rw [update_of_ne here]
        exact ⟨rfl, rfl⟩
    intro other otherKnown failed
    rw [(flags other).2] at failed
    obtain ⟨elder, above, blame⟩ := status.blamed otherKnown failed
    exact ⟨elder, above, by rw [(flags elder).1]; exact blame⟩

theorem BlockTree.chainTx_update (formed : tree.WellFormed hashGenesisBlock) {other : BlockPtr}
    (known : tree.Known other) (off : ¬ tree.Below other pindex) :
    tree.chainTx (Function.update nTx pindex count) other = tree.chainTx nTx other := by
  have same : (tree.path other).map (Function.update nTx pindex count) =
      (tree.path other).map nTx := by
    refine map_congr_left fun elder inside => update_of_ne ?_ _ _
    rintro rfl
    exact off ((formed.mem_path known).mp inside)
  rw [chainTx, same, chainTx]

/-- What receiving a block does to the links, whether it is queued or has to wait. -/
theorem LinkOk.receive {waits : List (Option BlockPtr × BlockPtr)}
    (links : LinkOk tree nTx nChainTx nSequenceId mapBlocksUnlinked [])
    (formed : tree.WellFormed hashGenesisBlock) (known : tree.Known pindex)
    (absent : nTx pindex = 0) (counted : count ≠ 0)
    (place : (queue = [pindex] ∧ waits = mapBlocksUnlinked ∧
        ∀ parent, tree.pprev pindex = some parent → nChainTx parent ≠ 0) ∨
      (queue = [] ∧ waits = (tree.pprev pindex, pindex) :: mapBlocksUnlinked ∧
        ¬ ∀ parent, tree.pprev pindex = some parent → nChainTx parent ≠ 0)) :
    LinkOk tree (Function.update nTx pindex count) nChainTx nSequenceId waits queue := by
  have unlinked : nChainTx pindex = 0 := by
    by_contra linked
    exact ((links.linked known not_mem_nil).mp linked).1 absent
  have countOther : ∀ {other}, other ≠ pindex →
      Function.update nTx pindex count other = nTx other :=
    fun differ => update_of_ne differ _ _
  have countHere : Function.update nTx pindex count pindex = count := update_self _ _ _
  constructor
  case linked =>
    intro other otherKnown free
    by_cases here : other = pindex
    · subst here
      obtain ⟨rfl, _⟩ | ⟨_, _, orphan⟩ := place
      · exact absurd (mem_singleton_self other) free
      · exact ⟨fun linked => absurd unlinked linked, fun ready => absurd ready.2 orphan⟩
    · rw [countOther here]
      exact links.linked otherKnown not_mem_nil
  case counted =>
    intro other otherKnown linked
    rw [links.counted otherKnown linked, BlockTree.chainTx_update formed otherKnown]
    intro below
    exact (links.linked_above formed otherKnown linked below).2 absent
  case unsequenced => exact links.unsequenced
  case waiting =>
    intro up other inside
    have old : (up, other) ∈ mapBlocksUnlinked → tree.Known other ∧ up = tree.pprev other ∧
        Function.update nTx pindex count other ≠ 0 ∧ nChainTx other = 0 ∧ other ≠ pindex := by
      intro inside
      obtain ⟨otherKnown, edge, received, notLinked, _⟩ := links.waiting inside
      have here : other ≠ pindex := by
        rintro rfl
        exact received absent
      rw [countOther here]
      exact ⟨otherKnown, edge, received, notLinked, here⟩
    obtain ⟨rfl, rfl, _⟩ | ⟨rfl, rfl, _⟩ := place
    · obtain ⟨otherKnown, edge, received, notLinked, here⟩ := old inside
      exact ⟨otherKnown, edge, received, notLinked, fun queued => here (mem_singleton.mp queued)⟩
    · obtain same | inside := mem_cons.mp inside
      · cases same
        rw [countHere]
        exact ⟨known, rfl, counted, unlinked, not_mem_nil⟩
      · obtain ⟨otherKnown, edge, received, notLinked, _⟩ := old inside
        exact ⟨otherKnown, edge, received, notLinked, not_mem_nil⟩
  case listed =>
    intro other otherKnown received notLinked free
    by_cases here : other = pindex
    · subst here
      obtain ⟨rfl, _⟩ | ⟨_, rfl, _⟩ := place
      · exact absurd (mem_singleton_self other) free
      · exact mem_cons_self
    · rw [countOther here] at received
      have inside := links.listed otherKnown received notLinked not_mem_nil
      obtain ⟨_, rfl, _⟩ | ⟨_, rfl, _⟩ := place
      · exact inside
      · exact mem_cons_of_mem _ inside
  case distinct =>
    obtain ⟨_, rfl, _⟩ | ⟨_, rfl, _⟩ := place
    · exact links.distinct
    · refine nodup_cons.mpr ⟨fun inside => ?_, links.distinct⟩
      exact (links.waiting inside).2.2.1 absent
  case queued =>
    intro other inside
    obtain ⟨rfl, _, ready⟩ | ⟨rfl, _⟩ := place
    · cases mem_singleton.mp inside
      rw [countHere]
      exact ⟨known, counted, unlinked, ready⟩
    · cases inside
  case queuedOnce =>
    obtain ⟨rfl, _⟩ | ⟨rfl, _⟩ := place
    · exact nodup_singleton pindex
    · exact nodup_nil

end Received

namespace IndexState

variable {state : IndexState} {tip : BlockPtr}

variable {pindex : BlockPtr}

theorem parentLinked_iff :
    state.parentLinked pindex = true ↔
      ∀ parent, state.tree.pprev pindex = some parent → state.nChainTx parent ≠ 0 := by
  unfold parentLinked
  cases state.tree.pprev pindex <;> simp

theorem Consistent.receivedBlockTransactions
    (consistent : state.Consistent hashGenesisBlock tip tip) {block : CBlock} {pindex : BlockPtr}
    (known : state.tree.Known pindex) (clear : (state.nStatus pindex).failed = false)
    (parentClear : ∀ parent, state.tree.pprev pindex = some parent →
      (state.nStatus parent).failed = false)
    (absent : (state.nStatus pindex).haveData = false) (received : block.vtx ≠ [])
    (fits : CountsFit state.tree (Function.update state.nTx pindex block.vtx.length) pindex) :
    (state.receivedBlockTransactions block pindex).Consistent hashGenesisBlock tip tip := by
  have counted : block.vtx.length ≠ 0 := mt length_eq_zero_iff.mp received
  have noTx : state.nTx pindex = 0 := by
    by_contra hasTx
    rw [(consistent.status.data known).mpr hasTx] at absent
    cases absent
  have unlinked : state.nChainTx pindex = 0 := by
    by_contra linked
    exact ((consistent.links.linked known not_mem_nil).mp linked).1 noTx
  have sameCount : Function.update state.nChainTx pindex 0 = state.nChainTx :=
    update_eq_self_iff.mpr unlinked.symm
  have flags : ∀ other, (Function.update state.nStatus pindex
      (({ state.nStatus pindex with haveData := true }).raiseValidity .transactions) other).failed =
        (state.nStatus other).failed := by
    intro other
    by_cases here : other = pindex
    · subst here
      simp [BlockStatus.failed]
    · rw [update_of_ne here]
  have tipOther : tip ≠ pindex := by
    rintro rfl
    exact consistent.active.usable.linked unlinked
  have active : ActiveOk state.tree (Function.update state.nStatus pindex
      (({ state.nStatus pindex with haveData := true }).raiseValidity .transactions))
      (Function.update state.nChainTx pindex 0) state.chainActive tip := by
    rw [sameCount]
    refine ⟨consistent.active.usable.reflag fun above => ?_, consistent.active.active, ?_⟩
    · rw [flags]
      exact consistent.active.usable.clear above
    · rw [update_of_ne tipOther]
      exact consistent.active.scripts
  have candidates : CandidatesOk state.tree (Function.update state.nStatus pindex
      (({ state.nStatus pindex with haveData := true }).raiseValidity .transactions))
      (Function.update state.nChainTx pindex 0) state.worse state.setBlockIndexCandidates tip := by
    rw [sameCount]
    refine consistent.candidates.reflag fun failed => ?_
    rw [flags]
    exact failed
  have status := consistent.status.receive known clear noTx counted
  unfold IndexState.receivedBlockTransactions
  dsimp only
  split
  case isTrue ready =>
    have parents := parentLinked_iff.mp ready
    dsimp only at parents
    rw [sameCount] at parents
    refine Linking.linkQueue ⟨consistent.formed, status, ?_, active, candidates⟩ fits ?_ ?_
    · dsimp only
      rw [sameCount]
      exact consistent.links.receive consistent.formed known noTx counted (.inl ⟨rfl, rfl, parents⟩)
    · intro other inside
      cases mem_singleton.mp inside
      exact .refl pindex
    · rw [length_singleton, Nat.add_comm]
  case isFalse orphan =>
    have parents := (not_congr parentLinked_iff).mp orphan
    dsimp only at parents
    rw [sameCount] at parents
    cases edge : state.tree.pprev pindex with
    | none =>
      refine absurd (fun parent edgeToo => ?_) parents
      rw [edge] at edgeToo
      cases edgeToo
    | some parent =>
      have parentKnown := consistent.formed.ranked.parent_known known edge
      have valid : ((Function.update state.nStatus pindex (({ state.nStatus pindex with
          haveData := true }).raiseValidity .transactions) parent).isValid .tree) = true := by
        rw [isValid, flags, parentClear parent edge]
        exact decide_eq_true (status.inTree parentKnown)
      dsimp only
      rw [if_pos valid]
      refine Linking.consistent ⟨consistent.formed, status, ?_, active, candidates⟩
      dsimp only
      rw [sameCount, ← edge]
      exact consistent.links.receive consistent.formed known noTx counted
        (.inr ⟨rfl, rfl, parents⟩)

/-- A block whose data is stored keeps the transaction counters of its chains from zero. -/
def DataFits (params : CChainParams) (state : IndexState) (arrival : BlockArrival) : Prop :=
  ∀ next pindex, state.acceptBlockHeader params arrival = some (next, .ok pindex) →
    (next.nStatus pindex).haveData = false → checkArrival arrival = .ok () →
      CountsFit next.tree (Function.update next.nTx pindex arrival.block.vtx.length) pindex

/-- The parent of the entry that `AcceptBlockHeader` found was checked before. -/
theorem HeaderEntry.parent_clear {params : CChainParams} {next : IndexState} {block : CBlock}
    (entry : state.HeaderEntry next block pindex)
    (formed : state.tree.WellFormed params.hashGenesisBlock)
    (names : state.namesParent block = true) {found : Option BlockPtr}
    (parentOk : state.findParent params block = .ok found) {parent : BlockPtr}
    (edge : next.tree.pprev pindex = some parent) : (next.nStatus parent).failed = false := by
  obtain ⟨rfl, lookup⟩ | ⟨other, edgeToo, clear⟩ := entry.origin
  · have lookupParent : next.tree.mapBlockIndex.lookup block.hashPrevBlock = some parent := by
      simpa [namesParent, lookup, edge] using names
    obtain ⟨_, isGenesis⟩ | ⟨pindexPrev, _, lookupToo, clear⟩ := findParent_ok parentOk
    · obtain ⟨genesis, genesisFound, root⟩ := formed.genesis
      rw [isGenesis, genesisFound] at lookup
      cases lookup
      rw [root] at edge
      cases edge
    · rw [lookupParent] at lookupToo
      cases lookupToo
      exact clear
  · rw [edge] at edgeToo
    cases edgeToo
    exact clear

theorem checkArrival_ok {arrival : BlockArrival} (ok : checkArrival arrival = .ok ()) :
    arrival.block.vtx ≠ [] := by
  intro empty
  simp [checkArrival, empty, reject] at ok

theorem Consistent.markMissing (consistent : state.Consistent hashGenesisBlock tip tip)
    (known : state.tree.Known pindex) (absent : (state.nStatus pindex).haveData = false) :
    (state.updateStatus pindex fun status => { status with failedValid := true }).Consistent
      hashGenesisBlock tip tip := by
  have noTx : state.nTx pindex = 0 := by
    by_contra hasTx
    rw [(consistent.status.data known).mpr hasTx] at absent
    cases absent
  have off : ¬ state.tree.Below tip pindex := fun below =>
    (consistent.links.linked_above consistent.formed consistent.active.usable.known
      consistent.active.usable.linked below).2 noTx
  have notCandidate : pindex ∉ state.setBlockIndexCandidates := fun inside =>
    ((consistent.links.linked known not_mem_nil).mp
      (consistent.candidates.member inside).2.1).1 noTx
  have same : (state.updateStatus pindex fun status => { status with failedValid := true }) =
      state.invalidBlockFound pindex := by
    have kept : state.setBlockIndexCandidates.filter (· ≠ pindex) =
        state.setBlockIndexCandidates := by
      refine filter_eq_self.mpr fun other inside => decide_eq_true ?_
      rintro rfl
      exact notCandidate inside
    simp only [IndexState.invalidBlockFound, eraseCandidate, updateStatus, kept]
  rw [same]
  exact consistent.invalidBlockFound off off

theorem Consistent.acceptBlockData {params : CChainParams} {arrival : BlockArrival}
    (consistent : state.Consistent params.hashGenesisBlock tip tip)
    (fits : state.HeaderFits params arrival) (dataFits : state.DataFits params arrival)
    (names : state.namesParent arrival.block = true) {found : Option BlockPtr}
    (parentOk : state.findParent params arrival.block = .ok found) {next : IndexState}
    {result : Checked Unit}
    (accepted : state.acceptBlockData params arrival = some (next, result)) :
    next.Consistent params.hashGenesisBlock tip tip := by
  unfold IndexState.acceptBlockData at accepted
  split at accepted
  case h_1 => cases accepted
  case h_2 known failure header =>
    cases accepted
    exact (consistent.acceptBlockHeader fits header).1
  case h_3 known pindex header =>
    obtain ⟨kept, entries⟩ := consistent.acceptBlockHeader fits header
    have entry := entries pindex rfl
    split at accepted
    case isTrue =>
      cases accepted
      exact kept
    case isFalse noData =>
      have absent := Bool.eq_false_of_not_eq_true noData
      split at accepted
      case h_1 =>
        cases accepted
        exact kept.markMissing entry.known absent
      case h_2 =>
        cases accepted
        exact kept
      case h_3 checked =>
        split at accepted
        · cases accepted
          exact kept
        · split at accepted
          · cases accepted
            exact kept
          · cases accepted
            exact kept.receivedBlockTransactions entry.known entry.clear
              (fun parent edge => entry.parent_clear consistent.formed names parentOk edge) absent
              (checkArrival_ok checked) (dataFits known pindex header absent checked)

end IndexState

end CentNode
