import CentNode.Chain.LinkedCounts

/-!
# What holds of every block index

The invariant of the stored index: the entries form a forest, each is found
under the hash of its header, adds its work to that of its parent, and has stake
fields only with the flag for them.
-/

namespace CentNode

open Function Option List StdMap

/-! ## A new entry, with or without a parent -/

namespace BlockTree

/-- `AddToBlockIndex` makes a new entry: hash and address are new, and the
block is not its own parent. -/
structure NewEntry (tree : BlockTree) (address : BlockPtr) (block : CBlock) : Prop where
  unknown : tree.mapBlockIndex.lookup block.hash = none
  unused : address ∉ tree.entries
  apart : block.hashPrevBlock ≠ block.hash

variable {tree : BlockTree} {address : BlockPtr} {block : CBlock}

namespace NewEntry

theorem lookup (new : tree.NewEntry address block) (hash : Uint256) :
    (tree.insertBlock address block).mapBlockIndex.lookup hash =
      if hash = block.hash then some address else tree.mapBlockIndex.lookup hash := by
  rw [insertBlock, lookup_insertNew, new.unknown]
  simp only [and_true]

variable {pindex : BlockPtr}

section

variable (new : tree.NewEntry address block)

include new

theorem ne_of_known (linked : tree.Linked)
    (known : tree.Known pindex) : pindex ≠ address :=
  fun same => new.unused (same ▸ linked.mem_entries.mpr known)

theorem phashBlock (linked : tree.Linked)
    (known : tree.Known pindex) :
    (tree.insertBlock address block).phashBlock pindex = tree.phashBlock pindex :=
  update_of_ne (new.ne_of_known linked known) _ _

theorem known_iff :
    (tree.insertBlock address block).Known pindex ↔
      pindex = address ∨ tree.Known pindex := by
  unfold Known
  rw [new.lookup]
  by_cases isNew : pindex = address
  · subst isNew
    have hash : (tree.insertBlock pindex block).phashBlock pindex = block.hash := update_self _ _ _
    rw [hash, if_pos rfl]
    exact iff_of_true rfl (Or.inl rfl)
  · have hash : (tree.insertBlock address block).phashBlock pindex = tree.phashBlock pindex :=
      update_of_ne isNew _ _
    rw [hash]
    by_cases taken : tree.phashBlock pindex = block.hash
    · rw [if_pos taken, taken, new.unknown]
      refine iff_of_false (fun same => isNew (Option.some.inj same).symm) ?_
      rintro (same | impossible)
      · exact isNew same
      · cases impossible
    · rw [if_neg taken]
      exact (or_iff_right isNew).symm

theorem parent_eq :
    (tree.mapBlockIndex.insertNew block.hash address).lookup block.hashPrevBlock =
      tree.mapBlockIndex.lookup block.hashPrevBlock := by
  rw [lookup_insertNew, if_neg fun both => new.apart both.1]

theorem pprev_new :
    (tree.insertBlock address block).pprev address =
      tree.mapBlockIndex.lookup block.hashPrevBlock := by
  rw [insertBlock, new.parent_eq]
  exact update_self _ _ _

theorem nChainWork_new :
    (tree.insertBlock address block).nChainWork address =
      (((tree.mapBlockIndex.lookup block.hashPrevBlock).map tree.nChainWork).getD 0 +
        getBlockProof block.nBits) % 2 ^ 256 := by
  rw [insertBlock, new.parent_eq]
  exact update_self _ _ _

end

theorem phashBlock_new (tree : BlockTree) (address : BlockPtr) (block : CBlock) :
    (tree.insertBlock address block).phashBlock address = block.hash :=
  update_self _ _ _

theorem linked (new : tree.NewEntry address block) (linked : tree.Linked) :
    (tree.insertBlock address block).Linked := by
  have old : ∀ {pindex}, tree.Known pindex →
      (tree.insertBlock address block).pprev pindex = tree.pprev pindex :=
    fun known => update_of_ne (new.ne_of_known linked known) _ _
  have oldHeight : ∀ {pindex}, tree.Known pindex →
      (tree.insertBlock address block).nHeight pindex = tree.nHeight pindex :=
    fun known => update_of_ne (new.ne_of_known linked known) _ _
  have newHeight : (tree.insertBlock address block).nHeight address =
      ((tree.mapBlockIndex.lookup block.hashPrevBlock).map
        fun parent => tree.nHeight parent + 1).getD 0 := by
    rw [insertBlock, new.parent_eq]
    refine (update_self _ _ _).trans ?_
    cases tree.mapBlockIndex.lookup block.hashPrevBlock <;> rfl
  refine ⟨fun {hash pindex} found => ?_, ?_, ?_, ?_⟩
  · rw [new.lookup] at found
    split at found
    · next same =>
        cases found
        rw [phashBlock_new, same]
    · rw [new.phashBlock linked (linked.known_of_lookup found), linked.keyed found]
  · intro pindex up known edge
    rcases new.known_iff.mp known with rfl | before
    · rw [new.pprev_new] at edge
      exact new.known_iff.mpr (Or.inr (linked.known_of_lookup edge))
    · rw [old before] at edge
      exact new.known_iff.mpr (Or.inr (linked.ranked.parent_known before edge))
  · intro pindex up known edge
    rcases new.known_iff.mp known with rfl | before
    · rw [new.pprev_new] at edge
      rw [newHeight, edge, oldHeight (linked.known_of_lookup edge), map_some,
        getD_some]
    · rw [old before] at edge
      rw [oldHeight before, oldHeight (linked.ranked.parent_known before edge)]
      exact linked.ranked.rank_parent before edge
  · intro pindex known edge
    rcases new.known_iff.mp known with rfl | before
    · rw [new.pprev_new] at edge
      rw [newHeight, edge, map_none, getD_none]
    · rw [old before] at edge
      rw [oldHeight before]
      exact linked.ranked.rank_root before edge

end NewEntry

end BlockTree

variable {tree : BlockTree} {address : BlockPtr} {block : CBlock}

/-- A new entry has no data, and nothing waits for it. -/
theorem CountsOk.newEntry {haveData haveDataToo : BlockPtr → Bool} {nTx nChainTx : BlockPtr → Nat}
    {mapBlocksUnlinked : List (Option BlockPtr × BlockPtr)}
    (ok : CountsOk tree haveData nTx nChainTx mapBlocksUnlinked []) (linked : tree.Linked)
    (new : tree.NewEntry address block) (bare : haveDataToo address = false)
    (same : ∀ pindex, pindex ≠ address → haveDataToo pindex = haveData pindex) :
    CountsOk (tree.insertBlock address block) haveDataToo (Function.update nTx address 0)
      (Function.update nChainTx address 0) mapBlocksUnlinked [] := by
  have differ : ∀ {pindex}, tree.Known pindex → pindex ≠ address :=
    fun known => new.ne_of_known linked known
  have old : ∀ {pindex}, tree.Known pindex →
      (tree.insertBlock address block).pprev pindex = tree.pprev pindex :=
    fun known => update_of_ne (differ known) _ _
  have joined : ∀ {pindex}, tree.Known pindex →
      (Joined haveDataToo mapBlocksUnlinked [] pindex ↔
        Joined haveData mapBlocksUnlinked [] pindex) := by
    intro pindex known
    have data := same pindex (differ known)
    exact ⟨fun after => ⟨data ▸ after.data, after.free, after.settled⟩,
      fun before => ⟨data.trans before.data, before.free, before.settled⟩⟩
  constructor
  case bare =>
    intro pindex known missing
    rcases new.known_iff.mp known with rfl | before
    · exact update_self _ _ _
    · rw [update_of_ne (differ before)]
      exact ok.bare before ((same _ (differ before)).symm.trans missing)
  case waiting =>
    intro up pindex member
    obtain ⟨known, data, free, zero, parent, up_eq, edge, parentZero⟩ := ok.waiting member
    have parentKnown := linked.ranked.parent_known known edge
    refine ⟨new.known_iff.mpr (Or.inr known), (same _ (differ known)).trans data, free, ?_, parent,
      up_eq, (old known).trans edge, ?_⟩
    · rw [update_of_ne (differ known)]
      exact zero
    · rw [update_of_ne (differ parentKnown)]
      exact parentZero
  case counted =>
    intro pindex known after
    rcases new.known_iff.mp known with rfl | before
    · cases after.data.symm.trans bare
    · obtain ⟨sum, ups⟩ := ok.counted before ((joined before).mp after)
      rw [old before, update_of_ne (differ before), update_of_ne (differ before)]
      refine ⟨?_, fun parent edge => ?_⟩
      · rw [sum]
        cases edge : tree.pprev pindex with
        | none => rfl
        | some parent =>
          have parentKnown := linked.ranked.parent_known before edge
          rw [map_some, map_some, update_of_ne (differ parentKnown)]
      · exact (joined (linked.ranked.parent_known before edge)).mpr (ups parent edge)
  case queued =>
    intro pindex inside
    cases inside
  case once => exact ok.once
  case distinct => exact ok.distinct

/-! ## The invariant -/

namespace StoredIndex

/-- `hashPrev` of the entry on disk. -/
def hashPrev (state : StoredIndex) (pindex : BlockPtr) : Uint256 :=
  ((state.index.tree.pprev pindex).map state.index.tree.phashBlock).getD 0

structure Traced (hashOf : CBlockHeader → Uint256) (state : StoredIndex) : Prop where
  linked : state.index.tree.Linked
  counts : state.index.Counts []
  level : ∀ {pindex}, state.index.tree.Known pindex →
    2 ≤ (state.index.nStatus pindex).validity.level
  filled : ∀ {pindex}, state.index.tree.Known pindex →
    (state.index.nStatus pindex).haveData = true →
      0 < state.index.nTx pindex ∧ state.index.nTx pindex ≤ maxBlockSize
  work : ∀ {pindex}, state.index.tree.Known pindex → state.index.tree.nChainWork pindex =
    (((state.index.tree.pprev pindex).map state.index.tree.nChainWork).getD 0 +
      getBlockProof (state.fields pindex).nBits.toNat) % 2 ^ 256
  named : ∀ {pindex}, state.index.tree.Known pindex →
    hashOf ((state.fields pindex).header (state.hashPrev pindex)) = state.index.tree.phashBlock pindex
  staked : ∀ {pindex}, state.index.tree.Known pindex →
    (state.fields pindex).isProofOfStake = false →
      (state.fields pindex).prevoutStake = {} ∧ (state.fields pindex).nStakeTime = 0

variable {hashOf : CBlockHeader → Uint256} {state next : StoredIndex}

theorem traced_empty (hashOf : CBlockHeader → Uint256) : StoredIndex.empty.Traced hashOf := by
  have nothing : ∀ {pindex}, ¬ StoredIndex.empty.index.tree.Known pindex := by
    intro pindex known
    cases known
  have waits : ∀ {pair}, pair ∉ StoredIndex.empty.index.mapBlocksUnlinked := not_mem_nil
  constructor
  case linked =>
    exact ⟨fun found => (nomatch found), fun known => absurd known nothing,
      fun known => absurd known nothing, fun known => absurd known nothing⟩
  case counts =>
    exact ⟨fun known => absurd known nothing, fun member => absurd member waits,
      fun known => absurd known nothing, fun member => absurd member not_mem_nil,
      nodup_nil, nodup_nil⟩
  all_goals exact fun known => absurd known nothing

/-! ## The steps keep it -/

section

variable (traced : state.Traced hashOf)

include traced

theorem Traced.revalidated (step : state.Revalidates next) :
    next.Traced hashOf := by
  have header : ∀ pindex hashPrev,
      (next.fields pindex).header hashPrev = (state.fields pindex).header hashPrev := by
    intro pindex hashPrev
    obtain ⟨other, same⟩ := step.fields pindex
    rw [same]
    rfl
  have prev : ∀ pindex, next.hashPrev pindex = state.hashPrev pindex := by
    intro pindex
    unfold hashPrev
    rw [step.tree]
  have counts : next.index.Counts [] := by
    have data : (fun pindex => (next.index.nStatus pindex).haveData) =
        fun pindex => (state.index.nStatus pindex).haveData := funext step.haveData
    unfold IndexState.Counts
    rw [data, step.tree, step.nTx, step.nChainTx, step.unlinked]
    exact traced.counts
  refine ⟨step.tree ▸ traced.linked, counts, fun known => ?_, fun known data => ?_,
    fun {pindex} known => ?_, fun known => ?_, fun {pindex} known flag => ?_⟩
  all_goals rw [step.tree] at known
  · exact Nat.le_trans (traced.level known) (step.level _)
  · rw [step.nTx]
    exact traced.filled known ((step.haveData _).symm.trans data)
  · have bits : (next.fields pindex).nBits = (state.fields pindex).nBits :=
      congrArg CBlockHeader.nBits (header pindex 0)
    rw [step.tree, bits]
    exact traced.work known
  · rw [header, prev, step.tree]
    exact traced.named known
  · obtain ⟨other, same⟩ := step.fields pindex
    rw [same] at flag ⊢
    exact traced.staked known flag

/-- The entry of a header that was not known. -/
theorem Traced.newEntry {address : BlockPtr} {block : IncomingBlock}
    {modifier : NextModifier} (new : state.index.tree.NewEntry address (block.toBlock hashOf))
    (root : state.index.tree.mapBlockIndex.lookup block.header.hashPrevBlock = none →
      block.header.hashPrevBlock = 0) {grown : IndexState}
    (tree : grown.tree = state.index.tree.insertBlock address (block.toBlock hashOf))
    (nStatus : grown.nStatus = Function.update state.index.nStatus address
      (({} : BlockStatus).raiseValidity .tree))
    (nTx : grown.nTx = Function.update state.index.nTx address 0)
    (nChainTx : grown.nChainTx = Function.update state.index.nChainTx address 0)
    (unlinked : grown.mapBlocksUnlinked = state.index.mapBlocksUnlinked) {hasParent : Bool} :
    StoredIndex.Traced hashOf
      { index := grown
        fields := Function.update state.fields address
          (block.newFields (hashOf block.header) hasParent modifier) } := by
  have known_iff : ∀ {pindex}, grown.tree.Known pindex ↔
      pindex = address ∨ state.index.tree.Known pindex := by
    intro pindex
    rw [tree]
    exact new.known_iff
  have differ : ∀ {pindex}, state.index.tree.Known pindex → pindex ≠ address :=
    fun known => new.ne_of_known traced.linked known
  have old : ∀ {pindex}, state.index.tree.Known pindex →
      grown.tree.pprev pindex = state.index.tree.pprev pindex := by
    intro pindex known
    rw [tree]
    exact update_of_ne (differ known) _ _
  have oldWork : ∀ {pindex}, state.index.tree.Known pindex →
      grown.tree.nChainWork pindex = state.index.tree.nChainWork pindex := by
    intro pindex known
    rw [tree]
    exact update_of_ne (differ known) _ _
  have oldHash : ∀ {pindex}, state.index.tree.Known pindex →
      grown.tree.phashBlock pindex = state.index.tree.phashBlock pindex := by
    intro pindex known
    rw [tree]
    exact new.phashBlock traced.linked known
  have newParent : grown.tree.pprev address =
      state.index.tree.mapBlockIndex.lookup block.header.hashPrevBlock := by
    rw [tree]
    exact new.pprev_new
  have fresh : ({} : BlockStatus).raiseValidity .tree = { validity := .tree } := rfl
  constructor
  case linked =>
    change grown.tree.Linked
    rw [tree]
    exact new.linked traced.linked
  case counts =>
    change CountsOk grown.tree (fun pindex => (grown.nStatus pindex).haveData) grown.nTx
      grown.nChainTx grown.mapBlocksUnlinked []
    rw [tree, nStatus, nTx, nChainTx, unlinked]
    refine CountsOk.newEntry traced.counts traced.linked new ?_ fun pindex other => ?_
    · rw [update_self, fresh]
    · rw [update_of_ne other]
  case level =>
    intro pindex known
    change 2 ≤ (grown.nStatus pindex).validity.level
    rw [nStatus]
    rcases known_iff.mp known with rfl | before
    · rw [update_self, fresh]
      exact Nat.le_refl 2
    · rw [update_of_ne (differ before)]
      exact traced.level before
  case filled =>
    intro pindex known data
    change (grown.nStatus pindex).haveData = true at data
    change 0 < grown.nTx pindex ∧ grown.nTx pindex ≤ maxBlockSize
    rw [nStatus] at data
    rcases known_iff.mp known with rfl | before
    · rw [update_self, fresh] at data
      cases data
    · rw [update_of_ne (differ before)] at data
      rw [nTx, update_of_ne (differ before)]
      exact traced.filled before data
  case work =>
    intro pindex known
    change grown.tree.nChainWork pindex = (((grown.tree.pprev pindex).map grown.tree.nChainWork).getD 0 +
      getBlockProof (Function.update state.fields address _ pindex).nBits.toNat) % 2 ^ 256
    rcases known_iff.mp known with rfl | before
    · rw [newParent, update_self]
      have sum := new.nChainWork_new
      rw [← tree] at sum
      rw [sum]
      change (((state.index.tree.mapBlockIndex.lookup block.header.hashPrevBlock).map
        state.index.tree.nChainWork).getD 0 + getBlockProof block.header.nBits.toNat) % 2 ^ 256 = _
      cases found : state.index.tree.mapBlockIndex.lookup block.header.hashPrevBlock with
      | none => rfl
      | some parent =>
        rw [map_some, map_some, oldWork (traced.linked.known_of_lookup found)]
        rfl
    · rw [oldWork before, old before, update_of_ne (differ before), traced.work before]
      cases edge : state.index.tree.pprev pindex with
      | none => rfl
      | some parent =>
        have parentKnown := traced.linked.ranked.parent_known before edge
        rw [map_some, map_some, oldWork parentKnown]
  case named =>
    intro pindex known
    change hashOf ((Function.update state.fields address _ pindex).header
      (((grown.tree.pprev pindex).map grown.tree.phashBlock).getD 0)) = grown.tree.phashBlock pindex
    rcases known_iff.mp known with rfl | before
    · have hash : grown.tree.phashBlock pindex = hashOf block.header := by
        rw [tree]
        exact BlockTree.NewEntry.phashBlock_new _ _ _
      have prev : ((state.index.tree.mapBlockIndex.lookup block.header.hashPrevBlock).map
          grown.tree.phashBlock).getD 0 = block.header.hashPrevBlock := by
        cases found : state.index.tree.mapBlockIndex.lookup block.header.hashPrevBlock with
        | none => exact (root found).symm
        | some parent =>
          rw [map_some, oldHash (traced.linked.known_of_lookup found),
            traced.linked.keyed found]
          rfl
      rw [newParent, update_self, hash, prev]
      rfl
    · rw [old before, update_of_ne (differ before), oldHash before]
      have same : (((state.index.tree.pprev pindex).map grown.tree.phashBlock).getD 0) =
          state.hashPrev pindex := by
        unfold hashPrev
        cases edge : state.index.tree.pprev pindex with
        | none => rfl
        | some parent =>
          have parentKnown := traced.linked.ranked.parent_known before edge
          rw [map_some, map_some, oldHash parentKnown]
      rw [same]
      exact traced.named before
  case staked =>
    intro pindex known flag
    change (Function.update state.fields address _ pindex).isProofOfStake = false at flag
    change (Function.update state.fields address _ pindex).prevoutStake = {} ∧
      (Function.update state.fields address _ pindex).nStakeTime = 0
    rcases known_iff.mp known with rfl | before
    · rw [update_self] at flag ⊢
      have notStake : block.isProofOfStake = false := (flagWord_lsb _ _ _).symm.trans flag
      unfold IncomingBlock.newFields
      rw [notStake]
      exact ⟨rfl, rfl⟩
    · rw [update_of_ne (differ before)] at flag ⊢
      exact traced.staked before flag

theorem Traced.added {address : BlockPtr} {block : IncomingBlock}
    {modifier : NextModifier} (addable : state.Addable hashOf block)
    (added : state.addToBlockIndex hashOf address block modifier = some next) :
    next.Traced hashOf := by
  unfold StoredIndex.addToBlockIndex IndexState.addToBlockIndex at added
  have hash_eq : (block.toBlock hashOf).hash = hashOf block.header := rfl
  rw [hash_eq] at added
  cases unknown : state.index.tree.mapBlockIndex.lookup (hashOf block.header) with
  | some pindex =>
    rw [unknown] at added
    cases added
    exact traced
  | none =>
    rw [unknown] at added
    dsimp only at added
    split at added
    · cases added
    · next grown pindex entry =>
        split at entry
        · cases entry
        next unused =>
        cases entry
        cases added
        have root : state.index.tree.mapBlockIndex.lookup block.header.hashPrevBlock = none →
            block.header.hashPrevBlock = 0 := by
          intro absent
          rcases addable with found | ⟨zero, _⟩
          · rw [absent] at found
            cases found
          · exact zero
        have new : state.index.tree.NewEntry address (block.toBlock hashOf) := by
          refine ⟨unknown, unused, fun same => ?_⟩
          have same : block.header.hashPrevBlock = hashOf block.header := same
          rcases addable with found | ⟨zero, nonzero⟩
          · rw [same, unknown] at found
            cases found
          · exact nonzero (same.symm.trans zero)
        exact traced.newEntry new root (by rfl) (by rfl) (by rfl) (by rfl) (by rfl)

theorem Traced.received {block : IncomingBlock}
    {pindexNew : BlockPtr} (receivable : state.Receivable hashOf block pindexNew)
    (pos : CDiskBlockPos) : (state.receivedBlockTransactions hashOf block pindexNew pos).Traced
      hashOf := by
  have known := traced.linked.known_of_lookup receivable.found
  have valid : ∀ parent, state.index.tree.pprev pindexNew = some parent →
      (state.index.nStatus parent).isValid .tree = true := by
    intro parent edge
    unfold BlockStatus.isValid
    rw [receivable.parentClear parent edge]
    exact decide_eq_true (traced.level (traced.linked.ranked.parent_known known edge))
  obtain ⟨counts, same⟩ := @IndexState.Counts.receivedBlockTransactions _ (block.toBlock hashOf) _
    traced.counts traced.linked known receivable.missing valid
  have differ : ∀ {pindex}, pindex ≠ pindexNew →
      Function.update state.fields pindexNew ((state.fields pindexNew).receive block pos) pindex =
        state.fields pindex :=
    fun other => update_of_ne other _ _
  have header : ∀ pindex hashPrev, (Function.update state.fields pindexNew
      ((state.fields pindexNew).receive block pos) pindex).header hashPrev =
        (state.fields pindex).header hashPrev := by
    intro pindex hashPrev
    by_cases here : pindex = pindexNew
    · rw [here, update_self]
      rfl
    · rw [differ here]
  have tree : (state.receivedBlockTransactions hashOf block pindexNew pos).index.tree =
      state.index.tree := same.tree
  constructor
  case linked =>
    rw [tree]
    exact traced.linked
  case counts => exact counts
  case level =>
    intro pindex known
    rw [tree] at known
    change 2 ≤ ((state.index.receivedBlockTransactions _ _).nStatus pindex).validity.level
    rw [same.nStatus]
    have before := traced.level known
    unfold IndexState.withData
    dsimp only
    by_cases here : pindex = pindexNew
    · subst here
      rw [update_self]
      unfold BlockStatus.raiseValidity
      split
      · exact before
      · split
        · exact Nat.le_succ 2
        · exact before
    · rw [update_of_ne here]
      exact before
  case filled =>
    intro pindex known data
    rw [tree] at known
    change ((state.index.receivedBlockTransactions _ _).nStatus pindex).haveData = true at data
    change 0 < (state.index.receivedBlockTransactions _ _).nTx pindex ∧
      (state.index.receivedBlockTransactions _ _).nTx pindex ≤ maxBlockSize
    rw [same.nStatus, IndexState.haveData_withData] at data
    rw [same.nTx]
    unfold IndexState.withData
    dsimp only
    by_cases here : pindex = pindexNew
    · rw [here, update_self]
      exact ⟨length_pos_of_ne_nil receivable.filled, receivable.bounded⟩
    · rw [if_neg here] at data
      rw [update_of_ne here]
      exact traced.filled known data
  case work =>
    intro pindex known
    rw [tree] at known ⊢
    have bits : ((state.receivedBlockTransactions hashOf block pindexNew pos).fields pindex).nBits =
        (state.fields pindex).nBits := congrArg CBlockHeader.nBits (header pindex 0)
    rw [bits]
    exact traced.work known
  case named =>
    intro pindex known
    have prev : (state.receivedBlockTransactions hashOf block pindexNew pos).hashPrev pindex =
        state.hashPrev pindex := by
      unfold hashPrev
      rw [tree]
    rw [tree] at known ⊢
    rw [prev]
    exact (congrArg hashOf (header pindex _)).trans (traced.named known)
  case staked =>
    intro pindex known flag
    rw [tree] at known
    change (Function.update state.fields pindexNew ((state.fields pindexNew).receive block pos)
      pindex).isProofOfStake = false at flag
    change (Function.update state.fields pindexNew ((state.fields pindexNew).receive block pos)
      pindex).prevoutStake = {} ∧ (Function.update state.fields pindexNew
        ((state.fields pindexNew).receive block pos) pindex).nStakeTime = 0
    by_cases here : pindex = pindexNew
    · subst here
      rw [update_self] at flag ⊢
      refine traced.staked known ?_
      unfold BlockFields.receive BlockFields.isProofOfStake at flag
      dsimp only at flag
      split at flag
      · rw [BitVec.getLsbD_or, Bool.or_eq_false_iff] at flag
        exact flag.1
      · exact flag
    · rw [differ here] at flag ⊢
      exact traced.staked known flag

end

theorem Reachable.traced (reachable : Reachable hashOf state) : state.Traced hashOf := by
  induction reachable with
  | empty => exact traced_empty hashOf
  | added _ addable added ih => exact ih.added addable added
  | received _ receivable ih => exact ih.received receivable _
  | revalidated _ revalidates ih => exact ih.revalidated revalidates

end StoredIndex

end CentNode
