import CentNode.Chain.IndexMarks
import CentNode.Library.Runs

/-!
# Runs of the block index

In every run whose calls are sound, all assertions of `CheckBlockIndex` hold in
every state reached.  A call that is not sound can leave an entry marked that
has no invalid ancestor, an entry in the wrong place of the candidates, or a
chain with less work than its parent.
-/

namespace CentNode

open Option List

namespace IndexState

variable (params : CChainParams) (checkpoints : Checkpoints)

/-- The state that `InitBlockIndex` leaves on an empty data directory: the
genesis block, with its one transaction, is received and is the active chain. -/
def genesisState (address : BlockPtr) (nBits : Nat) : IndexState where
  tree :=
    { mapBlockIndex := (∅ : StdMap Uint256 BlockPtr).insert params.hashGenesisBlock address
      phashBlock := fun _ => params.hashGenesisBlock
      pprev := fun _ => none
      pskip := fun _ => none
      nHeight := fun _ => 0
      nChainWork := fun _ => getBlockProof nBits }
  nStatus := fun _ => { validity := .transactions, haveData := true }
  nTx := fun _ => 1
  nChainTx := fun _ => 1
  nSequenceId := fun _ => 1
  chainActive := [address]
  setBlockIndexCandidates := [address]
  mapBlocksUnlinked := []
  nBlockSequenceId := 2

/-- What a call has to meet.  A header that is added has a positive proof of
work and the work of its chain fits, and the data of a block does not wrap a
transaction counter to zero.  `InvalidateBlock` is not called with the genesis
block, nor `ReconsiderBlock`, by a command or for a checkpoint, with a block
that has a marked ancestor.  `ConnectBlock` neither rejects a block it has
accepted nor fails in the middle of a reorganisation. -/
def Sound (state : IndexState) : IndexCall → Prop
  | .acceptBlockHeader arrival => state.HeaderFits params arrival
  | .acceptBlock arrival activation =>
    match state.checkpointParent params checkpoints arrival.block with
    | some pindexPrev =>
      state.ParentsClear pindexPrev ∧ ActivationSound (state.reconsiderBlock pindexPrev) activation
    | none =>
      arrival.block.hash = params.hashGenesisBlock ∨ arrival.checkWork = true →
        state.HeaderFits params arrival ∧ state.DataFits params arrival
  | .activateBestChain activation => ActivationSound state activation
  | .invalidateBlock hash activation =>
    ∀ pindex, state.tree.mapBlockIndex.lookup hash = some pindex →
      state.tree.pprev pindex ≠ none ∧ ActivationSound (state.invalidateBlock pindex) activation
  | .reconsiderBlock hash activation =>
    ∀ pindex, state.tree.mapBlockIndex.lookup hash = some pindex →
      state.ParentsClear pindex ∧ ActivationSound (state.reconsiderBlock pindex) activation

variable {params checkpoints}

theorem consistent_genesisState (address : BlockPtr) (nBits : Nat) :
    (genesisState params address nBits).Consistent params.hashGenesisBlock address address := by
  have lookup : ∀ hash, (genesisState params address nBits).tree.mapBlockIndex.lookup hash =
      if hash = params.hashGenesisBlock then some address else none :=
    fun hash => StdMap.lookup_insert_ite _ _ _ _
  have known : ∀ {pindex}, (genesisState params address nBits).tree.Known pindex ↔
      pindex = address := by
    intro pindex
    have hash : (genesisState params address nBits).tree.phashBlock pindex =
        params.hashGenesisBlock := rfl
    rw [BlockTree.Known, lookup, hash, if_pos rfl]
    exact ⟨fun same => (Option.some.inj same).symm, fun same => congrArg some same.symm⟩
  have usable : Usable (genesisState params address nBits).tree
      (genesisState params address nBits).nStatus
      (genesisState params address nBits).nChainTx address :=
    ⟨known.mpr rfl, Nat.one_ne_zero, fun _ => rfl⟩
  constructor
  case formed =>
    constructor
    case keyed =>
      intro hash pindex found
      rw [lookup] at found
      split at found
      case isTrue same => exact same.symm
      case isFalse => cases found
    case ranked => exact ⟨fun _ edge => (nomatch edge), fun _ edge => (nomatch edge), fun _ _ => rfl⟩
    case root => exact fun _ _ => rfl
    case genesis => exact ⟨address, by rw [lookup, if_pos rfl], rfl⟩
    case work => exact fun _ edge => nomatch edge
    case skip => exact fun _ edge => nomatch edge
    case bounded => exact fun _ => Nat.one_pos
  case status =>
    constructor
    case data => exact fun _ => ⟨fun _ => Nat.one_ne_zero, fun _ => rfl⟩
    case received => exact fun _ => ⟨fun _ => Nat.one_ne_zero, fun _ => Nat.le_refl 3⟩
    case inTree => exact fun _ => Nat.le_succ 2
    case chain => exact fun _ edge => nomatch edge
    case blamed => exact fun _ failed => nomatch failed
  case links =>
    constructor
    case linked =>
      intro pindex _ _
      exact ⟨fun _ => ⟨Nat.one_ne_zero, fun _ edge => nomatch edge⟩, fun _ => Nat.one_ne_zero⟩
    case counted =>
      intro pindex _ _
      rw [BlockTree.chainTx_root rfl]
      rfl
    case unsequenced => exact fun _ unlinked => nomatch unlinked
    case waiting => exact fun inside => nomatch inside
    case listed => exact fun _ _ unlinked => nomatch unlinked
    case distinct => exact nodup_nil
    case queued => exact fun inside => nomatch inside
    case queuedOnce => exact nodup_nil
  case active => exact ⟨usable, rfl, fun inner => absurd rfl inner⟩
  case candidates =>
    constructor
    case member =>
      intro pindex inside
      cases mem_singleton.mp inside
      exact ⟨known.mpr rfl, Nat.one_ne_zero, worse_irrefl _ address⟩
    case offered =>
      intro pindex pindexKnown _ _ _
      exact mem_singleton.mpr (known.mp pindexKnown)
  case barUsable => exact usable
  case order => exact worse_irrefl _ address

theorem checkpointParent_known {state : IndexState} {block : CBlock} {pindexPrev : BlockPtr}
    (found : state.checkpointParent params checkpoints block = some pindexPrev) :
    state.tree.mapBlockIndex.lookup block.hashPrevBlock = some pindexPrev := by
  unfold checkpointParent at found
  split at found
  · cases found
  · exact (filter_eq_some_iff.mp found).1

theorem Consistent.call {state next : IndexState} {tip : BlockPtr} {input : IndexCall}
    (consistent : state.Consistent params.hashGenesisBlock tip tip)
    (sound : state.Sound params checkpoints input)
    (called : state.call params checkpoints input = some next) :
    ∃ newTip, next.Consistent params.hashGenesisBlock newTip newTip := by
  cases input with
  | acceptBlockHeader arrival =>
    obtain ⟨⟨grown, result⟩, accepted, rfl⟩ := map_eq_some_iff.mp called
    exact ⟨tip, (consistent.acceptBlockHeader sound accepted).1⟩
  | acceptBlock arrival activation =>
    simp only [IndexState.call] at called
    split at called
    case isFalse => cases called
    case isTrue names =>
      obtain ⟨⟨grown, result⟩, accepted, rfl⟩ := map_eq_some_iff.mp called
      simp only [Sound] at sound
      unfold acceptBlock at accepted
      split at accepted
      case h_1 pindexPrev isCheckpoint =>
        obtain ⟨final, ran, same⟩ := map_eq_some_iff.mp accepted
        cases same
        simp only [isCheckpoint] at sound
        have known := consistent.formed.known_of_lookup (checkpointParent_known isCheckpoint)
        exact (consistent.reconsiderBlock known sound.1).activateBestChain sound.2 ran
      case h_2 notCheckpoint =>
        simp only [notCheckpoint] at sound
        split at accepted
        case h_1 =>
          cases accepted
          exact ⟨tip, consistent⟩
        case h_2 found parentOk =>
          split at accepted
          case isTrue =>
            cases accepted
            exact ⟨tip, consistent⟩
          case isFalse works =>
            have fits := sound (by
              by_cases isGenesis : arrival.block.hash = params.hashGenesisBlock
              · exact .inl isGenesis
              · exact .inr (by simpa [isGenesis] using works))
            exact ⟨tip, consistent.acceptBlockData fits.1 fits.2 names parentOk accepted⟩
  | activateBestChain activation => exact consistent.activateBestChain sound called
  | invalidateBlock hash activation =>
    simp only [IndexState.call] at called
    split at called
    case h_1 =>
      cases called
      exact ⟨tip, consistent⟩
    case h_2 pindex found =>
      obtain ⟨inner, activates⟩ := sound pindex found
      obtain ⟨newTip, marked⟩ := consistent.invalidateBlock inner
      exact marked.activateBestChain activates called
  | reconsiderBlock hash activation =>
    simp only [IndexState.call] at called
    split at called
    case h_1 =>
      cases called
      exact ⟨tip, consistent⟩
    case h_2 pindex found =>
      obtain ⟨parents, activates⟩ := sound pindex found
      exact (consistent.reconsiderBlock (consistent.formed.known_of_lookup found)
        parents).activateBestChain activates called

/-- In every run of sound calls from the genesis block, every assertion of
`CheckBlockIndex` holds in every state reached. -/
theorem checkBlockIndex_throughout (params : CChainParams) (checkpoints : Checkpoints)
    (address : BlockPtr) (nBits : Nat) (calls : List IndexCall)
    (sound : Runs.Meets (call params checkpoints) (Sound params checkpoints)
      (genesisState params address nBits) calls) :
    Runs.Throughout (call params checkpoints)
      (fun state => state.checkBlockIndex params.hashGenesisBlock = true)
      (genesisState params address nBits) calls := by
  have implies : ∀ state : IndexState,
      (∃ tip, state.Consistent params.hashGenesisBlock tip tip) →
        state.checkBlockIndex params.hashGenesisBlock = true := by
    rintro state ⟨tip, consistent⟩
    exact consistent.checkBlockIndex_eq_true
  refine Runs.throughout_of_kept implies ?_ ⟨address, consistent_genesisState address nBits⟩ sound
  rintro state input next ⟨tip, consistent⟩ met called
  exact consistent.call met called

/-! ## Two runs -/

/-- A block with one transaction and the work of the easiest target. -/
def forkBlock (hash hashPrevBlock : Uint256) : CBlock where
  hash := hash
  hashPrevBlock := hashPrevBlock
  nBits := 0x1e0ffff0
  vtx := [{ hash := hash, vin := [], vout := [] }]

/-- Every block is found valid. -/
def allConnected : Activation := ⟨fun _ _ => .connected, 3⟩

theorem activationSound_allConnected (state : IndexState) : ActivationSound state allConnected :=
  ⟨fun rejected => (nomatch rejected), fun failed => nomatch failed⟩

def afterCall (state : IndexState) (input : IndexCall) : IndexState :=
  (state.call mainParams {} input).getD state

def firstArrival : BlockArrival :=
  ⟨forkBlock 1 mainParams.hashGenesisBlock, 101, true, .ok (), .ok (), true, true⟩

def sampleStart : IndexState := genesisState mainParams 100 0x1e0ffff0

def sampleHeader : IndexState := sampleStart.afterCall (.acceptBlockHeader firstArrival)

def sampleActive : IndexState :=
  (sampleStart.afterCall (.acceptBlock firstArrival allConnected)).afterCall (.activateBestChain allConnected)

theorem countsFit_sampleHeader (nTx : BlockPtr → Nat) (first : nTx 101 = 1) (genesis : nTx 100 = 1) :
    CountsFit sampleHeader.tree nTx 101 := by
  intro pindex known below _
  have inside : pindex ∈ sampleHeader.tree.entries :=
    List.mem_map.mpr ⟨⟨_, pindex⟩, AList.mem_lookup_iff.mp known, rfl⟩
  have two : sampleHeader.tree.entries = [101, 100] := by decide +kernel
  rw [two, mem_cons, mem_singleton] at inside
  obtain rfl | rfl := inside
  · have path : sampleHeader.tree.path 101 = [101, 100] := by decide +kernel
    simp [BlockTree.chainTx, path, first, genesis]
  · cases below.of_root rfl

theorem sound_firstArrival :
    sampleStart.Sound mainParams {} (.acceptBlock firstArrival allConnected) := by
  have parent : sampleStart.checkpointParent mainParams {} firstArrival.block = none := by
    decide +kernel
  simp only [Sound, parent]
  refine fun _ => ⟨fun pindexPrev found => ?_, fun next pindex header _ _ => ?_⟩
  · have same : sampleStart.newHeaderParent mainParams firstArrival = some 100 := rfl
    rw [same] at found
    cases found
    exact ⟨by decide +kernel, by decide +kernel⟩
  · have added : sampleStart.acceptBlockHeader mainParams firstArrival =
        some (sampleHeader, .ok 101) := rfl
    rw [added] at header
    cases header
    exact countsFit_sampleHeader _ rfl rfl

theorem checkBlockIndex_throughout_invalidated :
    Runs.Throughout (call mainParams {})
      (fun state => state.checkBlockIndex mainParams.hashGenesisBlock = true)
      (genesisState mainParams 100 0x1e0ffff0)
      [.acceptBlock firstArrival allConnected, .activateBestChain allConnected,
        .invalidateBlock 1 allConnected, .reconsiderBlock 1 allConnected] := by
  refine checkBlockIndex_throughout mainParams {} 100 0x1e0ffff0 _ ?_
  have received : call mainParams {} sampleStart (.acceptBlock firstArrival allConnected) =
      some (sampleStart.afterCall (.acceptBlock firstArrival allConnected)) := rfl
  have activated : call mainParams {} (sampleStart.afterCall (.acceptBlock firstArrival allConnected))
      (.activateBestChain allConnected) = some sampleActive := rfl
  have invalidated : call mainParams {} sampleActive (.invalidateBlock 1 allConnected) =
      some (sampleActive.afterCall (.invalidateBlock 1 allConnected)) := rfl
  have here : sampleActive.tree.mapBlockIndex.lookup 1 = some 101 := by decide +kernel
  have still : (sampleActive.afterCall (.invalidateBlock 1 allConnected)).tree.mapBlockIndex.lookup 1 =
      some 101 := by decide +kernel
  refine Runs.Meets.cons sound_firstArrival received
    (Runs.Meets.cons (activationSound_allConnected _) activated
      (Runs.Meets.cons ?_ invalidated ⟨?_, fun _ _ => trivial⟩))
  · intro pindex found
    rw [here] at found
    cases found
    exact ⟨by decide +kernel, activationSound_allConnected _⟩
  · intro pindex found
    rw [still] at found
    cases found
    refine ⟨fun elder above differ => ?_, activationSound_allConnected _⟩
    obtain same | ⟨parent, edge, above⟩ := above.cases_parent
    · exact absurd same differ
    · have isGenesis : parent = 100 := by
        have known : (sampleActive.afterCall (.invalidateBlock 1 allConnected)).tree.pprev 101 =
            some 100 := by decide +kernel
        rw [known] at edge
        exact (Option.some.inj edge).symm
      subst isGenesis
      rw [above.of_root (by decide +kernel)]
      decide +kernel

/-- A block at height 1 and two blocks at height 2, the second after the first. -/
def forkCalls : List IndexCall :=
  [.acceptBlock firstArrival allConnected,
    .activateBestChain allConnected,
    .acceptBlock ⟨forkBlock 2 1, 102, true, .ok (), .ok (), true, true⟩ allConnected,
    .activateBestChain allConnected,
    .acceptBlock ⟨forkBlock 3 1, 103, true, .ok (), .ok (), true, true⟩ allConnected,
    .activateBestChain allConnected]

/-- After the block at height 1 is invalidated and one of its children is
reconsidered, the other child is still marked, though no block is invalid. -/
theorem reconsiderBlock_breaks_checkBlockIndex :
    ¬ Runs.Throughout (call mainParams {})
      (fun state => state.checkBlockIndex mainParams.hashGenesisBlock = true)
      (genesisState mainParams 100 0x1e0ffff0)
      (forkCalls ++ [.invalidateBlock 1 allConnected, .reconsiderBlock 2 allConnected]) := by
  intro along
  have breaks : (Runs.run (call mainParams {}) (genesisState mainParams 100 0x1e0ffff0)
      (forkCalls ++ [.invalidateBlock 1 allConnected, .reconsiderBlock 2 allConnected])).any
        (fun state => !state.checkBlockIndex mainParams.hashGenesisBlock) = true := by
    decide +kernel
  obtain ⟨final, ran, failed⟩ := (Option.any_eq_true _ _).mp breaks
  rw [along.final ran] at failed
  cases failed

end IndexState

end CentNode
