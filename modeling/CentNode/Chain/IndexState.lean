import CentNode.Chain.BlockTree
import CentNode.Validation.Node

/-!
# The block index and the sets that choose the active chain

`setBlockIndexCandidates` holds the entries that could become the tip and
`mapBlocksUnlinked` the blocks that wait for the data of an ancestor.  The loops
that only touch the entry they are at are written entry by entry.
-/

namespace CentNode

namespace BlockStatus

def isValid (status : BlockStatus) (nUpTo : BlockValidity) : Bool :=
  !status.failed && decide (nUpTo.level ≤ status.validity.level)

def raiseValidity (status : BlockStatus) (nUpTo : BlockValidity) : BlockStatus :=
  if status.failed then status
  else if status.validity.level < nUpTo.level then { status with validity := nUpTo }
  else status

/-- `nStatus & ~BLOCK_FAILED_MASK`. -/
def clearFailed (status : BlockStatus) : BlockStatus :=
  { status with failedValid := false, failedChild := false }

@[simp]
theorem raiseValidity_flags (status : BlockStatus) (nUpTo : BlockValidity) :
    (status.raiseValidity nUpTo).failedValid = status.failedValid ∧
    (status.raiseValidity nUpTo).failedChild = status.failedChild ∧
    (status.raiseValidity nUpTo).haveData = status.haveData := by
  unfold raiseValidity
  split
  · exact ⟨rfl, rfl, rfl⟩
  · split <;> exact ⟨rfl, rfl, rfl⟩

theorem level_raiseValidity {status : BlockStatus} (clear : status.failed = false)
    (nUpTo : BlockValidity) :
    (status.raiseValidity nUpTo).validity.level =
      max status.validity.level nUpTo.level := by
  unfold raiseValidity
  rw [clear, if_neg Bool.false_ne_true]
  split
  · exact (max_eq_right (Nat.le_of_lt ‹_›)).symm
  · exact (max_eq_left (Nat.le_of_not_lt ‹_›)).symm

end BlockStatus

/-- The block index with the chain and the sets over it; the active chain has
its tip first. -/
structure IndexState where
  tree : BlockTree
  nStatus : BlockPtr → BlockStatus
  nTx : BlockPtr → Nat
  nChainTx : BlockPtr → Nat
  nSequenceId : BlockPtr → Nat
  chainActive : List BlockPtr
  setBlockIndexCandidates : List BlockPtr
  mapBlocksUnlinked : List (Option BlockPtr × BlockPtr)
  nBlockSequenceId : Nat

/-- A block or header that arrives: the address `new CBlockIndex` would give
its entry, what the checks outside the index say of it, whether the stake it
spends is unspent on its chain, and whether it can be written to disk. -/
structure BlockArrival where
  block : CBlock
  address : BlockPtr
  checkWork : Bool := true
  contextualCheckBlockHeader : Checked Unit := .ok ()
  checkBlock : Checked Unit := .ok ()
  stakeUnspent : Bool := true
  writeBlockToDisk : Bool := true

namespace IndexState

/-- `CBlockIndexWorkComparator`: less work, then a later arrival, then a higher address. -/
def worse (state : IndexState) (pa pb : BlockPtr) : Bool :=
  if state.tree.nChainWork pb < state.tree.nChainWork pa then false
  else if state.tree.nChainWork pa < state.tree.nChainWork pb then true
  else if state.nSequenceId pa < state.nSequenceId pb then false
  else if state.nSequenceId pb < state.nSequenceId pa then true
  else decide (pb < pa)

variable {state : IndexState} {pa pb : Nat}

theorem worse_iff :
    state.worse pa pb = true ↔ state.tree.nChainWork pa < state.tree.nChainWork pb ∨
      (state.tree.nChainWork pa = state.tree.nChainWork pb ∧
        (state.nSequenceId pb < state.nSequenceId pa ∨
          (state.nSequenceId pa = state.nSequenceId pb ∧ pb < pa))) := by
  unfold worse
  split
  · simp only [Bool.false_eq_true, false_iff]
    omega
  split
  · simp only [true_iff]
    omega
  split
  · simp only [Bool.false_eq_true, false_iff]
    omega
  split
  · simp only [true_iff]
    omega
  · have address : (decide (pb < pa) = true) = (pb < pa) := decide_eq_true_eq
    refine Eq.to_iff address |>.trans ?_
    omega

theorem worse_congr {other : IndexState} {pa pb : BlockPtr}
    (workLeft : other.tree.nChainWork pa = state.tree.nChainWork pa)
    (workRight : other.tree.nChainWork pb = state.tree.nChainWork pb)
    (left : other.nSequenceId pa = state.nSequenceId pa)
    (right : other.nSequenceId pb = state.nSequenceId pb) :
    other.worse pa pb = state.worse pa pb := by
  unfold worse
  rw [workLeft, workRight, left, right]

theorem worse_irrefl (state : IndexState) (pindex : Nat) :
    state.worse pindex pindex = false := by
  rw [← Bool.not_eq_true, worse_iff]
  omega

theorem notWorse_trans {pc : Nat} (first : state.worse pa pb = false)
    (second : state.worse pb pc = false) : state.worse pa pc = false := by
  rw [← Bool.not_eq_true, worse_iff] at *
  omega

theorem eq_of_notWorse (first : state.worse pa pb = false) (second : state.worse pb pa = false) :
    pa = pb := by
  rw [← Bool.not_eq_true, worse_iff] at *
  omega

theorem notWorse_of_worse (order : state.worse pa pb = true) : state.worse pb pa = false := by
  rw [← Bool.not_eq_true, worse_iff]
  rw [worse_iff] at order
  omega

theorem notWorse_of_work (more : state.tree.nChainWork pb < state.tree.nChainWork pa) :
    state.worse pa pb = false := by
  rw [← Bool.not_eq_true, worse_iff]
  omega

def tip (state : IndexState) : Option BlockPtr := state.chainActive.head?

def contains (state : IndexState) (pindex : BlockPtr) : Bool := state.chainActive.contains pindex

/-- There is no tip yet, or the entry does not sort below it. -/
def notWorseThanTip (state : IndexState) (pindex : BlockPtr) : Bool :=
  match state.tip with
  | none => true
  | some tip => !state.worse pindex tip

def insertCandidate (state : IndexState) (pindex : BlockPtr) : IndexState :=
  { state with
    setBlockIndexCandidates := state.setBlockIndexCandidates.insert pindex }

def eraseCandidate (state : IndexState) (pindex : BlockPtr) : IndexState :=
  { state with
    setBlockIndexCandidates := state.setBlockIndexCandidates.filter (· ≠ pindex) }

/-- An assignment to `pindex->nStatus`. -/
def updateStatus (state : IndexState) (pindex : BlockPtr) (change : BlockStatus → BlockStatus) :
    IndexState :=
  { state with nStatus := Function.update state.nStatus pindex (change (state.nStatus pindex)) }

/-! ## New entries -/

/-- `AddToBlockIndex`; there is no next state when the address is in use, which
`new` does not give. -/
def addToBlockIndex (state : IndexState) (address : BlockPtr) (block : CBlock) :
    Option (IndexState × BlockPtr) :=
  match state.tree.mapBlockIndex.lookup block.hash with
  | some pindex => some (state, pindex)
  | none =>
    if address ∈ state.tree.entries then none
    else
      some ({ state with
          tree := state.tree.insertBlock address block
          nStatus := Function.update state.nStatus address (({} : BlockStatus).raiseValidity .tree)
          nTx := Function.update state.nTx address 0
          nChainTx := Function.update state.nChainTx address 0
          nSequenceId := Function.update state.nSequenceId address 0 },
        address)

/-- `pindexPrev` of `AcceptBlockHeader`: only the genesis block needs no parent. -/
def findParent (params : CChainParams) (state : IndexState) (block : CBlock) :
    Checked (Option BlockPtr) :=
  if block.hash = params.hashGenesisBlock then .ok none
  else
    match state.tree.mapBlockIndex.lookup block.hashPrevBlock with
    | none => .error (.dos 0 none "bad-prevblk" false)
    | some pindexPrev =>
      if (state.nStatus pindexPrev).failed then reject 100 "bad-prevblk"
      else .ok (some pindexPrev)

/-- `AcceptBlockHeader`.  It does not check the proof of work, and its branch
that would reconsider a parent for a checkpoint asks for an entry that the map
was found not to have. -/
def acceptBlockHeader (params : CChainParams) (state : IndexState) (arrival : BlockArrival) :
    Option (IndexState × Checked BlockPtr) :=
  match state.tree.mapBlockIndex.lookup arrival.block.hash with
  | some pindex =>
    if (state.nStatus pindex).failed then some (state, .error (.dos 0 none "duplicate" false))
    else some (state, .ok pindex)
  | none =>
    match state.findParent params arrival.block with
    | .error failure => some (state, .error failure)
    | .ok _ =>
      match arrival.contextualCheckBlockHeader with
      | .error failure => some (state, .error failure)
      | .ok () =>
        (state.addToBlockIndex arrival.address arrival.block).map fun added =>
          (added.1, .ok added.2)

/-! ## New block data -/

/-- One iteration of the loop of `ReceivedBlockTransactions`: an entry whose
parent is linked gets its transaction count and its sequence id, and is offered
as a candidate; its children no longer wait. -/
def linkBlock (state : IndexState) (pindex : BlockPtr) : IndexState :=
  let linked :=
    { state with
      nChainTx := Function.update state.nChainTx pindex
        ((((state.tree.pprev pindex).map state.nChainTx).getD 0 + state.nTx pindex) % 2 ^ 32)
      nSequenceId := Function.update state.nSequenceId pindex state.nBlockSequenceId
      nBlockSequenceId := (state.nBlockSequenceId + 1) % 2 ^ 32 }
  { linked with
    setBlockIndexCandidates :=
      if linked.notWorseThanTip pindex then state.setBlockIndexCandidates.insert pindex
      else state.setBlockIndexCandidates
    mapBlocksUnlinked := state.mapBlocksUnlinked.filter (·.1 ≠ some pindex) }

/-- `mapBlocksUnlinked.equal_range(pindex)`. -/
def waitingFor (state : IndexState) (pindex : BlockPtr) : List BlockPtr :=
  (state.mapBlocksUnlinked.filter (·.1 = some pindex)).map (·.2)

/-- The loop of `ReceivedBlockTransactions` over the blocks that can be linked now. -/
def linkQueue : Nat → List BlockPtr → IndexState → IndexState
  | 0, _, state => state
  | _ + 1, [], state => state
  | fuel + 1, pindex :: queue, state =>
    linkQueue fuel (queue ++ state.waitingFor pindex) (state.linkBlock pindex)

/-- `pprev == NULL || pprev->nChainTx`. -/
def parentLinked (state : IndexState) (pindex : BlockPtr) : Bool :=
  match state.tree.pprev pindex with
  | none => true
  | some parent => state.nChainTx parent ≠ 0

/-- `ReceivedBlockTransactions`; every unlinked block is queued at most once. -/
def receivedBlockTransactions (state : IndexState) (block : CBlock) (pindexNew : BlockPtr) :
    IndexState :=
  let received :=
    { state with
      nTx := Function.update state.nTx pindexNew block.vtx.length
      nChainTx := Function.update state.nChainTx pindexNew 0
      nStatus := Function.update state.nStatus pindexNew
        (({ state.nStatus pindexNew with haveData := true }).raiseValidity .transactions) }
  if received.parentLinked pindexNew then
    linkQueue (received.mapBlocksUnlinked.length + 1) [pindexNew] received
  else
    match received.tree.pprev pindexNew with
    | none => received
    | some parent =>
      if (received.nStatus parent).isValid .tree then
        { received with
          mapBlocksUnlinked := (some parent, pindexNew) :: received.mapBlocksUnlinked }
      else received

/-- `CheckBlock` and `ContextualCheckBlock` as `AcceptBlock` calls them: the
first limits the number of transactions before anything else. -/
def checkArrival (arrival : BlockArrival) : Checked Unit :=
  if arrival.block.vtx.isEmpty || maxBlockSize < arrival.block.vtx.length then
    reject 100 "bad-blk-length"
  else arrival.checkBlock

/-- `AcceptBlock` after the checks of the parent and of the work. -/
def acceptBlockData (params : CChainParams) (state : IndexState) (arrival : BlockArrival) :
    Option (IndexState × Checked Unit) :=
  match state.acceptBlockHeader params arrival with
  | none => none
  | some (known, .error failure) => some (known, .error failure)
  | some (known, .ok pindex) =>
    if (known.nStatus pindex).haveData then some (known, .ok ())
    else
      match checkArrival arrival with
      | .error (.dos level code reason false) =>
        some (known.updateStatus pindex fun status => { status with failedValid := true },
          .error (.dos level code reason false))
      | .error failure => some (known, .error failure)
      | .ok () =>
        if !arrival.stakeUnspent then some (known, .error (.error ""))
        else if !arrival.writeBlockToDisk then some (known, .error (.abort "Failed to write block"))
        else some (known.receivedBlockTransactions arrival.block pindex, .ok ())

end IndexState

end CentNode
