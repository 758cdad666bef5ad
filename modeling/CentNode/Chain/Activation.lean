import CentNode.Chain.IndexState

/-!
# Activating the best chain

`ActivateBestChain` moves the active chain towards the best candidate in rounds
of `ActivateBestChainStep`.  What each call of `ConnectBlock` returns is given:
`connect n pindex` is the result of the call number `n` of the activation, if it
is about `pindex`.  An activation that fails an assertion, or is not over after
the given number of rounds, has no next state.
-/

namespace CentNode

/-- How `ConnectTip` ends, after its assertion: the block is connected, it is
rejected, it is rejected with the possibility that the block was corrupted, or
the node itself fails, before or after `ConnectBlock` raised the validity. -/
inductive ConnectResult where
  | connected
  | invalid
  | corrupt
  | error (raised : Bool)
  deriving DecidableEq, Repr

/-- What happens during one call of `ActivateBestChain`. -/
structure Activation where
  connect : Nat → BlockPtr → ConnectResult
  rounds : Nat

/-- How a part of `ActivateBestChainStep` ends: it goes on, it returns true, or
it returns false. -/
inductive StepProgress where
  | more
  | stopped
  | failed
  deriving DecidableEq, Repr

namespace IndexState

/-! ## Choosing the candidate -/

/-- The last element of a set ordered by `CBlockIndexWorkComparator`. -/
def lastOf (state : IndexState) : List BlockPtr → Option BlockPtr
  | [] => none
  | pindex :: rest =>
    match state.lastOf rest with
    | none => some pindex
    | some best => if state.worse best pindex then some pindex else some best

/-- The walk of `FindMostWorkChain` from a candidate to the active chain: the
first entry that is failed or misses its data.  The outer `none` is the failed
assertion. -/
def findUnusable (state : IndexState) : List BlockPtr → Option (Option BlockPtr)
  | [] => some none
  | pindexTest :: rest =>
    if state.nChainTx pindexTest = 0 ∧ state.tree.nHeight pindexTest ≠ 0 then none
    else if (state.nStatus pindexTest).failed || !(state.nStatus pindexTest).haveData then
      some (some pindexTest)
    else state.findUnusable rest

/-- Removing a candidate chain from the set, down to the entry that makes it unusable. -/
def removeChain (state : IndexState) (pindexNew pindexTest : BlockPtr) : IndexState :=
  let fFailedChain := (state.nStatus pindexTest).failed
  let chain := (state.tree.path pindexNew).takeWhile (· ≠ pindexTest)
  { state with
    nStatus := fun pindex =>
      if fFailedChain && chain.contains pindex then
        { state.nStatus pindex with failedChild := true }
      else state.nStatus pindex
    mapBlocksUnlinked :=
      if fFailedChain then state.mapBlocksUnlinked
      else chain.map (fun pindex => (state.tree.pprev pindex, pindex)) ++ state.mapBlocksUnlinked
    setBlockIndexCandidates := state.setBlockIndexCandidates.filter fun pindex =>
      !(chain.contains pindex || pindex = pindexTest) }

/-- `FindMostWorkChain`.  Every round but the last removes a candidate. -/
def findMostWorkChain : Nat → IndexState → Option (IndexState × Option BlockPtr)
  | 0, _ => none
  | fuel + 1, state =>
    match state.lastOf state.setBlockIndexCandidates with
    | none => some (state, none)
    | some pindexNew =>
      match state.findUnusable
          ((state.tree.path pindexNew).takeWhile fun pindex => !state.contains pindex) with
      | none => none
      | some none => some (state, some pindexNew)
      | some (some pindexTest) => findMostWorkChain fuel (state.removeChain pindexNew pindexTest)

/-- `PruneBlockIndexCandidates`; `none` is the failed assertion. -/
def pruneBlockIndexCandidates (state : IndexState) : Option IndexState :=
  let kept := state.setBlockIndexCandidates.filter state.notWorseThanTip
  if kept.isEmpty then none else some { state with setBlockIndexCandidates := kept }

/-! ## Moving the tip -/

/-- The effect of a successful `ConnectBlock` on the entry; it leaves the
genesis block as it is. -/
def raiseScripts (state : IndexState) (pindex : BlockPtr) : IndexState :=
  match state.tree.pprev pindex with
  | none => state
  | some _ =>
    state.updateStatus pindex fun status =>
      ({ status with haveUndo := true }).raiseValidity .scripts

def invalidBlockFound (state : IndexState) (pindex : BlockPtr) : IndexState :=
  (state.updateStatus pindex fun status => { status with failedValid := true }).eraseCandidate pindex

/-- `ConnectTip`; `none` is the failed assertion. -/
def connectTip (state : IndexState) (pindexNew : BlockPtr) (result : ConnectResult) :
    Option IndexState :=
  if state.tree.pprev pindexNew = state.tip then
    match result with
    | .connected =>
      let raised := state.raiseScripts pindexNew
      some { raised with chainActive := pindexNew :: raised.chainActive }
    | .invalid => some (state.invalidBlockFound pindexNew)
    | .corrupt => some state
    | .error raised => some (if raised then state.raiseScripts pindexNew else state)
  else none

/-- `DisconnectTip` until the tip is `pindexFork`.  The genesis block has no
undo data, so disconnecting it fails. -/
def disconnectTo (pindexFork : Option BlockPtr) : List BlockPtr → List BlockPtr × Bool
  | [] => ([], true)
  | tip :: rest =>
    if some tip = pindexFork then (tip :: rest, true)
    else if rest.isEmpty then (tip :: rest, false)
    else disconnectTo pindexFork rest

def findFork (state : IndexState) (pindex : BlockPtr) : Option BlockPtr :=
  let height : Int := state.chainActive.length - 1
  let start :=
    if height < state.tree.nHeight pindex then state.tree.getAncestor pindex height else some pindex
  start.bind fun first => (state.tree.path first).find? state.contains

/-- Connecting the blocks of one batch, the oldest first. -/
def connectBlocks (activation : Activation) (pindexOldTip : Option BlockPtr) :
    List BlockPtr → Nat → IndexState → Option (IndexState × Nat × StepProgress)
  | [], calls, state => some (state, calls, .more)
  | pindexConnect :: rest, calls, state =>
    match state.connectTip pindexConnect (activation.connect calls pindexConnect) with
    | none => none
    | some next =>
      match activation.connect calls pindexConnect with
      | .connected =>
        match next.pruneBlockIndexCandidates with
        | none => none
        | some pruned =>
          -- We're in a better position than we were.
          if pindexOldTip.all fun old =>
              state.tree.nChainWork old < state.tree.nChainWork pindexConnect then
            some (pruned, calls + 1, .stopped)
          else connectBlocks activation pindexOldTip rest (calls + 1) pruned
      | .invalid => some (next, calls + 1, .stopped)
      | .corrupt => some (next, calls + 1, .stopped)
      | .error _ => some (next, calls + 1, .failed)

/-- `vpindexToConnect`, in the order in which the blocks are connected. -/
def blocksToConnect (state : IndexState) (pindexMostWork : BlockPtr) (nHeight nTargetHeight : Int) :
    List BlockPtr :=
  match state.tree.getAncestor pindexMostWork nTargetHeight with
  | none => []
  | some last =>
    ((state.tree.path last).takeWhile fun pindex => (state.tree.nHeight pindex : Int) ≠ nHeight).reverse

/-- The loop of `ActivateBestChainStep` over batches of 32 blocks. -/
def connectBatches (activation : Activation) (pindexOldTip : Option BlockPtr)
    (pindexMostWork : BlockPtr) :
    Nat → Int → Nat → IndexState → Option (IndexState × Nat × StepProgress)
  | 0, _, _, _ => none
  | fuel + 1, nHeight, calls, state =>
    if nHeight = state.tree.nHeight pindexMostWork then some (state, calls, .more)
    else
      let nTargetHeight := min (nHeight + 32) (state.tree.nHeight pindexMostWork)
      match connectBlocks activation pindexOldTip
          (state.blocksToConnect pindexMostWork nHeight nTargetHeight) calls state with
      | some (next, called, .more) =>
        connectBatches activation pindexOldTip pindexMostWork fuel nTargetHeight called next
      | ended => ended

def activateBestChainStep (activation : Activation) (pindexMostWork : BlockPtr) (calls : Nat)
    (state : IndexState) : Option (IndexState × Nat × StepProgress) :=
  let pindexFork := state.findFork pindexMostWork
  let disconnected := disconnectTo pindexFork state.chainActive
  let forked := { state with chainActive := disconnected.1 }
  if disconnected.2 then
    connectBatches activation state.tip pindexMostWork (state.tree.nHeight pindexMostWork + 2)
      ((pindexFork.map fun fork => (state.tree.nHeight fork : Int)).getD (-1)) calls forked
  else some (forked, calls, .failed)

def activateRounds (activation : Activation) : Nat → Nat → IndexState → Option IndexState
  | 0, _, _ => none
  | rounds + 1, calls, state =>
    match findMostWorkChain (state.setBlockIndexCandidates.length + 1) state with
    | none => none
    | some (found, none) => some found
    | some (found, some pindexMostWork) =>
      if found.tip = some pindexMostWork then some found
      else
        match activateBestChainStep activation pindexMostWork calls found with
        | none => none
        | some (next, _, .failed) => some next
        | some (next, called, _) =>
          if next.tip = some pindexMostWork then some next
          else activateRounds activation rounds called next

def activateBestChain (activation : Activation) (state : IndexState) : Option IndexState :=
  activateRounds activation activation.rounds 0 state

/-! ## Marking blocks by hand -/

/-- The loop of `InvalidateBlock` that takes the block off the active chain;
`false` when it cannot disconnect the tip. -/
def invalidateTips (pindex : BlockPtr) : Nat → IndexState → IndexState × Bool
  | 0, state => (state, true)
  | fuel + 1, state =>
    match state.chainActive with
    | [] => (state, true)
    | pindexWalk :: rest =>
      if state.contains pindex then
        let marked := (state.updateStatus pindexWalk fun status =>
          { status with failedChild := true }).eraseCandidate pindexWalk
        if rest.isEmpty then (marked, false)
        else invalidateTips pindex fuel { marked with chainActive := rest }
      else (state, true)

def invalidateBlock (state : IndexState) (pindex : BlockPtr) : IndexState :=
  let marked := state.invalidBlockFound pindex
  match invalidateTips pindex marked.chainActive.length marked with
  | (stuck, false) => stuck
  | (unwound, true) =>
    -- The resulting new best tip may not be in setBlockIndexCandidates anymore.
    (unwound.tree.entries.filter fun other =>
      (unwound.nStatus other).isValid .transactions && unwound.nChainTx other ≠ 0 &&
        unwound.notWorseThanTip other).foldl insertCandidate unwound

/-- The entries whose failure `ReconsiderBlock` removes in its first loop. -/
def reconsidered (state : IndexState) (pindex other : BlockPtr) : Bool :=
  state.tree.entries.contains other && !(state.nStatus other).isValid .transactions &&
    state.tree.getAncestor other (state.tree.nHeight pindex) = some pindex

def reconsiderBlock (state : IndexState) (pindex : BlockPtr) : IndexState :=
  let cleared :=
    { state with
      nStatus := fun other =>
        if state.reconsidered pindex other then (state.nStatus other).clearFailed
        else state.nStatus other }
  let offered := (state.tree.entries.filter fun other =>
    state.reconsidered pindex other && (cleared.nStatus other).isValid .transactions &&
      cleared.nChainTx other ≠ 0 && cleared.tip.any fun tip => cleared.worse tip other).foldl
        insertCandidate cleared
  -- Remove the invalidity flag from all ancestors too.
  { offered with
    nStatus := fun other =>
      if (offered.tree.path pindex).contains other then (offered.nStatus other).clearFailed
      else offered.nStatus other }

end IndexState

/-- The checkpoints of the chain, by height. -/
structure Checkpoints where
  fEnabled : Bool := true
  mapCheckpoints : StdMap Nat Uint256 := ∅

def Checkpoints.checkBlock (checkpoints : Checkpoints) (nHeight : Nat) (hash : Uint256)
    (fMatchesCheckpoint : Bool) : Bool :=
  if !checkpoints.fEnabled then true
  else
    match checkpoints.mapCheckpoints.lookup nHeight with
    | none => !fMatchesCheckpoint
    | some expected => hash = expected

/-- A call that changes the block index.  The last two are the commands that
mark a block by its hash and then activate the best chain. -/
inductive IndexCall where
  | acceptBlockHeader (arrival : BlockArrival)
  | acceptBlock (arrival : BlockArrival) (activation : Activation)
  | activateBestChain (activation : Activation)
  | invalidateBlock (hash : Uint256) (activation : Activation)
  | reconsiderBlock (hash : Uint256) (activation : Activation)

namespace IndexState

variable (params : CChainParams) (checkpoints : Checkpoints)

/-- A parent marked invalid that is an exact match from the checkpoints, which
`AcceptBlock` reconsiders. -/
def checkpointParent (state : IndexState) (block : CBlock) : Option BlockPtr :=
  if block.hash = params.hashGenesisBlock then none
  else
    (state.tree.mapBlockIndex.lookup block.hashPrevBlock).filter fun pindexPrev =>
      (state.nStatus pindexPrev).failed &&
        checkpoints.checkBlock (state.tree.nHeight pindexPrev) block.hashPrevBlock true

def acceptBlock (state : IndexState) (arrival : BlockArrival) (activation : Activation) :
    Option (IndexState × Checked Unit) :=
  match state.checkpointParent params checkpoints arrival.block with
  | some pindexPrev =>
    ((state.reconsiderBlock pindexPrev).activateBestChain activation).map fun next => (next, .ok ())
  | none =>
    match state.findParent params arrival.block with
    | .error failure => some (state, .error failure)
    | .ok _ =>
      if arrival.block.hash ≠ params.hashGenesisBlock && !arrival.checkWork then
        some (state, .error (.error ""))
      else state.acceptBlockData params arrival

/-- A block whose hash is known names the parent that its entry has: the hash
is one of the whole header. -/
def namesParent (state : IndexState) (block : CBlock) : Bool :=
  ((state.tree.mapBlockIndex.lookup block.hash).bind state.tree.pprev).all fun parent =>
    state.tree.mapBlockIndex.lookup block.hashPrevBlock = some parent

/-- One call; there is no call with a block that `namesParent` excludes. -/
def call (state : IndexState) : IndexCall → Option IndexState
  | .acceptBlockHeader arrival => (state.acceptBlockHeader params arrival).map (·.1)
  | .acceptBlock arrival activation =>
    if state.namesParent arrival.block then
      (state.acceptBlock params checkpoints arrival activation).map (·.1)
    else none
  | .activateBestChain activation => state.activateBestChain activation
  | .invalidateBlock hash activation =>
    match state.tree.mapBlockIndex.lookup hash with
    | none => some state
    | some pindex => (state.invalidateBlock pindex).activateBestChain activation
  | .reconsiderBlock hash activation =>
    match state.tree.mapBlockIndex.lookup hash with
    | none => some state
    | some pindex => (state.reconsiderBlock pindex).activateBestChain activation

end IndexState

end CentNode
