import CentNode.Chain.IndexState
import CentNode.Net.BlockDownload

/-!
# Which blocks to ask a peer for

`ProcessBlockAvailability`, `LastCommonAncestor` and `FindNextBlocksToDownload` of `main.cpp`.
-/

namespace CentNode

def blockDownloadWindow : Nat := 1024

/-- The fields of `CNodeState` that say which blocks a peer has. -/
structure PeerChain where
  pindexBestKnownBlock : Option BlockPtr := none
  hashLastUnknownBlock : Uint256 := 0
  pindexLastCommonBlock : Option BlockPtr := none
  deriving DecidableEq, Repr

namespace BlockTree

variable (tree : BlockTree)

/-- The loop of `LastCommonAncestor`. -/
def climbTogether : Nat → Option BlockPtr → Option BlockPtr → Option BlockPtr × Option BlockPtr
  | fuel + 1, some pa, some pb =>
    if pa = pb then (some pa, some pb) else climbTogether fuel (tree.pprev pa) (tree.pprev pb)
  | _, pa, pb => (pa, pb)

/-- `LastCommonAncestor`; `none` where the assertion fails or there is none. -/
def lastCommonAncestor (pa pb : BlockPtr) : Option BlockPtr :=
  let first := if tree.nHeight pa > tree.nHeight pb then tree.getAncestor pa (tree.nHeight pb)
    else some pa
  let second := if tree.nHeight pb > tree.nHeight pa then tree.getAncestor pb (tree.nHeight pa)
    else some pb
  let met := tree.climbTogether (min (tree.nHeight pa) (tree.nHeight pb) + 1) first second
  if met.1 = met.2 then met.1 else none

/-- `vToFetch`, filled from its last entry back; `none` where there is no parent. -/
def fillBack : Nat → BlockPtr → Option (List BlockPtr)
  | 0, _ => some []
  | 1, pindex => some [pindex]
  | nToFetch + 2, pindex => do
      let parent ← tree.pprev pindex
      let before ← fillBack (nToFetch + 1) parent
      return before ++ [pindex]

end BlockTree

/-- What the loops of `FindNextBlocksToDownload` change. -/
structure FetchState where
  pindexLastCommonBlock : BlockPtr
  vBlocks : List BlockPtr := []
  waitingfor : NodeId := -1
  nodeStaller : NodeId
  deriving DecidableEq, Repr

/-- What they read: the index, the blocks in flight, and the limits of this call. -/
structure FetchContext where
  index : IndexState
  mapBlocksInFlight : StdMap Uint256 (NodeId × Nat)
  nodeid : NodeId
  count : Nat
  pindexBestKnownBlock : BlockPtr
  nWindowEnd : Nat

namespace FetchContext

variable (context : FetchContext)

def nMaxHeight : Nat :=
  min (context.index.tree.nHeight context.pindexBestKnownBlock) (context.nWindowEnd + 1)

def inFlight (pindex : BlockPtr) : Option NodeId :=
  (context.mapBlocksInFlight.lookup (context.index.tree.phashBlock pindex)).map (·.1)

/-- One block of `vToFetch`; an error is an early return. -/
def visit (fetch : FetchState) (pindex : BlockPtr) : Except FetchState FetchState :=
  if !(context.index.nStatus pindex).isValid .tree then .error fetch
  else if (context.index.nStatus pindex).haveData then
    .ok (if context.index.nChainTx pindex ≠ 0 then { fetch with pindexLastCommonBlock := pindex }
      else fetch)
  else
    match context.inFlight pindex with
    | none =>
      if context.index.tree.nHeight pindex > context.nWindowEnd then
        -- The next block could be fetched if the window were larger by one.
        if fetch.vBlocks.length = 0 ∧ fetch.waitingfor ≠ context.nodeid then
          .error { fetch with nodeStaller := fetch.waitingfor }
        else .error fetch
      else if (fetch.vBlocks ++ [pindex]).length = context.count then
        .error { fetch with vBlocks := fetch.vBlocks ++ [pindex] }
      else .ok { fetch with vBlocks := fetch.vBlocks ++ [pindex] }
    | some node => .ok (if fetch.waitingfor = -1 then { fetch with waitingfor := node } else fetch)

/-- How many successors are read at once; a `size_t` is converted to an `int`. -/
def nToFetch (height : Nat) (fetch : FetchState) : Nat :=
  min (context.nMaxHeight - height)
    (max (toInt32 (context.count - fetch.vBlocks.length)) 128).toNat

/-- The loop over stretches of the way up to the best block of the peer; `none` where a null
pointer is followed, or without fuel. -/
def fetchLoop : Nat → BlockPtr → FetchState → Option FetchState
  | 0, pindexWalk, fetch =>
    if context.index.tree.nHeight pindexWalk < context.nMaxHeight then none else some fetch
  | fuel + 1, pindexWalk, fetch =>
    if context.index.tree.nHeight pindexWalk < context.nMaxHeight then do
      let count := context.nToFetch (context.index.tree.nHeight pindexWalk) fetch
      let pindexWalk ← context.index.tree.getAncestor context.pindexBestKnownBlock
        (context.index.tree.nHeight pindexWalk + count)
      let vToFetch ← context.index.tree.fillBack count pindexWalk
      match vToFetch.foldlM context.visit fetch with
      | .error fetch => return fetch
      | .ok fetch => fetchLoop fuel pindexWalk fetch
    else some fetch

end FetchContext

namespace IndexState

variable (index : IndexState)

def processBlockAvailability (peer : PeerChain) : PeerChain :=
  if peer.hashLastUnknownBlock ≠ 0 then
    match index.tree.mapBlockIndex.lookup peer.hashLastUnknownBlock with
    | none => peer
    | some itOld =>
      if index.tree.nChainWork itOld > 0 then
        let better := match peer.pindexBestKnownBlock with
          | none => true
          | some best => decide (index.tree.nChainWork itOld ≥ index.tree.nChainWork best)
        { peer with
          pindexBestKnownBlock := if better then some itOld else peer.pindexBestKnownBlock
          hashLastUnknownBlock := 0 }
      else peer
  else peer

/-- `chainActive[nHeight]`. -/
def chainAt (nHeight : Nat) : Option BlockPtr := index.chainActive.reverse[nHeight]?

/-- What `FindNextBlocksToDownload` leaves. -/
structure Requests where
  peer : PeerChain
  vBlocks : List BlockPtr
  nodeStaller : NodeId
  deriving DecidableEq, Repr

/-- The last common block as it is known, or a guess. -/
def guessedCommon (peer : PeerChain) (best : BlockPtr) : Option BlockPtr :=
  match peer.pindexLastCommonBlock with
  | some pindex => some pindex
  | none => index.chainAt (min (index.tree.nHeight best) (index.chainActive.length - 1))

/-- The block that the search starts from. -/
def startingBlock (peer : PeerChain) (best : BlockPtr) : Option BlockPtr := do
  let known ← index.guessedCommon peer best
  index.tree.lastCommonAncestor known best

/-- `FindNextBlocksToDownload` with an empty `vBlocks`; `none` where a null pointer is followed,
an assertion fails, or there is not enough fuel for the loop. -/
def findNextBlocksToDownload (mapBlocksInFlight : StdMap Uint256 (NodeId × Nat)) (fuel : Nat)
    (nodeid : NodeId) (count : Nat) (peer : PeerChain) (nodeStaller : NodeId) : Option Requests :=
  if count = 0 then some ⟨peer, [], nodeStaller⟩
  else do
    let peer := index.processBlockAvailability peer
    match peer.pindexBestKnownBlock with
    | none => return ⟨peer, [], nodeStaller⟩
    | some best =>
      let tip ← index.tip
      if index.tree.nChainWork best < index.tree.nChainWork tip then return ⟨peer, [], nodeStaller⟩
      else
        let start ← index.startingBlock peer best
        if start = best then
          return ⟨{ peer with pindexLastCommonBlock := some start }, [], nodeStaller⟩
        else
          let context : FetchContext :=
            { index := index
              mapBlocksInFlight := mapBlocksInFlight
              nodeid := nodeid
              count := count
              pindexBestKnownBlock := best
              nWindowEnd := index.tree.nHeight start + blockDownloadWindow }
          let fetch ← context.fetchLoop fuel start
            { pindexLastCommonBlock := start, nodeStaller := nodeStaller }
          return ⟨{ peer with pindexLastCommonBlock := some fetch.pindexLastCommonBlock },
            fetch.vBlocks, fetch.nodeStaller⟩

end IndexState

end CentNode
