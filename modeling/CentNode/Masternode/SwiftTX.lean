import CentNode.Library.StdMap
import CentNode.Primitives.Transaction

/-!
# SwiftTX

The messages `ix` and `txlvote` and the expiry of transaction locks, as
`swifttx.cpp` has them.
-/

namespace CentNode

def swiftTXSignaturesRequired : Int := 6

def swiftTXSignaturesTotal : Int := 15

structure CConsensusVote where
  vinMasternode : CTxIn
  txHash : Uint256
  nBlockHeight : Int
  vchMasterNodeSignature : List UInt8 := []
  deriving DecidableEq, Repr

def CConsensusVote.getHash (vote : CConsensusVote) : Uint256 :=
  vote.vinMasternode.prevout.hash + BitVec.ofNat 256 vote.vinMasternode.prevout.n + vote.txHash

structure CTransactionLock where
  nBlockHeight : Int
  txHash : Uint256
  vecConsensusVotes : List CConsensusVote := []
  nExpiration : Int
  nTimeout : Int
  deriving DecidableEq, Repr

namespace CTransactionLock

def addSignature (lock : CTransactionLock) (vote : CConsensusVote) : CTransactionLock :=
  { lock with vecConsensusVotes := lock.vecConsensusVotes ++ [vote] }

/-- Only votes for the height of the transaction count. -/
def countSignatures (lock : CTransactionLock) : Int :=
  if lock.nBlockHeight = 0 then -1
  else (lock.vecConsensusVotes.countP fun vote => vote.nBlockHeight = lock.nBlockHeight : Nat)

def new (txHash : Uint256) (nBlockHeight now : Int) : CTransactionLock where
  nBlockHeight := nBlockHeight
  txHash := txHash
  nExpiration := toInt32 (now + 60 * 60)
  nTimeout := toInt32 (now + 60 * 5)

end CTransactionLock

/-- The maps of `swifttx.cpp`; the votes counted against spam only decide on
what is relayed. -/
structure SwiftState where
  mapTxLockReq : StdMap Uint256 CTransaction := ∅
  mapTxLockReqRejected : StdMap Uint256 CTransaction := ∅
  mapTxLockVote : StdMap Uint256 CConsensusVote := ∅
  mapTxLocks : StdMap Uint256 CTransactionLock := ∅
  mapLockedInputs : StdMap COutPoint Uint256 := ∅

/-- What `ix` takes from the rest of the node. -/
structure IxContext where
  /-- Not in lite mode, the spork active and the chain synced. -/
  active : Bool
  isIXTXValid : Bool
  /-- Every output has a normal payment script or an unspendable one. -/
  scriptsNormal : Bool
  getInputAge : CTxIn → Int
  tipHeight : Int
  now : Int
  /-- `AcceptToMemoryPool`, its scan of the transaction locks apart. -/
  acceptToMemoryPool : Bool
  /-- The vote that `DoConsensusVote` makes on a masternode of the first ranks. -/
  ownVote : Option CConsensusVote := none

/-- What `txlvote` takes from the rest of the node. -/
structure VoteContext where
  active : Bool
  /-- `GetMasternodeRank`, `-1` for an unknown masternode. -/
  rank : Int
  signatureValid : Bool
  now : Int
  deriving DecidableEq, Repr

namespace SwiftState

variable (state : SwiftState)

/-- The scan of `AcceptToMemoryPool`: an input is locked for another transaction. -/
def conflicts (tx : CTransaction) : Bool :=
  tx.vin.any fun txin =>
    match state.mapLockedInputs.lookup txin.prevout with
    | none => false
    | some txid => txid ≠ tx.hash

/-- Some input is not found or too new, so that `CreateNewLock` returns 0. -/
def tooNew (context : IxContext) (tx : CTransaction) : Bool :=
  tx.vin.any fun txin => context.getInputAge txin < 5

/-- The block height that chooses the masternodes: newer than the input, whose
age is the one the reverse loop saw last. -/
def lockHeight (context : IxContext) (tx : CTransaction) : Int :=
  let nTxAge := (tx.vin.head?.map context.getInputAge).getD 0
  toInt32 (context.tipHeight - nTxAge + 4)

/-- `CreateNewLock`, without its result. -/
def createNewLock (context : IxContext) (tx : CTransaction) : SwiftState :=
  if tooNew context tx then state
  else
    let nBlockHeight := lockHeight context tx
    { state with
      mapTxLocks := state.mapTxLocks.insert tx.hash
        (match state.mapTxLocks.lookup tx.hash with
        | none => CTransactionLock.new tx.hash nBlockHeight context.now
        | some lock => { lock with nBlockHeight := nBlockHeight }) }

def lockInputs (tx : CTransaction) (txid : Uint256) : SwiftState :=
  { state with mapLockedInputs := state.mapLockedInputs.insertAll tx.prevouts txid }

def expireLock (txid : Uint256) (now : Int) : SwiftState :=
  match state.mapTxLocks.lookup txid with
  | none => state
  | some lock =>
    let expired := { lock with nExpiration := toInt32 now }
    { state with mapTxLocks := state.mapTxLocks.insert txid expired }

def conflictingLock (tx : CTransaction) : Option Uint256 :=
  tx.vin.findSome? fun txin =>
    match state.mapLockedInputs.lookup txin.prevout with
    | none => none
    | some txid => if txid = tx.hash then none else some txid

/-- `CheckForConflictingLocks`: two conflicting locks cancel each other out. -/
def checkForConflictingLocks (tx : CTransaction) (now : Int) : Bool × SwiftState :=
  match state.conflictingLock tx with
  | none => (false, state)
  | some txid => (true, (state.expireLock tx.hash now).expireLock txid now)

def ignores (context : IxContext) (tx : CTransaction) : Bool :=
  !context.active || (state.mapTxLockReq.lookup tx.hash).isSome ||
    (state.mapTxLockReqRejected.lookup tx.hash).isSome || !context.isIXTXValid ||
      !context.scriptsNormal

def accepts (context : IxContext) (tx : CTransaction) : Bool :=
  !state.conflicts tx && context.acceptToMemoryPool

def ixAccepted (context : IxContext) (tx : CTransaction) : SwiftState :=
  { state with
    mapTxLockVote := match context.ownVote with
      | none => state.mapTxLockVote
      | some vote => state.mapTxLockVote.insert vote.getHash vote
    mapTxLockReq := state.mapTxLockReq.insertNew tx.hash tx }

def complete (txid : Uint256) : Bool :=
  match state.mapTxLocks.lookup txid with
  | none => false
  | some lock => swiftTXSignaturesRequired ≤ lock.countSignatures

/-- The end of a rejected `ix`: the request counts after all when the lock is
complete and nothing conflicts with it. -/
def resolveConflicts (tx : CTransaction) (now : Int) : SwiftState :=
  if state.complete tx.hash then
    let checked := state.checkForConflictingLocks tx now
    if checked.1 then checked.2
    else { checked.2 with mapTxLockReq := checked.2.mapTxLockReq.insertNew tx.hash tx }
  else state

def ixRejected (context : IxContext) (tx : CTransaction) : SwiftState :=
  let noted := { state with
    mapTxLockReqRejected := state.mapTxLockReqRejected.insertNew tx.hash tx }
  (noted.lockInputs tx tx.hash).resolveConflicts tx context.now

def processIx (context : IxContext) (tx : CTransaction) : SwiftState :=
  if state.ignores context tx then state
  else if state.accepts context tx then (state.createNewLock context tx).ixAccepted context tx
  else (state.createNewLock context tx).ixRejected context tx

def addVote (vote : CConsensusVote) (now : Int) : SwiftState :=
  let lock := (state.mapTxLocks.lookup vote.txHash).getD (CTransactionLock.new vote.txHash 0 now)
  { state with mapTxLocks := state.mapTxLocks.insert vote.txHash (lock.addSignature vote) }

/-- A complete lock takes the inputs of the request.  `mapTxLockReq[txHash]`
makes an empty transaction when there is no request. -/
def completeLock (txHash : Uint256) (now : Int) : SwiftState :=
  let tx := (state.mapTxLockReq.lookup txHash).getD CTransaction.empty
  let requested := { state with
    mapTxLockReq := state.mapTxLockReq.insertNew txHash CTransaction.empty }
  let checked := requested.checkForConflictingLocks tx now
  if checked.1 then checked.2 else checked.2.lockInputs tx txHash

/-- `ProcessConsensusVote`, without its result. -/
def processConsensusVote (context : VoteContext) (vote : CConsensusVote) : SwiftState :=
  if context.rank = -1 ∨ swiftTXSignaturesTotal < context.rank ∨ context.signatureValid = false then
    state
  else
    let voted := state.addVote vote context.now
    if voted.complete vote.txHash then voted.completeLock vote.txHash context.now else voted

def processVote (context : VoteContext) (vote : CConsensusVote) : SwiftState :=
  if !context.active || (state.mapTxLockVote.lookup vote.getHash).isSome then state
  else
    { state with mapTxLockVote := state.mapTxLockVote.insertNew vote.getHash vote
    }.processConsensusVote context vote

/-- The inputs of a request are unlocked and the request is forgotten. -/
def forgetRequest (lock : CTransactionLock) (tx : CTransaction) : SwiftState :=
  { state with
    mapLockedInputs := state.mapLockedInputs.eraseAll tx.prevouts
    mapTxLockReq := state.mapTxLockReq.erase lock.txHash
    mapTxLockReqRejected := state.mapTxLockReqRejected.erase lock.txHash
    mapTxLockVote := state.mapTxLockVote.eraseAll
      (lock.vecConsensusVotes.map CConsensusVote.getHash) }

def eraseLock (key : Uint256) : SwiftState :=
  { state with mapTxLocks := state.mapTxLocks.erase key }

def cleanLock (now : Int) (key : Uint256) (lock : CTransactionLock) : SwiftState :=
  if lock.nExpiration < now then
    (match state.mapTxLockReq.lookup lock.txHash with
    | none => state
    | some tx => state.forgetRequest lock tx).eraseLock key
  else state

/-- `CleanTransactionLocksList`, which does nothing without a tip. -/
def cleanTransactionLocksList (tip : Bool) (now : Int) : SwiftState :=
  if tip then
    state.mapTxLocks.entries.foldl (fun current entry => current.cleanLock now entry.1 entry.2)
      state
  else state

end SwiftState

inductive SwiftInput where
  | ix (context : IxContext) (tx : CTransaction)
  | txlvote (context : VoteContext) (vote : CConsensusVote)
  | block (block : CBlock)
  | clean (tip : Bool) (now : Int)

/-- One step.  A block is checked against the locked inputs and changes none of
the maps. -/
def SwiftState.step (state : SwiftState) : SwiftInput → SwiftState
  | .ix context tx => state.processIx context tx
  | .txlvote context vote => state.processVote context vote
  | .block _ => state
  | .clean tip now => state.cleanTransactionLocksList tip now

end CentNode
