import CentNode.Library.Selection
import CentNode.Library.StdMap
import CentNode.Primitives.Transaction

/-!
# Votes for the masternode that a block pays

`masternode-payments.h` and the vote part of `masternode-payments.cpp`.  A vote
names the masternode that casts it, a height and the script to be paid there.
The votes are kept under their hashes and counted per height.
-/

namespace CentNode

def mnPaymentsSignaturesRequired : Int := 6

def mnPaymentsSignaturesTotal : Int := 10

structure CMasternodePayee where
  scriptPubKey : CScript := []
  nVotes : Int := 0
  deriving DecidableEq, Repr

/-- The scripts that votes name for one height. -/
structure CMasternodeBlockPayees where
  nBlockHeight : Int := 0
  vecPayments : List CMasternodePayee := []
  deriving DecidableEq, Repr

/-- The loop of `AddPayee`: the first entry of the script gets the votes, and a
new entry is put at the end where there is none. -/
def addPayment (payeeIn : CScript) (nIncrement : Int) :
    List CMasternodePayee → List CMasternodePayee
  | [] => [⟨payeeIn, nIncrement⟩]
  | payee :: rest =>
    if payee.scriptPubKey = payeeIn then { payee with nVotes := payee.nVotes + nIncrement } :: rest
    else payee :: addPayment payeeIn nIncrement rest

/-- One entry of the loop of `GetPayee`. -/
def keepMostVoted (best : Int × CScript) (payee : CMasternodePayee) : Int × CScript :=
  if payee.nVotes > best.1 then (payee.nVotes, payee.scriptPubKey) else best

namespace CMasternodeBlockPayees

def addPayee (payees : CMasternodeBlockPayees) (payeeIn : CScript) (nIncrement : Int) :
    CMasternodeBlockPayees :=
  { payees with vecPayments := addPayment payeeIn nIncrement payees.vecPayments }

/-- `GetPayee`: the first script with the most votes. -/
def getPayee (payees : CMasternodeBlockPayees) : Option CScript :=
  let best := payees.vecPayments.foldl keepMostVoted (-1, [])
  if best.1 > -1 then some best.2 else none

theorem foldl_keepMostVoted_eq (vecPayments : List CMasternodePayee) :
    vecPayments.foldl keepMostVoted (-1, []) =
      let best := Selection.selectHighest CMasternodePayee.nVotes (fun _ => true) (-1) vecPayments
      (best.1, (best.2.map CMasternodePayee.scriptPubKey).getD []) := by
  refine Selection.foldl_eq_of_selectHighest _
    (fun best => (best.1, (best.2.map CMasternodePayee.scriptPubKey).getD [])) (-1) vecPayments ?_
  intro best payee
  unfold Selection.keepHigher keepMostVoted
  by_cases higher : payee.nVotes > best.1
  · rw [if_pos higher, if_pos (show _ ∧ _ from ⟨higher, rfl⟩)]
    rfl
  · rw [if_neg higher, if_neg (fun both => higher both.1)]

def votesFor (payees : CMasternodeBlockPayees) (script : CScript) : Int :=
  ((payees.vecPayments.filter fun payee => payee.scriptPubKey = script).map (·.nVotes)).sum

end CMasternodeBlockPayees

structure CMasternodePaymentWinner where
  vinMasternode : CTxIn
  nBlockHeight : Int := 0
  payee : CScript := []
  vchSig : List UInt8 := []
  deriving DecidableEq, Repr

/-- `CMasternodePayments`.  The record of a height carries that height. -/
structure CMasternodePayments where
  mapMasternodePayeeVotes : StdMap Uint256 CMasternodePaymentWinner := ∅
  mapMasternodeBlocks : StdMap Int CMasternodeBlockPayees := ∅
  mapMasternodesLastVote : StdMap Uint256 Int := ∅
  blocksKeyed : ∀ height payees, mapMasternodeBlocks.lookup height = some payees →
    payees.nBlockHeight = height

/-- The parts of the node that the votes are checked against. -/
structure MasternodeView where
  isBlockchainSynced : Bool := true
  fLiteMode : Bool := false
  activeProtocol : Int
  /-- The height of the tip; `none` without a tip or without the lock. -/
  tipHeight : Option Int
  countEnabled : Nat
  /-- `mnodeman.size()`. -/
  size : Nat
  /-- `mnodeman.Find`, with the protocol version of the masternode. -/
  find : CTxIn → Option Int
  getMasternodeRank : CTxIn → Int → Int → Int
  getBlockHash : Int → Option Uint256
  /-- `masternodeSigner.VerifyMessage` on the message of the vote. -/
  verifyMessage : CMasternodePaymentWinner → Bool

namespace CMasternodePaymentWinner

/-- `GetHash`, over the hash of payee, height and outpoint. -/
def getHash (hashOf : CScript → Int → COutPoint → Uint256) (winner : CMasternodePaymentWinner) :
    Uint256 :=
  hashOf winner.payee winner.nBlockHeight winner.vinMasternode.prevout

def isValid (winner : CMasternodePaymentWinner) (view : MasternodeView) : Bool :=
  match view.find winner.vinMasternode with
  | none => false
  | some protocolVersion =>
    if protocolVersion < view.activeProtocol then false
    else
      let n := view.getMasternodeRank winner.vinMasternode (winner.nBlockHeight - 100)
        view.activeProtocol
      !decide (n > mnPaymentsSignaturesTotal)

def signatureValid (winner : CMasternodePaymentWinner) (view : MasternodeView) : Bool :=
  match view.find winner.vinMasternode with
  | none => false
  | some _ => view.verifyMessage winner

/-- The vote is not below the last rounds of payments nor too far ahead;
`CountEnabled() * 1.25` is taken from the height before it is rounded. -/
def inRange (winner : CMasternodePaymentWinner) (view : MasternodeView) (nHeight : Int) : Bool :=
  let nFirstBlock := (4 * nHeight - 5 * view.countEnabled).tdiv 4
  !(decide (winner.nBlockHeight < nFirstBlock) || decide (winner.nBlockHeight > nHeight + 20))

end CMasternodePaymentWinner

/-- `outMasternode.hash + outMasternode.n`, the key of the last votes. -/
def COutPoint.voteKey (out : COutPoint) : Uint256 := out.hash + BitVec.ofNat 256 out.n

namespace CMasternodePayments

def empty : CMasternodePayments where
  blocksKeyed := fun _ _ impossible => by cases impossible

/-- `CanVote`, which also records that the masternode voted. -/
def canVote (payments : CMasternodePayments) (outMasternode : COutPoint) (nBlockHeight : Int) :
    Bool × CMasternodePayments :=
  if payments.mapMasternodesLastVote.lookup outMasternode.voteKey = some nBlockHeight then
    (false, payments)
  else
    (true, { payments with
      mapMasternodesLastVote :=
        payments.mapMasternodesLastVote.insert outMasternode.voteKey nBlockHeight })

/-- The record of a height, new where there is none. -/
def blockPayees (payments : CMasternodePayments) (nBlockHeight : Int) : CMasternodeBlockPayees :=
  (payments.mapMasternodeBlocks.lookup nBlockHeight).getD { nBlockHeight := nBlockHeight }

theorem blockPayees_height (payments : CMasternodePayments) (nBlockHeight : Int) :
    (payments.blockPayees nBlockHeight).nBlockHeight = nBlockHeight := by
  unfold blockPayees
  cases found : payments.mapMasternodeBlocks.lookup nBlockHeight with
  | none => rfl
  | some payees => exact payments.blocksKeyed nBlockHeight payees found

section Votes

variable (hashOf : CScript → Int → COutPoint → Uint256)

/-- The part of `AddWinningMasternode` under the locks, for a vote that is not stored yet. -/
def storeWinner (payments : CMasternodePayments) (winnerIn : CMasternodePaymentWinner) :
    CMasternodePayments :=
  { payments with
    mapMasternodePayeeVotes :=
      payments.mapMasternodePayeeVotes.insert (winnerIn.getHash hashOf) winnerIn
    mapMasternodeBlocks :=
      payments.mapMasternodeBlocks.insert winnerIn.nBlockHeight
        ((payments.blockPayees winnerIn.nBlockHeight).addPayee winnerIn.payee 1)
    blocksKeyed := by
      intro height payees found
      rw [StdMap.lookup_insert_ite] at found
      split at found
      case isTrue same =>
        cases found
        exact (payments.blockPayees_height winnerIn.nBlockHeight).trans same.symm
      case isFalse => exact payments.blocksKeyed height payees found }

def addWinningMasternode (payments : CMasternodePayments) (view : MasternodeView)
    (winnerIn : CMasternodePaymentWinner) : Bool × CMasternodePayments :=
  if (view.getBlockHash (winnerIn.nBlockHeight - 100)).isNone then (false, payments)
  else if (payments.mapMasternodePayeeVotes.lookup (winnerIn.getHash hashOf)).isSome then
    (false, payments)
  else (true, payments.storeWinner hashOf winnerIn)

/-- The message `mnw` of `ProcessMessageMasternodePayments`. -/
def processWinner (payments : CMasternodePayments) (view : MasternodeView) (peerVersion : Int)
    (winner : CMasternodePaymentWinner) : CMasternodePayments :=
  if !view.isBlockchainSynced || view.fLiteMode then payments
  else if peerVersion < view.activeProtocol then payments
  else
    match view.tipHeight with
    | none => payments
    | some nHeight =>
      if (payments.mapMasternodePayeeVotes.lookup (winner.getHash hashOf)).isSome then payments
      else if !winner.inRange view nHeight then payments
      else if !winner.isValid view then payments
      else
        let voted := payments.canVote winner.vinMasternode.prevout winner.nBlockHeight
        if !voted.1 then voted.2
        else if !winner.signatureValid view then voted.2
        else (voted.2.addWinningMasternode hashOf view winner).2

end Votes

/-- A vote for a block too far below the tip. -/
def tooOld (view : MasternodeView) (nHeight : Int) (winner : CMasternodePaymentWinner) : Bool :=
  nHeight - winner.nBlockHeight > max (5 * view.size / 4 : Int) 1000

def cleanPaymentList (payments : CMasternodePayments) (view : MasternodeView) :
    CMasternodePayments :=
  match view.tipHeight with
  | none => payments
  | some nHeight =>
    let removed := payments.mapMasternodePayeeVotes.entries.filter fun entry =>
      tooOld view nHeight entry.2
    { payments with
      mapMasternodePayeeVotes :=
        payments.mapMasternodePayeeVotes.keep fun _ winner => !tooOld view nHeight winner
      mapMasternodeBlocks :=
        payments.mapMasternodeBlocks.eraseAll (removed.map fun entry => entry.2.nBlockHeight)
      blocksKeyed := by
        intro height payees found
        rw [StdMap.lookup_eraseAll] at found
        split at found
        case isTrue => cases found
        case isFalse => exact payments.blocksKeyed height payees found }

def getBlockPayee (payments : CMasternodePayments) (nBlockHeight : Int) : Option CScript :=
  (payments.mapMasternodeBlocks.lookup nBlockHeight).bind CMasternodeBlockPayees.getPayee

end CMasternodePayments

end CentNode
