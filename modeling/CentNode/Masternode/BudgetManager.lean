import CentNode.Masternode.Ballots

/-!
# The budget manager

Finalized budgets with the blocks they pay, and `CBudgetManager::ProcessMessage` for
proposals, finalized budgets and the votes for both.
-/

namespace CentNode

structure CFinalizedBudgetVote where
  fValid : Bool := true
  fSynced : Bool := false
  vin : CTxIn
  nBudgetHash : Uint256
  nTime : Int
  vchSig : List UInt8 := []
  nTime_range : IsInt64 nTime := by decide
  deriving DecidableEq, Repr

structure CTxBudgetPayment where
  nProposalHash : Uint256 := 0
  payee : CScript := []
  nAmount : Int := 0
  deriving DecidableEq, Repr

structure CFinalizedBudget where
  strBudgetName : String
  nBlockStart : Int
  vecBudgetPayments : List CTxBudgetPayment
  mapVotes : StdMap Uint256 CFinalizedBudgetVote := ∅
  nFeeTXHash : Uint256 := 0

namespace CFinalizedBudget

def getBlockStart (budget : CFinalizedBudget) : Int := budget.nBlockStart

def getBlockEnd (budget : CFinalizedBudget) : Int :=
  budget.nBlockStart + ((budget.vecBudgetPayments.length : Int) - 1)

def getVoteCount (budget : CFinalizedBudget) : Int := budget.mapVotes.entries.length

/-- The budget pays the block at the given height. -/
def covers (budget : CFinalizedBudget) (nBlockHeight : Int) : Bool :=
  budget.getBlockStart ≤ nBlockHeight && nBlockHeight ≤ budget.getBlockEnd

/-- The payment of the height is among the outputs of the transaction. -/
def isTransactionValid (budget : CFinalizedBudget) (txNew : CTransaction) (nBlockHeight : Int) :
    Bool :=
  let nCurrentBudgetPayment := nBlockHeight - budget.getBlockStart
  if nCurrentBudgetPayment < 0 then false
  else
    match budget.vecBudgetPayments[nCurrentBudgetPayment.toNat]? with
    | none => false
    | some payment =>
      txNew.vout.any fun out => payment.payee = out.scriptPubKey && payment.nAmount = out.nValue

end CFinalizedBudget

/-- `mapFinalizedBudgets`. -/
abbrev FinalizedBudgets : Type := StdMap Uint256 CFinalizedBudget

namespace FinalizedBudgets

/-- The loop that both functions below start with: the highest vote count of a
budget that pays the height, or the initial count when none has more. -/
def highestCount (budgets : FinalizedBudgets) (initial nBlockHeight : Int) : Int :=
  budgets.entries.foldl
    (fun nHighestCount entry =>
      if entry.2.getVoteCount > nHighestCount ∧ entry.2.covers nBlockHeight = true then
        entry.2.getVoteCount
      else nHighestCount)
    initial

/-- `CBudgetManager::IsBudgetPaymentBlock`, with the number of enabled masternodes. -/
def isBudgetPaymentBlock (budgets : FinalizedBudgets) (countEnabled nBlockHeight : Int) : Bool :=
  budgets.highestCount (-1) nBlockHeight > countEnabled / 20

def isTransactionValid (budgets : FinalizedBudgets) (countEnabled : Int) (txNew : CTransaction)
    (nBlockHeight : Int) : Bool :=
  let nHighestCount := budgets.highestCount 0 nBlockHeight
  if nHighestCount < countEnabled / 20 then false
  else
    budgets.entries.any fun entry =>
      entry.2.getVoteCount > nHighestCount - countEnabled / 10 && entry.2.covers nBlockHeight &&
        entry.2.isTransactionValid txNew nBlockHeight

end FinalizedBudgets

structure CBudgetVote where
  fValid : Bool := true
  fSynced : Bool := false
  vin : CTxIn
  nProposalHash : Uint256
  nVote : Int
  nTime : Int
  vchSig : List UInt8 := []
  nTime_range : IsInt64 nTime := by decide
  deriving DecidableEq, Repr

structure CBudgetProposal where
  fValid : Bool := true
  strProposalName : String
  strURL : String := ""
  nBlockStart : Int
  nBlockEnd : Int
  nAmount : Int
  address : CScript
  nTime : Int := 0
  nFeeTXHash : Uint256
  mapVotes : StdMap Uint256 CBudgetVote := ∅

/-- What the manager takes from the rest of the node: the hashes, the list of
masternodes and the checks that read the chain. -/
structure BudgetNode where
  isSynced : Bool
  outPointHash : COutPoint → Uint256
  /-- `mnodeman.Find(vin) != NULL`. -/
  masternodeKnown : CTxIn → Bool
  isBudgetCollateralValid : Uint256 → Uint256 → Bool
  proposalHash : CBudgetProposal → Uint256
  proposalVoteHash : CBudgetVote → Uint256
  proposalIsValid : CBudgetProposal → Bool
  proposalVoteSignatureValid : CBudgetVote → Bool
  budgetHash : CFinalizedBudget → Uint256
  budgetVoteHash : CFinalizedBudgetVote → Uint256
  budgetIsValid : CFinalizedBudget → Bool
  budgetVoteSignatureValid : CFinalizedBudgetVote → Bool

namespace BudgetNode

variable (node : BudgetNode)

/-- Proposals and `mvote`. -/
def proposalRules : BallotRules CBudgetProposal CBudgetVote where
  itemHash := node.proposalHash
  mapVotes := CBudgetProposal.mapVotes
  withVotes := fun proposal votes => { proposal with mapVotes := votes }
  mapVotes_withVotes := fun _ _ => rfl
  collateralValid := fun proposal =>
    node.isBudgetCollateralValid proposal.nFeeTXHash (node.proposalHash proposal)
  isValid := node.proposalIsValid
  voteHash := node.proposalVoteHash
  votedHash := CBudgetVote.nProposalHash
  voter := fun vote => node.outPointHash vote.vin.prevout
  nTime := CBudgetVote.nTime
  nTime_range := CBudgetVote.nTime_range
  masternodeKnown := fun vote => node.masternodeKnown vote.vin
  signatureValid := node.proposalVoteSignatureValid

/-- Finalized budgets and `fbvote`. -/
def budgetRules : BallotRules CFinalizedBudget CFinalizedBudgetVote where
  itemHash := node.budgetHash
  mapVotes := CFinalizedBudget.mapVotes
  withVotes := fun budget votes => { budget with mapVotes := votes }
  mapVotes_withVotes := fun _ _ => rfl
  collateralValid := fun budget =>
    node.isBudgetCollateralValid budget.nFeeTXHash (node.budgetHash budget)
  isValid := node.budgetIsValid
  voteHash := node.budgetVoteHash
  votedHash := CFinalizedBudgetVote.nBudgetHash
  voter := fun vote => node.outPointHash vote.vin.prevout
  nTime := CFinalizedBudgetVote.nTime
  nTime_range := CFinalizedBudgetVote.nTime_range
  masternodeKnown := fun vote => node.masternodeKnown vote.vin
  signatureValid := node.budgetVoteSignatureValid

end BudgetNode

structure CBudgetManager (node : BudgetNode) where
  proposals : Ballots node.proposalRules
  budgets : Ballots node.budgetRules

inductive BudgetMessage where
  | mprop (proposal : CBudgetProposal)
  | mvote (vote : CBudgetVote)
  | fbs (budget : CFinalizedBudget)
  | fbvote (vote : CFinalizedBudgetVote)

namespace CBudgetManager

variable {node : BudgetNode}

def checkOrphanVotes (now : Int) (manager : CBudgetManager node) : CBudgetManager node where
  proposals := manager.proposals.checkOrphanVotes node.isSynced now
  budgets := manager.budgets.checkOrphanVotes node.isSynced now

/-- `ProcessMessage`, at the time `now` of the clock. -/
def processMessage (now : Int) (manager : CBudgetManager node) : BudgetMessage → CBudgetManager node
  | .mprop proposal =>
    let received := manager.proposals.receiveItem proposal
    let next := { manager with proposals := received.2 }
    if received.1 then next.checkOrphanVotes now else next
  | .mvote vote =>
    { manager with proposals := manager.proposals.receiveVote node.isSynced now vote }
  | .fbs budget =>
    let received := manager.budgets.receiveItem budget
    let next := { manager with budgets := received.2 }
    if received.1 then next.checkOrphanVotes now else next
  | .fbvote vote => { manager with budgets := manager.budgets.receiveVote node.isSynced now vote }

/-- Messages with the time at which each is processed. -/
def processMessages (manager : CBudgetManager node) (messages : List (BudgetMessage × Int)) :
    CBudgetManager node :=
  messages.foldl (fun current message => current.processMessage message.2 message.1) manager

end CBudgetManager

end CentNode
