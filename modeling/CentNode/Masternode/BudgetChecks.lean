import CentNode.Chain.BlockIndex
import CentNode.Masternode.SwiftTX
import CentNode.Masternode.VoteConvergence
import CentNode.Primitives.Standard

/-!
# The checks of proposals and finalized budgets

`GetTotalBudget` and the two `IsValid` of `masternode-budget.cpp`, over what
they read of the chain, the clock and the list of masternodes.
-/

namespace CentNode

/-- The block value of which the budget is a tenth. -/
def budgetSubsidy (nHeight : Int) : Int :=
  if nHeight = 0 then 1 * coin
  else if 1 ≤ nHeight ∧ nHeight ≤ 140159 then 1 * coin
  else if 140160 ≤ nHeight ∧ nHeight ≤ 280319 then coin / 2
  else if 280320 ≤ nHeight ∧ nHeight ≤ 420479 then coin / 4
  else if 420480 ≤ nHeight ∧ nHeight ≤ 560639 then coin / 8
  else if 560640 ≤ nHeight ∧ nHeight ≤ 700799 then 6250000
  else if 700800 ≤ nHeight ∧ nHeight ≤ 840959 then 3125000
  else if 840960 ≤ nHeight ∧ nHeight ≤ 981119 then 1562500
  else if 981120 ≤ nHeight ∧ nHeight ≤ 1121279 then coin / 128
  else if 1121280 ≤ nHeight ∧ nHeight ≤ 50000000 then 390625
  else 195312

/-- `CBudgetManager::GetTotalBudget`; `tipKnown` tells whether the chain has a tip. -/
def getTotalBudget (params : CChainParams) (tipKnown : Bool) (nHeight : Int) : Int :=
  if !tipKnown then 0
  else if params.networkID = .testnet then 500 * coin / 100 * 10 * 146
  else if nHeight ≤ params.lastPowBlock then 0
  else budgetSubsidy nHeight / 100 * 10 * 2880

theorem budgetSubsidy_bounds (nHeight : Int) :
    0 ≤ budgetSubsidy nHeight ∧ budgetSubsidy nHeight ≤ coin := by
  have either : ∀ (condition : Prop) [Decidable condition] {first second : Int},
      0 ≤ first ∧ first ≤ coin → 0 ≤ second ∧ second ≤ coin →
        0 ≤ (if condition then first else second) ∧
          (if condition then first else second) ≤ coin := by
    intro condition _ first second one two
    split
    · exact one
    · exact two
  unfold budgetSubsidy
  repeat' apply either
  all_goals decide

theorem getTotalBudget_bounds (params : CChainParams) (tipKnown : Bool) (nHeight : Int) :
    0 ≤ getTotalBudget params tipKnown nHeight ∧
      getTotalBudget params tipKnown nHeight < 2 ^ 40 := by
  have bounds := budgetSubsidy_bounds nHeight
  have coin_eq : coin = 100000000 := rfl
  unfold getTotalBudget
  split
  · decide
  · split
    · decide
    · split
      · decide
      · omega

/-- The text of the first check that fails; a check is its failure and its text. -/
def firstError (checks : List (Bool × String)) : Option String :=
  (checks.find? Prod.fst).map Prod.snd

theorem firstError_eq_none {checks : List (Bool × String)} :
    firstError checks = none ↔ ∀ check ∈ checks, check.1 = false := by
  rw [firstError, Option.map_eq_none_iff, List.find?_eq_none]
  simp only [Bool.not_eq_true]

/-- What the budget code reads of the rest of the node. -/
structure BudgetView where
  /-- The height of the tip, if there is one. -/
  tip : Option Nat
  /-- `vMasternodes`, by the inputs. -/
  masternodes : List CTxIn
  /-- `mnodeman.CountEnabled(ActiveProtocol())`. -/
  countEnabled : Nat
  isSynced : Bool
  /-- The error of `IsBudgetCollateralValid` for a fee transaction and the hash
  it should name, `none` when it returns true. -/
  collateralError : Uint256 → Uint256 → Option String
  /-- The time of the block in the active chain that holds the fee transaction. -/
  collateralTime : Uint256 → Option Int
  /-- `VerifyMessage` with the key of the masternode. -/
  proposalVoteSigned : CBudgetVote → Bool
  budgetVoteSigned : CFinalizedBudgetVote → Bool

/-- `mnodeman.Find(vin) != NULL`. -/
def BudgetView.masternodeKnown (view : BudgetView) (vin : CTxIn) : Bool :=
  view.masternodes.any fun masternode => masternode.prevout = vin.prevout

/-- What does not change while the node runs: the parameters of the chain and
the hashes of serialized data. -/
structure BudgetConfig where
  params : CChainParams
  outPointHash : COutPoint → Uint256
  /-- The hash of name, URL, first and last block, amount and address. -/
  proposalHash : String → String → Int → Int → Int → CScript → Uint256
  proposalVoteHash : CBudgetVote → Uint256
  /-- The hash of name, first block and payments. -/
  budgetHash : String → Int → List CTxBudgetPayment → Uint256
  budgetVoteHash : CFinalizedBudgetVote → Uint256

/-! ## Proposals -/

namespace CBudgetProposal

variable (config : BudgetConfig) (view : BudgetView) (proposal : CBudgetProposal)

def getHash : Uint256 :=
  config.proposalHash proposal.strProposalName proposal.strURL proposal.nBlockStart
    proposal.nBlockEnd proposal.nAmount proposal.address

def getBlockStartCycle : Int :=
  proposal.nBlockStart - proposal.nBlockStart.tmod (getBudgetPaymentCycleBlocks config.params)

def getBlockEndCycle : Int := proposal.nBlockEnd

def getTotalPaymentCount : Int :=
  (proposal.getBlockEndCycle - proposal.getBlockStartCycle config).tdiv
    (getBudgetPaymentCycleBlocks config.params)

/-- Start of the proposal and number of payments times the cycle. -/
def proposalEnd : Int :=
  toInt32 (proposal.nBlockStart +
    getBudgetPaymentCycleBlocks config.params * proposal.getTotalPaymentCount config)

def netVotes : Int := (proposal.getYeas : Int) - proposal.getNays

def errorText (reason : String) : String :=
  "Proposal " ++ proposal.strProposalName ++ ": " ++ reason

def firstChecks : List (Bool × String) :=
  [((proposal.getNays : Int) - proposal.getYeas > view.countEnabled / 10,
      proposal.errorText "Active removal"),
    (proposal.nBlockStart < 0, "Invalid Proposal"),
    (proposal.nBlockEnd < proposal.nBlockStart,
      proposal.errorText "Invalid nBlockEnd (end before start)"),
    (proposal.nAmount < 10 * coin, proposal.errorText "Invalid nAmount"),
    (proposal.address = [], proposal.errorText "Invalid Payment Address")]

/-- The checks after the collateral.  Without a tip the budget is 0 and the
second one is not reached. -/
def lastChecks : List (Bool × String) :=
  let height : Int := view.tip.getD 0
  [(proposal.address.isPayToScriptHash, proposal.errorText "Multisig is not currently supported."),
    (proposal.nAmount > getTotalBudget config.params view.tip.isSome proposal.nBlockStart,
      proposal.errorText "Payment more than max"),
    (view.tip.isSome && decide (proposal.proposalEnd config < height),
      proposal.errorText ("Invalid nBlockEnd (" ++ toString (proposal.proposalEnd config) ++
        ") < current height (" ++ toString height ++ ")"))]

def isValid (fCheckCollateral : Bool) : Option String :=
  let collateral := view.collateralError proposal.nFeeTXHash (proposal.getHash config)
  firstError (proposal.firstChecks view ++
    (fCheckCollateral && collateral.isSome, proposal.errorText "Invalid collateral") ::
      proposal.lastChecks config view)

def isEstablished (now : Int) : Bool :=
  proposal.nTime < now - (if config.params.networkID = .main then 60 * 60 * 24 else 60 * 5)

end CBudgetProposal

/-! ## Finalized budgets -/

namespace CFinalizedBudget

variable (config : BudgetConfig) (view : BudgetView) (budget : CFinalizedBudget)

def getHash : Uint256 :=
  config.budgetHash budget.strBudgetName budget.nBlockStart budget.vecBudgetPayments

/-- `GetTotalPayout`, a running sum in an `int64_t`. -/
def getTotalPayout : Int :=
  budget.vecBudgetPayments.foldl (fun ret payment => toInt64 (ret + payment.nAmount)) 0

def isValid (fCheckCollateral : Bool) : Option String :=
  let text := fun reason => "Budget " ++ budget.strBudgetName ++ " " ++ reason
  let collateral := view.collateralError budget.nFeeTXHash (budget.getHash config)
  firstError
    [(budget.nBlockStart.tmod (getBudgetPaymentCycleBlocks config.params) ≠ 0,
        "Invalid BlockStart"),
      (budget.getBlockEnd - budget.nBlockStart > 100, "Invalid BlockEnd"),
      ((budget.vecBudgetPayments.length : Int) > 100, "Invalid budget payments count (too many)"),
      (budget.strBudgetName = "", "Invalid Budget Name"),
      (budget.nBlockStart = 0, text "Invalid BlockStart == 0"),
      (budget.nFeeTXHash = 0, text "Invalid FeeTx == 0"),
      (budget.getTotalPayout > getTotalBudget config.params view.tip.isSome budget.nBlockStart,
        text "Invalid Payout (more than max)"),
      (fCheckCollateral && collateral.isSome,
        text ("Invalid Collateral : " ++ collateral.getD ""))]

def exactPayout : Int := (budget.vecBudgetPayments.map CTxBudgetPayment.nAmount).sum

theorem toInt64_add_toInt64 (first second : Int) :
    toInt64 (toInt64 first + second) = toInt64 (first + second) := by
  unfold toInt64
  omega

theorem getTotalPayout_eq : budget.getTotalPayout = toInt64 budget.exactPayout := by
  have loop : ∀ (payments : List CTxBudgetPayment) (start : Int), toInt64 start = start →
      payments.foldl (fun ret payment => toInt64 (ret + payment.nAmount)) start =
        toInt64 (start + (payments.map CTxBudgetPayment.nAmount).sum) := by
    intro payments
    induction payments with
    | nil =>
      intro start same
      simpa using same.symm
    | cons payment rest ih =>
      intro start _
      have again : toInt64 (toInt64 (start + payment.nAmount)) =
          toInt64 (start + payment.nAmount) := by
        simpa using toInt64_add_toInt64 (start + payment.nAmount) 0
      rw [List.foldl_cons, ih _ again, toInt64_add_toInt64, List.map_cons, List.sum_cons,
        Int.add_assoc]
  have whole := loop budget.vecBudgetPayments 0 (by decide)
  rw [Int.zero_add] at whole
  exact whole

end CFinalizedBudget

end CentNode
