import CentNode.Masternode.Payments
import CentNode.Validation.MintBound

/-!
# The payee of a block

`FillBlockPayee` adds the budget or masternode payment to the transaction of a
new block, and `IsBlockPayeeValid` asks a received block for it.  The two are
written apart, in `masternode-payments.cpp` and `masternode-budget.cpp`.
-/

namespace CentNode

/-- `CMutableTransaction`: a transaction that is still being put together. -/
structure CMutableTransaction where
  nVersion : Int := 1
  vin : List CTxIn := []
  vout : List CTxOut := []
  nLockTime : Nat := 0
  deriving DecidableEq, Repr

/-- `CMutableTransaction(const CTransaction& tx)`. -/
def CTransaction.toMutable (tx : CTransaction) : CMutableTransaction where
  nVersion := tx.nVersion
  vin := tx.vin
  vout := tx.vout
  nLockTime := tx.nLockTime

/-- `std::vector::resize` on outputs; new outputs are null. -/
def resizeOutputs (vout : List CTxOut) (size : Nat) : List CTxOut :=
  vout.take size ++ List.replicate (size - vout.length) CTxOut.null

/-- `GetMasternodePayment`.  Three quarters of a block value below `2 ^ 51` are
exact in a `double`, and the product is rounded down. -/
def getMasternodePayment (params : CChainParams) (nHeight blockValue : Int) : Int :=
  if nHeight < params.lastPowBlock ∨ blockValue = 0 then 0 else 3 * blockValue / 4

/-! ## What the validator asks for -/

namespace CMasternodeBlockPayees

/-- The highest number of votes, counted from the required signatures on. -/
def maxSignatures (payees : CMasternodeBlockPayees) : Int :=
  payees.vecPayments.foldl
    (fun nMaxSignatures payee =>
      if payee.nVotes ≥ nMaxSignatures ∧ payee.nVotes ≥ mnPaymentsSignaturesRequired then
        payee.nVotes
      else nMaxSignatures)
    0

/-- `CMasternodeBlockPayees::IsTransactionValid`.  The count of masternodes that
the source passes on has no influence on the payment. -/
def isTransactionValid (params : CChainParams) (tip : CBlockIndex)
    (payees : CMasternodeBlockPayees) (txNew : CTransaction) : Bool :=
  let nReward := getBlockValue params tip payees.nBlockHeight
  let requiredMasternodePayment := getMasternodePayment params payees.nBlockHeight nReward
  if payees.maxSignatures < mnPaymentsSignaturesRequired then true
  else
    payees.vecPayments.any fun payee =>
      decide (payee.nVotes ≥ mnPaymentsSignaturesRequired) &&
        txNew.vout.any fun out =>
          payee.scriptPubKey = out.scriptPubKey && decide (out.nValue ≥ requiredMasternodePayment)

end CMasternodeBlockPayees

def CMasternodePayments.isTransactionValid (params : CChainParams) (tip : CBlockIndex)
    (payments : CMasternodePayments) (txNew : CTransaction) (nBlockHeight : Int) : Bool :=
  match payments.mapMasternodeBlocks.lookup nBlockHeight with
  | some payees => payees.isTransactionValid params tip txNew
  | none => true

/-! ## What the producer pays -/

def CFinalizedBudget.getPayeeAndAmount (budget : CFinalizedBudget) (nBlockHeight : Int) :
    Option (CScript × Int) :=
  let i := nBlockHeight - budget.getBlockStart
  if i < 0 then none
  else budget.vecBudgetPayments[i.toNat]?.map fun payment => (payment.payee, payment.nAmount)

namespace FinalizedBudgets

/-- One budget of the loop of `FillBlockPayee`. -/
def keepBudgetPayment (nBlockHeight : Int) (best : Int × CScript × Int)
    (entry : Sigma fun _ : Uint256 => CFinalizedBudget) : Int × CScript × Int :=
  if entry.2.getVoteCount > best.1 ∧ entry.2.covers nBlockHeight = true then
    match entry.2.getPayeeAndAmount nBlockHeight with
    | some payment => (entry.2.getVoteCount, payment)
    | none => best
  else best

/-- `CBudgetManager::FillBlockPayee`; `none` where the source writes to an output
that is not there. -/
def fillBlockPayee (params : CChainParams) (pindexPrev : CBlockIndex)
    (budgets : FinalizedBudgets) (txNew : CMutableTransaction) (fProofOfStake : Bool) :
    Option CMutableTransaction :=
  let best := budgets.entries.foldl (keepBudgetPayment (pindexPrev.nHeight + 1)) (0, [], 0)
  let payment : CTxOut := ⟨best.2.2, best.2.1⟩
  if fProofOfStake then
    if best.1 > 0 then some { txNew with vout := txNew.vout ++ [payment] } else some txNew
  else
    match txNew.vout with
    | [] => none
    | first :: rest =>
      -- miners get the full amount on these blocks
      let reward : CTxOut :=
        { first with nValue := getBlockValue params pindexPrev pindexPrev.nHeight }
      if best.1 > 0 then
        some { txNew with vout := (resizeOutputs (reward :: rest) 2).set 1 payment }
      else some { txNew with vout := reward :: rest }

end FinalizedBudgets

/-- The last output gives up the masternode payment; `none` without outputs. -/
def subtractFromLast (vout : List CTxOut) (masternodePayment : Int) : Option (List CTxOut) :=
  vout.getLast?.map fun last =>
    vout.dropLast ++ [{ last with nValue := toInt64 (last.nValue - masternodePayment) }]

/-- `CMasternodePayments::FillBlockPayee`, given the script of the masternode that
`GetCurrentMasterNode` returns. -/
def CMasternodePayments.fillBlockPayee (params : CChainParams) (pindexPrev : CBlockIndex)
    (payments : CMasternodePayments) (currentMasterNode : Option CScript)
    (txNew : CMutableTransaction) (fProofOfStake : Bool) : Option CMutableTransaction :=
  let blockValue := getBlockValue params pindexPrev pindexPrev.nHeight
  let masternodePayment := getMasternodePayment params pindexPrev.nHeight blockValue
  match (payments.getBlockPayee (pindexPrev.nHeight + 1)).or currentMasterNode with
  | none => some txNew
  | some payee =>
    let payment : CTxOut := ⟨masternodePayment, payee⟩
    if fProofOfStake then
      (subtractFromLast txNew.vout masternodePayment).map fun vout =>
        { txNew with vout := vout ++ [payment] }
    else
      let resized := (resizeOutputs txNew.vout 2).set 1 payment
      some { txNew with
        vout := resized.modifyHead fun first =>
          { first with nValue := blockValue - masternodePayment } }

/-! ## The node that fills and checks -/

/-- What the payee of a block depends on: the node of block validation, the
payment votes and the list of masternodes. -/
structure PayeeNode where
  node : Node
  masternodePayments : CMasternodePayments
  /-- The script of the masternode that `mnodeman.GetCurrentMasterNode(1)` returns. -/
  currentMasterNode : Option CScript

namespace PayeeNode

/-- The node of block validation, which asks these payment votes. -/
def validator (payer : PayeeNode) (tip : CBlockIndex) : Node :=
  let prim := { payer.node.prim with
    masternodePaymentValid := fun txNew nBlockHeight =>
      payer.masternodePayments.isTransactionValid payer.node.params tip txNew nBlockHeight }
  { payer.node with prim := prim }

def paysBudget (payer : PayeeNode) (nBlockHeight : Int) : Bool :=
  payer.node.sporkActive .enableSuperblocks &&
    payer.node.mapFinalizedBudgets.isBudgetPaymentBlock payer.node.countEnabled nBlockHeight

def fillBlockPayee (payer : PayeeNode) (txNew : CMutableTransaction) (fProofOfStake : Bool) :
    Option CMutableTransaction :=
  match payer.node.tip with
  | none => some txNew
  | some pindexPrev =>
    if payer.paysBudget (pindexPrev.nHeight + 1) then
      payer.node.mapFinalizedBudgets.fillBlockPayee payer.node.params pindexPrev txNew
        fProofOfStake
    else
      payer.masternodePayments.fillBlockPayee payer.node.params pindexPrev
        payer.currentMasterNode txNew fProofOfStake

end PayeeNode

end CentNode
