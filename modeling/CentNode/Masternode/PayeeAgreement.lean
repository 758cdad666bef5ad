import CentNode.Masternode.BlockPayee

/-!
# Producer and validator agree on the payee

The transaction that `FillBlockPayee` completes is put to `IsBlockPayeeValid` of
the same node.  They agree except on two edges.  With fewer than ten enabled
masternodes the window of ten percent is empty, so that the validator passes
over the very budget that has the most votes.  At the last proof-of-work block
the producer takes the masternode payment of the height below, which is zero.
-/

namespace CentNode

open List Option CFinalizedBudget

open Selection

theorem resizeOutputs_two (first : CTxOut) (rest : List CTxOut) (payment : CTxOut) :
    (resizeOutputs (first :: rest) 2).set 1 payment = [first, payment] := by
  cases rest with
  | nil => rfl
  | cons second later => simp [resizeOutputs]

/-! ## Finalized budgets -/

namespace FinalizedBudgets

theorem highestCount_eq (budgets : FinalizedBudgets) (initial nBlockHeight : Int) :
    budgets.highestCount initial nBlockHeight =
      (selectHighest (fun entry => entry.2.getVoteCount) (fun entry => entry.2.covers nBlockHeight)
        initial budgets.entries).1 := by
  refine foldl_eq_of_selectHighest _ Prod.fst initial budgets.entries ?_
  intro best entry
  unfold keepHigher
  split <;> rfl

variable {budget : CFinalizedBudget} {nBlockHeight : Int}

theorem covers_payee (covered : budget.covers nBlockHeight = true) :
    ∃ payment, budget.vecBudgetPayments[(nBlockHeight - budget.getBlockStart).toNat]? =
      some payment ∧ budget.getBlockStart ≤ nBlockHeight := by
  obtain ⟨start, finish⟩ := Bool.and_eq_true_iff.mp covered
  have started : budget.getBlockStart ≤ nBlockHeight := of_decide_eq_true start
  have finished : nBlockHeight ≤ budget.getBlockEnd := of_decide_eq_true finish
  unfold getBlockEnd at finished
  unfold getBlockStart at started ⊢
  have inside : (nBlockHeight - budget.nBlockStart).toNat < budget.vecBudgetPayments.length := by
    omega
  exact ⟨_, getElem?_eq_getElem inside, started⟩

theorem getPayeeAndAmount_of_covers (covered : budget.covers nBlockHeight = true) :
    ∃ payment, budget.getPayeeAndAmount nBlockHeight = some payment := by
  obtain ⟨payment, found, started⟩ := covers_payee covered
  refine ⟨(payment.payee, payment.nAmount), ?_⟩
  rw [getPayeeAndAmount, if_neg (by omega), found]
  rfl

theorem isTransactionValid_of_output {payee : CScript} {nAmount : Int} {txNew : CTransaction}
    (asked : budget.getPayeeAndAmount nBlockHeight = some (payee, nAmount))
    (paid : (⟨nAmount, payee⟩ : CTxOut) ∈ txNew.vout) :
    budget.isTransactionValid txNew nBlockHeight = true := by
  unfold getPayeeAndAmount at asked
  dsimp only at asked
  split at asked
  · cases asked
  · next started =>
      obtain ⟨payment, found, same⟩ := map_eq_some_iff.mp asked
      cases same
      rw [CFinalizedBudget.isTransactionValid, if_neg started, found]
      exact List.any_eq_true.mpr ⟨_, paid, by simp⟩

/-- What the loop of `FillBlockPayee` ends with, in terms of the selection. -/
theorem foldl_keepBudgetPayment (budgets : FinalizedBudgets) (nBlockHeight : Int) :
    budgets.entries.foldl (keepBudgetPayment nBlockHeight) (0, [], 0) =
      let best := selectHighest (fun entry => entry.2.getVoteCount)
        (fun entry => entry.2.covers nBlockHeight) 0 budgets.entries
      (best.1, (best.2.bind fun entry => entry.2.getPayeeAndAmount nBlockHeight).getD ([], 0)) := by
  refine foldl_eq_of_selectHighest _
    (fun best => (best.1, (best.2.bind fun entry =>
      entry.2.getPayeeAndAmount nBlockHeight).getD ([], 0)))
    0 budgets.entries ?_
  intro best entry
  unfold keepHigher keepBudgetPayment
  by_cases higher : entry.2.getVoteCount > best.1 ∧ entry.2.covers nBlockHeight = true
  · obtain ⟨payment, found⟩ := getPayeeAndAmount_of_covers higher.2
    rw [if_pos higher, if_pos higher, found]
    simp [found]
  · rw [if_neg higher, if_neg higher]

variable {budgets : FinalizedBudgets}

/-- The budget that the loop of `FillBlockPayee` ends with in a budget payment block. -/
theorem payment_selected {countEnabled : Int} (counted : 0 ≤ countEnabled)
    (pays : budgets.isBudgetPaymentBlock countEnabled nBlockHeight = true) :
    ∃ entry ∈ budgets.entries, ∃ payee nAmount,
      entry.2.covers nBlockHeight = true ∧
      entry.2.getVoteCount = budgets.highestCount 0 nBlockHeight ∧
      entry.2.getPayeeAndAmount nBlockHeight = some (payee, nAmount) ∧
      countEnabled / 20 < budgets.highestCount 0 nBlockHeight ∧
      budgets.entries.foldl (keepBudgetPayment nBlockHeight) (0, [], 0) =
        (budgets.highestCount 0 nBlockHeight, payee, nAmount) := by
  have reached : countEnabled / 20 < budgets.highestCount 0 nBlockHeight := by
    have above := of_decide_eq_true pays
    rw [highestCount_eq] at above ⊢
    have some_votes : -1 < (selectHighest
        (fun entry : Sigma fun _ : Uint256 => CFinalizedBudget => entry.2.getVoteCount)
        (fun entry => entry.2.covers nBlockHeight) (-1) budgets.entries).1 := by
      omega
    obtain ⟨entry, member, covered, found⟩ := selectHighest_of_lt some_votes
    rw [found] at above
    exact Int.lt_of_lt_of_le above (le_selectHighest member covered)
  have positive : 0 < budgets.highestCount 0 nBlockHeight := by omega
  rw [highestCount_eq] at positive
  obtain ⟨entry, member, covered, found⟩ := selectHighest_of_lt positive
  obtain ⟨⟨payee, nAmount⟩, asked⟩ := getPayeeAndAmount_of_covers covered
  have votes : entry.2.getVoteCount = budgets.highestCount 0 nBlockHeight := by
    rw [highestCount_eq, found]
  refine ⟨entry, member, payee, nAmount, covered, votes, asked, reached, ?_⟩
  rw [foldl_keepBudgetPayment, found]
  simp [asked, votes]

theorem isTransactionValid_iff {countEnabled : Int} {txNew : CTransaction}
    {entry : Sigma fun _ : Uint256 => CFinalizedBudget} (counted : 0 ≤ countEnabled)
    (member : entry ∈ budgets.entries) (covered : entry.2.covers nBlockHeight = true)
    (votes : entry.2.getVoteCount = budgets.highestCount 0 nBlockHeight)
    (reached : countEnabled / 20 < budgets.highestCount 0 nBlockHeight)
    (paid : entry.2.isTransactionValid txNew nBlockHeight = true) :
    budgets.isTransactionValid countEnabled txNew nBlockHeight = true ↔ 10 ≤ countEnabled := by
  rw [isTransactionValid, if_neg (by omega), List.any_eq_true]
  constructor
  · rintro ⟨other, otherMember, passed⟩
    simp only [Bool.and_eq_true, decide_eq_true_eq] at passed
    have bounded : other.2.getVoteCount ≤ budgets.highestCount 0 nBlockHeight := by
      rw [highestCount_eq]
      exact le_selectHighest otherMember passed.1.2
    omega
  · intro many
    refine ⟨entry, member, ?_⟩
    simp only [Bool.and_eq_true, decide_eq_true_eq]
    exact ⟨⟨by omega, covered⟩, paid⟩

theorem fillBlockPayee_paid {params : CChainParams} {pindexPrev : CBlockIndex}
    {txNew : CMutableTransaction} {fProofOfStake : Bool} {votes : Int} {payee : CScript}
    {nAmount : Int} (outputs : txNew.vout ≠ [])
    (selected : budgets.entries.foldl (keepBudgetPayment (pindexPrev.nHeight + 1)) (0, [], 0) =
      (votes, payee, nAmount)) (positive : 0 < votes) :
    ∃ filled, budgets.fillBlockPayee params pindexPrev txNew fProofOfStake = some filled ∧
      (⟨nAmount, payee⟩ : CTxOut) ∈ filled.vout := by
  unfold fillBlockPayee
  rw [selected]
  dsimp only
  cases fProofOfStake with
  | true =>
    rw [if_pos rfl, if_pos positive]
    exact ⟨_, rfl, by simp⟩
  | false =>
    rw [if_neg Bool.false_ne_true]
    obtain ⟨first, rest, shape⟩ := exists_cons_of_ne_nil outputs
    rw [shape]
    dsimp only
    rw [if_pos positive, resizeOutputs_two]
    exact ⟨_, rfl, mem_cons_of_mem _ mem_cons_self⟩

end FinalizedBudgets

/-! ## Votes for a payee -/

namespace CMasternodeBlockPayees

/-- The payee has the signatures that make its payment compulsory. -/
def Signed (payees : CMasternodeBlockPayees) (payee : CMasternodePayee) : Prop :=
  payee ∈ payees.vecPayments ∧ mnPaymentsSignaturesRequired ≤ payee.nVotes

theorem required_le_foldl (payments : List CMasternodePayee) (start : Int) :
    mnPaymentsSignaturesRequired ≤ payments.foldl
      (fun nMaxSignatures payee =>
        if payee.nVotes ≥ nMaxSignatures ∧ payee.nVotes ≥ mnPaymentsSignaturesRequired then
          payee.nVotes
        else nMaxSignatures)
      start ↔
      mnPaymentsSignaturesRequired ≤ start ∨
        ∃ payee ∈ payments, mnPaymentsSignaturesRequired ≤ payee.nVotes := by
  induction payments generalizing start with
  | nil => simp
  | cons head rest ih =>
    rw [foldl_cons, ih]
    simp only [exists_mem_cons_iff]
    split
    · next signed => exact ⟨fun _ => Or.inr (Or.inl signed.2), fun _ => Or.inl signed.2⟩
    · next unsigned =>
        -- a signed entry that is not kept is below a number that is itself signed
        have below : mnPaymentsSignaturesRequired ≤ head.nVotes →
            mnPaymentsSignaturesRequired ≤ start := by
          intro enough
          have : ¬ head.nVotes ≥ start := fun more => unsigned ⟨more, enough⟩
          omega
        tauto

theorem required_le_maxSignatures (payees : CMasternodeBlockPayees) :
    mnPaymentsSignaturesRequired ≤ payees.maxSignatures ↔ ∃ payee, payees.Signed payee := by
  rw [maxSignatures, required_le_foldl]
  have low : ¬ mnPaymentsSignaturesRequired ≤ 0 := by decide
  exact ⟨fun either => either.resolve_left low, Or.inr⟩

theorem getPayee_signed {payees : CMasternodeBlockPayees}
    (signed : ∃ payee, payees.Signed payee) :
    ∃ payee, payees.Signed payee ∧ payees.getPayee = some payee.scriptPubKey := by
  obtain ⟨known, member, enough⟩ := signed
  have loop := foldl_keepMostVoted_eq payees.vecPayments
  have reached : known.nVotes ≤
      (selectHighest CMasternodePayee.nVotes (fun _ => true) (-1) payees.vecPayments).1 :=
    le_selectHighest member rfl
  have six : mnPaymentsSignaturesRequired = 6 := rfl
  have some_votes : -1 <
      (selectHighest CMasternodePayee.nVotes (fun _ => true) (-1) payees.vecPayments).1 := by
    omega
  obtain ⟨payee, listed, _, found⟩ := selectHighest_of_lt some_votes
  rw [found] at reached loop
  refine ⟨payee, ⟨listed, enough.trans reached⟩, ?_⟩
  rw [getPayee, loop]
  exact if_pos (show payee.nVotes > -1 by omega)

end CMasternodeBlockPayees

/-! ## Block values at adjacent heights -/

/-- The brackets of the subsidy table above the genesis block, by their upper ends. -/
def subsidyBracket (nHeight : Int) : Int :=
  if nHeight ≤ 140159 then coin
  else if nHeight ≤ 280319 then coin / 2
  else if nHeight ≤ 420479 then coin / 4
  else if nHeight ≤ 560639 then coin / 8
  else if nHeight ≤ 700799 then 6250000
  else if nHeight ≤ 840959 then 3125000
  else if nHeight ≤ 981119 then 1562500
  else if nHeight ≤ 1121279 then coin / 128
  else if nHeight ≤ 50000000 then 390625
  else 195312

variable {nHeight finish value : Int}

section

variable
  {start rest bound rest' low high lowRest highRest maxMoneyOut nMoneySupply small large nSubsidy : Int}
  {params : CChainParams} {tip : CBlockIndex}

theorem bracket_eq (started : start ≤ nHeight)
    (same : ¬ nHeight ≤ finish → rest = rest') :
    (if start ≤ nHeight ∧ nHeight ≤ finish then value else rest) =
      if nHeight ≤ finish then value else rest' := by
  by_cases inside : nHeight ≤ finish
  · rw [if_pos ⟨started, inside⟩, if_pos inside]
  · rw [if_neg (fun both => inside both.2), if_neg inside, same inside]

theorem blockSubsidy_eq_bracket (start : 0 < nHeight) :
    blockSubsidy nHeight = subsidyBracket nHeight := by
  unfold blockSubsidy subsidyBracket
  rw [if_neg (by omega)]
  repeat refine bracket_eq (by omega) (fun _ => ?_)
  rfl

theorem bracket_antitone (order : low ≤ high)
    (falls : highRest ≤ lowRest ∧ highRest ≤ value) :
    (if high ≤ finish then value else highRest) ≤ if low ≤ finish then value else lowRest := by
  split <;> split <;> omega

theorem bracket_le (here : value ≤ bound) (later : rest ≤ bound) :
    (if nHeight ≤ finish then value else rest) ≤ bound := by
  split
  · exact here
  · exact later

theorem subsidyBracket_antitone (order : low ≤ high) :
    subsidyBracket high ≤ subsidyBracket low := by
  unfold subsidyBracket
  repeat refine bracket_antitone order ⟨?_, by (repeat refine bracket_le (by decide) ?_); decide⟩
  exact Int.le_refl _

theorem blockSubsidy_le_coin (start : 0 < nHeight) : blockSubsidy nHeight ≤ coin := by
  rw [blockSubsidy_eq_bracket start]
  exact subsidyBracket_antitone (show 1 ≤ nHeight from start)

theorem blockSubsidy_succ_le (start : 0 ≤ nHeight) :
    blockSubsidy (nHeight + 1) ≤ blockSubsidy nHeight := by
  rcases Int.lt_or_eq_of_le start with above | rfl
  · rw [blockSubsidy_eq_bracket above, blockSubsidy_eq_bracket (by omega)]
    exact subsidyBracket_antitone (by omega)
  · decide

theorem capSubsidy_le (limit : maxMoneyOut < 2 ^ 63)
    (supply : -2 ^ 63 ≤ nMoneySupply) (low : 0 ≤ nSubsidy) (high : nSubsidy ≤ 200000 * coin) :
    capSubsidy maxMoneyOut nMoneySupply nSubsidy ≤ nSubsidy := by
  unfold coin at high
  unfold capSubsidy
  dsimp only
  split
  · exact low
  · unfold toInt64
    split <;> omega

theorem capSubsidy_mono
    (limit : maxMoneyOut < 2 ^ 63) (supply : -2 ^ 63 ≤ nMoneySupply) (low : 0 ≤ small)
    (order : small ≤ large) (high : large ≤ 200000 * coin) :
    capSubsidy maxMoneyOut nMoneySupply small ≤ capSubsidy maxMoneyOut nMoneySupply large := by
  unfold coin at high
  unfold capSubsidy
  dsimp only
  split
  · exact Int.le_refl 0
  · unfold toInt64
    split <;> split <;> omega

theorem getBlockValue_succ_le (supply : -2 ^ 63 ≤ tip.nMoneySupply) (start : 0 ≤ nHeight)
    (staked : params.lastPowBlock ≤ nHeight + 1) :
    getBlockValue params tip (nHeight + 1) ≤ getBlockValue params tip nHeight := by
  have limit := params.maxMoneyOut_lt
  obtain ⟨_, high⟩ := blockSubsidy_range nHeight
  obtain ⟨nextLow, nextHigh⟩ := blockSubsidy_range (nHeight + 1)
  unfold getBlockValue
  rw [if_neg (fun impossible => absurd impossible.2.1 (by omega))]
  split
  · calc
      capSubsidy params.maxMoneyOut tip.nMoneySupply (blockSubsidy (nHeight + 1))
          ≤ blockSubsidy (nHeight + 1) := capSubsidy_le limit supply nextLow nextHigh
      _ ≤ coin := blockSubsidy_le_coin (by omega)
      _ ≤ 20 * coin := by decide
  · exact capSubsidy_mono limit supply nextLow (blockSubsidy_succ_le start) high

theorem getMasternodePayment_mono (supply : -2 ^ 63 ≤ tip.nMoneySupply) (start : 0 ≤ nHeight)
    (edge : nHeight + 1 ≠ params.lastPowBlock) :
    getMasternodePayment params (nHeight + 1) (getBlockValue params tip (nHeight + 1)) ≤
      getMasternodePayment params nHeight (getBlockValue params tip nHeight) := by
  have low : 0 ≤ getBlockValue params tip nHeight := getBlockValue_nonneg supply
  have nextLow : 0 ≤ getBlockValue params tip (nHeight + 1) := getBlockValue_nonneg supply
  unfold getMasternodePayment
  by_cases before : nHeight + 1 < params.lastPowBlock
  · rw [if_pos (Or.inl before), if_pos (Or.inl (by omega))]
  · have falls := getBlockValue_succ_le supply start (Int.not_lt.mp before)
    split <;> split <;> omega

end

namespace CMasternodePayments

/-- What the payment of a height has to be worth. -/
def requiredPayment (params : CChainParams) (tip : CBlockIndex) (nBlockHeight : Int) : Int :=
  getMasternodePayment params nBlockHeight (getBlockValue params tip nBlockHeight)

/-- The validator asks for an output to a signed payee as soon as there is one. -/
theorem isTransactionValid_iff {params : CChainParams} {tip : CBlockIndex}
    {payments : CMasternodePayments} {txNew : CTransaction} {nBlockHeight : Int} :
    payments.isTransactionValid params tip txNew nBlockHeight = true ↔
      ((∃ payee, (payments.blockPayees nBlockHeight).Signed payee) →
        ∃ payee, (payments.blockPayees nBlockHeight).Signed payee ∧
          ∃ out ∈ txNew.vout, payee.scriptPubKey = out.scriptPubKey ∧
            requiredPayment params tip nBlockHeight ≤ out.nValue) := by
  unfold CMasternodePayments.isTransactionValid blockPayees
  cases found : payments.mapMasternodeBlocks.lookup nBlockHeight with
  | none =>
    refine ⟨fun _ signed => ?_, fun _ => rfl⟩
    obtain ⟨payee, member, _⟩ := signed
    cases member
  | some payees =>
    have keyed := payments.blocksKeyed nBlockHeight payees found
    simp only [getD_some, CMasternodeBlockPayees.isTransactionValid, keyed]
    rw [← payees.required_le_maxSignatures]
    by_cases few : payees.maxSignatures < mnPaymentsSignaturesRequired
    · rw [if_pos few]
      exact ⟨fun _ enough => absurd enough (Int.not_le.mpr few), fun _ => rfl⟩
    · rw [if_neg few]
      have enough := Int.not_lt.mp few
      simp only [List.any_eq_true, Bool.and_eq_true, decide_eq_true_eq, enough, true_implies,
        CMasternodeBlockPayees.Signed, and_assoc, requiredPayment, ge_iff_le]

theorem getBlockPayee_signed {payments : CMasternodePayments} {nBlockHeight : Int}
    (signed : ∃ payee, (payments.blockPayees nBlockHeight).Signed payee) :
    ∃ payee, (payments.blockPayees nBlockHeight).Signed payee ∧
      payments.getBlockPayee nBlockHeight = some payee.scriptPubKey := by
  obtain ⟨payee, holds, selected⟩ := CMasternodeBlockPayees.getPayee_signed signed
  refine ⟨payee, holds, ?_⟩
  unfold blockPayees at holds selected
  unfold getBlockPayee
  cases found : payments.mapMasternodeBlocks.lookup nBlockHeight with
  | none =>
    rw [found] at holds
    cases holds.1
  | some payees =>
    rw [found] at selected
    exact selected

section Fill

variable {params : CChainParams} {pindexPrev : CBlockIndex} {payments : CMasternodePayments}
  {currentMasterNode : Option CScript} {txNew : CMutableTransaction}

theorem fillBlockPayee_coinbase {first : CTxOut} {rest : List CTxOut} {payee : CScript}
    (shape : txNew.vout = first :: rest)
    (selected : payments.getBlockPayee (pindexPrev.nHeight + 1) = some payee) :
    payments.fillBlockPayee params pindexPrev currentMasterNode txNew false =
      some { txNew with
        vout :=
          [⟨getBlockValue params pindexPrev pindexPrev.nHeight -
              requiredPayment params pindexPrev pindexPrev.nHeight, first.scriptPubKey⟩,
            ⟨requiredPayment params pindexPrev pindexPrev.nHeight, payee⟩] } := by
  unfold CMasternodePayments.fillBlockPayee
  rw [selected, some_or, shape]
  dsimp only
  rw [if_neg Bool.false_ne_true, resizeOutputs_two]
  rfl

theorem fillBlockPayee_isSome (fProofOfStake : Bool) (outputs : txNew.vout ≠ []) :
    ∃ filled,
      payments.fillBlockPayee params pindexPrev currentMasterNode txNew fProofOfStake =
        some filled := by
  unfold CMasternodePayments.fillBlockPayee
  dsimp only
  split
  · exact ⟨txNew, rfl⟩
  · cases fProofOfStake with
    | true =>
      rw [if_pos rfl, subtractFromLast, getLast?_eq_some_getLast outputs]
      exact ⟨_, rfl⟩
    | false =>
      rw [if_neg Bool.false_ne_true]
      exact ⟨_, rfl⟩

theorem fillBlockPayee_paid {fProofOfStake : Bool} {payee : CScript}
    {filled : CMutableTransaction} (outputs : txNew.vout ≠ [])
    (selected : payments.getBlockPayee (pindexPrev.nHeight + 1) = some payee)
    (done : payments.fillBlockPayee params pindexPrev currentMasterNode txNew fProofOfStake =
      some filled) :
    (⟨requiredPayment params pindexPrev pindexPrev.nHeight, payee⟩ : CTxOut) ∈ filled.vout := by
  cases fProofOfStake with
  | true =>
    unfold CMasternodePayments.fillBlockPayee at done
    rw [selected, some_or] at done
    dsimp only at done
    rw [if_pos rfl] at done
    obtain ⟨vout, _, rfl⟩ := map_eq_some_iff.mp done
    exact mem_append_right _ (mem_singleton.mpr rfl)
  | false =>
    obtain ⟨first, rest, shape⟩ := exists_cons_of_ne_nil outputs
    rw [fillBlockPayee_coinbase shape selected] at done
    cases done
    exact mem_cons_of_mem _ (mem_singleton.mpr rfl)

end Fill

end CMasternodePayments

open CMasternodePayments

/-! ## Agreement -/

namespace PayeeNode

/-- The block carries the transaction at the place where the validator of the height looks
for the payee. -/
def Carries (params : CChainParams) (block : CBlock) (nBlockHeight : Int)
    (txNew : CMutableTransaction) : Prop :=
  ((if nBlockHeight > params.lastPowBlock then block.vtx[1]? else block.vtx[0]?).map
    CTransaction.toMutable) = some txNew

/-- The producer completes the transaction, and the validator accepts the payee of
every block that carries the result. -/
def FilledAccepted (payer : PayeeNode) (tip : CBlockIndex) (txNew : CMutableTransaction) : Prop :=
  ∃ filled,
    payer.fillBlockPayee txNew (decide (tip.nHeight + 1 > payer.node.params.lastPowBlock)) =
      some filled ∧
    ∀ block, Carries payer.node.params block (tip.nHeight + 1) filled →
      isBlockPayeeValid (payer.validator tip) block (tip.nHeight + 1) = some true

/-- The condition for the masternode payment of the last proof-of-work block, where the
producer pays nothing: nothing is required, no payee is signed, or the miner is a
signed payee. -/
def MinerCovers (payer : PayeeNode) (tip : CBlockIndex) (txNew : CMutableTransaction) : Prop :=
  getBlockValue payer.node.params tip (tip.nHeight + 1) ≤ 1 ∨
    ((∃ payee, (payer.masternodePayments.blockPayees (tip.nHeight + 1)).Signed payee) →
      ∃ payee, (payer.masternodePayments.blockPayees (tip.nHeight + 1)).Signed payee ∧
        txNew.vout.head?.map CTxOut.scriptPubKey = some payee.scriptPubKey)

/-- When producer and validator agree. -/
def PayeesAgree (payer : PayeeNode) (tip : CBlockIndex) (txNew : CMutableTransaction) : Prop :=
  if payer.paysBudget (tip.nHeight + 1) then
    payer.node.sporkActive .masternodeBudgetEnforcement = true → 10 ≤ payer.node.countEnabled
  else
    payer.node.sporkActive .masternodePaymentEnforcement = true →
      tip.nHeight + 1 = payer.node.params.lastPowBlock → payer.MinerCovers tip txNew

/-- The answer of the validator on a transaction. -/
def accepts (payer : PayeeNode) (tip : CBlockIndex) (txNew : CTransaction) : Bool :=
  if payer.paysBudget (tip.nHeight + 1) then
    payer.node.mapFinalizedBudgets.isTransactionValid payer.node.countEnabled txNew
        (tip.nHeight + 1) ||
      !payer.node.sporkActive .masternodeBudgetEnforcement
  else
    payer.masternodePayments.isTransactionValid payer.node.params tip txNew (tip.nHeight + 1) ||
      !payer.node.sporkActive .masternodePaymentEnforcement

section Agreement

variable {payer : PayeeNode} {tip : CBlockIndex} {txNew filled : CMutableTransaction}

variable {tx : CTransaction}

theorem isBlockPayeeValid_eq {block : CBlock} (synced : payer.node.masternodeSynced = true)
    (placed : (if (tip.nHeight + 1 : Int) > payer.node.params.lastPowBlock then block.vtx[1]?
      else block.vtx[0]?) = some tx) :
    isBlockPayeeValid (payer.validator tip) block (tip.nHeight + 1) =
      some (payer.accepts tip tx) := by
  unfold isBlockPayeeValid accepts paysBudget validator
  dsimp only
  rw [synced, placed]
  rfl

theorem carried_valid_iff (synced : payer.node.masternodeSynced = true) :
    (∀ block, Carries payer.node.params block (tip.nHeight + 1) filled →
      isBlockPayeeValid (payer.validator tip) block (tip.nHeight + 1) = some true) ↔
      ∀ tx, tx.toMutable = filled → payer.accepts tip tx = true := by
  constructor
  · intro valid tx same
    have placed : (if (tip.nHeight + 1 : Int) > payer.node.params.lastPowBlock then
        [tx, tx][1]? else [tx, tx][0]?) = some tx := by
      split <;> rfl
    have carried : Carries payer.node.params { hash := 0, hashPrevBlock := 0, vtx := [tx, tx] }
        (tip.nHeight + 1) filled := by
      unfold Carries
      rw [placed, map_some, same]
    have passed := valid _ carried
    rw [isBlockPayeeValid_eq synced placed] at passed
    exact Option.some.inj passed
  · intro valid block carried
    obtain ⟨tx, placed, same⟩ := map_eq_some_iff.mp carried
    rw [isBlockPayeeValid_eq synced placed, valid tx same]

theorem filledAccepted_iff (synced : payer.node.masternodeSynced = true)
    (done : payer.fillBlockPayee txNew
      (decide ((tip.nHeight + 1 : Int) > payer.node.params.lastPowBlock)) = some filled) :
    payer.FilledAccepted tip txNew ↔
      ∀ tx, tx.toMutable = filled → payer.accepts tip tx = true := by
  rw [← carried_valid_iff synced]
  constructor
  · rintro ⟨other, same, valid⟩
    cases done.symm.trans same
    exact valid
  · exact fun valid => ⟨filled, done, valid⟩

theorem filledAccepted_iff_of_answer {condition : Prop}
    (synced : payer.node.masternodeSynced = true)
    (done : payer.fillBlockPayee txNew
      (decide ((tip.nHeight + 1 : Int) > payer.node.params.lastPowBlock)) = some filled)
    (answer : ∀ tx : CTransaction, tx.toMutable = filled →
      (payer.accepts tip tx = true ↔ condition)) :
    payer.FilledAccepted tip txNew ↔ condition := by
  rw [filledAccepted_iff synced done]
  constructor
  · intro valid
    exact (answer ⟨0, filled.nVersion, filled.vin, filled.vout, filled.nLockTime⟩ rfl).mp
      (valid _ rfl)
  · exact fun holds tx same => (answer tx same).mpr holds

/-- A budget payment block is accepted without enforcement or from ten masternodes on. -/
theorem budget_accepted_iff (found : payer.node.tip = some tip)
    (synced : payer.node.masternodeSynced = true) (outputs : txNew.vout ≠ [])
    (pays : payer.paysBudget (tip.nHeight + 1) = true) :
    payer.FilledAccepted tip txNew ↔
      (payer.node.sporkActive .masternodeBudgetEnforcement = true →
        10 ≤ payer.node.countEnabled) := by
  have counted : (0 : Int) ≤ payer.node.countEnabled := Int.natCast_nonneg _
  obtain ⟨entry, member, payee, nAmount, covered, votes, asked, reached, selected⟩ :=
    FinalizedBudgets.payment_selected counted (Bool.and_eq_true_iff.mp pays).2
  obtain ⟨filled, completed, paid⟩ := FinalizedBudgets.fillBlockPayee_paid outputs selected
    (Int.lt_of_le_of_lt (Int.ediv_nonneg counted (by decide)) reached)
  have done : payer.fillBlockPayee txNew
      (decide ((tip.nHeight + 1 : Int) > payer.node.params.lastPowBlock)) = some filled := by
    unfold fillBlockPayee
    rw [found]
    dsimp only
    rw [if_pos pays]
    exact completed
  refine filledAccepted_iff_of_answer synced done ?_
  rintro tx rfl
  have valid := FinalizedBudgets.isTransactionValid_iff counted member covered votes reached
    (FinalizedBudgets.isTransactionValid_of_output asked paid)
  have ten : (10 : Int) ≤ payer.node.countEnabled ↔ 10 ≤ payer.node.countEnabled := by omega
  rw [accepts, if_pos pays, Bool.or_eq_true, valid, Bool.not_eq_true', ← Bool.not_eq_true, ten]
  tauto

/-- The masternode payment of the last proof-of-work block, whose coinbase pays the whole
value to the miner and nothing to the payee. -/
theorem coinbase_valid_iff {first : CTxOut} {rest : List CTxOut}
    (supply : -2 ^ 63 ≤ tip.nMoneySupply)
    (edge : (tip.nHeight + 1 : Int) = payer.node.params.lastPowBlock)
    (signed : ∃ payee, (payer.masternodePayments.blockPayees (tip.nHeight + 1)).Signed payee)
    (shape : txNew.vout = first :: rest)
    (done : payer.masternodePayments.fillBlockPayee payer.node.params tip payer.currentMasterNode
      txNew false = some tx.toMutable) :
    payer.masternodePayments.isTransactionValid payer.node.params tip tx (tip.nHeight + 1) = true ↔
      payer.MinerCovers tip txNew := by
  obtain ⟨known, knownSigned, selected⟩ := getBlockPayee_signed signed
  have nothing : requiredPayment payer.node.params tip tip.nHeight = 0 :=
    if_pos (Or.inl (by omega))
  have outs : tx.vout =
      [⟨getBlockValue payer.node.params tip tip.nHeight, first.scriptPubKey⟩,
        ⟨0, known.scriptPubKey⟩] := by
    rw [fillBlockPayee_coinbase shape selected, nothing, Int.sub_zero] at done
    exact congrArg CMutableTransaction.vout (Option.some.inj done).symm
  have low : 0 ≤ getBlockValue payer.node.params tip (tip.nHeight + 1) :=
    getBlockValue_nonneg supply
  have falls : getBlockValue payer.node.params tip (tip.nHeight + 1) ≤
      getBlockValue payer.node.params tip tip.nHeight :=
    getBlockValue_succ_le supply (Int.natCast_nonneg tip.nHeight) (by omega)
  have required : requiredPayment payer.node.params tip (tip.nHeight + 1) =
      3 * getBlockValue payer.node.params tip (tip.nHeight + 1) / 4 := by
    unfold requiredPayment getMasternodePayment
    split <;> omega
  rw [isTransactionValid_iff, outs, required, MinerCovers, shape]
  constructor
  · intro valid
    obtain ⟨payee, payeeSigned, out, member, same, enough⟩ := valid signed
    rcases mem_cons.mp member with rfl | second
    · exact Or.inr fun _ => ⟨payee, payeeSigned, congrArg some same.symm⟩
    · cases mem_singleton.mp second
      exact Or.inl (by dsimp only at enough; omega)
  · rintro (worthless | miner) _
    · exact ⟨known, knownSigned, _, mem_cons_of_mem _ (mem_singleton.mpr rfl), rfl,
        by dsimp only; omega⟩
    · obtain ⟨payee, payeeSigned, same⟩ := miner signed
      exact ⟨payee, payeeSigned, _, mem_cons_self, (Option.some.inj same).symm,
        by dsimp only; omega⟩

/-- The masternode payment that the producer fills in passes, but for the last
proof-of-work block. -/
theorem payment_valid_iff (supply : -2 ^ 63 ≤ tip.nMoneySupply) (outputs : txNew.vout ≠ [])
    (done : payer.masternodePayments.fillBlockPayee payer.node.params tip payer.currentMasterNode
      txNew (decide ((tip.nHeight + 1 : Int) > payer.node.params.lastPowBlock)) =
        some tx.toMutable) :
    payer.masternodePayments.isTransactionValid payer.node.params tip tx (tip.nHeight + 1) = true ↔
      ((tip.nHeight + 1 : Int) = payer.node.params.lastPowBlock →
        payer.MinerCovers tip txNew) := by
  by_cases signed : ∃ payee, (payer.masternodePayments.blockPayees (tip.nHeight + 1)).Signed payee
  · by_cases edge : (tip.nHeight + 1 : Int) = payer.node.params.lastPowBlock
    · obtain ⟨first, rest, shape⟩ := exists_cons_of_ne_nil outputs
      have mined : decide ((tip.nHeight + 1 : Int) > payer.node.params.lastPowBlock) = false :=
        decide_eq_false (by omega)
      rw [mined] at done
      rw [coinbase_valid_iff supply edge signed shape done]
      exact ⟨fun holds _ => holds, fun holds => holds edge⟩
    · obtain ⟨known, knownSigned, selected⟩ := getBlockPayee_signed signed
      have paid := fillBlockPayee_paid outputs selected done
      have enough := getMasternodePayment_mono supply (Int.natCast_nonneg tip.nHeight) edge
      rw [isTransactionValid_iff]
      exact ⟨fun _ impossible => absurd impossible edge,
        fun _ _ => ⟨known, knownSigned, _, paid, rfl, enough⟩⟩
  · rw [isTransactionValid_iff]
    exact ⟨fun _ _ => Or.inr fun impossible => absurd impossible signed,
      fun _ impossible => absurd impossible signed⟩

theorem masternode_accepted_iff (found : payer.node.tip = some tip)
    (supply : -2 ^ 63 ≤ tip.nMoneySupply) (synced : payer.node.masternodeSynced = true)
    (outputs : txNew.vout ≠ []) (pays : payer.paysBudget (tip.nHeight + 1) ≠ true) :
    payer.FilledAccepted tip txNew ↔
      (payer.node.sporkActive .masternodePaymentEnforcement = true →
        (tip.nHeight + 1 : Int) = payer.node.params.lastPowBlock →
          payer.MinerCovers tip txNew) := by
  obtain ⟨filled, completed⟩ := fillBlockPayee_isSome
    (decide ((tip.nHeight + 1 : Int) > payer.node.params.lastPowBlock)) outputs
  have done : payer.fillBlockPayee txNew
      (decide ((tip.nHeight + 1 : Int) > payer.node.params.lastPowBlock)) = some filled := by
    unfold fillBlockPayee
    rw [found]
    dsimp only
    rw [if_neg pays]
    exact completed
  refine filledAccepted_iff_of_answer synced done ?_
  rintro tx rfl
  rw [accepts, if_neg pays, Bool.or_eq_true, Bool.not_eq_true', ← Bool.not_eq_true,
    payment_valid_iff supply outputs completed]
  tauto

/-- The validator accepts the payee that the producer filled in exactly when no edge is hit. -/
theorem filled_payee_accepted_iff (payer : PayeeNode) (tip : CBlockIndex)
    (txNew : CMutableTransaction) (found : payer.node.tip = some tip)
    (supply : -2 ^ 63 ≤ tip.nMoneySupply) (synced : payer.node.masternodeSynced = true)
    (outputs : txNew.vout ≠ []) :
    payer.FilledAccepted tip txNew ↔ payer.PayeesAgree tip txNew := by
  unfold PayeesAgree
  by_cases pays : payer.paysBudget (tip.nHeight + 1) = true
  · rw [if_pos pays]
    exact budget_accepted_iff found synced outputs pays
  · rw [if_neg pays]
    exact masternode_accepted_iff found supply synced outputs pays

end Agreement

end PayeeNode

namespace Sample

def ballot (n : Nat) : CFinalizedBudgetVote :=
  { vin := { prevout := ⟨30, n⟩ }, nBudgetHash := 40, nTime := 0, nTime_range := isInt64_zero }

/-- A budget that pays seven units at height 43200, with two votes. -/
def superblock : CFinalizedBudget where
  strBudgetName := "main"
  nBlockStart := 43200
  vecBudgetPayments := [{ payee := [5], nAmount := 7 }]
  mapVotes := ((∅ : StdMap Uint256 CFinalizedBudgetVote).insert 50 (ballot 0)).insert 51 (ballot 1)

def votedPayments (nBlockHeight : Int) : CMasternodePayments where
  mapMasternodeBlocks := (∅ : StdMap Int CMasternodeBlockPayees).insert nBlockHeight
    { nBlockHeight := nBlockHeight, vecPayments := [{ scriptPubKey := [6], nVotes := 6 }] }
  blocksKeyed := by
    intro height payees found
    rw [StdMap.lookup_insert_ite] at found
    split at found
    · next same =>
        cases found
        exact same.symm
    · cases found

/-- A synced node that enforces both kinds of payments. -/
def payer (tipHeight countEnabled : Nat) : PayeeNode where
  node := { node true tipHeight with
    masternodeSynced := true
    sporkActive := fun _ => true
    mapFinalizedBudgets := (∅ : FinalizedBudgets).insert 40 superblock
    countEnabled := countEnabled }
  masternodePayments := votedPayments 200
  currentMasterNode := none

end Sample

namespace PayeeNode

theorem filled_payee_accepted_superblock :
    (Sample.payer 43199 20).paysBudget 43200 = true ∧
      (Sample.payer 43199 20).FilledAccepted (Sample.parent 43199)
        Sample.coinstake.toMutable := by
  refine ⟨by decide, ?_⟩
  refine (filled_payee_accepted_iff (Sample.payer 43199 20) (Sample.parent 43199)
    Sample.coinstake.toMutable rfl (by decide) rfl (by decide)).mpr ?_
  exact fun _ => by decide

/-- With nine enabled masternodes the validator turns down the payment of the only
budget, and at the last proof-of-work block the payment of the only payee. -/
theorem filled_payee_refused :
    (∃ filled block, (Sample.payer 43199 9).fillBlockPayee Sample.coinstake.toMutable true =
        some filled ∧
      Carries mainParams block 43200 filled ∧
      isBlockPayeeValid ((Sample.payer 43199 9).validator (Sample.parent 43199)) block 43200 =
        some false) ∧
    ∃ filled block, (Sample.payer 199 9).fillBlockPayee Sample.coinbase.toMutable false =
        some filled ∧
      Carries mainParams block 200 filled ∧
      isBlockPayeeValid ((Sample.payer 199 9).validator (Sample.parent 199)) block 200 =
        some false := by
  refine ⟨⟨_, Sample.block [Sample.coinbase, { Sample.coinstake with
      vout := [⟨0, []⟩, ⟨100, [1]⟩, ⟨7, [5]⟩] }], rfl, rfl, by decide⟩,
    ⟨_, Sample.block [{ Sample.coinbase with vout := [⟨coin, []⟩, ⟨0, [6]⟩] }], rfl, rfl,
      by decide⟩⟩

end PayeeNode

end CentNode
