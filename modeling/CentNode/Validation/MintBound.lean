import CentNode.Validation.InputChecks

/-!
# What a block may mint

`IsBlockValueValid` compares the mint of a block with the block value and, for
proof of work, the fees.  A node that is not synced does not compare on the
first hundred blocks of a budget cycle.
-/

namespace CentNode

/-! ## Sums in 64 bits -/

theorem toInt64_add_left (a b : Int) : toInt64 (toInt64 a + b) = toInt64 (a + b) := by
  unfold toInt64
  omega

theorem le_toInt64 (value : Int) : -2 ^ 63 ≤ toInt64 value := by
  unfold toInt64
  omega

variable {view : FlatCoins} {total : Int}

/-- `GetValueIn` is the sum of the values in 64 bits. -/
theorem foldlM_addValueIn {vin : List CTxIn} {start : Int}
    (summed : vin.foldlM (view.addValueIn) start = some total) :
    toInt64 total = toInt64 (start + (vin.map view.valueOf).sum) := by
  induction vin generalizing start with
  | nil =>
    cases summed
    simp
  | cons txin rest ih =>
    rw [List.foldlM_cons] at summed
    obtain ⟨next, added, followed⟩ := Option.bind_eq_some_iff.mp summed
    obtain ⟨txout, found, rfl⟩ := Option.map_eq_some_iff.mp added
    have value_eq : view.valueOf txin = txout.nValue := by simp [FlatCoins.valueOf, found]
    rw [ih followed, List.map_cons, List.sum_cons, toInt64_add_left, value_eq, Int.add_assoc]

variable {tx : CTransaction}

theorem getValueIn_eq (spends : tx.isCoinBase = false) (summed : view.getValueIn tx = some total) :
    toInt64 total = toInt64 (view.valueIn tx) := by
  rw [FlatCoins.getValueIn, spends, if_neg Bool.false_ne_true] at summed
  rw [foldlM_addValueIn summed, Int.zero_add]
  rfl

theorem foldlM_addValueOut_mod {outs : List CTxOut} {start : Int}
    (summed : outs.foldlM CTransaction.addValueOut start = some total) :
    toInt64 total = toInt64 (start + (outs.map (·.nValue)).sum) := by
  induction outs generalizing start with
  | nil =>
    cases summed
    simp
  | cons out rest ih =>
    rw [List.foldlM_cons] at summed
    obtain ⟨next, added, followed⟩ := Option.bind_eq_some_iff.mp summed
    have next_eq : next = toInt64 (start + out.nValue) := by
      unfold CTransaction.addValueOut at added
      split at added
      · cases added
      · split at added
        · cases added
        · cases added
          rfl
    rw [ih followed, List.map_cons, List.sum_cons, next_eq, toInt64_add_left, Int.add_assoc]

/-! ## The fees of a block -/

/-- What a transaction leaves over; coinbase and coinstake have no fee. -/
def txFee (view : FlatCoins) (tx : CTransaction) : Int :=
  if tx.isCoinBase || tx.isCoinStake then 0 else view.valueIn tx - tx.valueOut

/-- The fees of the transactions of a block, each taken just before it is applied. -/
def blockFees (nHeight : Int) : FlatCoins → List CTransaction → Int
  | _, [] => 0
  | view, tx :: rest =>
    txFee view tx +
      match updateCoins tx view nHeight with
      | some updated => blockFees nHeight updated.1 rest
      | none => 0

theorem addFees_eq {nIn nFees : Int} (spends : tx.isCoinBase = false)
    (summed : view.getValueIn tx = some nIn) (added : addFees tx nIn nFees = .ok total) :
    toInt64 total = toInt64 (nFees + txFee view tx) := by
  unfold addFees at added
  unfold txFee
  split at added
  · next stake =>
      cases added
      simp [stake]
  · next notStake =>
      split at added
      · cases added
      · next nOut out_eq =>
          cases added
          have out_mod := foldlM_addValueOut_mod out_eq
          rw [Int.zero_add] at out_mod
          have in_mod := getValueIn_eq spends summed
          rw [spends, Bool.false_or, if_neg notStake]
          change toInt64 nOut = toInt64 tx.valueOut at out_mod
          unfold toInt64 at out_mod in_mod ⊢
          omega

variable {node : Node}

theorem checkTx_nFees {rules : BlockRules} {state checked : ConnectState}
    (passed : checkTx node rules tx state = .ok checked) :
    toInt64 checked.nFees = toInt64 (state.nFees + txFee state.view tx) := by
  simp only [checkTx] at passed
  split at passed
  · cases passed
  split at passed
  · next coinbase =>
      cases passed
      simp [txFee, coinbase]
  · next spends =>
      simp only [connectInputs] at passed
      split at passed
      · cases passed
      split at passed
      · cases passed
      split at passed
      · cases passed
      next nIn summed =>
      obtain ⟨nFees, added, rest⟩ := Checked.bind_ok.mp passed
      obtain ⟨vChecks, _, done⟩ := Checked.bind_ok.mp rest
      cases done
      exact addFees_eq (by simpa using spends) summed added

/-- The loop of `ConnectBlock` sums the fees in 64 bits. -/
theorem connectTxs_nFees {rules : BlockRules} {first : Bool} {txs : List CTransaction}
    {state final : ConnectState} (looped : connectTxs node rules first txs state = .ok final) :
    toInt64 final.nFees = toInt64 (state.nFees + blockFees rules.nHeight state.view txs) := by
  induction txs generalizing first state with
  | nil =>
    cases looped
    simp [blockFees]
  | cons tx rest ih =>
    simp only [connectTxs] at looped
    split at looped
    · cases looped
    next next stepped =>
    obtain ⟨updated, ran, moved, _⟩ := (txConnected_of_ok stepped).updated
    obtain ⟨checked, passed, applied⟩ := Checked.bind_ok.mp stepped
    have kept : next.nFees = checked.nFees := by
      simp only [applyTx] at applied
      split at applied
      · cases applied
      split at applied
      · cases applied
      cases applied
      rfl
    have here := checkTx_nFees passed
    rw [ih looped, kept, blockFees, ran, moved, ← toInt64_add_left, here, toInt64_add_left,
      Int.add_assoc]

/-! ## The block value -/

theorem blockSubsidy_range (nHeight : Int) :
    0 ≤ blockSubsidy nHeight ∧ blockSubsidy nHeight ≤ 200000 * coin := by
  unfold blockSubsidy
  -- one branch after another: `split` goes through the rest of the chain each time
  repeat
    refine iteInduction
      (motive := fun subsidy : Int => 0 ≤ subsidy ∧ subsidy ≤ 200000 * coin)
      (fun _ => by decide) fun _ => ?_
  decide

variable {tip : CBlockIndex}

theorem getBlockValue_nonneg {params : CChainParams} {nHeight : Int}
    (supply : -2 ^ 63 ≤ tip.nMoneySupply) : 0 ≤ getBlockValue params tip nHeight := by
  have limit := params.maxMoneyOut_lt
  obtain ⟨low, high⟩ := blockSubsidy_range nHeight
  unfold coin at high
  simp only [getBlockValue, capSubsidy]
  split
  · decide
  · split
    · exact le_refl 0
    · next below =>
        split
        · next reached =>
            unfold toInt64 at reached ⊢
            omega
        · exact low

/-- The fees that the bound counts, as `ConnectBlock` keeps them. -/
def countedFees (block : CBlock) (nHeight : Int) (view : FlatCoins) : Int :=
  if block.isProofOfWork then toInt64 (blockFees nHeight view block.vtx) else 0

theorem expectedMint_le {pprev : CBlockIndex} {block : CBlock} {nFees : Int}
    (supply : -2 ^ 63 ≤ tip.nMoneySupply) :
    expectedMint node tip pprev block nFees ≤
      getBlockValue node.params tip pprev.nHeight +
        (if block.isProofOfWork then toInt64 nFees else 0) := by
  have positive : 0 ≤ getBlockValue node.params tip pprev.nHeight := getBlockValue_nonneg supply
  have low := le_toInt64 nFees
  simp only [expectedMint]
  split
  · have wrapped : toInt64 (getBlockValue node.params tip pprev.nHeight + nFees) =
        toInt64 (getBlockValue node.params tip pprev.nHeight + toInt64 nFees) := by
      rw [Int.add_comm _ (toInt64 nFees), toInt64_add_left, Int.add_comm]
    rw [wrapped]
    exact toInt64_le (by omega)
  · omega

/-- Where the value of a block at a height is not compared on a synced node. -/
def Node.paysBudget (node : Node) (nHeight : Int) : Bool :=
  node.masternodeSynced && node.sporkActive .enableSuperblocks &&
    node.mapFinalizedBudgets.isBudgetPaymentBlock node.countEnabled nHeight

/-- Where it is not compared on a node that is not synced. -/
def Node.skipsValue (node : Node) (nHeight : Int) : Bool :=
  !node.masternodeSynced && nHeight % getBudgetPaymentCycleBlocks node.params < 100

theorem isBlockValueValid_le {block : CBlock} {nExpectedValue nMinted : Int}
    (active : node.tip = some tip)
    (valid : isBlockValueValid node block nExpectedValue nMinted = true)
    (compared : node.skipsValue (node.heightOf tip block) = false)
    (noBudget : node.paysBudget (node.heightOf tip block) = false) :
    nMinted ≤ nExpectedValue := by
  simp only [isBlockValueValid, active] at valid
  simp only [Node.skipsValue, Node.paysBudget] at compared noBudget
  cases synced : node.masternodeSynced with
  | false =>
    simp only [synced, Bool.not_false, Bool.true_and, decide_eq_false_iff_not] at compared
    simpa [synced, compared] using valid
  | true =>
    cases superblocks : node.sporkActive .enableSuperblocks with
    | false => simpa [synced, superblocks] using valid
    | true =>
      simp only [synced, superblocks, Bool.true_and] at noBudget
      simpa [synced, superblocks, noBudget] using valid

/-- A block accepted on the active tip mints at most the block value and the
fees of proof of work, unless the node skips the comparison. -/
theorem connectBlock_mint_le {node : Node} {disk : DiskWrites} {block : CBlock}
    {context : BlockContext node} {view : FlatCoins} {mapStakeSpent : StakeSpent}
    {fAlreadyChecked : Bool} {result : Connected}
    (accepted : Accepted node disk block context view mapStakeSpent fAlreadyChecked result)
    (active : node.tip = some context.pprev)
    (child : block.hashPrevBlock = context.pprev.getBlockHash)
    (supply : -2 ^ 63 ≤ context.pprev.nMoneySupply)
    (compared : node.skipsValue context.pindex.nHeight = false)
    (noBudget : node.paysBudget context.pindex.nHeight = false) :
    result.pindex.nMint ≤
      getBlockValue node.params context.pprev context.pprev.nHeight +
        countedFees block context.pindex.nHeight view := by
  obtain ⟨state, steps⟩ := accepted.steps
  have finished := finished_of_ok steps.finished
  obtain ⟨tip, tip_eq, valid⟩ := finished.value
  cases active.symm.trans tip_eq
  have height_eq : node.heightOf context.pprev block = context.pindex.nHeight := by
    rw [Node.heightOf, if_pos child.symm, context.height]
    simp
  rw [← height_eq] at compared noBudget
  have minted := isBlockValueValid_le active valid compared noBudget
  have fees := connectTxs_nFees steps.looped
  rw [Int.zero_add] at fees
  rw [(recordUndo_keeps finished.recorded).1]
  refine minted.trans ((expectedMint_le supply).trans ?_)
  rw [fees]
  exact le_refl _

theorem connectBlock_mint_le_coinstake :
    ∃ result, Accepted (Sample.node true 4999) {}
        (Sample.block [Sample.coinbase, Sample.coinstake]) (Sample.context true 4999) Sample.view ∅
        false result ∧
      result.pindex.nMint ≤ coin := by
  have accepted : ∃ result, Accepted (Sample.node true 4999) {}
      (Sample.block [Sample.coinbase, Sample.coinstake]) (Sample.context true 4999) Sample.view ∅
      false result := ⟨_, by decide, rfl⟩
  obtain ⟨result, ok⟩ := accepted
  exact ⟨result, ok, connectBlock_mint_le ok rfl rfl (by decide) (by decide) (by decide)⟩

/-- Takes a hundred units and gives out a million coins. -/
def Sample.windfall : CTransaction :=
  { hash := 23, vin := [{ prevout := ⟨10, 0⟩ }], vout := [⟨0, []⟩, ⟨1000000 * coin, [1]⟩] }

/-- A node that is not synced and knows no budget accepts at height 43200 a
coinstake that makes a million coins. -/
theorem windfall_accepted :
    ∃ result, Accepted (Sample.node true 43199) {}
        (Sample.block [Sample.coinbase, Sample.windfall]) (Sample.context true 43199) Sample.view ∅
        false result ∧
      (Sample.node true 43199).tip = some (Sample.context true 43199).pprev ∧
        (Sample.node true 43199).mapFinalizedBudgets = ∅ ∧
          result.pindex.nMint = 1000000 * coin - 100 ∧
            getBlockValue mainParams (Sample.parent 43199) 43199 +
              countedFees (Sample.block [Sample.coinbase, Sample.windfall]) 43200 Sample.view <
                result.pindex.nMint := by
  refine ⟨_, ⟨by decide, rfl⟩, rfl, rfl, by decide, by decide⟩

end CentNode
