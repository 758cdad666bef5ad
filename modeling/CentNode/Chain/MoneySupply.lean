import Mathlib.Algebra.Order.BigOperators.Group.Finset
import Mathlib.Data.Int.ModEq
import CentNode.Chain.ActiveChain
import CentNode.Validation.CoinValue

/-!
# The money supply of the active chain

`ConnectBlock` writes into each index entry the money supply of its parent plus
what the block gives out less what it takes in.  Along every run from the
genesis block this is the value of the unspent outputs together with what was
made unspendable, in 64 bits.  Where the value of every block was compared with
what it may mint, the numbers are equal and stay within `MaxMoneyOut`.
-/

namespace CentNode

open List Option

open FlatCoins

/-! ## Blocks and what they are worth -/

namespace CBlock

variable (txOf : Uint256 → CTransaction)

def valueOut (block : CBlock) : Int := (block.vtx.map CTransaction.valueOut).sum

def worthIn (block : CBlock) : Int := (block.vtx.map (CTransaction.worthIn txOf)).sum

def unspendableValue (block : CBlock) : Int := (block.vtx.map CTransaction.unspendableValue).sum

def fees (block : CBlock) : Int := (block.vtx.map (CTransaction.fee txOf)).sum

def txids (block : CBlock) : List Uint256 := block.vtx.map CTransaction.hash

end CBlock

/-- The blocks whose transactions were connected: all but the genesis block. -/
def connectedBlocks (params : CChainParams) (blocks : List CBlock) : List CBlock :=
  blocks.filter fun block => block.hash ≠ params.hashGenesisBlock

/-- The ids of the connected transactions. -/
def chainTxids (params : CChainParams) (blocks : List CBlock) : List Uint256 :=
  (connectedBlocks params blocks).flatMap CBlock.txids

/-- The value of the provably unspendable outputs that the blocks created. -/
def chainUnspendable (params : CChainParams) (blocks : List CBlock) : Int :=
  ((connectedBlocks params blocks).map CBlock.unspendableValue).sum

section Blocks

variable {params : CChainParams} {block : CBlock}

section

variable (other : block.hash ≠ params.hashGenesisBlock) (blocks : List CBlock)

include other blocks

theorem connectedBlocks_cons :
    connectedBlocks params (block :: blocks) = block :: connectedBlocks params blocks :=
  filter_cons_of_pos (decide_eq_true other)

theorem chainTxids_cons :
    chainTxids params (block :: blocks) = block.txids ++ chainTxids params blocks := by
  rw [chainTxids, connectedBlocks_cons other, flatMap_cons]
  rfl

theorem chainUnspendable_cons :
    chainUnspendable params (block :: blocks) =
      block.unspendableValue + chainUnspendable params blocks := by
  rw [chainUnspendable, connectedBlocks_cons other, map_cons, sum_cons]
  rfl

end

end Blocks

/-! ## Runs -/

/-- The active chain, and the undo data written so far with their blocks. -/
structure SupplyRun where
  state : ActiveChain
  written : List (CBlock × CBlockUndo)

namespace SupplyRun

/-- The undo data of the tip. -/
def tipUndo (state : ActiveChain) : List (CBlock × CBlockUndo) :=
  match state.entries with
  | [] => []
  | (pindex, block) :: _ => (pindex.getUndo.map fun undo => (block, undo)).toList

def step (run : SupplyRun) (input : TipCall) : Option SupplyRun :=
  (run.state.step input).map fun next => ⟨next, tipUndo next ++ run.written⟩

/-- What the caller and the block files do.  No two transactions share an id, the genesis
block is connected only once, and the undo data of an entry are those that were written
when its block was connected before. -/
def Admitted (params : CChainParams) (txOf : Uint256 → CTransaction) (run : SupplyRun)
    (input : TipCall) : Prop :=
  run.state.Admitted params input ∧
    match input with
    | .connect node _ pindexNew (some block) fAlreadyChecked _ =>
      block.hash ≠ params.hashGenesisBlock ∧
        (fAlreadyChecked = true → checkBlock node block true = .ok ()) ∧
          (∀ undo, pindexNew.getUndo = some undo → (block, undo) ∈ run.written) ∧
            (∀ tx ∈ block.vtx, txOf tx.hash = tx) ∧
              (block.txids ++ chainTxids params run.state.blocks).Nodup
    | _ => True

def FlushHolds (run : SupplyRun) (input : TipCall) : Prop := run.state.chain.FlushHolds input

/-- The unspent outputs, with what was made unspendable. -/
noncomputable def value (params : CChainParams) (run : SupplyRun) : Int :=
  run.state.chain.pcoinsTip.total + chainUnspendable params run.state.blocks

def Accounted (params : CChainParams) (run : SupplyRun) : Prop :=
  ∀ tip, run.state.chain.active.head? = some tip → run.value params ≡ tip.nMoneySupply [ZMOD 2 ^ 64]

def WithinBound (params : CChainParams) (run : SupplyRun) : Prop :=
  ∀ tip, run.state.chain.active.head? = some tip →
    run.value params = tip.nMoneySupply ∧ 0 ≤ tip.nMoneySupply ∧
      tip.nMoneySupply ≤ params.maxMoneyOut

structure AtGenesis (params : CChainParams) (run : SupplyRun) : Prop where
  entries : ∃ pindex block, run.state.chain.active = [pindex] ∧ run.state.blocks = [block] ∧
    pindex.nMoneySupply = 0 ∧ pindex.getUndo = none ∧ block.hash = params.hashGenesisBlock
  coins : ∀ txid, (run.state.chain.pcoinsTip.coins txid).isPruned = true
  written : run.written = []

/-- What a connected block promises for its undoing. -/
structure Content (txOf : Uint256 → CTransaction) (ids : List Uint256) (block : CBlock) : Prop where
  coinbase : ∃ coinbase rest, block.vtx = coinbase :: rest ∧ coinbase.isCoinBase = true
  faithful : ∀ tx ∈ block.vtx, txOf tx.hash = tx
  inputs : InputsKnown ids block.vtx
  nonneg : ∀ tx ∈ block.vtx, ∀ txout ∈ tx.vout, 0 ≤ txout.nValue

/-- The undo data hold the outputs that the block spends; the coinbase has none. -/
def BlockUndoFits (txOf : Uint256 → CTransaction) (block : CBlock) (undo : CBlockUndo) : Prop :=
  List.Forall₂ (UndoFits txOf) block.vtx.tail undo.vtxundo

/-- The books of the chain, modulo `m`: each entry above the genesis block has the supply of
its parent and what its block made. -/
inductive Ledger (params : CChainParams) (txOf : Uint256 → CTransaction) (m : Int) :
    List CBlockIndex → List CBlock → Prop where
  | genesis {pindex : CBlockIndex} {block : CBlock} (hash : block.hash = params.hashGenesisBlock)
      (noUndo : pindex.getUndo = none) : Ledger params txOf m [pindex] [block]
  | connected {pindex pprev : CBlockIndex} {below : List CBlockIndex} {block : CBlock}
      {blocks : List CBlock} (other : block.hash ≠ params.hashGenesisBlock)
      (supply : pindex.nMoneySupply ≡
        pprev.nMoneySupply + block.valueOut - block.worthIn txOf [ZMOD m])
      (content : Content txOf (chainTxids params blocks) block)
      (fits : ∀ undo, pindex.getUndo = some undo → BlockUndoFits txOf block undo)
      (rest : Ledger params txOf m (pprev :: below) blocks) :
      Ledger params txOf m (pindex :: pprev :: below) (block :: blocks)

/-- What every call keeps. -/
structure Kept (params : CChainParams) (txOf : Uint256 → CTransaction) (m : Int)
    (run : SupplyRun) : Prop where
  ledger : Ledger params txOf m run.state.chain.active run.state.blocks
  traced : run.state.chain.pcoinsTip.Traced txOf
  known : run.state.chain.pcoinsTip.KnownIn (chainTxids params run.state.blocks)
  value : ∀ tip, run.state.chain.active.head? = some tip →
    run.value params ≡ tip.nMoneySupply [ZMOD m]
  written : ∀ pair ∈ run.written, BlockUndoFits txOf pair.1 pair.2

/-! ## Connecting a block -/

theorem getUndo_recorded {disk : DiskWrites} {pindex recorded : CBlockIndex}
    {blockundo undo : CBlockUndo} (wrote : recordUndo disk pindex blockundo = .ok recorded)
    (found : recorded.getUndo = some undo) : undo = blockundo ∨ pindex.getUndo = some undo := by
  unfold recordUndo at wrote
  split at wrote
  · split at wrote
    · split at wrote
      · cases wrote
      · split at wrote
        · cases wrote
        · cases wrote
          simp only [CBlockIndex.getUndo, CBlockIndex.raiseValidity_haveUndo,
            CBlockIndex.raiseValidity_undoData, if_true, Option.some.injEq] at found
          exact Or.inl found.symm
    · cases wrote
      simp only [CBlockIndex.getUndo, CBlockIndex.raiseValidity_haveUndo,
        CBlockIndex.raiseValidity_undoData] at found
      exact Or.inr found
  · cases wrote
    exact Or.inr found

structure ConnectedFacts (params : CChainParams) (txOf : Uint256 → CTransaction)
    (run : SupplyRun) (node : Node) (block : CBlock) (result : Connected) (pprev : CBlockIndex)
    (nFees : Int) : Prop where
  content : Content txOf (chainTxids params run.state.blocks) block
  fits : ∀ undo, result.pindex.getUndo = some undo → BlockUndoFits txOf block undo
  traced : result.view.Traced txOf
  known : result.view.KnownIn (block.txids ++ chainTxids params run.state.blocks)
  total : result.view.total + block.unspendableValue =
    run.state.chain.pcoinsTip.total + block.valueOut - block.worthIn txOf
  supply : result.pindex.nMoneySupply =
    toInt64 (pprev.nMoneySupply + block.valueOut - block.worthIn txOf)
  fees : toInt64 nFees = toInt64 (block.fees txOf)
  conserved : node.comparesInputs pprev → block.valueOut < 2 ^ 63 → 0 ≤ block.fees txOf
  valid : isBlockValueValid { node with tip := some pprev } block
    (expectedMint { node with tip := some pprev } pprev pprev block nFees)
      (toInt64 (result.pindex.nMoneySupply - pprev.nMoneySupply + nFees)) = true

section Connect

variable {params : CChainParams} {txOf : Uint256 → CTransaction} {m : Int} {run : SupplyRun}
  {node : Node} {disk : DiskWrites} {pindexNew : CBlockIndex} {block : CBlock}
  {fAlreadyChecked : Bool} {flush : FlushOutcome} {result : Connected}

theorem Kept.connectedFacts (kept : run.Kept params txOf m)
    (admitted : run.Admitted params txOf
      (.connect node disk pindexNew (some block) fAlreadyChecked flush))
    (ok : connectBlock { node with tip := run.state.chain.active.head? } disk block pindexNew
      run.state.chain.active run.state.chain.pcoinsTip run.state.chain.mapStakeSpent false
        fAlreadyChecked = .ok result) :
    ∃ pprev below nFees, run.state.chain.active = pprev :: below ∧
      ConnectedFacts params txOf run node block result pprev nFees := by
  obtain ⟨⟨same, _, _⟩, other, checkedBefore, undoWritten, faithful, distinct⟩ := admitted
  have shape : BlockShape block := by
    cases fAlreadyChecked with
    | true => exact blockShape_of_checkBlock (checkedBefore rfl)
    | false =>
      rw [connectBlock] at ok
      split at ok
      · cases ok
      · next checked => exact blockShape_of_checkBlock checked
  rcases connectBlock_cases ok with ⟨genesis, _⟩ | ⟨_, pprev, state, steps⟩
  · exact absurd (genesis.trans (congrArg CChainParams.hashGenesisBlock same)) other
  obtain ⟨below, active_eq⟩ := head?_eq_some_iff.mp steps.parent
  refine ⟨pprev, below, state.nFees, active_eq, ?_⟩
  obtain ⟨undos, applied, collected⟩ := connectTxs_applies steps.looped
  rw [nil_append, if_pos rfl] at collected
  have sums := connectTxs_sums steps.looped kept.traced faithful
  have worths := applyTxs_worth applied kept.traced kept.known faithful distinct shape.real
  obtain ⟨coinbase, rest, vtx_eq, isCoinbase, _⟩ := shape.coinbaseFirst
  have coins_eq : result.view.coins = state.view.coins := by
    rw [steps.finished.view_eq]
    rfl
  have total_eq : result.view.total = state.view.total := by
    unfold FlatCoins.total
    rw [coins_eq]
  have supply_eq : result.pindex.nMoneySupply =
      toInt64 (pprev.nMoneySupply + state.nValueOut - state.nValueIn) :=
    recordUndo_field (·.nMoneySupply) (fun _ _ _ => rfl) steps.finished.recorded
  obtain ⟨tip, tip_eq, valid⟩ := steps.finished.value
  refine ⟨⟨⟨coinbase, rest, vtx_eq, isCoinbase⟩, faithful, worths.inputs, sums.nonneg⟩, ?_, ?_, ?_,
    ?_, ?_, ?_, ?_, ?_⟩
  · intro undo found
    rcases getUndo_recorded steps.finished.recorded found with rfl | before
    · have fits := worths.fits
      rw [BlockUndoFits, collected]
      rw [vtx_eq] at fits ⊢
      cases fits with
      | cons _ later => exact later
    · exact kept.written (block, undo) (undoWritten undo before)
  · intro txid n txout found
    rw [coins_eq] at found
    exact worths.traced txid n txout found
  · intro txid left
    rw [coins_eq] at left
    exact mem_append.mpr (worths.known txid left)
  · rw [total_eq]
    exact worths.total
  · have out_eq := sums.valueOut
    have in_eq := sums.valueIn
    rw [Int.zero_add] at out_eq in_eq
    change toInt64 state.nValueOut = toInt64 block.valueOut at out_eq
    change toInt64 state.nValueIn = toInt64 (block.worthIn txOf) at in_eq
    rw [supply_eq]
    unfold toInt64 at out_eq in_eq ⊢
    omega
  · have fee_eq := sums.fees
    rw [Int.zero_add] at fee_eq
    exact fee_eq
  · rintro ⟨best, found, active⟩ small
    have onBest : node.mapBlockIndex run.state.chain.pcoinsTip.bestBlock = some best := by
      rw [← steps.onParent, active_eq]
      exact found
    refine List.sum_nonneg fun value member => ?_
    obtain ⟨tx, there, rfl⟩ := List.mem_map.mp member
    exact connectTxs_fee_nonneg steps.looped kept.traced faithful (fun tx there out inside =>
      Int.lt_of_le_of_lt (sums.output_le there inside) small) onBest active tx there
  · have tip_eq : some pprev = some tip := by
      rw [← tip_eq, ← steps.parent]
    cases tip_eq
    rw [active_eq] at valid
    rw [supply_eq]
    exact valid

/-- The books are right after a block was connected with the right supply. -/
theorem Kept.connected (kept : run.Kept params txOf m) {pprev : CBlockIndex}
    {below : List CBlockIndex} {nFees : Int}
    (active : run.state.chain.active = pprev :: below)
    (other : block.hash ≠ params.hashGenesisBlock)
    (facts : ConnectedFacts params txOf run node block result pprev nFees)
    (supply : result.pindex.nMoneySupply ≡
      pprev.nMoneySupply + block.valueOut - block.worthIn txOf [ZMOD m])
    {written : List (CBlock × CBlockUndo)}
    (fits : ∀ pair ∈ written, BlockUndoFits txOf pair.1 pair.2) :
    Kept params txOf m
      ⟨⟨⟨result.pindex :: run.state.chain.active, result.view, result.mapStakeSpent⟩,
        block :: run.state.blocks⟩, written⟩ := by
  have ledger := kept.ledger
  have before := kept.value pprev (by rw [active]; rfl)
  rw [active] at ledger
  refine ⟨?_, facts.traced, ?_, ?_, fits⟩
  · show Ledger params txOf m (result.pindex :: run.state.chain.active) (block :: run.state.blocks)
    rw [active]
    exact .connected other supply facts.content facts.fits ledger
  · show result.view.KnownIn (chainTxids params (block :: run.state.blocks))
    rw [chainTxids_cons other]
    exact facts.known
  · intro tip same
    cases same
    have total := facts.total
    have value_eq : result.view.total + chainUnspendable params (block :: run.state.blocks) =
        run.value params + (block.valueOut - block.worthIn txOf) := by
      rw [chainUnspendable_cons other, SupplyRun.value]
      omega
    show result.view.total + chainUnspendable params (block :: run.state.blocks) ≡ _ [ZMOD m]
    rw [value_eq]
    refine (before.add_right _).trans ?_
    rw [← Int.add_sub_assoc]
    exact supply.symm

end Connect

/-! ## Disconnecting a block -/

section Disconnect

variable {params : CChainParams} {txOf : Uint256 → CTransaction} {m : Int} {run : SupplyRun}

theorem Content.value_fromTx {ids : List Uint256} {block : CBlock}
    (content : Content txOf ids block) (nHeight : Int) :
    (block.vtx.map fun tx => (CCoins.fromTx tx nHeight).value).sum + block.unspendableValue =
      block.valueOut := by
  rw [CBlock.unspendableValue, ← sum_map_add, CBlock.valueOut]
  refine congrArg List.sum (map_congr_left fun tx member => ?_)
  refine CTransaction.value_fromTx (fun txout inside => ?_) nHeight
  have positive := content.nonneg tx member txout inside
  rw [CTxOut.isNull, decide_eq_false_iff_not]
  omega

/-- The books are right after a block was disconnected. -/
theorem Kept.disconnected (kept : run.Kept params txOf m) {block : CBlock} {undoReadable : Bool}
    {pindexDelete pprev : CBlockIndex} {rest : List CBlockIndex} {undone : Disconnected}
    (tip : run.state.chain.active = pindexDelete :: pprev :: rest)
    (read : run.state.blocks.head? = some block)
    (ok : disconnectBlock undoReadable block pindexDelete pprev run.state.chain.pcoinsTip
      run.state.chain.mapStakeSpent = .ok undone) (clean : undone.fClean = true)
    {written : List (CBlock × CBlockUndo)}
    (fits : ∀ pair ∈ written, BlockUndoFits txOf pair.1 pair.2) :
    Kept params txOf m
      ⟨⟨⟨pprev :: rest, undone.view, undone.mapStakeSpent⟩, run.state.blocks.tail⟩, written⟩ := by
  obtain ⟨blocks, blocks_eq⟩ := head?_eq_some_iff.mp read
  have ledger := kept.ledger
  have known := kept.known
  have before := kept.value pindexDelete (by rw [tip]; rfl)
  rw [tip, blocks_eq] at ledger
  cases ledger with
  | connected other supply content undoFits below =>
    obtain ⟨coinbase, others, vtx_eq, isCoinbase⟩ := content.coinbase
    rw [blocks_eq, chainTxids_cons other] at known
    obtain ⟨traced, knownBelow, total_eq⟩ := disconnectBlock_worth ok clean kept.traced vtx_eq
      isCoinbase (fun stored found => by
        have matching := undoFits stored found
        rw [BlockUndoFits, vtx_eq] at matching
        exact matching) content.inputs known
    have tail_eq : run.state.blocks.tail = blocks := by
      rw [blocks_eq]
      rfl
    rw [tail_eq]
    refine ⟨below, traced, knownBelow, fun top same => ?_, fits⟩
    cases same
    have outputs := content.value_fromTx pindexDelete.nHeight
    have value_eq : undone.view.total + chainUnspendable params blocks =
        run.value params - (block.valueOut - block.worthIn txOf) := by
      rw [SupplyRun.value, blocks_eq, chainUnspendable_cons other]
      unfold CBlock.worthIn
      omega
    show undone.view.total + chainUnspendable params blocks ≡ pprev.nMoneySupply [ZMOD m]
    rw [value_eq]
    have moved := (before.trans supply).sub_right (block.valueOut - block.worthIn txOf)
    have back : pprev.nMoneySupply + block.valueOut - block.worthIn txOf -
        (block.valueOut - block.worthIn txOf) = pprev.nMoneySupply := by
      omega
    rw [back] at moved
    exact moved

end Disconnect

/-! ## One call -/

section Call

variable {params : CChainParams} {txOf : Uint256 → CTransaction} {m : Int} {run : SupplyRun}

theorem Ledger.tipUndo_fits {state : ActiveChain}
    (ledger : Ledger params txOf m state.chain.active state.blocks) :
    ∀ pair ∈ tipUndo state, BlockUndoFits txOf pair.1 pair.2 := by
  obtain ⟨⟨active, pcoinsTip, mapStakeSpent⟩, blocks⟩ := state
  intro pair member
  cases ledger with
  | genesis hash noUndo =>
    simp only [tipUndo, ActiveChain.entries, zip_cons_cons, noUndo, map_none,
      toList_none] at member
    cases member
  | connected other supply content fits rest =>
    simp only [tipUndo, ActiveChain.entries, zip_cons_cons] at member
    obtain ⟨undo, found, rfl⟩ := map_eq_some_iff.mp (mem_toList.mp member)
    exact fits undo found

/-- The supply that a connected block gets is right modulo `m`. -/
def SupplyRight (params : CChainParams) (txOf : Uint256 → CTransaction) (m : Int)
    (run : SupplyRun) (input : TipCall) : Prop :=
  ∀ node disk pindexNew block fAlreadyChecked result pprev nFees,
    input = .connect node disk pindexNew (some block) fAlreadyChecked .done →
      run.state.chain.applies input = true → run.state.chain.active.head? = some pprev →
        ConnectedFacts params txOf run node block result pprev nFees →
          result.pindex.nMoneySupply ≡
            pprev.nMoneySupply + block.valueOut - block.worthIn txOf [ZMOD m]

theorem Kept.recordTip {state : ActiveChain} {written : List (CBlock × CBlockUndo)}
    (kept : Kept params txOf m ⟨state, written⟩) :
    Kept params txOf m ⟨state, tipUndo state ++ written⟩ := by
  refine ⟨kept.ledger, kept.traced, kept.known, kept.value, fun pair member => ?_⟩
  rcases mem_append.mp member with tip | before
  · exact kept.ledger.tipUndo_fits pair tip
  · exact kept.written pair before

theorem kept_step {next : SupplyRun} {input : TipCall} (kept : run.Kept params txOf m)
    (admitted : run.Admitted params txOf input) (flushed : run.FlushHolds input)
    (right : run.SupplyRight params txOf m input) (stepped : run.step input = some next) :
    next.Kept params txOf m := by
  obtain ⟨state, moved, rfl⟩ := map_eq_some_iff.mp stepped
  cases ActiveChain.step_effect moved with
  | connected ok =>
    obtain ⟨pprev, below, nFees, active, facts⟩ := kept.connectedFacts admitted ok
    have supply := right _ _ _ _ _ _ _ _ rfl (ChainState.applies_connect_iff.mpr ⟨_, ok⟩)
      (by rw [active]; rfl) facts
    exact (kept.connected active admitted.2.1 facts supply kept.written).recordTip
  | disconnected tip ok clean =>
    exact (kept.disconnected tip (admitted.1 _ rfl) ok clean kept.written).recordTip
  | refused idle => exact kept.recordTip
  | erased tip idle =>
    have unchanged : ∀ mapStakeSpent : StakeSpent,
        Kept params txOf m ⟨⟨⟨run.state.chain.active, run.state.chain.pcoinsTip, mapStakeSpent⟩,
          run.state.blocks⟩, run.written⟩ := fun _ =>
      ⟨kept.ledger, kept.traced, kept.known, kept.value, kept.written⟩
    exact (unchanged _).recordTip
  | stopped failed => exact absurd flushed failed

theorem AtGenesis.kept (genesis : run.AtGenesis params) : run.Kept params txOf m := by
  obtain ⟨pindex, block, active, blocks, supply, noUndo, hash⟩ := genesis.entries
  have noneConnected : connectedBlocks params run.state.blocks = [] := by
    rw [blocks, connectedBlocks, filter_cons_of_neg (by simp [hash]), filter_nil]
  have noValue : run.state.chain.pcoinsTip.total = 0 :=
    Finset.sum_eq_zero fun txid _ => CCoins.value_of_pruned (genesis.coins txid)
  refine ⟨?_, ?_, ?_, ?_, ?_⟩
  · rw [active, blocks]
    exact .genesis hash noUndo
  · intro txid n txout found
    rw [CCoins.isPruned_iff_output.mp (genesis.coins txid) n] at found
    cases found
  · intro txid left
    rw [genesis.coins txid] at left
    cases left
  · intro tip same
    rw [active] at same
    cases same
    rw [SupplyRun.value, noValue, chainUnspendable, noneConnected, supply]
    exact Int.ModEq.refl _
  · rw [genesis.written]
    intro pair impossible
    cases impossible

theorem toInt64_modEq (value : Int) : toInt64 value ≡ value [ZMOD 2 ^ 64] := by
  unfold Int.ModEq toInt64
  omega

theorem supplyRight_int64 (input : TipCall) : run.SupplyRight params txOf (2 ^ 64) input := by
  intro node disk pindexNew block fAlreadyChecked result pprev nFees _ _ _ facts
  rw [facts.supply]
  exact toInt64_modEq _

end Call

/-! ## The bound -/

/-- What has to be known of a connected block for the bound: its value is compared; where the
test network has a fixed value, the bound has room for it; the fees are not negative, unless the
block is proof of work, which counts them, or `CheckInputs` compares the values; and the sums are
in the range of 64 bits. -/
structure Capped (params : CChainParams) (txOf : Uint256 → CTransaction) (node : Node)
    (pprev : CBlockIndex) (block : CBlock) : Prop where
  compared : node.skipsValue (node.heightOf pprev block) = false
  noBudget : node.paysBudget (node.heightOf pprev block) = false
  room : params.networkID = .testnet ∧ (pprev.nHeight : Int) < params.lastPowBlock ∧
    (pprev.nHeight : Int) > 0 → pprev.nMoneySupply + 20 * coin ≤ params.maxMoneyOut
  conserves : block.isProofOfWork = true ∨ node.comparesInputs pprev ∨ 0 ≤ block.fees txOf
  small : params.maxMoneyOut + 200000 * coin + block.valueOut < 2 ^ 63

/-- A block that a call connects is as the bound needs it. -/
def CappedCall (params : CChainParams) (txOf : Uint256 → CTransaction) (run : SupplyRun) :
    TipCall → Prop
  | .connect node disk pindexNew (some block) fAlreadyChecked flush =>
    run.state.chain.applies (.connect node disk pindexNew (some block) fAlreadyChecked flush) =
        true →
      ∀ pprev, run.state.chain.active.head? = some pprev → Capped params txOf node pprev block
  | _ => True

section Bound

variable {params : CChainParams} {txOf : Uint256 → CTransaction} {run : SupplyRun}

/-- No output of the transactions with these ids has a negative value. -/
def NonnegOutputs (txOf : Uint256 → CTransaction) (ids : List Uint256) : Prop :=
  ∀ txid ∈ ids, ∀ txout ∈ (txOf txid).vout, 0 ≤ txout.nValue

variable {ids : List Uint256} {block : CBlock}

theorem Content.nonnegOutputs (content : Content txOf ids block) :
    NonnegOutputs txOf block.txids := by
  intro txid member txout inside
  obtain ⟨tx, there, rfl⟩ := List.mem_map.mp member
  rw [content.faithful tx there] at inside
  exact content.nonneg tx there txout inside

theorem Content.unspendable_nonneg (content : Content txOf ids block) :
    0 ≤ block.unspendableValue := by
  refine List.sum_nonneg fun value member => ?_
  obtain ⟨tx, there, rfl⟩ := List.mem_map.mp member
  refine List.sum_nonneg fun part inside => ?_
  obtain ⟨txout, out, rfl⟩ := List.mem_map.mp inside
  split
  · exact content.nonneg tx there txout out
  · exact Int.le_refl 0

variable {node : Node} {disk : DiskWrites} {pindexNew : CBlockIndex} {fAlreadyChecked : Bool}
  {result : Connected} {pprev tip : CBlockIndex}
  {supply valueOut worthIn fees m nHeight nFees newSupply blockValue limit expected : Int}

theorem Ledger.nonneg {active : List CBlockIndex} {blocks : List CBlock}
    (ledger : Ledger params txOf m active blocks) :
    NonnegOutputs txOf (chainTxids params blocks) ∧ 0 ≤ chainUnspendable params blocks := by
  induction ledger with
  | @genesis pindex block hash noUndo =>
    have none : connectedBlocks params [block] = [] := by
      rw [connectedBlocks, filter_cons_of_neg (by simp [hash]), filter_nil]
    refine ⟨?_, ?_⟩
    · rw [chainTxids, none]
      intro txid impossible
      cases impossible
    · rw [chainUnspendable, none]
      exact Int.le_refl 0
  | connected other supply content fits rest ih =>
    rw [chainTxids_cons other, chainUnspendable_cons other]
    refine ⟨fun txid member => ?_, ?_⟩
    · rcases mem_append.mp member with here | below
      · exact content.nonnegOutputs txid here
      · exact ih.1 txid below
    · have here := content.unspendable_nonneg
      have below := ih.2
      omega

theorem total_nonneg {view : FlatCoins} (traced : view.Traced txOf) (known : view.KnownIn ids)
    (nonneg : NonnegOutputs txOf ids) : 0 ≤ view.total := by
  refine Finset.sum_nonneg fun txid _ => ?_
  refine List.sum_nonneg fun value member => ?_
  obtain ⟨txout, inside, rfl⟩ := List.mem_map.mp member
  unfold CTxOut.unspentValue
  split
  · exact Int.le_refl 0
  · next notNull =>
      obtain ⟨n, found⟩ := mem_iff_getElem?.mp inside
      have unspent : (view.coins txid).output n = some txout :=
        CCoins.output_eq_some.mpr ⟨found, by simpa using notNull⟩
      have left : (view.coins txid).isPruned = false := by
        rw [← Bool.not_eq_true]
        intro pruned
        rw [CCoins.isPruned_iff_output.mp pruned n] at unspent
        cases unspent
      have origin := (filter_eq_some_iff.mp (traced txid n txout unspent)).1
      exact nonneg txid (known txid left) txout (mem_of_getElem? origin)

theorem inputs_of_known {txs : List CTransaction} (inputs : InputsKnown ids txs) :
    ∀ tx ∈ txs, ∀ out ∈ tx.spends, out.hash ∈ txs.map CTransaction.hash ++ ids := by
  induction txs generalizing ids with
  | nil =>
    intro tx impossible
    cases impossible
  | cons first rest ih =>
    intro tx member out spent
    rcases mem_cons.mp member with rfl | later
    · exact mem_append_right _ (inputs.1 out spent)
    · have origin := ih inputs.2 tx later out spent
      rw [map_cons, cons_append]
      exact perm_middle.mem_iff.mp origin

theorem worth_nonneg (nonneg : NonnegOutputs txOf ids) {out : COutPoint} (known : out.hash ∈ ids) :
    0 ≤ worth txOf out := by
  unfold worth
  cases found : spendableAt txOf out with
  | none => exact Int.le_refl 0
  | some txout =>
    have origin := (filter_eq_some_iff.mp found).1
    exact nonneg out.hash known txout (mem_of_getElem? origin)

theorem Content.fee_range (content : Content txOf ids block) (nonneg : NonnegOutputs txOf ids)
    {tx : CTransaction} (member : tx ∈ block.vtx) :
    0 ≤ tx.worthIn txOf ∧ 0 ≤ tx.valueOut + tx.fee txOf ∧ tx.fee txOf ≤ tx.worthIn txOf := by
  have taken : 0 ≤ tx.worthIn txOf := by
    refine List.sum_nonneg fun value inside => ?_
    obtain ⟨out, spent, rfl⟩ := List.mem_map.mp inside
    have origin := inputs_of_known content.inputs tx member out spent
    refine worth_nonneg (fun txid known => ?_) origin
    rcases mem_append.mp known with here | below
    · exact content.nonnegOutputs txid here
    · exact nonneg txid below
  have given : 0 ≤ tx.valueOut := by
    refine List.sum_nonneg fun value inside => ?_
    obtain ⟨txout, there, rfl⟩ := List.mem_map.mp inside
    exact content.nonneg tx member txout there
  unfold CTransaction.fee
  split <;> omega

theorem Content.fees_range (content : Content txOf ids block) (nonneg : NonnegOutputs txOf ids) :
    0 ≤ block.worthIn txOf ∧ -block.valueOut ≤ block.fees txOf ∧
      block.fees txOf ≤ block.worthIn txOf := by
  have each : ∀ tx ∈ block.vtx, _ := fun tx member => content.fee_range nonneg member
  have covered : 0 ≤ (block.vtx.map fun tx => tx.valueOut + tx.fee txOf).sum :=
    List.sum_nonneg (forall_mem_map.mpr fun tx member => (each tx member).2.1)
  rw [sum_map_add] at covered
  refine ⟨List.sum_nonneg (forall_mem_map.mpr fun tx member => (each tx member).1),
    neg_le_iff_add_nonneg'.mpr covered, sum_le_sum fun tx member => (each tx member).2.2⟩

/-- Below the bound `GetBlockValue` leaves room for what it gives. -/
theorem getBlockValue_room
    (room : params.networkID = .testnet ∧ nHeight < params.lastPowBlock ∧ nHeight > 0 →
      tip.nMoneySupply + 20 * coin ≤ params.maxMoneyOut)
    (low : 0 ≤ tip.nMoneySupply) (high : tip.nMoneySupply ≤ params.maxMoneyOut)
    (small : params.maxMoneyOut + 200000 * coin < 2 ^ 63) :
    tip.nMoneySupply + getBlockValue params tip nHeight ≤ params.maxMoneyOut := by
  obtain ⟨subsidyLow, subsidyHigh⟩ := blockSubsidy_range nHeight
  rw [getBlockValue]
  split
  · next fixed => exact room fixed
  simp only [capSubsidy]
  split
  · omega
  · split
    · rw [toInt64_of_range (by omega) (by omega)]
      omega
    · next within =>
        rw [toInt64_of_range (by omega) (by omega)] at within
        omega

theorem supply_arithmetic (low : 0 ≤ supply) (given : 0 ≤ valueOut) (taken : 0 ≤ worthIn)
    (left : 0 ≤ supply + valueOut - worthIn)
    (fees_low : -valueOut ≤ fees) (fees_high : fees ≤ worthIn) (high : supply ≤ limit)
    (small : limit + valueOut < 2 ^ 63)
    (newSupply_eq : newSupply = toInt64 (supply + valueOut - worthIn))
    (nFees_eq : toInt64 nFees = toInt64 fees)
    (minted : toInt64 (newSupply - supply + nFees) ≤ expected)
    (bounded : expected ≤ blockValue + toInt64 nFees ∨ expected ≤ blockValue ∧ 0 ≤ fees)
    (room : supply + blockValue ≤ limit) :
    newSupply = supply + valueOut - worthIn ∧ newSupply ≤ limit := by
  have exact_supply : newSupply = supply + valueOut - worthIn := by
    rw [newSupply_eq, toInt64_of_range (by omega) (by omega)]
  have exact_fees : toInt64 fees = fees := toInt64_of_range (by omega) (by omega)
  have exact_mint : toInt64 (newSupply - supply + nFees) = valueOut - worthIn + fees := by
    have moved : toInt64 (newSupply - supply + nFees) = toInt64 (valueOut - worthIn + fees) := by
      rw [exact_supply]
      unfold toInt64 at nFees_eq ⊢
      omega
    rw [moved, toInt64_of_range (by omega) (by omega)]
  refine ⟨exact_supply, ?_⟩
  rw [exact_mint] at minted
  rw [nFees_eq, exact_fees] at bounded
  omega

/-- A capped block gets its exact supply, within the bound. -/
theorem ConnectedFacts.within (kept : run.Kept params txOf 0) (same : node.params = params)
    (tip : run.state.chain.active.head? = some pprev)
    (facts : ConnectedFacts params txOf run node block result pprev nFees)
    (capped : Capped params txOf node pprev block) (low : 0 ≤ pprev.nMoneySupply)
    (high : pprev.nMoneySupply ≤ params.maxMoneyOut) :
    result.pindex.nMoneySupply = pprev.nMoneySupply + block.valueOut - block.worthIn txOf ∧
      0 ≤ result.pindex.nMoneySupply ∧ result.pindex.nMoneySupply ≤ params.maxMoneyOut := by
  subst same
  have value_eq : run.value node.params = pprev.nMoneySupply :=
    Int.modEq_zero_iff.mp (kept.value pprev tip)
  obtain ⟨below, unspendable⟩ := kept.ledger.nonneg
  have own := facts.content.unspendable_nonneg
  have total := facts.total
  have left : 0 ≤ result.view.total := by
    refine total_nonneg facts.traced facts.known fun txid member => ?_
    rcases mem_append.mp member with here | before
    · exact facts.content.nonnegOutputs txid here
    · exact below txid before
  have given : 0 ≤ block.valueOut := by
    refine List.sum_nonneg fun value member => ?_
    obtain ⟨tx, there, rfl⟩ := List.mem_map.mp member
    refine List.sum_nonneg fun part inside => ?_
    obtain ⟨txout, out, rfl⟩ := List.mem_map.mp inside
    exact facts.content.nonneg tx there txout out
  obtain ⟨taken, feesLow, feesHigh⟩ := facts.content.fees_range below
  have small := capped.small
  have positive : (0 : Int) ≤ coin := by decide
  have minted := isBlockValueValid_le rfl facts.valid capped.compared capped.noBudget
  have remaining : 0 ≤ pprev.nMoneySupply + block.valueOut - block.worthIn txOf := by
    rw [SupplyRun.value] at value_eq
    omega
  have room := getBlockValue_room capped.room low high (by omega)
  have bounded : expectedMint { node with tip := some pprev } pprev pprev block nFees ≤
        getBlockValue node.params pprev pprev.nHeight + toInt64 nFees ∨
      expectedMint { node with tip := some pprev } pprev pprev block nFees ≤
        getBlockValue node.params pprev pprev.nHeight ∧ 0 ≤ block.fees txOf := by
    have limit : expectedMint { node with tip := some pprev } pprev pprev block nFees ≤ _ :=
      expectedMint_le (show -2 ^ 63 ≤ pprev.nMoneySupply by omega)
    dsimp only at limit
    split at limit
    · exact Or.inl limit
    · next staked =>
        refine Or.inr ⟨by omega, ?_⟩
        rcases capped.conserves with work | compares | positive
        · exact absurd work staked
        · exact facts.conserved compares (by omega)
        · exact positive
  obtain ⟨exact_supply, within⟩ := supply_arithmetic low given taken remaining feesLow feesHigh
    high (by omega) facts.supply facts.fees minted bounded room
  exact ⟨exact_supply, by omega, within⟩

/-- The exact books, with every supply within the bound. -/
structure Bounded (params : CChainParams) (txOf : Uint256 → CTransaction) (run : SupplyRun) :
    Prop where
  kept : run.Kept params txOf 0
  range : ∀ pindex ∈ run.state.chain.active,
    0 ≤ pindex.nMoneySupply ∧ pindex.nMoneySupply ≤ params.maxMoneyOut

theorem Bounded.within (bounded : run.Bounded params txOf) : run.WithinBound params := by
  intro tip top
  obtain ⟨low, high⟩ := bounded.range tip (mem_of_head? top)
  exact ⟨Int.modEq_zero_iff.mp (bounded.kept.value tip top), low, high⟩

theorem Bounded.connected (bounded : run.Bounded params txOf) (admitted : run.Admitted params txOf
      (.connect node disk pindexNew (some block) fAlreadyChecked .done))
    (capped : run.CappedCall params txOf
      (.connect node disk pindexNew (some block) fAlreadyChecked .done))
    (applied : run.state.chain.applies
      (.connect node disk pindexNew (some block) fAlreadyChecked .done) = true)
    (top : run.state.chain.active.head? = some pprev)
    (facts : ConnectedFacts params txOf run node block result pprev nFees) :
    result.pindex.nMoneySupply = pprev.nMoneySupply + block.valueOut - block.worthIn txOf ∧
      0 ≤ result.pindex.nMoneySupply ∧ result.pindex.nMoneySupply ≤ params.maxMoneyOut := by
  obtain ⟨low, high⟩ := bounded.range pprev (mem_of_head? top)
  exact facts.within bounded.kept admitted.1.1 top (capped applied pprev top) low high

theorem bounded_step {next : SupplyRun} {input : TipCall} (bounded : run.Bounded params txOf)
    (admitted : run.Admitted params txOf input) (flushed : run.FlushHolds input)
    (capped : run.CappedCall params txOf input) (stepped : run.step input = some next) :
    next.Bounded params txOf := by
  have right : run.SupplyRight params txOf 0 input := by
    rintro node disk pindexNew block fAlreadyChecked result pprev nFees rfl applied top facts
    rw [(bounded.connected admitted capped applied top facts).1]
  refine ⟨kept_step bounded.kept admitted flushed right stepped, ?_⟩
  obtain ⟨state, moved, rfl⟩ := map_eq_some_iff.mp stepped
  cases ActiveChain.step_effect moved with
  | connected ok =>
    obtain ⟨pprev, below, nFees, active, facts⟩ := bounded.kept.connectedFacts admitted ok
    have within := bounded.connected admitted capped
      (ChainState.applies_connect_iff.mpr ⟨_, ok⟩) (by rw [active]; rfl) facts
    intro pindex member
    rcases mem_cons.mp member with rfl | before
    · exact within.2
    · exact bounded.range pindex before
  | disconnected tip ok clean =>
    intro pindex member
    refine bounded.range pindex ?_
    rw [tip]
    exact mem_cons_of_mem _ member
  | refused idle => exact bounded.range
  | erased tip idle => exact bounded.range
  | stopped failed => exact absurd flushed failed

end Bound

/-! ## Whole runs -/

/-- In every run from the genesis block the value of the coins is the money supply of the
tip, in 64 bits; where all connected blocks are capped, it is so exactly and within the
bound. -/
theorem money_supply_throughout {params : CChainParams} {txOf : Uint256 → CTransaction}
    (limit : 0 ≤ params.maxMoneyOut) {start : SupplyRun} {calls : List TipCall}
    (genesis : start.AtGenesis params)
    (admitted : Runs.Meets step (Admitted params txOf) start calls)
    (flushed : Runs.Meets step FlushHolds start calls) :
    Runs.Throughout step (Accounted params) start calls ∧
      (Runs.Meets step (CappedCall params txOf) start calls →
        Runs.Throughout step (WithinBound params) start calls) := by
  constructor
  · refine Runs.throughout_of_kept (fun run kept => ?_) ?_
      (genesis.kept : start.Kept params txOf (2 ^ 64)) (admitted.and flushed)
    · exact kept.value
    · rintro run input next kept ⟨allowed, flushes⟩ stepped
      exact kept_step kept allowed flushes (supplyRight_int64 input) stepped
  · intro capped
    have begins : start.Bounded params txOf := by
      obtain ⟨pindex, block, active, _, supply, _, _⟩ := genesis.entries
      refine ⟨genesis.kept, fun entry member => ?_⟩
      rw [active, mem_singleton] at member
      rw [member, supply]
      exact ⟨Int.le_refl 0, limit⟩
    refine Runs.throughout_of_kept (fun run bounded => bounded.within) ?_ begins
      ((admitted.and flushed).and capped)
    rintro run input next bounded ⟨⟨allowed, flushes⟩, capping⟩ stepped
    exact bounded_step bounded allowed flushes capping stepped

/-- The genesis block of a network, as it is after the first start. -/
def genesisOf (params : CChainParams) : SupplyRun where
  state :=
    { chain :=
        { active := [{ phashBlock := some params.hashGenesisBlock }]
          pcoinsTip := ⟨fun _ => CCoins.cleared, params.hashGenesisBlock⟩ }
      blocks := [{ hash := params.hashGenesisBlock, hashPrevBlock := 0, vtx := [] }] }
  written := []

def genesisRun : SupplyRun := genesisOf mainParams

theorem genesisOf_atGenesis (params : CChainParams) : (genesisOf params).AtGenesis params :=
  ⟨⟨_, _, rfl, rfl, rfl, rfl, rfl⟩, fun _ => rfl, rfl⟩

theorem genesisRun_atGenesis : genesisRun.AtGenesis mainParams := genesisOf_atGenesis mainParams

/-- A block with a coinbase of some value. -/
def mintBlock (hash hashPrevBlock txid : Uint256) (nValue : Int) : CBlock :=
  { hash := hash, hashPrevBlock := hashPrevBlock
    vtx := [{ hash := txid
              vin := [{ prevout := COutPoint.null, scriptSig := [0, 0] }]
              vout := [⟨nValue, [1]⟩] }] }

/-- The transactions of these blocks by their ids. -/
def mintTx (nValue : Int) (txid : Uint256) : CTransaction :=
  { hash := txid
    vin := [{ prevout := COutPoint.null, scriptSig := [0, 0] }]
    vout := [⟨nValue, [1]⟩] }

def connectMint (synced : Bool) (hash hashPrevBlock txid : Uint256) (nHeight : Nat)
    (nValue : Int) : TipCall :=
  .connect { Sample.node true 0 with masternodeSynced := synced } {}
    { phashBlock := some hash, nHeight := nHeight }
    (some (mintBlock hash hashPrevBlock txid nValue)) false .done

def mintAndUndo : List TipCall :=
  [connectMint true 2 mainParams.hashGenesisBlock 20 1 coin,
    .disconnect (some (mintBlock 2 mainParams.hashGenesisBlock 20 coin)) true .done]

/-- A new block, checked in full, has only to be right above the tip and to bring new ids. -/
theorem admitted_newBlock {params : CChainParams} {txOf : Uint256 → CTransaction}
    {run : SupplyRun} {node : Node} {disk : DiskWrites} {pindexNew : CBlockIndex} {block : CBlock}
    {flush : FlushOutcome} (same : node.params = params) (unwritten : pindexNew.getUndo = none)
    (height : (pindexNew.nHeight : Int) = run.state.height + 1)
    (other : block.hash ≠ params.hashGenesisBlock) (faithful : ∀ tx ∈ block.vtx, txOf tx.hash = tx)
    (distinct : (block.txids ++ chainTxids params run.state.blocks).Nodup) :
    run.Admitted params txOf (.connect node disk pindexNew (some block) false flush) := by
  refine ⟨⟨same, height, ?_⟩, other, ?_, ?_, faithful, distinct⟩
  · rintro read found isGenesis
    cases found
    exact absurd isGenesis other
  · intro checked
    cases checked
  · intro undo found
    rw [unwritten] at found
    cases found

theorem money_supply_mintAndUndo :
    Runs.Throughout step (Accounted mainParams) genesisRun mintAndUndo ∧
      Runs.Throughout step (WithinBound mainParams) genesisRun mintAndUndo := by
  have admitted : Runs.Meets step (Admitted mainParams (mintTx coin)) genesisRun mintAndUndo := by
    refine Runs.Meets.cons (admitted_newBlock rfl rfl rfl (by decide) (by decide) (by decide)) rfl
      (Runs.Meets.cons ⟨?_, trivial⟩ rfl trivial)
    rintro read same
    cases same
    rfl
  have flushed : Runs.Meets step FlushHolds genesisRun mintAndUndo :=
    Runs.Meets.cons (fun _ => rfl) rfl (Runs.Meets.cons (fun _ => rfl) rfl trivial)
  have capped : Runs.Meets step (CappedCall mainParams (mintTx coin)) genesisRun mintAndUndo := by
    refine Runs.Meets.cons ?_ rfl (Runs.Meets.cons trivial rfl trivial)
    rintro _ pprev top
    cases top
    exact ⟨by decide, by decide, by decide, .inl (by decide), by decide⟩
  obtain ⟨accounted, within⟩ :=
    money_supply_throughout (by decide) genesisRun_atGenesis admitted flushed
  exact ⟨accounted, within capped⟩

/-- On a node that is not synced, two blocks of the first hundred make fifty million coins
each. -/
def mintTwice : List TipCall :=
  [connectMint false 2 mainParams.hashGenesisBlock 20 1 (50000000 * coin),
    connectMint false 3 2 21 2 (50000000 * coin)]

/-- The value of such a block is not compared: the supply is twice the bound. -/
theorem mintTwice_beyond_bound :
    genesisRun.AtGenesis mainParams ∧
      Runs.Meets step (Admitted mainParams (mintTx (50000000 * coin))) genesisRun mintTwice ∧
        Runs.Meets step FlushHolds genesisRun mintTwice ∧
          ∃ final, Runs.run step genesisRun mintTwice = some final ∧
            ¬ final.WithinBound mainParams := by
  refine ⟨genesisRun_atGenesis, ?_, ?_, ?_⟩
  · exact Runs.Meets.cons (admitted_newBlock rfl rfl rfl (by decide) (by decide) (by decide)) rfl
      (Runs.Meets.cons (admitted_newBlock rfl rfl rfl (by decide) (by decide) (by decide)) rfl
        trivial)
  · exact Runs.Meets.cons (fun _ => rfl) rfl (Runs.Meets.cons (fun _ => rfl) rfl trivial)
  · refine ⟨_, rfl, fun within => ?_⟩
    obtain ⟨_, _, high⟩ := within _ rfl
    exact absurd high (by decide)

end SupplyRun

end CentNode
