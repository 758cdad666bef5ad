import CentNode.Validation.ConnectBlock

/-!
# What an accepted block went through

The steps of `ConnectBlock`, read off its acceptance.
-/

namespace CentNode

open Option List

/-- An index entry with its ancestors, as the block index of the node has them. -/
structure BlockContext (node : Node) where
  pindex : CBlockIndex
  pprev : CBlockIndex
  rest : List CBlockIndex
  registered : node.mapBlockIndex pprev.getBlockHash = some pprev
  height : pindex.nHeight = pprev.nHeight + 1

/-- The parent and what comes before it. -/
def BlockContext.ancestors {node : Node} (context : BlockContext node) : List CBlockIndex :=
  context.pprev :: context.rest

def BlockContext.rules {node : Node} (context : BlockContext node) (block : CBlock) : BlockRules :=
  blockRules node block context.pindex context.ancestors

/-- `ConnectBlock` with `fJustCheck = false`, on a block that is not the genesis block. -/
structure Accepted (node : Node) (disk : DiskWrites) (block : CBlock) (context : BlockContext node)
    (view : FlatCoins) (mapStakeSpent : StakeSpent) (fAlreadyChecked : Bool) (result : Connected) :
    Prop where
  notGenesis : block.hash ≠ node.params.hashGenesisBlock
  connected : connectBlock node disk block context.pindex context.ancestors view mapStakeSpent false
    fAlreadyChecked = .ok result

/-- The coins after some transactions of a block. -/
def coinsAfter (nHeight : Int) : FlatCoins → List CTransaction → Option FlatCoins
  | view, [] => some view
  | view, tx :: rest =>
    (updateCoins tx view nHeight).bind fun updated => coinsAfter nHeight updated.1 rest

/-- The steps of an accepted connection. -/
structure ConnectSteps (node : Node) (disk : DiskWrites) (block : CBlock)
    (context : BlockContext node) (view : FlatCoins) (mapStakeSpent : StakeSpent)
    (result : Connected) (state : ConnectState) : Prop where
  onParent : context.pprev.getBlockHash = view.bestBlock
  preliminary : connectPreliminary node block context.pindex view = .ok ()
  looped : connectTxs node (context.rules block) true block.vtx { view := view } = .ok state
  finished : finishConnect node disk block context.pindex context.pprev mapStakeSpent false state =
    .ok result

section

variable {node : Node} {disk : DiskWrites} {block : CBlock} {context : BlockContext node}
  {view : FlatCoins} {mapStakeSpent : StakeSpent} {fAlreadyChecked : Bool} {result : Connected}

theorem Accepted.steps
    (accepted : Accepted node disk block context view mapStakeSpent fAlreadyChecked result) :
    ∃ state, ConnectSteps node disk block context view mapStakeSpent result state := by
  have connected := accepted.connected
  rw [connectBlock] at connected
  split at connected
  · cases connected
  by_cases onParent : hashPrevBlock context.ancestors = view.bestBlock
  swap
  · rw [if_neg onParent] at connected
    cases connected
  rw [if_pos onParent, if_neg accepted.notGenesis] at connected
  split at connected
  · cases connected
  next preliminary =>
  split at connected
  · cases connected
  next state looped =>
  exact ⟨state, ⟨onParent, preliminary, looped, connected⟩⟩

theorem Accepted.checked
    (accepted : Accepted node disk block context view mapStakeSpent false result) :
    checkBlock node block true = .ok () := by
  have connected := accepted.connected
  unfold connectBlock at connected
  split at connected
  · cases connected
  · next checked => exact checked

/-- What the end of an accepted connection checked and wrote. -/
structure Finished (node : Node) (disk : DiskWrites) (block : CBlock) (pindex pprev : CBlockIndex)
    (mapStakeSpent : StakeSpent) (state : ConnectState) (result : Connected) : Prop where
  value : ∃ tip, node.tip = some tip ∧
    isBlockValueValid node block (expectedMint node tip pprev block state.nFees)
      (recordMint pindex pprev state).nMint = true
  scripts : ∀ check ∈ state.vChecks, check.passes node.prim = true
  recorded : recordUndo disk (recordMint pindex pprev state) { vtxundo := state.vtxundo } =
    .ok result.pindex
  view_eq : result.view = state.view.setBestBlock pindex.getBlockHash
  spent_eq : result.mapStakeSpent = (mapStakeSpent.add block pindex.nHeight).deleteOld
    (pindex.nHeight - node.params.maxReorganizationDepth)

theorem finished_of_ok {pindex pprev : CBlockIndex} {state : ConnectState}
    (finished : finishConnect node disk block pindex pprev mapStakeSpent false state = .ok result) :
    Finished node disk block pindex pprev mapStakeSpent state result := by
  simp only [finishConnect, Bool.false_eq_true, if_false] at finished
  split at finished
  · cases finished
  split at finished
  · cases finished
  next tip active =>
  split at finished
  · cases finished
  next value =>
  split at finished
  · cases finished
  next scripts =>
  split at finished
  · cases finished
  next recorded wrote =>
  split at finished
  · cases finished
  cases finished
  exact ⟨⟨tip, active, by simpa using value⟩, by simpa using scripts, wrote, rfl, rfl⟩

theorem recordUndo_field {Value : Type} (field : CBlockIndex → Value)
    (other : ∀ entry undoData nStatus,
      field { entry with undoData := undoData, nStatus := nStatus } = field entry)
    {pindex recorded : CBlockIndex} {blockundo : CBlockUndo}
    (wrote : recordUndo disk pindex blockundo = .ok recorded) : field recorded = field pindex := by
  have raised : ∀ entry : CBlockIndex, field (entry.raiseValidity .scripts) = field entry := by
    intro entry
    unfold CBlockIndex.raiseValidity
    split
    · rfl
    · split
      · exact other entry entry.undoData _
      · rfl
  unfold recordUndo at wrote
  split at wrote
  · split at wrote
    · split at wrote
      · cases wrote
      · split at wrote
        · cases wrote
        · cases wrote
          rw [raised]
          exact other pindex blockundo _
    · cases wrote
      exact raised pindex
  · cases wrote
    rfl

theorem recordUndo_keeps {pindex recorded : CBlockIndex} {blockundo : CBlockUndo}
    (wrote : recordUndo disk pindex blockundo = .ok recorded) :
    recorded.nMint = pindex.nMint ∧ recorded.phashBlock = pindex.phashBlock :=
  ⟨recordUndo_field (·.nMint) (fun _ _ _ => rfl) wrote,
    recordUndo_field (·.phashBlock) (fun _ _ _ => rfl) wrote⟩

end

/-- How a block other than the genesis block was connected, whatever the index says. -/
structure ConnectedOn (node : Node) (disk : DiskWrites) (block : CBlock) (pindex : CBlockIndex)
    (ancestors : List CBlockIndex) (view : FlatCoins) (mapStakeSpent : StakeSpent)
    (result : Connected) (pprev : CBlockIndex) (state : ConnectState) : Prop where
  parent : ancestors.head? = some pprev
  onParent : hashPrevBlock ancestors = view.bestBlock
  preliminary : connectPreliminary node block pindex view = .ok ()
  looped : connectTxs node (blockRules node block pindex ancestors) true block.vtx
    { view := view } = .ok state
  finished : Finished node disk block pindex pprev mapStakeSpent state result

variable {node : Node} {disk : DiskWrites} {block : CBlock} {pindex : CBlockIndex}
  {view : FlatCoins} {mapStakeSpent : StakeSpent} {fAlreadyChecked : Bool} {result : Connected}

section

variable {ancestors : List CBlockIndex}
  (connected : connectBlock node disk block pindex ancestors view mapStakeSpent false fAlreadyChecked = .ok result)

include connected

/-- The two ways of `ConnectBlock` to accept a block. -/
theorem connectBlock_cases :
    (block.hash = node.params.hashGenesisBlock ∧
      result = ⟨view.setBestBlock pindex.getBlockHash, pindex, mapStakeSpent⟩) ∨
    (block.hash ≠ node.params.hashGenesisBlock ∧ ∃ pprev state,
      ConnectedOn node disk block pindex ancestors view mapStakeSpent result pprev state) := by
  rw [connectBlock] at connected
  split at connected
  · cases connected
  by_cases onParent : hashPrevBlock ancestors = view.bestBlock
  swap
  · rw [if_neg onParent] at connected
    cases connected
  rw [if_pos onParent] at connected
  by_cases genesis : block.hash = node.params.hashGenesisBlock
  · rw [if_pos genesis] at connected
    cases connected
    exact Or.inl ⟨genesis, rfl⟩
  rw [if_neg genesis] at connected
  split at connected
  · cases connected
  next preliminary =>
  split at connected
  · cases connected
  next state looped =>
  split at connected
  · cases connected
  next pprev parent =>
  exact Or.inr ⟨genesis, pprev, state, parent, onParent, preliminary, looped,
    finished_of_ok connected⟩

/-- Whatever block `ConnectBlock` accepts, it makes it the best block of the view. -/
theorem connectBlock_bestBlock :
    result.view.bestBlock = pindex.getBlockHash ∧
      result.pindex.getBlockHash = pindex.getBlockHash := by
  rcases connectBlock_cases connected with ⟨_, rfl⟩ | ⟨_, pprev, state, steps⟩
  · exact ⟨rfl, rfl⟩
  · refine ⟨by rw [steps.finished.view_eq]; rfl, ?_⟩
    have kept := (recordUndo_keeps steps.finished.recorded).2
    rw [CBlockIndex.getBlockHash, kept]
    rfl

theorem connectBlock_height : result.pindex.nHeight = pindex.nHeight := by
  rcases connectBlock_cases connected with ⟨_, rfl⟩ | ⟨_, pprev, state, steps⟩
  · rfl
  · have kept := recordUndo_field (·.nHeight) (fun _ _ _ => rfl) steps.finished.recorded
    exact kept

end

/-! ## The loop -/

/-- What the inputs of a transaction went through before it was applied. -/
structure InputsChecked (node : Node) (rules : BlockRules) (tx : CTransaction)
    (state checked : ConnectState) : Prop where
  haveInputs : state.view.haveInputs tx = true
  viewKept : checked.view = state.view
  undoKept : checked.vtxundo = state.vtxundo
  checks : ∃ vChecks, checkInputs node tx state.view rules.fScriptChecks rules.flags = .ok vChecks ∧
    checked.vChecks = state.vChecks ++ vChecks

variable {tx : CTransaction} {state : ConnectState}

theorem inputsChecked_of_ok {rules : BlockRules} {checked : ConnectState}
    (passed : connectInputs node rules tx state = .ok checked) :
    InputsChecked node rules tx state checked := by
  simp only [connectInputs] at passed
  split at passed
  · cases passed
  next present =>
  split at passed
  · cases passed
  split at passed
  · cases passed
  obtain ⟨nFees, _, rest⟩ := Checked.bind_ok.mp passed
  obtain ⟨vChecks, ran, done⟩ := Checked.bind_ok.mp rest
  cases done
  exact ⟨by simpa using present, rfl, rfl, vChecks, ran, rfl⟩

/-- What one iteration checked before it applied the transaction. -/
structure TxChecked (node : Node) (rules : BlockRules) (tx : CTransaction)
    (state checked : ConnectState) : Prop where
  viewKept : checked.view = state.view
  undoKept : checked.vtxundo = state.vtxundo
  checksKept : state.vChecks <+: checked.vChecks
  inputs : tx.isCoinBase = false → state.view.haveInputs tx = true ∧
    ∃ vChecks, checkInputs node tx state.view rules.fScriptChecks rules.flags = .ok vChecks ∧
      checked.vChecks = state.vChecks ++ vChecks

theorem txChecked_of_ok {rules : BlockRules} {checked : ConnectState}
    (passed : checkTx node rules tx state = .ok checked) :
    TxChecked node rules tx state checked := by
  simp only [checkTx] at passed
  split at passed
  · cases passed
  split at passed
  · next coinbase =>
      cases passed
      exact ⟨rfl, rfl, prefix_rfl, fun spends => by simp [coinbase] at spends⟩
  · have inputs := inputsChecked_of_ok passed
    obtain ⟨vChecks, ran, added⟩ := inputs.checks
    exact ⟨inputs.viewKept, inputs.undoKept, ⟨vChecks, added.symm⟩,
      fun _ => ⟨inputs.haveInputs, vChecks, ran, added⟩⟩

/-- One iteration applies the transaction to the coins it was checked against. -/
structure TxConnected (node : Node) (rules : BlockRules) (first : Bool) (tx : CTransaction)
    (state next : ConnectState) : Prop where
  checked : ∃ checked, TxChecked node rules tx state checked ∧ next.vChecks = checked.vChecks
  updated : ∃ updated, updateCoins tx state.view rules.nHeight = some updated ∧
    next.view = updated.1 ∧
      next.vtxundo = if first then state.vtxundo else state.vtxundo ++ [updated.2]

variable {first : Bool}

theorem txConnected_of_ok {rules : BlockRules} {next : ConnectState}
    (stepped : connectTx node rules first tx state = .ok next) :
    TxConnected node rules first tx state next := by
  obtain ⟨checked, passed, applied⟩ := Checked.bind_ok.mp stepped
  have facts := txChecked_of_ok passed
  simp only [applyTx] at applied
  split at applied
  · cases applied
  split at applied
  · cases applied
  next updated ran =>
  cases applied
  rw [facts.viewKept] at ran
  exact ⟨⟨checked, facts, rfl⟩, updated, ran, rfl, by rw [facts.undoKept]⟩

theorem TxConnected.vChecks_grow {rules : BlockRules} {next : ConnectState}
    (connected : TxConnected node rules first tx state next) : state.vChecks <+: next.vChecks := by
  obtain ⟨checked, facts, same⟩ := connected.checked
  rw [same]
  exact facts.checksKept

variable {txs : List CTransaction}

variable {nHeight : Int} {rules : BlockRules} {before after : List CTransaction}
  {final : ConnectState}

theorem connectTxs_vChecks_grow (looped : connectTxs node rules first txs state = .ok final) :
    state.vChecks <+: final.vChecks := by
  induction txs generalizing first state with
  | nil =>
    cases looped
    exact prefix_rfl
  | cons tx rest ih =>
    simp only [connectTxs] at looped
    split at looped
    · cases looped
    · next next stepped => exact (txConnected_of_ok stepped).vChecks_grow.trans (ih looped)

theorem connectTxs_at
    (looped : connectTxs node rules first (before ++ tx :: after) state = .ok final) :
    ∃ current next, coinsAfter rules.nHeight state.view before = some current.view ∧
      TxConnected node rules (first && before.isEmpty) tx current next ∧
        next.vChecks <+: final.vChecks := by
  induction before generalizing first state with
  | nil =>
    simp only [nil_append, connectTxs] at looped
    split at looped
    · cases looped
    · next next stepped =>
        have connected := txConnected_of_ok stepped
        exact ⟨state, next, rfl, by simpa using connected, connectTxs_vChecks_grow looped⟩
  | cons head rest ih =>
    simp only [cons_append, connectTxs] at looped
    split at looped
    · cases looped
    · next next stepped =>
        obtain ⟨updated, ran, moved, _⟩ := (txConnected_of_ok stepped).updated
        obtain ⟨current, last, reached, connected, more⟩ := ih looped
        refine ⟨current, last, ?_, by simpa using connected, more⟩
        rw [coinsAfter, ran, bind_some, ← moved]
        exact reached

theorem updateCoins_bestBlock {updated : FlatCoins × CTxUndo}
    (ran : updateCoins tx view nHeight = some updated) :
    updated.1.bestBlock = view.bestBlock := by
  have spends : ∀ (prevouts : List COutPoint) (start : FlatCoins)
      (spent : FlatCoins × List CTxInUndo),
      spendInputs start prevouts = some spent → spent.1.bestBlock = start.bestBlock := by
    intro prevouts
    induction prevouts with
    | nil =>
      intro start spent done
      cases done
      rfl
    | cons prevout rest ih =>
      intro start spent done
      obtain ⟨first, taken, others⟩ := bind_eq_some_iff.mp done
      obtain ⟨last, followed, rfl⟩ := map_eq_some_iff.mp others
      obtain ⟨record, _, rfl⟩ := map_eq_some_iff.mp taken
      have kept := ih _ _ followed
      exact kept
  unfold updateCoins at ran
  split at ran
  · cases ran
    rfl
  · obtain ⟨spent, taken, rfl⟩ := map_eq_some_iff.mp ran
    exact spends _ _ _ taken

theorem coinsAfter_bestBlock {after : FlatCoins}
    (ran : coinsAfter nHeight view txs = some after) : after.bestBlock = view.bestBlock := by
  induction txs generalizing view with
  | nil =>
    cases ran
    rfl
  | cons tx rest ih =>
    obtain ⟨updated, stepped, followed⟩ := bind_eq_some_iff.mp ran
    rw [ih followed, updateCoins_bestBlock stepped]

end CentNode
