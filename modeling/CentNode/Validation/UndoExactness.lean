import CentNode.Validation.InputChecks
import CentNode.Validation.UndoBlock

/-!
# When disconnecting a block restores the coins

`DisconnectBlock` gives back the coins that `ConnectBlock` was run on exactly
when the undo data can carry the metadata of the records the block empties.
-/

namespace CentNode

open List Option CTransaction CCoins

open FlatCoins

/-! ## The transaction ids of an accepted block -/

/-- Equal ids belong to equal transactions. -/
def TxidsFaithful (txs : List CTransaction) : Prop :=
  ∀ tx ∈ txs, ∀ other ∈ txs, tx.hash = other.hash → tx = other

instance (txs : List CTransaction) : Decidable (TxidsFaithful txs) :=
  inferInstanceAs (Decidable (∀ tx ∈ txs, ∀ other ∈ txs, tx.hash = other.hash → tx = other))

/-- What is known after the transactions `done`: a record that is left comes
from before or was created, and no spent output is left. -/
structure History (view : FlatCoins) (done : List CTransaction) (now : FlatCoins) : Prop where
  known : ∀ txid, (now.coins txid).isPruned = false →
    (view.coins txid).isPruned = false ∨ txid ∈ done.map CTransaction.hash
  spent : ∀ tx ∈ done, ∀ out ∈ tx.spends, (now.coins out.hash).isAvailable out.n = false ∧
    ((view.coins out.hash).isPruned = false ∨ out.hash ∈ done.map CTransaction.hash)

variable {coins : CCoins}

theorem not_pruned_of_available {n : Nat} (there : coins.isAvailable n = true) :
    coins.isPruned = false := by
  rw [Bool.eq_false_iff]
  intro pruned
  rw [isPruned_iff_not_available.mp pruned n] at there
  cases there

/-- A transaction with a new id keeps the history. -/
theorem History.step {view now middle next : FlatCoins} {done : List CTransaction}
    {tx : CTransaction} {nHeight : Int} {vprevout : List CTxInUndo} (history : History view done now)
    (applied : AppliedTx nHeight now tx middle next vprevout)
    (absent : (view.coins tx.hash).isPruned = true) (new : tx.hash ∉ done.map hash) :
    History view (tx :: done) next := by
  -- Whatever was spent so far is known, so it is not an output of the new transaction.
  have foreign : ∀ txid, (view.coins txid).isPruned = false ∨ txid ∈ done.map hash →
      txid ≠ tx.hash := by
    rintro txid (old | created) rfl
    · rw [absent] at old
      cases old
    · exact new created
  have keep : ∀ txid, (view.coins txid).isPruned = false ∨ txid ∈ done.map hash →
      (view.coins txid).isPruned = false ∨ txid ∈ (tx :: done).map hash := by
    rintro txid (old | created)
    · exact Or.inl old
    · exact Or.inr (mem_cons_of_mem _ created)
  refine ⟨fun txid left => ?_, fun other member out input => ?_⟩
  · by_cases same : txid = tx.hash
    · right
      simp [same]
    · rw [applied.others same] at left
      exact keep txid (history.known txid (applied.spent.left txid left).1)
  · rcases mem_cons.mp member with rfl | before
    · have there := applied.spent.present out input
      have origin := history.known out.hash (not_pruned_of_available there)
      refine ⟨?_, keep _ origin⟩
      rw [applied.others (foreign _ origin), Bool.eq_false_iff]
      intro left
      exact ((applied.spent.available out.hash out.n).mp left).2 input
    · obtain ⟨gone, origin⟩ := history.spent other before out input
      refine ⟨?_, keep _ origin⟩
      rw [applied.others (foreign _ origin), Bool.eq_false_iff]
      intro left
      rw [((applied.spent.available out.hash out.n).mp left).1] at gone
      cases gone

variable {nHeight : Int} {txs : List CTransaction} {result : FlatCoins × List CTxUndo}

/-- A transaction cannot be applied twice, because its inputs are gone. -/
theorem distinct_of_applied {view : FlatCoins} {done : List CTransaction} {now : FlatCoins}
    (history : History view done now) (applied : applyTxs nHeight now txs = some result)
    (absent : ∀ tx ∈ txs, (view.coins tx.hash).isPruned = true)
    (spending : ∀ tx ∈ txs, tx.spends ≠ []) (faithful : TxidsFaithful (done ++ txs)) :
    (txs.map hash).Nodup ∧ ∀ tx ∈ txs, tx.hash ∉ done.map hash := by
  induction txs generalizing done now result with
  | nil => exact ⟨nodup_nil, fun _ member => by cases member⟩
  | cons tx rest ih =>
    obtain ⟨middle, next, vprevout, undos, step, followed, _⟩ := applyTxs_cons applied
    have new : tx.hash ∉ done.map hash := by
      intro repeated
      obtain ⟨other, member, same⟩ := List.mem_map.mp repeated
      have equal := faithful other (mem_append_left _ member) tx (by simp) same
      obtain ⟨out, input⟩ := exists_mem_of_ne_nil _ (spending tx mem_cons_self)
      have gone := (history.spent other member out (equal ▸ input)).1
      rw [step.spent.present out input] at gone
      cases gone
    obtain ⟨distinct, apart⟩ := ih (history.step step (absent tx mem_cons_self) new) followed
      (fun other member => absent other (mem_cons_of_mem tx member))
      (fun other member => spending other (mem_cons_of_mem tx member))
      (fun first firstMember second secondMember => faithful first
        (by simp only [mem_append, mem_cons, cons_append] at firstMember ⊢; tauto)
        second
        (by simp only [mem_append, mem_cons, cons_append] at secondMember ⊢; tauto))
    refine ⟨nodup_cons.mpr ⟨fun repeated => ?_, distinct⟩, fun other member => ?_⟩
    · obtain ⟨other, member, same⟩ := List.mem_map.mp repeated
      exact apart other member (by simp [same])
    · rcases mem_cons.mp member with rfl | later
      · exact new
      · exact fun repeated => apart other later (mem_cons_of_mem _ repeated)

/-! ## The shape of a checked block -/

/-- What `CheckBlock` promises of the transactions. -/
structure BlockShape (block : CBlock) : Prop where
  coinbaseFirst : ∃ coinbase rest, block.vtx = coinbase :: rest ∧ coinbase.isCoinBase = true ∧
    ∀ tx ∈ rest, tx.isCoinBase = false
  inputs : ∀ tx ∈ block.vtx, tx.vin ≠ []
  real : ∀ tx ∈ block.vtx, tx.RealOutputs

variable {tx : CTransaction}

theorem nonneg_of_checkOutput {params : CChainParams} {outs : List CTxOut} {start total : Int}
    (passed : outs.foldlM (checkOutput params tx) start = .ok total) :
    ∀ out ∈ outs, 0 ≤ out.nValue := by
  induction outs generalizing start with
  | nil => simp
  | cons first rest ih =>
    rw [foldlM_cons] at passed
    obtain ⟨next, here, followed⟩ := Checked.bind_ok.mp passed
    intro out member
    rcases mem_cons.mp member with rfl | later
    · by_contra negative
      simp only [checkOutput] at here
      split at here
      · cases here
      · rw [if_pos (by omega)] at here
        cases here
    · exact ih followed out later

theorem checkTransaction_ok {node : Node} (passed : checkTransaction node tx = .ok ()) :
    tx.vin ≠ [] ∧ tx.RealOutputs := by
  simp only [checkTransaction] at passed
  split at passed
  · cases passed
  next inputs =>
  split at passed
  · cases passed
  split at passed
  · cases passed
  split at passed
  · cases passed
  next total summed =>
  refine ⟨by simpa using inputs, fun out member => ?_⟩
  have positive := nonneg_of_checkOutput summed out member
  rw [CTxOut.isNull, decide_eq_false_iff_not]
  omega

theorem forM_checkTransaction {node : Node} (passed : txs.forM (checkTransaction node) = .ok ()) :
    ∀ tx ∈ txs, tx.vin ≠ [] ∧ tx.RealOutputs := by
  induction txs with
  | nil => simp
  | cons first rest ih =>
    rw [List.forM_eq_forM, forM_cons] at passed
    obtain ⟨_, here, followed⟩ := Checked.bind_ok.mp passed
    intro tx member
    rcases mem_cons.mp member with rfl | later
    · exact checkTransaction_ok here
    · exact ih followed tx later

theorem blockShape_of_checkBlock {node : Node} {block : CBlock} {fCheckMerkleRoot : Bool}
    (passed : checkBlock node block fCheckMerkleRoot = .ok ()) : BlockShape block := by
  simp only [checkBlock] at passed
  iterate 5
    split at passed
    · cases passed
  split at passed
  · cases passed
  next coinbase =>
  split at passed
  · cases passed
  next others =>
  obtain ⟨_, _, rest⟩ := Checked.bind_ok.mp passed
  obtain ⟨_, _, rest⟩ := Checked.bind_ok.mp rest
  obtain ⟨_, _, rest⟩ := Checked.bind_ok.mp rest
  obtain ⟨_, checked, _⟩ := Checked.bind_ok.mp rest
  have each := forM_checkTransaction checked
  refine ⟨?_, fun tx member => (each tx member).1, fun tx member => (each tx member).2⟩
  cases shape : block.vtx with
  | nil => simp [shape] at coinbase
  | cons first rest =>
    rw [shape] at coinbase others
    exact ⟨first, rest, rfl, by simpa using coinbase, by simpa using others⟩

/-! ## The records a block empties -/

/-- The block spends every output that is left of the record. -/
def Empties (block : CBlock) (txid : Uint256) (coins : CCoins) : Prop :=
  ∀ n, coins.isAvailable n = true → ⟨txid, n⟩ ∈ block.spentOutpoints

theorem spentOutpoints_eq (block : CBlock) :
    block.spentOutpoints = block.vtx.flatMap spends := by
  unfold CBlock.spentOutpoints
  induction block.vtx with
  | nil => rfl
  | cons tx rest ih =>
    rw [flatMap_cons, ← ih]
    cases coinbase : tx.isCoinBase with
    | true => simp [coinbase, spends]
    | false => simp [coinbase, spends]

theorem applyTxs_available {view : FlatCoins} (applied : applyTxs nHeight view txs = some result)
    {txid : Uint256} (old : txid ∉ txs.map hash) (n : Nat) :
    (result.1.coins txid).isAvailable n = true ↔
      (view.coins txid).isAvailable n = true ∧ ⟨txid, n⟩ ∉ txs.flatMap spends := by
  induction txs generalizing view result with
  | nil =>
    cases applied
    simp
  | cons tx rest ih =>
    obtain ⟨middle, next, vprevout, undos, step, followed, _⟩ := applyTxs_cons applied
    obtain ⟨differs, oldLater⟩ := not_or.mp (mem_cons.not.mp old)
    have later := ih followed oldLater
    rw [step.others differs, step.spent.available] at later
    rw [later, flatMap_cons, mem_append, not_or, and_assoc]

theorem applyTxs_created {view : FlatCoins} (applied : applyTxs nHeight view txs = some result)
    (new : NewTxs view txs) (member : tx ∈ txs) (n : Nat) :
    (result.1.coins tx.hash).isAvailable n = true ↔
      (fromTx tx nHeight).isAvailable n = true ∧
        ⟨tx.hash, n⟩ ∉ txs.flatMap spends := by
  induction txs generalizing view result with
  | nil => cases member
  | cons first rest ih =>
    obtain ⟨middle, next, vprevout, undos, step, followed, _⟩ := applyTxs_cons applied
    have unspent : (⟨tx.hash, n⟩ : COutPoint) ∉ first.spends := by
      intro input
      have left := not_pruned_of_available (step.spent.present _ input)
      rw [new.absent tx member] at left
      cases left
    rw [flatMap_cons, mem_append, not_or]
    rcases mem_cons.mp member with rfl | later
    · have rest_eq := applyTxs_available followed (nodup_cons.mp new.distinct).1 n
      rw [step.added] at rest_eq
      rw [rest_eq]
      exact and_congr_right fun _ => ⟨fun apart => ⟨unspent, apart⟩, And.right⟩
    · have rest_eq := ih followed (step.newTxs new) later
      rw [rest_eq]
      exact and_congr_right fun _ => ⟨fun apart => ⟨unspent, apart⟩, And.right⟩

theorem pruned_iff_empties {block : CBlock} {txid : Uint256} {final : CCoins}
    (left : ∀ n, final.isAvailable n = true ↔
      coins.isAvailable n = true ∧ ⟨txid, n⟩ ∉ block.vtx.flatMap spends) :
    final.isPruned = true ↔ Empties block txid coins := by
  rw [isPruned_iff_not_available, Empties, spentOutpoints_eq]
  refine forall_congr' fun n => ?_
  rw [Bool.eq_false_iff, Ne, left n, not_and, not_not]

/-! ## The whole block -/

/-- The undo data can carry the metadata of every record the block empties: no
coinstake, a height from one to below `2 ^ 30`, and no negative version (which
`DisconnectBlock` puts right for the transactions of the block itself). -/
structure UndoLossless (block : CBlock) (nHeight : Int) (view : FlatCoins) : Prop where
  older : ∀ txid, (view.coins txid).isPruned = false → Empties block txid (view.coins txid) →
    (view.coins txid).fCoinStake = false ∧ 0 < (view.coins txid).nHeight ∧
      (view.coins txid).nHeight < 2 ^ 30 ∧ 0 ≤ (view.coins txid).nVersion
  created : ∀ tx ∈ block.vtx, (CCoins.fromTx tx nHeight).isPruned = false →
    Empties block tx.hash (CCoins.fromTx tx nHeight) →
      tx.isCoinStake = false ∧ 0 < nHeight ∧ nHeight < 2 ^ 30

/-- Disconnecting succeeds cleanly and gives back the coins and the best block. -/
def Restores (readable : Bool) (block : CBlock) (result : Connected) (pprev : CBlockIndex)
    (view : FlatCoins) : Prop :=
  ∃ undone, disconnectBlock readable block result.pindex pprev result.view result.mapStakeSpent =
      .ok undone ∧ undone.fClean = true ∧ undone.view.bestBlock = view.bestBlock ∧
    ∀ txid, (undone.view.coins txid).same (view.coins txid) = true

theorem throughUndo_eq_iff :
    coins.throughUndo = coins ↔
      coins.fCoinStake = false ∧ coins.nHeight % 2 ^ 30 = coins.nHeight ∧ 0 ≤ coins.nVersion := by
  rcases coins with ⟨fCoinBase, fCoinStake, vout, nHeight, nVersion⟩
  simp only [throughUndo, CCoins.mk.injEq, true_and]
  have version : varintReadBack nVersion = nVersion ↔ 0 ≤ nVersion := by
    unfold varintReadBack
    split <;> omega
  rw [version, eq_comm]

/-- The condition on the emptied records, and the two things it is needed for. -/
theorem undoLossless_iff {block : CBlock} {view : FlatCoins} {lost : Uint256 → Bool}
    (older : ∀ txid, (view.coins txid).isPruned = false →
      (lost txid = true ↔ Empties block txid (view.coins txid))) (created : ∀ tx ∈ block.vtx,
      (lost tx.hash = true ↔ Empties block tx.hash (fromTx tx nHeight))) :
    UndoLossless block nHeight view ↔
      MetadataKept lost nHeight view block.vtx ∧
        ∀ txid, (view.coins txid).isPruned = false → lost txid = true →
          (view.coins txid).throughUndo = view.coins txid := by
  constructor
  · intro lossless
    refine ⟨⟨fun txid left emptied => ?_, fun tx member left emptied => ?_,
      fun tx member left emptied => ?_⟩, fun txid left emptied => ?_⟩
    · obtain ⟨_, low, high, _⟩ := lossless.older txid left ((older txid left).mp emptied)
      omega
    · obtain ⟨stake, low, high⟩ := lossless.created tx member left ((created tx member).mp emptied)
      exact ⟨stake, by omega⟩
    · obtain ⟨_, low, high⟩ := lossless.created tx member left ((created tx member).mp emptied)
      omega
    · obtain ⟨stake, low, high, version⟩ := lossless.older txid left ((older txid left).mp emptied)
      exact throughUndo_eq_iff.mpr ⟨stake, by omega, version⟩
  · rintro ⟨kept, same⟩
    refine ⟨fun txid left emptied => ?_, fun tx member left emptied => ?_⟩
    · have gone := (older txid left).mpr emptied
      obtain ⟨stake, height, version⟩ := throughUndo_eq_iff.mp (same txid left gone)
      have nonzero := kept.heights txid left gone
      exact ⟨stake, by omega, by omega, version⟩
    · have gone := (created tx member).mpr emptied
      obtain ⟨stake, height⟩ := kept.outputs tx member left gone
      have nonzero := kept.created tx member left gone
      exact ⟨stake, by omega, by omega⟩

theorem same_of_damaged_iff {lost : Uint256 → Bool} {view seen : FlatCoins}
    (damaged : Damaged lost view seen) :
    (∀ txid, (seen.coins txid).same (view.coins txid) = true) ↔
      ∀ txid, (view.coins txid).isPruned = false → lost txid = true →
        (view.coins txid).throughUndo = view.coins txid := by
  refine forall_congr' fun txid => ?_
  cases empty : (view.coins txid).isPruned with
  | true =>
    have seenEmpty : (seen.coins txid).isPruned = true := by rw [damaged.isPruned_eq, empty]
    exact iff_of_true (same_of_pruned seenEmpty empty) fun left => (nomatch left)
  | false =>
    rw [same_iff, empty, damaged.of_not_pruned empty]
    cases lost txid <;> simp

theorem recordUndo_first {disk : DiskWrites} {pindex recorded : CBlockIndex}
    {blockundo : CBlockUndo} (unrecorded : pindex.nStatus.haveUndo = false)
    (wrote : recordUndo disk pindex blockundo = .ok recorded) :
    recorded.getUndo = some blockundo ∧ recorded.getBlockHash = pindex.getBlockHash ∧
      recorded.nHeight = pindex.nHeight := by
  have none_yet : pindex.getUndo = none := by simp [CBlockIndex.getUndo, unrecorded]
  rw [recordUndo, if_pos (Or.inl none_yet), if_pos none_yet] at wrote
  split at wrote
  · cases wrote
  split at wrote
  · cases wrote
  cases wrote
  refine ⟨by simp [CBlockIndex.getUndo], ?_, ?_⟩
  · unfold CBlockIndex.raiseValidity
    split
    · rfl
    · split <;> rfl
  · unfold CBlockIndex.raiseValidity
    split
    · rfl
    · split <;> rfl

theorem newTxs_of_applied {block : CBlock} {view : FlatCoins} (shape : BlockShape block)
    (absent : ∀ tx ∈ block.vtx, (view.coins tx.hash).isPruned = true)
    (faithful : TxidsFaithful block.vtx) (applied : applyTxs nHeight view block.vtx = some result) :
    NewTxs view block.vtx := by
  refine ⟨absent, ?_, shape.real⟩
  obtain ⟨coinbase, rest, vtx_eq, _, others⟩ := shape.coinbaseFirst
  have inputs := shape.inputs
  rw [vtx_eq] at applied absent faithful inputs ⊢
  obtain ⟨middle, next, vprevout, undos, step, followed, _⟩ := applyTxs_cons applied
  have start : History view [] view := ⟨fun _ left => Or.inl left, fun _ member => by cases member⟩
  have history := start.step step (absent coinbase mem_cons_self) not_mem_nil
  obtain ⟨distinct, apart⟩ := distinct_of_applied history followed
    (fun tx member => absent tx (mem_cons_of_mem coinbase member))
    (fun tx member => by
      have spending := inputs tx (mem_cons_of_mem coinbase member)
      simpa [spends, others tx member, prevouts] using spending)
    faithful
  refine nodup_cons.mpr ⟨fun repeated => ?_, distinct⟩
  obtain ⟨tx, member, same⟩ := List.mem_map.mp repeated
  exact apart tx member (by simp [same])

variable {rest : List CTransaction}

theorem applyTxs_coinbase {view : FlatCoins} {coinbase : CTransaction}
    (isCoinbase : coinbase.isCoinBase = true)
    (applied : applyTxs nHeight view (coinbase :: rest) = some result) :
    ∃ stored, result.2 = {} :: stored := by
  obtain ⟨middle, next, vprevout, stored, step, _, pair_eq⟩ := applyTxs_cons applied
  have took := step.took
  simp only [spends, isCoinbase, if_true] at took
  cases took
  exact ⟨stored, pair_eq⟩

theorem disconnectTxs_coinbase {coinbase : CTransaction} {backs : List CTxUndo}
    {start : Disconnected} (isCoinbase : coinbase.isCoinBase = true) :
    disconnectTxs nHeight ((coinbase :: rest).zip (none :: backs.map some)) start =
      disconnectTxs nHeight ((coinbase :: rest).zip ((({} : CTxUndo) :: backs).map some)) start := by
  have unused : disconnectTx nHeight coinbase none = disconnectTx nHeight coinbase (some {}) := by
    funext state
    simp [disconnectTx, isCoinbase]
  rw [map_cons, zip_cons_cons, zip_cons_cons, disconnectTxs, disconnectTxs, unused]

/-- Disconnecting a block right after it was connected for the first time
restores the coins exactly when the undo data lose nothing. -/
theorem disconnectBlock_restores_iff {node : Node} {disk : DiskWrites} {block : CBlock}
    {context : BlockContext node} {view : FlatCoins} {mapStakeSpent : StakeSpent}
    {fAlreadyChecked : Bool} {result : Connected}
    (accepted : Accepted node disk block context view mapStakeSpent fAlreadyChecked result)
    (checkedBefore : fAlreadyChecked = true → checkBlock node block true = .ok ())
    (unrecorded : context.pindex.nStatus.haveUndo = false) (proper : view.Proper node.params)
    (absent : ∀ tx ∈ block.vtx, (view.coins tx.hash).isPruned = true)
    (faithful : TxidsFaithful block.vtx) :
    Restores true block result context.pprev view ↔
      UndoLossless block context.pindex.nHeight view := by
  have checked : checkBlock node block true = .ok () := by
    cases fAlreadyChecked with
    | true => exact checkedBefore rfl
    | false => exact accepted.checked
  have shape := blockShape_of_checkBlock checked
  obtain ⟨state, steps⟩ := accepted.steps
  have finished := finished_of_ok steps.finished
  obtain ⟨undos, applied, collected⟩ := connectTxs_applies steps.looped
  rw [nil_append, if_pos rfl] at collected
  change applyTxs context.pindex.nHeight view block.vtx = some (state.view, undos) at applied
  have new := newTxs_of_applied shape absent faithful applied
  have unrecordedToo : (recordMint context.pindex context.pprev state).nStatus.haveUndo = false :=
    unrecorded
  obtain ⟨undo_eq, hash_eq, height_eq⟩ := recordUndo_first unrecordedToo finished.recorded
  change result.pindex.getBlockHash = context.pindex.getBlockHash at hash_eq
  change result.pindex.nHeight = context.pindex.nHeight at height_eq
  -- A record is lost when the connected block left nothing of it.
  let lost : Uint256 → Bool := fun txid => (state.view.coins txid).isPruned
  have older : ∀ txid, (view.coins txid).isPruned = false →
      (lost txid = true ↔ Empties block txid (view.coins txid)) := by
    intro txid left
    refine pruned_iff_empties (applyTxs_available applied fun created => ?_)
    obtain ⟨tx, member, rfl⟩ := List.mem_map.mp created
    rw [absent tx member] at left
    cases left
  have created : ∀ tx ∈ block.vtx,
      (lost tx.hash = true ↔
        Empties block tx.hash (fromTx tx context.pindex.nHeight)) := by
    intro tx member
    exact pruned_iff_empties (applyTxs_created applied new member)
  rw [undoLossless_iff older created]
  -- The first undo record is that of the coinbase, which is not stored.
  obtain ⟨coinbase, rest, vtx_eq, isCoinbase, _⟩ := shape.coinbaseFirst
  obtain ⟨stored, undos_eq⟩ : ∃ stored, undos = {} :: stored := by
    have first := applied
    rw [vtx_eq] at first
    exact applyTxs_coinbase isCoinbase first
  have stored_eq : state.vtxundo = stored := by rw [collected, undos_eq, tail_cons]
  rw [stored_eq] at undo_eq
  have onTip : result.pindex.getBlockHash = result.view.bestBlock := by
    rw [hash_eq, finished.view_eq]
    rfl
  have readBack_eq : CBlockUndo.readBack ⟨stored⟩ =
      (stored.mapM CTxUndo.readBack).map CBlockUndo.mk := rfl
  unfold Restores disconnectBlock
  rw [if_pos onTip, undo_eq]
  simp only [if_true, readBack_eq]
  cases read : stored.mapM CTxUndo.readBack with
  | none =>
    refine iff_of_false ?_ ?_
    · rintro ⟨_, impossible, _⟩
      cases impossible
    · rintro ⟨kept, _⟩
      obtain ⟨backs, readAll⟩ := readable_of_metadataKept new applied (fun _ => rfl) kept
      rw [undos_eq, mapM_cons] at readAll
      obtain ⟨_, _, others⟩ := bind_eq_some_iff.mp readAll
      rw [read] at others
      cases others
  | some backs =>
    have readAll : undos.mapM CTxUndo.readBack = some ({} :: backs) := by
      rw [undos_eq, mapM_cons, read]
      rfl
    have length_eq : backs.length + 1 = block.vtx.length := by
      rw [← applyTxs_length applied, undos_eq, length_cons, length_of_mapM read]
    have shown : result.view.coins = state.view.coins := by
      rw [finished.view_eq]
      rfl
    let start : Disconnected := ⟨result.view, true, result.mapStakeSpent⟩
    have isClean : start.fClean = true := rfl
    obtain ⟨undone, ran, clean_iff, damaged⟩ :=
      disconnectTxs_spec proper.trimmed new applied readAll (fun _ => rfl) isClean shown
    have loop_eq : disconnectTxs result.pindex.nHeight
        (block.vtx.zip (none :: backs.map some)) ⟨result.view, true, result.mapStakeSpent⟩ =
          .ok undone := by
      rw [height_eq, vtx_eq, disconnectTxs_coinbase isCoinbase, ← vtx_eq]
      exact ran
    simp only [map_some, length_eq, ne_eq, not_true_eq_false, if_false, loop_eq]
    rw [← clean_iff]
    constructor
    · rintro ⟨_, ⟨⟩, clean, _, same⟩
      exact ⟨clean, (same_of_damaged_iff (damaged clean)).mp same⟩
    · rintro ⟨clean, same⟩
      exact ⟨_, rfl, clean, steps.onParent, (same_of_damaged_iff (damaged clean)).mpr same⟩

/-! ## A stake that is undone -/

namespace Sample

def stakeBlock : CBlock := block [coinbase, coinstake]

theorem view_proper : view.Proper mainParams := by
  refine ⟨fun txid => ?_, fun txid => ?_⟩
  · simp only [view]
    split
    · exact ⟨by decide, by decide⟩
    · split
      · exact ⟨by decide, by decide⟩
      · exact proper_cleared
  · simp only [view]
    split
    · decide
    · split <;> decide

theorem stakeBlock_lossless : UndoLossless stakeBlock 5000 view := by
  refine ⟨fun txid left _ => ?_, fun tx member left emptied => ?_⟩
  · simp only [view] at left ⊢
    split at left <;> rename_i first
    · simp [first]
    · split at left <;> rename_i second
      · simp [second]
      · cases left
  · simp only [stakeBlock, block, mem_cons, not_mem_nil, or_false] at member
    rcases member with rfl | rfl
    · decide
    · have spent := emptied 1 (by decide)
      exact absurd spent (by decide)

/-- The old output of the view, as that of a coinstake. -/
def stakedView : FlatCoins where
  coins := fun txid =>
    if txid = 10 then { fCoinStake := true, vout := [⟨100, [3]⟩], nHeight := 1, nVersion := 1 }
    else CCoins.cleared
  bestBlock := 1

end Sample

theorem disconnectBlock_restores_stakeBlock :
    ∃ result, Accepted (Sample.node true 4999) {} Sample.stakeBlock (Sample.context true 4999)
        Sample.view ∅ false result ∧
      Restores true Sample.stakeBlock result (Sample.parent 4999) Sample.view := by
  have accepted : ∃ result, Accepted (Sample.node true 4999) {} Sample.stakeBlock
      (Sample.context true 4999) Sample.view ∅ false result := ⟨_, by decide, rfl⟩
  obtain ⟨result, ok⟩ := accepted
  have restores := disconnectBlock_restores_iff ok (fun impossible => (nomatch impossible)) rfl
    Sample.view_proper (by decide) (by decide)
  exact ⟨result, ok, restores.mpr Sample.stakeBlock_lossless⟩

/-- The stake of a stake loses its coinstake flag when the block is undone. -/
theorem stakedView_not_restored :
    ∃ result undone, Accepted (Sample.node true 4999) {} Sample.stakeBlock
        (Sample.context true 4999) Sample.stakedView ∅ false result ∧
      (∀ tx ∈ Sample.stakeBlock.vtx, (Sample.stakedView.coins tx.hash).isPruned = true) ∧
        disconnectBlock true Sample.stakeBlock result.pindex (Sample.parent 4999) result.view
            result.mapStakeSpent = .ok undone ∧
          undone.fClean = true ∧ (Sample.stakedView.coins 10).fCoinStake = true ∧
            (undone.view.coins 10).fCoinStake = false ∧
              ¬ Restores true Sample.stakeBlock result (Sample.parent 4999)
                Sample.stakedView := by
  refine ⟨_, _, ⟨by decide, rfl⟩, by decide, rfl, rfl, rfl, rfl, ?_⟩
  rintro ⟨undone, ran, _, _, same⟩
  cases ran
  exact absurd (same 10) (by decide)

end CentNode
