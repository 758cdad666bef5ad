import CentNode.Validation.Accepted
import CentNode.Validation.UndoSpends

/-!
# Undoing the transactions of a block

The transactions of a block are applied one after the other and undone in
reverse order.  What is seen in between is described once, by an induction
over the transactions, for the set of records that the whole block emptied.
-/

namespace CentNode

open List Option CCoins

open FlatCoins

/-- The outpoints that a transaction spends; a coinbase spends none. -/
def CTransaction.spends (tx : CTransaction) : List COutPoint :=
  if tx.isCoinBase then [] else tx.prevouts

/-- The coins after the transactions, and their undo data. -/
def applyTxs (nHeight : Int) : FlatCoins → List CTransaction → Option (FlatCoins × List CTxUndo)
  | view, [] => some (view, [])
  | view, tx :: rest =>
    (updateCoins tx view nHeight).bind fun first =>
      (applyTxs nHeight first.1 rest).map fun others => (others.1, first.2 :: others.2)

theorem updateCoins_eq (tx : CTransaction) (view : FlatCoins) (nHeight : Int) :
    updateCoins tx view nHeight =
      (spendInputs view tx.spends).map fun spent =>
        (addOutputs spent.1 tx nHeight, { vprevout := spent.2 }) := by
  unfold updateCoins CTransaction.spends
  split <;> rfl

variable {txs : List CTransaction}

/-- The loop of `ConnectBlock` applies the transactions and keeps their undo
data, but for the first one. -/
theorem connectTxs_applies {node : Node} {rules : BlockRules} {first : Bool}
    {state final : ConnectState} (looped : connectTxs node rules first txs state = .ok final) :
    ∃ undos, applyTxs rules.nHeight state.view txs = some (final.view, undos) ∧
      final.vtxundo = state.vtxundo ++ if first then undos.tail else undos := by
  induction txs generalizing first state with
  | nil =>
    cases looped
    exact ⟨[], rfl, by simp⟩
  | cons tx rest ih =>
    simp only [connectTxs] at looped
    split at looped
    · cases looped
    next next stepped =>
    obtain ⟨updated, ran, moved, undone⟩ := (txConnected_of_ok stepped).updated
    obtain ⟨undos, applied, collected⟩ := ih looped
    rw [moved] at applied
    refine ⟨updated.2 :: undos, by simp only [applyTxs, ran, bind_some, applied]; rfl, ?_⟩
    rw [collected, undone]
    cases first <;> simp

/-! ## The outputs of one transaction -/

/-- Outputs of a transaction that `CheckTransaction` lets pass are not null. -/
def CTransaction.RealOutputs (tx : CTransaction) : Prop := ∀ txout ∈ tx.vout, txout.isNull = false

variable {tx : CTransaction} {nHeight : Int}

theorem fromTx_mem {txout : CTxOut} (member : txout ∈ (fromTx tx nHeight).vout) :
    txout = CTxOut.null ∨ (txout ∈ tx.vout ∧ CScript.isUnspendable txout.scriptPubKey = false) := by
  have inside := ( rdropWhile_prefix CTxOut.isNull _).subset member
  obtain ⟨origin, there, result⟩ := List.mem_map.mp inside
  split at result
  · exact Or.inl result.symm
  · next spendable =>
      subst result
      exact Or.inr ⟨there, by simpa using spendable⟩

theorem fromTx_trimmed (tx : CTransaction) (nHeight : Int) :
    (fromTx tx nHeight).cleanup = fromTx tx nHeight := by
  rw [fromTx, clearUnspendable, cleanup_cleanup]

theorem fromTx_proper (real : tx.RealOutputs) (nHeight : Int) :
    (fromTx tx nHeight).Proper := by
  refine ⟨fromTx_trimmed tx nHeight, fun txout member null => ?_⟩
  rcases fromTx_mem member with blank | ⟨there, _⟩
  · exact blank
  · rw [real txout there] at null
    cases null

theorem clearUnspendable_of_fromTx {coins : CCoins}
    (same : coins.vout = (fromTx tx nHeight).vout) : coins.clearUnspendable = coins := by
  have unchanged : (coins.vout.map fun txout =>
      if CScript.isUnspendable txout.scriptPubKey then CTxOut.null else txout) = coins.vout := by
    refine (map_congr_left fun txout member => ?_).trans (List.map_id coins.vout)
    rw [same] at member
    rcases fromTx_mem member with blank | ⟨_, spendable⟩
    · rw [blank]
      rfl
    · rw [spendable, if_neg Bool.false_ne_true]
      rfl
  rw [clearUnspendable, unchanged]
  exact cleanup_of_vout (fromTx_trimmed tx nHeight) same

theorem isPruned_clearUnspendable {coins : CCoins} (empty : coins.isPruned = true) :
    coins.clearUnspendable.isPruned = true := by
  rw [clearUnspendable, isPruned_cleanup, isPruned_iff]
  intro txout member
  obtain ⟨origin, there, result⟩ := List.mem_map.mp member
  split at result
  · rw [← result]
    rfl
  · rw [← result]
    exact isPruned_iff.mp empty origin there

/-- The metadata of the outputs of a transaction survive the undo code. -/
def OutputsKept (lost : Uint256 → Bool) (nHeight : Int) (tx : CTransaction) : Prop :=
  (CCoins.fromTx tx nHeight).isPruned = false → lost tx.hash = true →
    tx.isCoinStake = false ∧ nHeight % 2 ^ 30 = nHeight

/-- The comparison of `DisconnectBlock` puts a negative version right, and
notices a lost coinstake flag and a lost height. -/
theorem same_outsBlock_iff {outs : CCoins} (lost : Bool)
    (left : (fromTx tx nHeight).isPruned = false)
    (outs_eq : outs = if lost then (fromTx tx nHeight).throughUndo
      else fromTx tx nHeight) :
    (if tx.nVersion < 0 then { outs with nVersion := tx.nVersion } else outs).same
        (fromTx tx nHeight) = true ↔
      (lost = true → tx.isCoinStake = false ∧ nHeight % 2 ^ 30 = nHeight) := by
  rw [same_iff]
  simp only [left, Bool.false_eq_true, and_false, false_or]
  cases lost with
  | false =>
    refine iff_of_true ?_ fun impossible => (nomatch impossible)
    rw [outs_eq]
    split <;> rfl
  | true =>
    rw [if_pos rfl] at outs_eq
    have version_eq : (fromTx tx nHeight).nVersion = tx.nVersion := rfl
    have stake_eq : (fromTx tx nHeight).fCoinStake = tx.isCoinStake := rfl
    have height_eq : (fromTx tx nHeight).nHeight = nHeight := rfl
    have patched : (if tx.nVersion < 0 then { outs with nVersion := tx.nVersion } else outs) =
        { fromTx tx nHeight with fCoinStake := false, nHeight := nHeight % 2 ^ 30 } := by
      rw [outs_eq]
      split
      · rfl
      · next positive =>
          simp only [throughUndo, varintReadBack, version_eq, if_neg positive, height_eq]
    rw [patched]
    constructor
    · intro equal _
      have stake := congrArg CCoins.fCoinStake equal
      have height := congrArg CCoins.nHeight equal
      exact ⟨stake_eq ▸ stake.symm, height_eq ▸ height⟩
    · intro kept
      obtain ⟨stake, height⟩ := kept rfl
      rw [height, ← stake]
      rfl

variable {lost : Uint256 → Bool} {view : FlatCoins}

/-- Removing the outputs of a transaction again. -/
theorem removeOutputs_spec {seen : FlatCoins} (empty : (view.coins tx.hash).isPruned = true)
    (damaged : Damaged lost (addOutputs view tx nHeight) seen) :
    ((removeOutputs seen tx nHeight).2 = true ↔ OutputsKept lost nHeight tx) ∧
      Damaged lost view (removeOutputs seen tx nHeight).1 := by
  have added : (addOutputs view tx nHeight).coins tx.hash = fromTx tx nHeight := by
    rw [addOutputs, modifyCoins_self, fromTx_trimmed]
  refine ⟨?_, fun txid => ?_⟩
  · have version_eq : (fromTx tx nHeight).nVersion = tx.nVersion := rfl
    simp only [removeOutputs, version_eq]
    cases pruned : (fromTx tx nHeight).isPruned with
    | true =>
      have seenPruned : (seen.coins tx.hash).isPruned = true := by
        rw [damaged.isPruned_eq, added, pruned]
      have cleared := isPruned_clearUnspendable seenPruned
      refine iff_of_true (same_of_pruned ?_ pruned) fun left => ?_
      · split <;> exact cleared
      · rw [pruned] at left
        cases left
    | false =>
      have left : ((addOutputs view tx nHeight).coins tx.hash).isPruned = false := by
        rw [added, pruned]
      have record_eq := damaged.of_not_pruned left
      rw [added] at record_eq
      have outputs : (seen.coins tx.hash).vout = (fromTx tx nHeight).vout := by
        rw [record_eq]
        split <;> rfl
      rw [clearUnspendable_of_fromTx outputs, same_outsBlock_iff (lost tx.hash) pruned record_eq]
      exact ⟨fun kept _ => kept, fun kept => kept pruned⟩
  · by_cases same : txid = tx.hash
    · subst same
      left
      refine ⟨empty, ?_⟩
      rw [removeOutputs, modifyCoins_self]
      rfl
    · have before : (removeOutputs seen tx nHeight).1.coins txid = seen.coins txid :=
        modifyCoins_of_ne seen (fun _ => CCoins.cleared) same
      have after : (addOutputs view tx nHeight).coins txid = view.coins txid :=
        modifyCoins_of_ne view _ same
      rw [before, ← after]
      exact damaged txid

/-! ## All transactions -/

/-- The transactions of a block that can be undone: their ids are distinct and
new to the coins, and their outputs are real. -/
structure NewTxs (view : FlatCoins) (txs : List CTransaction) : Prop where
  absent : ∀ tx ∈ txs, (view.coins tx.hash).isPruned = true
  distinct : (txs.map CTransaction.hash).Nodup
  real : ∀ tx ∈ txs, tx.RealOutputs

/-- The steps of applying the first transaction. -/
structure AppliedTx (nHeight : Int) (view : FlatCoins) (tx : CTransaction)
    (middle next : FlatCoins) (vprevout : List CTxInUndo) : Prop where
  took : spendInputs view tx.spends = some (middle, vprevout)
  next_eq : next = addOutputs middle tx nHeight

variable {rest : List CTransaction} {result : FlatCoins × List CTxUndo}

theorem applyTxs_cons (applied : applyTxs nHeight view (tx :: rest) = some result) :
    ∃ middle next vprevout undos, AppliedTx nHeight view tx middle next vprevout ∧
      applyTxs nHeight next rest = some (result.1, undos) ∧ result.2 = ⟨vprevout⟩ :: undos := by
  obtain ⟨first, updated, others⟩ := bind_eq_some_iff.mp applied
  obtain ⟨last, followed, rfl⟩ := map_eq_some_iff.mp others
  rw [updateCoins_eq] at updated
  obtain ⟨spent, took, rfl⟩ := map_eq_some_iff.mp updated
  exact ⟨spent.1, _, spent.2, last.2, ⟨took, rfl⟩, followed, rfl⟩

namespace AppliedTx

variable {nHeight : Int} {view middle next : FlatCoins} {tx : CTransaction}
  {vprevout : List CTxInUndo}

section

variable (step : AppliedTx nHeight view tx middle next vprevout)

include step

theorem spent : SpentInputs view tx.spends middle := spentInputs_of_some step.took

theorem added :
    next.coins tx.hash = fromTx tx nHeight := by
  rw [step.next_eq, addOutputs, modifyCoins_self, fromTx_trimmed]

theorem others {txid : Uint256}
    (differs : txid ≠ tx.hash) : next.coins txid = middle.coins txid := by
  rw [step.next_eq]
  exact modifyCoins_of_ne middle _ differs

theorem trimmed (ok : view.Trimmed)
    (real : tx.RealOutputs) : next.Trimmed := by
  intro txid
  by_cases same : txid = tx.hash
  · rw [same, step.added]
    exact fromTx_proper real nHeight
  · rw [step.others same]
    exact step.spent.trimmed ok txid

theorem newTxs {rest : List CTransaction}
    (new : NewTxs view (tx :: rest)) : NewTxs next rest := by
  obtain ⟨notLater, distinct⟩ := nodup_cons.mp new.distinct
  refine ⟨fun later member => ?_, distinct, fun later member =>
    new.real later (mem_cons_of_mem tx member)⟩
  have differs : later.hash ≠ tx.hash := fun same => notLater (same ▸ List.mem_map_of_mem member)
  rw [step.others differs]
  exact step.spent.pruned (new.absent later (mem_cons_of_mem tx member))

end

end AppliedTx

theorem applyTxs_pruned (applied : applyTxs nHeight view txs = some result) {txid : Uint256}
    (absent : txid ∉ txs.map CTransaction.hash) (empty : (view.coins txid).isPruned = true) :
    (result.1.coins txid).isPruned = true := by
  induction txs generalizing view result with
  | nil =>
    cases applied
    exact empty
  | cons tx rest ih =>
    obtain ⟨middle, next, vprevout, undos, step, followed, _⟩ := applyTxs_cons applied
    obtain ⟨differs, absentLater⟩ := not_or.mp (mem_cons.not.mp absent)
    have emptyNext : (next.coins txid).isPruned = true := by
      rw [step.others differs]
      exact step.spent.pruned empty
    have emptyLast := ih followed absentLater emptyNext
    exact emptyLast

/-- The metadata that undoing the transactions needs survive the undo code. -/
structure MetadataKept (lost : Uint256 → Bool) (nHeight : Int) (view : FlatCoins)
    (txs : List CTransaction) : Prop where
  heights : ∀ txid, (view.coins txid).isPruned = false → lost txid = true →
    (view.coins txid).nHeight % 2 ^ 30 ≠ 0
  outputs : ∀ tx ∈ txs, OutputsKept lost nHeight tx
  created : ∀ tx ∈ txs, (CCoins.fromTx tx nHeight).isPruned = false → lost tx.hash = true →
    nHeight % 2 ^ 30 ≠ 0

variable {middle next : FlatCoins} {backs vprevout : List CTxInUndo}

/-- The condition for the transactions, one at a time. -/
theorem metadataKept_cons
    (step : AppliedTx nHeight view tx middle next vprevout) (new : NewTxs view (tx :: rest))
    (gone : ∀ txid, (view.coins txid).isPruned = false → (middle.coins txid).isPruned = true →
      lost txid = true) :
    MetadataKept lost nHeight view (tx :: rest) ↔
      MetadataKept lost nHeight next rest ∧ OutputsKept lost nHeight tx ∧
        HeightsKept view middle := by
  have empty := new.absent tx mem_cons_self
  constructor
  · intro kept
    refine ⟨⟨fun txid left emptied => ?_, fun later member =>
        kept.outputs later (mem_cons_of_mem tx member), fun later member =>
        kept.created later (mem_cons_of_mem tx member)⟩,
      kept.outputs tx mem_cons_self, fun txid left emptied =>
        kept.heights txid left (gone txid left emptied)⟩
    by_cases same : txid = tx.hash
    · subst same
      rw [step.added] at left ⊢
      exact kept.created tx mem_cons_self left emptied
    · rw [step.others same] at left ⊢
      obtain ⟨before, height⟩ := step.spent.left txid left
      rw [height]
      exact kept.heights txid before emptied
  · rintro ⟨later, here, heights⟩
    refine ⟨fun txid left emptied => ?_, fun other member => ?_, fun other member left emptied => ?_⟩
    · cases after : (middle.coins txid).isPruned with
      | true => exact heights txid left after
      | false =>
        have differs : txid ≠ tx.hash := by
          rintro rfl
          rw [empty] at left
          cases left
        rw [← (step.spent.left txid after).2, ← step.others differs]
        exact later.heights txid (by rw [step.others differs, after]) emptied
    · rcases mem_cons.mp member with rfl | behind
      · exact here
      · exact later.outputs other behind
    · rcases mem_cons.mp member with rfl | behind
      · have height := later.heights other.hash (by rw [step.added, left]) emptied
        rwa [step.added] at height
      · exact later.created other behind left emptied

theorem lost_of_emptied
    (step : AppliedTx nHeight view tx middle next vprevout) (new : NewTxs view (tx :: rest))
    (followed : applyTxs nHeight next rest = some result)
    (final : ∀ txid, lost txid = (result.1.coins txid).isPruned) (txid : Uint256)
    (left : (view.coins txid).isPruned = false) (emptied : (middle.coins txid).isPruned = true) :
    lost txid = true := by
  have old : ∀ later ∈ tx :: rest, txid ≠ later.hash := by
    rintro later member rfl
    rw [new.absent later member] at left
    cases left
  rw [final]
  refine applyTxs_pruned followed (fun created => ?_) ?_
  · obtain ⟨later, member, same⟩ := List.mem_map.mp created
    exact old later (mem_cons_of_mem tx member) same.symm
  · rw [step.others (old tx mem_cons_self), emptied]

theorem length_of_mapM {α β : Type} {f : α → Option β} {list : List α} {images : List β}
    (mapped : list.mapM f = some images) : images.length = list.length := by
  induction list generalizing images with
  | nil =>
    cases mapped
    rfl
  | cons head rest ih =>
    rw [mapM_cons] at mapped
    obtain ⟨first, _, others⟩ := bind_eq_some_iff.mp mapped
    obtain ⟨last, followed, done⟩ := bind_eq_some_iff.mp others
    cases done
    simp [ih followed]

theorem disconnectTx_eq {state : Disconnected}
    (length_eq : backs.length = tx.spends.length) :
    disconnectTx nHeight tx (some ⟨backs⟩) state =
      .ok (restoreInputs tx.spends backs
        { state with
          view := (removeOutputs state.view tx nHeight).1
          fClean := state.fClean && (removeOutputs state.view tx nHeight).2 }) := by
  simp only [disconnectTx, CTransaction.spends] at length_eq ⊢
  split
  · rfl
  · next spends =>
      rw [if_neg spends] at length_eq
      simp only [CTransaction.prevouts, length_map] at length_eq
      rw [if_neg (not_not.mpr length_eq)]

/-- Undoing all transactions is clean exactly when the metadata are kept, and
then shows the coins before them, up to the emptied records. -/
theorem disconnectTxs_spec {backs : List CTxUndo} {start : Disconnected} (ok : view.Trimmed)
    (new : NewTxs view txs) (applied : applyTxs nHeight view txs = some result)
    (read : result.2.mapM CTxUndo.readBack = some backs)
    (final : ∀ txid, lost txid = (result.1.coins txid).isPruned) (clean : start.fClean = true)
    (shown : start.view.coins = result.1.coins) :
    ∃ undone, disconnectTxs nHeight (txs.zip (backs.map some)) start = .ok undone ∧
      (undone.fClean = true ↔ MetadataKept lost nHeight view txs) ∧
        (undone.fClean = true → Damaged lost view undone.view) := by
  induction txs generalizing view result backs with
  | nil =>
    cases applied
    have vacuous : MetadataKept lost nHeight view [] := by
      refine ⟨fun txid left emptied => ?_, by simp, by simp⟩
      rw [final, left] at emptied
      cases emptied
    refine ⟨start, rfl, iff_of_true clean vacuous, fun _ txid => ?_⟩
    rw [shown, final]
    cases empty : (view.coins txid).isPruned with
    | true => exact Or.inl ⟨rfl, rfl⟩
    | false => exact Or.inr rfl
  | cons tx rest ih =>
    obtain ⟨middle, next, vprevout, undos, step, followed, undo_eq⟩ := applyTxs_cons applied
    rw [undo_eq, mapM_cons] at read
    obtain ⟨back, readOne, readRest⟩ := bind_eq_some_iff.mp read
    obtain ⟨backRest, readMore, done⟩ := bind_eq_some_iff.mp readRest
    cases done
    obtain ⟨vback, readInputs, rfl⟩ := map_eq_some_iff.mp readOne
    obtain ⟨later, ran, laterClean, laterDamaged⟩ := ih
      (step.trimmed ok (new.real tx mem_cons_self)) (step.newTxs new) followed readMore final
      shown
    have gone := lost_of_emptied step new followed final
    have length_eq : vback.length = tx.spends.length := by
      rw [← spendInputs_length step.took]
      exact length_of_mapM readInputs
    have removed := fun isClean => removeOutputs_spec
      (step.spent.pruned (new.absent tx mem_cons_self)) (step.next_eq ▸ laterDamaged isClean)
    let cleared : Disconnected :=
      { later with
        view := (removeOutputs later.view tx nHeight).1
        fClean := later.fClean && (removeOutputs later.view tx nHeight).2 }
    have clearedDamaged : cleared.fClean = true → Damaged lost middle cleared.view :=
      fun isClean => (removed (Bool.and_eq_true_iff.mp isClean).1).2
    obtain ⟨undoneClean, undoneDamaged⟩ :=
      restoreInputs_spec ok step.took readInputs gone clearedDamaged
    refine ⟨_, ?_, ?_, undoneDamaged⟩
    · rw [map_cons, zip_cons_cons, disconnectTxs, ran]
      exact disconnectTx_eq length_eq
    · rw [undoneClean, metadataKept_cons step new gone, ← laterClean, Bool.and_eq_true]
      constructor
      · rintro ⟨⟨isClean, matched⟩, heights⟩
        exact ⟨isClean, (removed isClean).1.mp matched, heights⟩
      · rintro ⟨isClean, outputs, heights⟩
        exact ⟨⟨isClean, (removed isClean).1.mpr outputs⟩, heights⟩

theorem applyTxs_length (applied : applyTxs nHeight view txs = some result) :
    result.2.length = txs.length := by
  induction txs generalizing view result with
  | nil =>
    cases applied
    rfl
  | cons tx rest ih =>
    obtain ⟨middle, next, vprevout, undos, _, followed, undo_eq⟩ := applyTxs_cons applied
    rw [undo_eq, length_cons, length_cons, ← ih followed]

theorem readable_of_metadataKept (new : NewTxs view txs)
    (applied : applyTxs nHeight view txs = some result)
    (final : ∀ txid, lost txid = (result.1.coins txid).isPruned)
    (kept : MetadataKept lost nHeight view txs) :
    ∃ backs, result.2.mapM CTxUndo.readBack = some backs := by
  induction txs generalizing view result with
  | nil =>
    cases applied
    exact ⟨[], rfl⟩
  | cons tx rest ih =>
    obtain ⟨middle, next, vprevout, undos, step, followed, undo_eq⟩ := applyTxs_cons applied
    obtain ⟨later, _, heights⟩ :=
      (metadataKept_cons step new (lost_of_emptied step new followed final)).mp kept
    obtain ⟨backs, readMore⟩ := ih (step.newTxs new) followed final later
    obtain ⟨vback, readInputs⟩ := readable_of_heightsKept step.took heights
    refine ⟨⟨vback⟩ :: backs, ?_⟩
    have readOne : CTxUndo.readBack ⟨vprevout⟩ = some ⟨vback⟩ := by
      rw [CTxUndo.readBack, readInputs]
      rfl
    rw [undo_eq, mapM_cons, readOne]
    change (undos.mapM CTxUndo.readBack).bind _ = _
    rw [readMore]
    rfl

end CentNode
