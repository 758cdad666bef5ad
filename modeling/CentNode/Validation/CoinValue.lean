import CentNode.Coins.Unspent
import CentNode.Validation.MintBound
import CentNode.Validation.UndoExactness

/-!
# What blocks do to the value of the coins

When no two transactions share an id, the id of an outpoint tells what it is
worth.  A block takes the worth of its inputs from the coins and adds what its
outputs are worth, and undoing it cleanly does the reverse.
-/

namespace CentNode

open List Option Bool CTransaction CCoins

open FlatCoins

section Traced

variable (txOf : Uint256 → CTransaction)

/-- The output that an outpoint names, where the transactions have the given ids. -/
def spendableAt (out : COutPoint) : Option CTxOut :=
  (txOf out.hash).vout[out.n]?.filter CTxOut.spendable

def worth (out : COutPoint) : Int := ((spendableAt txOf out).map (·.nValue)).getD 0

/-- What a transaction takes in. -/
def CTransaction.worthIn (tx : CTransaction) : Int := (tx.spends.map (worth txOf)).sum

/-- Every unspent output is that of the transaction with its id. -/
def FlatCoins.Traced (view : FlatCoins) : Prop :=
  ∀ txid n txout, (view.coins txid).output n = some txout → spendableAt txOf ⟨txid, n⟩ = some txout

/-- The undo data of a transaction hold the outputs that it spends. -/
def UndoFits (tx : CTransaction) (txundo : CTxUndo) : Prop :=
  txundo.vprevout.map (fun undo => some undo.txout) = tx.spends.map (spendableAt txOf)

end Traced

/-- Unspent outputs come from transactions with one of the ids. -/
def FlatCoins.KnownIn (view : FlatCoins) (ids : List Uint256) : Prop :=
  ∀ txid, (view.coins txid).isPruned = false → txid ∈ ids

/-- Each transaction spends outputs of earlier ones only. -/
def InputsKnown : List Uint256 → List CTransaction → Prop
  | _, [] => True
  | ids, tx :: rest => (∀ out ∈ tx.spends, out.hash ∈ ids) ∧ InputsKnown (tx.hash :: ids) rest

variable {txOf : Uint256 → CTransaction}

variable {out : COutPoint}

theorem spendableAt_not_null {txout : CTxOut} (found : spendableAt txOf out = some txout) :
    txout.isNull = false ∧ CScript.isUnspendable txout.scriptPubKey = false := by
  have kept := (filter_eq_some_iff.mp found).2
  simpa [CTxOut.spendable] using kept

theorem worth_eq {txout : CTxOut} (found : spendableAt txOf out = some txout) :
    worth txOf out = txout.nValue := by
  rw [worth, found]
  rfl

/-! ## Spending -/

variable {view next : FlatCoins} {undo : CTxInUndo}

section

variable (spent : SpentInput view out next undo)

include spent

theorem SpentInput.undo_eq (traced : view.Traced txOf) :
    spendableAt txOf out = some undo.txout :=
  traced out.hash out.n undo.txout spent.record.output_self

theorem SpentInput.traced (traced : view.Traced txOf) :
    next.Traced txOf := by
  intro txid n txout found
  by_cases same : txid = out.hash
  · subst same
    rw [spent.record.output_rest] at found
    split at found
    · cases found
    · exact traced _ n txout found
  · rw [spent.others txid same] at found
    exact traced txid n txout found

theorem SpentInput.total_eq :
    next.total = view.total - undo.txout.nValue := by
  rw [total_of_changed spent.others, spent.record.value_rest]
  omega

end

variable {outs : List COutPoint} {undos : List CTxInUndo}

theorem spendInputs_worth (took : spendInputs view outs = some (next, undos))
    (traced : view.Traced txOf) :
    next.Traced txOf ∧ undos.map (fun undo => some undo.txout) = outs.map (spendableAt txOf) ∧
      next.total = view.total - (outs.map (worth txOf)).sum := by
  induction outs generalizing view undos with
  | nil =>
    cases took
    exact ⟨traced, rfl, by simp⟩
  | cons out rest ih =>
    obtain ⟨first, here, others⟩ := bind_eq_some_iff.mp took
    obtain ⟨last, followed, equal⟩ := map_eq_some_iff.mp others
    cases equal
    have spent := spentInput_of_some here
    have undo_eq := spent.undo_eq traced
    obtain ⟨tracedLast, undos_eq, total_eq⟩ := ih followed (spent.traced traced)
    refine ⟨tracedLast, ?_, ?_⟩
    · rw [map_cons, map_cons, undo_eq, undos_eq]
    · rw [total_eq, spent.total_eq, map_cons, sum_cons, worth_eq undo_eq]
      omega

variable {tx : CTransaction}

/-- `GetValueIn` sums up what the outpoints are worth. -/
theorem valueIn_eq_worthIn (traced : view.Traced txOf) (present : view.haveInputs tx = true)
    (spending : tx.isCoinBase = false) : view.valueIn tx = tx.worthIn txOf := by
  rw [FlatCoins.valueIn, worthIn, CTransaction.spends, if_neg (by simp [spending]),
    prevouts, List.map_map]
  refine congrArg List.sum (map_congr_left fun txin member => ?_)
  have available := available_of_haveInputs present spending member
  obtain ⟨txout, found, notNull⟩ := isAvailable_iff.mp available
  have traced_eq := traced _ _ txout (output_eq_some.mpr ⟨found, notNull⟩)
  rw [Function.comp, worth_eq traced_eq, FlatCoins.valueOf, FlatCoins.getOutputFor, if_pos available,
    found]
  rfl

/-! ## One transaction -/

namespace AppliedTx

variable {nHeight : Int} {view middle next : FlatCoins} {tx : CTransaction}
  {vprevout : List CTxInUndo} {ids : List Uint256}

section

variable (step : AppliedTx nHeight view tx middle next vprevout)

include step

theorem traced_next
    (traced : view.Traced txOf) (faithful : txOf tx.hash = tx) : next.Traced txOf := by
  obtain ⟨tracedMiddle, _, _⟩ := spendInputs_worth step.took traced
  intro txid n txout found
  rw [step.next_eq, addOutputs] at found
  by_cases same : txid = tx.hash
  · subst same
    rw [modifyCoins_self, fromTx_trimmed, output_fromTx] at found
    rw [spendableAt, faithful]
    exact found
  · rw [modifyCoins_of_ne _ _ same] at found
    exact tracedMiddle txid n txout found

theorem undoFits (traced : view.Traced txOf) : UndoFits txOf tx ⟨vprevout⟩ :=
  (spendInputs_worth step.took traced).2.1

theorem inputs_known
    (known : view.KnownIn ids) : ∀ out ∈ tx.spends, out.hash ∈ ids := fun out member =>
  known out.hash (not_pruned_of_available (step.spent.present out member))

theorem known_next (known : view.KnownIn ids) : next.KnownIn (tx.hash :: ids) := by
  intro txid left
  by_cases same : txid = tx.hash
  · rw [same]
    exact mem_cons_self
  · rw [step.others same] at left
    exact mem_cons_of_mem _ (known txid (step.spent.left txid left).1)

theorem total_next (traced : view.Traced txOf) (known : view.KnownIn ids) (new : tx.hash ∉ ids)
    (real : tx.RealOutputs) :
    next.total + tx.unspendableValue = view.total + tx.valueOut - tx.worthIn txOf := by
  obtain ⟨_, _, total_eq⟩ := spendInputs_worth step.took traced
  have empty : (middle.coins tx.hash).isPruned = true := by
    rw [← not_eq_false]
    intro left
    exact new (known tx.hash (step.spent.left tx.hash left).1)
  have value_eq := value_fromTx real nHeight
  rw [step.next_eq, addOutputs, total_modifyCoins, value_of_pruned empty, total_eq]
  unfold worthIn CTransaction.valueOut
  omega

end

end AppliedTx

/-! ## The transactions of a block -/

/-- What some transactions did to the coins. -/
structure AppliedWorth (txOf : Uint256 → CTransaction) (ids : List Uint256) (view : FlatCoins)
    (txs : List CTransaction) (result : FlatCoins × List CTxUndo) : Prop where
  traced : result.1.Traced txOf
  fits : List.Forall₂ (UndoFits txOf) txs result.2
  inputs : InputsKnown ids txs
  known : ∀ txid, (result.1.coins txid).isPruned = false →
    txid ∈ txs.map CTransaction.hash ∨ txid ∈ ids
  total : result.1.total + (txs.map CTransaction.unspendableValue).sum =
    view.total + (txs.map CTransaction.valueOut).sum - (txs.map (CTransaction.worthIn txOf)).sum

variable {nHeight : Int} {txs : List CTransaction} {ids : List Uint256}

theorem applyTxs_worth {result : FlatCoins × List CTxUndo}
    (applied : applyTxs nHeight view txs = some result) (traced : view.Traced txOf)
    (known : view.KnownIn ids) (faithful : ∀ tx ∈ txs, txOf tx.hash = tx)
    (distinct : (txs.map hash ++ ids).Nodup) (real : ∀ tx ∈ txs, tx.RealOutputs) :
    AppliedWorth txOf ids view txs result := by
  induction txs generalizing view result ids with
  | nil =>
    cases applied
    exact ⟨traced, .nil, trivial, fun txid left => Or.inr (known txid left), by simp⟩
  | cons tx rest ih =>
    obtain ⟨middle, next, vprevout, undos, step, followed, undos_eq⟩ := applyTxs_cons applied
    obtain ⟨new, distinctRest⟩ := nodup_cons.mp distinct
    have unknown : tx.hash ∉ ids := fun member => new (mem_append_right _ member)
    have here := faithful tx mem_cons_self
    have reordered : (rest.map hash ++ tx.hash :: ids).Nodup :=
      nodup_middle.mpr (nodup_cons.mpr ⟨new, distinctRest⟩)
    have later := ih followed (step.traced_next traced here) (step.known_next known)
      (fun other member => faithful other (mem_cons_of_mem tx member)) reordered
      (fun other member => real other (mem_cons_of_mem tx member))
    have total_eq := step.total_next traced known unknown (real tx mem_cons_self)
    have total_later := later.total
    refine ⟨later.traced, ?_, ⟨step.inputs_known known, later.inputs⟩, fun txid left => ?_, ?_⟩
    · rw [undos_eq]
      exact .cons (step.undoFits traced) later.fits
    · rcases later.known txid left with created | before
      · exact Or.inl (mem_cons_of_mem _ created)
      · rcases mem_cons.mp before with rfl | old
        · exact Or.inl mem_cons_self
        · exact Or.inr old
    · simp only [map_cons, sum_cons]
      dsimp only at total_later
      omega

/-! ## The sums of `ConnectBlock` -/

theorem nonneg_of_getValueOut {outs : List CTxOut} {start total : Int}
    (summed : outs.foldlM addValueOut start = some total) :
    ∀ out ∈ outs, 0 ≤ out.nValue := by
  induction outs generalizing start with
  | nil => simp
  | cons first rest ih =>
    rw [foldlM_cons] at summed
    obtain ⟨next, here, followed⟩ := bind_eq_some_iff.mp summed
    intro out member
    rcases mem_cons.mp member with rfl | later
    · unfold addValueOut at here
      split at here
      · cases here
      · omega
    · exact ih followed out later

/-- The fee of a transaction; coinbase and coinstake have none. -/
def CTransaction.fee (txOf : Uint256 → CTransaction) (tx : CTransaction) : Int :=
  if tx.isCoinBase || tx.isCoinStake then 0 else tx.worthIn txOf - tx.valueOut

/-- One transaction in the sums over the block. -/
structure TxSums (txOf : Uint256 → CTransaction) (tx : CTransaction)
    (state next : ConnectState) : Prop where
  nonneg : ∀ txout ∈ tx.vout, 0 ≤ txout.nValue
  valueOut : toInt64 next.nValueOut = toInt64 (state.nValueOut + tx.valueOut)
  valueIn : toInt64 next.nValueIn = toInt64 (state.nValueIn + tx.worthIn txOf)
  fees : toInt64 next.nFees = toInt64 (state.nFees + tx.fee txOf)

variable {node : Node} {rules : BlockRules}

section

variable {first : Bool} {state checked final : ConnectState}

theorem checkTx_fee
    (passed : checkTx node rules tx state = .ok checked) (traced : state.view.Traced txOf) :
    toInt64 checked.nFees = toInt64 (state.nFees + tx.fee txOf) := by
  have inputs := (txChecked_of_ok passed).inputs
  have fee_eq : txFee state.view tx = tx.fee txOf := by
    unfold txFee fee
    split
    · rfl
    · next ordinary =>
        have spending : tx.isCoinBase = false := by
          rw [← not_eq_true]
          intro coinbase
          simp [coinbase] at ordinary
        rw [valueIn_eq_worthIn traced (inputs spending).1 spending]
  rw [checkTx_nFees passed, fee_eq]

theorem checkTx_sums
    (passed : checkTx node rules tx state = .ok checked) (traced : state.view.Traced txOf) :
    checked.nValueOut = state.nValueOut ∧
      toInt64 checked.nValueIn = toInt64 (state.nValueIn + tx.worthIn txOf) := by
  simp only [checkTx] at passed
  split at passed
  · cases passed
  split at passed
  · next coinbase =>
      cases passed
      have nothing : tx.worthIn txOf = 0 := by
        rw [worthIn, CTransaction.spends, if_pos coinbase]
        rfl
      exact ⟨rfl, by rw [nothing, Int.add_zero]⟩
  · next spends =>
      have spending : tx.isCoinBase = false := by simpa using spends
      simp only [connectInputs] at passed
      split at passed
      · cases passed
      next present =>
      split at passed
      · cases passed
      split at passed
      · cases passed
      next nIn summed =>
      obtain ⟨nFees, _, rest⟩ := Checked.bind_ok.mp passed
      obtain ⟨vChecks, _, done⟩ := Checked.bind_ok.mp rest
      cases done
      have in_mod := getValueIn_eq spending summed
      rw [valueIn_eq_worthIn traced (by simpa using present) spending] at in_mod
      refine ⟨rfl, ?_⟩
      dsimp only
      unfold toInt64 at in_mod ⊢
      omega

theorem connectTx_sums {next : ConnectState}
    (stepped : connectTx node rules first tx state = .ok next) (traced : state.view.Traced txOf) :
    TxSums txOf tx state next := by
  obtain ⟨checked, passed, applied⟩ := Checked.bind_ok.mp stepped
  obtain ⟨out_kept, in_eq⟩ := checkTx_sums passed traced
  have fee_eq := checkTx_fee passed traced
  simp only [applyTx] at applied
  split at applied
  · cases applied
  next nOut summed =>
  split at applied
  · cases applied
  cases applied
  have out_mod := foldlM_addValueOut_mod summed
  rw [Int.zero_add] at out_mod
  change toInt64 nOut = toInt64 tx.valueOut at out_mod
  refine ⟨nonneg_of_getValueOut summed, ?_, in_eq, fee_eq⟩
  dsimp only
  rw [out_kept]
  unfold toInt64 at out_mod ⊢
  omega

/-- The transactions of a block in its sums. -/
structure BlockSums (txOf : Uint256 → CTransaction) (txs : List CTransaction)
    (state final : ConnectState) : Prop where
  nonneg : ∀ tx ∈ txs, ∀ txout ∈ tx.vout, 0 ≤ txout.nValue
  valueOut : toInt64 final.nValueOut =
    toInt64 (state.nValueOut + (txs.map CTransaction.valueOut).sum)
  valueIn : toInt64 final.nValueIn =
    toInt64 (state.nValueIn + (txs.map (CTransaction.worthIn txOf)).sum)
  fees : toInt64 final.nFees = toInt64 (state.nFees + (txs.map (CTransaction.fee txOf)).sum)

theorem BlockSums.output_le {txs : List CTransaction} {state final : ConnectState}
    (sums : BlockSums txOf txs state final) (there : tx ∈ txs) {out : CTxOut}
    (inside : out ∈ tx.vout) : out.nValue ≤ (txs.map CTransaction.valueOut).sum := by
  have given : ∀ other ∈ txs, 0 ≤ other.valueOut := fun other member => List.sum_nonneg
    (forall_mem_map.mpr (sums.nonneg other member))
  have here : out.nValue ≤ tx.valueOut := List.single_le_sum
    (forall_mem_map.mpr (sums.nonneg tx there)) _ (mem_map_of_mem inside)
  exact here.trans (List.single_le_sum (forall_mem_map.mpr given) _ (mem_map_of_mem there))

/-- The loop of `ConnectBlock` sums up in 64 bits. -/
theorem connectTxs_sums
    (looped : connectTxs node rules first txs state = .ok final) (traced : state.view.Traced txOf)
    (faithful : ∀ tx ∈ txs, txOf tx.hash = tx) : BlockSums txOf txs state final := by
  induction txs generalizing first state with
  | nil =>
    cases looped
    exact ⟨by simp, by simp, by simp, by simp⟩
  | cons tx rest ih =>
    simp only [connectTxs] at looped
    split at looped
    · cases looped
    next next stepped =>
    have sums := connectTx_sums stepped traced
    obtain ⟨updated, ran, moved, _⟩ := (txConnected_of_ok stepped).updated
    rw [updateCoins_eq] at ran
    obtain ⟨spent, took, rfl⟩ := map_eq_some_iff.mp ran
    have step : AppliedTx rules.nHeight state.view tx spent.1 next.view spent.2 := ⟨took, moved⟩
    have later := ih looped (step.traced_next traced (faithful tx mem_cons_self))
      fun other member => faithful other (mem_cons_of_mem tx member)
    have out_eq := sums.valueOut
    have in_eq := sums.valueIn
    have fee_eq := sums.fees
    refine ⟨?_, ?_, ?_, ?_⟩
    · intro other member
      rcases mem_cons.mp member with rfl | more
      · exact sums.nonneg
      · exact later.nonneg other more
    · rw [later.valueOut, map_cons, sum_cons]
      unfold toInt64 at out_eq ⊢
      omega
    · rw [later.valueIn, map_cons, sum_cons]
      unfold toInt64 at in_eq ⊢
      omega
    · rw [later.fees, map_cons, sum_cons]
      unfold toInt64 at fee_eq ⊢
      omega

/-- Above the height from which `CheckInputs` compares values no fee is negative. -/
theorem connectTxs_fee_nonneg {best : CBlockIndex}
    (looped : connectTxs node rules first txs state = .ok final) (traced : state.view.Traced txOf)
    (faithful : ∀ tx ∈ txs, txOf tx.hash = tx)
    (int64 : ∀ tx ∈ txs, ∀ out ∈ tx.vout, out.nValue < 2 ^ 63)
    (onBest : node.mapBlockIndex state.view.bestBlock = some best)
    (active : checkInputsHeight ≤ best.nHeight) : ∀ tx ∈ txs, 0 ≤ tx.fee txOf := by
  induction txs generalizing first state with
  | nil => simp
  | cons tx rest ih =>
    simp only [connectTxs] at looped
    split at looped
    · cases looped
    next next stepped =>
    have connected := txConnected_of_ok stepped
    obtain ⟨checked, passed, _⟩ := connected.checked
    obtain ⟨updated, ran, moved, _⟩ := connected.updated
    have bestBlock : next.view.bestBlock = state.view.bestBlock := by
      rw [moved]
      exact updateCoins_bestBlock ran
    rw [updateCoins_eq] at ran
    obtain ⟨spent, took, rfl⟩ := map_eq_some_iff.mp ran
    have step : AppliedTx rules.nHeight state.view tx spent.1 next.view spent.2 := ⟨took, moved⟩
    intro other member
    rcases mem_cons.mp member with rfl | later
    · unfold fee
      split
      · exact Int.le_refl 0
      · next ordinary =>
          simp only [Bool.not_eq_true, Bool.or_eq_false_iff] at ordinary
          obtain ⟨present, vChecks, ran, _⟩ := passed.inputs ordinary.1
          have conserved := (checkInputs_values (int64 other mem_cons_self) onBest active ordinary.1
            ran).2.2.1 ordinary.2
          rw [valueIn_eq_worthIn traced present ordinary.1] at conserved
          exact Int.sub_nonneg.mpr conserved
    · exact ih looped (step.traced_next traced (faithful tx mem_cons_self))
        (fun tx inRest => faithful tx (mem_cons_of_mem _ inRest))
        (fun tx inRest => int64 tx (mem_cons_of_mem _ inRest)) (bestBlock ▸ onBest) other later

end

/-! ## Undoing -/

theorem FlatCoins.Traced.spendable (traced : view.Traced txOf) (txid : Uint256) (n : Nat)
    (txout : CTxOut) (found : (view.coins txid).output n = some txout) :
    CScript.isUnspendable txout.scriptPubKey = false :=
  (spendableAt_not_null (traced txid n txout found)).2

theorem removeOutputs_total (traced : view.Traced txOf)
    (clean : (removeOutputs view tx nHeight).2 = true) :
    (removeOutputs view tx nHeight).1.total =
      view.total - (fromTx tx nHeight).value := by
  have value_eq := value_clearUnspendable (traced.spendable tx.hash)
  have same : (view.coins tx.hash).value = (fromTx tx nHeight).value := by
    rw [← value_eq]
    unfold removeOutputs at clean
    dsimp only at clean
    rcases same_iff.mp clean with ⟨left, right⟩ | equal
    · rw [value_of_pruned right]
      split at left
      · exact value_of_pruned left
      · exact value_of_pruned left
    · rw [← equal]
      split <;> rfl
  unfold removeOutputs
  dsimp only
  rw [total_modifyCoins, value_cleared, same]
  omega

theorem removeOutputs_traced (traced : view.Traced txOf) (tx : CTransaction) (nHeight : Int) :
    (removeOutputs view tx nHeight).1.Traced txOf := by
  intro txid n txout found
  unfold removeOutputs at found
  dsimp only at found
  rw [modifyCoins_coins] at found
  split at found
  · cases found
  · exact traced txid n txout found

theorem undoBase_value {coins : CCoins}
    (clean : (if undo.nHeight ≠ 0 then coins.isPruned else !coins.isPruned) = true) :
    (undoBase coins undo).value = coins.value ∧
      ∀ n, (undoBase coins undo).output n = coins.output n := by
  unfold undoBase
  by_cases height : undo.nHeight ≠ 0
  · rw [if_pos height] at clean ⊢
    refine ⟨(value_of_pruned clean).symm, fun n => ?_⟩
    exact (isPruned_iff_output.mp clean n).symm
  · rw [if_neg height]
    exact ⟨rfl, fun n => rfl⟩

theorem restoreInput_worth (traced : view.Traced txOf)
    (fits : spendableAt txOf out = some undo.txout)
    (clean : (restoreInput view out undo).2 = true) :
    (restoreInput view out undo).1.Traced txOf ∧
      (restoreInput view out undo).1.total = view.total + worth txOf out := by
  unfold restoreInput at clean ⊢
  dsimp only at clean ⊢
  obtain ⟨expected, missing⟩ := (and_eq_true _ _).mp clean
  obtain ⟨value_eq, output_eq⟩ := undoBase_value expected
  have notNull := (spendableAt_not_null fits).1
  refine ⟨fun txid n txout found => ?_, ?_⟩
  · rw [modifyCoins_coins] at found
    split at found
    · next same =>
        subst same
        rw [output_cleanup, putOutput, output_putBack _ notNull] at found
        split at found
        · next here =>
            cases found
            rw [here]
            exact fits
        · rw [output_eq] at found
          exact traced _ n txout found
    · exact traced txid n txout found
  · rw [total_modifyCoins, putOutput, value_putBack (by simpa using missing) notNull,
      value_eq, worth_eq fits]
    omega

theorem restoreInput_others {txid : Uint256} (differs : txid ≠ out.hash) :
    (restoreInput view out undo).1.coins txid = view.coins txid := by
  unfold restoreInput
  dsimp only
  exact modifyCoins_of_ne _ _ differs

/-- What some steps of undoing did: they add to the value, and they touch some records only. -/
structure UndoneWorth (txOf : Uint256 → CTransaction) (before after : FlatCoins) (added : Int)
    (touched : Uint256 → Prop) : Prop where
  traced : after.Traced txOf
  total : after.total = before.total + added
  others : ∀ txid, ¬ touched txid → after.coins txid = before.coins txid

variable {state : Disconnected}

theorem clean_of_restoreInputs (clean : (restoreInputs outs undos state).fClean = true) :
    state.fClean = true := by
  induction outs generalizing undos with
  | nil => cases undos <;> exact clean
  | cons out rest ih =>
    cases undos with
    | nil => exact clean
    | cons undo later =>
      rw [restoreInputs] at clean
      exact ih ((and_eq_true _ _).mp clean).1

theorem clean_of_disconnectTx {txundo : Option CTxUndo} {next : Disconnected}
    (ran : disconnectTx nHeight tx txundo state = .ok next) (clean : next.fClean = true) :
    state.fClean = true ∧ (removeOutputs state.view tx nHeight).2 = true := by
  unfold disconnectTx at ran
  dsimp only at ran
  split at ran
  · cases ran
    exact (and_eq_true _ _).mp clean
  · split at ran
    · cases ran
    · split at ran
      · cases ran
      · cases ran
        exact (and_eq_true _ _).mp (clean_of_restoreInputs clean)

theorem restoreInputs_worth (traced : state.view.Traced txOf)
    (fits : undos.map (fun undo => some undo.txout) = outs.map (spendableAt txOf))
    (clean : (restoreInputs outs undos state).fClean = true) :
    UndoneWorth txOf state.view (restoreInputs outs undos state).view (outs.map (worth txOf)).sum
      fun txid => ∃ out ∈ outs, out.hash = txid := by
  induction outs generalizing undos with
  | nil =>
    cases undos with
    | nil => exact ⟨traced, by simp [restoreInputs], fun _ _ => rfl⟩
    | cons undo rest => cases fits
  | cons out rest ih =>
    cases undos with
    | nil => cases fits
    | cons undo later =>
      rw [map_cons, map_cons, List.cons.injEq] at fits
      rw [restoreInputs] at clean ⊢
      dsimp only at clean ⊢
      obtain ⟨cleanLater, cleanHere⟩ := (and_eq_true _ _).mp clean
      have undone := ih fits.2 cleanLater
      obtain ⟨tracedHere, total_eq⟩ := restoreInput_worth undone.traced fits.1.symm cleanHere
      refine ⟨tracedHere, ?_, fun txid untouched => ?_⟩
      · rw [total_eq, undone.total, map_cons, sum_cons]
        omega
      · rw [restoreInput_others, undone.others txid]
        · rintro ⟨other, member, same⟩
          exact untouched ⟨other, mem_cons_of_mem out member, same⟩
        · rintro rfl
          exact untouched ⟨out, mem_cons_self, rfl⟩

/-- Undoing one transaction cleanly takes its outputs away and gives its inputs back. -/
theorem disconnectTx_worth {txundo : Option CTxUndo} {next : Disconnected}
    (ran : disconnectTx nHeight tx txundo state = .ok next) (clean : next.fClean = true)
    (traced : state.view.Traced txOf)
    (fits : tx.isCoinBase = true ∨ ∃ undo, txundo = some undo ∧ UndoFits txOf tx undo) :
    next.view.Traced txOf ∧
      next.view.total =
        state.view.total - (fromTx tx nHeight).value + tx.worthIn txOf ∧
        ∀ txid, (∀ out ∈ tx.spends, out.hash ≠ txid) →
          next.view.coins txid =
            if txid = tx.hash then cleared else state.view.coins txid := by
  have cleanHere := (clean_of_disconnectTx ran clean).2
  have removed_coins : ∀ txid, (removeOutputs state.view tx nHeight).1.coins txid =
      if txid = tx.hash then cleared else state.view.coins txid := by
    intro txid
    unfold removeOutputs
    dsimp only
    rw [modifyCoins_coins, cleanup_cleared]
  unfold disconnectTx at ran
  dsimp only at ran
  by_cases coinbase : tx.isCoinBase = true
  · rw [if_pos coinbase] at ran
    cases ran
    have nothing : tx.worthIn txOf = 0 := by
      rw [worthIn, CTransaction.spends, if_pos coinbase]
      rfl
    refine ⟨removeOutputs_traced traced tx nHeight, ?_, fun txid _ => removed_coins txid⟩
    rw [removeOutputs_total traced cleanHere, nothing, Int.add_zero]
  · rw [if_neg coinbase] at ran
    obtain ⟨undo, rfl, matching⟩ := fits.resolve_left coinbase
    dsimp only at ran
    split at ran
    · cases ran
    cases ran
    have inputs : tx.spends = tx.prevouts := if_neg coinbase
    rw [UndoFits, inputs] at matching
    have undone := restoreInputs_worth (removeOutputs_traced traced tx nHeight) matching clean
    refine ⟨undone.traced, ?_, fun txid untouched => ?_⟩
    · rw [undone.total, removeOutputs_total traced cleanHere, worthIn, inputs]
    · rw [undone.others txid, removed_coins]
      rintro ⟨out, member, same⟩
      rw [← inputs] at member
      exact untouched out member same

theorem disconnectTxs_worth {txs : List (CTransaction × Option CTxUndo)} {final : Disconnected}
    (ran : disconnectTxs nHeight txs state = .ok final) (clean : final.fClean = true)
    (traced : state.view.Traced txOf) (fits : ∀ pair ∈ txs, pair.1.isCoinBase = true ∨
      ∃ undo, pair.2 = some undo ∧ UndoFits txOf pair.1 undo)
    (inputs : InputsKnown ids (txs.map Prod.fst))
    (known : ∀ txid, (state.view.coins txid).isPruned = false →
      txid ∈ (txs.map Prod.fst).map hash ∨ txid ∈ ids) :
    final.view.Traced txOf ∧ final.view.KnownIn ids ∧
      final.view.total + ((txs.map Prod.fst).map fun tx => (fromTx tx nHeight).value).sum =
        state.view.total + ((txs.map Prod.fst).map (worthIn txOf)).sum := by
  induction txs generalizing final ids with
  | nil =>
    cases ran
    exact ⟨traced, fun txid left => (known txid left).resolve_left not_mem_nil, by simp⟩
  | cons pair rest ih =>
    obtain ⟨tx, txundo⟩ := pair
    obtain ⟨middle, before, here⟩ := Checked.bind_ok.mp ran
    have ownInputs := inputs.1
    -- the transaction itself is undone last
    have cleanMiddle := (clean_of_disconnectTx here clean).1
    obtain ⟨tracedMiddle, knownMiddle, totalMiddle⟩ := ih before cleanMiddle
      (fun other member => fits other (mem_cons_of_mem _ member)) inputs.2 (by
        intro txid left
        rcases known txid left with created | old
        · rcases mem_cons.mp created with rfl | later
          · exact Or.inr mem_cons_self
          · exact Or.inl later
        · exact Or.inr (mem_cons_of_mem _ old))
    obtain ⟨tracedFinal, total_eq, coins_eq⟩ :=
      disconnectTx_worth here clean tracedMiddle (fits _ mem_cons_self)
    refine ⟨tracedFinal, fun txid left => ?_, ?_⟩
    · by_contra unknown
      have untouched : ∀ out ∈ tx.spends, out.hash ≠ txid := by
        rintro out member rfl
        exact unknown (ownInputs out member)
      rw [coins_eq txid untouched] at left
      split at left
      · cases left
      · next other =>
          rcases mem_cons.mp (knownMiddle txid left) with same | old
          · exact other same
          · exact unknown old
    · simp only [map_cons, sum_cons]
      omega

theorem UndoFits.readBack {txundo back : CTxUndo} (fits : UndoFits txOf tx txundo)
    (read : txundo.readBack = some back) : UndoFits txOf tx back := by
  have outputs : ∀ (undos backs : List CTxInUndo), undos.mapM CTxInUndo.readBack = some backs →
      backs.map (fun undo => some undo.txout) = undos.map fun undo => some undo.txout := by
    intro undos
    induction undos with
    | nil =>
      intro backs all
      cases all
      rfl
    | cons undo rest ih =>
      intro backs all
      rw [mapM_cons] at all
      obtain ⟨first, here, others⟩ := bind_eq_some_iff.mp all
      obtain ⟨last, followed, done⟩ := bind_eq_some_iff.mp others
      cases done
      rw [map_cons, map_cons, ih last followed, (CTxInUndo.readBack_some here).1]
  obtain ⟨backs, all, rfl⟩ := map_eq_some_iff.mp read
  unfold UndoFits at fits ⊢
  rw [outputs _ _ all, fits]

theorem forall₂_readBack {undos backs : List CTxUndo}
    (fits : List.Forall₂ (UndoFits txOf) txs undos)
    (read : undos.mapM CTxUndo.readBack = some backs) :
    List.Forall₂ (UndoFits txOf) txs backs := by
  induction fits generalizing backs with
  | nil =>
    cases read
    exact .nil
  | cons here _ ih =>
    rw [mapM_cons] at read
    obtain ⟨first, readHere, others⟩ := bind_eq_some_iff.mp read
    obtain ⟨last, followed, done⟩ := bind_eq_some_iff.mp others
    cases done
    exact .cons (here.readBack readHere) (ih followed)

variable {rest : List CTransaction}

section

variable {readable : Bool} {block : CBlock} {pindex pprev : CBlockIndex}
  {mapStakeSpent : StakeSpent}

/-- The transactions of a block that is disconnected, each with the outputs that it spends. -/
theorem DisconnectSteps.pairs {undone final : Disconnected} {stored blockUndo : CBlockUndo}
    (steps : DisconnectSteps readable block pindex pprev view mapStakeSpent undone stored blockUndo
      final) {coinbase : CTransaction} (shape : block.vtx = coinbase :: rest)
    (isCoinbase : coinbase.isCoinBase = true)
    (fits : List.Forall₂ (UndoFits txOf) rest stored.vtxundo) :
    (block.vtx.zip (none :: blockUndo.vtxundo.map some)).map Prod.fst = block.vtx ∧
      ∀ pair ∈ block.vtx.zip (none :: blockUndo.vtxundo.map some), pair.1.isCoinBase = true ∨
        ∃ undo, pair.2 = some undo ∧ UndoFits txOf pair.1 undo := by
  have read := steps.read
  split at read
  swap
  · cases read
  obtain ⟨backs, readAll, rfl⟩ := map_eq_some_iff.mp read
  have backsFit := forall₂_readBack fits readAll
  refine ⟨map_fst_zip ?_, ?_⟩
  · rw [length_cons, length_map]
    exact Nat.le_of_eq steps.sizes.symm
  · rintro ⟨tx, txundo⟩ member
    rw [shape, zip_cons_cons, mem_cons] at member
    rcases member with first | later
    · cases first
      exact Or.inl isCoinbase
    · rw [zip_map_right, List.mem_map] at later
      obtain ⟨⟨other, undo⟩, together, equal⟩ := later
      cases equal
      exact Or.inr ⟨undo, rfl, List.forall₂_zip backsFit together⟩

/-- Disconnecting a block cleanly takes its outputs away and gives its inputs back. -/
theorem disconnectBlock_worth {undone : Disconnected}
    (ran : disconnectBlock readable block pindex pprev view mapStakeSpent = .ok undone)
    (clean : undone.fClean = true) (traced : view.Traced txOf) {coinbase : CTransaction}
    (shape : block.vtx = coinbase :: rest) (isCoinbase : coinbase.isCoinBase = true)
    (fits : ∀ stored, pindex.getUndo = some stored →
      List.Forall₂ (UndoFits txOf) rest stored.vtxundo) (inputs : InputsKnown ids block.vtx)
    (known : view.KnownIn (block.vtx.map hash ++ ids)) :
    undone.view.Traced txOf ∧ undone.view.KnownIn ids ∧
      undone.view.total + (block.vtx.map fun tx => (fromTx tx pindex.nHeight).value).sum =
        view.total + (block.vtx.map (worthIn txOf)).sum := by
  obtain ⟨stored, blockUndo, final, steps⟩ := disconnectSteps_of_ok ran
  obtain ⟨firsts, pairsFit⟩ := steps.pairs shape isCoinbase (fits stored steps.undo)
  have cleanFinal : final.fClean = true := by
    rw [steps.undone_eq] at clean
    exact clean
  obtain ⟨tracedFinal, knownFinal, total_eq⟩ :=
    disconnectTxs_worth steps.looped cleanFinal traced pairsFit (firsts.symm ▸ inputs) (by
      intro txid left
      rw [firsts]
      exact mem_append.mp (known txid left))
  rw [firsts] at total_eq
  rw [steps.undone_eq]
  exact ⟨tracedFinal, knownFinal, total_eq⟩

end

end CentNode
