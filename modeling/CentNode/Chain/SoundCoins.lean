import CentNode.Chain.MoneySupply
import CentNode.Chain.Overwrites
import CentNode.Validation.PoolInputs

/-!
# Sound coins along the chain

Blocks put unspent outputs of grounded transactions into the coins, and undoing
them brings back only such outputs.  What was unspent stays so unless the block
spends it; what a block puts out stays so unless a later transaction of it
does.  Ids may come again: the last transaction with an id counts.
-/

namespace CentNode

open List CTransaction

open FlatCoins

variable {txOf : Uint256 → CTransaction}

/-! ## Applying transactions -/

section Applied

variable {nHeight : Int} {view final : FlatCoins} {txs : List CTransaction}

variable {tx : CTransaction}

theorem AppliedTx.sound_next {middle next : FlatCoins} {vprevout : List CTxInUndo}
    (step : AppliedTx nHeight view tx middle next vprevout) (sound : view.Sound txOf)
    (faithful : txOf tx.hash = tx) : next.Sound txOf ∧ Grounded txOf tx.hash := by
  have grounded : Grounded txOf tx.hash := grounded_of_spends faithful fun out member =>
    sound.grounded out.hash (not_pruned_of_available (step.spent.present out member))
  refine ⟨⟨step.traced_next sound.traced faithful, fun id left => ?_⟩, grounded⟩
  by_cases same : id = tx.hash
  · rw [same]
    exact grounded
  · rw [step.others same] at left
    exact sound.grounded id (step.spent.left id left).1

variable {out : COutPoint}

theorem applyTxs_sound {result : FlatCoins × List CTxUndo}
    (applied : applyTxs nHeight view txs = some result) (sound : view.Sound txOf)
    (faithful : ∀ tx ∈ txs, txOf tx.hash = tx) :
    result.1.Sound txOf ∧ List.Forall₂ (UndoFits txOf) txs result.2 ∧
      ∀ tx ∈ txs, Grounded txOf tx.hash := by
  induction txs generalizing view result with
  | nil =>
    cases applied
    exact ⟨sound, .nil, fun _ member => absurd member not_mem_nil⟩
  | cons tx rest ih =>
    obtain ⟨middle, next, vprevout, undos, step, followed, undos_eq⟩ := applyTxs_cons applied
    obtain ⟨soundNext, grounded⟩ := step.sound_next sound (faithful tx mem_cons_self)
    obtain ⟨soundLast, fits, later⟩ := ih followed soundNext
      fun other member => faithful other (mem_cons_of_mem tx member)
    refine ⟨soundLast, ?_, fun other member => ?_⟩
    · rw [undos_eq]
      exact .cons (step.undoFits sound.traced) fits
    · rcases mem_cons.mp member with rfl | more
      · exact grounded
      · exact later other more

/-- What a transaction puts out is unspent in the end, or spent by a later one. -/
theorem created_or_spent (ran : coinsAfter nHeight view txs = some final)
    (faithful : ∀ tx ∈ txs, txOf tx.hash = tx) {before after : List CTransaction}
    (split : txs = before ++ tx :: after) (same : out.hash = tx.hash)
    (real : (spendableAt txOf out).isSome = true) :
    final.Unspent out ∨ out ∈ after.flatMap spends := by
  -- the last transaction with the id
  have last : ∃ first twin between, txs = first ++ twin :: between ∧ twin.hash = out.hash ∧
      out.hash ∉ between.map hash ∧
        between.flatMap spends ⊆ after.flatMap spends := by
    rcases last_with_id after out.hash with absent | ⟨first, twin, between, rfl, equal, absent⟩
    · exact ⟨before, tx, after, split, same.symm, absent, fun _ member => member⟩
    · refine ⟨before ++ tx :: first, twin, between, by rw [split, append_assoc]; rfl, equal,
        absent, fun _ member => ?_⟩
      rw [flatMap_append, flatMap_cons]
      exact mem_append_right _ (mem_append_right _ member)
  obtain ⟨first, twin, between, rfl, equal, absent, later⟩ := last
  have twin_eq := faithful twin (mem_append_right _ mem_cons_self)
  rw [equal] at twin_eq
  rw [← equal] at absent
  have left := coinsAfter_twin ran absent out.n
  by_cases taken : out ∈ between.flatMap spends
  · exact Or.inr (later taken)
  · rw [equal] at left
    exact Or.inl (left.mpr ⟨(fromTx_available_iff twin_eq nHeight).mpr real, taken⟩)

theorem unspent_or_spent (ran : coinsAfter nHeight view txs = some final)
    (traced : view.Traced txOf) (faithful : ∀ tx ∈ txs, txOf tx.hash = tx)
    (unspent : view.Unspent out) : final.Unspent out ∨ out ∈ txs.flatMap spends := by
  by_cases created : out.hash ∈ txs.map hash
  · obtain ⟨tx, member, same⟩ := mem_map.mp created
    obtain ⟨before, after, split⟩ := append_of_mem member
    refine (created_or_spent ran faithful split same.symm (unspent.real traced)).imp_right ?_
    intro later
    rw [split, flatMap_append, flatMap_cons]
    exact mem_append_right _ (mem_append_right _ later)
  · by_cases taken : out ∈ txs.flatMap spends
    · exact Or.inr taken
    · exact Or.inl ((coinsAfter_available ran created out.n).mpr ⟨unspent, taken⟩)

end Applied

/-! ## Undoing transactions -/

section Undone

variable {view : FlatCoins}

theorem restoreInput_unspent {out other : COutPoint} {undo : CTxInUndo}
    (notNull : undo.txout.isNull = false) (clean : (restoreInput view out undo).2 = true)
    (unspent : view.Unspent other) : (restoreInput view out undo).1.Unspent other := by
  unfold restoreInput at clean ⊢
  dsimp only at clean ⊢
  obtain ⟨expected, _⟩ := (Bool.and_eq_true _ _).mp clean
  rw [FlatCoins.Unspent, CCoins.isAvailable_eq] at unspent ⊢
  rw [modifyCoins_coins]
  split
  · next same =>
      rw [CCoins.output_cleanup, putOutput, CCoins.output_putBack _ notNull]
      split
      · rfl
      · rw [(undoBase_value expected).2, ← same]
        exact unspent
  · exact unspent

theorem restoreInput_left {out : COutPoint} {undo : CTxInUndo} {id : Uint256}
    (left : ((restoreInput view out undo).1.coins id).isPruned = false) :
    (view.coins id).isPruned = false ∨ id = out.hash := by
  by_cases same : id = out.hash
  · exact Or.inr same
  · rw [restoreInput_others same] at left
    exact Or.inl left

variable {state : Disconnected}

variable {nHeight : Int} {tx : CTransaction} {txundo : Option CTxUndo}
  {txs : List (CTransaction × Option CTxUndo)} {final next : Disconnected} {outs : List COutPoint}
  {undos : List CTxInUndo} {id : Uint256}

theorem restoreInputs_unspent (notNull : ∀ undo ∈ undos, undo.txout.isNull = false)
    (clean : (restoreInputs outs undos state).fClean = true) {other : COutPoint}
    (unspent : state.view.Unspent other) :
    (restoreInputs outs undos state).view.Unspent other := by
  induction outs generalizing undos with
  | nil => cases undos <;> exact unspent
  | cons out rest ih =>
    cases undos with
    | nil => exact unspent
    | cons undo later =>
      rw [restoreInputs] at clean ⊢
      dsimp only at clean ⊢
      obtain ⟨cleanLater, cleanHere⟩ := (Bool.and_eq_true _ _).mp clean
      refine restoreInput_unspent (notNull undo mem_cons_self) cleanHere ?_
      exact ih (fun more member => notNull more (mem_cons_of_mem undo member)) cleanLater

theorem restoreInputs_left
    (left : ((restoreInputs outs undos state).view.coins id).isPruned = false) :
    (state.view.coins id).isPruned = false ∨ ∃ out ∈ outs, out.hash = id := by
  induction outs generalizing undos with
  | nil => cases undos <;> exact Or.inl left
  | cons out rest ih =>
    cases undos with
    | nil => exact Or.inl left
    | cons undo later =>
      rcases restoreInput_left left with before | rfl
      · refine (ih before).imp_right fun ⟨other, member, same⟩ => ?_
        exact ⟨other, mem_cons_of_mem out member, same⟩
      · exact Or.inr ⟨out, mem_cons_self, rfl⟩

theorem UndoFits.notNull {txundo : CTxUndo} (fits : UndoFits txOf tx txundo) :
    ∀ undo ∈ txundo.vprevout, undo.txout.isNull = false := by
  intro undo member
  have listed : some undo.txout ∈ tx.spends.map (spendableAt txOf) := by
    rw [← fits]
    exact mem_map_of_mem member
  obtain ⟨out, _, found⟩ := mem_map.mp listed
  exact (spendableAt_not_null found).1

/-- Undoing a transaction leaves sound coins, and what other transactions put out. -/
theorem disconnectTx_sound (ran : disconnectTx nHeight tx txundo state = .ok next)
    (clean : next.fClean = true) (sound : state.view.Sound txOf) (faithful : txOf tx.hash = tx)
    (grounded : Grounded txOf tx.hash)
    (fits : tx.isCoinBase = true ∨ ∃ undo, txundo = some undo ∧ UndoFits txOf tx undo) :
    next.view.Sound txOf ∧
      ∀ out, out.hash ≠ tx.hash → state.view.Unspent out → next.view.Unspent out := by
  have traced := (disconnectTx_worth ran clean sound.traced fits).1
  have kept : ∀ id, ((removeOutputs state.view tx nHeight).1.coins id).isPruned = false →
      (state.view.coins id).isPruned = false := by
    intro id left
    unfold removeOutputs at left
    dsimp only at left
    rw [modifyCoins_coins] at left
    split at left
    · cases left
    · exact left
  have stays : ∀ out, out.hash ≠ tx.hash → state.view.Unspent out →
      (removeOutputs state.view tx nHeight).1.Unspent out := by
    intro out differs unspent
    unfold removeOutputs FlatCoins.Unspent
    dsimp only
    rw [modifyCoins_of_ne _ _ differs]
    exact unspent
  unfold disconnectTx at ran
  dsimp only at ran
  by_cases coinbase : tx.isCoinBase = true
  · rw [if_pos coinbase] at ran
    cases ran
    exact ⟨⟨traced, fun id left => sound.grounded id (kept id left)⟩, stays⟩
  · rw [if_neg coinbase] at ran
    obtain ⟨undo, rfl, matching⟩ := fits.resolve_left coinbase
    dsimp only at ran
    split at ran
    · cases ran
    cases ran
    refine ⟨⟨traced, fun id left => ?_⟩, fun out differs unspent =>
      restoreInputs_unspent matching.notNull clean (stays out differs unspent)⟩
    rcases restoreInputs_left left with before | ⟨out, member, rfl⟩
    · exact sound.grounded id (kept id before)
    · refine grounded.inv ⟨out, ?_, rfl⟩
      rw [faithful, spends, if_neg coinbase]
      exact member

theorem disconnectTxs_sound (ran : disconnectTxs nHeight txs state = .ok final)
    (clean : final.fClean = true) (sound : state.view.Sound txOf)
    (faithful : ∀ pair ∈ txs, txOf pair.1.hash = pair.1)
    (grounded : ∀ pair ∈ txs, Grounded txOf pair.1.hash)
    (fits : ∀ pair ∈ txs, pair.1.isCoinBase = true ∨
      ∃ undo, pair.2 = some undo ∧ UndoFits txOf pair.1 undo) :
    final.view.Sound txOf ∧
      ∀ out, out.hash ∉ (txs.map Prod.fst).map hash →
        state.view.Unspent out → final.view.Unspent out := by
  induction txs generalizing final with
  | nil =>
    cases ran
    exact ⟨sound, fun _ _ unspent => unspent⟩
  | cons pair rest ih =>
    obtain ⟨tx, txundo⟩ := pair
    obtain ⟨middle, before, here⟩ := Checked.bind_ok.mp ran
    obtain ⟨soundMiddle, staysMiddle⟩ := ih before (clean_of_disconnectTx here clean).1
      (fun other member => faithful other (mem_cons_of_mem _ member))
      (fun other member => grounded other (mem_cons_of_mem _ member))
      (fun other member => fits other (mem_cons_of_mem _ member))
    obtain ⟨soundFinal, stays⟩ := disconnectTx_sound here clean soundMiddle
      (faithful _ mem_cons_self) (grounded _ mem_cons_self)
      (fits _ mem_cons_self)
    refine ⟨soundFinal, fun out other unspent => ?_⟩
    obtain ⟨differs, later⟩ := not_or.mp (mem_cons.not.mp other)
    exact stays out differs (staysMiddle out later unspent)

/-- A block that is disconnected cleanly leaves sound coins. -/
theorem disconnectBlock_sound {readable : Bool} {block : CBlock} {pindex pprev : CBlockIndex}
    {mapStakeSpent : StakeSpent} {undone : Disconnected}
    (ran : disconnectBlock readable block pindex pprev view mapStakeSpent = .ok undone)
    (clean : undone.fClean = true) (sound : view.Sound txOf) {coinbase : CTransaction}
    {rest : List CTransaction} (shape : block.vtx = coinbase :: rest)
    (isCoinbase : coinbase.isCoinBase = true) (fits : ∀ stored, pindex.getUndo = some stored →
      List.Forall₂ (UndoFits txOf) rest stored.vtxundo)
    (faithful : ∀ tx ∈ block.vtx, txOf tx.hash = tx)
    (grounded : ∀ tx ∈ block.vtx, Grounded txOf tx.hash) :
    undone.view.Sound txOf ∧
      ∀ out, out.hash ∉ block.txids → view.Unspent out → undone.view.Unspent out := by
  obtain ⟨stored, blockUndo, final, steps⟩ := disconnectSteps_of_ok ran
  obtain ⟨firsts, pairsFit⟩ := steps.pairs shape isCoinbase (fits stored steps.undo)
  have cleanFinal : final.fClean = true := by
    rw [steps.undone_eq] at clean
    exact clean
  have inBlock : ∀ pair ∈ block.vtx.zip (none :: blockUndo.vtxundo.map some),
      pair.1 ∈ block.vtx := by
    intro pair member
    rw [← firsts]
    exact mem_map_of_mem member
  obtain ⟨soundFinal, stays⟩ := disconnectTxs_sound steps.looped cleanFinal sound
    (fun pair member => faithful pair.1 (inBlock pair member))
    (fun pair member => grounded pair.1 (inBlock pair member)) pairsFit
  rw [firsts] at stays
  rw [steps.undone_eq]
  exact ⟨⟨soundFinal.traced, soundFinal.grounded⟩, stays⟩

end Undone

end CentNode
