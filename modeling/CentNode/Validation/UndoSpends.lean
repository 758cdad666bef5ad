import CentNode.Coins.SpendUndo
import CentNode.Validation.ConnectBlock

/-!
# Undoing the spends of a transaction

The coins seen while a block is undone differ from the coins the block was
applied to in the records that the block emptied.  `Damaged` says so for a
given set of emptied records; undoing one spend, and then all spends of a
transaction, carries it from the coins after to the coins before.
-/

namespace CentNode

open Option List

namespace FlatCoins

/-- Every record is as the coins database keeps it. -/
def Trimmed (view : FlatCoins) : Prop := ∀ txid, (view.coins txid).Proper

/-- The amounts of the records are in money range, as well: `CTxOutCompressor` gives them back. -/
structure Proper (params : CChainParams) (view : FlatCoins) : Prop where
  trimmed : view.Trimmed
  amounts : ∀ txid, ∀ txout ∈ (view.coins txid).vout, txout.isNull = false →
    params.moneyRange txout.nValue = true

/-- `seen` shows the records of `view`, those of `lost` after their way through undo data. -/
def Damaged (lost : Uint256 → Bool) (view seen : FlatCoins) : Prop :=
  ∀ txid, ((view.coins txid).isPruned = true ∧ (seen.coins txid).isPruned = true) ∨
    seen.coins txid = if lost txid then (view.coins txid).throughUndo else view.coins txid

variable {lost : Uint256 → Bool} {view seen : FlatCoins}

theorem Damaged.isPruned_eq (damaged : Damaged lost view seen) (txid : Uint256) :
    (seen.coins txid).isPruned = (view.coins txid).isPruned := by
  rcases damaged txid with ⟨hview, hseen⟩ | equal
  · rw [hview, hseen]
  · rw [equal]
    split
    · exact CCoins.isPruned_throughUndo _
    · rfl

theorem Damaged.of_not_pruned (damaged : Damaged lost view seen) {txid : Uint256}
    (left : (view.coins txid).isPruned = false) :
    seen.coins txid = if lost txid then (view.coins txid).throughUndo else view.coins txid := by
  rcases damaged txid with ⟨pruned, _⟩ | equal
  · rw [left] at pruned
    cases pruned
  · exact equal

end FlatCoins

open FlatCoins

/-! ## One spend -/

/-- What spending one output did to the view. -/
structure SpentInput (view : FlatCoins) (out : COutPoint) (next : FlatCoins) (undo : CTxInUndo) :
    Prop where
  record : CCoins.Spent (view.coins out.hash) out.n (next.coins out.hash) undo
  others : ∀ txid, txid ≠ out.hash → next.coins txid = view.coins txid
  best : next.bestBlock = view.bestBlock

variable {view : FlatCoins}

theorem spentInput_of_some {out : COutPoint} {spent : FlatCoins × CTxInUndo}
    (took : spendInput view out = some spent) : SpentInput view out spent.1 spent.2 := by
  obtain ⟨⟨rest, undo⟩, spend_eq, rfl⟩ := map_eq_some_iff.mp took
  have record := CCoins.spent_of_spend spend_eq
  have stays : rest.cleanup = rest := by rw [record.rest_eq, CCoins.cleanup_cleanup]
  refine ⟨?_, fun txid differs => modifyCoins_of_ne view (fun _ => rest) differs, rfl⟩
  change CCoins.Spent _ _ ((view.modifyCoins out.hash fun _ => rest).coins out.hash) undo
  rw [modifyCoins_self, stays]
  exact record

namespace SpentInput

variable {view next seen : FlatCoins} {out : COutPoint} {undo back : CTxInUndo}
  {lost : Uint256 → Bool}

theorem trimmed (spent : SpentInput view out next undo) (ok : view.Trimmed) : next.Trimmed := by
  intro txid
  by_cases same : txid = out.hash
  · rw [same]
    exact spent.record.proper_rest (ok out.hash)
  · rw [spent.others txid same]
    exact ok txid

theorem not_pruned (spent : SpentInput view out next undo) {txid : Uint256}
    (left : (next.coins txid).isPruned = false) :
    (view.coins txid).isPruned = false ∧ (next.coins txid).nHeight = (view.coins txid).nHeight := by
  by_cases same : txid = out.hash
  · rw [same]
    exact ⟨spent.record.not_pruned, spent.record.metadata.2.2.1⟩
  · rw [spent.others txid same] at left ⊢
    exact ⟨left, rfl⟩

theorem restored_last (spent : SpentInput view out next undo) (ok : view.Trimmed)
    (read : undo.readBack = some back) (empty : (next.coins out.hash).isPruned = true)
    (height : back.nHeight ≠ 0) (coins : CCoins) :
    { undoBase coins back with vout := putOutput (undoBase coins back).vout out.n back.txout } =
      (view.coins out.hash).throughUndo := by
  obtain ⟨txout_eq, base_eq, height_eq, version_eq⟩ := CTxInUndo.readBack_some read
  obtain ⟨undoBase_eq, _, undoHeight, undoVersion⟩ := spent.record.last empty
  have outputs := spent.record.putBack_vout (ok out.hash)
  rw [CCoins.vout_eq_nil_of_pruned (spent.record.proper_rest (ok out.hash)) empty] at outputs
  have nHeight_eq : (back.nHeight : Int) = (view.coins out.hash).nHeight % 2 ^ 30 := by
    rw [height_eq, undoHeight]
    omega
  simp only [undoBase, if_pos height, CCoins.throughUndo, CCoins.cleared, putOutput, txout_eq,
    outputs, base_eq, undoBase_eq, nHeight_eq, version_eq height, undoVersion]

theorem restored_more (spent : SpentInput view out next undo) (lost : Uint256 → Bool)
    (ok : view.Trimmed) (read : undo.readBack = some back) (left : (next.coins out.hash).isPruned = false) :
    back.nHeight = 0 ∧ ∀ coins : CCoins,
      coins = (if lost out.hash then (next.coins out.hash).throughUndo else next.coins out.hash) →
        { coins with vout := putOutput coins.vout out.n back.txout } =
          if lost out.hash then (view.coins out.hash).throughUndo else view.coins out.hash := by
  obtain ⟨txout_eq, _, height_eq, _⟩ := CTxInUndo.readBack_some read
  refine ⟨?_, fun coins coins_eq => ?_⟩
  · rw [height_eq, spent.record.notLast left]
    rfl
  · have outputs := spent.record.putBack_vout (ok out.hash)
    obtain ⟨base_eq, stake_eq, nHeight_eq, version_eq⟩ := spent.record.metadata
    rw [coins_eq, txout_eq]
    cases lost out.hash with
    | true =>
      simp only [if_true, CCoins.throughUndo, putOutput, outputs, base_eq, nHeight_eq, version_eq]
    | false =>
      simp only [Bool.false_eq_true, if_false, putOutput, outputs, base_eq, stake_eq, nHeight_eq,
        version_eq]

/-- Undoing a spend is clean unless the height of an emptied record was lost,
and then shows the coins before the spend. -/
theorem restoreInput_spec (spent : SpentInput view out next undo) (ok : view.Trimmed)
    (read : undo.readBack = some back) (damaged : Damaged lost next seen)
    (gone : (next.coins out.hash).isPruned = true → lost out.hash = true) :
    ((restoreInput seen out back).2 = true ↔
        ((next.coins out.hash).isPruned = true → (view.coins out.hash).nHeight % 2 ^ 30 ≠ 0)) ∧
      ((restoreInput seen out back).2 = true →
        Damaged lost view (restoreInput seen out back).1) := by
  have seenPruned := damaged.isPruned_eq out.hash
  -- Away from the record of the output nothing changes.
  have elsewhere : ∀ restored : CCoins,
      restored = (if lost out.hash then (view.coins out.hash).throughUndo
        else view.coins out.hash) →
        Damaged lost view (seen.modifyCoins out.hash fun _ => restored) := by
    intro restored restored_eq txid
    by_cases same : txid = out.hash
    · right
      have trimmed : restored.cleanup = restored := by
        refine CCoins.cleanup_of_vout (ok out.hash).trimmed ?_
        rw [restored_eq]
        split <;> rfl
      rw [same, modifyCoins_self, trimmed, restored_eq]
    · rw [modifyCoins_of_ne _ _ same, ← spent.others txid same]
      exact damaged txid
  cases empty : (next.coins out.hash).isPruned with
  | true =>
    obtain ⟨_, _, height_eq, _⟩ := CTxInUndo.readBack_some read
    have height_iff : back.nHeight ≠ 0 ↔ (view.coins out.hash).nHeight % 2 ^ 30 ≠ 0 := by
      rw [height_eq, (spent.record.last empty).2.2.1]
      omega
    by_cases height : back.nHeight = 0
    · have unclean : (restoreInput seen out back).2 = false := by
        simp [restoreInput, height, seenPruned, empty]
      rw [unclean]
      exact ⟨⟨fun impossible => (nomatch impossible),
        fun kept => absurd height (height_iff.mpr (kept rfl))⟩,
        fun impossible => (nomatch impossible)⟩
    · have clean : (restoreInput seen out back).2 = true := by
        simp [restoreInput, height, seenPruned, empty, undoBase, CCoins.isAvailable,
          CCoins.cleared]
      refine ⟨iff_of_true clean fun _ => height_iff.mp height, fun _ => ?_⟩
      refine elsewhere _ ?_
      rw [if_pos (gone empty)]
      exact spent.restored_last ok read empty height (seen.coins out.hash)
  | false =>
    obtain ⟨height, restored⟩ := spent.restored_more lost ok read empty
    have record_eq := damaged.of_not_pruned empty
    have base_eq : undoBase (seen.coins out.hash) back = seen.coins out.hash := by
      simp [undoBase, height]
    have missing : (seen.coins out.hash).isAvailable out.n = false := by
      have here := spent.record.isAvailable_rest out.n
      rw [record_eq]
      split
      · simpa using here
      · simpa using here
    have clean : (restoreInput seen out back).2 = true := by
      simp only [restoreInput, base_eq, missing]
      simp [height, seenPruned, empty]
    refine ⟨iff_of_true clean fun impossible => (nomatch impossible), fun _ => ?_⟩
    refine elsewhere _ ?_
    rw [base_eq]
    exact restored _ record_eq

end SpentInput

/-! ## The spends of a transaction -/

/-- The coins after some spends: which records are left, and what they keep. -/
structure SpentInputs (view : FlatCoins) (prevouts : List COutPoint) (next : FlatCoins) : Prop where
  trimmed : view.Trimmed → next.Trimmed
  left : ∀ txid, (next.coins txid).isPruned = false →
    (view.coins txid).isPruned = false ∧ (next.coins txid).nHeight = (view.coins txid).nHeight
  available : ∀ txid n, (next.coins txid).isAvailable n = true ↔
    (view.coins txid).isAvailable n = true ∧ ⟨txid, n⟩ ∉ prevouts
  present : ∀ out ∈ prevouts, (view.coins out.hash).isAvailable out.n = true

theorem isAvailable_spent {next : FlatCoins} {out : COutPoint} {undo : CTxInUndo}
    (spent : SpentInput view out next undo) (txid : Uint256) (n : Nat) :
    (next.coins txid).isAvailable n = true ↔
      (view.coins txid).isAvailable n = true ∧ (⟨txid, n⟩ : COutPoint) ≠ out := by
  by_cases same : txid = out.hash
  · subst same
    rw [spent.record.isAvailable_rest, Bool.and_eq_true, decide_eq_true_eq]
    refine and_congr_right fun _ => not_congr ⟨fun equal => ?_, fun equal => ?_⟩
    · rw [equal]
    · exact congrArg COutPoint.n equal
  · rw [spent.others txid same]
    exact ⟨fun there => ⟨there, fun equal => same (congrArg COutPoint.hash equal)⟩, And.left⟩

variable {prevouts : List COutPoint} {spent : FlatCoins × List CTxInUndo}

theorem spentInputs_of_some (took : spendInputs view prevouts = some spent) :
    SpentInputs view prevouts spent.1 := by
  induction prevouts generalizing view spent with
  | nil =>
    cases took
    exact ⟨id, fun _ left => ⟨left, rfl⟩, fun _ _ => by simp, fun _ member => by cases member⟩
  | cons out rest ih =>
    obtain ⟨first, here, others⟩ := bind_eq_some_iff.mp took
    obtain ⟨last, followed, rfl⟩ := map_eq_some_iff.mp others
    have one := spentInput_of_some here
    have more := ih followed
    refine ⟨fun ok => more.trimmed (one.trimmed ok), fun txid left => ?_, fun txid n => ?_,
      fun other member => ?_⟩
    · obtain ⟨middle, height⟩ := more.left txid left
      obtain ⟨before, heightBefore⟩ := one.not_pruned middle
      exact ⟨before, height.trans heightBefore⟩
    · rw [more.available, isAvailable_spent one, mem_cons, not_or, and_assoc]
    · rcases mem_cons.mp member with rfl | later
      · exact one.record.available
      · exact ((isAvailable_spent one _ _).mp (more.present other later)).1

theorem SpentInputs.pruned {view next : FlatCoins} {prevouts : List COutPoint}
    (spent : SpentInputs view prevouts next) {txid : Uint256}
    (empty : (view.coins txid).isPruned = true) : (next.coins txid).isPruned = true := by
  by_contra left
  have before := (spent.left txid (by simpa using left)).1
  rw [empty] at before
  cases before

/-- The heights of the records that the spends emptied survive the undo code. -/
def HeightsKept (view next : FlatCoins) : Prop :=
  ∀ txid, (view.coins txid).isPruned = false → (next.coins txid).isPruned = true →
    (view.coins txid).nHeight % 2 ^ 30 ≠ 0

/-- Undoing all spends of a transaction. -/
theorem restoreInputs_spec {lost : Uint256 → Bool} {backs : List CTxInUndo} {state : Disconnected}
    (ok : view.Trimmed) (took : spendInputs view prevouts = some spent)
    (read : spent.2.mapM CTxInUndo.readBack = some backs)
    (gone : ∀ txid, (view.coins txid).isPruned = false →
      (spent.1.coins txid).isPruned = true → lost txid = true)
    (damaged : state.fClean = true → Damaged lost spent.1 state.view) :
    ((restoreInputs prevouts backs state).fClean = true ↔
        state.fClean = true ∧ HeightsKept view spent.1) ∧
      ((restoreInputs prevouts backs state).fClean = true →
        Damaged lost view (restoreInputs prevouts backs state).view) := by
  induction prevouts generalizing view spent backs with
  | nil =>
    cases took
    cases read
    refine ⟨⟨fun clean => ⟨clean, fun txid left empty => ?_⟩, And.left⟩, damaged⟩
    rw [left] at empty
    cases empty
  | cons out rest ih =>
    obtain ⟨⟨next, undo⟩, here, others⟩ := bind_eq_some_iff.mp took
    obtain ⟨⟨final, undos⟩, followed, rfl⟩ := map_eq_some_iff.mp others
    have one : SpentInput view out next undo := spentInput_of_some here
    have more : SpentInputs next rest final := spentInputs_of_some followed
    rw [mapM_cons] at read
    obtain ⟨back, readOne, readRest⟩ := bind_eq_some_iff.mp read
    obtain ⟨backRest, readMore, done⟩ := bind_eq_some_iff.mp readRest
    cases done
    obtain ⟨laterClean, laterDamaged⟩ := ih (one.trimmed ok) followed readMore
      (fun txid left empty => gone txid (one.not_pruned left).1 empty) damaged
    have restored := fun clean => one.restoreInput_spec ok readOne (laterDamaged clean)
      (fun empty => gone out.hash one.record.not_pruned (more.pruned empty))
    simp only [restoreInputs, Bool.and_eq_true]
    refine ⟨⟨?_, ?_⟩, fun clean => (restored clean.1).2 clean.2⟩
    · rintro ⟨clean, cleanHere⟩
      obtain ⟨start, heights⟩ := laterClean.mp clean
      refine ⟨start, fun txid left empty => ?_⟩
      cases middle : (next.coins txid).isPruned with
      | false =>
        rw [← (one.not_pruned middle).2]
        exact heights txid middle empty
      | true =>
        by_cases same : txid = out.hash
        · subst same
          exact (restored clean).1.mp cleanHere middle
        · rw [one.others txid same, left] at middle
          cases middle
    · rintro ⟨start, heights⟩
      have clean := laterClean.mpr ⟨start, fun txid left empty => by
        obtain ⟨before, height⟩ := one.not_pruned left
        rw [height]
        exact heights txid before empty⟩
      exact ⟨clean, (restored clean).1.mpr fun empty =>
        heights out.hash one.record.not_pruned (more.pruned empty)⟩

/-- Undo data whose heights are kept can be read back. -/
theorem readable_of_heightsKept (took : spendInputs view prevouts = some spent)
    (kept : HeightsKept view spent.1) : ∃ backs, spent.2.mapM CTxInUndo.readBack = some backs := by
  induction prevouts generalizing view spent with
  | nil =>
    cases took
    exact ⟨[], rfl⟩
  | cons out rest ih =>
    obtain ⟨⟨next, undo⟩, here, others⟩ := bind_eq_some_iff.mp took
    obtain ⟨⟨final, undos⟩, followed, rfl⟩ := map_eq_some_iff.mp others
    have one : SpentInput view out next undo := spentInput_of_some here
    have more : SpentInputs next rest final := spentInputs_of_some followed
    obtain ⟨backs, readMore⟩ := ih followed fun txid left empty => by
      obtain ⟨before, height⟩ := one.not_pruned left
      rw [height]
      exact kept txid before empty
    have readable : undo.readBack ≠ none := by
      refine CTxInUndo.readBack_ne_none fun written => ?_
      cases empty : (next.coins out.hash).isPruned with
      | false =>
        rw [one.record.notLast empty] at written
        exact absurd rfl written
      | true =>
        have height := kept out.hash one.record.not_pruned (more.pruned empty)
        rw [(one.record.last empty).2.2.1]
        omega
    obtain ⟨back, readOne⟩ := ne_none_iff_exists'.mp readable
    refine ⟨back :: backs, ?_⟩
    rw [mapM_cons, readOne]
    change (undos.mapM CTxInUndo.readBack).bind _ = _
    rw [readMore]
    rfl

theorem spendInputs_length (took : spendInputs view prevouts = some spent) :
    spent.2.length = prevouts.length := by
  induction prevouts generalizing view spent with
  | nil =>
    cases took
    rfl
  | cons out rest ih =>
    obtain ⟨first, _, others⟩ := bind_eq_some_iff.mp took
    obtain ⟨last, followed, rfl⟩ := map_eq_some_iff.mp others
    simp [ih followed]

end CentNode
