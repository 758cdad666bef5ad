import Mathlib.Algebra.BigOperators.Group.Finset.Basic
import Mathlib.Algebra.Order.BigOperators.Group.List
import Mathlib.Data.Fintype.EquivFin
import CentNode.Coins.FlatCoins
import CentNode.Coins.SpendUndo

/-!
# What is unspent, and what it is worth

The unspent outputs of a record and of the whole coins, and how spending one,
putting one back and taking over those of a transaction change their value.
-/

namespace CentNode

open List Option Function Bool

namespace CTxOut

/-- What an output counts among the unspent ones. -/
def unspentValue (txout : CTxOut) : Int := if txout.isNull then 0 else txout.nValue

theorem unspentValue_null : null.unspentValue = 0 := rfl

/-- An output that a transaction can leave unspent. -/
def spendable (txout : CTxOut) : Bool := !txout.isNull && !CScript.isUnspendable txout.scriptPubKey

end CTxOut

open CTxOut

/-! ## Sums over outputs -/

theorem sum_map_set {α : Type} {l : List α} {n : Nat} {old : α} (value : α → Int)
    (found : l[n]? = some old) (new : α) :
    ((l.set n new).map value).sum = (l.map value).sum - value old + value new := by
  induction l generalizing n with
  | nil => cases found
  | cons head rest ih =>
    cases n with
    | zero =>
      cases found
      simp only [set_cons_zero, map_cons, sum_cons]
      omega
    | succ n =>
      simp only [set_cons_succ, map_cons, sum_cons, ih found]
      omega

namespace CCoins

/-- The unspent output at a position. -/
def output (coins : CCoins) (n : Nat) : Option CTxOut :=
  coins.vout[n]?.filter fun txout => !txout.isNull

/-- The value of the unspent outputs. -/
def value (coins : CCoins) : Int := (coins.vout.map CTxOut.unspentValue).sum

variable {coins rest : CCoins} {n : Nat} {txout : CTxOut} {undo : CTxInUndo}

theorem output_eq_some : coins.output n = some txout ↔
    coins.vout[n]? = some txout ∧ txout.isNull = false := by
  rw [output, filter_eq_some_iff, not_eq_true']

theorem isAvailable_eq (coins : CCoins) (n : Nat) :
    coins.isAvailable n = (coins.output n).isSome := by
  unfold isAvailable output
  cases coins.vout[n]? with
  | none => rfl
  | some txout => cases null : txout.isNull <;> simp [null]

theorem output_eq_none : coins.output n = none ↔ coins.isAvailable n = false := by
  rw [isAvailable_eq, isSome_eq_false_iff, isNone_iff_eq_none]

theorem isPruned_iff_output : coins.isPruned = true ↔ ∀ n, coins.output n = none := by
  rw [isPruned_iff_not_available]
  exact forall_congr' fun n => output_eq_none.symm

theorem output_cleanup (coins : CCoins) (n : Nat) : coins.cleanup.output n = coins.output n := by
  have parts : coins.vout = coins.cleanup.vout ++ coins.vout.rtakeWhile isNull :=
    rdropWhile_append_rtakeWhile.symm
  cases found : coins.cleanup.output n with
  | some txout =>
    obtain ⟨there, notNull⟩ := output_eq_some.mp found
    refine (output_eq_some.mpr ⟨?_, notNull⟩).symm
    rw [parts, getElem?_append_left (List.getElem?_eq_some_iff.mp there).1]
    exact there
  | none =>
    rw [output_eq_none, isAvailable_cleanup] at found
    exact (output_eq_none.mpr found).symm

theorem value_cleanup (coins : CCoins) : coins.cleanup.value = coins.value := by
  have parts : coins.vout = coins.cleanup.vout ++ coins.vout.rtakeWhile isNull :=
    rdropWhile_append_rtakeWhile.symm
  have cut : ((coins.vout.rtakeWhile isNull).map unspentValue).sum = 0 := by
    refine sum_eq_zero fun value member => ?_
    obtain ⟨txout, inside, rfl⟩ := List.mem_map.mp member
    exact if_pos (mem_rtakeWhile_imp inside)
  unfold value
  conv_rhs => rw [parts, map_append, sum_append, cut, Int.add_zero]

theorem value_of_pruned (pruned : coins.isPruned = true) : coins.value = 0 := by
  refine sum_eq_zero fun value member => ?_
  obtain ⟨txout, inside, rfl⟩ := List.mem_map.mp member
  exact if_pos (isPruned_iff.mp pruned txout inside)

theorem value_cleared : cleared.value = 0 := rfl

/-! ## One output -/

theorem Spent.output_self (spent : Spent coins n rest undo) :
    coins.output n = some undo.txout := by
  obtain ⟨txout, found, notNull, rfl⟩ := spent.output
  exact output_eq_some.mpr ⟨found, notNull⟩

theorem Spent.output_rest (spent : Spent coins n rest undo) (m : Nat) :
    rest.output m = if m = n then none else coins.output m := by
  obtain ⟨txout, found, _, _⟩ := spent.output
  rw [spent.rest_eq, output_cleanup]
  unfold CCoins.output
  by_cases same : m = n
  · subst same
    have inside := (List.getElem?_eq_some_iff.mp found).1
    rw [if_pos rfl, getElem?_set_self inside]
    rfl
  · rw [if_neg same, getElem?_set_ne (Ne.symm same)]

theorem Spent.value_rest (spent : Spent coins n rest undo) :
    rest.value = coins.value - undo.txout.nValue := by
  obtain ⟨txout, found, notNull, undo_eq⟩ := spent.output
  have worth : txout.unspentValue = undo.txout.nValue := by
    rw [undo_eq]
    exact if_neg (not_eq_true _ ▸ notNull)
  rw [spent.rest_eq, value_cleanup]
  unfold CCoins.value
  rw [sum_map_set unspentValue found, worth, unspentValue_null, Int.add_zero]

theorem output_grown (coins : CCoins) (count m : Nat) :
    ({ coins with vout := coins.vout ++ replicate count CTxOut.null } : CCoins).output m =
      coins.output m := by
  unfold output
  dsimp only
  by_cases inside : m < coins.vout.length
  · rw [getElem?_append_left inside]
  · rw [getElem?_append_right (Nat.le_of_not_lt inside),
      getElem?_eq_none (Nat.le_of_not_lt inside), getElem?_replicate]
    split <;> rfl

theorem output_putBack (coins : CCoins) (notNull : txout.isNull = false) (m : Nat) :
    ({ coins with vout := Trim.putBack CTxOut.null coins.vout n txout } : CCoins).output m =
      if m = n then some txout else coins.output m := by
  rw [← output_grown coins (n + 1 - coins.vout.length) m]
  unfold output Trim.putBack
  dsimp only
  by_cases same : m = n
  · subst same
    rw [if_pos rfl, getElem?_set_self, filter_some, notNull]
    · rfl
    · rw [length_append, length_replicate]
      omega
  · rw [if_neg same, getElem?_set_ne (Ne.symm same)]

theorem value_putBack (missing : coins.isAvailable n = false) (notNull : txout.isNull = false) :
    ({ coins with vout := Trim.putBack CTxOut.null coins.vout n txout } : CCoins).value =
      coins.value + txout.nValue := by
  have grown := output_grown coins (n + 1 - coins.vout.length) n
  rw [output_eq_none.mpr missing] at grown
  have inside : n < (coins.vout ++
      replicate (n + 1 - coins.vout.length) CTxOut.null).length := by
    rw [length_append, length_replicate]
    omega
  have found := getElem?_eq_getElem inside
  -- what stands at the position is null
  have worthless : unspentValue
      (coins.vout ++ replicate (n + 1 - coins.vout.length) CTxOut.null)[n] = 0 := by
    unfold output at grown
    dsimp only at grown
    rw [found, filter_some] at grown
    split at grown
    · cases grown
    · next null => exact if_pos (by simpa using null)
  have worth : txout.unspentValue = txout.nValue := if_neg (not_eq_true _ ▸ notNull)
  unfold value Trim.putBack
  dsimp only
  rw [sum_map_set unspentValue found, worthless, worth, map_append, sum_append,
    map_replicate, sum_replicate, unspentValue_null, nsmul_zero]
  omega

/-! ## The outputs of a transaction -/

theorem output_clearUnspendable (coins : CCoins) (n : Nat) :
    coins.clearUnspendable.output n = coins.vout[n]?.filter CTxOut.spendable := by
  rw [clearUnspendable, output_cleanup, output, getElem?_map]
  cases coins.vout[n]? with
  | none => rfl
  | some txout =>
    rw [map_some, filter_some, filter_some, CTxOut.spendable]
    cases CScript.isUnspendable txout.scriptPubKey with
    | true => simp
    | false => simp

theorem output_fromTx (tx : CTransaction) (nHeight : Int) (n : Nat) :
    (fromTx tx nHeight).output n = tx.vout[n]?.filter CTxOut.spendable :=
  output_clearUnspendable _ n

theorem value_clearUnspendable
    (spendable : ∀ n txout, coins.output n = some txout →
      CScript.isUnspendable txout.scriptPubKey = false) :
    coins.clearUnspendable.value = coins.value := by
  rw [clearUnspendable, value_cleanup]
  unfold value
  rw [List.map_map]
  refine congrArg List.sum (map_congr_left fun txout member => ?_)
  cases null : txout.isNull with
  | true =>
    rw [comp, unspentValue, unspentValue, if_pos null]
    split
    · rfl
    · rfl
  | false =>
    obtain ⟨n, found⟩ := mem_iff_getElem?.mp member
    rw [comp, spendable n txout (output_eq_some.mpr ⟨found, null⟩),
      if_neg Bool.false_ne_true]

end CCoins

namespace CTransaction

/-- The value of the outputs that are provably unspendable. -/
def unspendableValue (tx : CTransaction) : Int :=
  (tx.vout.map fun txout =>
    if CScript.isUnspendable txout.scriptPubKey then txout.nValue else 0).sum

theorem value_fromTx {tx : CTransaction} (real : ∀ txout ∈ tx.vout, txout.isNull = false)
    (nHeight : Int) :
    (CCoins.fromTx tx nHeight).value + tx.unspendableValue = (tx.vout.map (·.nValue)).sum := by
  rw [CCoins.fromTx, CCoins.clearUnspendable, CCoins.value_cleanup]
  unfold CCoins.value unspendableValue
  dsimp only
  rw [List.map_map, ← sum_map_add]
  refine congrArg List.sum (map_congr_left fun txout member => ?_)
  rw [comp]
  cases CScript.isUnspendable txout.scriptPubKey with
  | true => rw [if_pos rfl, if_pos rfl, unspentValue_null, Int.zero_add]
  | false =>
    rw [if_neg Bool.false_ne_true, if_neg Bool.false_ne_true, Int.add_zero]
    exact if_neg (not_eq_true _ ▸ real txout member)

end CTransaction

/-! ## All coins -/

noncomputable instance : Fintype Uint256 :=
  Fintype.ofInjective BitVec.toFin fun _ _ => BitVec.eq_of_toFin_eq

namespace FlatCoins

/-- The value of all unspent outputs. -/
noncomputable def total (view : FlatCoins) : Int := ∑ txid, (view.coins txid).value

theorem total_of_changed {view next : FlatCoins} {txid : Uint256}
    (others : ∀ other, other ≠ txid → next.coins other = view.coins other) :
    next.total = view.total - (view.coins txid).value + (next.coins txid).value := by
  have same : ∑ other ∈ Finset.univ.erase txid, (next.coins other).value =
      ∑ other ∈ Finset.univ.erase txid, (view.coins other).value :=
    Finset.sum_congr rfl fun other member => by rw [others other (Finset.ne_of_mem_erase member)]
  unfold total
  rw [← Finset.add_sum_erase _ _ (Finset.mem_univ txid), same,
    ← Finset.add_sum_erase Finset.univ (fun other => (view.coins other).value)
      (Finset.mem_univ txid)]
  omega

theorem total_modifyCoins (view : FlatCoins) (txid : Uint256) (change : CCoins → CCoins) :
    (view.modifyCoins txid change).total =
      view.total - (view.coins txid).value + (change (view.coins txid)).value := by
  rw [total_of_changed fun other differs => modifyCoins_of_ne view change differs,
    modifyCoins_self, CCoins.value_cleanup]

end FlatCoins

end CentNode
