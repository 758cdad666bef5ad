import CentNode.Library.Trim
import CentNode.Coins.Coins

/-!
# Undoing one spend

What a record looks like after its output was spent and put back.  As long as
outputs are left the record comes back as it was.  A record that was emptied
comes back through its undo record, which loses the coinstake flag, a negative
version and the high bits of the height.
-/

namespace CentNode

open List

namespace CCoins

/-- A record as the coins database keeps it: trimmed, and null where spent. -/
structure Proper (coins : CCoins) : Prop where
  trimmed : coins.cleanup = coins
  blanks : ∀ txout ∈ coins.vout, txout.isNull = true → txout = CTxOut.null

/-- The record that comes back when `coins` was emptied and all its outputs are restored. -/
def throughUndo (coins : CCoins) : CCoins :=
  { coins with
    fCoinStake := false
    nHeight := coins.nHeight % 2 ^ 30
    nVersion := varintReadBack coins.nVersion }

@[simp]
theorem throughUndo_vout (coins : CCoins) : coins.throughUndo.vout = coins.vout := rfl

@[simp]
theorem isPruned_throughUndo (coins : CCoins) : coins.throughUndo.isPruned = coins.isPruned := rfl

@[simp]
theorem isAvailable_throughUndo (coins : CCoins) (n : Nat) :
    coins.throughUndo.isAvailable n = coins.isAvailable n := rfl

variable {coins : CCoins}

theorem vout_trimmed (trimmed : coins.cleanup = coins) :
    coins.vout.rdropWhile CTxOut.isNull = coins.vout :=
  congrArg CCoins.vout trimmed

theorem cleanup_of_vout {other : CCoins} (trimmed : coins.cleanup = coins)
    (same : other.vout = coins.vout) : other.cleanup = other := by
  rw [cleanup, same, vout_trimmed trimmed, ← same]

theorem proper_cleared : Proper cleared := ⟨rfl, fun txout member => by cases member⟩

theorem vout_eq_nil_of_pruned (proper : coins.Proper) (pruned : coins.isPruned = true) :
    coins.vout = [] := by
  rw [← cleanup_vout_eq_nil, proper.trimmed] at pruned
  exact pruned

theorem isAvailable_iff {n : Nat} :
    coins.isAvailable n = true ↔ ∃ txout, coins.vout[n]? = some txout ∧ txout.isNull = false := by
  unfold isAvailable
  cases coins.vout[n]? <;> simp

theorem isPruned_iff_not_available :
    coins.isPruned = true ↔ ∀ n, coins.isAvailable n = false := by
  rw [isPruned_iff]
  constructor
  · intro pruned n
    rw [Bool.eq_false_iff]
    intro available
    obtain ⟨txout, found, notNull⟩ := isAvailable_iff.mp available
    rw [pruned txout (mem_of_getElem? found)] at notNull
    cases notNull
  · intro none_available txout member
    obtain ⟨n, found⟩ := mem_iff_getElem?.mp member
    by_contra notNull
    have available : coins.isAvailable n = true :=
      isAvailable_iff.mpr ⟨txout, found, by simpa using notNull⟩
    rw [none_available n] at available
    cases available

@[simp]
theorem isAvailable_cleanup (coins : CCoins) (n : Nat) :
    coins.cleanup.isAvailable n = coins.isAvailable n := by
  have parts : coins.vout = coins.cleanup.vout ++ coins.vout.rtakeWhile CTxOut.isNull :=
    rdropWhile_append_rtakeWhile.symm
  rw [Bool.eq_iff_iff, isAvailable_iff, isAvailable_iff]
  constructor
  · rintro ⟨txout, found, notNull⟩
    refine ⟨txout, ?_, notNull⟩
    rw [parts]
    exact getElem?_append_left (List.getElem?_eq_some_iff.mp found).1 ▸ found
  · rintro ⟨txout, found, notNull⟩
    refine ⟨txout, ?_, notNull⟩
    rw [parts] at found
    by_cases inside : n < coins.cleanup.vout.length
    · rwa [getElem?_append_left inside] at found
    · rw [getElem?_append_right (by omega)] at found
      have cut := mem_rtakeWhile_imp (mem_of_getElem? found)
      rw [cut] at notNull
      cases notNull

/-! ## Spending -/

/-- What a successful `Spend` did. -/
structure Spent (coins : CCoins) (n : Nat) (rest : CCoins) (undo : CTxInUndo) : Prop where
  output : ∃ txout, coins.vout[n]? = some txout ∧ txout.isNull = false ∧ undo.txout = txout
  rest_eq : rest = cleanup { coins with vout := coins.vout.set n CTxOut.null }
  last : rest.isPruned = true →
    undo.fCoinBase = coins.fCoinBase ∧ undo.fCoinStake = coins.fCoinStake ∧
      undo.nHeight = (coins.nHeight % 2 ^ 32).toNat ∧ undo.nVersion = coins.nVersion
  notLast : rest.isPruned = false → undo = { txout := undo.txout }

theorem spent_of_spend {rest : CCoins} {out : COutPoint} {undo : CTxInUndo}
    (spent : coins.spend out = some (rest, undo)) : Spent coins out.n rest undo := by
  unfold spend at spent
  split at spent
  · cases spent
  next txout found =>
  split at spent
  · cases spent
  next notNull =>
  have empty_iff : (cleanup { coins with vout := coins.vout.set out.n CTxOut.null }).vout.length = 0 ↔
      (cleanup { coins with vout := coins.vout.set out.n CTxOut.null }).isPruned = true := by
    rw [length_eq_zero_iff, cleanup_vout_eq_nil, isPruned_cleanup]
  simp only at spent
  split at spent
  · next empty =>
      cases spent
      exact ⟨⟨txout, found, by simpa using notNull, rfl⟩, rfl, fun _ => ⟨rfl, rfl, rfl, rfl⟩,
        fun left => by rw [empty_iff.mp empty] at left; cases left⟩
  · next left =>
      cases spent
      exact ⟨⟨txout, found, by simpa using notNull, rfl⟩, rfl,
        fun empty => absurd (empty_iff.mpr empty) left, fun _ => rfl⟩

namespace Spent

variable {coins rest : CCoins} {n : Nat} {undo : CTxInUndo}

section

variable (spent : Spent coins n rest undo)

include spent

theorem available : coins.isAvailable n = true := by
  obtain ⟨txout, found, notNull, _⟩ := spent.output
  exact isAvailable_iff.mpr ⟨txout, found, notNull⟩

theorem not_pruned : coins.isPruned = false := by
  rw [Bool.eq_false_iff]
  intro pruned
  have gone := isPruned_iff_not_available.mp pruned n
  rw [spent.available] at gone
  cases gone

theorem isAvailable_rest (m : Nat) :
    rest.isAvailable m = (coins.isAvailable m && decide (m ≠ n)) := by
  rw [spent.rest_eq, isAvailable_cleanup]
  unfold isAvailable
  by_cases same : m = n
  · subst same
    obtain ⟨txout, found, _, _⟩ := spent.output
    have inside := (List.getElem?_eq_some_iff.mp found).1
    simp [getElem?_set_self inside]
  · simp [getElem?_set_ne (Ne.symm same), same]

theorem proper_rest (proper : coins.Proper) : rest.Proper := by
  refine ⟨by rw [spent.rest_eq, cleanup_cleanup], fun txout member null => ?_⟩
  rw [spent.rest_eq] at member
  have inside := ( rdropWhile_prefix CTxOut.isNull _).subset member
  rcases mem_or_eq_of_mem_set inside with old | new
  · exact proper.blanks txout old null
  · exact new

theorem metadata : rest.fCoinBase = coins.fCoinBase ∧
    rest.fCoinStake = coins.fCoinStake ∧ rest.nHeight = coins.nHeight ∧
      rest.nVersion = coins.nVersion := by
  rw [spent.rest_eq]
  exact ⟨rfl, rfl, rfl, rfl⟩

theorem putBack_vout (proper : coins.Proper) :
    Trim.putBack CTxOut.null rest.vout n undo.txout = coins.vout := by
  obtain ⟨txout, found, _, undo_eq⟩ := spent.output
  rw [spent.rest_eq, undo_eq]
  exact Trim.putBack_set (vout_trimmed proper.trimmed) proper.blanks found

end

end Spent

end CCoins

/-! ## The record on disk -/

namespace CTxInUndo

variable {undo back : CTxInUndo}

theorem readBack_nHeight (undo : CTxInUndo) : undo.code / 4 = undo.nHeight % 2 ^ 30 := by
  unfold code
  cases undo.fCoinBase <;> cases undo.fCoinStake <;> simp <;> omega

theorem readBack_fCoinBase (undo : CTxInUndo) :
    decide (undo.code / 2 % 2 = 1) = undo.fCoinBase := by
  unfold code
  cases undo.fCoinBase <;> cases undo.fCoinStake <;> simp <;> omega

theorem readBack_some (read : undo.readBack = some back) :
    back.txout = undo.txout ∧ back.fCoinBase = undo.fCoinBase ∧
      back.nHeight = undo.nHeight % 2 ^ 30 ∧
        (back.nHeight ≠ 0 → back.nVersion = varintReadBack undo.nVersion) := by
  simp only [readBack, readBack_nHeight, readBack_fCoinBase] at read
  split at read
  · cases read
  · cases read
    exact ⟨rfl, rfl, rfl, fun positive => if_pos (Nat.pos_of_ne_zero positive)⟩

/-- A record is lost only when its height is a multiple of `2 ^ 30` and not zero. -/
theorem readBack_ne_none (kept : undo.nHeight ≠ 0 → undo.nHeight % 2 ^ 30 ≠ 0) :
    undo.readBack ≠ none := by
  simp only [readBack, readBack_nHeight]
  split
  · next lost => exact absurd lost.1 (kept (by omega))
  · exact fun impossible => (nomatch impossible)

end CTxInUndo

end CentNode
