import CentNode.Primitives.Transaction

/-!
# Pruned transactions and their undo records

`CCoins` of `coins.h` keeps the unspent outputs of one transaction with its
metadata; `CTxInUndo` of `undo.h` is what `CCoins::Spend` records to reverse
one spend.
-/

namespace CentNode

structure CCoins where
  fCoinBase : Bool := false
  fCoinStake : Bool := false
  vout : List CTxOut := []
  nHeight : Int := 0
  nVersion : Int := 0
  deriving DecidableEq, Repr

structure CTxInUndo where
  txout : CTxOut := CTxOut.null
  fCoinBase : Bool := false
  fCoinStake : Bool := false
  nHeight : Nat := 0
  nVersion : Int := 0
  deriving DecidableEq, Repr

namespace CCoins

/-- The value of a default-constructed `CCoins`, which `Clear` restores. -/
def cleared : CCoins := {}

/-- Remove spent outputs at the end of `vout`. -/
def cleanup (coins : CCoins) : CCoins := { coins with vout := coins.vout.rdropWhile CTxOut.isNull }

def clearUnspendable (coins : CCoins) : CCoins :=
  cleanup { coins with vout := coins.vout.map fun txout =>
    if CScript.isUnspendable txout.scriptPubKey then CTxOut.null else txout }

def fromTx (tx : CTransaction) (nHeightIn : Int) : CCoins :=
  clearUnspendable
    { fCoinBase := tx.isCoinBase
      fCoinStake := tx.isCoinStake
      vout := tx.vout
      nHeight := nHeightIn
      nVersion := tx.nVersion }

def isAvailable (coins : CCoins) (nPos : Nat) : Bool :=
  match coins.vout[nPos]? with
  | none => false
  | some txout => !txout.isNull

def isPruned (coins : CCoins) : Bool := coins.vout.all CTxOut.isNull

/-- `operator==`: empty records are always equal. -/
def same (left right : CCoins) : Bool := (left.isPruned && right.isPruned) || left = right

/-- Mark an outpoint spent and construct its undo information; the metadata
go into the record when the last unspent output is spent. -/
def spend (coins : CCoins) (out : COutPoint) : Option (CCoins × CTxInUndo) :=
  match coins.vout[out.n]? with
  | none => none
  | some txout =>
    if txout.isNull then none
    else
      let rest := cleanup { coins with vout := coins.vout.set out.n CTxOut.null }
      if rest.vout.length = 0 then
        some (rest,
          { txout := txout
            fCoinBase := rest.fCoinBase
            fCoinStake := rest.fCoinStake
            nHeight := (rest.nHeight % 2 ^ 32).toNat
            nVersion := rest.nVersion })
      else some (rest, { txout := txout })

/-! ## Trimming -/

variable (coins : CCoins)

theorem cleanup_vout : coins.cleanup.vout = coins.vout.rdropWhile CTxOut.isNull := rfl

@[simp]
theorem cleanup_cleanup : coins.cleanup.cleanup = coins.cleanup := by
  simp [cleanup, List.rdropWhile_idempotent]

@[simp]
theorem isPruned_cleared : cleared.isPruned = true := rfl

@[simp]
theorem cleanup_cleared : cleared.cleanup = cleared := rfl

theorem isPruned_iff {coins : CCoins} :
    coins.isPruned = true ↔ ∀ txout ∈ coins.vout, txout.isNull = true := by
  simp [isPruned]

theorem cleanup_vout_eq_nil {coins : CCoins} :
    coins.cleanup.vout = [] ↔ coins.isPruned = true := by
  rw [cleanup_vout, List.rdropWhile_eq_nil_iff, isPruned_iff]

@[simp]
theorem isPruned_cleanup : coins.cleanup.isPruned = coins.isPruned := by
  rw [Bool.eq_iff_iff, ← cleanup_vout_eq_nil, ← cleanup_vout_eq_nil, cleanup_cleanup]

/-! ## Equality up to pruned records -/

variable {left right : CCoins}

theorem same_iff :
    left.same right = true ↔
      (left.isPruned = true ∧ right.isPruned = true) ∨ left = right := by
  simp [same]

@[simp]
theorem same_refl : coins.same coins = true := by
  simp [same]

theorem same_symm (agree : left.same right = true) : right.same left = true := by
  rw [same_iff] at agree ⊢
  rcases agree with ⟨hleft, hright⟩ | rfl
  · exact Or.inl ⟨hright, hleft⟩
  · exact Or.inr rfl

theorem isPruned_eq_of_same (agree : left.same right = true) :
    left.isPruned = right.isPruned := by
  rcases same_iff.mp agree with ⟨hleft, hright⟩ | rfl
  · rw [hleft, hright]
  · rfl

theorem same_trans {first second third : CCoins} (left : first.same second = true)
    (right : second.same third = true) : first.same third = true := by
  rcases same_iff.mp left with ⟨hfirst, hsecond⟩ | rfl
  · rw [same_iff]
    exact Or.inl ⟨hfirst, (isPruned_eq_of_same right) ▸ hsecond⟩
  · exact right

theorem same_of_pruned (hleft : left.isPruned = true) (hright : right.isPruned = true) :
    left.same right = true :=
  same_iff.mpr (Or.inl ⟨hleft, hright⟩)

theorem same_cleanup (agree : left.same right = true) :
    left.cleanup.same right.cleanup = true := by
  rcases same_iff.mp agree with ⟨hleft, hright⟩ | rfl
  · exact same_of_pruned (by simpa using hleft) (by simpa using hright)
  · exact same_refl _

end CCoins

/-! `CTxInUndo` is written as one number that holds the height and the two coin
flags, the version when the height is positive, and the compressed output.
`CTxOutCompressor` gives back every output whose amount is in money range, so
only the number and the version can come back different. -/

/-- `VARINT` of an `int`: a negative number is written as its lowest seven bits. -/
def varintReadBack (value : Int) : Int := if value < 0 then value % 128 else value

namespace CTxInUndo

/-- The number written for height and flags, in 32 bits. -/
def code (undo : CTxInUndo) : Nat :=
  (undo.nHeight * 4 + (if undo.fCoinBase then 2 else 0) + (if undo.fCoinStake then 1 else 0)) %
    2 ^ 32

/-- `Serialize` followed by `Unserialize`.  The reader loses its place when it
is told a zero height after a version was written, and the checksum of the
record does not match then. -/
def readBack (undo : CTxInUndo) : Option CTxInUndo :=
  let nHeight := undo.code / 4
  if nHeight = 0 ∧ 0 < undo.nHeight then none
  else
    some
      { txout := undo.txout
        fCoinBase := undo.code / 2 % 2 = 1
        fCoinStake := undo.code % 2 = 1
        nHeight := nHeight
        nVersion := if 0 < nHeight then varintReadBack undo.nVersion else 0 }

end CTxInUndo

structure CTxUndo where
  vprevout : List CTxInUndo := []
  deriving DecidableEq, Repr

/-- Undo information for a block, for all transactions but the coinbase. -/
structure CBlockUndo where
  vtxundo : List CTxUndo := []
  deriving DecidableEq, Repr

def CTxUndo.readBack (txundo : CTxUndo) : Option CTxUndo :=
  (txundo.vprevout.mapM CTxInUndo.readBack).map CTxUndo.mk

/-- `WriteToDisk` followed by `ReadFromDisk`. -/
def CBlockUndo.readBack (blockundo : CBlockUndo) : Option CBlockUndo :=
  (blockundo.vtxundo.mapM CTxUndo.readBack).map CBlockUndo.mk

end CentNode
