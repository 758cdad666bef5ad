import Mathlib.Algebra.Order.Ring.Int
import Mathlib.Data.List.DropRight

/-!
# Transactions and blocks

The data of `primitives/transaction.h` and `primitives/block.h`.  A
transaction and a block carry their hash as a field: `CTransaction` caches it
and `CBlock::GetHash` is a function of the header, and no function here looks
inside a hash.
-/

namespace CentNode

abbrev Uint256 : Type := BitVec 256

/-- `CompareTo` compares hashes as numbers. -/
@[reducible] def Uint256.compareOrder : LinearOrder Uint256 :=
  LinearOrder.lift' BitVec.toNat fun _ _ => BitVec.eq_of_toNat_eq

/-- The two's complement value of an integer kept in an `int64_t`.  A `CAmount`
is read as an integer, and sums that can leave the 64-bit range are wrapped. -/
def toInt64 (value : Int) : Int := (value + 2 ^ 63) % 2 ^ 64 - 2 ^ 63

theorem toInt64_of_range {value : Int} (low : -2 ^ 63 ≤ value) (high : value < 2 ^ 63) :
    toInt64 value = value := by
  unfold toInt64
  rw [Int.emod_eq_of_lt (by omega) (by omega)]
  omega

theorem toInt64_le {value : Int} (low : -2 ^ 63 ≤ value) : toInt64 value ≤ value := by
  unfold toInt64
  omega

/-- The value of an integer kept in an `int`. -/
def toInt32 (value : Int) : Int := (value + 2 ^ 31) % 2 ^ 32 - 2 ^ 31

theorem toInt32_of_range {value : Int} (low : -2 ^ 31 ≤ value) (high : value < 2 ^ 31) :
    toInt32 value = value := by
  unfold toInt32
  omega

def coin : Int := 100000000

def cent : Int := 100000000

/-- `CScript`, as its bytes. -/
abbrev CScript : Type := List UInt8

/-- `CScript::IsUnspendable`: the script starts with `OP_RETURN`. -/
def CScript.isUnspendable (script : CScript) : Bool := script.head? = some 0x6a

structure COutPoint where
  hash : Uint256
  n : Nat
  deriving DecidableEq, Repr

/-- `COutPoint::SetNull` leaves the hash zero and `n` at `(uint32_t) -1`. -/
def COutPoint.null : COutPoint := ⟨0, 4294967295⟩

def COutPoint.isNull (out : COutPoint) : Bool := out = COutPoint.null

structure CTxIn where
  prevout : COutPoint
  scriptSig : CScript := []
  nSequence : Nat := 4294967295
  deriving DecidableEq, Repr

structure CTxOut where
  nValue : Int
  scriptPubKey : CScript
  deriving DecidableEq, Repr

namespace CTxOut

/-- The value of a default-constructed output and of a spent one. -/
def null : CTxOut := ⟨-1, []⟩

def isNull (out : CTxOut) : Bool := out.nValue = -1

def isEmpty (out : CTxOut) : Bool := out.nValue = 0 && out.scriptPubKey.isEmpty

@[simp]
theorem isNull_null : null.isNull = true := rfl

end CTxOut

structure CTransaction where
  hash : Uint256
  nVersion : Int := 1
  vin : List CTxIn
  vout : List CTxOut
  nLockTime : Nat := 0
  deriving DecidableEq, Repr

namespace CTransaction

/-- A default-constructed transaction: no inputs, no outputs, zero hash. -/
def empty : CTransaction := { hash := 0, vin := [], vout := [] }

def isCoinBase (tx : CTransaction) : Bool :=
  match tx.vin with
  | [input] => input.prevout.isNull
  | _ => false

/-- The coin stake transaction is marked with the first output empty. -/
def isCoinStake (tx : CTransaction) : Bool :=
  match tx.vin, tx.vout with
  | input :: _, first :: _ :: _ => !input.prevout.isNull && first.isEmpty
  | _, _ => false

/-- One output of the loop of `GetValueOut`: `none` is the exception thrown on
a negative value or on a sum that wraps the 64-bit boundary. -/
def addValueOut (nValueOut : Int) (out : CTxOut) : Option Int :=
  if out.nValue < 0 then none
  else if toInt64 (nValueOut + out.nValue) < nValueOut then none
  else some (toInt64 (nValueOut + out.nValue))

def getValueOut (tx : CTransaction) : Option Int := tx.vout.foldlM addValueOut 0

def prevouts (tx : CTransaction) : List COutPoint := tx.vin.map (·.prevout)

end CTransaction

structure CBlock where
  hash : Uint256
  nVersion : Int := 3
  hashPrevBlock : Uint256
  hashMerkleRoot : Uint256 := 0
  nTime : Nat := 0
  nBits : Nat := 0
  vtx : List CTransaction
  vchBlockSig : List UInt8 := []
  deriving DecidableEq, Repr

namespace CBlock

def isProofOfStake (block : CBlock) : Bool :=
  match block.vtx with
  | _ :: second :: _ => second.isCoinStake
  | _ => false

def isProofOfWork (block : CBlock) : Bool := !block.isProofOfStake

end CBlock

/-! `GetSerializeSize` of transactions and blocks, as the fields are written one
after another: a vector is written as its size and its elements. -/

def getSizeOfCompactSize (nSize : Nat) : Nat :=
  if nSize < 253 then 1 else if nSize ≤ 0xffff then 3 else if nSize ≤ 0xffffffff then 5 else 9

theorem getSizeOfCompactSize_mono {n m : Nat} (le : n ≤ m) :
    getSizeOfCompactSize n ≤ getSizeOfCompactSize m := by
  unfold getSizeOfCompactSize
  split_ifs <;> omega

def vectorSize (sizes : List Nat) : Nat := getSizeOfCompactSize sizes.length + sizes.sum

def bytesSize (bytes : List UInt8) : Nat := getSizeOfCompactSize bytes.length + bytes.length

def CTxIn.serializeSize (txin : CTxIn) : Nat := 36 + bytesSize txin.scriptSig + 4

def CTxOut.serializeSize (txout : CTxOut) : Nat := 8 + bytesSize txout.scriptPubKey

def CTransaction.serializeSize (tx : CTransaction) : Nat :=
  4 + vectorSize (tx.vin.map CTxIn.serializeSize) +
    vectorSize (tx.vout.map CTxOut.serializeSize) + 4

/-- A block with some transactions: the signature is written for proof of stake only. -/
def blockSerializeSize (vtx : List CTransaction) (vchBlockSig : List UInt8) : Nat :=
  80 + vectorSize (vtx.map CTransaction.serializeSize) +
    match vtx with
    | _ :: second :: _ => if second.isCoinStake then bytesSize vchBlockSig else 0
    | _ => 0

end CentNode
