import CentNode.Chain.BlockIndex
import CentNode.Primitives.Stream

/-!
# The form of an index entry on disk

`CDiskBlockIndex` of `chain.h`.  The positions in the block files are written
where the status says they exist, and the stake fields for a proof-of-stake
block; the pointers become hashes.
-/

namespace CentNode

open Wire

/-! ## The status word -/

namespace BlockStatus

/-- `nStatus` as the bits it is kept in. -/
def bits (status : BlockStatus) : Nat :=
  status.validity.level + 8 * status.haveData.toNat + 16 * status.haveUndo.toNat +
    32 * status.failedValid.toNat + 64 * status.failedChild.toNat

/-- The level in `BLOCK_VALID_MASK`; the mask has room for two values that are
no level. -/
def validityOfBits : Nat → BlockValidity
  | 0 => .unknown
  | 1 => .header
  | 2 => .tree
  | 3 => .transactions
  | 4 => .chain
  | _ => .scripts

def ofBits (nStatus : Nat) : BlockStatus where
  validity := validityOfBits (nStatus % 8)
  haveData := nStatus / 8 % 2 = 1
  haveUndo := nStatus / 16 % 2 = 1
  failedValid := nStatus / 32 % 2 = 1
  failedChild := nStatus / 64 % 2 = 1

theorem ofBits_bits (status : BlockStatus) : ofBits status.bits = status := by
  obtain ⟨validity, haveData, haveUndo, failedValid, failedChild⟩ := status
  cases validity <;> cases haveData <;> cases haveUndo <;> cases failedValid <;>
    cases failedChild <;> rfl

end BlockStatus

/-! ## The fields of an entry -/

/-- `COutPoint`, as an index entry keeps it. -/
structure StakePrevout where
  hash : Uint256 := 0
  n : BitVec 32 := 0xffffffff
  deriving DecidableEq, Repr

structure CBlockHeader where
  nVersion : BitVec 32 := 0
  hashPrevBlock : Uint256 := 0
  hashMerkleRoot : Uint256 := 0
  nTime : BitVec 32 := 0
  nBits : BitVec 32 := 0
  nNonce : BitVec 32 := 0
  deriving DecidableEq, Repr

/-- The fields of `CBlockIndex` that are copied between memory and disk. -/
structure BlockFields where
  nFile : Nat := 0
  nDataPos : Nat := 0
  nUndoPos : Nat := 0
  nMint : BitVec 64 := 0
  nMoneySupply : BitVec 64 := 0
  nFlags : BitVec 32 := 0
  nStakeModifier : BitVec 64 := 0
  prevoutStake : StakePrevout := {}
  nStakeTime : BitVec 32 := 0
  nVersion : BitVec 32 := 0
  hashMerkleRoot : Uint256 := 0
  nTime : BitVec 32 := 0
  nBits : BitVec 32 := 0
  nNonce : BitVec 32 := 0
  deriving DecidableEq, Repr

namespace BlockFields

/-- `IsProofOfStake`: the flag `BLOCK_PROOF_OF_STAKE`. -/
def isProofOfStake (fields : BlockFields) : Bool := fields.nFlags.getLsbD 0

/-- The header of the entry, given the hash of the parent. -/
def header (fields : BlockFields) (hashPrev : Uint256) : CBlockHeader where
  nVersion := fields.nVersion
  hashPrevBlock := hashPrev
  hashMerkleRoot := fields.hashMerkleRoot
  nTime := fields.nTime
  nBits := fields.nBits
  nNonce := fields.nNonce

/-- What is left of the fields on disk. -/
def onDisk (fields : BlockFields) (nStatus : BlockStatus) : BlockFields :=
  { fields with
    nFile := if nStatus.haveData || nStatus.haveUndo then fields.nFile else 0
    nDataPos := if nStatus.haveData then fields.nDataPos else 0
    nUndoPos := if nStatus.haveUndo then fields.nUndoPos else 0
    prevoutStake := if fields.isProofOfStake then fields.prevoutStake else {}
    nStakeTime := if fields.isProofOfStake then fields.nStakeTime else 0 }

end BlockFields

structure CDiskBlockIndex where
  nHeight : Nat
  nStatus : BlockStatus
  nTx : Nat
  fields : BlockFields
  hashPrev : Uint256
  hashNext : Uint256 := 0
  deriving DecidableEq, Repr

namespace CDiskBlockIndex

def getBlockHash (hashOf : CBlockHeader → Uint256) (diskindex : CDiskBlockIndex) : Uint256 :=
  hashOf (diskindex.fields.header diskindex.hashPrev)

/-- The entry as it can be read back. -/
def stored (diskindex : CDiskBlockIndex) : CDiskBlockIndex :=
  { diskindex with fields := diskindex.fields.onDisk diskindex.nStatus }

end CDiskBlockIndex

/-! ## Serialization -/

/-- Bytes that are there under a condition. -/
def writeIf (present : Bool) (bytes : List UInt8) : List UInt8 := if present then bytes else []

/-- A field that is read under a condition, and is left at a default without it. -/
def readIf {α : Type} (present : Bool) (default : α) (read : Reader α) : Reader α :=
  if present then read else pure default

theorem reads_if {α : Type} {read : Reader α} {bytes : List UInt8} {value : α} (present : Bool)
    (default : α) (reads : Reads read bytes value) :
    Reads (readIf present default read) (writeIf present bytes)
      (if present then value else default) := by
  cases present with
  | false => exact Reads.pure default
  | true => exact reads

def writeStakePrevout (prevout : StakePrevout) : List UInt8 :=
  writeUint256 prevout.hash ++ writeWord 4 prevout.n

def readStakePrevout : Reader StakePrevout := do
  let hash ← readUint256
  let n ← readWord 4 32
  pure ⟨hash, n⟩

theorem reads_stakePrevout (prevout : StakePrevout) :
    Reads readStakePrevout (writeStakePrevout prevout) prevout :=
  (reads_uint256 prevout.hash).bind ((reads_word (by decide) prevout.n).map (StakePrevout.mk prevout.hash))

/-- The header at the end of an entry, with the two hashes that stand for pointers. -/
def writeIndexHeader (diskindex : CDiskBlockIndex) : List UInt8 :=
  writeWord 4 diskindex.fields.nVersion ++ (writeUint256 diskindex.hashPrev ++
    (writeUint256 diskindex.hashNext ++ (writeUint256 diskindex.fields.hashMerkleRoot ++
      (writeWord 4 diskindex.fields.nTime ++ (writeWord 4 diskindex.fields.nBits ++
        writeWord 4 diskindex.fields.nNonce)))))

/-- `SerializationOp` when it writes; `clientVersion` is the version of the stream. -/
def writeDiskIndex (clientVersion : Nat) (diskindex : CDiskBlockIndex) : List UInt8 :=
  writeVarInt clientVersion ++ (writeVarInt diskindex.nHeight ++
    (writeVarInt diskindex.nStatus.bits ++ (writeVarInt diskindex.nTx ++
      (writeIf (diskindex.nStatus.haveData || diskindex.nStatus.haveUndo)
          (writeVarInt diskindex.fields.nFile) ++
        (writeIf diskindex.nStatus.haveData (writeVarInt diskindex.fields.nDataPos) ++
          (writeIf diskindex.nStatus.haveUndo (writeVarInt diskindex.fields.nUndoPos) ++
            (writeWord 8 diskindex.fields.nMint ++ (writeWord 8 diskindex.fields.nMoneySupply ++
              (writeWord 4 diskindex.fields.nFlags ++ (writeWord 8 diskindex.fields.nStakeModifier ++
                (writeIf diskindex.fields.isProofOfStake
                    (writeStakePrevout diskindex.fields.prevoutStake) ++
                  (writeIf diskindex.fields.isProofOfStake
                      (writeWord 4 diskindex.fields.nStakeTime) ++
                    writeIndexHeader diskindex))))))))))))

/-- `SerializationOp` when it reads the header into an entry. -/
def readIndexHeader (diskindex : CDiskBlockIndex) : Reader CDiskBlockIndex := do
  let nVersion ← readWord 4 32
  let hashPrev ← readUint256
  let hashNext ← readUint256
  let hashMerkleRoot ← readUint256
  let nTime ← readWord 4 32
  let nBits ← readWord 4 32
  let nNonce ← readWord 4 32
  pure { diskindex with
    fields := { diskindex.fields with
      nVersion := nVersion
      hashMerkleRoot := hashMerkleRoot
      nTime := nTime
      nBits := nBits
      nNonce := nNonce }
    hashPrev := hashPrev
    hashNext := hashNext }

/-- `SerializationOp` when it reads. -/
def readDiskIndex : Reader CDiskBlockIndex := do
  let _ ← readVarInt
  let nHeight ← readVarInt
  let word ← readVarInt
  let nTx ← readVarInt
  let nStatus := BlockStatus.ofBits word
  let nFile ← readIf (nStatus.haveData || nStatus.haveUndo) 0 readVarInt
  let nDataPos ← readIf nStatus.haveData 0 readVarInt
  let nUndoPos ← readIf nStatus.haveUndo 0 readVarInt
  let nMint ← readWord 8 64
  let nMoneySupply ← readWord 8 64
  let nFlags ← readWord 4 32
  let nStakeModifier ← readWord 8 64
  let prevoutStake ← readIf (nFlags.getLsbD 0) {} readStakePrevout
  let nStakeTime ← readIf (nFlags.getLsbD 0) 0 (readWord 4 32)
  readIndexHeader
    { nHeight := nHeight
      nStatus := nStatus
      nTx := nTx
      fields :=
        { nFile := nFile
          nDataPos := nDataPos
          nUndoPos := nUndoPos
          nMint := nMint
          nMoneySupply := nMoneySupply
          nFlags := nFlags
          nStakeModifier := nStakeModifier
          prevoutStake := prevoutStake
          nStakeTime := nStakeTime }
      hashPrev := 0 }

theorem reads_indexHeader {diskindex target : CDiskBlockIndex}
    (other : { diskindex with
      fields := { diskindex.fields with
        nVersion := target.fields.nVersion
        hashMerkleRoot := target.fields.hashMerkleRoot
        nTime := target.fields.nTime
        nBits := target.fields.nBits
        nNonce := target.fields.nNonce }
      hashPrev := target.hashPrev
      hashNext := target.hashNext } = target) :
    Reads (readIndexHeader diskindex) (writeIndexHeader target) target := by
  unfold readIndexHeader writeIndexHeader
  refine (reads_word (by decide) _).bind ?_
  refine (reads_uint256 _).bind ?_
  refine (reads_uint256 _).bind ?_
  refine (reads_uint256 _).bind ?_
  refine (reads_word (by decide) _).bind ?_
  refine (reads_word (by decide) _).bind ?_
  have last := (@reads_word 4 32 (by decide) target.fields.nNonce).map fun nNonce =>
    { diskindex with
      fields := { diskindex.fields with
        nVersion := target.fields.nVersion
        hashMerkleRoot := target.fields.hashMerkleRoot
        nTime := target.fields.nTime
        nBits := target.fields.nBits
        nNonce := nNonce }
      hashPrev := target.hashPrev
      hashNext := target.hashNext }
  rw [other] at last
  exact last

theorem reads_diskIndex (clientVersion : Nat) (diskindex : CDiskBlockIndex) :
    Reads readDiskIndex (writeDiskIndex clientVersion diskindex) diskindex.stored := by
  unfold readDiskIndex writeDiskIndex
  refine (reads_varInt clientVersion).bind ?_
  refine (reads_varInt diskindex.nHeight).bind ?_
  refine (reads_varInt diskindex.nStatus.bits).bind ?_
  refine (reads_varInt diskindex.nTx).bind ?_
  rw [BlockStatus.ofBits_bits]
  refine (reads_if _ 0 (reads_varInt diskindex.fields.nFile)).bind ?_
  refine (reads_if _ 0 (reads_varInt diskindex.fields.nDataPos)).bind ?_
  refine (reads_if _ 0 (reads_varInt diskindex.fields.nUndoPos)).bind ?_
  refine (reads_word (by decide) diskindex.fields.nMint).bind ?_
  refine (reads_word (by decide) diskindex.fields.nMoneySupply).bind ?_
  refine (reads_word (by decide) diskindex.fields.nFlags).bind ?_
  refine (reads_word (by decide) diskindex.fields.nStakeModifier).bind ?_
  refine (reads_if _ {} (reads_stakePrevout diskindex.fields.prevoutStake)).bind ?_
  refine (reads_if _ 0 (reads_word (by decide) diskindex.fields.nStakeTime)).bind ?_
  exact @reads_indexHeader _ diskindex.stored rfl

end CentNode
