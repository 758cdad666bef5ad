import CentNode.Chain.StoredIndex
import CentNode.Library.Reading
import CentNode.Primitives.TransactionFormat

/-!
# The wire format of blocks

The `SerializationOp` of `primitives/block.h`.  Whether a signature follows the
transactions is read off the second of them.
-/

namespace CentNode

open List Option

open Wire

def CBlockHeader.serialize (header : CBlockHeader) : List UInt8 :=
  writeWord 4 header.nVersion ++ (writeUint256 header.hashPrevBlock ++
    (writeUint256 header.hashMerkleRoot ++ (writeWord 4 header.nTime ++
      (writeWord 4 header.nBits ++ writeWord 4 header.nNonce))))

def readBlockHeader : Reader CBlockHeader := do
  let nVersion ← readWord 4 32
  let hashPrevBlock ← readUint256
  let hashMerkleRoot ← readUint256
  let nTime ← readWord 4 32
  let nBits ← readWord 4 32
  let nNonce ← readWord 4 32
  pure { nVersion, hashPrevBlock, hashMerkleRoot, nTime, nBits, nNonce }

/-- `CBlock` with what is written to the network and to disk. -/
structure WireBlock extends IncomingBlock where
  vchBlockSig : List UInt8 := []

namespace WireBlock

def serialize (block : WireBlock) : List UInt8 :=
  block.header.serialize ++ (writeVector CTransaction.serialize block.vtx ++
    if block.isProofOfStake then writeBytes block.vchBlockSig else [])

/-- The transactions have a wire form, no vector has more than `MAX_SIZE`
elements, and only a block with a coin stake has a signature. -/
structure Serializable (hashOf : List UInt8 → Uint256) (block : WireBlock) : Prop where
  vtx_le : block.vtx.length ≤ maxSize
  vtx : ∀ tx ∈ block.vtx, tx.Serializable hashOf
  sig_le : block.vchBlockSig.length ≤ maxSize
  unsigned : block.isProofOfStake = false → block.vchBlockSig = []

end WireBlock

def readBlock (hashOf : List UInt8 → Uint256) : Reader WireBlock := do
  let header ← readBlockHeader
  let vtx ← readVector (readTransaction hashOf)
  if ({ header, vtx } : IncomingBlock).isProofOfStake then do
    let vchBlockSig ← readBytes
    pure { header, vtx, vchBlockSig }
  else pure { header, vtx }

/-! ## Round trips -/

theorem reads_blockHeader (header : CBlockHeader) :
    Reads readBlockHeader header.serialize header :=
  have word : ∀ value : BitVec 32, Reads (readWord 4 32) (writeWord 4 value) value :=
    fun value => reads_word (by decide) value
  (word header.nVersion).bind ((reads_uint256 header.hashPrevBlock).bind
    ((reads_uint256 header.hashMerkleRoot).bind ((word header.nTime).bind
      ((word header.nBits).bind (Reads.map (CBlockHeader.mk header.nVersion header.hashPrevBlock
        header.hashMerkleRoot header.nTime header.nBits) (word header.nNonce))))))

theorem takes_blockHeader : Takes readBlockHeader fun bytes header => bytes = header.serialize := by
  have word : Takes (readWord 4 32) fun bytes value => bytes = writeWord 4 value :=
    takes_word (by decide)
  refine word.bind fun _ nVersion versionTaken => takes_uint256.bind fun _ hashPrevBlock prevTaken =>
    takes_uint256.bind fun _ hashMerkleRoot rootTaken => word.bind fun _ nTime timeTaken =>
      word.bind fun _ nBits bitsTaken => word.bind fun _ nNonce nonceTaken => Takes.pure ?_
  rw [append_nil, versionTaken, prevTaken, rootTaken, timeTaken, bitsTaken, nonceTaken]
  rfl

variable {hashOf : List UInt8 → Uint256}

theorem WireBlock.Serializable.reads {block : WireBlock} (valid : block.Serializable hashOf) :
    Reads (readBlock hashOf) block.serialize block := by
  refine (reads_blockHeader block.header).bind
    ((reads_vector valid.vtx_le fun tx member => (valid.vtx tx member).reads).bind ?_)
  cases staked : block.isProofOfStake with
  | true =>
    rw [if_pos rfl]
    exact Reads.map (WireBlock.mk block.toIncomingBlock) (reads_bytes valid.sig_le)
  | false =>
    have bare : WireBlock.mk block.toIncomingBlock [] = block := by
      rw [← valid.unsigned staked]
    rw [if_neg Bool.false_ne_true]
    exact bare ▸ Reads.pure block

theorem takes_block : Takes (readBlock hashOf) fun bytes block =>
    bytes = block.serialize ∧ block.Serializable hashOf := by
  refine takes_blockHeader.bind fun _ header headerTaken =>
    (takes_vector takes_transaction).bind fun _ vtx vtxTaken => ?_
  obtain ⟨rfl, vtxLe, vtxValid⟩ := vtxTaken
  subst headerTaken
  refine Takes.ite (fun staked => ?_) fun unstaked => Takes.pure ?_
  · refine takes_bytes.bind fun _ vchBlockSig sigTaken => Takes.pure ⟨?_, vtxLe, vtxValid,
      sigTaken.2, fun unstaked => absurd staked (ne_true_of_eq_false unstaked)⟩
    rw [append_nil, sigTaken.1, WireBlock.serialize]
    exact congrArg _ (congrArg _ (if_pos staked).symm)
  · refine ⟨?_, vtxLe, vtxValid, Nat.zero_le _, fun _ => rfl⟩
    rw [WireBlock.serialize]
    exact congrArg _ (congrArg _ (if_neg unstaked).symm)

/-- A transaction or a block is read off a stream exactly if the stream begins
with its wire form. -/
theorem wire_formats_one_to_one (hashOf : List UInt8 → Uint256) :
    (∀ stream tx rest, (readTransaction hashOf).run stream = some (tx, rest) ↔
      tx.Serializable hashOf ∧ stream = tx.serialize ++ rest) ∧
    ∀ stream block rest, (readBlock hashOf).run stream = some (block, rest) ↔
      block.Serializable hashOf ∧ stream = block.serialize ++ rest := by
  refine ⟨fun stream tx rest => ⟨fun run => ?_, ?_⟩, fun stream block rest => ⟨fun run => ?_, ?_⟩⟩
  · obtain ⟨bytes, stream_eq, written, valid⟩ := takes_transaction _ _ _ run
    exact ⟨valid, by rw [stream_eq, written]⟩
  · rintro ⟨valid, rfl⟩
    exact valid.reads rest
  · obtain ⟨bytes, stream_eq, written, valid⟩ := takes_block _ _ _ run
    exact ⟨valid, by rw [stream_eq, written]⟩
  · rintro ⟨valid, rfl⟩
    exact valid.reads rest

/-! What `Unserialize` of `serialize.h` asks a stream for, one read after another.  A stream
that bounds what is read at a time may fail on the same bytes in other portions. -/

namespace Unserialize

def word (bytes width : Nat) : Reading (BitVec width) := do
  let value ← Reading.uint bytes
  pure (BitVec.ofNat width value)

def signed (bytes : Nat) : Reading Int := do
  let value ← word bytes (8 * bytes)
  pure value.toInt

def uint256 : Reading Uint256 := do
  let value ← Reading.uint 32
  pure (BitVec.ofNat 256 value)

def wideSize (width least : Nat) : Reading Nat := do
  let xSize ← Reading.uint width
  if xSize < least then .fail else pure xSize

def compactSize : Reading Nat := do
  let chSize ← Reading.byte
  let nSizeRet ←
    if chSize < 253 then pure chSize.toNat
    else if chSize = 253 then wideSize 2 253
    else if chSize = 254 then wideSize 4 0x10000
    else wideSize 8 0x100000000
  if nSizeRet > maxSize then .fail else pure nSizeRet

def vector {α : Type} (element : Reading α) : Reading (List α) := do
  let nSize ← compactSize
  element.times nSize

/-- A vector of `unsigned char` is read in portions, not byte by byte. -/
def bytes : Reading (List UInt8) := do
  let nSize ← compactSize
  Reading.chunks 5000000 (nSize / 5000000 + 1) nSize

/-- The flat data of an outpoint, in one read. -/
def outPoint : Reading COutPoint :=
  .read 36 fun data => pure
    { hash := BitVec.ofNat 256 (Reading.number (data.take 32)),
      n := Reading.number (data.drop 32) }

def txIn : Reading CTxIn := do
  let prevout ← outPoint
  let scriptSig ← bytes
  let nSequence ← Reading.uint 4
  pure { prevout := prevout, scriptSig := scriptSig, nSequence := nSequence }

def txOut : Reading CTxOut := do
  let nValue ← signed 8
  let scriptPubKey ← bytes
  pure { nValue := nValue, scriptPubKey := scriptPubKey }

def transaction (hashOf : List UInt8 → Uint256) : Reading CTransaction := do
  let nVersion ← signed 4
  let vin ← vector txIn
  let vout ← vector txOut
  let nLockTime ← Reading.uint 4
  pure (CTransaction.updateHash hashOf
    { hash := 0, nVersion := nVersion, vin := vin, vout := vout, nLockTime := nLockTime })

def blockHeader : Reading CBlockHeader := do
  let nVersion ← word 4 32
  let hashPrevBlock ← uint256
  let hashMerkleRoot ← uint256
  let nTime ← word 4 32
  let nBits ← word 4 32
  let nNonce ← word 4 32
  pure { nVersion, hashPrevBlock, hashMerkleRoot, nTime, nBits, nNonce }

def block (hashOf : List UInt8 → Uint256) : Reading WireBlock := do
  let header ← blockHeader
  let vtx ← vector (transaction hashOf)
  if ({ header, vtx } : IncomingBlock).isProofOfStake then do
    let vchBlockSig ← bytes
    pure { header, vtx, vchBlockSig }
  else pure { header, vtx }

/-! ## The same as the wire format -/

open Reading Reading.Implements

theorem implements_word (bytes width : Nat) :
    Implements (word bytes width) (readWord bytes width) :=
  (implements_uint bytes).bind fun _ => pure _

theorem implements_signed (bytes : Nat) : Implements (signed bytes) (readSigned bytes) :=
  (implements_word bytes (8 * bytes)).bind fun value => pure value.toInt

theorem implements_uint256 : Implements uint256 readUint256 :=
  (implements_uint 32).bind fun _ => pure _

theorem implements_wideSize (width least : Nat) :
    Implements (wideSize width least) (readWideSize width least) :=
  (implements_uint width).bind fun xSize => ite (fun _ => fail) fun _ => pure xSize

theorem implements_compactSize : Implements compactSize readCompactSize := by
  have bounded : ∀ {reading : Reading Nat} {reader : Reader Nat}, Implements reading reader →
      Implements (reading >>= fun nSizeRet => if nSizeRet > maxSize then .fail else pure nSizeRet)
        (reader >>= fun nSizeRet => if nSizeRet > maxSize then Wire.fail else pure nSizeRet) :=
    fun first => first.bind fun nSizeRet =>
      Implements.ite (fun _ => Implements.fail) fun _ => Implements.pure nSizeRet
  refine implements_byte.bind fun chSize => ?_
  refine Implements.ite (fun _ => bounded (Implements.pure _)) fun _ => ?_
  refine Implements.ite (fun _ => bounded (implements_wideSize 2 253)) fun _ => ?_
  exact Implements.ite (fun _ => bounded (implements_wideSize 4 0x10000)) fun _ =>
    bounded (implements_wideSize 8 0x100000000)

theorem implements_vector {α : Type} {element : Reading α} {reader : Reader α}
    (each : Implements element reader) : Implements (vector element) (readVector reader) :=
  implements_compactSize.bind fun nSize => each.times nSize

theorem implements_bytes : Implements bytes readBytes := by
  refine implements_compactSize.bind fun nSize => implements_chunks ?_
  omega

theorem implements_outPoint : Implements outPoint readOutPoint := by
  intro stream
  have step : readOutPoint.run stream = ((Wire.uint 32).run stream).bind fun hash =>
      ((Wire.uint 4).run hash.2).bind fun n =>
        some ({ hash := BitVec.ofNat 256 hash.1, n := n.1 }, n.2) := by
    change (((Wire.uint 32).run stream).bind fun hash => some (BitVec.ofNat 256 hash.1, hash.2)).bind
      _ = _
    rw [bind_assoc]
    rfl
  rw [step, run_uint, outPoint, onStream_read]
  by_cases short : stream.length < 32
  · rw [if_pos (Nat.lt_trans short (by decide)), if_pos short]
    rfl
  rw [if_neg short, bind_some, run_uint, length_drop]
  by_cases shortToo : stream.length < 36
  · rw [if_pos shortToo, if_pos (by omega)]
    rfl
  · have front : (stream.take 36).take 32 = stream.take 32 := by
      rw [take_take, Nat.min_eq_left (by decide)]
    have back : (stream.take 36).drop 32 = (stream.drop 32).take 4 := drop_take
    rw [if_neg shortToo, if_neg (by omega), front, back, bind_some, drop_drop]
    rfl

theorem implements_txIn : Implements txIn readTxIn :=
  implements_outPoint.bind fun _ => implements_bytes.bind fun _ =>
    (implements_uint 4).bind fun _ => pure _

theorem implements_txOut : Implements txOut readTxOut :=
  (implements_signed 8).bind fun _ => implements_bytes.bind fun _ => pure _

variable (hashOf : List UInt8 → Uint256)

theorem implements_transaction :
    Implements (transaction hashOf) (readTransaction hashOf) :=
  (implements_signed 4).bind fun _ => (implements_vector implements_txIn).bind fun _ =>
    (implements_vector implements_txOut).bind fun _ => (implements_uint 4).bind fun _ => pure _

theorem implements_blockHeader : Implements blockHeader readBlockHeader :=
  (implements_word 4 32).bind fun _ => implements_uint256.bind fun _ =>
    implements_uint256.bind fun _ => (implements_word 4 32).bind fun _ =>
      (implements_word 4 32).bind fun _ => (implements_word 4 32).bind fun _ => pure _

theorem implements_block : Implements (block hashOf) (readBlock hashOf) :=
  implements_blockHeader.bind fun _ =>
    (implements_vector (implements_transaction hashOf)).bind fun _ =>
      ite (fun _ => implements_bytes.bind fun _ => pure _) fun _ => pure _

/-! ## How much is read at a time -/

theorem modest_block {size : Nat} {stream : List UInt8} (short : stream.length ≤ size)
    (large : 80 ≤ size) : (block hashOf).Modest (size - 8) stream := by
  refine modest_read (by omega) fun nVersion => modest_read (by omega) fun hashPrevBlock =>
    modest_of_length _ ?_
  rw [length_drop, length_drop]
  omega

end Unserialize

end CentNode
