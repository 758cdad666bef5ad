import CentNode.Primitives.Stream

/-!
# The wire format of transactions

The `SerializationOp` of `primitives/transaction.h`.  A vector is read in
batches that only bound what is allocated ahead, so that its elements are read
one after another; the hash of a transaction is computed once it is read.
-/

namespace CentNode

open Wire

/-- An integer in two's complement. -/
def writeSigned (bytes : Nat) (value : Int) : List UInt8 :=
  writeWord bytes (BitVec.ofInt (8 * bytes) value)

def readSigned (bytes : Nat) : Reader Int := do
  let value ← readWord bytes (8 * bytes)
  pure value.toInt

/-- The bytes of a script or of another vector of `unsigned char`. -/
def writeBytes (bytes : List UInt8) : List UInt8 := writeVector (fun value => [value]) bytes

def readBytes : Reader (List UInt8) := readVector byte

def COutPoint.serialize (out : COutPoint) : List UInt8 := writeUint256 out.hash ++ leBytes 4 out.n

def readOutPoint : Reader COutPoint := do
  let hash ← readUint256
  let n ← uint 4
  pure { hash := hash, n := n }

def CTxIn.serialize (txin : CTxIn) : List UInt8 :=
  txin.prevout.serialize ++ (writeBytes txin.scriptSig ++ leBytes 4 txin.nSequence)

def readTxIn : Reader CTxIn := do
  let prevout ← readOutPoint
  let scriptSig ← readBytes
  let nSequence ← uint 4
  pure { prevout := prevout, scriptSig := scriptSig, nSequence := nSequence }

def CTxOut.serialize (txout : CTxOut) : List UInt8 :=
  writeSigned 8 txout.nValue ++ writeBytes txout.scriptPubKey

def readTxOut : Reader CTxOut := do
  let nValue ← readSigned 8
  let scriptPubKey ← readBytes
  pure { nValue := nValue, scriptPubKey := scriptPubKey }

/-- The hash is kept in memory only. -/
def CTransaction.serialize (tx : CTransaction) : List UInt8 :=
  writeSigned 4 tx.nVersion ++ (writeVector CTxIn.serialize tx.vin ++
    (writeVector CTxOut.serialize tx.vout ++ leBytes 4 tx.nLockTime))

/-- `UpdateHash`, with the hash function of serialized data. -/
def CTransaction.updateHash (hashOf : List UInt8 → Uint256) (tx : CTransaction) : CTransaction :=
  { tx with hash := hashOf tx.serialize }

def readTransaction (hashOf : List UInt8 → Uint256) : Reader CTransaction := do
  let nVersion ← readSigned 4
  let vin ← readVector readTxIn
  let vout ← readVector readTxOut
  let nLockTime ← uint 4
  pure (CTransaction.updateHash hashOf
    { hash := 0, nVersion := nVersion, vin := vin, vout := vout, nLockTime := nLockTime })

/-! ## Values that have a wire form -/

/-- The fields fit their types, and the script is not longer than `MAX_SIZE`. -/
structure CTxIn.Serializable (txin : CTxIn) : Prop where
  n_lt : txin.prevout.n < 2 ^ 32
  script_le : txin.scriptSig.length ≤ maxSize
  nSequence_lt : txin.nSequence < 2 ^ 32

structure CTxOut.Serializable (txout : CTxOut) : Prop where
  nValue_ge : -2 ^ 63 ≤ txout.nValue
  nValue_lt : txout.nValue < 2 ^ 63
  script_le : txout.scriptPubKey.length ≤ maxSize

/-- The fields fit their types, the hash is the one that `UpdateHash` computes, and no vector
has more than `MAX_SIZE` elements.  The transaction of `CTransaction()`, whose hash is zero, is
left out. -/
structure CTransaction.Serializable (hashOf : List UInt8 → Uint256) (tx : CTransaction) : Prop where
  hash_eq : tx.hash = hashOf tx.serialize
  nVersion_ge : -2 ^ 31 ≤ tx.nVersion
  nVersion_lt : tx.nVersion < 2 ^ 31
  vin_le : tx.vin.length ≤ maxSize
  vin : ∀ txin ∈ tx.vin, txin.Serializable
  vout_le : tx.vout.length ≤ maxSize
  vout : ∀ txout ∈ tx.vout, txout.Serializable
  nLockTime_lt : tx.nLockTime < 2 ^ 32

/-! ## Integers and scripts -/

theorem reads_signed {bytes : Nat} {value : Int} (low : -2 ^ (8 * bytes) ≤ 2 * value)
    (high : 2 * value < 2 ^ (8 * bytes)) :
    Reads (readSigned bytes) (writeSigned bytes value) value := by
  have read := (reads_word (Nat.le_of_eq (pow_mul 2 8 bytes))
    (BitVec.ofInt (8 * bytes) value)).map BitVec.toInt
  have kept : (BitVec.ofInt (8 * bytes) value).toInt = value := by
    rw [BitVec.toInt_ofInt]
    refine Int.bmod_eq_of_le_mul_two ?_ ?_
    · rw [Int.mul_comm]
      exact_mod_cast low
    · rw [Int.mul_comm]
      exact_mod_cast high
  rwa [kept] at read

theorem takes_signed (bytes : Nat) :
    Takes (readSigned bytes) fun taken value => taken = writeSigned bytes value ∧
      -2 ^ (8 * bytes) ≤ 2 * value ∧ 2 * value < 2 ^ (8 * bytes) := by
  refine (takes_word (Nat.le_of_eq (pow_mul 2 8 bytes).symm)).bind
    fun _ value taken => Takes.pure ⟨?_, BitVec.le_two_mul_toInt, BitVec.two_mul_toInt_lt⟩
  rw [List.append_nil, writeSigned, BitVec.ofInt_toInt]
  exact taken

theorem reads_bytes {bytes : List UInt8} (small : bytes.length ≤ maxSize) :
    Reads readBytes (writeBytes bytes) bytes :=
  reads_vector small fun value _ => reads_byte value

theorem takes_bytes : Takes readBytes fun taken bytes =>
    taken = writeBytes bytes ∧ bytes.length ≤ maxSize := by
  have each : Takes byte fun taken value => taken = [value] ∧ True :=
    takes_byte.mono fun _ _ taken => ⟨taken, trivial⟩
  exact (takes_vector each).mono fun _ _ taken => ⟨taken.1, taken.2.1⟩

/-! ## Inputs, outputs and transactions -/

theorem reads_outPoint {out : COutPoint} (small : out.n < 2 ^ 32) :
    Reads readOutPoint out.serialize out :=
  (reads_uint256 out.hash).bind (Reads.map (COutPoint.mk out.hash) (@reads_uint 4 out.n small))

theorem takes_outPoint : Takes readOutPoint fun bytes out =>
    bytes = out.serialize ∧ out.n < 2 ^ 32 := by
  refine takes_uint256.bind fun _ hash hashTaken => (takes_uint 4).bind fun _ n nTaken =>
    Takes.pure ?_
  rw [List.append_nil, hashTaken, nTaken.1]
  exact ⟨rfl, nTaken.2⟩

theorem CTxIn.Serializable.reads {txin : CTxIn} (valid : txin.Serializable) :
    Reads readTxIn txin.serialize txin :=
  (reads_outPoint valid.n_lt).bind ((reads_bytes valid.script_le).bind
    (Reads.map (CTxIn.mk txin.prevout txin.scriptSig)
      (@reads_uint 4 txin.nSequence valid.nSequence_lt)))

theorem takes_txIn : Takes readTxIn fun bytes txin =>
    bytes = txin.serialize ∧ txin.Serializable := by
  refine takes_outPoint.bind fun _ prevout prevoutTaken => takes_bytes.bind fun _ scriptSig
    scriptTaken => (takes_uint 4).bind fun _ nSequence sequenceTaken => Takes.pure ?_
  rw [List.append_nil, prevoutTaken.1, scriptTaken.1, sequenceTaken.1]
  exact ⟨rfl, prevoutTaken.2, scriptTaken.2, sequenceTaken.2⟩

theorem CTxOut.Serializable.reads {txout : CTxOut} (valid : txout.Serializable) :
    Reads readTxOut txout.serialize txout := by
  have low := valid.nValue_ge
  have high := valid.nValue_lt
  exact (@reads_signed 8 txout.nValue (by omega) (by omega)).bind
    (Reads.map (CTxOut.mk txout.nValue) (reads_bytes valid.script_le))

theorem takes_txOut : Takes readTxOut fun bytes txout =>
    bytes = txout.serialize ∧ txout.Serializable := by
  refine (takes_signed 8).bind fun _ nValue valueTaken => takes_bytes.bind fun _ scriptPubKey
    scriptTaken => Takes.pure ?_
  obtain ⟨rfl, low, high⟩ := valueTaken
  rw [List.append_nil, scriptTaken.1]
  exact ⟨rfl, by dsimp only; omega, by dsimp only; omega, scriptTaken.2⟩

variable {hashOf : List UInt8 → Uint256}

theorem CTransaction.Serializable.reads {tx : CTransaction} (valid : tx.Serializable hashOf) :
    Reads (readTransaction hashOf) tx.serialize tx := by
  have low := valid.nVersion_ge
  have high := valid.nVersion_lt
  have last := Reads.map (fun nLockTime => CTransaction.updateHash hashOf
    { hash := 0, nVersion := tx.nVersion, vin := tx.vin, vout := tx.vout, nLockTime := nLockTime })
    (@reads_uint 4 tx.nLockTime valid.nLockTime_lt)
  have whole : CTransaction.updateHash hashOf
      { hash := 0, nVersion := tx.nVersion, vin := tx.vin, vout := tx.vout,
        nLockTime := tx.nLockTime } = tx :=
    calc
      _ = { tx with hash := hashOf tx.serialize } := rfl
      _ = tx := by rw [← valid.hash_eq]
  rw [whole] at last
  exact (@reads_signed 4 tx.nVersion (by omega) (by omega)).bind
    ((reads_vector valid.vin_le fun txin member => (valid.vin txin member).reads).bind
      ((reads_vector valid.vout_le fun txout member => (valid.vout txout member).reads).bind last))

theorem takes_transaction : Takes (readTransaction hashOf) fun bytes tx =>
    bytes = tx.serialize ∧ tx.Serializable hashOf := by
  refine (takes_signed 4).bind fun _ nVersion versionTaken =>
    (takes_vector takes_txIn).bind fun _ vin vinTaken =>
      (takes_vector takes_txOut).bind fun _ vout voutTaken =>
        (takes_uint 4).bind fun _ nLockTime lockTaken => Takes.pure ?_
  obtain ⟨rfl, low, high⟩ := versionTaken
  obtain ⟨rfl, vinLe, vinValid⟩ := vinTaken
  obtain ⟨rfl, voutLe, voutValid⟩ := voutTaken
  obtain ⟨rfl, lockLt⟩ := lockTaken
  rw [List.append_nil]
  refine ⟨rfl, ?_⟩
  constructor
  all_goals dsimp only [CTransaction.updateHash]
  · rfl
  · omega
  · omega
  · exact vinLe
  · exact vinValid
  · exact voutLe
  · exact voutValid
  · exact lockLt

end CentNode
