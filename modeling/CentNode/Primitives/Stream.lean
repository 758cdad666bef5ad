import CentNode.Library.Wire
import CentNode.Primitives.Transaction

/-!
# Streams

`ReadCompactSize` and `WriteCompactSize` of `serialize.h`, its `VARINT`, and the
forms of vectors, integers and hashes.  A `std::ios_base::failure` is a reader
that fails.
-/

namespace CentNode

open List BitVec

open Wire

def maxSize : Nat := 0x02000000

def writeCompactSize (nSize : Nat) : List UInt8 :=
  if nSize < 253 then [UInt8.ofNat nSize]
  else if nSize ≤ 0xffff then 253 :: leBytes 2 nSize
  else if nSize ≤ 0xffffffff then 254 :: leBytes 4 nSize
  else 255 :: leBytes 8 nSize

/-- A size kept in `width` bytes that must not fit in fewer. -/
def readWideSize (width least : Nat) : Reader Nat := do
  let xSize ← uint width
  if xSize < least then fail else pure xSize

def readCompactSize : Reader Nat := do
  let chSize ← byte
  let nSizeRet ←
    if chSize < 253 then pure chSize.toNat
    else if chSize = 253 then readWideSize 2 253
    else if chSize = 254 then readWideSize 4 0x10000
    else readWideSize 8 0x100000000
  if nSizeRet > maxSize then fail else pure nSizeRet

section

variable {width least nSize : Nat} {α : Type} {read : Reader α} {write : α → List UInt8}
  {Valid : α → Prop}

theorem reads_wideSize (low : least ≤ nSize)
    (fits : nSize < 256 ^ width) :
    Reads (readWideSize width least) (leBytes width nSize) nSize :=
  (reads_uint fits).check (fun xSize => xSize < least) (Nat.not_lt.mpr low)

/-- A size is read back from the shortest form it is written in. -/
theorem reads_compactSize (small : nSize ≤ maxSize) :
    Reads readCompactSize (writeCompactSize nSize) nSize := by
  have passes : ∀ {read : Reader Nat} {bytes : List UInt8}, Reads read bytes nSize →
      Reads (read >>= fun nSizeRet => if nSizeRet > maxSize then fail else pure nSizeRet) bytes
        nSize :=
    fun first => first.check (fun nSizeRet => nSizeRet > maxSize) (Nat.not_lt.mpr small)
  have wide : nSize < 256 ^ 4 := by
    unfold maxSize at small
    omega
  unfold writeCompactSize
  split_ifs with one two four
  · have byteValue : (UInt8.ofNat nSize).toNat = nSize := by
      rw [UInt8.toNat_ofNat']
      omega
    have below : UInt8.ofNat nSize < 253 := by
      rw [UInt8.lt_iff_toNat_lt, byteValue]
      exact one
    change Reads readCompactSize ([UInt8.ofNat nSize] ++ []) nSize
    apply Reads.bind (reads_byte _)
    rw [if_pos below, byteValue]
    exact passes (Reads.pure nSize)
  · change Reads readCompactSize ([253] ++ leBytes 2 nSize) nSize
    apply Reads.bind (reads_byte _)
    rw [if_neg (by decide), if_pos rfl]
    exact passes (reads_wideSize (by omega) (by omega))
  · change Reads readCompactSize ([254] ++ leBytes 4 nSize) nSize
    apply Reads.bind (reads_byte _)
    rw [if_neg (by decide), if_neg (by decide), if_pos rfl]
    exact passes (reads_wideSize (by omega) wide)
  · exact absurd (by omega) four

/-- A vector, as its size and its elements. -/
def writeVector {α : Type} (write : α → List UInt8) (v : List α) : List UInt8 :=
  writeCompactSize v.length ++ v.flatMap write

def readVector {α : Type} (read : Reader α) : Reader (List α) := do
  let nSize ← readCompactSize
  times read nSize

theorem reads_vector {v : List α}
    (small : v.length ≤ maxSize) (each : ∀ value ∈ v, Reads read (write value) value) :
    Reads (readVector read) (writeVector write v) v :=
  Reads.bind (reads_compactSize small) (reads_times each)

theorem takes_wideSize (width least : Nat) :
    Takes (readWideSize width least) fun bytes nSize =>
      bytes = leBytes width nSize ∧ least ≤ nSize ∧ nSize < 256 ^ width := by
  refine (takes_uint width).bind fun bytes xSize taken => ?_
  refine Takes.ite (fun _ => Takes.fail) fun enough => Takes.pure ?_
  rw [append_nil]
  exact ⟨taken.1, Nat.not_lt.mp enough, taken.2⟩

/-- A size that is read was written in the shortest form. -/
theorem takes_compactSize :
    Takes readCompactSize fun bytes nSize => bytes = writeCompactSize nSize ∧ nSize ≤ maxSize := by
  have bounded : ∀ {first : List UInt8} {read : Reader Nat},
      (Takes read fun bytes nSize => first ++ bytes = writeCompactSize nSize) →
        Takes (read >>= fun nSizeRet => if nSizeRet > maxSize then fail else pure nSizeRet)
          fun more nSize => first ++ more = writeCompactSize nSize ∧ nSize ≤ maxSize :=
    fun takes => takes.bind fun _ nSize written =>
      Takes.ite (fun _ => Takes.fail) fun small => Takes.pure (by
        rw [append_nil]
        exact ⟨written, Nat.not_lt.mp small⟩)
  refine takes_byte.bind fun _ chSize taken => ?_
  subst taken
  split_ifs with one two four
  · refine bounded (Takes.pure ?_)
    rw [UInt8.lt_iff_toNat_lt, show (253 : UInt8).toNat = 253 from rfl] at one
    rw [writeCompactSize, if_pos one, UInt8.ofNat_toNat]
    rfl
  · refine bounded ((takes_wideSize 2 253).mono fun bytes nSize wide => ?_)
    rw [writeCompactSize, if_neg (by omega), if_pos (by omega), wide.1, two]
    rfl
  · refine bounded ((takes_wideSize 4 0x10000).mono fun bytes nSize wide => ?_)
    rw [writeCompactSize, if_neg (by omega), if_neg (by omega), if_pos (by omega), wide.1, four]
    rfl
  · refine bounded ((takes_wideSize 8 0x100000000).mono fun bytes nSize wide => ?_)
    have last : chSize = 255 := by
      have below := chSize.toNat_lt
      rw [UInt8.lt_iff_toNat_lt, show (253 : UInt8).toNat = 253 from rfl] at one
      rw [← UInt8.toNat_inj, show (253 : UInt8).toNat = 253 from rfl] at two
      rw [← UInt8.toNat_inj, show (254 : UInt8).toNat = 254 from rfl] at four
      apply UInt8.toNat_inj.mp
      rw [show (255 : UInt8).toNat = 255 from rfl]
      omega
    rw [writeCompactSize, if_neg (by omega), if_neg (by omega), if_neg (by omega), wide.1, last]
    rfl

theorem takes_vector (each : Takes read fun bytes value => bytes = write value ∧ Valid value) :
    Takes (readVector read) fun bytes v =>
      bytes = writeVector write v ∧ v.length ≤ maxSize ∧ ∀ value ∈ v, Valid value := by
  refine takes_compactSize.bind fun _ nSize sized => ?_
  refine (takes_times each nSize).mono fun bytes v taken => ?_
  obtain ⟨rfl, small⟩ := sized
  obtain ⟨rfl, rfl, valid⟩ := taken
  exact ⟨rfl, small, valid⟩

end

/-! ## Integers of variable length -/

/-- The bytes of `WriteVarInt` before the last: each has its high bit set, and
one is subtracted from what goes before it.  The number bounds its own digits. -/
def writeVarIntHigh : Nat → Nat → List UInt8
  | 0, n => [UInt8.ofNat (n % 128 + 128)]
  | fuel + 1, n =>
    if n ≤ 127 then [UInt8.ofNat (n + 128)]
    else writeVarIntHigh fuel (n / 128 - 1) ++ [UInt8.ofNat (n % 128 + 128)]

def writeVarInt (n : Nat) : List UInt8 :=
  if n ≤ 127 then [UInt8.ofNat n]
  else writeVarIntHigh n (n / 128 - 1) ++ [UInt8.ofNat (n % 128)]

/-- The loop of `ReadVarInt`, from the number read so far. -/
def readVarIntFrom : Nat → Reader Nat
  | _, [] => none
  | n, chData :: rest =>
    if chData ≥ 128 then readVarIntFrom (n * 128 + chData.toNat % 128 + 1) rest
    else some (n * 128 + chData.toNat, rest)

def readVarInt : Reader Nat := readVarIntFrom 0

theorem readVarIntFrom_high {digit : Nat} (small : digit < 128) (n : Nat) (rest : List UInt8) :
    readVarIntFrom n (UInt8.ofNat (digit + 128) :: rest) =
      readVarIntFrom (n * 128 + digit + 1) rest := by
  have value : (UInt8.ofNat (digit + 128)).toNat = digit + 128 := by
    rw [UInt8.toNat_ofNat']
    omega
  have high : UInt8.ofNat (digit + 128) ≥ 128 := by
    rw [ge_iff_le, UInt8.le_iff_toNat_le, value]
    exact Nat.le_add_left 128 digit
  have low : (digit + 128) % 128 = digit := by omega
  rw [readVarIntFrom, if_pos high, value, low]

theorem readVarIntFrom_last {digit : Nat} (small : digit < 128) (n : Nat) (rest : List UInt8) :
    readVarIntFrom n (UInt8.ofNat digit :: rest) = some (n * 128 + digit, rest) := by
  have value : (UInt8.ofNat digit).toNat = digit := by
    rw [UInt8.toNat_ofNat']
    omega
  have low : ¬ UInt8.ofNat digit ≥ 128 := by
    rw [ge_iff_le, UInt8.le_iff_toNat_le, value]
    exact Nat.not_le.mpr small
  rw [readVarIntFrom, if_neg low, value]

theorem readVarIntFrom_writeVarIntHigh {fuel n : Nat} (enough : n ≤ fuel) (rest : List UInt8) :
    readVarIntFrom 0 (writeVarIntHigh fuel n ++ rest) = readVarIntFrom (n + 1) rest := by
  induction fuel generalizing n rest with
  | zero =>
    obtain rfl : n = 0 := Nat.le_zero.mp enough
    rw [writeVarIntHigh, singleton_append, readVarIntFrom_high (by decide)]
  | succ fuel ih =>
    unfold writeVarIntHigh
    split
    · next small =>
        rw [singleton_append, readVarIntFrom_high (by omega), Nat.zero_mul, Nat.zero_add]
    · next large =>
        have whole : (n / 128 - 1 + 1) * 128 + n % 128 = n := by omega
        rw [List.append_assoc, ih (by omega), singleton_append,
          readVarIntFrom_high (by omega), whole]

theorem reads_varInt (n : Nat) : Reads readVarInt (writeVarInt n) n := by
  intro more
  change readVarIntFrom 0 (writeVarInt n ++ more) = some (n, more)
  unfold writeVarInt
  split
  · next small => rw [singleton_append, readVarIntFrom_last (by omega), Nat.zero_mul, Nat.zero_add]
  · next large =>
      have whole : (n / 128 - 1 + 1) * 128 + n % 128 = n := by omega
      rw [List.append_assoc, readVarIntFrom_writeVarIntHigh (by omega), singleton_append,
        readVarIntFrom_last (by omega), whole]

/-! ## Integers and hashes -/

/-- A machine word in the given number of bytes. -/
def writeWord {width : Nat} (bytes : Nat) (value : BitVec width) : List UInt8 :=
  leBytes bytes value.toNat

def readWord (bytes width : Nat) : Reader (BitVec width) := do
  let value ← uint bytes
  pure (BitVec.ofNat width value)

theorem reads_word {bytes width : Nat} (wide : 2 ^ width ≤ 256 ^ bytes) (value : BitVec width) :
    Reads (readWord bytes width) (writeWord bytes value) value := by
  have read := (reads_uint (Nat.lt_of_lt_of_le value.isLt wide)).map (BitVec.ofNat width)
  rwa [ofNat_toNat, setWidth_eq] at read

theorem takes_word {bytes width : Nat} (narrow : 256 ^ bytes ≤ 2 ^ width) :
    Takes (readWord bytes width) fun taken value => taken = writeWord bytes value := by
  refine (takes_uint bytes).bind fun _ value taken => Takes.pure ?_
  have fits : value < 2 ^ width := Nat.lt_of_lt_of_le taken.2 narrow
  rw [writeWord, toNat_ofNat, Nat.mod_eq_of_lt fits, append_nil, taken.1]

def writeUint256 (value : Uint256) : List UInt8 := leBytes 32 value.toNat

def readUint256 : Reader Uint256 := do
  let value ← uint 32
  pure (BitVec.ofNat 256 value)

theorem reads_uint256 (value : Uint256) : Reads readUint256 (writeUint256 value) value := by
  have read := (@reads_uint 32 _ value.isLt).map (BitVec.ofNat 256)
  rwa [ofNat_toNat, setWidth_eq] at read

theorem takes_uint256 : Takes readUint256 fun bytes value => bytes = writeUint256 value := by
  refine (takes_uint 32).bind fun _ value taken => Takes.pure ?_
  have fits : value < 2 ^ 256 := taken.2
  rw [writeUint256, toNat_ofNat, Nat.mod_eq_of_lt fits, append_nil, taken.1]

end CentNode
