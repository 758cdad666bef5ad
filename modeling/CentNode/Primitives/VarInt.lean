import CentNode.Primitives.Stream
import Mathlib.Data.Nat.Bitwise
import Mathlib.Tactic.Ring

/-!
# Integers of variable length in machine words

`GetSizeOfVarInt`, `WriteVarInt` and `ReadVarInt` for an unsigned type of some
number of bytes.  The writer fills a buffer that the type bounds; the reader
shifts the digits into a word and does not notice when they no longer fit.
-/

namespace CentNode

open BitVec List Option

open Wire

/-- The number that bytes stand for: all but the last add one to their seven bits. -/
def varIntNumber : List UInt8 → Nat
  | [] => 0
  | [last] => last.toNat % 128
  | first :: second :: rest =>
    128 ^ (rest.length + 1) * (first.toNat % 128 + 1) + varIntNumber (second :: rest)

/-! ## The bytes of a number -/

theorem writeVarIntHigh_small {fuel n : Nat} (small : n ≤ 127) (enough : n ≤ fuel) :
    writeVarIntHigh fuel n = [UInt8.ofNat (n + 128)] := by
  cases fuel with
  | zero =>
    obtain rfl : n = 0 := Nat.le_zero.mp enough
    rfl
  | succ fuel => rw [writeVarIntHigh, if_pos small]

theorem writeVarIntHigh_fuel {fuel n : Nat} (enough : n ≤ fuel) :
    writeVarIntHigh fuel n = writeVarIntHigh n n := by
  induction n using Nat.strongRecOn generalizing fuel with
  | ind n ih =>
    by_cases small : n ≤ 127
    · rw [writeVarIntHigh_small small enough, writeVarIntHigh_small small (Nat.le_refl n)]
    · obtain ⟨fuel, rfl⟩ := Nat.exists_eq_succ_of_ne_zero (by omega : fuel ≠ 0)
      obtain ⟨pred, rfl⟩ := Nat.exists_eq_succ_of_ne_zero (by omega : n ≠ 0)
      rw [writeVarIntHigh, writeVarIntHigh, if_neg small, if_neg small,
        ih _ (by omega) (by omega : (pred + 1) / 128 - 1 ≤ fuel),
        ih _ (by omega) (by omega : (pred + 1) / 128 - 1 ≤ pred)]

theorem writeVarIntHigh_large {n : Nat} (large : ¬ n ≤ 127) :
    writeVarIntHigh n n =
      writeVarIntHigh (n / 128 - 1) (n / 128 - 1) ++ [UInt8.ofNat (n % 128 + 128)] := by
  obtain ⟨pred, rfl⟩ := Nat.exists_eq_succ_of_ne_zero (by omega : n ≠ 0)
  rw [writeVarIntHigh, if_neg large,
    writeVarIntHigh_fuel (by omega : (pred + 1) / 128 - 1 ≤ pred)]

theorem writeVarInt_large {n : Nat} (large : ¬ n ≤ 127) :
    writeVarInt n =
      writeVarIntHigh (n / 128 - 1) (n / 128 - 1) ++ [UInt8.ofNat (n % 128)] := by
  rw [writeVarInt, if_neg large, writeVarIntHigh_fuel (by omega : n / 128 - 1 ≤ n)]

namespace VarInt

variable {size : Nat}

variable {n : BitVec (8 * size)}

theorem toNat_shifted (large : ¬ n.toNat ≤ 0x7F) : ((n >>> 7) - 1).toNat = n.toNat / 128 - 1 := by
  have one : (1 : BitVec (8 * size)).toNat = 1 := by
    have wide : 1 < 2 ^ (8 * size) := by
      have below := n.isLt
      omega
    exact Nat.mod_eq_of_lt wide
  have shifted : (n >>> 7).toNat = n.toNat / 128 := by
    rw [toNat_ushiftRight, Nat.shiftRight_eq_div_pow]
  rw [toNat_sub_of_le, shifted, one]
  rw [le_def, shifted, one]
  omega

theorem shifted_lt (large : ¬ n.toNat ≤ 0x7F) : ((n >>> 7) - 1).toNat < n.toNat := by
  rw [toNat_shifted large]
  omega

def getSizeOfVarInt (n : BitVec (8 * size)) : Nat :=
  if n.toNat ≤ 0x7F then 1 else 1 + getSizeOfVarInt ((n >>> 7) - 1)
  termination_by n.toNat
  decreasing_by exact shifted_lt ‹_›

/-- The loop of `WriteVarInt`: the bytes of `tmp` from an index on, `none` for a
write outside of it. -/
def fillTmp (n : BitVec (8 * size)) (len : Nat) : Option (List UInt8) :=
  if len < (size * 8 + 6) / 7 then
    let digit := UInt8.ofNat ((n &&& 0x7F).toNat ||| if len = 0 then 0x00 else 0x80)
    if n.toNat ≤ 0x7F then some [digit]
    else (fillTmp ((n >>> 7) - 1) (len + 1)).map (digit :: ·)
  else none
  termination_by n.toNat
  decreasing_by exact shifted_lt ‹_›

/-- `WriteVarInt` sends the bytes of `tmp` from the last one back. -/
def writeVarInt (n : BitVec (8 * size)) : Option (List UInt8) := (fillTmp n 0).map List.reverse

/-- The loop of `ReadVarInt`, from the word read so far. -/
def readVarIntFrom (n : BitVec (8 * size)) : Reader (BitVec (8 * size))
  | [] => none
  | chData :: rest =>
    let n := (n <<< 7) ||| BitVec.ofNat (8 * size) (chData &&& 0x7F).toNat
    if chData &&& 0x80 ≠ 0 then readVarIntFrom (n + 1) rest else some (n, rest)

def readVarInt (size : Nat) : Reader (BitVec (8 * size)) := readVarIntFrom 0

/-! ## Digits -/

theorem digit_eq (n : BitVec (8 * size)) (positive : 0 < size) (len : Nat) :
    UInt8.ofNat ((n &&& 0x7F).toNat ||| if len = 0 then 0x00 else 0x80) =
      UInt8.ofNat (n.toNat % 128 + if len = 0 then 0 else 128) := by
  have wide : 2 ^ 8 ≤ 2 ^ (8 * size) := Nat.pow_le_pow_right (by decide) (by omega)
  have mask : (0x7F : BitVec (8 * size)).toNat = 2 ^ 7 - 1 :=
    Nat.mod_eq_of_lt (by omega : 127 < 2 ^ (8 * size))
  have low : (n &&& 0x7F).toNat = n.toNat % 128 := by
    rw [toNat_and, mask, Nat.and_two_pow_sub_one_eq_mod]
  rw [low]
  split
  · rw [Nat.or_zero, Nat.add_zero]
  · rw [Nat.or_comm, show (0x80 : Nat) = 1 <<< 7 from rfl,
      ← Nat.shiftLeft_add_eq_or_of_lt (Nat.mod_lt _ (by decide) : n.toNat % 128 < 2 ^ 7),
      Nat.add_comm]

/-- The digits go into `tmp` from the last one back. -/
theorem fillTmp_eq (positive : 0 < size) (n : BitVec (8 * size)) (len : Nat)
    (room : 7 * len < 8 * size) (small : n.toNat < 2 ^ (8 * size - 7 * len)) :
    fillTmp n len = some (if len = 0 then (CentNode.writeVarInt n.toNat).reverse
      else (writeVarIntHigh n.toNat n.toNat).reverse) := by
  have fits : len < (size * 8 + 6) / 7 := by omega
  induction n, len using fillTmp.induct with
  | case1 n len _ last =>
    rw [fillTmp, if_pos fits]
    dsimp only
    rw [if_pos last, digit_eq n positive, Nat.mod_eq_of_lt (by omega)]
    split
    · rw [CentNode.writeVarInt, if_pos last]
      rfl
    · rw [writeVarIntHigh_small last (Nat.le_refl _)]
      rfl
  | case2 n len _ more ih =>
    have left : 8 < 8 * size - 7 * len + 1 := by
      by_contra short
      have bound : 2 ^ (8 * size - 7 * len) ≤ 2 ^ 7 := Nat.pow_le_pow_right (by decide) (by omega)
      omega
    have split_pow : 2 ^ (8 * size - 7 * len) = 2 ^ (8 * size - 7 * (len + 1)) * 128 := by
      rw [show 8 * size - 7 * len = 8 * size - 7 * (len + 1) + 7 by omega, pow_add,
        show (2 : Nat) ^ 7 = 128 from rfl]
    have smaller : ((n >>> 7) - 1).toNat < 2 ^ (8 * size - 7 * (len + 1)) := by
      rw [toNat_shifted more]
      rw [split_pow, ← Nat.div_lt_iff_lt_mul (by decide)] at small
      omega
    rw [fillTmp, if_pos fits]
    dsimp only
    rw [if_neg more, ih (by omega) smaller (by omega), map_some, digit_eq n positive,
      if_neg (Nat.succ_ne_zero len), toNat_shifted more]
    split
    · rw [writeVarInt_large more, List.reverse_append]
      rfl
    · rw [writeVarIntHigh_large more, List.reverse_append]
      rfl
  | case3 n len overrun => exact absurd fits overrun

theorem writeVarInt_eq (positive : 0 < size) (n : BitVec (8 * size)) :
    writeVarInt n = some (CentNode.writeVarInt n.toNat) := by
  have filled := fillTmp_eq positive n 0 (by omega) n.isLt
  rw [writeVarInt, filled, map_some, if_pos rfl, reverse_reverse]

variable {len : Nat} {tmp : List UInt8}

section

variable (filled : fillTmp n len = some tmp)

include filled

/-- What one iteration of the loop leaves in `tmp`. -/
theorem fillTmp_cases :
    len < (size * 8 + 6) / 7 ∧
      ((n.toNat ≤ 0x7F ∧ ∃ digit, tmp = [digit]) ∨
        (¬ n.toNat ≤ 0x7F ∧ ∃ digit rest, fillTmp ((n >>> 7) - 1) (len + 1) = some rest ∧
          tmp = digit :: rest)) := by
  rw [fillTmp] at filled
  split at filled
  · next fits =>
      dsimp only at filled
      split at filled
      · next last =>
          cases filled
          exact ⟨fits, Or.inl ⟨last, _, rfl⟩⟩
      · next more =>
          obtain ⟨rest, filledRest, rfl⟩ := map_eq_some_iff.mp filled
          exact ⟨fits, Or.inr ⟨more, _, rest, filledRest, rfl⟩⟩
  · cases filled

/-- Nothing is written past the end of `tmp`. -/
theorem length_fillTmp_le :
    len + tmp.length ≤ (size * 8 + 6) / 7 := by
  induction tmp generalizing n len with
  | nil => exact (fillTmp_cases filled).1.le
  | cons first rest ih =>
    obtain ⟨fits, ⟨_, digit, single⟩ | ⟨_, digit, others, filledRest, tmp_eq⟩⟩ :=
      fillTmp_cases filled
    · cases single
      exact fits
    · cases tmp_eq
      have bound := ih filledRest
      rw [length_cons]
      omega

theorem getSizeOfVarInt_eq :
    getSizeOfVarInt n = tmp.length := by
  induction tmp generalizing n len with
  | nil =>
    obtain ⟨_, ⟨_, digit, single⟩ | ⟨_, digit, others, _, tmp_eq⟩⟩ := fillTmp_cases filled
    · cases single
    · cases tmp_eq
  | cons first rest ih =>
    obtain ⟨_, ⟨last, digit, single⟩ | ⟨more, digit, others, filledRest, tmp_eq⟩⟩ :=
      fillTmp_cases filled
    · cases single
      rw [getSizeOfVarInt, if_pos last, length_singleton]
    · cases tmp_eq
      rw [getSizeOfVarInt, if_neg more, ih filledRest, length_cons, Nat.add_comm]

end

/-! ## The number that is read -/

theorem and_0x80_ne_zero_iff (chData : UInt8) : chData &&& 0x80 ≠ 0 ↔ chData ≥ 128 := by
  have below := chData.toNat_lt
  have bit : (chData &&& 0x80).toNat = (chData.toNat.testBit 7).toNat * 128 := by
    rw [UInt8.toNat_and, show (0x80 : UInt8).toNat = 2 ^ 7 from rfl, Nat.and_two_pow]
    rfl
  rw [Ne, ← UInt8.toNat_inj, bit, ge_iff_le, UInt8.le_iff_toNat_le, Nat.testBit_eq_decide_div_mod_eq,
    show (0 : UInt8).toNat = 0 from rfl, show (128 : UInt8).toNat = 128 from rfl]
  by_cases set : chData.toNat / 2 ^ 7 % 2 = 1
  · rw [decide_eq_true set]
    exact iff_of_true (by decide) (by omega)
  · rw [decide_eq_false set]
    exact iff_of_false (by decide) (by omega)

theorem toNat_and_0x7F (chData : UInt8) : (chData &&& 0x7F).toNat = chData.toNat % 128 := by
  rw [UInt8.toNat_and, show (0x7F : UInt8).toNat = 2 ^ 7 - 1 from rfl,
    Nat.and_two_pow_sub_one_eq_mod]

theorem shifted_or (positive : 0 < size) {digit : Nat} (small : digit < 128) (k : Nat) :
    ((BitVec.ofNat (8 * size) k <<< 7) ||| BitVec.ofNat (8 * size) digit) =
      BitVec.ofNat (8 * size) (k * 128 + digit) := by
  obtain ⟨high, width_eq⟩ : ∃ high, 8 * size = high + 7 := ⟨8 * size - 7, by omega⟩
  have width_pow : 2 ^ (8 * size) = 2 ^ high * 128 := by
    rw [width_eq, pow_add, show (2 : Nat) ^ 7 = 128 from rfl]
  have top := Nat.two_pow_pos high
  apply eq_of_toNat_eq
  rw [toNat_or, BitVec.toNat_shiftLeft, toNat_ofNat, toNat_ofNat,
    toNat_ofNat, width_pow, Nat.mod_eq_of_lt (by omega : digit < 2 ^ high * 128),
    Nat.shiftLeft_eq]
  have shifted : k % (2 ^ high * 128) * 2 ^ 7 % (2 ^ high * 128) = (k % 2 ^ high) <<< 7 := by
    rw [Nat.shiftLeft_eq, show (2 : Nat) ^ 7 = 128 from rfl, Nat.mul_mod_mul_right,
      Nat.mod_mul_right_mod]
  have kept := Nat.mod_lt k top
  have parts : k * 128 + digit =
      (k % 2 ^ high * 128 + digit) + 2 ^ high * 128 * (k / 2 ^ high) := by
    calc
      k * 128 + digit = (k % 2 ^ high + 2 ^ high * (k / 2 ^ high)) * 128 + digit := by
        rw [Nat.mod_add_div]
      _ = (k % 2 ^ high * 128 + digit) + 2 ^ high * 128 * (k / 2 ^ high) := by ring
  rw [shifted, ← Nat.shiftLeft_add_eq_or_of_lt (by omega : digit < 2 ^ 7), Nat.shiftLeft_eq,
    parts, Nat.add_mul_mod_self_left,
    Nat.mod_eq_of_lt (by omega : k % 2 ^ high * 128 + digit < 2 ^ high * 128)]

theorem readVarIntFrom_eq (positive : 0 < size) (k : Nat) (stream : List UInt8) :
    readVarIntFrom (BitVec.ofNat (8 * size) k) stream =
      (CentNode.readVarIntFrom k stream).map fun read =>
        (BitVec.ofNat (8 * size) read.1, read.2) := by
  induction stream generalizing k with
  | nil => rfl
  | cons chData rest ih =>
    have digit_lt : chData.toNat % 128 < 128 := Nat.mod_lt _ (by decide)
    rw [readVarIntFrom, CentNode.readVarIntFrom, toNat_and_0x7F, shifted_or positive digit_lt]
    by_cases high : chData ≥ 128
    · rw [if_pos ((and_0x80_ne_zero_iff chData).mpr high), if_pos high, ← ih]
      congr 1
      exact ofNat_add_ofNat _ _
    · have low : ¬ chData &&& 0x80 ≠ 0 := fun set => high ((and_0x80_ne_zero_iff chData).mp set)
      have last : chData.toNat % 128 = chData.toNat := by
        rw [ge_iff_le, UInt8.le_iff_toNat_le, show (128 : UInt8).toNat = 128 from rfl] at high
        omega
      rw [if_neg low, if_neg high, last]
      rfl

theorem readVarInt_eq (positive : 0 < size) (stream : List UInt8) :
    readVarInt size stream =
      (CentNode.readVarInt stream).map fun read => (BitVec.ofNat (8 * size) read.1, read.2) :=
  readVarIntFrom_eq positive 0 stream

end VarInt

/-! ## One string of bytes for one number -/

/-- The bytes written for the number that has been read when some digits are in. -/
def readSoFar (k : Nat) : List UInt8 := if k = 0 then [] else writeVarIntHigh (k - 1) (k - 1)

theorem readSoFar_succ (n : Nat) : readSoFar (n + 1) = writeVarIntHigh n n :=
  if_neg (Nat.succ_ne_zero n)

theorem readSoFar_high {chData : UInt8} (high : chData ≥ 128) (k : Nat) :
    readSoFar (k * 128 + chData.toNat % 128 + 1) = readSoFar k ++ [chData] := by
  have below := chData.toNat_lt
  rw [ge_iff_le, UInt8.le_iff_toNat_le, show (128 : UInt8).toNat = 128 from rfl] at high
  have digit_eq : UInt8.ofNat (chData.toNat % 128 + 128) = chData := by
    rw [show chData.toNat % 128 + 128 = chData.toNat by omega, UInt8.ofNat_toNat]
  rw [readSoFar_succ]
  cases k with
  | zero =>
    rw [Nat.zero_mul, Nat.zero_add, writeVarIntHigh_small (by omega) (Nat.le_refl _), digit_eq]
    rfl
  | succ k =>
    rw [writeVarIntHigh_large (by omega), readSoFar_succ,
      show ((k + 1) * 128 + chData.toNat % 128) / 128 - 1 = k by omega,
      show ((k + 1) * 128 + chData.toNat % 128) % 128 = chData.toNat % 128 by omega, digit_eq]

theorem readSoFar_last {chData : UInt8} (low : ¬ chData ≥ 128) (k : Nat) :
    writeVarInt (k * 128 + chData.toNat) = readSoFar k ++ [chData] := by
  rw [ge_iff_le, UInt8.le_iff_toNat_le, show (128 : UInt8).toNat = 128 from rfl] at low
  cases k with
  | zero =>
    rw [Nat.zero_mul, Nat.zero_add, writeVarInt, if_pos (by omega), UInt8.ofNat_toNat]
    rfl
  | succ k =>
    rw [writeVarInt_large (by omega), readSoFar_succ,
      show ((k + 1) * 128 + chData.toNat) / 128 - 1 = k by omega,
      show ((k + 1) * 128 + chData.toNat) % 128 = chData.toNat by omega, UInt8.ofNat_toNat]

theorem readVarIntFrom_some {k v : Nat} {stream rest : List UInt8}
    (read : readVarIntFrom k stream = some (v, rest)) :
    ∃ consumed, consumed ≠ [] ∧ stream = consumed ++ rest ∧
      v = k * 128 ^ consumed.length + varIntNumber consumed ∧
      readSoFar k ++ consumed = writeVarInt v := by
  induction stream generalizing k with
  | nil => cases read
  | cons chData tail ih =>
    rw [readVarIntFrom] at read
    by_cases high : chData ≥ 128
    · rw [if_pos high] at read
      obtain ⟨consumed, filled, tail_eq, v_eq, written⟩ := ih read
      refine ⟨chData :: consumed, cons_ne_nil _ _, by rw [tail_eq, List.cons_append], ?_, ?_⟩
      · cases consumed with
        | nil => exact absurd rfl filled
        | cons second others =>
          rw [v_eq, varIntNumber]
          simp only [length_cons]
          ring
      · rw [← written, readSoFar_high high, List.append_assoc, singleton_append]
    · rw [if_neg high] at read
      cases read
      refine ⟨[chData], cons_ne_nil _ _, rfl, ?_, ?_⟩
      · rw [ge_iff_le, UInt8.le_iff_toNat_le, show (128 : UInt8).toNat = 128 from rfl] at high
        rw [length_singleton, pow_one, varIntNumber, Nat.mod_eq_of_lt (by omega)]
      · exact (readSoFar_last high k).symm

theorem readVarInt_some {v : Nat} {consumed rest : List UInt8}
    (read : readVarInt.run (consumed ++ rest) = some (v, rest)) :
    v = varIntNumber consumed ∧ writeVarInt v = consumed := by
  obtain ⟨others, _, stream_eq, v_eq, written⟩ := readVarIntFrom_some read
  cases append_cancel_right stream_eq
  exact ⟨by rw [v_eq, Nat.zero_mul, Nat.zero_add], written.symm⟩

theorem writeVarInt_injective : Function.Injective writeVarInt := by
  intro first second same
  have read := reads_varInt first []
  rw [same, reads_varInt second []] at read
  cases read
  rfl

namespace VarInt

variable {size : Nat}

/-- What is written is read back, and has the size that was announced; bytes are
the ones written for the value that they are read as exactly if the number that
they stand for fits in a word. -/
theorem varInt_one_to_one_iff (positive : 0 < size) :
    (∀ n : BitVec (8 * size), ∃ bytes, writeVarInt n = some bytes ∧
      Reads (readVarInt size) bytes n ∧ bytes.length = getSizeOfVarInt n ∧
        bytes.length ≤ (size * 8 + 6) / 7) ∧
    ∀ consumed rest n, (readVarInt size).run (consumed ++ rest) = some (n, rest) →
      (writeVarInt n = some consumed ↔ varIntNumber consumed < 2 ^ (8 * size)) := by
  constructor
  · intro n
    obtain ⟨tmp, filled⟩ : ∃ tmp, fillTmp n 0 = some tmp :=
      ⟨_, fillTmp_eq positive n 0 (by omega) n.isLt⟩
    have written : writeVarInt n = some tmp.reverse := by
      rw [writeVarInt, filled, map_some]
    have bytes_eq : tmp.reverse = CentNode.writeVarInt n.toNat := by
      rw [writeVarInt_eq positive, some_inj] at written
      exact written.symm
    refine ⟨tmp.reverse, written, fun more => ?_, ?_, ?_⟩
    · have read : CentNode.readVarInt (tmp.reverse ++ more) = some (n.toNat, more) := by
        rw [bytes_eq]
        exact reads_varInt n.toNat more
      refine (readVarInt_eq positive _).trans ?_
      rw [read, map_some, ofNat_toNat, setWidth_eq]
    · rw [length_reverse, getSizeOfVarInt_eq filled]
    · rw [length_reverse, ← Nat.zero_add tmp.length]
      exact length_fillTmp_le filled
  · intro consumed rest n read
    obtain ⟨⟨v, others⟩, readNumber, pair_eq⟩ :=
      map_eq_some_iff.mp ((readVarInt_eq positive _).symm.trans read)
    cases pair_eq
    obtain ⟨v_eq, bytes_eq⟩ := readVarInt_some readNumber
    rw [writeVarInt_eq positive, some_inj, toNat_ofNat, ← v_eq]
    constructor
    · intro same
      rw [← writeVarInt_injective (same.trans bytes_eq.symm)]
      exact Nat.mod_lt _ (Nat.two_pow_pos _)
    · intro fits
      rw [Nat.mod_eq_of_lt fits, bytes_eq]

theorem varInt_one_to_one_256 :
    (∃ bytes, writeVarInt (256 : BitVec (8 * 4)) = some bytes ∧
      Reads (readVarInt 4) bytes 256 ∧ bytes.length = getSizeOfVarInt (256 : BitVec (8 * 4)) ∧
        bytes.length ≤ (4 * 8 + 6) / 7) ∧
    writeVarInt (256 : BitVec (8 * 4)) = some [0x81, 0x00] :=
  ⟨(varInt_one_to_one_iff (by decide)).1 256,
    ((varInt_one_to_one_iff (by decide)).2 [0x81, 0x00] [] 256 (by decide)).mpr (by decide)⟩

/-- The five bytes of `2 ^ 32` are read as zero into a word of 32 bits. -/
theorem zero_read_twice :
    ¬ ∀ consumed rest (n : BitVec (8 * 4)),
      (readVarInt 4).run (consumed ++ rest) = some (n, rest) → writeVarInt n = some consumed := by
  intro unique
  have written := unique [0x8E, 0xFE, 0xFE, 0xFF, 0x00] [] 0 (by decide)
  rw [writeVarInt_eq (by decide)] at written
  revert written
  decide

end VarInt

end CentNode
