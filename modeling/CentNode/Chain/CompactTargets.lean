import CentNode.Chain.NextWork
import CentNode.Primitives.BaseUint
import Mathlib.Data.Nat.Digits.Defs

/-!
# Compact targets

`SetCompact` and `GetCompact` on the words of a `uint256`, against the numbers
that the rest of the development computes with.
-/

namespace CentNode

open BitVec

namespace BaseUint

/-- `SetCompact`: the number, and whether it is negative or too large. -/
def setCompact (nCompact : BitVec 32) : BaseUint 8 × Bool × Bool :=
  let nSize := (nCompact >>> 24).toNat
  let nWord := nCompact &&& 0x007fffff
  let nWord := if nSize ≤ 3 then nWord >>> (8 * (3 - nSize)) else nWord
  let value := if nSize ≤ 3 then ofWord64 (nWord.setWidth 64)
    else (ofWord64 (nWord.setWidth 64)).shiftLeft (8 * (nSize - 3))
  (value, nWord ≠ 0 && nCompact &&& 0x00800000 ≠ 0,
    nWord ≠ 0 && (34 < nSize || (0xff < nWord.toNat && 33 < nSize) ||
      (0xffff < nWord.toNat && 32 < nSize)))

/-- The leading bytes of a number of `nSize` bytes. -/
def leadingWord (a : BaseUint 8) (nSize : Nat) : BitVec 32 :=
  if nSize ≤ 3 then (a.getLow64 <<< (8 * (3 - nSize))).setWidth 32
  else (a.shiftRight (8 * (nSize - 3))).getLow64.setWidth 32

/-- The rest of `GetCompact`; `none` where an assertion fails. -/
def packCompact (nCompact : BitVec 32) (nSize : Nat) (fNegative : Bool) : Option (BitVec 32) :=
  -- The 0x00800000 bit denotes the sign.
  -- Thus, if it is already set, divide the mantissa by 256 and increase the exponent.
  let signed := nCompact &&& 0x00800000 ≠ 0
  let nSize := if signed then nSize + 1 else nSize
  let nCompact := if signed then nCompact >>> 8 else nCompact
  if nCompact &&& ~~~0x007fffff ≠ 0 then none
  else if 256 ≤ nSize then none
  else
    let nCompact := nCompact ||| BitVec.ofNat 32 nSize <<< 24
    some (nCompact ||| if fNegative && nCompact &&& 0x007fffff ≠ 0 then 0x00800000 else 0)

def getCompact (a : BaseUint 8) (fNegative : Bool) : Option (BitVec 32) :=
  packCompact (a.leadingWord ((a.bits + 7) / 8)) ((a.bits + 7) / 8) fNegative

/-! ## The words against the numbers -/

theorem setCompact_eq (nCompact : BitVec 32) :
    (setCompact nCompact).1.toNat = (CentNode.setCompact nCompact.toNat).1 ∧
      (setCompact nCompact).2 = (CentNode.setCompact nCompact.toNat).2 := by
  have size_eq : (nCompact >>> 24).toNat = nCompact.toNat >>> 24 := toNat_ushiftRight ..
  have mask_eq : (nCompact &&& 0x007fffff).toNat = nCompact.toNat &&& 0x007fffff := toNat_and ..
  have word_eq : (if nCompact.toNat >>> 24 ≤ 3 then
        (nCompact &&& 0x007fffff) >>> (8 * (3 - nCompact.toNat >>> 24))
      else nCompact &&& 0x007fffff).toNat =
      if nCompact.toNat >>> 24 ≤ 3 then
        (nCompact.toNat &&& 0x007fffff) >>> (8 * (3 - nCompact.toNat >>> 24))
      else nCompact.toNat &&& 0x007fffff := by
    split
    · rw [toNat_ushiftRight, mask_eq]
    · exact mask_eq
  have zero_iff : ∀ word : BitVec 32, (word ≠ 0) = (word.toNat ≠ 0) := by
    intro word
    rw [ne_eq, toNat_eq]
    rfl
  have wide : ∀ word : BitVec 32, (word.setWidth 64).toNat = word.toNat := by
    intro word
    have small := word.isLt
    rw [toNat_setWidth]
    omega
  unfold setCompact CentNode.setCompact
  simp only [size_eq, zero_iff, word_eq, toNat_and]
  refine ⟨?_, rfl⟩
  by_cases short : nCompact.toNat >>> 24 ≤ 3
  · rw [if_pos short, if_pos short, toNat_ofWord64, wide]
    simp only [if_pos short] at word_eq ⊢
    exact word_eq
  · rw [if_neg short, if_neg short, toNat_shiftLeft, toNat_ofWord64, wide]
    simp only [if_neg short] at word_eq ⊢
    rw [word_eq, Nat.shiftLeft_eq]

/-- The number as the rest of the development has it. -/
def toUint256 (a : BaseUint 8) : Uint256 := BitVec.ofNat 256 a.toNat

variable (a : BaseUint 8)

theorem toNat_toUint256 : a.toUint256.toNat = a.toNat :=
  toNat_ofNat _ _ ▸ Nat.mod_eq_of_lt a.toNat_lt

theorem bits_toUint256 : a.toUint256.bits = a.bits := by
  have zero_iff : a.toUint256 = 0 ↔ a.toNat = 0 := by
    rw [toNat_eq, toNat_toUint256]
    rfl
  rw [bits_eq, Limbs.width, Uint256.bits, toNat_toUint256]
  simp only [zero_iff]

variable {word : BitVec 32} {nSize : Nat}

theorem mask_eq_zero (free : word.toNat < 2 ^ 23) :
    word &&& ~~~0x007fffff = 0 := by
  apply eq_of_getLsbD_eq
  intro index small
  rw [getLsbD_and, getLsbD_not, ← BitVec.testBit_toNat, ← BitVec.testBit_toNat]
  by_cases low : index < 23
  · have set : (0x007fffff : BitVec 32).toNat.testBit index = true := by
      change (2 ^ 23 - 1).testBit index = true
      rw [Nat.testBit_two_pow_sub_one, decide_eq_true low]
    rw [set]
    simp
  · have beyond : word.toNat < 2 ^ index :=
      Nat.lt_of_lt_of_le free (Nat.pow_le_pow_right (by decide) (Nat.le_of_not_lt low))
    rw [Nat.testBit_lt_two_pow beyond]
    simp

theorem toNat_pack (sized : nSize < 256) :
    (word ||| BitVec.ofNat 32 nSize <<< 24 ||| 0).toNat = word.toNat ||| nSize <<< 24 := by
  have clear : (0 : BitVec 32).toNat = 0 := rfl
  rw [toNat_or, clear, Nat.or_zero, toNat_or, BitVec.toNat_shiftLeft, toNat_ofNat, Nat.shiftLeft_eq,
    Nat.shiftLeft_eq, Nat.mod_eq_of_lt (show nSize < 2 ^ 32 by omega), Nat.mod_eq_of_lt (by omega)]

theorem toNat_leadingWord (fits : a.toNat < 2 ^ (8 * nSize)) :
    (a.leadingWord nSize).toNat = mantissa a.toNat nSize := by
  have small := @mantissa_lt a.toNat nSize 0 (Nat.zero_le _) (Nat.zero_le _) fits
  unfold mantissa at small ⊢
  unfold leadingWord
  split
  · next short =>
      rw [if_pos short] at small
      have low : a.toNat < 2 ^ 64 :=
        Nat.lt_of_lt_of_le fits (Nat.pow_le_pow_right (by decide) (by omega))
      rw [toNat_setWidth, BitVec.toNat_shiftLeft, toNat_getLow64, Nat.mod_eq_of_lt low]
      generalize a.toNat <<< (8 * (3 - nSize)) = leading at small ⊢
      omega
  · next long =>
      rw [if_neg long] at small
      rw [toNat_setWidth, toNat_getLow64, toNat_shiftRight, ← Nat.shiftRight_eq_div_pow]
      generalize a.toNat >>> (8 * (nSize - 3)) = leading at small ⊢
      omega

theorem sign_iff (word : BitVec 32) :
    word &&& 0x00800000 ≠ 0 ↔ word.toNat.testBit 23 = true := by
  rw [ne_eq, toNat_eq, toNat_and]
  change ¬word.toNat &&& 2 ^ 23 = 0 ↔ _
  rw [Nat.and_two_pow]
  cases word.toNat.testBit 23 <;> decide

/-- The assertions hold for a mantissa of three bytes. -/
theorem packCompact_eq (small : word.toNat < 2 ^ 24)
    (sized : nSize < 255) :
    ∃ nCompact, packCompact word nSize false = some nCompact ∧
      nCompact.toNat = if word.toNat.testBit 23 then word.toNat >>> 8 ||| (nSize + 1) <<< 24
        else word.toNat ||| nSize <<< 24 := by
  have fits : ∀ {size : Nat}, size < 256 → ¬256 ≤ size := Nat.not_le_of_lt
  unfold packCompact
  by_cases signed : word.toNat.testBit 23 = true
  · have cut : (word >>> 8).toNat = word.toNat >>> 8 := toNat_ushiftRight ..
    have free : (word >>> 8).toNat < 2 ^ 23 := cut ▸ shiftRight_lt_of_lt small
    have set := (sign_iff word).mpr signed
    simp only [set, signed, if_true, mask_eq_zero free, ne_eq, not_true_eq_false, if_false,
      fits (show nSize + 1 < 256 by omega), not_false_eq_true]
    refine ⟨_, rfl, ?_⟩
    simp only [Bool.false_and, Bool.false_eq_true, if_false]
    rw [← cut]
    exact toNat_pack (by omega)
  · have free : word.toNat < 2 ^ 23 := lt_of_testBit_eq_false small signed
    have clear : word &&& 0x00800000 = 0 := not_not.mp (mt (sign_iff word).mp signed)
    simp only [clear, signed, if_false, mask_eq_zero free, ne_eq, not_true_eq_false,
      fits (show nSize < 256 by omega)]
    refine ⟨_, rfl, ?_⟩
    simp only [Bool.false_and, Bool.false_eq_true, if_false]
    exact toNat_pack (by omega)

/-- `GetCompact` computes on the words what the numbers say. -/
theorem getCompact_eq :
    ∃ nCompact, a.getCompact false = some nCompact ∧
      nCompact.toNat = a.toUint256.getCompact := by
  have covered : a.toNat < 2 ^ (8 * ((a.bits + 7) / 8)) := by
    have most := Limbs.lt_two_pow_width a.toNat
    rw [← bits_eq] at most
    exact Nat.lt_of_lt_of_le most (Nat.pow_le_pow_right (by decide) (by omega))
  have short : a.bits ≤ 256 := by
    rw [bits_eq]
    exact Limbs.width_le_of_lt a.toNat_lt
  have leading := a.toNat_leadingWord covered
  have small := @mantissa_lt _ _ 0 (Nat.zero_le _) (Nat.zero_le _) covered
  obtain ⟨nCompact, packed, value⟩ :=
    @packCompact_eq (a.leadingWord ((a.bits + 7) / 8)) ((a.bits + 7) / 8)
      (leading ▸ small) (by omega)
  refine ⟨nCompact, packed, value.trans ?_⟩
  rw [leading]
  unfold Uint256.getCompact mantissa
  rw [bits_toUint256, toNat_toUint256]

end BaseUint

/-! ## The number of a compact form -/

/-- `⌊m · 256 ^ (e - 3)⌋` for the mantissa `m` and the exponent `e`. -/
def compactValue (nCompact : Nat) : Nat :=
  let mantissa := nCompact &&& 0x007fffff
  let exponent := nCompact >>> 24
  if 3 ≤ exponent then mantissa * 256 ^ (exponent - 3) else mantissa / 256 ^ (3 - exponent)

theorem mantissa_lt_two_pow (nCompact : Nat) : nCompact &&& 0x007fffff < 2 ^ 23 :=
  Nat.lt_succ_of_le Nat.and_le_right

theorem two_pow_eight_mul (count : Nat) : 2 ^ (8 * count) = 256 ^ count := Nat.pow_mul ..

/-- The flag for a mantissa that is shifted up tells whether it leaves 32 bytes. -/
theorem overflow_iff {word nSize : Nat} (small : word < 2 ^ 23) (long : 3 < nSize) :
    (word ≠ 0 ∧ ((34 < nSize ∨ (0xff < word ∧ 33 < nSize)) ∨ (0xffff < word ∧ 32 < nSize))) ↔
      2 ^ 256 ≤ word * 2 ^ (8 * (nSize - 3)) := by
  by_cases fits : nSize ≤ 32
  · have below : word * 2 ^ (8 * (nSize - 3)) < 2 ^ 256 := by
      calc
        word * 2 ^ (8 * (nSize - 3)) < 2 ^ 23 * 2 ^ (8 * (nSize - 3)) :=
          Nat.mul_lt_mul_of_pos_right small (Nat.two_pow_pos _)
        _ = 2 ^ (23 + 8 * (nSize - 3)) := (Nat.pow_add ..).symm
        _ ≤ 2 ^ 256 := Nat.pow_le_pow_right Nat.two_pos (by omega)
    exact iff_of_false (by omega) (Nat.not_le_of_lt below)
  by_cases large : 34 < nSize
  · have power : 2 ^ (8 * (nSize - 3)) = 2 ^ 256 * 2 ^ (8 * (nSize - 35)) := by
      rw [← Nat.pow_add]
      congr 1
      omega
    rw [power]
    constructor
    · rintro ⟨nonzero, _⟩
      have one : 1 ≤ word * 2 ^ (8 * (nSize - 35)) :=
        Nat.mul_pos (Nat.pos_of_ne_zero nonzero) (Nat.two_pow_pos _)
      calc
        2 ^ 256 = 2 ^ 256 * 1 := (Nat.mul_one _).symm
        _ ≤ 2 ^ 256 * (word * 2 ^ (8 * (nSize - 35))) := Nat.mul_le_mul_left _ one
        _ = word * (2 ^ 256 * 2 ^ (8 * (nSize - 35))) := Nat.mul_left_comm ..
    · intro beyond
      refine ⟨?_, .inl (.inl large)⟩
      rintro rfl
      rw [Nat.zero_mul] at beyond
      exact absurd beyond (by decide)
  · obtain size | size : nSize = 33 ∨ nSize = 34 := by omega
    · rw [size]
      omega
    · rw [size]
      omega

theorem setCompact_overflow_iff (nCompact : Nat) :
    (setCompact nCompact).2.2 = true ↔ 2 ^ 256 ≤ compactValue nCompact := by
  have small := mantissa_lt_two_pow nCompact
  unfold setCompact compactValue
  generalize nCompact &&& 0x007fffff = word at small
  generalize nCompact >>> 24 = nSize
  simp only [Bool.and_eq_true, Bool.or_eq_true, decide_eq_true_eq, ← two_pow_eight_mul]
  by_cases long : 3 < nSize
  · rw [if_neg (Nat.not_le_of_lt long), if_pos (Nat.le_of_lt long), ← overflow_iff small long]
  · have bound : (if 3 ≤ nSize then word * 2 ^ (8 * (nSize - 3))
        else word / 2 ^ (8 * (3 - nSize))) ≤ word := by
      split
      · next exact_ =>
          have three : nSize - 3 = 0 := by omega
          rw [three, Nat.mul_zero, Nat.pow_zero, Nat.mul_one]
      · exact Nat.div_le_self _ _
    refine iff_of_false (fun flagged => ?_) (fun large => ?_)
    · omega
    · have beyond := Nat.le_trans large bound
      omega

theorem setCompact_exact {nCompact : Nat} (fits : (setCompact nCompact).2.2 = false) :
    (setCompact nCompact).1 = compactValue nCompact := by
  have below : compactValue nCompact < 2 ^ 256 := by
    apply Nat.lt_of_not_le
    rw [← setCompact_overflow_iff, fits]
    exact Bool.false_ne_true
  unfold setCompact compactValue at *
  generalize nCompact &&& 0x007fffff = word at *
  generalize nCompact >>> 24 = nSize at *
  simp only [← two_pow_eight_mul] at below ⊢
  by_cases long : 3 < nSize
  · rw [if_pos (Nat.le_of_lt long)] at below ⊢
    rw [if_neg (Nat.not_le_of_lt long), if_neg (Nat.not_le_of_lt long), Nat.shiftLeft_eq,
      Nat.mod_eq_of_lt below]
  · rw [if_pos (Nat.le_of_not_lt long), if_pos (Nat.le_of_not_lt long), Nat.shiftRight_eq_div_pow]
    by_cases three : 3 ≤ nSize
    · have size : nSize = 3 := by omega
      rw [size]
      simp
    · rw [if_neg three]

/-! ## The rounding of a target -/

open RoundDown

/-- `GetCompact` keeps all but the lowest bytes. -/
theorem sub_compactTarget_lt (target : Nat) :
    target - compactTarget target < 2 ^ compactPlace target.log2 := by
  have split := Nat.div_add_mod target (2 ^ compactPlace target.log2)
  have low := Nat.mod_lt target (Nat.two_pow_pos (compactPlace target.log2))
  rw [Nat.mul_comm] at split
  unfold compactTarget roundDown
  omega

theorem log2_compactTarget {target : Nat} (nonzero : target ≠ 0) :
    (compactTarget target).log2 = target.log2 := by
  have first := two_pow_log2_le_roundDown compactPlace_le nonzero
  have positive := compactTarget_pos (Nat.pos_of_ne_zero nonzero)
  rw [Nat.log2_eq_iff (Nat.pos_iff_ne_zero.mp positive)]
  exact ⟨first, Nat.lt_of_le_of_lt (compactTarget_le target) Nat.lt_log2_self⟩

theorem mantissa_compactTarget (target : Nat) :
    mantissa (compactTarget target) ((target.log2 + 1) / 8 + 1) =
      mantissa target ((target.log2 + 1) / 8 + 1) := by
  unfold mantissa compactTarget roundDown compactPlace
  split
  · next few =>
      have nothing : 8 * ((target.log2 + 1) / 8) - 16 = 0 := by omega
      rw [nothing, Nat.pow_zero, Nat.div_one, Nat.mul_one]
  · next many =>
      have place : 8 * ((target.log2 + 1) / 8 + 1 - 3) = 8 * ((target.log2 + 1) / 8) - 16 := by
        omega
      rw [place, Nat.shiftRight_eq_div_pow, Nat.shiftRight_eq_div_pow,
        Nat.mul_div_cancel _ (Nat.two_pow_pos _)]

theorem mantissa_mono {target other : Nat} (less : target ≤ other) (nSize : Nat) :
    mantissa target nSize ≤ mantissa other nSize := by
  unfold mantissa
  split
  · rw [Nat.shiftLeft_eq, Nat.shiftLeft_eq]
    exact Nat.mul_le_mul_right _ less
  · rw [Nat.shiftRight_eq_div_pow, Nat.shiftRight_eq_div_pow]
    exact Nat.div_le_div_right less

namespace Uint256

theorem bits_eq_log2 {value : Uint256} (nonzero : value ≠ 0) : value.bits = value.toNat.log2 + 1 := by
  rw [bits, if_neg nonzero]

theorem getCompact_mono {value other : Uint256} (less : value.toNat ≤ other.toNat) :
    value.getCompact ≤ other.getCompact := by
  by_cases zero : value = 0
  · rw [zero]
    exact Nat.zero_le _
  have nonzero : value.toNat ≠ 0 := fun same => zero (eq_of_toNat_eq same)
  have zeroToo : other ≠ 0 := by
    rintro rfl
    exact nonzero (Nat.le_zero.mp less)
  obtain ⟨packed, small⟩ := CentNode.getCompact_eq zero
  obtain ⟨packedToo, smallToo⟩ := CentNode.getCompact_eq zeroToo
  have longer : value.bits ≤ other.bits := by
    rw [bits_eq_log2 zero, bits_eq_log2 zeroToo]
    apply Nat.succ_le_succ
    rw [Nat.le_log2 (by omega)]
    exact Nat.le_trans (Nat.log2_self_le nonzero) less
  rw [packed, packedToo, packed_eq small, packed_eq smallToo]
  have coarse : value.bits / 8 ≤ other.bits / 8 := Nat.div_le_div_right longer
  obtain same | more := Nat.eq_or_lt_of_le coarse
  · rw [same]
    exact Nat.add_le_add_left (mantissa_mono less _) _
  · omega

theorem getCompact_eq_of_toNat {value rounded : Uint256}
    (told : rounded.toNat = compactTarget value.toNat) : rounded.getCompact = value.getCompact := by
  by_cases zero : value = 0
  · have none_ : rounded = 0 := by
      apply eq_of_toNat_eq
      rw [told, zero]
      rfl
    rw [none_, zero]
  have nonzero : value.toNat ≠ 0 := fun same => zero (eq_of_toNat_eq same)
  have positive := compactTarget_pos (Nat.pos_of_ne_zero nonzero)
  have zeroToo : rounded ≠ 0 := by
    rintro rfl
    rw [← told] at positive
    exact absurd positive (Nat.lt_irrefl 0)
  have length : rounded.bits = value.bits := by
    rw [bits_eq_log2 zero, bits_eq_log2 zeroToo, told, log2_compactTarget nonzero]
  rw [(CentNode.getCompact_eq zero).1, (CentNode.getCompact_eq zeroToo).1, length, told,
    bits_eq_log2 zero, mantissa_compactTarget]

end Uint256

namespace BaseUint

theorem sub_compactTarget_bounds (target : Nat) :
    ((Nat.digits 256 target).length ≤ 2 → compactTarget target = target) ∧
      (2 < (Nat.digits 256 target).length →
        target - compactTarget target < 256 ^ ((Nat.digits 256 target).length - 2)) := by
  by_cases zero : target = 0
  · rw [zero]
    exact ⟨fun _ => rfl, fun many => absurd many (by decide)⟩
  have most : target < 2 ^ (8 * (Nat.digits 256 target).length) := by
    rw [two_pow_eight_mul]
    exact Nat.lt_base_pow_length_digits (by decide)
  have length := (Nat.log2_lt zero).mpr most
  have lost := sub_compactTarget_lt target
  have less := compactTarget_le target
  generalize (Nat.digits 256 target).length = bytes at *
  constructor
  · intro few
    have place : compactPlace target.log2 = 0 := by
      unfold compactPlace
      omega
    rw [place] at lost
    omega
  · intro _
    rw [← two_pow_eight_mul]
    refine Nat.lt_of_lt_of_le lost (Nat.pow_le_pow_right Nat.two_pos ?_)
    unfold compactPlace
    omega

theorem setCompact_getCompact {x : BaseUint 8} {nCompact : BitVec 32}
    (packed : x.getCompact false = some nCompact) :
    (setCompact nCompact).1.toNat = compactTarget x.toNat ∧
      (setCompact nCompact).2 = (false, false) := by
  obtain ⟨other, packedToo, value⟩ := x.getCompact_eq
  cases packed.symm.trans packedToo
  have decoded := CentNode.setCompact_getCompact x.toUint256
  obtain ⟨number, flags⟩ := setCompact_eq nCompact
  rw [number, flags, value, decoded, toNat_toUint256]
  exact ⟨rfl, rfl⟩

/-- `SetCompact` is exact up to the overflow it reports, and `GetCompact` rounds
down to what the next `GetCompact` keeps. -/
theorem compact_exact :
    (∀ nCompact : BitVec 32,
      ((setCompact nCompact).2.2 = true ↔ 2 ^ 256 ≤ compactValue nCompact.toNat) ∧
      ((setCompact nCompact).2.2 = false →
        (setCompact nCompact).1.toNat = compactValue nCompact.toNat)) ∧
    (∀ x : BaseUint 8, ∃ nCompact, x.getCompact false = some nCompact ∧
      (setCompact nCompact).1.toNat ≤ x.toNat ∧
      ((Nat.digits 256 x.toNat).length ≤ 2 → (setCompact nCompact).1.toNat = x.toNat) ∧
      (2 < (Nat.digits 256 x.toNat).length →
        x.toNat - (setCompact nCompact).1.toNat < 256 ^ ((Nat.digits 256 x.toNat).length - 2)) ∧
      (setCompact nCompact).2 = (false, false) ∧
      (setCompact nCompact).1.getCompact false = some nCompact) ∧
    ∀ x y : BaseUint 8, x.toNat ≤ y.toNat → ∀ nCompact nCompactToo : BitVec 32,
      x.getCompact false = some nCompact → y.getCompact false = some nCompactToo →
        nCompact.toNat ≤ nCompactToo.toNat := by
  refine ⟨fun nCompact => ?decode, fun x => ?encode, fun x y less nCompact nCompactToo => ?order⟩
  case decode =>
    obtain ⟨number, flags⟩ := setCompact_eq nCompact
    rw [number, flags]
    exact ⟨setCompact_overflow_iff nCompact.toNat, setCompact_exact⟩
  case encode =>
    obtain ⟨nCompact, packed, value⟩ := x.getCompact_eq
    obtain ⟨number, flags⟩ := setCompact_getCompact packed
    obtain ⟨again, packedAgain, valueAgain⟩ := (setCompact nCompact).1.getCompact_eq
    have same : again = nCompact := by
      apply eq_of_toNat_eq
      rw [valueAgain, value]
      apply Uint256.getCompact_eq_of_toNat
      rw [toNat_toUint256, toNat_toUint256, number]
    obtain ⟨short, long⟩ := sub_compactTarget_bounds x.toNat
    refine ⟨nCompact, packed, ?_, ?_, ?_, flags, packedAgain.trans (congrArg some same)⟩
    · rw [number]
      exact compactTarget_le x.toNat
    · rw [number]
      exact short
    · rw [number]
      exact long
  case order =>
    intro packed packedToo
    obtain ⟨first, encoded, value⟩ := x.getCompact_eq
    obtain ⟨second, encodedToo, valueToo⟩ := y.getCompact_eq
    cases packed.symm.trans encoded
    cases packedToo.symm.trans encodedToo
    rw [value, valueToo]
    apply Uint256.getCompact_mono
    rw [toNat_toUint256, toNat_toUint256]
    exact less

end BaseUint

end CentNode
