import CentNode.Library.Limbs

/-!
# Big integers

`base_uint`: an unsigned number in `WIDTH` words of 32 bits, the lowest first.
Each operator works on the words as the source does; what it computes is a
number modulo the power of two that the words hold.
-/

namespace CentNode

open List Limbs

structure BaseUint (WIDTH : Nat) where
  pn : List (BitVec 32)
  size : pn.length = WIDTH

namespace BaseUint

variable {WIDTH : Nat}

def toNat (a : BaseUint WIDTH) : Nat := Limbs.value a.pn

/-- The word at an index, zero past the end. -/
def word (a : BaseUint WIDTH) (index : Nat) : BitVec 32 := a.pn[index]?.getD 0

/-- All words zero, as the default constructor leaves them. -/
def zero : BaseUint WIDTH := ⟨List.replicate WIDTH 0, List.length_replicate⟩

/-- `operator=(uint64_t)`: the two lowest words. -/
def ofWord64 (b : BitVec 64) : BaseUint WIDTH :=
  ⟨(b.setWidth 32 :: (b >>> 32).setWidth 32 :: List.replicate WIDTH 0).take WIDTH, by
    rw [List.length_take, List.length_cons, List.length_cons, List.length_replicate]
    omega⟩

/-- `pn[index] |= part`, one after the other. -/
def orParts (pn : List (BitVec 32)) (parts : List (Nat × BitVec 32)) : List (BitVec 32) :=
  parts.foldl (fun pn part => pn.modify part.1 (· ||| part.2)) pn

variable (pn : List (BitVec 32)) (parts : List (Nat × BitVec 32))

theorem length_orParts : (orParts pn parts).length = pn.length := by
  induction parts generalizing pn with
  | nil => rfl
  | cons part rest ih => exact (ih _).trans (length_modify _ _ _)

/-- `operator<<=`. -/
def shiftLeft (a : BaseUint WIDTH) (shift : Nat) : BaseUint WIDTH :=
  let k := shift / 32
  let bits := shift % 32
  ⟨orParts (List.replicate WIDTH 0) ((List.range WIDTH).flatMap fun i =>
      (if i + k + 1 < WIDTH ∧ bits ≠ 0 then [(i + k + 1, a.word i >>> (32 - bits))] else []) ++
        if i + k < WIDTH then [(i + k, a.word i <<< bits)] else []),
    (length_orParts _ _).trans List.length_replicate⟩

/-- `operator>>=`. -/
def shiftRight (a : BaseUint WIDTH) (shift : Nat) : BaseUint WIDTH :=
  let k := shift / 32
  let bits := shift % 32
  ⟨orParts (List.replicate WIDTH 0) ((List.range WIDTH).flatMap fun i =>
      (if k + 1 ≤ i ∧ bits ≠ 0 then [(i - k - 1, a.word i <<< (32 - bits))] else []) ++
        if k ≤ i then [(i - k, a.word i >>> bits)] else []),
    (length_orParts _ _).trans List.length_replicate⟩

/-- `operator~`. -/
def complement (a : BaseUint WIDTH) : BaseUint WIDTH :=
  ⟨a.pn.map fun word => ~~~word, (List.length_map _).trans a.size⟩

/-- The prefix `operator++`. -/
def increment (a : BaseUint WIDTH) : BaseUint WIDTH :=
  ⟨Limbs.increment a.pn, (Limbs.length_increment a.pn).trans a.size⟩

/-- The unary `operator-`. -/
def negate (a : BaseUint WIDTH) : BaseUint WIDTH := a.complement.increment

/-- `operator+=`. -/
def add (a b : BaseUint WIDTH) : BaseUint WIDTH :=
  ⟨Limbs.addCarry 0 a.pn b.pn, (Limbs.length_addCarry (a.size.trans b.size.symm) 0).trans a.size⟩

/-- `operator-=`. -/
def subtract (a b : BaseUint WIDTH) : BaseUint WIDTH := a.add b.negate

/-- `operator*=(uint32_t)`. -/
def mulWord (a : BaseUint WIDTH) (b32 : BitVec 32) : BaseUint WIDTH :=
  ⟨Limbs.mulCarry b32 0 a.pn, (Limbs.length_mulCarry a.pn b32 0).trans a.size⟩

/-- The operand of an operator that works in place: another object, or the number itself. -/
inductive Operand (WIDTH : Nat) where
  | other (b : BaseUint WIDTH)
  | self

/-- `b.pn[i]` while the words of the number stand at `pn`. -/
def Operand.word (pn : List (BitVec 32)) (i : Nat) : Operand WIDTH → BitVec 32
  | other b => b.word i
  | self => pn[i]?.getD 0

/-- The operand as it stands before the operator. -/
def Operand.before (a : BaseUint WIDTH) : Operand WIDTH → BaseUint WIDTH
  | other b => b
  | self => a

/-- The body of the inner loop of `operator*=`, on the words and the carry. -/
def mulStep (b : Operand WIDTH) (factor : BitVec 32) (j : Nat)
    (state : List (BitVec 32) × Nat) (i : Nat) : List (BitVec 32) × Nat :=
  let n := (state.2 + (state.1[i + j]?.getD 0).toNat +
    factor.toNat * (b.word state.1 i).toNat) % 2 ^ 64
  (state.1.set (i + j) (BitVec.ofNat 32 n), n / 2 ^ 32)

/-- The inner loop of `operator*=`, up to an index. -/
def mulRow (b : Operand WIDTH) (factor : BitVec 32) (j : Nat) (pn : List (BitVec 32))
    (count : Nat) : List (BitVec 32) × Nat :=
  (List.range count).foldl (mulStep b factor j) (pn, 0)

theorem length_mulRow (b : Operand WIDTH) (factor : BitVec 32) (j : Nat) (count : Nat) :
    (mulRow b factor j pn count).1.length = pn.length := by
  induction count with
  | zero => rfl
  | succ count ih =>
    rw [mulRow, range_succ, foldl_append]
    exact (length_set ..).trans ih

/-- The outer loop of `operator*=`, up to an index: the words are set to zero before the operand
is read. -/
def mulRows (a : BaseUint WIDTH) (b : Operand WIDTH) (count : Nat) : List (BitVec 32) :=
  (List.range count).foldl (fun pn j => (mulRow b (a.word j) j pn (WIDTH - j)).1)
    (List.replicate WIDTH 0)

theorem length_mulRows (a : BaseUint WIDTH) (b : Operand WIDTH) (count : Nat) :
    (mulRows a b count).length = WIDTH := by
  induction count with
  | zero => exact length_replicate
  | succ count ih =>
    rw [mulRows, range_succ, foldl_append]
    exact (length_mulRow _ b _ _ _).trans ih

/-- `operator*=`. -/
def mul (a : BaseUint WIDTH) (b : Operand WIDTH) : BaseUint WIDTH :=
  ⟨mulRows a b WIDTH, length_mulRows a b WIDTH⟩

def compareTo (a b : BaseUint WIDTH) : Int :=
  match Limbs.order a.pn b.pn with
  | .lt => -1
  | .gt => 1
  | .eq => 0

def equalTo (a : BaseUint WIDTH) (b : BitVec 64) : Bool :=
  ((a.pn.drop 2).all fun word => word = 0) && a.word 1 = (b >>> 32).setWidth 32 &&
    a.word 0 = b.setWidth 32

/-- The inner loop of `bits`, from a bit down. -/
def topBit (word : BitVec 32) : Nat → Nat
  | 0 => 1
  | bits + 1 => if word.getLsbD (bits + 1) then bits + 1 + 1 else topBit word bits

/-- The loop of `bits`: the words above come first. -/
def bitsOf : List (BitVec 32) → Nat
  | [] => 0
  | word :: rest =>
    let above := bitsOf rest
    if above ≠ 0 then 32 + above else if word ≠ 0 then topBit word 31 else 0

def bits (a : BaseUint WIDTH) : Nat := bitsOf a.pn

def getLow64 (a : BaseUint WIDTH) : BitVec 64 :=
  (a.word 0).setWidth 64 ||| (a.word 1).setWidth 64 <<< 32

/-- `pn[shift / 32] |= (1 << (shift & 31))`. -/
def setBit (a : BaseUint WIDTH) (shift : Nat) : BaseUint WIDTH :=
  ⟨orParts a.pn [(shift / 32, (1 : BitVec 32) <<< (shift % 32))], (length_orParts _ _).trans a.size⟩

/-- The loop of `operator/=`, which counts `shift` down to zero. -/
def divideLoop : Nat → BaseUint WIDTH → BaseUint WIDTH → BaseUint WIDTH → BaseUint WIDTH
  | 0, _, _, quotient => quotient
  | shift + 1, num, div, quotient =>
    if 0 ≤ num.compareTo div then
      divideLoop shift (num.subtract div) (div.shiftRight 1) (quotient.setBit shift)
    else divideLoop shift num (div.shiftRight 1) quotient

/-- `operator/=`; `none` where it throws. -/
def divide (a b : BaseUint WIDTH) : Option (BaseUint WIDTH) :=
  if b.bits = 0 then none
  else if a.bits < b.bits then some zero -- the result is certainly 0.
  else
    let shift := a.bits - b.bits
    some (divideLoop (shift + 1) a (b.shiftLeft shift) zero)

/-! ## What the operators compute -/

variable (a : BaseUint WIDTH)

theorem toNat_lt : a.toNat < 2 ^ (32 * WIDTH) := by
  have small := value_lt a.pn
  rwa [a.size] at small

theorem toNat_zero : (zero : BaseUint WIDTH).toNat = 0 := value_replicate_zero WIDTH

theorem testBit_toNat (index : Nat) :
    a.toNat.testBit index = (a.word (index / 32)).getLsbD (index % 32) :=
  testBit_value (by decide) a.pn index

theorem getLsbD_word {index bit : Nat} (small : bit < 32) :
    (a.word index).getLsbD bit = a.toNat.testBit (32 * index + bit) := by
  rw [testBit_toNat, Nat.mul_add_div (by decide), Nat.div_eq_of_lt small, Nat.mul_add_mod,
    Nat.mod_eq_of_lt small, Nat.add_zero]

theorem toNat_eq_of_bits {number : Nat} (fits : number < 2 ^ (32 * WIDTH))
    (bits : ∀ {index bit : Nat}, index < WIDTH → bit < 32 →
      (a.word index).getLsbD bit = number.testBit (32 * index + bit)) : a.toNat = number :=
  value_eq_of_bits (by decide) (by rwa [a.size]) fun inside small =>
    bits (a.size ▸ inside) small

theorem getLsbD_orParts {index : Nat} (inside : index < pn.length) (bit : Nat) :
    ((orParts pn parts)[index]?.getD 0).getLsbD bit = true ↔
      (pn[index]?.getD 0).getLsbD bit = true ∨
        ∃ part ∈ parts, part.1 = index ∧ part.2.getLsbD bit = true := by
  induction parts generalizing pn with
  | nil => simp [orParts]
  | cons part rest ih =>
    have next : orParts pn (part :: rest) = orParts (pn.modify part.1 (· ||| part.2)) rest := rfl
    have here : ((pn.modify part.1 (· ||| part.2))[index]?.getD 0).getLsbD bit = true ↔
        (pn[index]?.getD 0).getLsbD bit = true ∨
          part.1 = index ∧ part.2.getLsbD bit = true := by
      rw [getElem?_modify, getElem?_eq_getElem inside]
      by_cases same : part.1 = index
      · simp [same]
      · simp [same]
    rw [next, ih _ (by rwa [length_modify]), here, or_assoc]
    simp only [mem_cons, exists_eq_or_imp]

theorem getLsbD_zeros (index bit : Nat) :
    ((List.replicate WIDTH (0 : BitVec 32))[index]?.getD 0).getLsbD bit = false := by
  rw [getElem?_replicate]
  split <;> simp

theorem testBit_low (index : Nat) {shift bit : Nat} (small : bit < 32) :
    (a.word index <<< shift).getLsbD bit = true ↔
      shift ≤ bit ∧ a.toNat.testBit (32 * index + (bit - shift)) = true := by
  rw [← getLsbD_word a (by omega), BitVec.getLsbD_shiftLeft]
  simp [small]

theorem testBit_high (index shift bit : Nat) : (a.word index >>> shift).getLsbD bit = true ↔
    shift + bit < 32 ∧ a.toNat.testBit (32 * index + (shift + bit)) = true := by
  rw [BitVec.getLsbD_ushiftRight]
  by_cases few : shift + bit < 32
  · rw [getLsbD_word a few, and_iff_right few]
  · rw [BitVec.getLsbD_of_ge _ _ (Nat.le_of_not_lt few)]
    simp [few]

theorem toNat_shiftLeft (shift : Nat) :
    (a.shiftLeft shift).toNat = a.toNat * 2 ^ shift % 2 ^ (32 * WIDTH) := by
  have whole : shift = 32 * (shift / 32) + shift % 32 := (Nat.div_add_mod shift 32).symm
  apply toNat_eq_of_bits _ (Nat.mod_lt _ (Nat.two_pow_pos _))
  intro index bit inside small
  have within : 32 * index + bit < 32 * WIDTH := by omega
  have length : (replicate WIDTH (0 : BitVec 32)).length = WIDTH := length_replicate
  rw [Nat.testBit_mod_two_pow, Nat.testBit_mul_two_pow, decide_eq_true within, Bool.true_and,
    Bool.eq_iff_iff]
  unfold word shiftLeft
  rw [getLsbD_orParts _ _ (by rwa [length]), getLsbD_zeros, Bool.and_eq_true, decide_eq_true_eq]
  simp only [Bool.false_eq_true, false_or, mem_flatMap, mem_range, mem_append, mem_ite_nil_right,
    mem_singleton]
  constructor
  · rintro ⟨_, ⟨i, low, ⟨free, rfl⟩ | ⟨free, rfl⟩⟩, same, set⟩
    · obtain ⟨few, set⟩ := (a.testBit_high i _ bit).mp set
      have place : 32 * index + bit - shift = 32 * i + (32 - shift % 32 + bit) := by omega
      exact ⟨by omega, place ▸ set⟩
    · obtain ⟨above, set⟩ := (a.testBit_low i small).mp set
      have place : 32 * index + bit - shift = 32 * i + (bit - shift % 32) := by omega
      exact ⟨by omega, place ▸ set⟩
  · rintro ⟨low, set⟩
    by_cases same : shift % 32 ≤ bit
    · have place : 32 * index + bit - shift = 32 * (index - shift / 32) + (bit - shift % 32) := by
        omega
      exact ⟨_, ⟨index - shift / 32, by omega, .inr ⟨by omega, rfl⟩⟩, by omega,
        (a.testBit_low _ small).mpr ⟨same, place ▸ set⟩⟩
    · have place : 32 * index + bit - shift =
          32 * (index - shift / 32 - 1) + (32 - shift % 32 + bit) := by omega
      exact ⟨_, ⟨index - shift / 32 - 1, by omega, .inl ⟨⟨by omega, by omega⟩, rfl⟩⟩, by omega,
        (a.testBit_high _ _ bit).mpr ⟨by omega, place ▸ set⟩⟩

theorem toNat_shiftRight (shift : Nat) : (a.shiftRight shift).toNat = a.toNat / 2 ^ shift := by
  have whole : shift = 32 * (shift / 32) + shift % 32 := (Nat.div_add_mod shift 32).symm
  apply toNat_eq_of_bits _ (Nat.lt_of_le_of_lt (Nat.div_le_self _ _) a.toNat_lt)
  intro index bit inside small
  have length : (replicate WIDTH (0 : BitVec 32)).length = WIDTH := length_replicate
  rw [Nat.testBit_div_two_pow, Bool.eq_iff_iff]
  unfold word shiftRight
  rw [getLsbD_orParts _ _ (by rwa [length]), getLsbD_zeros]
  simp only [Bool.false_eq_true, false_or, mem_flatMap, mem_range, mem_append, mem_ite_nil_right,
    mem_singleton]
  constructor
  · rintro ⟨_, ⟨i, low, ⟨free, rfl⟩ | ⟨free, rfl⟩⟩, same, set⟩
    · obtain ⟨above, set⟩ := (a.testBit_low i small).mp set
      have place : 32 * index + bit + shift = 32 * i + (bit - (32 - shift % 32)) := by omega
      exact place ▸ set
    · obtain ⟨few, set⟩ := (a.testBit_high i _ bit).mp set
      have place : 32 * index + bit + shift = 32 * i + (shift % 32 + bit) := by omega
      exact place ▸ set
  · intro set
    have held : 32 * index + bit + shift < 32 * WIDTH := by
      by_contra beyond
      have limit := Nat.pow_le_pow_right Nat.two_pos (Nat.le_of_not_lt beyond)
      rw [Nat.testBit_lt_two_pow (Nat.lt_of_lt_of_le a.toNat_lt limit)] at set
      cases set
    by_cases same : shift % 32 + bit < 32
    · have place : 32 * index + bit + shift = 32 * (index + shift / 32) + (shift % 32 + bit) := by
        omega
      exact ⟨_, ⟨index + shift / 32, by omega, .inr ⟨by omega, rfl⟩⟩, by omega,
        (a.testBit_high _ _ bit).mpr ⟨same, place ▸ set⟩⟩
    · have place : 32 * index + bit + shift =
          32 * (index + shift / 32 + 1) + (bit - (32 - shift % 32)) := by omega
      exact ⟨_, ⟨index + shift / 32 + 1, by omega, .inl ⟨by omega, rfl⟩⟩, by omega,
        (a.testBit_low _ small).mpr ⟨by omega, place ▸ set⟩⟩

theorem toNat_complement : a.complement.toNat + a.toNat + 1 = 2 ^ (32 * WIDTH) := by
  have sum := value_complement a.pn
  rwa [a.size] at sum

theorem toNat_increment : a.increment.toNat = (a.toNat + 1) % 2 ^ (32 * WIDTH) := by
  have next := value_increment a.pn
  rwa [a.size] at next

theorem toNat_negate : a.negate.toNat = (2 ^ (32 * WIDTH) - a.toNat) % 2 ^ (32 * WIDTH) := by
  have whole := a.toNat_complement
  rw [negate, toNat_increment]
  congr 1
  omega

theorem toNat_add (b : BaseUint WIDTH) :
    (a.add b).toNat = (a.toNat + b.toNat) % 2 ^ (32 * WIDTH) := by
  have sum := value_addCarry (a.size.trans b.size.symm) 0
  rwa [a.size, Nat.zero_add] at sum

theorem toNat_subtract {a b : BaseUint WIDTH} (less : b.toNat ≤ a.toNat) :
    (a.subtract b).toNat = a.toNat - b.toNat := by
  have small := a.toNat_lt
  have whole : a.toNat + (2 ^ (32 * WIDTH) - b.toNat) =
      a.toNat - b.toNat + 2 ^ (32 * WIDTH) := by
    have smallToo := b.toNat_lt
    omega
  rw [subtract, toNat_add, toNat_negate, Nat.add_mod_mod, whole, Nat.add_mod_right]
  exact Nat.mod_eq_of_lt (by omega)

theorem compareTo_nonneg_iff (b : BaseUint WIDTH) : 0 ≤ a.compareTo b ↔ b.toNat ≤ a.toNat := by
  have order := order_eq (a.size.trans b.size.symm)
  obtain less | same | more := Nat.lt_trichotomy a.toNat b.toNat
  · rw [compareTo, order.trans (Nat.compare_eq_lt.mpr less)]
    exact iff_of_false (by decide) (Nat.not_le_of_lt less)
  · rw [compareTo, order.trans (Nat.compare_eq_eq.mpr same)]
    exact iff_of_true (by decide) (Nat.le_of_eq same.symm)
  · rw [compareTo, order.trans (Nat.compare_eq_gt.mpr more)]
    exact iff_of_true (by decide) (Nat.le_of_lt more)

theorem topBit_eq {word : BitVec 32} (nonzero : word ≠ 0) {count : Nat}
    (small : word.toNat < 2 ^ (count + 1)) : topBit word count = width word.toNat := by
  have positive : word.toNat ≠ 0 := fun none_ => nonzero (BitVec.eq_of_toNat_eq none_)
  induction count with
  | zero =>
    have one : word.toNat = 1 := by omega
    rw [topBit, one]
    rfl
  | succ count ih =>
    rw [topBit, ← BitVec.testBit_toNat]
    by_cases set : word.toNat.testBit (count + 1) = true
    · rw [if_pos set]
      exact (width_eq_of_bounds (Nat.ge_two_pow_of_testBit set) small).symm
    · rw [if_neg set]
      apply ih
      rw [Nat.testBit_eq_decide_div_mod_eq, decide_eq_true_eq] at set
      have half : word.toNat / 2 ^ (count + 1) < 2 := by
        rw [Nat.div_lt_iff_lt_mul (Nat.two_pow_pos _), Nat.mul_comm, ← Nat.pow_succ]
        exact small
      have none_ : word.toNat / 2 ^ (count + 1) = 0 := by
        generalize word.toNat / 2 ^ (count + 1) = top at set half
        omega
      exact Nat.lt_of_div_eq_zero (Nat.two_pow_pos _) none_

theorem bitsOf_eq (words : List (BitVec 32)) : bitsOf words = width (Limbs.value words) := by
  induction words with
  | nil => rfl
  | cons word rest ih =>
    rw [bitsOf, ih, width_value_cons]
    by_cases zero : Limbs.value rest = 0
    · rw [if_neg (not_not.mpr (width_eq_zero_iff.mpr zero)), if_pos zero]
      by_cases empty : word = 0
      · rw [if_neg (not_not.mpr empty), empty]
        rfl
      · rw [if_pos empty]
        exact topBit_eq empty word.isLt
    · rw [if_pos (mt width_eq_zero_iff.mp zero), if_neg zero]

theorem bits_eq : a.bits = width a.toNat := bitsOf_eq a.pn

/-! ## Division -/

theorem toNat_setBit {shift : Nat} (inside : shift < 32 * WIDTH) :
    (a.setBit shift).toNat = a.toNat ||| 2 ^ shift := by
  apply toNat_eq_of_bits _ (Nat.or_lt_two_pow a.toNat_lt (Nat.pow_lt_pow_right (by decide) inside))
  intro index bit within small
  rw [Nat.testBit_or, ← getLsbD_word a small, Nat.testBit_two_pow, Bool.eq_iff_iff]
  unfold word setBit
  rw [getLsbD_orParts _ _ (by rwa [a.size]), Bool.or_eq_true, decide_eq_true_eq]
  refine or_congr Iff.rfl ?_
  simp only [mem_singleton, exists_eq_left]
  rw [BitVec.getLsbD_shiftLeft]
  constructor
  · rintro ⟨same, set⟩
    simp only [Bool.and_eq_true, Bool.not_eq_true', decide_eq_false_iff_not] at set
    have lowest : bit - shift % 32 = 0 := by simpa using set.2
    omega
  · intro same
    have word_eq : shift / 32 = index := by omega
    have bit_eq : shift % 32 = bit := by omega
    refine ⟨word_eq, ?_⟩
    simp [bit_eq, small]

theorem toNat_divideLoop {divisor : Nat} {steps : Nat} {num div quotient : BaseUint WIDTH}
    (aligned : ∀ {shift}, steps = shift + 1 → div.toNat = divisor * 2 ^ shift)
    (small : num.toNat < divisor * 2 ^ steps) (room : steps ≤ 32 * WIDTH)
    (free : 2 ^ steps ∣ quotient.toNat) :
    (divideLoop steps num div quotient).toNat =
      quotient.toNat + Limbs.quotient divisor steps num.toNat := by
  induction steps generalizing num div quotient with
  | zero => rfl
  | succ shift ih =>
    have here := aligned rfl
    have halved : ∀ {lower}, shift = lower + 1 →
        (div.shiftRight 1).toNat = divisor * 2 ^ lower := by
      intro lower same
      rw [toNat_shiftRight, here, same, Nat.pow_succ, ← Nat.mul_assoc, Nat.pow_one]
      exact Nat.mul_div_cancel _ (by decide)
    have twice : divisor * 2 ^ (shift + 1) = divisor * 2 ^ shift + divisor * 2 ^ shift := by
      rw [Nat.pow_succ, ← Nat.mul_assoc, Nat.mul_two]
    rw [divideLoop, Limbs.quotient]
    by_cases taken : 0 ≤ num.compareTo div
    · have less := (compareTo_nonneg_iff num div).mp taken
      have set : (quotient.setBit shift).toNat = quotient.toNat + 2 ^ shift := by
        obtain ⟨high, multiple⟩ := free
        rw [toNat_setBit quotient (by omega), multiple]
        exact (Nat.two_pow_add_eq_or_of_lt
          (Nat.pow_lt_pow_right (by decide) (Nat.lt_succ_self shift)) high).symm
      have difference := toNat_subtract less
      have freeToo : 2 ^ shift ∣ (quotient.setBit shift).toNat := by
        rw [set]
        exact Nat.dvd_add ((Nat.pow_dvd_pow 2 (Nat.le_succ shift)).trans free) (Nat.dvd_refl _)
      rw [if_pos taken, if_pos (here ▸ less),
        ih halved (by rw [difference, here]; omega) (by omega) freeToo, set, difference, here,
        Nat.add_assoc]
    · have more : num.toNat < div.toNat :=
        Nat.lt_of_not_le (mt (compareTo_nonneg_iff num div).mpr taken)
      rw [if_neg taken, if_neg (here ▸ Nat.not_le_of_lt more)]
      exact ih halved (here ▸ more) (by omega)
        ((Nat.pow_dvd_pow 2 (Nat.le_succ shift)).trans free)

/-- The long division computes the quotient of the numbers. -/
theorem divide_eq {b : BaseUint WIDTH} (nonzero : b.toNat ≠ 0) :
    ∃ quotient, a.divide b = some quotient ∧ quotient.toNat = a.toNat / b.toNat := by
  have some_ : b.bits ≠ 0 := by rwa [bits_eq, ne_eq, width_eq_zero_iff]
  have most := lt_two_pow_width a.toNat
  have mostToo := lt_two_pow_width b.toNat
  have least := two_pow_le_of_width nonzero
  have held := width_le_of_lt a.toNat_lt
  rw [← bits_eq] at most mostToo least held
  rw [divide, if_neg some_]
  by_cases longer : a.bits < b.bits
  · rw [if_pos longer]
    refine ⟨zero, rfl, ?_⟩
    have shorter := Nat.pow_le_pow_right Nat.two_pos (show a.bits ≤ b.bits - 1 by omega)
    rw [toNat_zero, Nat.div_eq_of_lt (by omega)]
  · rw [if_neg longer]
    refine ⟨_, rfl, ?_⟩
    have shifted : (b.shiftLeft (a.bits - b.bits)).toNat =
        b.toNat * 2 ^ (a.bits - b.bits) := by
      rw [toNat_shiftLeft]
      apply Nat.mod_eq_of_lt
      calc
        b.toNat * 2 ^ (a.bits - b.bits) < 2 ^ b.bits * 2 ^ (a.bits - b.bits) :=
          Nat.mul_lt_mul_of_pos_right mostToo (Nat.two_pow_pos _)
        _ = 2 ^ a.bits := by rw [← Nat.pow_add, Nat.add_sub_cancel' (Nat.le_of_not_lt longer)]
        _ ≤ 2 ^ (32 * WIDTH) := Nat.pow_le_pow_right Nat.two_pos held
    have small : a.toNat < b.toNat * 2 ^ (a.bits - b.bits + 1) := by
      calc
        a.toNat < 2 ^ a.bits := most
        _ = 2 ^ (b.bits - 1) * 2 ^ (a.bits - b.bits + 1) := by
          rw [← Nat.pow_add]
          congr 1
          omega
        _ ≤ b.toNat * 2 ^ (a.bits - b.bits + 1) := Nat.mul_le_mul_right _ least
    have loop := @toNat_divideLoop WIDTH b.toNat (a.bits - b.bits + 1) a _ zero
      (fun same => by rw [← Nat.succ.inj same]; exact shifted) small (by omega)
      (by rw [toNat_zero]; exact Nat.dvd_zero _)
    rw [loop, toNat_zero, Nat.zero_add, quotient_eq (Nat.pos_of_ne_zero nonzero) small]

/-! ## Exact arithmetic -/

section

variable (b : BaseUint WIDTH) (b32 factor : BitVec 32) {j i carry count : Nat}

theorem toNat_mulWord :
    (a.mulWord b32).toNat = a.toNat * b32.toNat % 2 ^ (32 * WIDTH) := by
  have product := value_mulCarry a.pn b32 (Nat.two_pow_pos 32)
  rwa [a.size, Nat.zero_add, Nat.mul_comm] at product

/-- One product is added at its place, and the carry stands for what the word does not hold. -/
theorem value_mulStep (small : carry < 2 ^ 32) (inside : i + j < pn.length) :
    (mulStep (.other b) factor j (pn, carry) i).2 < 2 ^ 32 ∧
    Limbs.value (mulStep (.other b) factor j (pn, carry) i).1 +
        (mulStep (.other b) factor j (pn, carry) i).2 * 2 ^ (32 * (i + 1 + j)) =
      Limbs.value pn + carry * 2 ^ (32 * (i + j)) +
        factor.toNat * (b.word i).toNat * 2 ^ (32 * (i + j)) := by
  have fits := mul_add_add_lt factor.isLt (b.word i).isLt (pn[i + j]?.getD 0).isLt small
  have step : mulStep (.other b) factor j (pn, carry) i =
      (pn.set (i + j) (BitVec.ofNat 32
        (carry + (pn[i + j]?.getD 0).toNat + factor.toNat * (b.word i).toNat)),
      (carry + (pn[i + j]?.getD 0).toNat + factor.toNat * (b.word i).toNat) / 2 ^ 32) := by
    rw [← Nat.pow_add] at fits
    simp only [mulStep, Operand.word, Nat.mod_eq_of_lt fits]
  have written := value_set pn inside (BitVec.ofNat 32
    (carry + (pn[i + j]?.getD 0).toNat + factor.toNat * (b.word i).toNat))
  have halves := Nat.mod_add_div (carry + (pn[i + j]?.getD 0).toNat +
    factor.toNat * (b.word i).toNat) (2 ^ 32)
  have place : 2 ^ (32 * (i + 1 + j)) = 2 ^ 32 * 2 ^ (32 * (i + j)) := by
    rw [← Nat.pow_add]
    congr 1
    omega
  rw [BitVec.toNat_ofNat] at written
  rw [step, place]
  refine ⟨(Nat.div_lt_iff_lt_mul (Nat.two_pow_pos 32)).mpr fits, ?_⟩
  linear_combination written + 2 ^ (32 * (i + j)) * halves

/-- The row of a word adds its product with the lowest words of the operand, at its place. -/
theorem value_mulRow (inside : count + j ≤ pn.length) :
    (mulRow (.other b) factor j pn count).2 < 2 ^ 32 ∧
    Limbs.value (mulRow (.other b) factor j pn count).1 +
        (mulRow (.other b) factor j pn count).2 * 2 ^ (32 * (count + j)) =
      Limbs.value pn + factor.toNat * Limbs.value (b.pn.take count) * 2 ^ (32 * j) := by
  induction count with
  | zero => exact ⟨Nat.two_pow_pos 32, by simp [mulRow, Limbs.value]⟩
  | succ i ih =>
    obtain ⟨small, before⟩ := ih (by omega)
    have size := length_mulRow pn (.other b) factor j i
    have step : mulRow (.other b) factor j pn (i + 1) =
        mulStep (.other b) factor j (mulRow (.other b) factor j pn i) i := by
      rw [mulRow, range_succ, foldl_append]
      rfl
    obtain ⟨carrySmall, added⟩ := value_mulStep (mulRow (.other b) factor j pn i).1 b factor
      small (show i + j < _ by omega)
    have lowest := value_take_succ b.pn i
    have place : 2 ^ (32 * (i + j)) = 2 ^ (32 * i) * 2 ^ (32 * j) := by
      rw [← Nat.pow_add, Nat.mul_add]
    change _ = Limbs.value (b.pn.take i) + (b.word i).toNat * 2 ^ (32 * i) at lowest
    rw [step, lowest]
    refine ⟨carrySmall, added.trans ?_⟩
    rw [before, place]
    ring

theorem value_mulRows (inside : count ≤ WIDTH) :
    Limbs.value (mulRows a (.other b) count) =
      Limbs.value (a.pn.take count) * b.toNat % 2 ^ (32 * WIDTH) := by
  induction count with
  | zero => exact (value_replicate_zero WIDTH).trans (by simp [Limbs.value])
  | succ j ih =>
    have step : mulRows a (.other b) (j + 1) =
        (mulRow (.other b) (a.word j) j (mulRows a (.other b) j) (WIDTH - j)).1 := by
      rw [mulRows, range_succ, foldl_append]
      rfl
    have size := length_mulRows a (.other b) j
    have whole : WIDTH - j + j = WIDTH := by omega
    obtain ⟨-, row⟩ := value_mulRow (mulRows a (.other b) j) b (a.word j)
      (show WIDTH - j + j ≤ (mulRows a (.other b) j).length by omega)
    have low := value_lt (mulRow (.other b) (a.word j) j (mulRows a (.other b) j)
      (WIDTH - j)).1
    rw [length_mulRow, size] at low
    rw [whole, ih (by omega), value_take b.pn] at row
    -- only the words of the operand that fall off the top are left out
    have top : b.toNat % 2 ^ (32 * (WIDTH - j)) * 2 ^ (32 * j) % 2 ^ (32 * WIDTH) =
        b.toNat * 2 ^ (32 * j) % 2 ^ (32 * WIDTH) := by
      have parts : 2 ^ (32 * WIDTH) = 2 ^ (32 * (WIDTH - j)) * 2 ^ (32 * j) := by
        rw [← Nat.pow_add, ← Nat.mul_add, whole]
      rw [parts, Nat.mul_mod_mul_right, Nat.mul_mod_mul_right, Nat.mod_mod]
    have lowest := value_take_succ a.pn j
    change _ = Limbs.value (a.pn.take j) + (a.word j).toNat * 2 ^ (32 * j) at lowest
    rw [step, ← Nat.mod_eq_of_lt low, ← Nat.add_mul_mod_self_right _
      (mulRow (.other b) (a.word j) j (mulRows a (.other b) j) (WIDTH - j)).2, row, lowest,
      Nat.mod_add_mod, Nat.add_mul, Nat.mul_assoc, Nat.add_mod, Nat.mul_mod (a.word j).toNat]
    change (_ + _ % _ * (b.toNat % 2 ^ (32 * (WIDTH - j)) * 2 ^ (32 * j) % _) % _) % _ = _
    rw [top, ← Nat.mul_mod, ← Nat.add_mod, Nat.mul_right_comm, Nat.mul_assoc]

theorem toNat_mul :
    (a.mul (.other b)).toNat = a.toNat * b.toNat % 2 ^ (32 * WIDTH) := by
  have product := value_mulRows a b (Nat.le_refl WIDTH)
  rwa [take_of_length_le (Nat.le_of_eq a.size)] at product

/-- An operand that is the number itself reads as zero, and the product stays zero. -/
theorem toNat_mul_self : (a.mul .self).toNat = 0 := by
  have row (factor : BitVec 32) (j count : Nat) :
      mulRow (.self : Operand WIDTH) factor j (replicate WIDTH 0) count =
        (replicate WIDTH 0, 0) := by
    induction count with
    | zero => rfl
    | succ i ih =>
      rw [mulRow, range_succ, foldl_append, ← mulRow, ih]
      simp [mulStep, Operand.word]
  have rows (count : Nat) : mulRows a .self count = replicate WIDTH 0 := by
    induction count with
    | zero => rfl
    | succ j ih =>
      rw [mulRows, range_succ, foldl_append, ← mulRows, ih]
      exact congrArg Prod.fst (row _ _ _)
  exact (congrArg Limbs.value (rows WIDTH)).trans (value_replicate_zero WIDTH)

theorem compareTo_eq : a.compareTo b =
    match compare a.toNat b.toNat with
    | .lt => -1
    | .gt => 1
    | .eq => 0 := by
  rw [compareTo, order_eq (a.size.trans b.size.symm)]
  rfl

/-- The operators compute with the numbers that the words stand for. -/
structure ExactArithmetic (a : BaseUint WIDTH) (b : Operand WIDTH) : Prop where
  mulWord : ∀ b32, (a.mulWord b32).toNat = a.toNat * b32.toNat % 2 ^ (32 * WIDTH)
  mul : (a.mul b).toNat = a.toNat * (b.before a).toNat % 2 ^ (32 * WIDTH)
  shiftLeft : ∀ shift, (a.shiftLeft shift).toNat = a.toNat * 2 ^ shift % 2 ^ (32 * WIDTH)
  shiftRight : ∀ shift, (a.shiftRight shift).toNat = a.toNat / 2 ^ shift
  shiftedAway : ∀ shift, 32 * WIDTH ≤ shift →
    (a.shiftLeft shift).toNat = 0 ∧ (a.shiftRight shift).toNat = 0
  less : a.compareTo (b.before a) < 0 ↔ a.toNat < (b.before a).toNat
  equal : a.compareTo (b.before a) = 0 ↔ a.toNat = (b.before a).toNat
  bits : ∀ length, a.bits ≤ length ↔ a.toNat < 2 ^ length
  throws : a.divide (b.before a) = none ↔ (b.before a).toNat = 0
  quotient : ∀ {result}, a.divide (b.before a) = some result →
    result.toNat = a.toNat / (b.before a).toNat

/-- The arithmetic is exact, save that an operand which is the number itself is read as zero. -/
theorem exactArithmetic_iff (b : Operand WIDTH) :
    ExactArithmetic a b ↔
      (∃ another, b = .other another) ∨ 2 ^ (32 * WIDTH) ∣ a.toNat * a.toNat := by
  constructor
  · intro exact_
    cases b with
    | other another => exact .inl ⟨another, rfl⟩
    | self =>
      have product := exact_.mul
      rw [toNat_mul_self] at product
      exact .inr (Nat.dvd_of_mod_eq_zero product.symm)
  · intro condition
    constructor
    case mulWord => exact a.toNat_mulWord
    case mul =>
      cases b with
      | other another => exact a.toNat_mul another
      | self =>
        obtain ⟨another, absurdity⟩ | square := condition
        · cases absurdity
        · exact a.toNat_mul_self.trans (Nat.mod_eq_zero_of_dvd square).symm
    case shiftLeft => exact a.toNat_shiftLeft
    case shiftRight => exact a.toNat_shiftRight
    case shiftedAway =>
      intro shift beyond
      have small := a.toNat_lt.trans_le (Nat.pow_le_pow_right Nat.two_pos beyond)
      rw [toNat_shiftLeft, toNat_shiftRight]
      exact ⟨Nat.mod_eq_zero_of_dvd ((Nat.pow_dvd_pow 2 beyond).mul_left _),
        Nat.div_eq_of_lt small⟩
    case less =>
      rw [compareTo_eq, ← Nat.compare_eq_lt]
      cases compare a.toNat (b.before a).toNat <;> decide
    case equal =>
      rw [compareTo_eq, ← Nat.compare_eq_eq]
      cases compare a.toNat (b.before a).toNat <;> decide
    case bits =>
      intro length
      rw [bits_eq]
      constructor
      · intro short
        exact (lt_two_pow_width _).trans_le (Nat.pow_le_pow_right Nat.two_pos short)
      · exact width_le_of_lt
    case throws =>
      constructor
      · intro thrown
        by_contra nonzero
        obtain ⟨result, divided, _⟩ := a.divide_eq nonzero
        rw [thrown] at divided
        cases divided
      · intro nothing
        rw [divide, bits_eq, width_eq_zero_iff.mpr nothing, if_pos rfl]
    case quotient =>
      intro result divided
      by_cases nonzero : (b.before a).toNat = 0
      · rw [divide, bits_eq, width_eq_zero_iff.mpr nonzero, if_pos rfl] at divided
        cases divided
      · obtain ⟨same, equal, value⟩ := a.divide_eq nonzero
        rw [divided] at equal
        exact Option.some.inj equal ▸ value

end

/-! ## Words of 64 bits -/

theorem exists_low_words (a : BaseUint (WIDTH + 2)) :
    ∃ low high rest, a.pn = low :: high :: rest := by
  obtain ⟨pn, size⟩ := a
  cases pn with
  | nil => cases size
  | cons low rest =>
    cases rest with
    | nil => cases size
    | cons high rest => exact ⟨low, high, rest, rfl⟩

theorem toNat_ofWord64 (b : BitVec 64) : (ofWord64 b : BaseUint (WIDTH + 2)).toNat = b.toNat := by
  have small := b.isLt
  have nothing : Limbs.value ((replicate (WIDTH + 2) (0 : BitVec 32)).take WIDTH) = 0 :=
    value_eq_zero_iff.mpr fun word member => eq_of_mem_replicate (mem_of_mem_take member)
  change Limbs.value (b.setWidth 32 :: (b >>> 32).setWidth 32 ::
    (replicate (WIDTH + 2) (0 : BitVec 32)).take WIDTH) = _
  rw [Limbs.value, Limbs.value, nothing, BitVec.toNat_setWidth, BitVec.toNat_setWidth,
    BitVec.toNat_ushiftRight, Nat.shiftRight_eq_div_pow]
  omega

theorem toNat_getLow64 (a : BaseUint (WIDTH + 2)) : a.getLow64.toNat = a.toNat % 2 ^ 64 := by
  obtain ⟨low, high, rest, words⟩ := a.exists_low_words
  have lowSmall := low.isLt
  have highSmall := high.isLt
  unfold getLow64 word toNat
  rw [words]
  simp only [getElem?_cons_zero, getElem?_cons_succ, Option.getD_some, Limbs.value]
  rw [BitVec.toNat_or, BitVec.toNat_shiftLeft, BitVec.toNat_setWidth, BitVec.toNat_setWidth,
    Nat.or_comm, Nat.mod_eq_of_lt (show low.toNat < 2 ^ 64 by omega),
    Nat.mod_eq_of_lt (show high.toNat < 2 ^ 64 by omega), Nat.shiftLeft_eq,
    Nat.mod_eq_of_lt (show high.toNat * 2 ^ 32 < 2 ^ 64 by omega), Nat.mul_comm high.toNat,
    ← Nat.two_pow_add_eq_or_of_lt lowSmall]
  omega

theorem equalTo_iff (a : BaseUint (WIDTH + 2)) (b : BitVec 64) :
    a.equalTo b = true ↔ a.toNat = b.toNat := by
  obtain ⟨low, high, rest, words⟩ := a.exists_low_words
  have lowSmall := low.isLt
  have highSmall := high.isLt
  have small := b.isLt
  have top : (rest.all fun word => word = 0) = true ↔ Limbs.value rest = 0 := by
    rw [value_eq_zero_iff]
    simp
  have middle : high = (b >>> 32).setWidth 32 ↔ high.toNat = b.toNat / 2 ^ 32 := by
    rw [BitVec.toNat_eq, BitVec.toNat_setWidth, BitVec.toNat_ushiftRight,
      Nat.shiftRight_eq_div_pow, Nat.mod_eq_of_lt (by omega)]
  have bottom : low = b.setWidth 32 ↔ low.toNat = b.toNat % 2 ^ 32 := by
    rw [BitVec.toNat_eq, BitVec.toNat_setWidth]
  unfold equalTo word toNat
  rw [words]
  simp only [drop_succ_cons, drop_zero, getElem?_cons_zero,
    getElem?_cons_succ, Option.getD_some, Limbs.value, Bool.and_eq_true, decide_eq_true_eq]
  rw [top, middle, bottom]
  generalize Limbs.value rest = number
  omega

/-- One times itself, in place, is zero. -/
theorem one_times_itself : ¬ ExactArithmetic (ofWord64 1 : BaseUint 8) .self := by
  intro exact_
  have product := exact_.mul
  rw [toNat_mul_self] at product
  have one : (ofWord64 1 : BaseUint (6 + 2)).toNat = 1 := toNat_ofWord64 1
  rw [Operand.before, one] at product
  cases product

end BaseUint

end CentNode
