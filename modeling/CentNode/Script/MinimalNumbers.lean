import CentNode.Primitives.VarInt
import CentNode.Script.ScriptNum

/-!
# Minimal encodings of script numbers

The sign of a number is the first bit of its last byte, and takes a byte of its own only where
the size needs that bit.  So a number has one encoding to which nothing can be spared, the one
that `serialize` writes.
-/

namespace CentNode

open List BitVec

namespace CScriptNum

/-! ## The bytes of a number -/

theorem littleEndian_cons (byte : UInt8) (rest : List UInt8) :
    littleEndian (byte :: rest) = byte.toNat + 256 * littleEndian rest := rfl

variable (init : List UInt8) (back : UInt8)

theorem littleEndian_concat :
    littleEndian (init ++ [back]) = littleEndian init + 256 ^ init.length * back.toNat := by
  induction init with
  | nil => simp [littleEndian]
  | cons byte rest ih =>
    rw [List.cons_append, littleEndian_cons, littleEndian_cons, ih, length_cons,
      Nat.pow_succ]
    ring

theorem littleEndian_absBytes (absvalue : Nat) : littleEndian (absBytes absvalue) = absvalue := by
  induction absvalue using absBytes.induct with
  | case1 => simp [absBytes, littleEndian]
  | case2 absvalue nonzero ih =>
    rw [absBytes, if_neg nonzero, littleEndian_cons, ih, UInt8.toNat_ofNat']
    omega

theorem absBytes_littleEndian {init : List UInt8} {last : UInt8} (nonzero : last ≠ 0) :
    absBytes (littleEndian (init ++ [last])) = init ++ [last] := by
  have positive : 0 < last.toNat := Nat.pos_of_ne_zero fun zero => nonzero (UInt8.toNat_inj.mp zero)
  have small := last.toNat_lt
  induction init with
  | nil =>
    have whole : littleEndian [last] = last.toNat := by simp [littleEndian]
    have rest : last.toNat / 256 = 0 := Nat.div_eq_of_lt small
    rw [nil_append, whole, absBytes, if_neg positive.ne', rest, absBytes, if_pos rfl,
      UInt8.ofNat_toNat]
  | cons byte rest ih =>
    have later : 0 < littleEndian (rest ++ [last]) := by
      rw [littleEndian_concat]
      exact Nat.add_pos_right _ (Nat.mul_pos (Nat.pow_pos (by decide)) positive)
    have byte_lt := byte.toNat_lt
    have next : (byte.toNat + 256 * littleEndian (rest ++ [last])) / 256 =
        littleEndian (rest ++ [last]) := by omega
    have first : UInt8.ofNat (byte.toNat + 256 * littleEndian (rest ++ [last])) = byte := by
      rw [← UInt8.toNat_inj, UInt8.toNat_ofNat']
      omega
    rw [List.cons_append, littleEndian_cons, absBytes, if_neg (by omega), next, ih, first]

theorem absBytes_concat {absvalue : Nat} (nonzero : absvalue ≠ 0) :
    ∃ init last, absBytes absvalue = init ++ [last] ∧ last ≠ 0 := by
  induction absvalue using absBytes.induct with
  | case1 => exact absurd rfl nonzero
  | case2 absvalue _ ih =>
    rw [absBytes, if_neg nonzero]
    by_cases single : absvalue / 256 = 0
    · refine ⟨[], UInt8.ofNat absvalue, by rw [single, absBytes, if_pos rfl]; rfl, ?_⟩
      rw [Ne, ← UInt8.toNat_inj, UInt8.toNat_ofNat']
      change ¬ absvalue % 256 = 0
      omega
    · obtain ⟨init, last, bytes, set⟩ := ih single
      exact ⟨UInt8.ofNat absvalue :: init, last, by rw [bytes, List.cons_append], set⟩

/-- The number without its sign: the last byte has seven bits of it. -/
def magnitude (init : List UInt8) (back : UInt8) : Nat :=
  littleEndian init + 256 ^ init.length * (back.toNat % 128)

theorem setVch_concat :
    setVch (init ++ [back]) =
      if 128 ≤ back.toNat then -(magnitude init back : Int) else magnitude init back := by
  have small := back.toNat_lt
  have last : (init ++ [back]).getLastD 0 = back := by simp
  have length : (init ++ [back]).length - 1 = init.length := by simp
  have powers : (2 : Int) ^ (8 * init.length) = ((256 ^ init.length : Nat) : Int) := by
    rw [Nat.cast_pow, pow_mul]
    rfl
  have high : back &&& 0x80 ≠ 0 ↔ 128 ≤ back.toNat := VarInt.and_0x80_ne_zero_iff back
  unfold setVch magnitude
  rw [last, length, littleEndian_concat, powers]
  by_cases set : 128 ≤ back.toNat
  · have rest : back.toNat % 128 = back.toNat - 128 := by omega
    rw [if_pos (high.mpr set), if_pos set, rest]
    push_cast [set]
    ring
  · have rest : back.toNat % 128 = back.toNat := Nat.mod_eq_of_lt (Nat.lt_of_not_le set)
    rw [if_neg fun clear => set (high.mp clear), if_neg set, rest]

/-! ## The word that is computed -/

/-- The bytes of `set_vch`, gathered in an `int64_t`. -/
def gathered (vch : Valtype) : BitVec 64 :=
  vch.zipIdx.foldl (fun result byte => result ||| BitVec.ofNat 64 byte.1.toNat <<< (8 * byte.2)) 0

/-- `set_vch` as it computes in an `int64_t`; no more than eight bytes can be shifted into it. -/
def setVchWord (vch : Valtype) : BitVec 64 :=
  if vch.getLastD 0 &&& 0x80 ≠ 0 then -(gathered vch &&& ~~~(0x80#64 <<< (8 * (vch.length - 1))))
  else gathered vch

theorem toNat_or_shiftLeft {low : BitVec 64} {byte place : Nat} (small : low.toNat < 2 ^ place)
    (fits : byte * 2 ^ place < 2 ^ 64) :
    (low ||| BitVec.ofNat 64 byte <<< place).toNat = low.toNat + byte * 2 ^ place := by
  have byte_lt : byte < 2 ^ 64 :=
    Nat.lt_of_le_of_lt (Nat.le_mul_of_pos_right byte (Nat.two_pow_pos place)) fits
  rw [toNat_or, BitVec.toNat_shiftLeft, toNat_ofNat, Nat.mod_eq_of_lt byte_lt,
    Nat.shiftLeft_eq, Nat.mod_eq_of_lt fits, Nat.or_comm, ← Nat.shiftLeft_eq,
    ← Nat.shiftLeft_add_eq_or_of_lt small, Nat.add_comm]

variable {vch : Valtype}

theorem toNat_gathered (short : vch.length ≤ 8) : (gathered vch).toNat = littleEndian vch := by
  induction vch using reverseRecOn with
  | nil => rfl
  | append_singleton init back ih =>
    rw [length_append, length_singleton] at short
    have before := ih (Nat.le_of_succ_le short)
    have step : gathered (init ++ [back]) =
        gathered init ||| BitVec.ofNat 64 back.toNat <<< (8 * init.length) := by
      simp [gathered, zipIdx_append]
    have powers : 2 ^ (8 * init.length) = 256 ^ init.length := Nat.pow_mul 2 8 init.length
    have below : (gathered init).toNat < 2 ^ (8 * init.length) := by
      rw [before, powers]
      exact littleEndian_lt init
    have room : 256 ^ init.length ≤ 256 ^ 7 :=
      Nat.pow_le_pow_right (by decide) (Nat.le_of_succ_le_succ short)
    have fits : back.toNat * 2 ^ (8 * init.length) < 2 ^ 64 := by
      rw [powers]
      exact Nat.lt_of_lt_of_le
        (Nat.mul_lt_mul_of_pos_right back.toNat_lt (Nat.pow_pos (by decide)))
        (Nat.mul_le_mul_left 256 room)
    rw [step, toNat_or_shiftLeft below fits, before, littleEndian_concat, powers,
      Nat.mul_comm back.toNat]

theorem or_and_not {low : BitVec 64} {place : Nat} (small : low.toNat < 2 ^ place) :
    (low ||| 1#64 <<< place) &&& ~~~(1#64 <<< place) = low := by
  refine eq_of_getLsbD_eq fun i inside => ?_
  have clear : place ≤ i → low.getLsbD i = false := fun above =>
    Nat.testBit_lt_two_pow (Nat.lt_of_lt_of_le small (Nat.pow_le_pow_right (by decide) above))
  rcases Nat.lt_trichotomy i place with below | same | above
  · simp [inside, below]
  · rw [same] at clear inside ⊢
    simpa [inside] using clear (Nat.le_refl _)
  · have later : i - place ≠ 0 := Nat.sub_ne_zero_of_lt above
    simp [inside, above.not_gt, later]

theorem magnitude_lt : magnitude init back < 2 ^ (8 * init.length + 7) := by
  have bytes := littleEndian_lt init
  have low : back.toNat % 128 + 1 ≤ 128 := Nat.mod_lt _ (by decide)
  calc
    magnitude init back < 256 ^ init.length + 256 ^ init.length * (back.toNat % 128) :=
        Nat.add_lt_add_right bytes _
    _ = 256 ^ init.length * (back.toNat % 128 + 1) := by ring
    _ ≤ 256 ^ init.length * 128 := Nat.mul_le_mul_left _ low
    _ = 2 ^ (8 * init.length + 7) := by rw [Nat.pow_add, Nat.pow_mul]

/-- The word that `set_vch` computes is the number of the bytes. -/
theorem setVchWord_toInt (short : vch.length ≤ 8) : (setVchWord vch).toInt = setVch vch := by
  rcases eq_nil_or_concat' vch with rfl | ⟨init, back, rfl⟩
  · rfl
  have few : init.length ≤ 7 := by
    rw [length_append, length_singleton] at short
    exact Nat.le_of_succ_le_succ short
  have size := magnitude_lt init back
  have room : 2 ^ (8 * init.length + 7) ≤ 2 ^ 63 := Nat.pow_le_pow_right (by decide) (by omega)
  have whole := toNat_gathered short
  rw [littleEndian_concat] at whole
  have back_lt := back.toNat_lt
  have last : (init ++ [back]).getLastD 0 = back := by simp
  have high : back &&& 0x80 ≠ 0 ↔ 128 ≤ back.toNat := VarInt.and_0x80_ne_zero_iff back
  have length : (init ++ [back]).length - 1 = init.length := by simp
  rw [setVch_concat, setVchWord, last, length]
  by_cases set : 128 ≤ back.toNat
  · have lowSize : (BitVec.ofNat 64 (magnitude init back)).toNat = magnitude init back :=
      Nat.mod_eq_of_lt (by omega)
    have bit : 0x80#64 <<< (8 * init.length) = 1#64 <<< (8 * init.length + 7) := by
      rw [Nat.add_comm, shiftLeft_add]
      rfl
    have parts : gathered (init ++ [back]) =
        BitVec.ofNat 64 (magnitude init back) ||| 1#64 <<< (8 * init.length + 7) := by
      refine eq_of_toNat_eq ?_
      have sum := @toNat_or_shiftLeft (BitVec.ofNat 64 (magnitude init back)) 1
        (8 * init.length + 7) (by omega) (by omega)
      have split : 256 ^ init.length * back.toNat =
          256 ^ init.length * (back.toNat % 128) + 256 ^ init.length * 128 := by
        rw [← Nat.mul_add]
        congr 1
        omega
      have power : 2 ^ (8 * init.length + 7) = 256 ^ init.length * 128 := by
        rw [Nat.pow_add, Nat.pow_mul]
      rw [whole, sum, lowSize, magnitude, split, power]
      omega
    rw [if_pos (high.mpr set), if_pos set, parts, bit, or_and_not (by omega), toInt_neg,
      toInt_eq_toNat_of_lt (by omega), lowSize]
    exact Int.bmod_eq_of_le (by omega) (by omega)
  · have rest : back.toNat % 128 = back.toNat := Nat.mod_eq_of_lt (Nat.lt_of_not_le set)
    rw [magnitude, rest] at size ⊢
    rw [if_neg fun clear => set (high.mp clear), if_neg set,
      toInt_eq_toNat_of_lt (by omega), whole]

/-! ## Minimal encodings -/

/-- The last byte has a bit beside the sign, or a byte before it that needs the sign's. -/
def Minimal (vch : Valtype) : Prop :=
  ∀ init back, vch = init ++ [back] → back.toNat % 128 = 0 →
    ∃ front second, init = front ++ [second] ∧ 128 ≤ second.toNat

theorem minimal_concat {init : List UInt8} {back : UInt8} :
    Minimal (init ++ [back]) ↔ (back.toNat % 128 = 0 →
      ∃ front second, init = front ++ [second] ∧ 128 ≤ second.toNat) := by
  constructor
  · exact fun minimal => minimal init back rfl
  · intro needed init' back' same
    obtain ⟨rfl, rfl⟩ := append_singleton_inj.mp same
    exact needed

theorem serialize_of_bytes {value : Int} (nonzero : value ≠ 0) {init : List UInt8} {last : UInt8}
    (bytes : absBytes value.natAbs = init ++ [last]) :
    serialize value =
      if 128 ≤ last.toNat then init ++ [last] ++ [if value < 0 then 0x80 else 0]
      else init ++ [if value < 0 then last ||| 0x80 else last] := by
  have high : last &&& 0x80 ≠ 0 ↔ 128 ≤ last.toNat := VarInt.and_0x80_ne_zero_iff last
  have ended : (init ++ [last]).getLastD 0 = last := by simp
  unfold serialize
  rw [if_neg nonzero, bytes]
  dsimp only
  rw [ended]
  simp only [high, decide_eq_true_eq, dropLast_concat]
  split
  · rfl
  · split <;> rfl

theorem toNat_or_0x80 {byte : UInt8} (low : byte.toNat < 128) :
    (byte ||| 0x80).toNat = byte.toNat + 128 := by
  rw [UInt8.toNat_or, Nat.or_comm]
  exact (@Nat.two_pow_add_eq_or_of_lt 7 _ low 1).symm.trans (Nat.add_comm _ _)

/-- What is written of a number other than zero: its size, its sign, and no byte to spare. -/
theorem serialize_spec {value : Int} (nonzero : value ≠ 0) :
    ∃ init back, serialize value = init ++ [back] ∧ magnitude init back = value.natAbs ∧
      (128 ≤ back.toNat ↔ value < 0) ∧ Minimal (init ++ [back]) := by
  obtain ⟨init, last, bytes, set⟩ := absBytes_concat (Int.natAbs_ne_zero.mpr nonzero)
  have size := littleEndian_absBytes value.natAbs
  rw [bytes, littleEndian_concat] at size
  have positive : last.toNat ≠ 0 := fun zero => set (UInt8.toNat_inj.mp zero)
  rw [serialize_of_bytes nonzero bytes]
  by_cases high : 128 ≤ last.toNat
  · rw [if_pos high]
    refine ⟨_, _, rfl, ?_, ?_, minimal_concat.mpr fun _ => ⟨init, last, rfl, high⟩⟩
    · rw [magnitude, littleEndian_concat, size]
      split <;> rfl
    · split
      · exact iff_of_true (by decide) ‹_›
      · exact iff_of_false (by decide) ‹_›
  · rw [if_neg high]
    have low := Nat.lt_of_not_le high
    by_cases neg : value < 0
    · rw [if_pos neg]
      have sized := toNat_or_0x80 low
      refine ⟨_, _, rfl, ?_, iff_of_true (by omega) neg, minimal_concat.mpr fun none_ => ?_⟩
      · rw [magnitude, sized, Nat.add_mod_right, Nat.mod_eq_of_lt low, size]
      · omega
    · rw [if_neg neg]
      refine ⟨_, _, rfl, ?_, iff_of_false high neg, minimal_concat.mpr fun none_ => ?_⟩
      · rw [magnitude, Nat.mod_eq_of_lt low, size]
      · omega

theorem setVch_serialize (value : Int) : setVch (serialize value) = value := by
  by_cases zero : value = 0
  · rw [zero]
    rfl
  · obtain ⟨init, back, written, size, sign, _⟩ := serialize_spec zero
    rw [written, setVch_concat, size]
    by_cases neg : value < 0
    · rw [if_pos (sign.mpr neg)]
      omega
    · rw [if_neg fun set => neg (sign.mp set)]
      omega

theorem minimal_serialize (value : Int) : Minimal (serialize value) := by
  by_cases zero : value = 0
  · rw [zero]
    exact fun init back same => absurd same.symm (concat_ne_nil back init)
  · obtain ⟨init, back, written, _, _, minimal⟩ := serialize_spec zero
    rw [written]
    exact minimal

/-- Bytes to which nothing can be spared are those that their number is written as. -/
theorem serialize_setVch (minimal : Minimal vch) : serialize (setVch vch) = vch := by
  rcases eq_nil_or_concat' vch with rfl | ⟨init, back, rfl⟩
  · rfl
  have small := back.toNat_lt
  have value_eq := setVch_concat init back
  have natAbs_eq : (setVch (init ++ [back])).natAbs = magnitude init back := by
    rw [value_eq]
    split <;> simp
  by_cases alone : back.toNat % 128 = 0
  · -- the last byte has the sign alone
    obtain ⟨front, second, rfl, high⟩ := minimal_concat.mp minimal alone
    have set : second ≠ 0 := by
      rintro rfl
      exact absurd high (by decide)
    have size : magnitude (front ++ [second]) back = littleEndian (front ++ [second]) := by
      rw [magnitude, alone, Nat.mul_zero, Nat.add_zero]
    have positive : 0 < littleEndian (front ++ [second]) := by
      rw [littleEndian_concat]
      exact Nat.add_pos_right _ (Nat.mul_pos (Nat.pow_pos (by decide)) (by omega))
    have nonzero : setVch (front ++ [second] ++ [back]) ≠ 0 := by
      rw [← Int.natAbs_ne_zero, natAbs_eq, size]
      exact positive.ne'
    have bytes := @absBytes_littleEndian front second set
    rw [← size, ← natAbs_eq] at bytes
    rw [serialize_of_bytes nonzero bytes, if_pos high]
    congr 2
    rw [value_eq, size, ← UInt8.toNat_inj]
    by_cases neg : 128 ≤ back.toNat
    · rw [if_pos neg, if_pos (by omega)]
      change 128 = back.toNat
      omega
    · rw [if_neg neg, if_neg (by omega)]
      change 0 = back.toNat
      omega
  · -- the bits beside the sign are the last byte of the number
    have low : back.toNat % 128 < 128 := Nat.mod_lt _ (by decide)
    have lastSize : (UInt8.ofNat (back.toNat % 128)).toNat = back.toNat % 128 :=
      UInt8.toNat_ofNat_of_lt (Nat.lt_trans low (by decide))
    have set : UInt8.ofNat (back.toNat % 128) ≠ 0 := by
      rw [Ne, ← UInt8.toNat_inj, lastSize]
      exact alone
    have bytes := @absBytes_littleEndian init _ set
    have size : littleEndian (init ++ [UInt8.ofNat (back.toNat % 128)]) = magnitude init back := by
      rw [littleEndian_concat, lastSize, magnitude]
    have nonzero : setVch (init ++ [back]) ≠ 0 := by
      rw [← Int.natAbs_ne_zero, natAbs_eq, magnitude]
      exact (Nat.add_pos_right _ (Nat.mul_pos (Nat.pow_pos (by decide))
        (Nat.pos_of_ne_zero alone))).ne'
    have positive : (0 : Int) < magnitude init back := by
      rw [← natAbs_eq]
      omega
    rw [size, ← natAbs_eq] at bytes
    rw [serialize_of_bytes nonzero bytes, if_neg (by omega), value_eq]
    congr 2
    rw [← UInt8.toNat_inj]
    by_cases neg : 128 ≤ back.toNat
    · rw [if_pos neg, if_pos (by omega), toNat_or_0x80 (by omega), lastSize]
      omega
    · rw [if_neg neg, if_neg (by omega), lastSize]
      omega

/-! ## Operands -/

theorem checkMinimal_iff : checkMinimal vch = .ok () ↔ Minimal vch := by
  have clear : ∀ byte : UInt8, byte &&& 0x7f = 0 ↔ byte.toNat % 128 = 0 := by
    intro byte
    rw [← UInt8.toNat_inj, VarInt.toNat_and_0x7F]
    rfl
  rcases eq_nil_or_concat' vch with rfl | ⟨init, back, rfl⟩
  · exact iff_of_true rfl fun init back same => absurd same.symm (concat_ne_nil back init)
  have last : byteAt (init ++ [back]) ((init ++ [back]).length - 1) = .ok back := by
    simp [byteAt]
  rw [minimal_concat]
  unfold checkMinimal
  rw [if_pos (by simp), last]
  change (if back &&& 0x7f = 0 then _ else _) = _ ↔ _
  by_cases alone : back.toNat % 128 = 0
  · rw [if_pos ((clear back).mpr alone), imp_iff_right alone]
    rcases eq_nil_or_concat' init with rfl | ⟨front, second, rfl⟩
    · rw [if_pos (by simp)]
      refine iff_of_false (by simp) ?_
      rintro ⟨front, second, impossible, _⟩
      exact concat_ne_nil second front impossible.symm
    have before : byteAt (front ++ [second] ++ [back]) ((front ++ [second] ++ [back]).length - 2) =
        .ok second := by
      simp [byteAt]
    rw [if_neg (by simp), before]
    change (if second &&& 0x80 = 0 then _ else _) = _ ↔ _
    have needed : (∃ front' second', front ++ [second] = front' ++ [second'] ∧
        128 ≤ second'.toNat) ↔ 128 ≤ second.toNat := by
      constructor
      · rintro ⟨front', second', same, set⟩
        obtain ⟨rfl, rfl⟩ := append_singleton_inj.mp same
        exact set
      · exact fun set => ⟨front, second, rfl, set⟩
    rw [needed]
    by_cases set : 128 ≤ second.toNat
    · rw [if_neg ((VarInt.and_0x80_ne_zero_iff second).mpr set)]
      exact iff_of_true rfl set
    · rw [if_pos (not_not.mp fun high => set ((VarInt.and_0x80_ne_zero_iff second).mp high))]
      exact iff_of_false (by simp) set
  · rw [if_neg fun none_ => alone ((clear back).mp none_)]
    exact iff_of_true rfl fun none_ => absurd none_ alone

/-- An operand is less than `2 ^ 31` in size. -/
theorem setVch_lt (short : vch.length ≤ maxNumSize) :
    -2 ^ 31 < setVch vch ∧ setVch vch < 2 ^ 31 := by
  rcases eq_nil_or_concat' vch with rfl | ⟨init, back, rfl⟩
  · decide
  have fewer : init.length ≤ 3 := by
    rw [length_append, length_singleton] at short
    exact Nat.le_of_succ_le_succ short
  have bytes := littleEndian_lt init
  have low : back.toNat % 128 ≤ 127 := Nat.le_of_lt_succ (Nat.mod_lt _ (by decide))
  have powers : 256 ^ init.length ≤ 256 ^ 3 := Nat.pow_le_pow_right (by decide) fewer
  have size : magnitude init back < 2 ^ 31 := by
    have product := Nat.mul_le_mul_left (256 ^ init.length) low
    unfold magnitude
    omega
  rw [setVch_concat]
  split <;> omega

theorem length_serialize_le {value : Int} {size : Nat} (small : value.natAbs < 128 * 256 ^ size) :
    (serialize value).length ≤ size + 1 := by
  by_cases zero : value = 0
  · rw [zero]
    exact Nat.zero_le _
  obtain ⟨init, back, written, sized, _, minimal⟩ := serialize_spec zero
  rw [written, length_append, length_singleton]
  refine Nat.succ_le_succ (Nat.le_of_not_lt fun more => ?_)
  by_cases alone : back.toNat % 128 = 0
  · obtain ⟨front, second, rfl, set⟩ := minimal_concat.mp minimal alone
    rw [length_append, length_singleton] at more
    have powers : 256 ^ size ≤ 256 ^ front.length :=
      Nat.pow_le_pow_right (by decide) (Nat.le_of_lt_succ more)
    have product := Nat.mul_le_mul powers set
    rw [magnitude, littleEndian_concat] at sized
    omega
  · have powers : 256 ^ (size + 1) ≤ 256 ^ init.length := Nat.pow_le_pow_right (by decide) more
    have product := Nat.mul_le_mul powers (Nat.pos_of_ne_zero alone)
    rw [Nat.pow_succ] at product
    rw [magnitude] at sized
    omega

theorem decode_eq_iff {fRequireMinimal : Bool} {bn : CScriptNum} :
    decode vch fRequireMinimal = .ok bn ↔
      vch.length ≤ maxNumSize ∧ (fRequireMinimal = true → Minimal vch) ∧
        bn.m_value = setVch vch := by
  unfold decode
  by_cases long : vch.length > maxNumSize
  · rw [if_pos long]
    exact iff_of_false nofun fun accepted => absurd accepted.1 (Nat.not_le.mpr long)
  have short := Nat.le_of_not_lt long
  have range := setVch_lt short
  have exact_ : (ofInt (setVch vch)).m_value = setVch vch := toInt64_of_range (by omega) (by omega)
  have same : ofInt (setVch vch) = bn ↔ bn.m_value = setVch vch := by
    constructor
    · rintro rfl
      exact exact_
    · intro value_eq
      obtain ⟨m_value, _⟩ := bn
      rw [CScriptNum.mk.injEq]
      exact exact_.trans value_eq.symm
  rw [if_neg long, and_iff_right short, ← same]
  cases fRequireMinimal with
  | false =>
    change Except.ok _ = _ ↔ _
    rw [Except.ok.injEq, and_iff_right nofun]
  | true =>
    rw [imp_iff_right rfl, ← checkMinimal_iff]
    change (checkMinimal vch >>= fun _ => _) = _ ↔ _
    cases checked : checkMinimal vch with
    | error stop => exact iff_of_false nofun fun accepted => nomatch accepted.1
    | ok done =>
      change Except.ok _ = _ ↔ _
      rw [Except.ok.injEq, and_iff_right rfl]

theorem getint_eq {bn : CScriptNum} (low : -2 ^ 31 ≤ bn.m_value) (high : bn.m_value < 2 ^ 31) :
    bn.getint = bn.m_value := by
  rw [getint, if_neg (by omega), if_neg (by omega)]

/-- The minimal operands and the numbers of less than `2 ^ 31` in size are one to one. -/
theorem operand_unique_iff (n : Int) :
    (-2 ^ 31 < n ∧ n < 2 ^ 31) ↔
      ∃! vch, ∃ bn, decode vch true = .ok bn ∧ bn.m_value = n := by
  constructor
  · rintro ⟨low, high⟩
    have short : (serialize n).length ≤ maxNumSize := @length_serialize_le n 3 (by omega)
    have value_eq : (ofInt n).m_value = n := toInt64_of_range (by omega) (by omega)
    refine ⟨serialize n, ⟨ofInt n, decode_eq_iff.mpr ⟨short, fun _ => minimal_serialize n, ?_⟩,
      value_eq⟩, ?_⟩
    · rw [value_eq, setVch_serialize]
    · rintro vch ⟨bn, accepted, rfl⟩
      obtain ⟨_, minimal, exact_⟩ := decode_eq_iff.mp accepted
      rw [exact_, serialize_setVch (minimal rfl)]
  · rintro ⟨vch, ⟨bn, accepted, rfl⟩, _⟩
    obtain ⟨short, _, exact_⟩ := decode_eq_iff.mp accepted
    rw [exact_]
    exact setVch_lt short

/-- The word that `set_vch` computes from the bytes of a number is that number.  An operand is
accepted as minimal exactly if it is what its number is written as, and `getint` loses nothing
of it. -/
theorem one_minimal_encoding (n : Int) (low : -2 ^ 63 < n) (high : n < 2 ^ 63) (vch : Valtype)
    (short : vch.length ≤ maxNumSize) :
    (setVchWord (serialize n)).toInt = n ∧
      ((∃ bn, decode vch true = .ok bn) ↔
        ∃ bn, decode vch false = .ok bn ∧ vch = serialize bn.m_value) ∧
      ((-2 ^ 31 + 1 ≤ n ∧ n ≤ 2 ^ 31 - 1) ↔
        ∃! operand, ∃ bn, decode operand true = .ok bn ∧ bn.m_value = n) ∧
      ∀ fRequireMinimal bn, decode vch fRequireMinimal = .ok bn → bn.getint = bn.m_value := by
  have range := setVch_lt short
  refine ⟨?_, ?_, ?_, ?_⟩
  · rw [setVchWord_toInt (@length_serialize_le n 7 (by omega)), setVch_serialize]
  · constructor
    · rintro ⟨bn, accepted⟩
      obtain ⟨_, minimal, exact_⟩ := decode_eq_iff.mp accepted
      refine ⟨bn, decode_eq_iff.mpr ⟨short, nofun, exact_⟩, ?_⟩
      rw [exact_, serialize_setVch (minimal rfl)]
    · rintro ⟨bn, accepted, same⟩
      refine ⟨bn, decode_eq_iff.mpr ⟨short, fun _ => ?_, (decode_eq_iff.mp accepted).2.2⟩⟩
      rw [same]
      exact minimal_serialize _
  · rw [← operand_unique_iff]
    omega
  · intro fRequireMinimal bn accepted
    have exact_ := (decode_eq_iff.mp accepted).2.2
    exact getint_eq (by omega) (by omega)

theorem one_minimal_encoding_255 :
    (setVchWord (serialize (-255))).toInt = -255 ∧
      ((∃ bn, decode [0xff, 0x80] true = .ok bn) ↔
        ∃ bn, decode [0xff, 0x80] false = .ok bn ∧ [0xff, 0x80] = serialize bn.m_value) ∧
      ((-2 ^ 31 + 1 ≤ (-255 : Int) ∧ (-255 : Int) ≤ 2 ^ 31 - 1) ↔
        ∃! operand, ∃ bn, decode operand true = .ok bn ∧ bn.m_value = -255) ∧
      ∀ fRequireMinimal bn, decode [0xff, 0x80] fRequireMinimal = .ok bn →
        bn.getint = bn.m_value :=
  one_minimal_encoding (-255) (by decide) (by decide) [0xff, 0x80] (by decide)

end CScriptNum

end CentNode
