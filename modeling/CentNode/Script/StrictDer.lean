import CentNode.Library.BigEndian
import CentNode.Primitives.VarInt
import CentNode.Script.SignatureEncoding

/-!
# The grammar of signatures

What `IsValidSignatureEncoding` accepts: a compound of two integers in their shortest form, and
one byte for the hash type.
-/

namespace CentNode

open List

open BigEndian

def derInteger (bytes : List UInt8) : List UInt8 := 0x02 :: UInt8.ofNat bytes.length :: bytes

/-- A compound of two integers, and a byte for the hash type. -/
def derSignature (r s : List UInt8) (hashType : UInt8) : Valtype :=
  0x30 :: UInt8.ofNat (derInteger r ++ derInteger s).length ::
    (derInteger r ++ derInteger s ++ [hashType])

/-- The grammar of signatures. -/
def StrictDer (sig : Valtype) : Prop :=
  9 ≤ sig.length ∧ sig.length ≤ 73 ∧
    ∃ r s hashType, Shortest r ∧ Shortest s ∧ sig = derSignature r s hashType

/-- Bytes with the two lengths in them that say where the parts are. -/
def layout (compound total tagR lenR : UInt8) (r : List UInt8) (tagS lenS : UInt8)
    (s : List UInt8) (hashType : UInt8) : Valtype :=
  compound :: total :: tagR :: lenR :: (r ++ tagS :: lenS :: (s ++ [hashType]))

section Layout

variable {compound total tagR lenR tagS lenS hashType : UInt8} {r s : List UInt8}

theorem layout_length :
    (layout compound total tagR lenR r tagS lenS s hashType).length = r.length + s.length + 7 := by
  simp [layout]
  omega

theorem layout_tagR :
    (layout compound total tagR lenR r tagS lenS s hashType)[2]? = some tagR := rfl

section

variable (sized : r.length = lenR.toNat)

include sized

theorem layout_tagS :
    (layout compound total tagR lenR r tagS lenS s hashType)[lenR.toNat + 6 - 2]? = some tagS := by
  simp [layout, ← sized]

theorem layout_lenS :
    (layout compound total tagR lenR r tagS lenS s hashType)[5 + lenR.toNat]? = some lenS := by
  rw [Nat.add_comm]
  simp [layout, ← sized]

theorem layout_r :
    ((layout compound total tagR lenR r tagS lenS s hashType).drop 4).take lenR.toNat = r := by
  simp [layout, ← sized]

theorem layout_s (sizedS : s.length = lenS.toNat) :
    ((layout compound total tagR lenR r tagS lenS s hashType).drop (lenR.toNat + 6)).take
      lenS.toNat = s := by
  have past : r.drop (r.length + 2) = [] := drop_eq_nil_of_le (Nat.le_add_right _ 2)
  simp [layout, ← sized, ← sizedS, drop_append, past]

end

end Layout

/-- Bytes that the two lengths cover have such a layout. -/
theorem exists_layout {sig : Valtype} {lenR lenS : UInt8} (readR : sig[3]? = some lenR)
    (readS : sig[5 + lenR.toNat]? = some lenS)
    (covers : lenR.toNat + lenS.toNat + 7 = sig.length) :
    ∃ compound total tagR r tagS s hashType, r.length = lenR.toNat ∧ s.length = lenS.toNat ∧
      sig = layout compound total tagR lenR r tagS lenS s hashType := by
  match sig, readR with
  | compound :: total :: tagR :: _ :: body, rfl =>
    have bodyLength : body.length = lenR.toNat + lenS.toNat + 3 := by
      simp only [length_cons] at covers
      omega
    rw [Nat.add_comm] at readS
    have split := take_append_drop lenR.toNat body
    match later : body.drop lenR.toNat with
    | tagS :: lenS' :: tail =>
      have readTail : body[lenR.toNat + 1]? = some lenS' := by
        rw [← getElem?_drop, later]
        rfl
      obtain rfl : lenS' = lenS := Option.some.inj (readTail.symm.trans readS)
      have tailLength : tail.length = lenS'.toNat + 1 := by
        have lengths := congrArg List.length later
        simp only [length_drop, length_cons] at lengths
        omega
      obtain ⟨s, hashType, rfl⟩ : ∃ s hashType, tail = s ++ [hashType] :=
        ⟨tail.dropLast, tail.getLast (by rintro rfl; cases tailLength),
          (dropLast_append_getLast _).symm⟩
      refine ⟨compound, total, tagR, body.take lenR.toNat, tagS, s, hashType, ?_, ?_, ?_⟩
      · rw [length_take]
        omega
      · simpa using tailLength
      · rw [layout, ← later, split]
    | [] | [_] =>
      have lengths := congrArg List.length later
      simp only [length_drop, length_cons, length_nil] at lengths
      omega

theorem derSignature_eq_layout (r s : List UInt8) (hashType : UInt8) :
    derSignature r s hashType =
      layout 0x30 (UInt8.ofNat (r.length + s.length + 4)) 0x02 (UInt8.ofNat r.length) r 0x02
        (UInt8.ofNat s.length) s hashType := by
  have size : (derInteger r ++ derInteger s).length = r.length + s.length + 4 := by
    simp [derInteger]
    omega
  rw [derSignature, size]
  simp [derInteger, layout]

theorem strictDer_iff_layout {sig : Valtype} :
    StrictDer sig ↔ 9 ≤ sig.length ∧ sig.length ≤ 73 ∧
      ∃ total lenR r lenS s hashType, total.toNat = sig.length - 3 ∧ r.length = lenR.toNat ∧
        s.length = lenS.toNat ∧ Shortest r ∧ Shortest s ∧
          sig = layout 0x30 total 0x02 lenR r 0x02 lenS s hashType := by
  have fits : ∀ {n : Nat}, n ≤ 73 → (UInt8.ofNat n).toNat = n := fun small =>
    UInt8.toNat_ofNat_of_lt (Nat.lt_of_le_of_lt small (by decide))
  refine and_congr_right fun long => and_congr_right fun short => ?_
  constructor
  · rintro ⟨r, s, hashType, shortR, shortS, rfl⟩
    have laid := derSignature_eq_layout r s hashType
    rw [laid, layout_length] at short ⊢
    refine ⟨_, _, r, _, s, hashType, ?_, ?_, ?_, shortR, shortS, rfl⟩
    · rw [fits (by omega)]
      omega
    · exact (fits (by omega)).symm
    · exact (fits (by omega)).symm
  · rintro ⟨total, lenR, r, lenS, s, hashType, totalLength, sizedR, sizedS, shortR, shortS, rfl⟩
    refine ⟨r, s, hashType, shortR, shortS, ?_⟩
    rw [layout_length] at totalLength
    have totalEq : UInt8.ofNat (r.length + s.length + 4) = total := by
      rw [← @UInt8.ofNat_toNat total, totalLength]
      rfl
    rw [derSignature_eq_layout, totalEq, sizedR, sizedS, UInt8.ofNat_toNat, UInt8.ofNat_toNat]

/-- Of bytes in a layout the grammar asks for the tags, the lengths and the integers. -/
theorem strictDer_layout_iff {compound total tagR lenR tagS lenS hashType : UInt8}
    {r s : List UInt8} (sizedR : r.length = lenR.toNat) (sizedS : s.length = lenS.toNat)
    (long : 9 ≤ r.length + s.length + 7) (short : r.length + s.length + 7 ≤ 73) :
    StrictDer (layout compound total tagR lenR r tagS lenS s hashType) ↔
      compound = 0x30 ∧ total.toNat = r.length + s.length + 4 ∧ (tagR = 0x02 ∧ Shortest r) ∧
        tagS = 0x02 ∧ Shortest s := by
  rw [strictDer_iff_layout, layout_length, and_iff_right long, and_iff_right short]
  constructor
  · rintro ⟨_, _, r', _, s', _, totalLength, sizedR', sizedS', shortR, shortS, same⟩
    obtain ⟨rfl, rfl, rfl, rfl, later⟩ : compound = 0x30 ∧ total = _ ∧ tagR = 0x02 ∧ lenR = _ ∧
        r ++ tagS :: lenS :: (s ++ [hashType]) = r' ++ 0x02 :: _ :: (s' ++ [_]) := by
      simpa [layout] using same
    obtain ⟨rfl, next⟩ := append_inj later (sizedR.trans sizedR'.symm)
    obtain ⟨rfl, rfl, last⟩ : tagS = 0x02 ∧ lenS = _ ∧ s ++ [hashType] = s' ++ [_] := by
      simpa using next
    obtain ⟨rfl, -⟩ := append_inj last (sizedS.trans sizedS'.symm)
    exact ⟨rfl, totalLength, ⟨rfl, shortR⟩, rfl, shortS⟩
  · rintro ⟨rfl, totalLength, ⟨rfl, shortR⟩, rfl, shortS⟩
    exact ⟨total, lenR, r, lenS, s, hashType, totalLength, sizedR, sizedS, shortR, shortS, rfl⟩

/-! ## What the checks accept -/

theorem byteAt_meets {sig : Valtype} {i : Nat} (within : i < sig.length) :
    Outcome.Meets (byteAt sig i) (fun byte => sig[i]? = some byte) fun _ => False := by
  rw [byteAt_eq within]
  exact .ok (getElem?_eq_getElem within)

/-- The check of an integer: its tag, and that its bytes are as few as they can be. -/
theorem validInteger_meets {sig : Valtype} {start len : Nat} (tagged : 2 ≤ start)
    (inside : start + len < sig.length) :
    Outcome.Meets (validInteger sig start len)
      (fun valid => valid = true ↔
        sig[start - 2]? = some 0x02 ∧ Shortest ((sig.drop start).take len))
      fun _ => False := by
  unfold validInteger
  refine .bind (byteAt_meets (by omega)) fun tag tagRead => .ite (fun other => ?_) fun integer => ?_
  · refine .ok ⟨nofun, fun holds => absurd ?_ other⟩
    exact Option.some.inj (tagRead.symm.trans holds.1)
  refine .ite (fun empty => ?_) fun positive => ?_
  · refine .ok ⟨nofun, fun holds => ?_⟩
    obtain ⟨_, _, impossible, _⟩ := holds.2.nonNegative
    rw [empty, take_zero] at impossible
    cases impossible
  have tagIs : sig[start - 2]? = some 0x02 := by
    rw [tagRead, not_not.mp integer]
  refine .bind (byteAt_meets (by omega)) fun first firstRead => ?_
  obtain ⟨count, rfl⟩ : ∃ count, len = count + 1 := Nat.exists_eq_succ_of_ne_zero positive
  have within : start < sig.length := by omega
  have bytes : (sig.drop start).take (count + 1) =
      first :: (sig.drop (start + 1)).take count := by
    rw [drop_eq_getElem_cons within, take_succ_cons]
    rw [getElem?_eq_getElem within] at firstRead
    rw [Option.some.inj firstRead]
  rw [bytes, shortest_cons_iff, and_iff_right tagIs]
  have high := VarInt.and_0x80_ne_zero_iff
  refine .ite (fun set => ?_) fun free => ?_
  · exact .ok ⟨nofun, fun holds => absurd holds.1 (UInt8.not_lt.mpr ((high first).mp set))⟩
  have low : first < 0x80 := UInt8.not_le.mp fun large => free ((high first).mpr large)
  rw [and_iff_right low]
  refine .ite (fun null => ?_) fun single => ?_
  · refine .bind (byteAt_meets (by omega)) fun second secondRead => .ok ?_
    have next : ((sig.drop (start + 1)).take count).head? = some second := by
      rw [head?_take, if_neg (by omega), head?_drop, secondRead]
    rw [decide_eq_true_iff, high second, next]
    simp [null.2]
  · refine .ok (iff_of_true rfl fun zero second atHead => ?_)
    have none_left : count = 0 := by
      by_contra some_
      exact single ⟨by omega, zero⟩
    rw [none_left, take_zero] at atHead
    cases atHead

theorem isValidSignatureEncoding_meets (sig : Valtype) :
    Outcome.Meets (isValidSignatureEncoding sig) (fun valid => valid = true ↔ StrictDer sig)
      fun _ => False := by
  have refused : ¬ StrictDer sig →
      Outcome.Meets (.ok false) (fun valid => valid = true ↔ StrictDer sig) fun _ : Stop => False :=
    fun other => .ok ⟨nofun, fun der => absurd der other⟩
  unfold isValidSignatureEncoding
  refine .ite (fun short => refused fun der => absurd der.1 (by omega)) fun long => ?_
  refine .ite (fun large => refused fun der => absurd der.2.1 (by omega)) fun small => ?_
  -- a signature of the grammar passes each check
  have passes : StrictDer sig → sig[0]? = some 0x30 ∧ ∃ total lenR lenS,
      sig[1]? = some total ∧ total.toNat = sig.length - 3 ∧
        sig[3]? = some lenR ∧ 5 + lenR.toNat < sig.length ∧
          sig[5 + lenR.toNat]? = some lenS ∧ lenR.toNat + lenS.toNat + 7 = sig.length := by
    intro der
    obtain ⟨_, _, total, lenR, r, lenS, s, _, totalLength, sizedR, sizedS, _, _, rfl⟩ :=
      strictDer_iff_layout.mp der
    refine ⟨rfl, total, lenR, lenS, rfl, totalLength, rfl, ?_, layout_lenS sizedR, ?_⟩
    · rw [layout_length]
      omega
    · rw [layout_length, sizedR, sizedS]
  refine .bind (byteAt_meets (by omega)) fun compound compoundRead =>
    .ite (fun other => ?_) fun tagged => ?_
  · exact refused fun der => other (Option.some.inj (compoundRead.symm.trans (passes der).1))
  refine .bind (byteAt_meets (by omega)) fun total totalRead => .ite (fun other => ?_) fun whole => ?_
  · refine refused fun der => ?_
    obtain ⟨_, _, _, _, there, exact_, _⟩ := passes der
    cases totalRead.symm.trans there
    exact other exact_
  refine .bind (byteAt_meets (by omega)) fun lenR readR => .ite (fun outside => ?_) fun inside => ?_
  · refine refused fun der => ?_
    obtain ⟨_, _, _, _, _, _, there, within, _⟩ := passes der
    cases readR.symm.trans there
    omega
  refine .bind (byteAt_meets (by omega)) fun lenS readS =>
    .ite (fun uncovered => ?_) fun covers => ?_
  · refine refused fun der => ?_
    obtain ⟨_, _, _, _, _, _, thereR, _, thereS, covered⟩ := passes der
    cases readR.symm.trans thereR
    cases readS.symm.trans thereS
    exact uncovered covered
  obtain ⟨compound', total', tagR, r, tagS, s, hashType, sizedR, sizedS, rfl⟩ :=
    exists_layout readR readS (not_not.mp covers)
  cases compoundRead
  cases totalRead
  rw [layout_length] at long small whole
  have integers := @strictDer_layout_iff compound total tagR lenR tagS lenS hashType r s sizedR
    sizedS (by omega) (by omega)
  rw [and_iff_right (not_not.mp tagged), and_iff_right (by omega)] at integers
  have checkR := @validInteger_meets (layout compound total tagR lenR r tagS lenS s hashType) 4
    lenR.toNat (by decide) (by rw [layout_length]; omega)
  have checkS := @validInteger_meets (layout compound total tagR lenR r tagS lenS s hashType)
    (lenR.toNat + 6) lenS.toNat (by omega) (by rw [layout_length]; omega)
  rw [layout_r sizedR, layout_tagR, Option.some.injEq] at checkR
  rw [layout_s sizedR sizedS, layout_tagS sizedR, Option.some.injEq] at checkS
  refine .bind checkR fun validR firstHolds => .ite (fun invalid => ?_) fun valid => ?_
  · refine refused fun der => ?_
    rw [firstHolds.mpr (integers.mp der).1] at invalid
    cases invalid
  · have first := firstHolds.mp (by simpa using valid)
    rw [integers, and_iff_right first]
    exact checkS

/-- The check answers without a read past the end, and accepts exactly the grammar. -/
theorem isValidSignatureEncoding_iff (sig : Valtype) :
    ∃ valid, isValidSignatureEncoding sig = .ok valid ∧ (valid = true ↔ StrictDer sig) := by
  have met := isValidSignatureEncoding_meets sig
  cases answered : isValidSignatureEncoding sig with
  | error stop => exact (met.failure answered).elim
  | ok valid => exact ⟨valid, rfl, met.value answered⟩

end CentNode
