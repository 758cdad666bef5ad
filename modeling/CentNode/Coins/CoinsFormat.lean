import CentNode.Primitives.Compressor

/-!
# Pruned transactions on disk

`CCoins` is written with the spentness of its first two outputs in a header code and that of
the others, eight to a byte, in a mask.  The code also counts the bytes of the mask that are
not zero.
-/

namespace CentNode

open List BitVec

open Wire

/-! ## Integers that may be negative -/

/-- `WriteVarInt` of an `int`: the loop ends at once for a negative number. -/
def writeVarIntInt (n : Int) : List UInt8 :=
  if n ≤ 0x7F then [UInt8.ofNat (n % 128).toNat] else writeVarInt n.toNat

def getSizeOfVarIntInt (n : Int) : Nat :=
  if n ≤ 0x7F then 1 else VarInt.getSizeOfVarInt (BitVec.ofInt (8 * 4) n)

def readVarIntInt : Reader Int := do
  let n ← readVarInt
  pure (Int.bmod n (2 ^ 32))

theorem VarInt.getSizeOfVarInt_eq_length {size : Nat} (positive : 0 < size)
    (n : BitVec (8 * size)) :
    VarInt.getSizeOfVarInt n = (CentNode.writeVarInt n.toNat).length := by
  have filled := fillTmp_eq positive n 0 (by omega) n.isLt
  rw [if_pos rfl] at filled
  rw [getSizeOfVarInt_eq filled, length_reverse]

theorem length_writeVarIntInt {n : Int} (inRange : n < 2 ^ 31) :
    (writeVarIntInt n).length = getSizeOfVarIntInt n := by
  unfold writeVarIntInt getSizeOfVarIntInt
  split
  · rfl
  · next large =>
      have value : (BitVec.ofInt (8 * 4) n).toNat = n.toNat := by
        rw [toNat_ofInt]
        omega
      rw [VarInt.getSizeOfVarInt_eq_length (by decide), value]

theorem reads_varIntInt {n : Int} (nonneg : 0 ≤ n) (inRange : n < 2 ^ 31) :
    Reads readVarIntInt (writeVarIntInt n) n := by
  have bytes : writeVarIntInt n = writeVarInt n.toNat := by
    unfold writeVarIntInt
    split
    · next small =>
        have value : (n % 128).toNat = n.toNat := by omega
        rw [value, writeVarInt, if_pos (by omega)]
    · rfl
  have value : Int.bmod (n.toNat : Int) (2 ^ 32) = n := by
    rw [Int.bmod_def]
    omega
  have read := (reads_varInt n.toNat).map fun value : Nat => Int.bmod value (2 ^ 32)
  rw [value] at read
  rw [bytes]
  exact read

namespace CCoins

/-! ## The mask -/

/-- Whether some output of a byte of the mask is unspent: `!fZero`. -/
def maskByteUsed (coins : CCoins) (b : Nat) : Bool :=
  (List.range 8).any fun i => coins.isAvailable (2 + b * 8 + i)

/-- The iterations of `CalcMaskSize`: `2 + b * 8 < vout.size()`. -/
def maskBytes (coins : CCoins) : Nat := (coins.vout.length + 5) / 8

/-- `CalcMaskSize`: the bytes of the mask, and those of them that are not zero. -/
def calcMaskSize (coins : CCoins) : Nat × Nat :=
  (List.range coins.maskBytes).foldl
    (fun sizes b => if coins.maskByteUsed b then (b + 1, sizes.2 + 1) else sizes) (0, 0)

/-- One byte of the mask. -/
def chAvail (coins : CCoins) (b : Nat) : UInt8 :=
  (List.range 8).foldl
    (fun chAvail i =>
      if coins.isAvailable (2 + b * 8 + i) then chAvail ||| 1 <<< UInt8.ofNat i else chAvail) 0

def fFirst (coins : CCoins) : Bool := coins.isAvailable 0

def fSecond (coins : CCoins) : Bool := coins.isAvailable 1

/-- The four flags of the header code. -/
def codeFlags (fCoinBase fCoinStake fFirst fSecond : Bool) : Nat :=
  (if fCoinBase then 1 else 0) + (if fCoinStake then 2 else 0) + (if fFirst then 4 else 0) +
    if fSecond then 8 else 0

/-- `nCode`, with the factor before the count of mask bytes. -/
def nCode (factor : Nat) (coins : CCoins) : Nat :=
  (factor * (coins.calcMaskSize.2 - if coins.fFirst || coins.fSecond then 0 else 1) +
    codeFlags coins.fCoinBase coins.fCoinStake coins.fFirst coins.fSecond) % 2 ^ 32

/-- The outputs that are written. -/
def unspent (coins : CCoins) : List CTxOut := coins.vout.filter fun txout => !txout.isNull

/-! ## Writing and reading -/

variable (codec : KeyCodec)

/-- `CCoins::GetSerializeSize`; `none` where the assertion fails. -/
def getSerializeSize (coins : CCoins) : Option Nat :=
  if coins.fFirst || coins.fSecond || coins.calcMaskSize.2 ≠ 0 then
    some ((getSizeOfVarIntInt coins.nVersion +
      VarInt.getSizeOfVarInt (BitVec.ofNat (8 * 4) (coins.nCode 8)) + coins.calcMaskSize.1 +
      (coins.unspent.map fun txout => (codec.writeTxOut txout).length).sum +
      getSizeOfVarIntInt coins.nHeight) % 2 ^ 32)
  else none

/-- `CCoins::Serialize`; `none` where the assertion fails. -/
def serialize (coins : CCoins) : Option (List UInt8) :=
  if coins.fFirst || coins.fSecond || coins.calcMaskSize.2 ≠ 0 then
    some (writeVarIntInt coins.nVersion ++ (writeVarInt (coins.nCode 16) ++
      ((List.range coins.calcMaskSize.1).map coins.chAvail ++
        (coins.unspent.flatMap codec.writeTxOut ++ writeVarIntInt coins.nHeight))))
  else none

/-- The bits of a byte of the mask. -/
def maskBits (chAvail : UInt8) : List Bool :=
  (List.range 8).map fun p => decide (chAvail &&& (1 <<< UInt8.ofNat p) ≠ 0)

/-- The loop over the mask, until enough bytes were not zero. -/
def readMask : Nat → List Bool → Reader (List Bool)
  | nMaskCode, vAvail, [] => if nMaskCode = 0 then some (vAvail, []) else none
  | nMaskCode, vAvail, chAvail :: rest =>
    if nMaskCode = 0 then some (vAvail, chAvail :: rest)
    else readMask (if chAvail ≠ 0 then nMaskCode - 1 else nMaskCode)
      (vAvail ++ maskBits chAvail) rest

/-- The loop over the outputs. -/
def readOutputs : List Bool → Reader (List CTxOut)
  | [] => pure []
  | true :: vAvail => do
      let txout ← codec.readTxOut
      let vout ← readOutputs vAvail
      pure (txout :: vout)
  | false :: vAvail => do
      let vout ← readOutputs vAvail
      pure (CTxOut.null :: vout)

def unserialize : Reader CCoins := do
  let nVersion ← readVarIntInt
  let code ← readVarInt
  let nCode := code % 2 ^ 32
  let vAvail ← readMask (nCode / 16 + if nCode &&& 12 ≠ 0 then 0 else 1)
    [decide (nCode &&& 4 ≠ 0), decide (nCode &&& 8 ≠ 0)]
  let vout ← readOutputs codec vAvail
  let nHeight ← readVarIntInt
  pure (cleanup
    { fCoinBase := decide (nCode &&& 1 ≠ 0)
      fCoinStake := decide (nCode &&& 2 ≠ 0)
      vout := vout
      nHeight := nHeight
      nVersion := nVersion })

/-! ## Sizes of the mask -/

variable {codec}

variable {coins : CCoins}

theorem isAvailable_eq_false {nPos : Nat} (past : coins.vout.length ≤ nPos) :
    coins.isAvailable nPos = false := by
  rw [isAvailable, List.getElem?_eq_none past]

theorem isAvailable_getElem {nPos : Nat} (inside : nPos < coins.vout.length) :
    coins.isAvailable nPos = !coins.vout[nPos].isNull := by
  rw [isAvailable, List.getElem?_eq_getElem inside]

theorem maskByteUsed_iff {b : Nat} :
    coins.maskByteUsed b = true ↔ ∃ i < 8, coins.isAvailable (2 + b * 8 + i) = true := by
  rw [maskByteUsed, any_eq_true]
  constructor
  · rintro ⟨i, member, available⟩
    exact ⟨i, mem_range.mp member, available⟩
  · rintro ⟨i, small, available⟩
    exact ⟨i, mem_range.mpr small, available⟩

theorem calcMaskSize_spec (coins : CCoins) (count : Nat) :
    let sizes := (List.range count).foldl
      (fun sizes b => if coins.maskByteUsed b then (b + 1, sizes.2 + 1) else sizes) (0, 0)
    sizes.2 = (List.range count).countP coins.maskByteUsed ∧ sizes.1 ≤ count ∧
      (count ≠ 0 → coins.maskByteUsed (count - 1) = true → sizes.1 = count) := by
  dsimp only
  induction count with
  | zero => exact ⟨rfl, Nat.le_refl _, fun impossible => absurd rfl impossible⟩
  | succ count ih =>
    obtain ⟨counted, few, _⟩ := ih
    rw [range_succ, foldl_append, countP_append, foldl_cons, foldl_nil]
    by_cases used : coins.maskByteUsed count = true
    · rw [if_pos used, countP_cons_of_pos used]
      exact ⟨by rw [counted]; rfl, Nat.le_refl _, fun _ _ => rfl⟩
    · rw [if_neg used, countP_cons_of_neg used]
      exact ⟨counted, Nat.le_succ_of_le few, fun _ last => absurd last used⟩

/-- The groups of eight outputs, from the third output on, with an unspent one. -/
def usedGroups (coins : CCoins) : Nat := (List.range coins.maskBytes).countP coins.maskByteUsed

theorem calcMaskSize_snd (coins : CCoins) : coins.calcMaskSize.2 = coins.usedGroups :=
  (calcMaskSize_spec coins coins.maskBytes).1

/-- A record that is not empty passes the assertion. -/
theorem writable (some_ : coins.isPruned = false) :
    (coins.fFirst || coins.fSecond || coins.calcMaskSize.2 ≠ 0) = true := by
  have found : ∃ nPos < coins.vout.length, coins.isAvailable nPos = true := by
    by_contra nothing
    have pruned : coins.isPruned = true := by
      refine isPruned_iff.mpr fun txout member => ?_
      obtain ⟨nPos, inside, rfl⟩ := getElem_of_mem member
      by_contra unspent
      refine nothing ⟨nPos, inside, ?_⟩
      rw [isAvailable_getElem inside, Bool.eq_false_of_not_eq_true unspent]
      rfl
    rw [pruned] at some_
    cases some_
  obtain ⟨nPos, inside, available⟩ := found
  rcases Nat.lt_or_ge nPos 2 with early | late
  · obtain rfl | rfl : nPos = 0 ∨ nPos = 1 := by omega
    · rw [fFirst, available]
      rfl
    · rw [fSecond, available, Bool.or_true]
      rfl
  · have used : coins.maskByteUsed ((nPos - 2) / 8) = true := by
      refine maskByteUsed_iff.mpr ⟨(nPos - 2) % 8, Nat.mod_lt _ (by decide), ?_⟩
      have position : 2 + (nPos - 2) / 8 * 8 + (nPos - 2) % 8 = nPos := by omega
      rw [position]
      exact available
    have member : (nPos - 2) / 8 ∈ List.range coins.maskBytes := by
      rw [mem_range, maskBytes]
      omega
    have positive : 0 < coins.calcMaskSize.2 := by
      rw [calcMaskSize_snd, usedGroups, countP_pos_iff]
      exact ⟨_, member, used⟩
    rw [decide_eq_true (Nat.ne_of_gt positive), Bool.or_true]

theorem lastByte_used (cleaned : coins.cleanup = coins) (positive : 0 < coins.maskBytes) :
    coins.maskByteUsed (coins.maskBytes - 1) = true := by
  unfold maskBytes at positive ⊢
  have long : 0 < coins.vout.length := by omega
  have ends : coins.isAvailable (coins.vout.length - 1) = true := by
    have trimmed := cleanup_vout coins
    rw [cleaned] at trimmed
    have filled : coins.vout ≠ [] := ne_nil_of_length_pos long
    have last := (rdropWhile_eq_self_iff.mp trimmed.symm) filled
    rw [isAvailable_getElem (by omega), ← getLast_eq_getElem filled,
      Bool.eq_false_of_not_eq_true last]
    rfl
  refine maskByteUsed_iff.mpr ⟨(coins.vout.length - 3) % 8, Nat.mod_lt _ (by decide), ?_⟩
  have position : 2 + ((coins.vout.length + 5) / 8 - 1) * 8 + (coins.vout.length - 3) % 8 =
      coins.vout.length - 1 := by omega
  rw [position]
  exact ends

theorem calcMaskSize_fst (cleaned : coins.cleanup = coins) :
    coins.calcMaskSize.1 = coins.maskBytes := by
  obtain ⟨_, few, last⟩ := calcMaskSize_spec coins coins.maskBytes
  have at_most : coins.calcMaskSize.1 ≤ coins.maskBytes := few
  rcases Nat.eq_zero_or_pos coins.maskBytes with none_ | positive
  · rw [none_] at at_most ⊢
    exact Nat.le_zero.mp at_most
  · exact last (Nat.ne_of_gt positive) (lastByte_used cleaned positive)

/-! ## The mask is read back -/

theorem maskBits_zero : maskBits 0 = List.replicate 8 false := by decide

theorem maskBits_fold (avail : Nat → Bool) :
    maskBits ((List.range 8).foldl
      (fun chAvail i => if avail i then chAvail ||| 1 <<< UInt8.ofNat i else chAvail) 0) =
        (List.range 8).map avail := by
  have eight : List.range 8 = [0, 1, 2, 3, 4, 5, 6, 7] := rfl
  rw [eight]
  simp only [foldl_cons, foldl_nil, map_cons, map_nil]
  generalize avail 0 = b0, avail 1 = b1, avail 2 = b2, avail 3 = b3, avail 4 = b4,
    avail 5 = b5, avail 6 = b6, avail 7 = b7
  revert b0 b1 b2 b3 b4 b5 b6 b7
  decide +kernel

theorem maskBits_chAvail (coins : CCoins) (b : Nat) :
    maskBits (coins.chAvail b) = (List.range 8).map fun i => coins.isAvailable (2 + b * 8 + i) :=
  maskBits_fold fun i => coins.isAvailable (2 + b * 8 + i)

/-- A byte of the mask is zero exactly if no output of it is unspent. -/
theorem chAvail_ne_zero_iff (coins : CCoins) (b : Nat) :
    coins.chAvail b ≠ 0 ↔ coins.maskByteUsed b = true := by
  constructor
  · intro filled
    by_contra unused
    refine filled ?_
    have skip : ∀ i ∈ List.range 8, coins.isAvailable (2 + b * 8 + i) = false := by
      intro i member
      by_contra available
      exact unused (maskByteUsed_iff.mpr
        ⟨i, mem_range.mp member, Bool.eq_true_of_not_eq_false available⟩)
    have none_ : ∀ indices : List Nat,
        (∀ i ∈ indices, coins.isAvailable (2 + b * 8 + i) = false) →
          indices.foldl (fun chAvail i =>
            if coins.isAvailable (2 + b * 8 + i) then chAvail ||| 1 <<< UInt8.ofNat i
            else chAvail) 0 = 0 := by
      intro indices unavailable
      induction indices with
      | nil => rfl
      | cons i rest ih =>
        rw [foldl_cons, unavailable i mem_cons_self, if_neg Bool.false_ne_true]
        exact ih fun other member => unavailable other (mem_cons_of_mem _ member)
    exact none_ _ skip
  · rintro used zero
    obtain ⟨i, small, available⟩ := maskByteUsed_iff.mp used
    have bits := maskBits_chAvail coins b
    rw [zero, maskBits_zero] at bits
    have member : coins.isAvailable (2 + b * 8 + i) ∈ List.replicate 8 false := by
      rw [bits]
      exact mem_map_of_mem (mem_range.mpr small)
    rw [available] at member
    exact absurd (eq_of_mem_replicate member) (by decide)

/-- The reader takes the bytes up to the last one that is not zero. -/
theorem reads_mask (vAvail : List Bool) (bytes : List UInt8)
    (ends : ∀ filled : bytes ≠ [], bytes.getLast filled ≠ 0) :
    Reads (readMask (bytes.countP fun chAvail => decide (chAvail ≠ 0)) vAvail) bytes
      (vAvail ++ bytes.flatMap maskBits) := by
  intro more
  induction bytes generalizing vAvail with
  | nil =>
    rw [countP_nil, nil_append, flatMap_nil, append_nil]
    cases more with
    | nil => rfl
    | cons first rest => rfl
  | cons chAvail rest ih =>
    have endsRest : ∀ filled : rest ≠ [], rest.getLast filled ≠ 0 := by
      intro filled
      have last := ends (cons_ne_nil _ _)
      rwa [getLast_cons filled] at last
    have some_ : (chAvail :: rest).countP (fun chAvail => decide (chAvail ≠ 0)) ≠ 0 := by
      have last := getLast_mem (cons_ne_nil chAvail rest)
      exact Nat.ne_of_gt (countP_pos_iff.mpr
        ⟨_, last, decide_eq_true (ends (cons_ne_nil _ _))⟩)
    change readMask _ vAvail (chAvail :: (rest ++ more)) = _
    rw [readMask, if_neg some_]
    have left : (if chAvail ≠ 0 then
        (chAvail :: rest).countP (fun chAvail => decide (chAvail ≠ 0)) - 1
        else (chAvail :: rest).countP (fun chAvail => decide (chAvail ≠ 0))) =
          rest.countP fun chAvail => decide (chAvail ≠ 0) := by
      split
      · next nonzero =>
          have counted : decide (chAvail ≠ 0) = true := decide_eq_true nonzero
          rw [@countP_cons_of_pos _ (fun chAvail => decide (chAvail ≠ 0)) _ _ counted,
            Nat.add_sub_cancel]
      · next zero =>
          have passed : ¬ decide (chAvail ≠ 0) = true := fun set => zero (of_decide_eq_true set)
          rw [@countP_cons_of_neg _ (fun chAvail => decide (chAvail ≠ 0)) _ _ passed]
    rw [left, flatMap_cons, ← List.append_assoc]
    exact ih (vAvail ++ maskBits chAvail) endsRest

theorem flatMap_maskBits (coins : CCoins) (count : Nat) :
    [coins.fFirst, coins.fSecond] ++ ((List.range count).map coins.chAvail).flatMap maskBits =
      (List.range (2 + count * 8)).map coins.isAvailable := by
  induction count with
  | zero => rfl
  | succ count ih =>
    have more : 2 + (count + 1) * 8 = 2 + count * 8 + 8 := by omega
    have parts : (List.range (2 + count * 8 + 8)).map coins.isAvailable =
        (List.range (2 + count * 8)).map coins.isAvailable ++
          (List.range 8).map fun i => coins.isAvailable (2 + count * 8 + i) := by
      rw [@range_add (2 + count * 8) 8, map_append, map_map]
      rfl
    rw [range_succ, map_append, flatMap_append, ← List.append_assoc, ih, more,
      parts, map_singleton, flatMap_singleton, maskBits_chAvail]

/-! ## The header code -/

/-- The bytes of the mask that the header code counts: one less where it would be none. -/
def countedGroups (coins : CCoins) : Nat :=
  coins.usedGroups - if coins.fFirst || coins.fSecond then 0 else 1

theorem usedGroups_le (coins : CCoins) : coins.usedGroups ≤ coins.maskBytes := by
  have counted := @countP_le_length _ coins.maskByteUsed (List.range coins.maskBytes)
  rwa [length_range] at counted

theorem codeFlags_lt (fCoinBase fCoinStake fFirst fSecond : Bool) :
    codeFlags fCoinBase fCoinStake fFirst fSecond < 16 := by
  revert fCoinBase fCoinStake fFirst fSecond
  decide

theorem nCode_eq (few : coins.vout.length < 2 ^ 30) {factor : Nat} (factor_le : factor ≤ 16) :
    coins.nCode factor = factor * coins.countedGroups +
      codeFlags coins.fCoinBase coins.fCoinStake coins.fFirst coins.fSecond := by
  have groups : coins.countedGroups ≤ 2 ^ 27 := by
    have used := usedGroups_le coins
    unfold maskBytes at used
    unfold countedGroups
    omega
  have flags := codeFlags_lt coins.fCoinBase coins.fCoinStake coins.fFirst coins.fSecond
  have product := Nat.mul_le_mul factor_le groups
  rw [nCode, calcMaskSize_snd]
  change (factor * coins.countedGroups + _) % 2 ^ 32 = _
  exact Nat.mod_eq_of_lt (by omega)

theorem and_low (code : Nat) {bits : Nat} (low : 15 &&& bits = bits) :
    code &&& bits = code % 16 &&& bits := by
  rw [show code % 16 = code &&& 15 from (Nat.and_two_pow_sub_one_eq_mod code 4).symm,
    Nat.and_assoc, low]

theorem codeFlags_read : ∀ fCoinBase fCoinStake fFirst fSecond : Bool,
    let flags := codeFlags fCoinBase fCoinStake fFirst fSecond
    decide (flags &&& 1 ≠ 0) = fCoinBase ∧ decide (flags &&& 2 ≠ 0) = fCoinStake ∧
      decide (flags &&& 4 ≠ 0) = fFirst ∧ decide (flags &&& 8 ≠ 0) = fSecond ∧
        decide (flags &&& 12 ≠ 0) = (fFirst || fSecond) := by decide

/-- What is read from a header code for a record. -/
structure CodeRead (code groups : Nat) (coins : CCoins) : Prop where
  fCoinBase : decide (code &&& 1 ≠ 0) = coins.fCoinBase
  fCoinStake : decide (code &&& 2 ≠ 0) = coins.fCoinStake
  fFirst : decide (code &&& 4 ≠ 0) = coins.fFirst
  fSecond : decide (code &&& 8 ≠ 0) = coins.fSecond
  either : decide (code &&& 12 ≠ 0) = (coins.fFirst || coins.fSecond)
  groups : code / 16 = groups

theorem codeRead (few : coins.vout.length < 2 ^ 30) :
    CodeRead (coins.nCode 16) coins.countedGroups coins := by
  have small := codeFlags_lt coins.fCoinBase coins.fCoinStake coins.fFirst coins.fSecond
  obtain ⟨base, stake, first, second, either⟩ :=
    codeFlags_read coins.fCoinBase coins.fCoinStake coins.fFirst coins.fSecond
  have rest : coins.nCode 16 % 16 =
      codeFlags coins.fCoinBase coins.fCoinStake coins.fFirst coins.fSecond := by
    rw [nCode_eq few (Nat.le_refl 16)]
    omega
  refine ⟨?_, ?_, ?_, ?_, ?_, ?_⟩
  · rw [and_low _ (by decide), rest]
    exact base
  · rw [and_low _ (by decide), rest]
    exact stake
  · rw [and_low _ (by decide), rest]
    exact first
  · rw [and_low _ (by decide), rest]
    exact second
  · rw [and_low _ (by decide), rest]
    exact either
  · rw [nCode_eq few (Nat.le_refl 16)]
    omega

/-! ## The outputs are read back -/

/-- An output whose script is dropped when it is spent. -/
def nulledOut (txout : CTxOut) : CTxOut := if txout.isNull then CTxOut.null else txout

theorem isNull_nulledOut (txout : CTxOut) : (nulledOut txout).isNull = txout.isNull := by
  unfold nulledOut
  split
  · next null => exact null.symm
  · rfl

/-- The record with nulls in the spent positions. -/
def nulled (coins : CCoins) : CCoins := { coins with vout := coins.vout.map nulledOut }

theorem reads_outputs {vout : List CTxOut}
    (each : ∀ txout ∈ vout, txout.isNull = false →
      Reads codec.readTxOut (codec.writeTxOut txout) txout) :
    Reads (readOutputs codec (vout.map fun txout => !txout.isNull))
      ((vout.filter fun txout => !txout.isNull).flatMap codec.writeTxOut)
      (vout.map nulledOut) := by
  induction vout with
  | nil => exact Reads.pure []
  | cons txout rest ih =>
    have others := ih fun other member => each other (mem_cons_of_mem _ member)
    cases spent : txout.isNull with
    | true =>
      have dropped : nulledOut txout = CTxOut.null := if_pos spent
      rw [map_cons, map_cons, spent, dropped, filter_cons_of_neg]
      · exact others.map fun vout => CTxOut.null :: vout
      · rw [spent]
        exact Bool.false_ne_true
    | false =>
      have kept : nulledOut txout = txout := if_neg (by rw [spent]; exact Bool.false_ne_true)
      rw [map_cons, map_cons, spent, kept, filter_cons_of_pos]
      · rw [flatMap_cons]
        exact (each txout mem_cons_self spent).bind
          (others.map fun vout => txout :: vout)
      · rw [spent]
        rfl

/-- The outputs up to the end of the mask. -/
def padded (coins : CCoins) : List CTxOut :=
  coins.vout ++ List.replicate (2 + coins.maskBytes * 8 - coins.vout.length) CTxOut.null

theorem vout_available (coins : CCoins) :
    (List.range coins.vout.length).map coins.isAvailable =
      coins.vout.map fun txout => !txout.isNull := by
  refine ext_getElem (by rw [length_map, length_map, length_range]) ?_
  intro nPos _ shown
  have inside : nPos < coins.vout.length := by rwa [length_map] at shown
  rw [getElem_map, getElem_map, getElem_range, isAvailable_getElem inside]

theorem padded_available (coins : CCoins) :
    (List.range (2 + coins.maskBytes * 8)).map coins.isAvailable =
      coins.padded.map fun txout => !txout.isNull := by
  have covers : coins.vout.length + (2 + coins.maskBytes * 8 - coins.vout.length) =
      2 + coins.maskBytes * 8 := by
    unfold maskBytes
    omega
  have past : ((List.range (2 + coins.maskBytes * 8 - coins.vout.length)).map
      fun i => coins.isAvailable (coins.vout.length + i)) =
        List.replicate (2 + coins.maskBytes * 8 - coins.vout.length) false := by
    refine eq_replicate_iff.mpr ⟨by rw [length_map, length_range], ?_⟩
    intro available member
    obtain ⟨i, _, rfl⟩ := mem_map.mp member
    exact isAvailable_eq_false (Nat.le_add_right _ _)
  calc
    (List.range (2 + coins.maskBytes * 8)).map coins.isAvailable
      = (List.range (coins.vout.length +
          (2 + coins.maskBytes * 8 - coins.vout.length))).map coins.isAvailable := by rw [covers]
    _ = (coins.vout.map fun txout => !txout.isNull) ++
          List.replicate (2 + coins.maskBytes * 8 - coins.vout.length) false := by
      rw [range_add, map_append, vout_available, map_map, ← past]
      rfl
    _ = coins.padded.map fun txout => !txout.isNull := by
      rw [padded, map_append, map_replicate]
      rfl

theorem padded_unspent (coins : CCoins) :
    (coins.padded.filter fun txout => !txout.isNull) = coins.unspent := by
  have nothing : (List.replicate (2 + coins.maskBytes * 8 - coins.vout.length) CTxOut.null).filter
      (fun txout => !txout.isNull) = [] := by
    refine filter_eq_nil_iff.mpr fun txout member => ?_
    rw [eq_of_mem_replicate member]
    decide
  rw [padded, filter_append, nothing, append_nil, unspent]

theorem rdropWhile_append_replicate (vout : List CTxOut) (count : Nat) :
    (vout ++ List.replicate count CTxOut.null).rdropWhile CTxOut.isNull =
      vout.rdropWhile CTxOut.isNull := by
  induction count with
  | zero => rw [List.replicate_zero, append_nil]
  | succ count ih =>
    rw [List.replicate_succ', ← List.append_assoc, rdropWhile_concat_pos _ _ _ rfl, ih]

theorem padded_trimmed (cleaned : coins.cleanup = coins) :
    (coins.padded.map nulledOut).rdropWhile CTxOut.isNull = coins.vout.map nulledOut := by
  have null_eq : nulledOut CTxOut.null = CTxOut.null := rfl
  rw [padded, map_append, map_replicate, null_eq, rdropWhile_append_replicate]
  refine rdropWhile_eq_self_iff.mpr fun filled => ?_
  have some_ : coins.vout ≠ [] := fun none_ => filled (by rw [none_]; rfl)
  have trimmed := cleanup_vout coins
  rw [cleaned] at trimmed
  have last := (rdropWhile_eq_self_iff.mp trimmed.symm) some_
  rw [getLast_map, isNull_nulledOut]
  exact last

/-! ## The round trip -/

theorem mask_ends (cleaned : coins.cleanup = coins) :
    ∀ filled : (List.range coins.calcMaskSize.1).map coins.chAvail ≠ [],
      ((List.range coins.calcMaskSize.1).map coins.chAvail).getLast filled ≠ 0 := by
  rw [calcMaskSize_fst cleaned]
  intro filled
  have positive : 0 < coins.maskBytes := by
    refine Nat.pos_of_ne_zero fun none_ => ?_
    rw [none_] at filled
    exact filled rfl
  rw [getLast_map, getLast_range]
  exact (chAvail_ne_zero_iff coins _).mpr (lastByte_used cleaned positive)

theorem CodeRead.expected (read : CodeRead (coins.nCode 16) coins.countedGroups coins)
    (cleaned : coins.cleanup = coins) (some_ : coins.isPruned = false) :
    (coins.countedGroups + if coins.nCode 16 &&& 12 ≠ 0 then 0 else 1) =
      ((List.range coins.calcMaskSize.1).map coins.chAvail).countP
        fun chAvail => decide (chAvail ≠ 0) := by
  have counted : ((List.range coins.calcMaskSize.1).map coins.chAvail).countP
      (fun chAvail => decide (chAvail ≠ 0)) = coins.usedGroups := by
    rw [calcMaskSize_fst cleaned, countP_map, usedGroups]
    refine countP_congr fun b _ => ?_
    rw [Function.comp_apply, decide_eq_true_iff]
    exact chAvail_ne_zero_iff coins b
  have asserted := writable some_
  have either := read.either
  rw [calcMaskSize_snd] at asserted
  rw [counted, countedGroups]
  by_cases first : (coins.fFirst || coins.fSecond) = true
  · rw [first] at either
    rw [if_pos first, if_pos (of_decide_eq_true either)]
    rfl
  · rw [Bool.eq_false_of_not_eq_true first] at either asserted
    rw [Bool.false_or] at asserted
    have used := of_decide_eq_true asserted
    rw [if_neg first, if_neg (of_decide_eq_false either)]
    omega

/-- What a record of the chain meets. -/
structure Storable (coins : CCoins) : Prop where
  nHeight_nonneg : 0 ≤ coins.nHeight
  nHeight_lt : coins.nHeight < 2 ^ 31
  nVersion_nonneg : 0 ≤ coins.nVersion
  nVersion_lt : coins.nVersion < 2 ^ 31
  few : coins.vout.length < 2 ^ 30
  money : ∀ txout ∈ coins.vout, txout.isNull = false → mainParams.moneyRange txout.nValue = true
  short : ∀ txout ∈ coins.vout, txout.scriptPubKey.length + nSpecialScripts < 2 ^ 32

/-- A record is read back from its bytes, whatever follows them, with nulls in the spent
positions. -/
theorem reads_serializeCoins (inverts : codec.Inverts) {coins : CCoins}
    (cleaned : coins.cleanup = coins) (some_ : coins.isPruned = false)
    (storable : coins.Storable) :
    ∃ bytes, coins.serialize codec = some bytes ∧
      Reads (unserialize codec) bytes coins.nulled ∧
        ((∀ txout ∈ coins.vout, txout.isNull = true → txout = CTxOut.null) →
          coins.nulled = coins) := by
  refine ⟨_, if_pos (writable some_), ?_, ?_⟩
  · have read := codeRead storable.few
    have code_lt : coins.nCode 16 < 2 ^ 32 := Nat.mod_lt _ (by decide)
    have each : ∀ txout ∈ coins.padded, txout.isNull = false →
        Reads codec.readTxOut (codec.writeTxOut txout) txout := by
      intro txout member unspent
      rcases mem_append.mp member with own | blank
      · exact KeyCodec.reads_txOut inverts (storable.money txout own unspent)
          (storable.short txout own)
      · rw [eq_of_mem_replicate blank] at unspent
        cases unspent
    have packed : cleanup { coins with vout := coins.padded.map nulledOut } = coins.nulled := by
      rw [cleanup, nulled, padded_trimmed cleaned]
    refine (reads_varIntInt storable.nVersion_nonneg storable.nVersion_lt).bind ?_
    refine (reads_varInt (coins.nCode 16)).bind ?_
    dsimp only
    rw [Nat.mod_eq_of_lt code_lt, read.groups, read.fFirst, read.fSecond, read.fCoinBase,
      read.fCoinStake, read.expected cleaned some_]
    refine (reads_mask [coins.fFirst, coins.fSecond] _ (mask_ends cleaned)).bind ?_
    rw [flatMap_maskBits, calcMaskSize_fst cleaned, padded_available, ← padded_unspent]
    refine (reads_outputs each).bind ?_
    rw [← packed]
    exact (reads_varIntInt storable.nHeight_nonneg storable.nHeight_lt).map fun nHeight =>
      cleanup
        { fCoinBase := coins.fCoinBase
          fCoinStake := coins.fCoinStake
          vout := coins.padded.map nulledOut
          nHeight := nHeight
          nVersion := coins.nVersion }
  · intro spent
    have same : coins.vout.map nulledOut = coins.vout := by
      refine (map_congr_left fun txout member => ?_).trans (map_id _)
      unfold nulledOut
      split
      · next null => exact (spent txout member null).symm
      · rfl
    rw [nulled, same]

/-- An uncompressed key. -/
def generatorKey : List UInt8 :=
  [0x04, 0x79, 0xbe, 0x66, 0x7e, 0xf9, 0xdc, 0xbb, 0xac, 0x55, 0xa0, 0x62, 0x95, 0xce, 0x87,
    0x0b, 0x07, 0x02, 0x9b, 0xfc, 0xdb, 0x2d, 0xce, 0x28, 0xd9, 0x59, 0xf2, 0x81, 0x5b, 0x16,
    0xf8, 0x17, 0x98, 0x48, 0x3a, 0xda, 0x77, 0x26, 0xa3, 0xc4, 0x65, 0x5d, 0xa4, 0xfb, 0xfc,
    0x0e, 0x11, 0x08, 0xa8, 0xfd, 0x17, 0xb4, 0x48, 0xa6, 0x85, 0x54, 0x19, 0x9c, 0x47, 0xd0,
    0x8f, 0xfb, 0x10, 0xd4, 0xb8]

/-- A curve with this key only. -/
def generatorCodec : KeyCodec where
  isFullyValid := fun pubkey => decide (pubkey = generatorKey)
  decompress := fun pubkey =>
    if pubkey = 2 :: (generatorKey.drop 1).take 32 then some generatorKey else none

theorem generatorCodec_inverts : generatorCodec.Inverts where
  inverts := by
    intro pubkey _ _ valid
    obtain rfl : pubkey = generatorKey := of_decide_eq_true valid
    decide

/-- A coinstake whose second and whose thirteenth output are unspent. -/
def stakedCoins : CCoins where
  fCoinStake := true
  vout := [CTxOut.null, ⟨234925952, [65] ++ generatorKey ++ [opChecksig]⟩] ++
    List.replicate 10 CTxOut.null ++ [⟨110397, [0x51]⟩]
  nHeight := 120891
  nVersion := 1

theorem reads_serialize_stakedCoins :
    ∃ bytes, stakedCoins.serialize generatorCodec = some bytes ∧
      Reads (unserialize generatorCodec) bytes stakedCoins.nulled ∧
        ((∀ txout ∈ stakedCoins.vout, txout.isNull = true → txout = CTxOut.null) →
          stakedCoins.nulled = stakedCoins) :=
  reads_serializeCoins generatorCodec_inverts (by decide +kernel) (by decide +kernel)
    ⟨by decide, by decide, by decide, by decide, by decide +kernel, by decide +kernel,
      by decide +kernel⟩

/-! ## The announced size -/

variable {n : Nat}

theorem length_writeVarIntHigh_large (large : ¬ n ≤ 127) :
    (writeVarIntHigh n n).length =
      (writeVarIntHigh (n / 128 - 1) (n / 128 - 1)).length + 1 := by
  rw [writeVarIntHigh_large large, length_append, length_singleton]

theorem length_writeVarIntHigh_small (small : n ≤ 127) : (writeVarIntHigh n n).length = 1 := by
  rw [writeVarIntHigh_small small (Nat.le_refl n), length_singleton]

/-- One more byte from a bound on. -/
def step (bound n : Nat) : Nat := if n < bound then 0 else 1

theorem step_le (bound : Nat) {m : Nat} (le : n ≤ m) :
    step bound n ≤ step bound m ∧ (step bound n = step bound m ↔ ¬ (n < bound ∧ ¬ m < bound)) := by
  unfold step
  by_cases below : m < bound
  · rw [if_pos (Nat.lt_of_le_of_lt le below), if_pos below]
    exact ⟨Nat.le_refl _, fun _ other => other.2 below, fun _ => rfl⟩
  · rw [if_neg below]
    by_cases small : n < bound
    · rw [if_pos small]
      exact ⟨Nat.zero_le _, fun impossible => (nomatch impossible),
        fun other => absurd ⟨small, below⟩ other⟩
    · rw [if_neg small]
      exact ⟨Nat.le_refl _, fun _ other => small other.1, fun _ => rfl⟩

theorem length_writeVarInt (word : n < 2 ^ 32) :
    (writeVarInt n).length = 1 + step (16 * 8) n + step (16 * 1032) n + step (16 * 132104) n +
      step (16 * 16909320) n := by
  have same : (writeVarInt n).length = (writeVarIntHigh n n).length := by
    by_cases small : n ≤ 127
    · rw [length_writeVarIntHigh_small small, writeVarInt, if_pos small, length_singleton]
    · rw [length_writeVarIntHigh_large small, writeVarInt_large small, length_append,
        length_singleton]
  rw [same]
  unfold step
  by_cases one : n ≤ 127
  · rw [length_writeVarIntHigh_small one]
    split_ifs <;> omega
  rw [length_writeVarIntHigh_large one]
  by_cases two : n / 128 - 1 ≤ 127
  · rw [length_writeVarIntHigh_small two]
    split_ifs <;> omega
  rw [length_writeVarIntHigh_large two]
  by_cases three : (n / 128 - 1) / 128 - 1 ≤ 127
  · rw [length_writeVarIntHigh_small three]
    split_ifs <;> omega
  rw [length_writeVarIntHigh_large three]
  by_cases four : ((n / 128 - 1) / 128 - 1) / 128 - 1 ≤ 127
  · rw [length_writeVarIntHigh_small four]
    split_ifs <;> omega
  rw [length_writeVarIntHigh_large four, length_writeVarIntHigh_small (by omega)]
  split_ifs <;> omega

theorem codeFlags_lt_8_iff : ∀ fCoinBase fCoinStake fFirst fSecond : Bool,
    codeFlags fCoinBase fCoinStake fFirst fSecond < 8 ↔ fSecond = false := by decide

/-- The counts of groups for which the two header codes take different numbers of bytes. -/
def Miscounted (coins : CCoins) (limit : Nat) : Prop :=
  limit ≤ coins.countedGroups ∧ (coins.countedGroups < 2 * limit - 1 ∨
    coins.countedGroups = 2 * limit - 1 ∧ coins.fSecond = false)

/-- The header code is not longer than the one that is announced, and as long exactly if the
count of groups is outside four ranges. -/
theorem length_nCode (few : coins.vout.length < 2 ^ 30) :
    (writeVarInt (coins.nCode 8)).length ≤ (writeVarInt (coins.nCode 16)).length ∧
      ((writeVarInt (coins.nCode 8)).length = (writeVarInt (coins.nCode 16)).length ↔
        ∀ limit ∈ [8, 1032, 132104, 16909320], ¬ coins.Miscounted limit) := by
  have flags := codeFlags_lt coins.fCoinBase coins.fCoinStake coins.fFirst coins.fSecond
  have second := codeFlags_lt_8_iff coins.fCoinBase coins.fCoinStake coins.fFirst coins.fSecond
  have eight := nCode_eq few (show 8 ≤ 16 by decide)
  have sixteen := nCode_eq few (Nat.le_refl 16)
  have word8 : coins.nCode 8 < 2 ^ 32 := Nat.mod_lt _ (by decide)
  have word16 : coins.nCode 16 < 2 ^ 32 := Nat.mod_lt _ (by decide)
  rw [length_writeVarInt word8, length_writeVarInt word16]
  generalize codeFlags coins.fCoinBase coins.fCoinStake coins.fFirst coins.fSecond = rest at *
  -- each bound is sixteen times a limit
  have range : ∀ {limit : Nat}, 0 < limit → (coins.Miscounted limit ↔
      coins.nCode 8 < 16 * limit ∧ ¬ coins.nCode 16 < 16 * limit) := by
    intro limit positive
    rw [Miscounted, ← second, eight, sixteen]
    omega
  have le : coins.nCode 8 ≤ coins.nCode 16 := by omega
  have one := step_le (16 * 8) le
  have two := step_le (16 * 1032) le
  have three := step_le (16 * 132104) le
  have four := step_le (16 * 16909320) le
  rw [← range (by decide)] at one two three four
  have all : (∀ limit ∈ [8, 1032, 132104, 16909320], ¬ coins.Miscounted limit) ↔
      ¬ coins.Miscounted 8 ∧ ¬ coins.Miscounted 1032 ∧ ¬ coins.Miscounted 132104 ∧
        ¬ coins.Miscounted 16909320 := by
    rw [forall_mem_cons, forall_mem_cons, forall_mem_cons, forall_mem_singleton]
  rw [all, ← one.2, ← two.2, ← three.2, ← four.2]
  constructor
  · exact Nat.add_le_add (Nat.add_le_add (Nat.add_le_add (Nat.add_le_add_left one.1 1) two.1)
      three.1) four.1
  · constructor
    · intro same
      have oneLe := one.1
      have twoLe := two.1
      have threeLe := three.1
      have fourLe := four.1
      refine ⟨?_, ?_, ?_, ?_⟩ <;> omega
    · rintro ⟨sameOne, sameTwo, sameThree, sameFour⟩
      rw [sameOne, sameTwo, sameThree, sameFour]

/-- The announced size is the number of bytes exactly if the factor of eight makes no
difference to the size of the header code. -/
theorem getSerializeSize_eq_iff {coins : CCoins} (some_ : coins.isPruned = false)
    (few : coins.vout.length < 2 ^ 30) (nVersion_lt : coins.nVersion < 2 ^ 31)
    (nHeight_lt : coins.nHeight < 2 ^ 31)
    (short : ∀ bytes, coins.serialize codec = some bytes → bytes.length < 2 ^ 32) :
    (∃ bytes, coins.serialize codec = some bytes ∧
        coins.getSerializeSize codec = some bytes.length) ↔
      ∀ limit ∈ [8, 1032, 132104, 16909320], ¬ coins.Miscounted limit := by
  obtain ⟨le, same_iff⟩ := length_nCode few
  have word : coins.nCode 8 < 2 ^ 32 := Nat.mod_lt _ (by decide)
  have announced : VarInt.getSizeOfVarInt (BitVec.ofNat (8 * 4) (coins.nCode 8)) =
      (writeVarInt (coins.nCode 8)).length := by
    rw [VarInt.getSizeOfVarInt_eq_length (by decide), toNat_ofNat, Nat.mod_eq_of_lt word]
  -- apart from the header code, what is announced is what is written
  let others := getSizeOfVarIntInt coins.nVersion + coins.calcMaskSize.1 +
    (coins.unspent.map fun txout => (codec.writeTxOut txout).length).sum +
      getSizeOfVarIntInt coins.nHeight
  have size_eq : coins.getSerializeSize codec =
      some ((others + (writeVarInt (coins.nCode 8)).length) % 2 ^ 32) := by
    rw [getSerializeSize, if_pos (writable some_), announced]
    congr 2
    dsimp only [others]
    omega
  obtain ⟨bytes, written⟩ : ∃ bytes, coins.serialize codec = some bytes :=
    ⟨_, if_pos (writable some_)⟩
  have length_eq : bytes.length = others + (writeVarInt (coins.nCode 16)).length := by
    have bytes_eq := written
    rw [serialize, if_pos (writable some_)] at bytes_eq
    cases bytes_eq
    simp only [length_append, length_map, length_range, length_flatMap,
      length_writeVarIntInt nVersion_lt, length_writeVarIntInt nHeight_lt]
    dsimp only [others]
    omega
  have bounded := short bytes written
  rw [← same_iff, written, size_eq, Nat.mod_eq_of_lt (by omega)]
  constructor
  · rintro ⟨_, same, size⟩
    cases same
    have sizes := Option.some.inj size
    omega
  · intro same
    exact ⟨bytes, rfl, congrArg some (by omega)⟩

/-- A record with a number of small outputs, all of them unspent. -/
def smallCoins (count : Nat) : CCoins where
  vout := List.replicate count ⟨1, []⟩
  nHeight := 1
  nVersion := 1

theorem getSerializeSize_smallCoins :
    ∃ bytes, (smallCoins 58).serialize generatorCodec = some bytes ∧
      (smallCoins 58).getSerializeSize generatorCodec = some bytes.length := by
  refine (getSerializeSize_eq_iff (by decide +kernel) (by decide +kernel) (by decide) (by decide)
    ?_).mpr ?_
  · have small : ∀ bytes ∈ (smallCoins 58).serialize generatorCodec, bytes.length < 2 ^ 32 := by
      decide +kernel
    exact fun bytes written => small bytes written
  · unfold Miscounted
    decide +kernel

/-- One output more, and the announced size is one byte short. -/
theorem smallCoins_short :
    (smallCoins 59).isPruned = false ∧ 0 ≤ (smallCoins 59).nVersion ∧
      ∃ bytes, (smallCoins 59).serialize generatorCodec = some bytes ∧ bytes.length = 130 ∧
        (smallCoins 59).getSerializeSize generatorCodec = some 129 := by
  have length_eq : ((smallCoins 59).serialize generatorCodec).map List.length = some 130 := by
    decide +kernel
  obtain ⟨bytes, written, long⟩ := Option.map_eq_some_iff.mp length_eq
  refine ⟨by decide +kernel, by decide, bytes, written, long, ?_⟩
  have header : VarInt.getSizeOfVarInt (BitVec.ofNat (8 * 4) ((smallCoins 59).nCode 8)) = 1 := by
    have code_eq : (smallCoins 59).nCode 8 = 76 := by decide +kernel
    rw [code_eq, VarInt.getSizeOfVarInt_eq_length (by decide)]
    decide
  have asserted : ((smallCoins 59).fFirst || (smallCoins 59).fSecond ||
      decide ((smallCoins 59).calcMaskSize.2 ≠ 0)) = true := by decide +kernel
  rw [getSerializeSize, if_pos asserted, header]
  decide +kernel

end CCoins

end CentNode
