import CentNode.Chain.BlockIndex
import CentNode.Primitives.Standard
import CentNode.Primitives.VarInt

/-!
# Compressed outputs

`CScriptCompressor` and `CTxOutCompressor`: a script of one of six forms is kept as a number
and a hash or half a key, any other script with its size, and an amount without its zeros.
-/

namespace CentNode

open List

open Wire

/-! ## Amounts -/

/-- The loop of `CompressAmount`: at most a number of zeros is taken off the end, and they
are counted. -/
def stripZeros : Nat → Nat → Nat × Nat
  | 0, n => (n, 0)
  | more + 1, n =>
    if n % 10 = 0 then ((stripZeros more (n / 10)).1, (stripZeros more (n / 10)).2 + 1)
    else (n, 0)

/-- `CTxOutCompressor::CompressAmount`, on a `uint64_t`. -/
def compressAmount (n : Nat) : Nat :=
  if n = 0 then 0
  else
    let stripped := (stripZeros 9 n).1
    let e := (stripZeros 9 n).2
    if e < 9 then (1 + (stripped / 10 * 9 + stripped % 10 - 1) * 10 + e) % 2 ^ 64
    else (1 + (stripped - 1) * 10 + 9) % 2 ^ 64

def decompressAmount (x : Nat) : Nat :=
  if x = 0 then 0
  else
    let e := (x - 1) % 10
    let rest := (x - 1) / 10
    let n := if e < 9 then rest / 9 * 10 + (rest % 9 + 1) else rest + 1
    n * 10 ^ e % 2 ^ 64

theorem stripZeros_spec (more n : Nat) :
    n = (stripZeros more n).1 * 10 ^ (stripZeros more n).2 ∧ (stripZeros more n).2 ≤ more ∧
      ((stripZeros more n).2 < more → (stripZeros more n).1 % 10 ≠ 0) := by
  induction more generalizing n with
  | zero => exact ⟨(Nat.mul_one n).symm, Nat.le_refl _, fun less => absurd less (Nat.lt_irrefl _)⟩
  | succ more ih =>
    rw [stripZeros]
    split
    · next zero =>
        obtain ⟨whole, few, last⟩ := ih (n / 10)
        refine ⟨?_, Nat.succ_le_succ few, fun less => last (Nat.lt_of_succ_lt_succ less)⟩
        calc
          n = n / 10 * 10 := by omega
          _ = (stripZeros more (n / 10)).1 * 10 ^ (stripZeros more (n / 10)).2 * 10 := by
            rw [← whole]
          _ = (stripZeros more (n / 10)).1 * 10 ^ ((stripZeros more (n / 10)).2 + 1) := by
            rw [Nat.mul_assoc, ← Nat.pow_succ]
    · next digit => exact ⟨(Nat.mul_one n).symm, Nat.zero_le _, fun _ => digit⟩

/-- What `CompressAmount` computes before it is reduced to 64 bits. -/
def exactCompressed (n : Nat) : Nat :=
  if n = 0 then 0
  else
    let stripped := (stripZeros 9 n).1
    let e := (stripZeros 9 n).2
    if e < 9 then 1 + (stripped / 10 * 9 + stripped % 10 - 1) * 10 + e
    else 1 + (stripped - 1) * 10 + 9

/-- The amount that a number stands for, before it is reduced to 64 bits. -/
def exactDecompressed (x : Nat) : Nat :=
  if x = 0 then 0
  else
    let e := (x - 1) % 10
    let rest := (x - 1) / 10
    (if e < 9 then rest / 9 * 10 + (rest % 9 + 1) else rest + 1) * 10 ^ e

theorem compressAmount_eq (n : Nat) : compressAmount n = exactCompressed n % 2 ^ 64 := by
  unfold compressAmount exactCompressed
  dsimp only
  rw [apply_ite (fun number => number % 2 ^ 64), apply_ite (fun number => number % 2 ^ 64),
    Nat.zero_mod]

theorem decompressAmount_eq (x : Nat) : decompressAmount x = exactDecompressed x % 2 ^ 64 := by
  unfold decompressAmount exactDecompressed
  dsimp only
  rw [apply_ite (fun number => number % 2 ^ 64), Nat.zero_mod]

/-- A number without a zero at the end, or with nine taken off, is what the loop leaves. -/
theorem stripZeros_mul {more rest e : Nat} (few : e ≤ more)
    (last : e < more → rest % 10 ≠ 0) : stripZeros more (rest * 10 ^ e) = (rest, e) := by
  induction more generalizing e with
  | zero =>
    obtain rfl := Nat.le_zero.mp few
    rw [Nat.pow_zero, Nat.mul_one, stripZeros]
  | succ more ih =>
    cases e with
    | zero => rw [Nat.pow_zero, Nat.mul_one, stripZeros, if_neg (last (Nat.zero_lt_succ more))]
    | succ e =>
      rw [Nat.pow_succ, ← Nat.mul_assoc, stripZeros, if_pos (Nat.mul_mod_left _ _),
        Nat.mul_div_cancel _ (by decide), ih (Nat.le_of_succ_le_succ few) fun less =>
          last (Nat.succ_lt_succ less)]

theorem exactDecompressed_exactCompressed (n : Nat) :
    exactDecompressed (exactCompressed n) = n := by
  unfold exactCompressed
  by_cases zero : n = 0
  · rw [if_pos zero, zero]
    rfl
  obtain ⟨whole, few, last⟩ := stripZeros_spec 9 n
  rw [if_neg zero]
  dsimp only
  generalize stripZeros 9 n = stripped at whole few last
  obtain ⟨rest, e⟩ := stripped
  dsimp only at whole few last ⊢
  have positive : 0 < rest := by
    rcases Nat.eq_zero_or_pos rest with nothing | positive
    · rw [nothing, Nat.zero_mul] at whole
      exact absurd whole zero
    · exact positive
  unfold exactDecompressed
  by_cases short : e < 9
  · have digit := last short
    rw [if_pos short, if_neg (by omega)]
    have exponent : (1 + (rest / 10 * 9 + rest % 10 - 1) * 10 + e - 1) % 10 = e := by omega
    have number : (1 + (rest / 10 * 9 + rest % 10 - 1) * 10 + e - 1) / 10 =
        rest / 10 * 9 + rest % 10 - 1 := by omega
    have digits : (rest / 10 * 9 + rest % 10 - 1) / 9 * 10 +
        ((rest / 10 * 9 + rest % 10 - 1) % 9 + 1) = rest := by omega
    dsimp only
    rw [exponent, number, if_pos short, digits, ← whole]
  · obtain rfl : e = 9 := by omega
    have exponent : (1 + (rest - 1) * 10 + 9 - 1) % 10 = 9 := by omega
    have number : (1 + (rest - 1) * 10 + 9 - 1) / 10 + 1 = rest := by omega
    rw [if_neg short, if_neg (by omega)]
    dsimp only
    rw [exponent, if_neg short, number, ← whole]

theorem exactCompressed_exactDecompressed (x : Nat) :
    exactCompressed (exactDecompressed x) = x := by
  unfold exactDecompressed
  by_cases zero : x = 0
  · rw [if_pos zero, zero]
    rfl
  rw [if_neg zero]
  dsimp only
  generalize exponent : (x - 1) % 10 = e
  have small : e ≤ 9 := by omega
  generalize digits : (if e < 9 then (x - 1) / 10 / 9 * 10 + ((x - 1) / 10 % 9 + 1)
    else (x - 1) / 10 + 1) = rest
  have last : e < 9 → rest % 10 ≠ 0 := by
    intro short
    rw [if_pos short] at digits
    omega
  have positive : rest ≠ 0 := by
    split at digits
    · omega
    · omega
  unfold exactCompressed
  rw [if_neg (Nat.mul_ne_zero positive (Nat.pow_pos (by decide)).ne'), stripZeros_mul small last]
  dsimp only
  by_cases short : e < 9
  · rw [if_pos short] at digits ⊢
    omega
  · rw [if_neg short] at digits ⊢
    omega

theorem exactCompressed_le (n : Nat) : exactCompressed n ≤ 10 * n := by
  unfold exactCompressed
  split
  · exact Nat.zero_le _
  · next nonzero =>
      obtain ⟨whole, few, last⟩ := stripZeros_spec 9 n
      have least := Nat.le_mul_of_pos_right (stripZeros 9 n).1
        (Nat.pow_pos (n := (stripZeros 9 n).2) (show 0 < 10 by decide))
      rw [← whole] at least
      have positive : (stripZeros 9 n).1 ≠ 0 := by
        intro nothing
        rw [nothing, Nat.zero_mul] at whole
        exact nonzero whole
      dsimp only
      split
      · omega
      · omega

/-- An amount far from the end of its type is got back. -/
theorem decompressAmount_compressAmount {n : Nat} (small : n < 2 ^ 60) :
    decompressAmount (compressAmount n) = n := by
  have fits := exactCompressed_le n
  rw [compressAmount_eq, Nat.mod_eq_of_lt (by omega), decompressAmount_eq,
    exactDecompressed_exactCompressed, Nat.mod_eq_of_lt (by omega)]

/-- Amounts of money are compressed within 64 bits, with the digit that the assertion asks
for, and one to one. -/
theorem amounts_one_to_one :
    (∀ n : Nat, (n : Int) ≤ mainParams.maxMoneyOut → exactCompressed n < 2 ^ 64 ∧
      (n ≠ 0 → (stripZeros 9 n).2 < 9 → 1 ≤ (stripZeros 9 n).1 % 10) ∧
      decompressAmount (compressAmount n) = n) ∧
    ∀ x < 2 ^ 64, exactDecompressed x < 2 ^ 60 → compressAmount (decompressAmount x) = x := by
  refine ⟨fun n money => ?_, fun x word small => ?_⟩
  · have limit : mainParams.maxMoneyOut = 5000000000000000 := by decide
    have fits := exactCompressed_le n
    exact ⟨by omega, fun _ short => Nat.pos_of_ne_zero ((stripZeros_spec 9 n).2.2 short),
      decompressAmount_compressAmount (by omega)⟩
  · rw [decompressAmount_eq, Nat.mod_eq_of_lt (by omega), compressAmount_eq,
      exactCompressed_exactDecompressed, Nat.mod_eq_of_lt word]

/-! ## Scripts -/

/-- What the compressor takes from the curve. -/
structure KeyCodec where
  /-- `CPubKey::IsFullyValid`. -/
  isFullyValid : List UInt8 → Bool
  /-- `CPubKey::Decompress`. -/
  decompress : List UInt8 → Option (List UInt8)

/-- Decompressing inverts the compression of a fully valid uncompressed key, to the parity
of its last byte and the first of its two numbers. -/
structure KeyCodec.Inverts (codec : KeyCodec) : Prop where
  inverts : ∀ pubkey : List UInt8, pubkey.length = 65 → pubkey.headD 0 = 4 →
    codec.isFullyValid pubkey = true →
      codec.decompress ((2 + (pubkey.getD 64 0 &&& 1)) :: (pubkey.drop 1).take 32) = some pubkey

def nSpecialScripts : Nat := 6

def isToKeyID (script : CScript) : Option (List UInt8) :=
  if script.length = 25 ∧ script.take 3 = [opDup, opHash160, 20] ∧
      script.drop 23 = [opEqualverify, opChecksig] then some ((script.drop 3).take 20)
  else none

def isToScriptID (script : CScript) : Option (List UInt8) :=
  if script.length = 23 ∧ script.take 2 = [opHash160, 20] ∧ script.drop 22 = [opEqual] then
    some ((script.drop 2).take 20)
  else none

namespace KeyCodec

variable (codec : KeyCodec)

/-- `IsToPubKey`: a compressed key, or an uncompressed one that is fully valid. -/
def isToPubKey (script : CScript) : Option (List UInt8) :=
  if script.length = 35 ∧ script.take 1 = [33] ∧ script.drop 34 = [opChecksig] ∧
      (script.getD 1 0 = 2 ∨ script.getD 1 0 = 3) then some ((script.drop 1).take 33)
  else if script.length = 67 ∧ script.take 1 = [65] ∧ script.drop 66 = [opChecksig] ∧
      script.getD 1 0 = 4 then
    if codec.isFullyValid ((script.drop 1).take 65) then some ((script.drop 1).take 65) else none
  else none

def compress (script : CScript) : Option (List UInt8) :=
  match isToKeyID script with
  | some keyID => some (0x00 :: keyID)
  | none =>
    match isToScriptID script with
    | some scriptID => some (0x01 :: scriptID)
    | none =>
      match codec.isToPubKey script with
      | none => none
      | some pubkey =>
        if pubkey.headD 0 = 0x02 ∨ pubkey.headD 0 = 0x03 then
          some (pubkey.headD 0 :: (pubkey.drop 1).take 32)
        else if pubkey.headD 0 = 0x04 then
          some ((0x04 ||| (pubkey.getD 64 0 &&& 0x01)) :: (pubkey.drop 1).take 32)
        else none

def getSpecialSize (nSize : Nat) : Nat :=
  if nSize = 0 ∨ nSize = 1 then 20
  else if nSize = 2 ∨ nSize = 3 ∨ nSize = 4 ∨ nSize = 5 then 32
  else 0

/-- `CScriptCompressor::Decompress`. -/
def decompressScript (nSize : Nat) (vch : List UInt8) : Option CScript :=
  if nSize = 0 then some ([opDup, opHash160, 20] ++ vch.take 20 ++ [opEqualverify, opChecksig])
  else if nSize = 1 then some ([opHash160, 20] ++ vch.take 20 ++ [opEqual])
  else if nSize = 2 ∨ nSize = 3 then some ([33, UInt8.ofNat nSize] ++ vch.take 32 ++ [opChecksig])
  else if nSize = 4 ∨ nSize = 5 then
    (codec.decompress (UInt8.ofNat (nSize - 2) :: vch.take 32)).map fun pubkey =>
      [65] ++ pubkey ++ [opChecksig]
  else none

/-- `CScriptCompressor::Serialize`. -/
def writeScript (script : CScript) : List UInt8 :=
  match codec.compress script with
  | some compr => compr
  | none => writeVarInt ((script.length + nSpecialScripts) % 2 ^ 32) ++ script

/-- `CScriptCompressor::Unserialize` into an empty script. -/
def readScript : Reader CScript := do
  let nSize ← readVarInt
  let nSize := nSize % 2 ^ 32
  if nSize < nSpecialScripts then
    let vch ← times byte (getSpecialSize nSize)
    pure ((codec.decompressScript nSize vch).getD [])
  else times byte (nSize - nSpecialScripts)

/-- `CTxOutCompressor` when it writes. -/
def writeTxOut (txout : CTxOut) : List UInt8 :=
  writeVarInt (compressAmount (txout.nValue % 2 ^ 64).toNat) ++ codec.writeScript txout.scriptPubKey

/-- `CTxOutCompressor` when it reads into a new output. -/
def readTxOut : Reader CTxOut := do
  let nVal ← readVarInt
  let scriptPubKey ← codec.readScript
  pure ⟨toInt64 (decompressAmount (nVal % 2 ^ 64)), scriptPubKey⟩

/-! ## What is read back -/

/-- The bytes of a compressed script: a number below six and what it stands for. -/
structure Compressed (script : CScript) (compr : List UInt8) : Prop where
  exists_ : ∃ nSize vch, compr = UInt8.ofNat nSize :: vch ∧ nSize < 6 ∧
    vch.length = getSpecialSize nSize ∧ codec.decompressScript nSize vch = some script

variable {codec}

theorem split_script (script : CScript) (front size : Nat) :
    script.take front ++ (script.drop front).take size ++ script.drop (front + size) = script := by
  rw [append_assoc, ← drop_drop, take_append_drop, take_append_drop]

theorem length_middle {script : CScript} {front size back : Nat}
    (length_eq : script.length = front + size + back) :
    ((script.drop front).take size).length = size := by
  rw [length_take, length_drop]
  omega

variable {script : CScript}

theorem compressed_keyID {keyID : List UInt8} (found : isToKeyID script = some keyID) :
    codec.Compressed script (0x00 :: keyID) := by
  unfold isToKeyID at found
  split at found
  · next form =>
      cases found
      obtain ⟨length_eq, front, back⟩ := form
      have sized := @length_middle script 3 20 2 length_eq
      refine ⟨0, _, rfl, by decide, sized, ?_⟩
      rw [decompressScript, if_pos rfl, take_of_length_le (Nat.le_of_eq sized), ← front,
        ← back]
      exact congrArg some (split_script script 3 20)
  · cases found

theorem compressed_scriptID {scriptID : List UInt8} (found : isToScriptID script = some scriptID) :
    codec.Compressed script (0x01 :: scriptID) := by
  unfold isToScriptID at found
  split at found
  · next form =>
      cases found
      obtain ⟨length_eq, front, back⟩ := form
      have sized := @length_middle script 2 20 1 length_eq
      refine ⟨1, _, rfl, by decide, sized, ?_⟩
      rw [decompressScript, if_neg (by decide), if_pos rfl,
        take_of_length_le (Nat.le_of_eq sized), ← front, ← back]
      exact congrArg some (split_script script 2 20)
  · cases found

theorem cons_key {script : CScript} {size : Nat} (long : 2 ≤ script.length) (some_ : 0 < size) :
    (script.drop 1).take size = script.getD 1 0 :: (script.drop 2).take (size - 1) := by
  obtain ⟨first, rest, rfl⟩ := exists_cons_of_length_pos (show 0 < script.length by omega)
  rw [length_cons] at long
  obtain ⟨second, others, rfl⟩ := exists_cons_of_length_pos (show 0 < rest.length by omega)
  obtain ⟨less, rfl⟩ := Nat.exists_eq_succ_of_ne_zero (Nat.ne_of_gt some_)
  rfl

theorem parity_header (last : UInt8) :
    ∃ nSize, (nSize = 4 ∨ nSize = 5) ∧ (0x04 ||| (last &&& 0x01)) = UInt8.ofNat nSize ∧
      UInt8.ofNat (nSize - 2) = 2 + (last &&& 1) := by
  have parity : last &&& 1 = 0 ∨ last &&& 1 = 1 := by
    have bit : (last &&& 1).toNat = last.toNat % 2 := by
      rw [UInt8.toNat_and, show (1 : UInt8).toNat = 2 ^ 1 - 1 from rfl,
        Nat.and_two_pow_sub_one_eq_mod]
    rcases Nat.mod_two_eq_zero_or_one last.toNat with even | odd
    · exact .inl (UInt8.toNat_inj.mp (bit.trans even))
    · exact .inr (UInt8.toNat_inj.mp (bit.trans odd))
  rcases parity with even | odd
  · exact ⟨4, .inl rfl, by rw [even]; rfl, by rw [even]; rfl⟩
  · exact ⟨5, .inr rfl, by rw [odd]; rfl, by rw [odd]; rfl⟩

theorem compressed_of_compress (inverts : codec.Inverts) {script compr : List UInt8}
    (found : codec.compress script = some compr) : codec.Compressed script compr := by
  unfold compress at found
  split at found
  · next keyID isKeyID =>
      cases found
      exact compressed_keyID isKeyID
  split at found
  · next scriptID isScriptID =>
      cases found
      exact compressed_scriptID isScriptID
  split at found
  · cases found
  next pubkey isKey =>
  unfold isToPubKey at isKey
  split at isKey
  · next form =>
      cases isKey
      obtain ⟨length_eq, front, back, header⟩ := form
      have key_eq := @cons_key script 33 (by omega) (by decide)
      have sized := @length_middle script 2 32 1 length_eq
      have same : ((script.drop 1).take 33).headD 0 = script.getD 1 0 := by rw [key_eq]; rfl
      have half : (((script.drop 1).take 33).drop 1).take 32 = (script.drop 2).take 32 := by
        rw [key_eq, drop_succ_cons, drop_zero,
          take_of_length_le (Nat.le_of_eq sized)]
      rw [same, if_pos header, half] at found
      cases found
      have whole := split_script script 1 33
      rw [front, key_eq, back] at whole
      have number : ∃ nSize, (nSize = 2 ∨ nSize = 3) ∧ script.getD 1 0 = UInt8.ofNat nSize := by
        rcases header with two | three
        · exact ⟨2, .inl rfl, two⟩
        · exact ⟨3, .inr rfl, three⟩
      obtain ⟨nSize, range, value⟩ := number
      rw [value] at whole ⊢
      refine ⟨nSize, _, rfl, by omega, ?_, ?_⟩
      · rw [getSpecialSize, if_neg (by omega), if_pos (by omega)]
        exact sized
      · rw [decompressScript, if_neg (by omega), if_neg (by omega), if_pos range,
          take_of_length_le (Nat.le_of_eq sized)]
        exact congrArg some whole
  split at isKey
  · next form =>
      split at isKey
      · next valid =>
          cases isKey
          obtain ⟨length_eq, front, back, header⟩ := form
          have key_eq := @cons_key script 65 (by omega) (by decide)
          have sized := @length_middle script 1 65 1 length_eq
          have same : ((script.drop 1).take 65).headD 0 = 4 := by rw [key_eq]; exact header
          rw [same, if_neg (by decide), if_pos rfl] at found
          cases found
          obtain ⟨nSize, range, number, back_eq⟩ := parity_header (((script.drop 1).take 65).getD 64 0)
          have half : ((((script.drop 1).take 65).drop 1).take 32).length = 32 := by
            rw [length_take, length_drop, sized]
            rfl
          rw [number]
          refine ⟨nSize, _, rfl, by omega, ?_, ?_⟩
          · rw [getSpecialSize, if_neg (by omega), if_pos (by omega)]
            exact half
          · rw [decompressScript, if_neg (by omega), if_neg (by omega), if_neg (by omega),
              if_pos range, take_of_length_le (Nat.le_of_eq half), back_eq,
              inverts.inverts _ sized same valid, Option.map_some, ← front, ← back]
            exact congrArg some (split_script script 1 65)
      · cases isKey
  · cases isKey

theorem reads_times_byte (bytes : List UInt8) : Reads (times byte bytes.length) bytes bytes := by
  have each := @reads_times _ byte (fun first => [first]) bytes fun first _ => reads_byte first
  have same : (bytes.flatMap fun first => [first]) = bytes := flatMap_singleton' bytes
  rwa [same] at each

theorem reads_script (inverts : codec.Inverts) (short : script.length + nSpecialScripts < 2 ^ 32) :
    Reads codec.readScript (codec.writeScript script) script := by
  unfold writeScript
  cases found : codec.compress script with
  | some compr =>
    obtain ⟨nSize, vch, rfl, small, sized, back⟩ := (compressed_of_compress inverts found).exists_
    have written : writeVarInt nSize = [UInt8.ofNat nSize] := if_pos (by omega)
    have first := reads_varInt nSize
    rw [written] at first
    refine @Reads.bind _ _ _ [UInt8.ofNat nSize] _ _ vch _ first ?_
    dsimp only
    rw [Nat.mod_eq_of_lt (by omega), if_pos (show nSize < nSpecialScripts from small), ← sized]
    have rest := (reads_times_byte vch).map fun vch => (codec.decompressScript nSize vch).getD []
    rw [back] at rest
    exact rest
  | none =>
    dsimp only
    rw [Nat.mod_eq_of_lt short]
    refine (reads_varInt _).bind ?_
    dsimp only
    rw [Nat.mod_eq_of_lt short, if_neg (by omega), Nat.add_sub_cancel]
    exact reads_times_byte script

theorem reads_txOut (inverts : codec.Inverts) {txout : CTxOut}
    (money : mainParams.moneyRange txout.nValue = true)
    (short : txout.scriptPubKey.length + nSpecialScripts < 2 ^ 32) :
    Reads codec.readTxOut (codec.writeTxOut txout) txout := by
  unfold CChainParams.moneyRange at money
  rw [Bool.and_eq_true, decide_eq_true_eq, decide_eq_true_eq] at money
  have limit : mainParams.maxMoneyOut = 5000000000000000 := by decide
  rw [limit] at money
  have amount : (txout.nValue % 2 ^ 64).toNat = txout.nValue.toNat := by omega
  have compressed_lt : compressAmount txout.nValue.toNat < 2 ^ 64 := by
    rw [compressAmount_eq]
    exact Nat.mod_lt _ (by decide)
  have value : toInt64 (decompressAmount (compressAmount txout.nValue.toNat % 2 ^ 64)) =
      txout.nValue := by
    rw [Nat.mod_eq_of_lt compressed_lt, decompressAmount_compressAmount (by omega)]
    unfold toInt64
    omega
  unfold writeTxOut readTxOut
  rw [amount]
  refine (reads_varInt _).bind ?_
  have rest := (reads_script inverts short).map fun scriptPubKey =>
    CTxOut.mk (toInt64 (decompressAmount (compressAmount txout.nValue.toNat % 2 ^ 64))) scriptPubKey
  rw [value] at rest
  rw [value]
  exact rest

end KeyCodec

end CentNode
