import CentNode.Script.Destinations
import CentNode.Script.StraightRuns

/-!
# Runs of standard scripts

What leaves a true value on the stack of a script of a standard form.
-/

namespace CentNode

open List Prod CScript

open ScriptMachine

/-- Every push of a script is as short as it can be. -/
def CScript.Minimal (script : CScript) : Prop :=
  ∀ instruction ∈ script.parse.1, instruction.opcode ≤ opPushdata4 →
    checkMinimalPush instruction.vch instruction.opcode = true

variable {script : CScript} {parts : List (UInt8 × List UInt8)} {part : UInt8 × List UInt8}

theorem ReadsAs.pushes {rest : CScript} (reads : ReadsAs script parts rest)
    (member : part ∈ parts) (filled : part.2 ≠ []) : part.1 ≤ opPushdata4 := by
  induction parts generalizing script with
  | nil => exact absurd member not_mem_nil
  | cons first later ih =>
    obtain ⟨next, read, more⟩ := reads
    rcases mem_cons.mp member with rfl | there
    · exact (getOp_operand read filled).1
    · exact ih more there

theorem ParsesAs.pushUnder {flags : ScriptFlags} (parsed : ParsesAs script parts)
    (minimal : flags.minimaldata = true → script.Minimal) (member : part ∈ parts)
    (filled : part.2 ≠ []) (small : part.2.length ≤ maxScriptElementSize) :
    CScript.PushUnder flags part := by
  have pushes := ReadsAs.pushes parsed member filled
  rw [← parsed.parse.1] at member
  obtain ⟨instruction, there, rfl⟩ := mem_map.mp member
  exact ⟨pushes, fun on => minimal on instruction there pushes, small⟩

theorem CScript.minimal_of_parts (parsed : ParsesAs script parts)
    (minimal : ∀ part ∈ parts, part.1 ≤ opPushdata4 → checkMinimalPush part.2 part.1 = true) :
    script.Minimal := by
  intro instruction member
  refine minimal (instruction.opcode, instruction.vch) ?_
  rw [← parsed.parse.1]
  exact mem_map_of_mem member

theorem CScript.not_pushed_of_parts (parsed : ParsesAs script parts) {vch : Valtype}
    (small : vch.length < 2 ^ 32) (other : ∀ part ∈ parts, part.2 ≠ vch) :
    ∀ instruction ∈ script.parse.1, instruction.bytes ≠ pushData vch := by
  intro instruction member same
  have equal : instruction = Instruction.push vch small := Instruction.ext_bytes same
  refine other (instruction.opcode, instruction.vch) ?_ (congrArg Instruction.vch equal)
  rw [← parsed.parse.1]
  exact mem_map_of_mem member

theorem KeySized.filled {key : List UInt8} (sized : KeySized key) : key ≠ [] := by
  rintro rfl
  exact absurd sized.1 (by decide)

theorem KeySized.small {key : List UInt8} (sized : KeySized key) :
    key.length ≤ maxScriptElementSize := Nat.le_trans sized.2 (by decide)

theorem ParsesAs.length_ne_one {first second : UInt8 × List UInt8}
    {later : List (UInt8 × List UInt8)} (parsed : ParsesAs script (first :: second :: later)) :
    script.length ≠ 1 := by
  obtain ⟨next, readFirst, _, readSecond, _⟩ := parsed
  have advanced := getOp_length_lt readFirst
  have again := getOp_length_lt readSecond
  omega

theorem StandardForm.parses {type : Txnouttype} {solutions : List (List UInt8)}
    (form : StandardForm script type solutions) (direct : type ≠ .scripthash)
    (spends : type ≠ .nullData) :
    ∃ first second later, ParsesAs script (first :: second :: later) := by
  cases form with
  | pubkey _ parsed => exact ⟨_, _, _, parsed⟩
  | pubkeyhash _ parsed => exact ⟨_, _, _, parsed⟩
  | scripthash => exact absurd rfl direct
  | @multisig _ _ _ _ _ pushes _ _ _ _ _ _ _ parsed =>
    cases pushes with
    | nil => exact ⟨_, _, _, parsed⟩
    | cons push rest => exact ⟨_, _, _, parsed⟩
  | nullData => exact absurd rfl spends

structure Accepts (checker : SignatureChecker) (flags : ScriptFlags) (script : CScript)
    (vchSig vchPubKey : Valtype) : Prop where
  deleted : script.findAndDelete (CScript.pushData vchSig) = .ok script
  encoded : checkSignatureEncoding vchSig flags = .ok ()
  keyEncoded : checkPubKeyEncoding vchPubKey flags = .ok ()
  verified : checker vchSig vchPubKey script = true

section Runs

variable {hashes : ScriptHashes} {checker : SignatureChecker} {flags : ScriptFlags}
  {script : CScript}

section

variable {m n : Nat} {opM opN push : UInt8} {hash top key vchSig : Valtype}

theorem evalScript_pubkey
    (minimal : flags.minimaldata = true → script.Minimal) (sized : KeySized key) (parsed : ParsesAs script [(push, key), (opChecksig, [])])
    (accepts : Accepts checker flags script vchSig key) :
    evalScript hashes checker flags [vchSig] script = .ok [vchTrue] := by
  have pushed : CScript.PushUnder flags (push, key) :=
    parsed.pushUnder minimal mem_cons_self sized.filled sized.small
  have short := ReadsAs.length_le parsed
  have bound := sized.2
  obtain ⟨afterKey, readKey, _, readCheck, rfl⟩ := parsed
  refine @evalScript_straight hashes checker flags _ _ script 1 ?_ ?_
  · simp at short
    omega
  · rw [evalLoop_step readKey (step_push pushed (by simp)),
      evalLoop_step readCheck (step_checksig (by decide) (by simp) accepts.deleted
        accepts.encoded accepts.keyEncoded accepts.verified), evalLoop_nil]

theorem evalScript_pubkeyhash
    (minimal : flags.minimaldata = true → script.Minimal) (sized : hash.length = 20)
    (parsed : ParsesAs script [(opDup, []), (opHash160, []), (push, hash), (opEqualverify, []),
      (opChecksig, [])])
    (hashed : hashes.ripemd160 (hashes.sha256 key) = hash)
    (accepts : Accepts checker flags script vchSig key) :
    evalScript hashes checker flags [key, vchSig] script = .ok [vchTrue] := by
  have filled : hash ≠ [] := by
    rintro rfl
    cases sized
  have small : hash.length ≤ maxScriptElementSize := by
    rw [sized]
    decide
  have pushed : CScript.PushUnder flags (push, hash) :=
    parsed.pushUnder minimal (by simp) filled small
  have short := ReadsAs.length_le parsed
  obtain ⟨_, readDup, _, readHash, _, readPush, _, readEqual, _, readCheck, rfl⟩ := parsed
  refine @evalScript_straight hashes checker flags _ _ script 4 ?_ ?_
  · simp [sized] at short
    omega
  · subst hashed
    rw [evalLoop_step readDup (step_dup (by decide) (by simp)),
      evalLoop_step readHash (step_hash160 (by decide) (by simp)),
      evalLoop_step readPush (step_push pushed (by simp)),
      evalLoop_step readEqual (step_equalverify (by decide) (by simp)),
      evalLoop_step readCheck (step_checksig (by decide) (by simp) accepts.deleted
        accepts.encoded accepts.keyEncoded accepts.verified), evalLoop_nil]

theorem scripthash_parses (flags : ScriptFlags) {hash : Valtype} (sized : hash.length = 20) :
    ∃ opcode, CScript.PushUnder flags (opcode, hash) ∧
      ParsesAs (opHash160 :: 0x14 :: (hash ++ [opEqual]))
        [(opHash160, []), (opcode, hash), (opEqual, [])] := by
  have pushable : CScript.Pushable flags hash := by simp [CScript.Pushable, sized, maxScriptElementSize]
  obtain ⟨opcode, pushed, read⟩ := pushable.getOp
  have readPush : getOp (0x14 :: (hash ++ [opEqual])) = some (opcode, hash, [opEqual]) := by
    simpa [pushData_twenty sized] using read [opEqual]
  exact ⟨opcode, pushed, _, (getOp_plain (by decide)).mpr ⟨rfl, rfl⟩, _, readPush, _,
    (getOp_plain (by decide)).mpr ⟨rfl, rfl⟩, rfl⟩

theorem evalScript_scripthash (sized : hash.length = 20)
    (hashed : hashes.ripemd160 (hashes.sha256 top) = hash) {stack : List Valtype}
    (room : stack.length + 2 ≤ 1000) :
    evalScript hashes checker flags (top :: stack)
        (opHash160 :: 0x14 :: (hash ++ [opEqual])) = .ok (vchTrue :: stack) := by
  obtain ⟨opcode, pushed, _, readHash, _, readPush, _, readEqual, rfl⟩ := scripthash_parses flags sized
  refine @evalScript_straight hashes checker flags _ _ _ 2 (by simp [sized]) ?_
  subst hashed
  rw [evalLoop_step readHash (step_hash160 (by decide) (by omega)),
    evalLoop_step readPush (step_push pushed (by rw [length_cons]; exact room)),
    evalLoop_step readEqual (step_equal (by decide) (by omega)), evalLoop_nil]

theorem number_of_encodeOPN (positive : 1 ≤ n) (atMost : n ≤ 16) {opcode : UInt8}
    (encoded : encodeOPN n = some opcode) :
    CScript.IsNumber opcode ∧ ∀ flags : ScriptFlags, Counts flags (pushedNumber opcode) n := by
  obtain ⟨_, decoded, range⟩ := decodeOPN_encodeOPN atMost encoded
  refine ⟨range positive, fun flags => ⟨?_⟩⟩
  obtain ⟨num, read, value⟩ := decode_pushedNumber (range positive) flags.minimaldata
  refine ⟨num, read, ?_⟩
  rw [value, decoded, UInt8.toNat_ofNat']
  omega

/-- Signatures in the order of their keys. -/
theorem evalScript_multisig {pushes : List (UInt8 × List UInt8)}
    {sigs : List Valtype} (minimal : flags.minimaldata = true → script.Minimal) (positive : 1 ≤ m) (ordered : m ≤ n)
    (atMost : n ≤ 16) (encodedM : encodeOPN m = some opM) (encodedN : encodeOPN n = some opN)
    (counted : pushes.length = n) (keys : ∀ push ∈ pushes, KeySized push.2)
    (parsed : ParsesAs script ((opM, []) :: (pushes ++ [(opN, []), (opCheckmultisig, [])])))
    (signed : sigs.length = m) (encoded : Encoded flags sigs (pushes.map Prod.snd))
    (absent : ∀ vchSig ∈ sigs, script.findAndDelete (pushData vchSig) = .ok script)
    (verified : Verified checker script sigs (pushes.map Prod.snd)) :
    evalScript hashes checker flags (sigs.reverse ++ [[]]) script = .ok [vchTrue] := by
  obtain ⟨numberM, countsM⟩ := number_of_encodeOPN positive (Nat.le_trans ordered atMost) encodedM
  obtain ⟨numberN, countsN⟩ := number_of_encodeOPN (Nat.le_trans positive ordered) atMost encodedN
  have pushed : ∀ push ∈ pushes, CScript.PushUnder flags push := fun push member =>
    parsed.pushUnder minimal (by simp [member]) (keys push member).filled (keys push member).small
  have sizes : (pushes.map fun part => part.2.length).sum ≤ pushes.length * 65 := by
    have each : ∀ size ∈ pushes.map fun part => part.2.length, size ≤ 65 := by
      intro size member
      obtain ⟨push, there, rfl⟩ := mem_map.mp member
      exact (keys push there).2
    simpa using sum_le_card_nsmul _ 65 each
  have short := ReadsAs.length_le parsed
  have operands : (straight script (pushedNumber opN :: ((pushes.map snd).reverse ++
      pushedNumber opM :: (sigs.reverse ++ [[]]))) 1).Operands flags sigs
        (pushes.map snd) [] :=
    { pushed := ⟨[], _, _, rfl, signed ▸ countsM flags, by simpa [counted] using countsN flags,
        fun _ => rfl⟩
      enough := by simpa [signed, counted] using ordered
      few := by simp [counted]; omega
      ops := by simp [straight, counted]; omega }
  obtain ⟨_, readM, later⟩ := parsed
  obtain ⟨_, readKeys, _, readN, _, readCheck, rfl⟩ := ReadsAs.split later
  refine @evalScript_straight hashes checker flags _ _ script (1 + (pushes.map snd).length)
    ?_ ?_
  · simp at short
    omega
  · rw [evalLoop_step readM (step_pushedNumber numberM (by simp; omega)),
      evalLoop_pushed pushed readKeys (by simp; omega),
      evalLoop_step readN (step_pushedNumber numberN (by simp; omega)),
      evalLoop_step readCheck (step_checkmultisig (by decide) (by decide) operands encoded absent
        verified), evalLoop_nil]

theorem evalScript_multisigForm {m n : UInt8} {keys sigs : List Valtype}
    (form : StandardForm script .multisig ([m] :: (keys ++ [[n]])))
    (minimal : flags.minimaldata = true → script.Minimal) (signed : sigs.length = m.toNat)
    (encoded : Encoded flags sigs keys)
    (absent : ∀ vchSig ∈ sigs, script.findAndDelete (pushData vchSig) = .ok script)
    (verified : Verified checker script sigs keys) :
    evalScript hashes checker flags (sigs.reverse ++ [[]]) script = .ok [vchTrue] ∧
      sigs.length ≤ 16 := by
  generalize shape : [m] :: (keys ++ [[n]]) = solutions at form
  cases form with
  | @multisig _ required size opM opN pushes positive ordered atMost encodedM encodedN pushed
      sized parsed =>
      obtain ⟨first, rest⟩ := List.cons.inj shape
      obtain ⟨rfl, _⟩ := append_inj' rest rfl
      have value : sigs.length = required := by
        have same : m = UInt8.ofNat required := (List.cons.inj first).1
        rw [signed, same, UInt8.toNat_ofNat']
        omega
      exact ⟨evalScript_multisig minimal positive ordered atMost encodedM encodedN pushed sized
        parsed value encoded absent verified, by omega⟩

end

/-! ## Two scripts -/

theorem pushData_length_le (vch : Valtype) :
    (pushData vch).length ≤ vch.length + 5 := by
  unfold pushData
  split_ifs
  all_goals
    simp [sizeBytes_length]
  all_goals omega

theorem flatMap_pushData_length {values : List Valtype} {bound : Nat}
    (short : ∀ vch ∈ values, vch.length ≤ bound) :
    (values.flatMap pushData).length ≤ values.length * (bound + 5) := by
  have each : ∀ size ∈ values.map fun vch => (pushData vch).length, size ≤ bound + 5 := by
    intro size member
    obtain ⟨vch, there, rfl⟩ := mem_map.mp member
    exact Nat.le_trans (pushData_length_le vch) (Nat.add_le_add_right (short vch there) 5)
  rw [length_flatMap]
  simpa using sum_le_card_nsmul _ (bound + 5) each

theorem requireTrue_vchTrue (stack : List Valtype) : requireTrue (vchTrue :: stack) = .ok () := by
  unfold requireTrue
  rw [require_eq (cons_ne_nil _ _), ok_bind]
  rfl

theorem checkWhen_pushOnly {values : List Valtype}
    (pushable : ∀ vch ∈ values, CScript.Pushable flags vch) :
    checkWhen flags.sigpushonly (require
      (isPushOnly (values.flatMap pushData) = true) .sigPushonly) = .ok () := by
  rw [require_eq (isPushOnly_pushes pushable)]
  exact ite_self _

variable {values : List Valtype} (pushable : ∀ vch ∈ values, CScript.Pushable flags vch)
  (few : values.length ≤ 998) (short : (values.flatMap CScript.pushData).length ≤ 9000)
  (runs : evalScript hashes checker flags values.reverse script = .ok [vchTrue])
include pushable few short runs

theorem verifyScript_pushed (direct : script.isPayToScriptHash = false) :
    verifyScript hashes checker flags (values.flatMap pushData) script = .ok () := by
  have pushed := @evalScript_pushed hashes checker flags [] values pushable
    (by simp; omega) (by omega)
  have onlyPushes := checkWhen_pushOnly pushable
  rw [append_nil] at pushed
  unfold verifyScript
  rw [onlyPushes, ok_bind, pushed, ok_bind, runs, ok_bind, requireTrue_vchTrue, ok_bind, direct,
    Bool.and_false]
  rfl

/-- Values that a redeem script is run on, with the script behind them. -/
theorem verifyScript_redeemed {hash : Valtype} (redeems : CScript.Pushable flags script)
    (sized : hash.length = 20) (hashed : hashes.ripemd160 (hashes.sha256 script) = hash) :
    verifyScript hashes checker flags
        (values.flatMap pushData ++ pushData script)
        (opHash160 :: 0x14 :: (hash ++ [opEqual])) = .ok () := by
  have joined : values.flatMap pushData ++ pushData script =
      (values ++ [script]).flatMap pushData := by simp
  have all : ∀ vch ∈ values ++ [script], CScript.Pushable flags vch := by
    intro vch member
    rcases mem_append.mp member with there | there
    · exact pushable vch there
    · rw [mem_singleton.mp there]
      exact redeems
  have last := pushData_length_le script
  have bound : script.length ≤ 520 := redeems.1
  have pushed := @evalScript_pushed hashes checker flags [] (values ++ [script]) all
    (by simp; omega) (by rw [← joined, length_append]; omega)
  have matched := @evalScript_scripthash hashes checker flags _ script sized hashed values.reverse
    (by simp; omega)
  have isHash := isPayToScriptHash_iff.mpr
    ⟨_, sized, @rfl _ (opHash160 :: 0x14 :: (hash ++ [opEqual]))⟩
  have onlyPushes := checkWhen_pushOnly all
  rw [reverse_append, reverse_singleton, append_nil, singleton_append] at pushed
  unfold verifyScript
  rw [joined, onlyPushes, ok_bind, pushed, ok_bind, matched, ok_bind, requireTrue_vchTrue, ok_bind,
    isHash, Bool.and_true]
  have inner : verifyScriptHash hashes checker flags
      ((values ++ [script]).flatMap pushData) (script :: values.reverse) = .ok () := by
    unfold verifyScriptHash
    rw [require_eq (isPushOnly_pushes all), ok_bind, assertThat_eq (cons_ne_nil _ _), ok_bind]
    change (evalScript hashes checker flags values.reverse script >>= _) = _
    rw [runs]
    exact requireTrue_vchTrue []
  rw [inner]
  exact ite_self _

end Runs

end CentNode
