import CentNode.Script.Deletion
import CentNode.Script.SigOpsBound
import CentNode.Script.StandardForms

/-!
# Runs without branches

How `EvalScript` goes through the instructions of standard scripts: what each leaves on the
stack, where nothing is conditional and no limit is reached.
-/

namespace CentNode

open List

/-! ## Sizes and encodings of instructions -/

namespace CScript

theorem getOp_length_le {pc rest : CScript} {opcode : UInt8} {vch : List UInt8}
    (read : getOp pc = some (opcode, vch, rest)) : pc.length ≤ rest.length + vch.length + 5 := by
  cases pc with
  | nil => cases read
  | cons first pc =>
    have width : sizeWidth first ≤ 4 := by
      unfold sizeWidth
      split_ifs <;> simp
    rw [getOp] at read
    split at read
    case isFalse =>
      cases read
      simp
    case isTrue =>
      split at read
      case h_1 => cases read
      case h_2 nSize after sized =>
        have longest : pc.length ≤ after.length + 4 := by
          unfold operandSize at sized
          split_ifs at sized
          · cases sized
            simp
          · cases sized
            simp
            omega
        split at read
        case isTrue => cases read
        case isFalse enough =>
          cases read
          simp
          omega

/-- A push that is made under some flags: where they ask for it, it is not longer than it has
to be. -/
def PushUnder (flags : ScriptFlags) (part : UInt8 × List UInt8) : Prop :=
  part.1 ≤ opPushdata4 ∧ (flags.minimaldata = true → checkMinimalPush part.2 part.1 = true) ∧
    part.2.length ≤ maxScriptElementSize

/-- `operator<<` pushes with as few bytes as it can, small numbers apart. -/
theorem pushData_minimal {vch : Valtype} (small : vch.length ≤ maxScriptElementSize)
    (other : vch.length ≠ 1) : checkMinimalPush vch ((pushData vch).headD 0) = true := by
  have size : vch.length ≤ 520 := small
  have direct : opPushdata1.toNat = 76 := rfl
  match vch, other with
  | [], _ => rfl
  | first :: second :: rest, _ =>
    have bound : rest.length + 2 ≤ 520 := size
    by_cases short : rest.length + 2 ≤ 75
    · have below : rest.length + 1 + 1 < 76 := Nat.lt_succ_of_le short
      simp [checkMinimalPush, pushData, direct, short, below]
      omega
    · have above : ¬ rest.length + 1 + 1 < 76 := fun below => short (Nat.le_of_lt_succ below)
      by_cases byte : rest.length + 2 ≤ 255
      · simp [checkMinimalPush, pushData, direct, short, above, byte]
      · have word : rest.length + 2 ≤ 65535 := by omega
        simp [checkMinimalPush, pushData, direct, short, above, byte, word]

/-- What `operator<<` can push under some flags. -/
def Pushable (flags : ScriptFlags) (vch : Valtype) : Prop :=
  vch.length ≤ maxScriptElementSize ∧ (flags.minimaldata = true → vch.length ≠ 1)

theorem Pushable.getOp {flags : ScriptFlags} {vch : Valtype} (pushable : Pushable flags vch) :
    ∃ opcode, PushUnder flags (opcode, vch) ∧
      ∀ more, getOp (pushData vch ++ more) = some (opcode, vch, more) := by
  obtain ⟨small, other⟩ := pushable
  have fits : vch.length < 2 ^ 32 := Nat.lt_of_le_of_lt small (by decide)
  have reads := (Instruction.push vch fits).reads
  obtain ⟨opcode, pushes, read⟩ := getOp_pushData fits []
  have same := (reads []).symm.trans read
  obtain rfl : (pushData vch).headD 0 = opcode := by simpa [Instruction.push] using same
  exact ⟨_, ⟨pushes, fun on => pushData_minimal small (other on), small⟩, reads⟩

end CScript

variable {parts : List (UInt8 × List UInt8)}

theorem ReadsAs.length_le {script rest : CScript} (reads : ReadsAs script parts rest) :
    script.length ≤ rest.length + (parts.map fun part => part.2.length + 5).sum := by
  induction parts generalizing script with
  | nil =>
    cases reads
    simp
  | cons part later ih =>
    obtain ⟨next, read, more⟩ := reads
    have here := CScript.getOp_length_le read
    have after := ih more
    rw [map_cons, sum_cons]
    omega

theorem ParsesAs.parse {script : CScript} (parsed : ParsesAs script parts) :
    script.parse.1.map (fun instruction => (instruction.opcode, instruction.vch)) = parts ∧
      script.parse.2 = [] := by
  induction parts generalizing script with
  | nil =>
    cases parsed
    simp [CScript.parse_of_none (show CScript.getOp [] = none from rfl)]
  | cons part later ih =>
    obtain ⟨next, read, more⟩ := parsed
    obtain ⟨same, ends⟩ := ih more
    have split := CScript.parse_append (Instruction.ofRead read) next
    rw [Instruction.ofRead_append] at split
    simp [split, same, ends, Instruction.ofRead]

namespace CScript

theorem findAndDelete_absent {script : CScript} {vch : Valtype} (small : vch.length < 2 ^ 32)
    (absent : ∀ instruction ∈ script.parse.1, instruction.bytes ≠ pushData vch) :
    script.findAndDelete (pushData vch) = .ok script := by
  have deleted := findAndDeleteFound_join (.push vch small) script.parse.1 (parse_ends script)
  have all : script.parse.1.filter (fun other => other.bytes ≠ (Instruction.push vch small).bytes) =
      script.parse.1 :=
    filter_eq_self.mpr fun instruction member => decide_eq_true (absent instruction member)
  rw [all, parse_join] at deleted
  have same : findAndDeleteFound script (pushData vch) = _ := deleted
  rw [findAndDelete_eq, same]

end CScript

open CScript

/-! ## One instruction -/

namespace ScriptMachine

/-- Outside of conditionals, with nothing put aside. -/
def straight (script : CScript) (stack : List Valtype) (nOpCount : Nat) : ScriptMachine where
  stack := stack
  pbegincodehash := script
  nOpCount := nOpCount

section Steps

variable {hashes : ScriptHashes} {checker : SignatureChecker} {flags : ScriptFlags}
  {script pc : CScript} {stack : List Valtype} {nOpCount : Nat}

theorem step_push {part : UInt8 × List UInt8} (push : CScript.PushUnder flags part)
    (room : stack.length + 1 ≤ 1000) :
    (straight script stack nOpCount).step hashes checker flags part.1 part.2 pc =
      .ok (straight script (part.2 :: stack) nOpCount) := by
  obtain ⟨pushes, minimal, small⟩ := push
  have low : ¬ part.1 > opN16 := UInt8.not_lt.mpr (UInt8.le_trans pushes (by decide))
  have enabled : part.1 ∉ Opcode.disabled := by
    have high : ∀ opcode ∈ Opcode.disabled, ¬ opcode ≤ opPushdata4 := by decide +kernel
    exact fun member => high _ member pushes
  have checked : checkWhen flags.minimaldata
      (require (checkMinimalPush part.2 part.1 = true) .minimaldata) = .ok () := by
    unfold checkWhen
    split
    case isTrue on => exact require_eq (minimal on)
    case isFalse => rfl
  unfold step
  rw [require_eq small, ok_bind, require_eq (fun high => absurd high low), ok_bind,
    require_eq enabled, ok_bind]
  have executed : ((straight script stack nOpCount).countOp part.1).execute hashes checker flags
      part.1 part.2 pc = .ok (straight script (part.2 :: stack) nOpCount) := by
    rw [countOp, if_neg low, execute, if_pos ⟨rfl, pushes⟩, checked]
    rfl
  have within : (straight script (part.2 :: stack) nOpCount).stack.length +
      (straight script (part.2 :: stack) nOpCount).altstack.length ≤ 1000 := room
  rw [executed, ok_bind, require_eq within]
  rfl

theorem step_switch {opcode : UInt8} {after : ScriptMachine} (plain : opPushdata4 < opcode)
    (enabled : opcode ∉ Opcode.disabled) (few : opcode > opN16 → nOpCount < 201)
    (ran : ((straight script stack nOpCount).countOp opcode).switch hashes checker flags true
      opcode pc = .ok after)
    (room : after.stack.length + after.altstack.length ≤ 1000) :
    (straight script stack nOpCount).step hashes checker flags opcode [] pc = .ok after := by
  have flat : ((straight script stack nOpCount).countOp opcode).vfExec = [] := by
    unfold countOp
    split
    case isTrue => rfl
    case isFalse => rfl
  have executed : ((straight script stack nOpCount).countOp opcode).execute hashes checker flags
      opcode [] pc = .ok after := by
    rw [execute, flat, if_neg (fun pushes => UInt8.not_le.mpr plain pushes.2),
      if_pos (.inl rfl)]
    exact ran
  unfold step
  rw [require_eq (show ([] : Valtype).length ≤ maxScriptElementSize from Nat.zero_le _), ok_bind,
    require_eq (show opcode > opN16 → (straight script stack nOpCount).nOpCount + 1 ≤ 201 from few), ok_bind, require_eq enabled, ok_bind,
    executed, ok_bind, require_eq room]
  rfl

theorem step_pushedNumber {opcode : UInt8} (number : CScript.IsNumber opcode)
    (room : stack.length + 1 ≤ 1000) :
    (straight script stack nOpCount).step hashes checker flags opcode [] pc =
      .ok (straight script (pushedNumber opcode :: stack) nOpCount) := by
  have low : ¬ opcode > opN16 := UInt8.not_lt.mpr number.2
  have plain : opPushdata4 < opcode := UInt8.lt_of_lt_of_le (by decide) number.1
  have enabled : opcode ∉ Opcode.disabled :=
    @CScript.IsNumber.elim (· ∉ Opcode.disabled) (by decide) opcode number
  refine step_switch plain enabled (fun high => absurd high low) ?_ room
  rw [countOp, if_neg low, switch_number number]
  rfl

variable {top : Valtype}

theorem step_dup (few : nOpCount < 201) (room : stack.length + 2 ≤ 1000) :
    (straight script (top :: stack) nOpCount).step hashes checker flags opDup [] pc =
      .ok (straight script (top :: top :: stack) (nOpCount + 1)) :=
  step_switch (by decide) (by decide) (fun _ => few) rfl room

theorem step_hash160 (few : nOpCount < 201) (room : stack.length + 1 ≤ 1000) :
    (straight script (top :: stack) nOpCount).step hashes checker flags opHash160 [] pc =
      .ok (straight script (hashes.ripemd160 (hashes.sha256 top) :: stack) (nOpCount + 1)) :=
  step_switch (by decide) (by decide) (fun _ => few) rfl room

theorem equal_same (opcode : Opcode) (top : Valtype) :
    StackOp.equal opcode (top :: top :: stack) =
      verifyResult (opcode == .equalverify) true .equalverify (vchTrue :: stack) := by
  have same : decide (top = top) = true := decide_eq_true rfl
  change verifyResult _ (decide (top = top)) _ (vchBool (decide (top = top)) :: stack) = _
  rw [same]
  rfl

theorem step_equal (few : nOpCount < 201) (room : stack.length + 1 ≤ 1000) :
    (straight script (top :: top :: stack) nOpCount).step hashes checker flags opEqual [] pc =
      .ok (straight script (vchTrue :: stack) (nOpCount + 1)) := by
  refine step_switch (by decide) (by decide) (fun _ => few) ?_ room
  change (StackOp.equal .equal (top :: top :: stack) >>= _) = _
  rw [equal_same]
  rfl

theorem step_equalverify (few : nOpCount < 201) (room : stack.length ≤ 1000) :
    (straight script (top :: top :: stack) nOpCount).step hashes checker flags opEqualverify []
        pc =
      .ok (straight script stack (nOpCount + 1)) := by
  refine step_switch (by decide) (by decide) (fun _ => few) ?_ room
  change (StackOp.equal .equalverify (top :: top :: stack) >>= _) = _
  rw [equal_same]
  rfl

theorem step_checksig {vchSig vchPubKey : Valtype} {scriptCode : CScript}
    (few : nOpCount < 201) (room : stack.length + 1 ≤ 1000)
    (deleted : script.findAndDelete (pushData vchSig) = .ok scriptCode)
    (encoded : checkSignatureEncoding vchSig flags = .ok ())
    (keyEncoded : checkPubKeyEncoding vchPubKey flags = .ok ())
    (verified : checker vchSig vchPubKey scriptCode = true) :
    (straight script (vchPubKey :: vchSig :: stack) nOpCount).step hashes checker flags opChecksig
        [] pc =
      .ok (straight script (vchTrue :: stack) (nOpCount + 1)) := by
  refine step_switch (by decide) (by decide) (fun _ => few) ?_ room
  change (script.findAndDelete (pushData vchSig) >>= _) = _
  rw [deleted, ok_bind, encoded, ok_bind, keyEncoded, ok_bind, verified]
  rfl

theorem deleteSignatures_absent {sigs stack : List Valtype} {isig : Nat}
    (absent : ∀ vchSig ∈ sigs, script.findAndDelete (pushData vchSig) = .ok script)
    (here : sigs <+: stack.drop isig) :
    deleteSignatures stack (isig + 1) sigs.length script = .ok script := by
  induction sigs generalizing isig with
  | nil => rfl
  | cons vchSig later ih =>
    obtain ⟨more, shape⟩ := here
    have next : later <+: stack.drop (isig + 1) := by
      rw [← drop_drop, ← shape]
      exact ⟨more, rfl⟩
    rw [length_cons, deleteSignatures, stackTop_of_drop shape.symm, ok_bind,
      absent vchSig mem_cons_self, ok_bind]
    exact ih (fun other member => absent other (mem_cons_of_mem _ member)) next

/-- Signatures that verify in order. -/
theorem step_checkmultisig {sigs keys rest : List Valtype} (few : nOpCount < 201)
    (room : rest.length + 1 ≤ 1000)
    (operands : (straight script stack (nOpCount + 1)).Operands flags sigs keys rest)
    (encoded : Encoded flags sigs keys)
    (absent : ∀ vchSig ∈ sigs, script.findAndDelete (pushData vchSig) = .ok script)
    (verified : Verified checker script sigs keys) :
    (straight script stack nOpCount).step hashes checker flags opCheckmultisig [] pc =
      .ok (straight script (vchTrue :: rest) (nOpCount + 1 + keys.length)) := by
  refine step_switch (by decide) (by decide) (fun _ => few) ?_ room
  obtain ⟨scriptCode, fSuccess, deleted, ran, _, _, decided⟩ :=
    @checkMultiSig_encoded checker flags _ _ _ _ operands encoded
  obtain ⟨dummy, nSigs, nKeys, shape, _⟩ := operands.pushed
  have sigsHere : sigs.reverse <+: stack.drop (keys.length + 2) := by
    refine ⟨dummy :: rest, ?_⟩
    have stack_eq : stack = nKeys :: (keys.reverse ++ nSigs :: (sigs.reverse ++ dummy :: rest)) :=
      shape
    have front : (nKeys :: (keys.reverse ++ [nSigs])).length = keys.length + 2 := by simp
    have split : stack = (nKeys :: (keys.reverse ++ [nSigs])) ++ (sigs.reverse ++ dummy :: rest) := by
      simp [stack_eq]
    rw [split, drop_left' front]
  have kept := deleteSignatures_absent
    (fun vchSig member => absent vchSig (mem_reverse.mp member)) sigsHere
  rw [length_reverse] at kept
  obtain rfl : script = scriptCode := Except.ok.inj (kept.symm.trans deleted)
  rw [decided.mpr verified] at ran
  exact ran

end Steps

/-! ## Several instructions -/

section Runs

variable {hashes : ScriptHashes} {checker : SignatureChecker} {flags : ScriptFlags}
  {script pc rest : CScript} {stack : List Valtype} {nOpCount : Nat}

theorem evalLoop_step {opcode : UInt8} {vch : List UInt8} {machine after : ScriptMachine}
    (read : pc.getOp = some (opcode, vch, rest))
    (ran : machine.step hashes checker flags opcode vch rest = .ok after) :
    machine.evalLoop hashes checker flags pc = after.evalLoop hashes checker flags rest := by
  rw [evalLoop_read hashes checker flags machine read, ran]
  rfl

theorem evalLoop_pushed {parts : List (UInt8 × List UInt8)}
    (pushes : ∀ part ∈ parts, CScript.PushUnder flags part) (reads : ReadsAs pc parts rest)
    (room : stack.length + parts.length ≤ 1000) :
    (straight script stack nOpCount).evalLoop hashes checker flags pc =
      (straight script ((parts.map Prod.snd).reverse ++ stack) nOpCount).evalLoop hashes checker
        flags rest := by
  induction parts generalizing pc stack with
  | nil =>
    cases reads
    rfl
  | cons part later ih =>
    obtain ⟨next, read, more⟩ := reads
    have spare : stack.length + 1 + later.length ≤ 1000 := by
      rw [length_cons] at room
      omega
    have stepped := @step_push hashes checker flags script next stack nOpCount part
      (pushes part mem_cons_self) (Nat.le_trans (Nat.le_add_right _ _) spare)
    rw [evalLoop_step read stepped,
      ih (fun other member => pushes other (mem_cons_of_mem _ member)) more
        (by simpa using spare)]
    simp

end Runs

end ScriptMachine

/-! ## Whole scripts -/

section Scripts

open ScriptMachine

variable {hashes : ScriptHashes} {checker : SignatureChecker} {flags : ScriptFlags}
  {stack after : List Valtype}

theorem evalScript_straight {script : CScript} {nOpCount : Nat} (short : script.length ≤ 10000)
    (ran : (straight script stack 0).evalLoop hashes checker flags script =
      .ok (straight script after nOpCount)) :
    evalScript hashes checker flags stack script = .ok after := by
  change (require _ _ >>= fun _ => (evalLoop hashes checker flags (straight script stack 0)
    script).mapError Stop.caught >>= _) = _
  rw [require_eq short, ok_bind, ran]
  rfl

section

variable {values : List Valtype} (pushable : ∀ vch ∈ values, CScript.Pushable flags vch)

include pushable

theorem pushes_read (more : CScript) :
    ∃ parts, parts.map Prod.snd = values ∧ (∀ part ∈ parts, CScript.PushUnder flags part) ∧
      ReadsAs (values.flatMap pushData ++ more) parts more := by
  induction values with
  | nil => exact ⟨[], rfl, by simp, rfl⟩
  | cons vch later ih =>
    obtain ⟨parts, same, minimal, reads⟩ :=
      ih fun other member => pushable other (mem_cons_of_mem _ member)
    obtain ⟨opcode, push, read⟩ := (pushable vch mem_cons_self).getOp
    refine ⟨(opcode, vch) :: parts, by simp [same], forall_mem_cons.mpr ⟨push, minimal⟩,
      later.flatMap pushData ++ more, ?_, reads⟩
    simpa using read (later.flatMap pushData ++ more)

theorem isPushOnly_pushes :
    isPushOnly (values.flatMap pushData) = true := by
  obtain ⟨parts, _, minimal, reads⟩ := pushes_read pushable []
  rw [append_nil] at reads
  refine isPushOnly_iff.mpr ⟨parts, reads, fun part member => ?_⟩
  exact UInt8.le_trans (minimal part member).1 (by decide)

theorem evalScript_pushed (room : stack.length + values.length ≤ 1000)
    (short : (values.flatMap pushData).length ≤ 10000) :
    evalScript hashes checker flags stack (values.flatMap pushData) =
      .ok (values.reverse ++ stack) := by
  obtain ⟨parts, same, minimal, reads⟩ := pushes_read pushable []
  rw [append_nil] at reads
  have counted : parts.length = values.length := by rw [← same, length_map]
  refine @evalScript_straight hashes checker flags stack _ _ 0 short ?_
  rw [evalLoop_pushed minimal reads (by rw [counted]; exact room), same, evalLoop_nil]

end

end Scripts

end CentNode
