import CentNode.Script.MultiSig
import CentNode.Script.SignatureChecks
import Mathlib.Algebra.Order.Group.Nat
import Mathlib.Algebra.Order.Pi

/-!
# Signature operations bound the signature checks

`GetSigOpCount` takes the number of keys from the opcode before `OP_CHECKMULTISIG`, and
`EvalScript` from the stack.  Where an opcode for a number has just been executed that number
lies on top of the stack, and elsewhere the count is the largest that a run may ask for.
-/

namespace CentNode

open Tally

/-! ## The counts -/

namespace CScript

def IsNumber (opcode : UInt8) : Prop := opN1 ≤ opcode ∧ opcode ≤ opN16

theorem IsNumber.elim {holds : UInt8 → Prop}
    (all : ∀ n : Fin 97, 81 ≤ n.val → holds (UInt8.ofNat n.val)) {opcode : UInt8}
    (number : IsNumber opcode) : holds opcode := by
  have low : 81 ≤ opcode.toNat := UInt8.le_iff_toNat_le.mp number.1
  have high : opcode.toNat ≤ 96 := UInt8.le_iff_toNat_le.mp number.2
  have here := all ⟨opcode.toNat, Nat.lt_succ_of_le high⟩ low
  rwa [UInt8.ofNat_toNat] at here

theorem opcodeSigOps_le (lastOpcode opcode : UInt8) :
    opcodeSigOps true lastOpcode opcode ≤ opcodeSigOps false lastOpcode opcode := by
  unfold opcodeSigOps
  split
  case isTrue => exact Nat.le_refl _
  case isFalse =>
    split
    case isFalse => exact Nat.le_refl _
    case isTrue =>
      split
      case isFalse => simp
      case isTrue between =>
        simp only [Bool.true_and, Bool.and_eq_true, decide_eq_true_eq] at between
        have number : IsNumber lastOpcode := between
        simpa using @IsNumber.elim (fun opcode => (decodeOPN opcode).toNat ≤ 20) (by decide)
          lastOpcode number

theorem sigOpsFrom_le (bytes : Nat) (lastOpcode : UInt8) (pc : CScript) :
    sigOpsFrom true bytes lastOpcode pc ≤ sigOpsFrom false bytes lastOpcode pc := by
  induction bytes generalizing lastOpcode pc with
  | zero => exact Nat.le_refl _
  | succ bytes ih =>
    rw [sigOpsFrom, sigOpsFrom]
    cases getOp pc with
    | none => exact Nat.le_refl _
    | some part => exact Nat.add_le_add (opcodeSigOps_le _ _) (ih _ _)

theorem getSigOpCount_le (script : CScript) :
    script.getSigOpCount true ≤ script.getSigOpCount false :=
  sigOpsFrom_le _ _ _

theorem opcodeSigOps_check {opcode : UInt8}
    (checks : opcode = opChecksig ∨ opcode = opChecksigverify) (lastOpcode : UInt8) :
    opcodeSigOps true lastOpcode opcode = 1 := if_pos checks

theorem opcodeSigOps_number {lastOpcode opcode : UInt8} (number : IsNumber lastOpcode)
    (checks : opcode = opCheckmultisig ∨ opcode = opCheckmultisigverify) :
    opcodeSigOps true lastOpcode opcode = (decodeOPN lastOpcode).toNat := by
  have notSingle : ¬ (opcode = opChecksig ∨ opcode = opChecksigverify) := by
    rcases checks with rfl | rfl <;> decide
  have inside : (true && decide (opN1 ≤ lastOpcode) && decide (lastOpcode ≤ opN16)) = true := by
    simpa [IsNumber] using number
  rw [opcodeSigOps, if_neg notSingle, if_pos checks, if_pos inside]

theorem opcodeSigOps_other {lastOpcode opcode : UInt8} (other : ¬ IsNumber lastOpcode)
    (checks : opcode = opCheckmultisig ∨ opcode = opCheckmultisigverify) :
    opcodeSigOps true lastOpcode opcode = 20 := by
  have outside : ¬ (true && decide (opN1 ≤ lastOpcode) && decide (lastOpcode ≤ opN16)) = true := by
    simpa [IsNumber] using other
  have notSingle : ¬ (opcode = opChecksig ∨ opcode = opChecksigverify) := by
    rcases checks with rfl | rfl <;> decide
  rw [opcodeSigOps, if_neg notSingle, if_pos checks, if_neg outside]

end CScript

open CScript

def pushedNumber (opcode : UInt8) : Valtype :=
  (CScriptNum.ofInt ((opcode.toNat : Int) - (0x51 - 1))).getvch

/-- The number is read back as `DecodeOP_N` reads the opcode. -/
theorem decode_pushedNumber {opcode : UInt8} (number : CScript.IsNumber opcode)
    (fRequireMinimal : Bool) :
    ∃ num, CScriptNum.decode (pushedNumber opcode) fRequireMinimal = .ok num ∧
      num.getint = (decodeOPN opcode).toNat := by
  have read := @CScript.IsNumber.elim
    (fun opcode => ∀ flag : Bool,
      CScriptNum.decode (pushedNumber opcode) flag = .ok (.ofInt ((decodeOPN opcode).toNat : Int)) ∧
        (CScriptNum.ofInt ((decodeOPN opcode).toNat : Int)).getint = (decodeOPN opcode).toNat)
    (by decide +kernel) opcode number
  exact ⟨_, (read fRequireMinimal).1, (read fRequireMinimal).2⟩

/-! ## One opcode -/

theorem of_require {cond : Prop} [Decidable cond] {serror : ScriptError} {value : Unit}
    (passed : require cond serror = .ok value) : cond := by
  unfold require at passed
  split at passed
  case isTrue holds => exact holds
  case isFalse => cases passed

namespace ScriptMachine

variable {hashes : ScriptHashes} {checker : SignatureChecker} {flags : ScriptFlags}

variable (opcode : Opcode)

theorem checkSig_within (machine : ScriptMachine) :
    Within (machine.checkSigCounted checker flags opcode) 1 fun _ => True := by
  unfold checkSigCounted
  refine .bindFree fun _ _ => .bindFree fun vchSig _ => .bindFree fun vchPubKey _ =>
    .bindFree fun scriptCode _ => .bindFree fun _ _ => .bindFree fun _ _ => ?_
  change Within _ (1 + 0) _
  refine .bindCharge ?_
  exact .bindFree fun _ _ => .bindFree fun _ _ => .bindFree fun _ _ => .lift fun _ _ => trivial

theorem matchSignatures_within (stack : List Valtype) (scriptCode : CScript)
    {isig ikey nSigsCount nKeysCount : Nat} (enough : nSigsCount ≤ nKeysCount) :
    Within (matchSignaturesCounted checker flags stack scriptCode isig ikey nSigsCount nKeysCount)
      nKeysCount fun _ => True := by
  induction nKeysCount using Nat.strongRecOn generalizing isig ikey nSigsCount with
  | ind nKeysCount ih =>
    rw [matchSignaturesCounted]
    refine .ite (fun _ => .lift fun _ _ => trivial) fun some_sigs => ?_
    refine .bindFree fun vchSig _ => .bindFree fun vchPubKey _ => .bindFree fun _ _ =>
      .bindFree fun _ _ => ?_
    have split : 1 + (nKeysCount - 1) = nKeysCount := by omega
    refine .mono (Within.bindCharge ?_) (Nat.le_of_eq split) fun _ holds => holds
    generalize checker vchSig vchPubKey scriptCode = fOk
    dsimp only
    by_cases few : (if fOk = true then nSigsCount - 1 else nSigsCount) + 1 > nKeysCount
    · rw [dif_pos few]
      exact .lift fun _ _ => trivial
    · rw [dif_neg few]
      exact ih (nKeysCount - 1) (by omega) (by omega)

theorem checkMultiSig_within {limit : Nat} (machine : ScriptMachine)
    (counted : ∀ keys num, stackTop machine.stack 1 = .ok keys →
      CScriptNum.decode keys flags.minimaldata = .ok num → num.getint ≤ 20 →
        num.getint.toNat ≤ limit) :
    Within (machine.checkMultiSigCounted checker flags opcode) limit fun _ => True := by
  unfold checkMultiSigCounted
  refine .bindFree fun _ _ => .bindFree fun keys top => .bindFree fun num decoded =>
    .bindFree fun _ inRange => .bindFree fun _ _ => .bindFree fun _ _ => .bindFree fun sigs _ =>
    .bindFree fun sigsNum _ => .bindFree fun _ sigsInRange => .bindFree fun _ _ =>
    .bindFree fun scriptCode _ => ?_
  have range := of_require inRange
  have sigsRange := of_require sigsInRange
  have keysLimit : num.getint.toNat ≤ limit := counted keys num top decoded (by omega)
  refine .mono ?_ keysLimit fun _ holds => holds
  have matched := @matchSignatures_within checker flags machine.stack scriptCode
    (2 + num.getint.toNat + 1) 2 sigsNum.getint.toNat num.getint.toNat (by omega)
  change Within _ (num.getint.toNat + 0) _
  refine matched.bind fun fSuccess _ => ?_
  exact .bindFree fun _ _ => .bindFree fun _ _ => .bindFree fun _ _ => .bindFree fun _ _ =>
    .bindFree fun _ _ => .bindFree fun _ _ => .lift fun _ _ => trivial

/-- Where the last opcode was one for a number and has been executed, its number lies on top. -/
def TopNumber (lastOpcode : UInt8) (machine : ScriptMachine) : Prop :=
  machine.vfExec.all id = true → CScript.IsNumber lastOpcode →
    machine.stack.head? = some (pushedNumber lastOpcode)

variable {lastOpcode byte : UInt8} {machine : ScriptMachine}

theorem checkMultiSig_within_sigOps (top : TopNumber lastOpcode machine)
    (executes : machine.vfExec.all id = true)
    (checks : byte = opCheckmultisig ∨ byte = opCheckmultisigverify) :
    Within (machine.checkMultiSigCounted checker flags opcode)
      (opcodeSigOps true lastOpcode byte) fun _ => True := by
  by_cases number : CScript.IsNumber lastOpcode
  · rw [opcodeSigOps_number number checks]
    refine checkMultiSig_within opcode machine fun keys num topKeys decoded _ => ?_
    have head := top executes number
    obtain ⟨other, decoded', value⟩ := decode_pushedNumber number flags.minimaldata
    have same : keys = pushedNumber lastOpcode := by
      rw [stackTop, ← List.head?_eq_getElem?, head] at topKeys
      exact (Except.ok.inj topKeys).symm
    rw [same] at decoded
    cases decoded.symm.trans decoded'
    rw [value, Int.toNat_natCast]
  · rw [opcodeSigOps_other number checks]
    exact checkMultiSig_within opcode machine fun keys num _ _ most => by omega

theorem ofByte_checks (byte : UInt8) :
    (Opcode.ofByte byte = .checksig → byte = opChecksig) ∧
      (Opcode.ofByte byte = .checksigverify → byte = opChecksigverify) ∧
        (Opcode.ofByte byte = .checkmultisig → byte = opCheckmultisig) ∧
          (Opcode.ofByte byte = .checkmultisigverify → byte = opCheckmultisigverify) := by
  have all : ∀ n : Fin 256, let byte := UInt8.ofNat n.val
      (Opcode.ofByte byte = .checksig → byte = opChecksig) ∧
        (Opcode.ofByte byte = .checksigverify → byte = opChecksigverify) ∧
          (Opcode.ofByte byte = .checkmultisig → byte = opCheckmultisig) ∧
            (Opcode.ofByte byte = .checkmultisigverify → byte = opCheckmultisigverify) := by
    decide +kernel
  have here := all ⟨byte.toNat, byte.toNat_lt⟩
  simpa using here

theorem switch_number (number : CScript.IsNumber byte) (machine : ScriptMachine) (fExec : Bool)
    (pc : CScript) :
    machine.switch hashes checker flags fExec byte pc = .ok (machine.push (pushedNumber byte)) := by
  have isNumber : Opcode.ofByte byte = .opN := if_pos (.inr number)
  rw [switch, isNumber]
  rfl

theorem not_control
    (checks : byte = opChecksig ∨ byte = opChecksigverify ∨ byte = opCheckmultisig ∨
      byte = opCheckmultisigverify) : ¬ (0x63 ≤ byte ∧ byte ≤ 0x68) := by
  rcases checks with rfl | rfl | rfl | rfl <;> decide

section

variable (top : TopNumber lastOpcode machine)

include top

theorem switch_within
    (runs : machine.vfExec.all id = true ∨ (0x63 ≤ byte ∧ byte ≤ 0x68)) (fExec : Bool)
    (pc : CScript) :
    Within (machine.switchCounted hashes checker flags fExec byte pc)
      (opcodeSigOps true lastOpcode byte) (TopNumber byte) := by
  obtain ⟨single, singleVerify, multi, multiVerify⟩ := ofByte_checks byte
  -- an opcode that checks signatures is none for a number, and is only run when executing
  have vacuous : ∀ {machine : ScriptMachine}, (byte = opChecksig ∨ byte = opChecksigverify ∨
      byte = opCheckmultisig ∨ byte = opCheckmultisigverify) → TopNumber byte machine := by
    intro machine checks _ number
    have low : ¬ CScript.IsNumber byte := by
      unfold CScript.IsNumber
      rcases checks with rfl | rfl | rfl | rfl <;> decide
    exact absurd number low
  unfold switchCounted
  split
  case h_1 op =>
    rw [opcodeSigOps_check (.inl (single op))]
    exact (checkSig_within _ machine).mono (Nat.le_refl _) fun _ _ => vacuous (.inl (single op))
  case h_2 op =>
    rw [opcodeSigOps_check (.inr (singleVerify op))]
    exact (checkSig_within _ machine).mono (Nat.le_refl _) fun _ _ =>
      vacuous (.inr (.inl (singleVerify op)))
  case h_3 op =>
    have executes := runs.resolve_right (not_control (.inr (.inr (.inl (multi op)))))
    exact (checkMultiSig_within_sigOps _ top executes (.inl (multi op))).mono (Nat.le_refl _)
      fun _ _ => vacuous (.inr (.inr (.inl (multi op))))
  case h_4 op =>
    have executes := runs.resolve_right (not_control (.inr (.inr (.inr (multiVerify op)))))
    exact (checkMultiSig_within_sigOps _ top executes (.inr (multiVerify op))).mono
      (Nat.le_refl _) fun _ _ => vacuous (.inr (.inr (.inr (multiVerify op))))
  case h_5 =>
    refine .lift fun after ran _ number => ?_
    rw [switch_number number] at ran
    cases ran
    rfl

theorem execute_within (byte : UInt8)
    (vchPushValue : Valtype) (pc : CScript) :
    Within (machine.executeCounted hashes checker flags byte vchPushValue pc)
      (opcodeSigOps true lastOpcode byte) (TopNumber byte) := by
  unfold executeCounted
  dsimp only
  refine .ite (fun pushes => ?_) fun _ => .ite (fun runs => ?_) fun passes => ?_
  · refine .bindFree fun _ _ => .lift fun after _ _ number => ?_
    exact absurd (UInt8.le_trans number.1 pushes.2) (by decide)
  · exact switch_within top runs _ _
  · refine .lift fun after same executes _ => ?_
    cases same
    exact absurd (.inl executes) passes

theorem countOp_topNumber (byte : UInt8) :
    TopNumber lastOpcode (machine.countOp byte) := by
  unfold countOp
  split
  case isTrue => exact top
  case isFalse => exact top

theorem step_within (byte : UInt8) (vchPushValue : Valtype)
    (pc : CScript) :
    Within (machine.stepCounted hashes checker flags byte vchPushValue pc)
      (opcodeSigOps true lastOpcode byte) (TopNumber byte) := by
  unfold stepCounted
  refine .bindFree fun _ _ => .bindFree fun _ _ => .bindFree fun _ _ => ?_
  change Within _ (_ + 0) _
  refine (execute_within (countOp_topNumber top byte) byte vchPushValue pc).bind
    fun after kept => ?_
  refine .bindFree fun _ _ => .lift fun _ same => ?_
  cases same
  exact kept

end

theorem evalLoop_within {bytes : Nat} {pc : CScript} (short : pc.length ≤ bytes)
    (top : TopNumber lastOpcode machine) :
    Within (machine.evalLoopCounted hashes checker flags pc)
      (sigOpsFrom true bytes lastOpcode pc) fun _ => True := by
  induction bytes generalizing lastOpcode machine pc with
  | zero =>
    obtain rfl := List.length_eq_zero_iff.mp (Nat.le_zero.mp short)
    rw [evalLoopCounted]
    exact .lift fun _ _ => trivial
  | succ bytes ih =>
    rw [evalLoopCounted, sigOpsFrom]
    refine .ite (fun _ => .lift fun _ _ => trivial) fun _ => ?_
    split
    case h_1 =>
      refine .lift fun _ impossible => ?_
      cases impossible
    case h_2 byte vchPushValue rest read =>
      rw [read]
      have shorter := getOp_length_lt read
      exact (step_within top byte vchPushValue rest).bind fun after kept => ih (by omega) kept

/-! ## The script that is redeemed -/

/-- The top of the stack counts no more than the data. -/
def Carries (data : List UInt8) (stack : List Valtype) : Prop :=
  ∀ top ∈ stack.head?, CScript.getSigOpCount top true ≤ CScript.getSigOpCount data true

theorem pushedNumber_count (pushes : byte = 0x4f ∨ CScript.IsNumber byte) :
    getSigOpCount (pushedNumber byte) true = 0 := by
  rcases pushes with rfl | number
  · decide +kernel
  · exact @CScript.IsNumber.elim
      (fun byte => getSigOpCount (pushedNumber byte) true = 0) (by decide +kernel) byte
      number

/-- `OP_RESERVED` is the only opcode of a script of pushes that pushes nothing. -/
theorem reserved_of_low (high : ¬ byte ≤ opPushdata4) (low : byte ≤ opN16)
    (other : ¬ (byte = 0x4f ∨ CScript.IsNumber byte)) : byte = 0x50 := by
  unfold CScript.IsNumber at other
  rw [UInt8.le_iff_toNat_le] at low high
  rw [UInt8.le_iff_toNat_le, UInt8.le_iff_toNat_le] at other
  have bounds : ¬ byte.toNat ≤ 78 ∧ byte.toNat ≤ 96 := ⟨high, low⟩
  have noNumber : ¬ (81 ≤ byte.toNat ∧ byte.toNat ≤ 96) := fun number => other (.inr number)
  have negate : byte.toNat ≠ 79 := fun same => other (.inl (UInt8.toNat_inj.mp same))
  exact UInt8.toNat_inj.mp (show byte.toNat = 80 by omega)

section

variable {vch : Valtype} (low : byte ≤ opN16) (flat : machine.vfExec = []) (pc : CScript)

include low flat pc

theorem execute_pushes :
    Outcome.Meets (machine.execute hashes checker flags byte vch pc)
      (fun after => after.vfExec = [] ∧ Carries vch after.stack) fun _ => True := by
  unfold execute
  rw [flat]
  dsimp only
  refine .ite (fun _ => ?_) fun above => ?_
  · have checked : Outcome.Meets (checkWhen flags.minimaldata
        (require (checkMinimalPush vch byte = true) .minimaldata)) (fun _ => True)
        fun _ => True := by
      unfold checkWhen
      exact .ite (fun _ => (require_meets _ trivial).mono fun _ _ => trivial) fun _ => .ok trivial
    refine checked.bind fun _ _ => .ok ⟨flat, fun top member => ?_⟩
    cases member
    exact Nat.le_refl _
  · refine .ite (fun _ => ?_) fun skips => absurd (.inl rfl) skips
    have high : ¬ byte ≤ opPushdata4 := fun pushes => above ⟨rfl, pushes⟩
    by_cases pushes : byte = 0x4f ∨ CScript.IsNumber byte
    · have isNumber : Opcode.ofByte byte = .opN := if_pos pushes
      rw [switch, isNumber]
      refine .ok ⟨flat, fun top member => ?_⟩
      cases member
      exact Nat.le_trans (Nat.le_of_eq (pushedNumber_count pushes)) (Nat.zero_le _)
    · rw [switch, reserved_of_low high low pushes]
      exact .error trivial

theorem step_pushes :
    Outcome.Meets (machine.step hashes checker flags byte vch pc)
      (fun after => after.vfExec = [] ∧ Carries vch after.stack) fun _ => True := by
  have counted : (machine.countOp byte).vfExec = [] := by
    unfold countOp
    split
    case isTrue => exact flat
    case isFalse => exact flat
  unfold step
  refine .bind (require_meets _ trivial) fun _ _ => .bind (require_meets _ trivial) fun _ _ =>
    .bind (require_meets _ trivial) fun _ _ => ?_
  refine .bind (execute_pushes low counted pc) fun after kept => ?_
  exact .bind (require_meets _ trivial) fun _ _ => .ok kept

end

/-- Where a script only pushes, the last item that it pushes is the one that is counted. -/
theorem evalLoop_pushes {bytes : Nat} {data : List UInt8} {after : ScriptMachine} {pc : CScript}
    (short : pc.length ≤ bytes) (pushes : isPushOnly pc = true)
    (flat : machine.vfExec = []) (carries : Carries data machine.stack)
    (ran : machine.evalLoop hashes checker flags pc = .ok after) :
    ∃ last, lastPush bytes data pc = some last ∧ Carries last after.stack := by
  induction bytes generalizing data machine pc with
  | zero =>
    obtain rfl := List.length_eq_zero_iff.mp (Nat.le_zero.mp short)
    rw [evalLoop_nil] at ran
    cases ran
    exact ⟨data, rfl, carries⟩
  | succ bytes ih =>
    rw [lastPush]
    by_cases empty : pc.isEmpty
    · rw [evalLoop_eq, if_pos empty] at ran
      cases ran
      exact ⟨data, if_pos empty, carries⟩
    · rw [if_neg empty]
      rw [isPushOnly, if_neg empty] at pushes
      split at pushes
      case h_1 => cases pushes
      case h_2 byte vch rest read =>
        split at pushes
        case isTrue => cases pushes
        case isFalse low =>
          rw [evalLoop_read hashes checker flags machine read] at ran
          rw [read]
          dsimp only
          rw [if_neg low]
          have shorter := getOp_length_lt read
          cases stepped : machine.step hashes checker flags byte vch rest with
          | error stop =>
            rw [stepped] at ran
            cases ran
          | ok next =>
            rw [stepped] at ran
            obtain ⟨nextFlat, nextCarries⟩ :=
              (step_pushes (UInt8.not_lt.mp low) flat rest).value stepped
            exact ih (by omega) pushes nextFlat nextCarries ran

end ScriptMachine

/-! ## Whole scripts -/

section Scripts

open ScriptMachine

variable {hashes : ScriptHashes} {checker : SignatureChecker} {flags : ScriptFlags}

variable {scriptSig scriptPubKey : CScript} (role : ScriptRole) (stack : List Valtype)
  (script : CScript)

theorem evalScript_within :
    Within (evalScriptCounted hashes checker flags stack script) (script.getSigOpCount true)
      fun after => evalScript hashes checker flags stack script = .ok after := by
  have bound : Within (evalScriptCounted hashes checker flags stack script)
      (script.getSigOpCount true) fun _ => True := by
    unfold evalScriptCounted
    refine .bindFree fun _ _ => ?_
    change Within _ (_ + 0) _
    -- the opcode before the first one is `OP_INVALIDOPCODE`, which is no number
    have start : TopNumber opInvalidopcode { stack := stack, pbegincodehash := script } := by
      intro _ number
      exact absurd number.2 (by decide)
    refine ((evalLoop_within (Nat.le_refl _) start).mapError Stop.caught).bind fun _ _ => ?_
    exact .bindFree fun _ _ => .lift fun _ _ => trivial
  exact ⟨bound.cost, fun after returned => evalScriptCounted_outcome stack script ▸ returned⟩

theorem evalScriptAs_within :
    Within (evalScriptAs hashes checker flags role stack script)
      (Pi.single role (script.getSigOpCount true))
      fun after => evalScript hashes checker flags stack script = .ok after :=
  (evalScript_within stack script).convert fun _ _ more => Pi.single_le_single.mpr more

theorem evalScript_pushes {stack : List Valtype}
    (pushes : scriptSig.isPushOnly = true)
    (ran : evalScript hashes checker flags [] scriptSig = .ok stack) :
    ∃ last, lastPush scriptSig.length [] scriptSig = some last ∧ Carries last stack := by
  unfold evalScript at ran
  cases sized : require (scriptSig.length ≤ 10000) .scriptSize with
  | error stop =>
    rw [sized] at ran
    cases ran
  | ok _ =>
    rw [sized, ok_bind] at ran
    cases looped : ScriptMachine.evalLoop hashes checker flags
        { stack := [], pbegincodehash := scriptSig } scriptSig with
    | error stop =>
      rw [looped] at ran
      cases ran
    | ok machine =>
      rw [looped] at ran
      have empty : Carries [] [] := fun top member => nomatch member
      obtain ⟨last, pushed, carries⟩ := evalLoop_pushes (Nat.le_refl _) pushes rfl empty looped
      refine ⟨last, pushed, ?_⟩
      change (require (machine.vfExec = []) .unbalancedConditional >>= fun _ =>
        .ok machine.stack) = .ok stack at ran
      cases balanced : require (machine.vfExec = []) .unbalancedConditional with
      | error stop =>
        rw [balanced] at ran
        cases ran
      | ok _ =>
        rw [balanced] at ran
        cases ran
        exact carries

/-- The script that is redeemed makes no more calls than are counted with the script that
redeems it. -/
theorem verifyScriptHash_within {stackCopy : List Valtype}
    (isHash : scriptPubKey.isPayToScriptHash = true)
    (left : evalScript hashes checker flags [] scriptSig = .ok stackCopy) :
    Within (verifyScriptHashCounted hashes checker flags scriptSig stackCopy)
      (Pi.single .redeemScript (scriptPubKey.getSigOpCountWith scriptSig)) fun _ => True := by
  unfold verifyScriptHashCounted
  refine .bindFree fun _ checked => .bindFree fun _ _ => .bindFree fun pubKey2 top =>
    .bindFree fun rest _ => ?_
  obtain ⟨last, pushed, carries⟩ := evalScript_pushes (of_require checked) left
  have counted : getSigOpCount pubKey2 true ≤ scriptPubKey.getSigOpCountWith scriptSig := by
    have head : stackCopy.head? = some pubKey2 := by
      rw [stackTop, ← List.head?_eq_getElem?] at top
      cases first : stackCopy.head? with
      | none =>
        rw [first] at top
        cases top
      | some vch =>
        rw [first] at top
        cases top
        rfl
    have bound := carries pubKey2 head
    simpa [getSigOpCountWith, isHash, pushed] using bound
  have evaluated := (@evalScriptAs_within hashes checker flags .redeemScript rest pubKey2).mono
    (Pi.single_le_single.mpr counted) fun _ holds => holds
  rw [← add_zero (Pi.single ScriptRole.redeemScript _)]
  exact evaluated.bind fun _ _ => .lift fun _ _ => trivial

theorem verifyScript_within (scriptSig scriptPubKey : CScript) :
    Within (verifyScriptCounted hashes checker flags scriptSig scriptPubKey)
      (Pi.single .scriptSig (scriptSig.getSigOpCount true) +
        (Pi.single .scriptPubKey (scriptPubKey.getSigOpCount true) +
          Pi.single .redeemScript (scriptPubKey.getSigOpCountWith scriptSig)))
      fun _ => True := by
  unfold verifyScriptCounted
  refine .bindFree fun _ _ => (evalScriptAs_within _ _ _).bind fun stackCopy left =>
    (evalScriptAs_within _ _ _).bind fun stack _ => .bindFree fun _ _ => ?_
  refine .ite (fun redeems => ?_) fun _ => .lift fun _ _ => trivial
  exact verifyScriptHash_within (Bool.and_eq_true_iff.mp redeems).2 left

/-- Evaluating a script calls `CheckSig` no more often than the accurate count of the script
says, which is at most the other one.  Evaluating the script that is redeemed calls it no more
often than is counted for the output with the script that redeems it. -/
theorem checkSig_calls_bounded (hashes : ScriptHashes) (checker : SignatureChecker)
    (flags : ScriptFlags) :
    (∀ stack script,
      (evalScriptCounted hashes checker flags stack script).outcome =
          evalScript hashes checker flags stack script ∧
        (evalScriptCounted hashes checker flags stack script).tally ≤ script.getSigOpCount true ∧
          script.getSigOpCount true ≤ script.getSigOpCount false) ∧
    ∀ scriptSig scriptPubKey,
      (verifyScriptCounted hashes checker flags scriptSig scriptPubKey).outcome =
          verifyScript hashes checker flags scriptSig scriptPubKey ∧
        (verifyScriptCounted hashes checker flags scriptSig scriptPubKey).tally .redeemScript ≤
          scriptPubKey.getSigOpCountWith scriptSig := by
  constructor
  · intro stack script
    exact ⟨evalScriptCounted_outcome stack script, (evalScript_within stack script).cost,
      script.getSigOpCount_le⟩
  · intro scriptSig scriptPubKey
    refine ⟨verifyScriptCounted_outcome scriptSig scriptPubKey, ?_⟩
    have bound := (@verifyScript_within hashes checker flags scriptSig scriptPubKey).cost
      .redeemScript
    simpa using bound

end Scripts

end CentNode
