import CentNode.Library.Tally
import CentNode.Script.Interpreter
import CentNode.Script.SigOps

/-!
# The signature checks that a script makes

The interpreter once more, with its calls of `CheckSig` tallied.  Without the tally it is the
interpreter, and its calls are bounded by the signature operations that are counted in the
scripts before they run.
-/

namespace CentNode

open Tally

/-- A run that tallies its calls of `CheckSig`. -/
abbrev Counted : Type → Type := Tally Nat Stop

namespace ScriptMachine

variable (hashes : ScriptHashes) (checker : SignatureChecker) (flags : ScriptFlags)
  (opcode : Opcode) (machine : ScriptMachine)

/-! ## The opcodes that check signatures -/

/-- `checkSig`, with its calls. -/
def checkSigCounted : Counted ScriptMachine := do
  needs 2 machine.stack
  let vchSig ← stackTop machine.stack 2
  let vchPubKey ← stackTop machine.stack 1
  let scriptCode ← machine.pbegincodehash.findAndDelete (CScript.pushData vchSig)
  checkSignatureEncoding vchSig flags
  checkPubKeyEncoding vchPubKey flags
  let fSuccess ← Tally.charge 1 (checker vchSig vchPubKey scriptCode)
  let stack ← popStack machine.stack
  let stack ← popStack stack
  let stack ← verifyResult (opcode == .checksigverify) fSuccess .checksigverify
    (vchBool fSuccess :: stack)
  return { machine with stack := stack }

/-- `matchSignatures`, with its calls. -/
def matchSignaturesCounted (stack : List Valtype) (scriptCode : CScript)
    (isig ikey nSigsCount nKeysCount : Nat) : Counted Bool :=
  if nSigsCount = 0 then return true
  else do
    let vchSig ← stackTop stack isig
    let vchPubKey ← stackTop stack ikey
    checkSignatureEncoding vchSig flags
    checkPubKeyEncoding vchPubKey flags
    let fOk ← Tally.charge 1 (checker vchSig vchPubKey scriptCode)
    let nSigsLeft := if fOk then nSigsCount - 1 else nSigsCount
    if _enough : nSigsLeft + 1 > nKeysCount then return false
    else
      matchSignaturesCounted stack scriptCode (if fOk then isig + 1 else isig) (ikey + 1) nSigsLeft
        (nKeysCount - 1)
termination_by nKeysCount
decreasing_by omega

def checkMultiSigCounted : Counted ScriptMachine := do
  needs 1 machine.stack
  let keys ← stackTop machine.stack 1
  let keysNum ← CScriptNum.decode keys flags.minimaldata
  require (¬(keysNum.getint < 0 ∨ keysNum.getint > 20)) .pubkeyCount
  let nKeysCount := keysNum.getint.toNat
  let nOpCount := machine.nOpCount + nKeysCount
  require (nOpCount ≤ 201) .opCount
  let ikey := 2
  needs (ikey + nKeysCount) machine.stack
  let sigs ← stackTop machine.stack (ikey + nKeysCount)
  let sigsNum ← CScriptNum.decode sigs flags.minimaldata
  require (¬(sigsNum.getint < 0 ∨ sigsNum.getint > nKeysCount)) .sigCount
  let nSigsCount := sigsNum.getint.toNat
  let isig := ikey + nKeysCount + 1
  let i := isig + nSigsCount
  needs i machine.stack
  let scriptCode ← deleteSignatures machine.stack isig nSigsCount machine.pbegincodehash
  let fSuccess ← matchSignaturesCounted checker flags machine.stack scriptCode isig ikey nSigsCount
    nKeysCount
  let stack ← popStacks (i - 1) machine.stack
  needs 1 stack
  let dummy ← stackTop stack 1
  checkWhen flags.nulldummy (require (dummy.length = 0) .sigNulldummy)
  let stack ← popStack stack
  let stack ← verifyResult (opcode == .checkmultisigverify) fSuccess .checkmultisigverify
    (vchBool fSuccess :: stack)
  return { machine with stack := stack, nOpCount := nOpCount }

/-! ## The loop -/

/-- `switch`, with its calls; the other opcodes make none. -/
def switchCounted (fExec : Bool) (byte : UInt8) (pc : CScript) : Counted ScriptMachine :=
  match Opcode.ofByte byte with
  | .checksig => machine.checkSigCounted checker flags .checksig
  | .checksigverify => machine.checkSigCounted checker flags .checksigverify
  | .checkmultisig => machine.checkMultiSigCounted checker flags .checkmultisig
  | .checkmultisigverify => machine.checkMultiSigCounted checker flags .checkmultisigverify
  | _ => Tally.lift (machine.switch hashes checker flags fExec byte pc)

/-- `execute`, with its calls. -/
def executeCounted (byte : UInt8) (vchPushValue : Valtype) (pc : CScript) :
    Counted ScriptMachine :=
  let fExec := machine.vfExec.all id
  if fExec ∧ byte ≤ opPushdata4 then do
    checkWhen flags.minimaldata (require (checkMinimalPush vchPushValue byte = true) .minimaldata)
    return machine.push vchPushValue
  else if fExec ∨ (0x63 ≤ byte ∧ byte ≤ 0x68) then
    machine.switchCounted hashes checker flags fExec byte pc
  else return machine

/-- `step`, with its calls. -/
def stepCounted (byte : UInt8) (vchPushValue : Valtype) (pc : CScript) :
    Counted ScriptMachine := do
  require (vchPushValue.length ≤ maxScriptElementSize) .pushSize
  require (byte > opN16 → machine.nOpCount + 1 ≤ 201) .opCount
  require (byte ∉ Opcode.disabled) .disabledOpcode
  let machine ← (machine.countOp byte).executeCounted hashes checker flags byte vchPushValue pc
  require (machine.stack.length + machine.altstack.length ≤ 1000) .stackSize
  return machine

/-- `evalLoop`, with its calls. -/
def evalLoopCounted (machine : ScriptMachine) (pc : CScript) : Counted ScriptMachine :=
  if pc.isEmpty then return machine
  else
    match _read : CScript.getOp pc with
    | none => Tally.lift (.error (.error .badOpcode))
    | some (byte, vchPushValue, rest) => do
        let machine ← machine.stepCounted hashes checker flags byte vchPushValue rest
        evalLoopCounted machine rest
termination_by pc.length
decreasing_by exact CScript.getOp_length_lt _read

end ScriptMachine

section Scripts

variable (hashes : ScriptHashes) (checker : SignatureChecker) (flags : ScriptFlags)

/-- `evalScript`, with its calls. -/
def evalScriptCounted (stack : List Valtype) (script : CScript) : Counted (List Valtype) := do
  require (script.length ≤ 10000) .scriptSize
  let machine ← (ScriptMachine.evalLoopCounted hashes checker flags
    { stack := stack, pbegincodehash := script } script).mapError Stop.caught
  require (machine.vfExec = []) .unbalancedConditional
  return machine.stack

/-- The scripts that `VerifyScript` evaluates. -/
inductive ScriptRole where
  | scriptSig
  | scriptPubKey
  | redeemScript
  deriving DecidableEq, Repr

/-- `evalScript`, with its calls on the account of a role. -/
def evalScriptAs (role : ScriptRole) (stack : List Valtype) (script : CScript) :
    Tally (ScriptRole → Nat) Stop (List Valtype) :=
  (evalScriptCounted hashes checker flags stack script).convert (Pi.single role)

def verifyScriptHashCounted (scriptSig : CScript) (stackCopy : List Valtype) :
    Tally (ScriptRole → Nat) Stop Unit := do
  require (scriptSig.isPushOnly = true) .sigPushonly
  assertThat (stackCopy ≠ [])
  let pubKey2 ← stackTop stackCopy 1
  let stackCopy ← popStack stackCopy
  let stackCopy ← evalScriptAs hashes checker flags .redeemScript stackCopy pubKey2
  requireTrue stackCopy

/-- `verifyScript`, with its calls for each script that it evaluates. -/
def verifyScriptCounted (scriptSig scriptPubKey : CScript) :
    Tally (ScriptRole → Nat) Stop Unit := do
  checkWhen flags.sigpushonly (require (scriptSig.isPushOnly = true) .sigPushonly)
  let stackCopy ← evalScriptAs hashes checker flags .scriptSig [] scriptSig
  let stack ← evalScriptAs hashes checker flags .scriptPubKey stackCopy scriptPubKey
  requireTrue stack
  if flags.p2sh && scriptPubKey.isPayToScriptHash then
    verifyScriptHashCounted hashes checker flags scriptSig stackCopy
  else return ()

end Scripts

/-! ## The interpreter without the tally -/

namespace ScriptMachine

variable {hashes : ScriptHashes} {checker : SignatureChecker} {flags : ScriptFlags}

theorem checkSigCounted_outcome (opcode : Opcode) (machine : ScriptMachine) :
    (machine.checkSigCounted checker flags opcode).outcome =
      machine.checkSig checker flags opcode := by
  simp only [checkSigCounted, outcome_bind, outcome_liftM, outcome_charge,
    outcome_pure]
  rfl

theorem matchSignaturesCounted_outcome (stack : List Valtype) (scriptCode : CScript)
    (isig ikey nSigsCount nKeysCount : Nat) :
    (matchSignaturesCounted checker flags stack scriptCode isig ikey nSigsCount
        nKeysCount).outcome =
      matchSignatures checker flags stack scriptCode isig ikey nSigsCount nKeysCount := by
  induction nKeysCount using Nat.strongRecOn generalizing isig ikey nSigsCount with
  | ind nKeysCount ih =>
    rw [matchSignaturesCounted, matchSignatures, outcome_ite]
    split
    case isTrue => rfl
    case isFalse =>
      simp only [outcome_bind, outcome_liftM, outcome_charge]
      refine bind_congr fun vchSig => bind_congr fun vchPubKey => bind_congr fun _ =>
        bind_congr fun _ => ?_
      generalize checker vchSig vchPubKey scriptCode = fOk
      change outcome (dite _ _ _) = dite _ _ _
      generalize (if fOk = true then nSigsCount - 1 else nSigsCount) = nSigsLeft
      by_cases enough : nSigsLeft + 1 > nKeysCount
      · rw [dif_pos enough, dif_pos enough]
        rfl
      · rw [dif_neg enough, dif_neg enough]
        exact ih _ (by omega) _ _ _

theorem checkMultiSigCounted_outcome (opcode : Opcode) (machine : ScriptMachine) :
    (machine.checkMultiSigCounted checker flags opcode).outcome =
      machine.checkMultiSig checker flags opcode := by
  simp only [checkMultiSigCounted, outcome_bind, outcome_liftM,
    matchSignaturesCounted_outcome, outcome_pure]
  rfl

variable (machine : ScriptMachine)

variable (fExec : Bool) (byte : UInt8) (vchPushValue : Valtype) (pc : CScript)

theorem switchCounted_outcome :
    (machine.switchCounted hashes checker flags fExec byte pc).outcome =
      machine.switch hashes checker flags fExec byte pc := by
  unfold switchCounted
  split
  case h_1 op => rw [checkSigCounted_outcome, switch, op]
  case h_2 op => rw [checkSigCounted_outcome, switch, op]
  case h_3 op => rw [checkMultiSigCounted_outcome, switch, op]
  case h_4 op => rw [checkMultiSigCounted_outcome, switch, op]
  case h_5 => rfl

theorem executeCounted_outcome :
    (machine.executeCounted hashes checker flags byte vchPushValue pc).outcome =
      machine.execute hashes checker flags byte vchPushValue pc := by
  simp only [executeCounted, outcome_ite, outcome_bind, outcome_liftM,
    outcome_pure, switchCounted_outcome]
  rfl

theorem stepCounted_outcome :
    (machine.stepCounted hashes checker flags byte vchPushValue pc).outcome =
      machine.step hashes checker flags byte vchPushValue pc := by
  simp only [stepCounted, outcome_bind, outcome_liftM, outcome_pure,
    executeCounted_outcome]
  rfl

theorem evalLoopCounted_outcome :
    (machine.evalLoopCounted hashes checker flags pc).outcome =
      machine.evalLoop hashes checker flags pc := by
  fun_induction evalLoopCounted hashes checker flags machine pc with
  | case1 machine pc empty =>
    rw [evalLoop_eq, if_pos empty]
    rfl
  | case2 machine pc filled unread =>
    rw [evalLoop_eq, if_neg filled, unread]
    rfl
  | case3 machine pc filled byte vchPushValue rest read ih =>
    rw [evalLoop_read hashes checker flags machine read, outcome_bind, stepCounted_outcome]
    exact bind_congr ih

end ScriptMachine

section Scripts

variable {hashes : ScriptHashes} {checker : SignatureChecker} {flags : ScriptFlags}

variable (role : ScriptRole) (stack : List Valtype) (scriptSig scriptPubKey script : CScript)

theorem evalScriptCounted_outcome :
    (evalScriptCounted hashes checker flags stack script).outcome =
      evalScript hashes checker flags stack script := by
  simp only [evalScriptCounted, outcome_bind, outcome_liftM, outcome_pure,
    outcome_mapError, ScriptMachine.evalLoopCounted_outcome]
  rfl

theorem evalScriptAs_outcome :
    (evalScriptAs hashes checker flags role stack script).outcome =
      evalScript hashes checker flags stack script :=
  evalScriptCounted_outcome stack script

theorem verifyScriptHashCounted_outcome (stackCopy : List Valtype) :
    (verifyScriptHashCounted hashes checker flags scriptSig stackCopy).outcome =
      verifyScriptHash hashes checker flags scriptSig stackCopy := by
  simp only [verifyScriptHashCounted, outcome_bind, outcome_liftM,
    evalScriptAs_outcome]
  rfl

theorem verifyScriptCounted_outcome :
    (verifyScriptCounted hashes checker flags scriptSig scriptPubKey).outcome =
      verifyScript hashes checker flags scriptSig scriptPubKey := by
  simp only [verifyScriptCounted, outcome_bind, outcome_liftM, outcome_ite,
    outcome_pure, evalScriptAs_outcome, verifyScriptHashCounted_outcome]
  rfl

end Scripts

end CentNode
