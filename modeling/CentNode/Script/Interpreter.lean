import CentNode.Script.ScriptCode
import CentNode.Script.ScriptNum
import CentNode.Script.SignatureEncoding

/-!
# The script interpreter

`EvalScript` and `VerifyScript` of `script/interpreter.cpp`.  Every access to a
stack, to the script and to a signature is checked, and the exceptions and
assertions of the source are stops of their own until the catch-all.
-/

namespace CentNode

/-- The hash functions, with the sizes of what they write. -/
structure ScriptHashes where
  ripemd160 : List UInt8 → Valtype
  sha1 : List UInt8 → Valtype
  sha256 : List UInt8 → Valtype
  ripemd160_length : ∀ data, (ripemd160 data).length = 20
  sha1_length : ∀ data, (sha1 data).length = 20
  sha256_length : ∀ data, (sha256 data).length = 32

/-- `CheckSig` of a signature checker: signature, public key and script code. -/
abbrev SignatureChecker : Type := Valtype → Valtype → CScript → Bool

/-- The local variables of `EvalScript`. -/
structure ScriptMachine where
  stack : List Valtype := []
  altstack : List Valtype := []
  /-- The conditionals around the next opcode, the innermost first. -/
  vfExec : List Bool := []
  /-- The script from `pbegincodehash` on. -/
  pbegincodehash : CScript
  nOpCount : Nat := 0
  deriving DecidableEq, Repr

def vchFalse : Valtype := []

def vchTrue : Valtype := [1]

def vchBool (value : Bool) : Valtype := if value then vchTrue else vchFalse

/-- `if (stack.size() < count) return set_error(serror, SCRIPT_ERR_INVALID_STACK_OPERATION)`. -/
def needs (count : Nat) (stack : List Valtype) : Eval Unit :=
  require (count ≤ stack.length) .invalidStackOperation

/-- The end of an opcode that leaves a truth value, and of its variant that verifies it. -/
def verifyResult (isVerify fSuccess : Bool) (serror : ScriptError) (stack : List Valtype) :
    Eval (List Valtype) :=
  if isVerify then if fSuccess then popStack stack else .error (.error serror)
  else .ok stack

namespace StackOp

variable (fRequireMinimal : Bool) (opcode : Opcode) (stack : List Valtype)

/-! ## Stack operations -/

def verify : Eval (List Valtype) := do
  needs 1 stack
  let top ← stackTop stack 1
  verifyResult true (castToBool top) .verify stack

def drop2 : Eval (List Valtype) := do
  needs 2 stack
  let stack ← popStack stack
  popStack stack

def dup2 : Eval (List Valtype) := do
  needs 2 stack
  let vch1 ← stackTop stack 2
  let vch2 ← stackTop stack 1
  .ok (vch2 :: vch1 :: stack)

def dup3 : Eval (List Valtype) := do
  needs 3 stack
  let vch1 ← stackTop stack 3
  let vch2 ← stackTop stack 2
  let vch3 ← stackTop stack 1
  .ok (vch3 :: vch2 :: vch1 :: stack)

def over2 : Eval (List Valtype) := do
  needs 4 stack
  let vch1 ← stackTop stack 4
  let vch2 ← stackTop stack 3
  .ok (vch2 :: vch1 :: stack)

def rot2 : Eval (List Valtype) := do
  needs 6 stack
  let vch1 ← stackTop stack 6
  let vch2 ← stackTop stack 5
  let stack ← eraseRange stack 6 4
  .ok (vch2 :: vch1 :: stack)

def swap2 : Eval (List Valtype) := do
  needs 4 stack
  let stack ← swapTop stack 4 2
  swapTop stack 3 1

def ifdup : Eval (List Valtype) := do
  needs 1 stack
  let vch ← stackTop stack 1
  .ok (if castToBool vch then vch :: stack else stack)

def depth : Eval (List Valtype) := .ok ((CScriptNum.ofInt stack.length).getvch :: stack)

def drop : Eval (List Valtype) := do
  needs 1 stack
  popStack stack

def dup : Eval (List Valtype) := do
  needs 1 stack
  let vch ← stackTop stack 1
  .ok (vch :: stack)

def nip : Eval (List Valtype) := do
  needs 2 stack
  eraseRange stack 2 1

def opOver : Eval (List Valtype) := do
  needs 2 stack
  let vch ← stackTop stack 2
  .ok (vch :: stack)

/-- `OP_PICK` and `OP_ROLL`. -/
def pickRoll : Eval (List Valtype) := do
  needs 2 stack
  let top ← stackTop stack 1
  let bn ← CScriptNum.decode top fRequireMinimal
  let stack ← popStack stack
  require (¬(bn.getint < 0 ∨ bn.getint ≥ stack.length)) .invalidStackOperation
  let n := bn.getint.toNat
  let vch ← stackTop stack (n + 1)
  let stack ← (if opcode = .roll then eraseRange stack (n + 1) n else .ok stack)
  .ok (vch :: stack)

def rot : Eval (List Valtype) := do
  needs 3 stack
  let stack ← swapTop stack 3 2
  swapTop stack 2 1

def swap : Eval (List Valtype) := do
  needs 2 stack
  swapTop stack 2 1

def tuck : Eval (List Valtype) := do
  needs 2 stack
  let vch ← stackTop stack 1
  insertAt stack 2 vch

def size : Eval (List Valtype) := do
  needs 1 stack
  let vch ← stackTop stack 1
  .ok ((CScriptNum.ofInt vch.length).getvch :: stack)

/-- `OP_EQUAL` and `OP_EQUALVERIFY`. -/
def equal : Eval (List Valtype) := do
  needs 2 stack
  let vch1 ← stackTop stack 2
  let vch2 ← stackTop stack 1
  let fEqual := decide (vch1 = vch2)
  let stack ← popStack stack
  let stack ← popStack stack
  verifyResult (opcode == .equalverify) fEqual .equalverify (vchBool fEqual :: stack)

/-! ## Numeric operations -/

/-- The switch inside the opcodes with one operand. -/
def unaryResult (bn : CScriptNum) : Opcode → Eval CScriptNum
  | .add1 => bn.addAssign (.ofInt 1)
  | .sub1 => bn.subAssign (.ofInt 1)
  | .negate => bn.neg
  | .abs => if bn.m_value < 0 then bn.neg else .ok bn
  | .not => .ok (.ofBool (bn.m_value = 0))
  | .notequal0 => .ok (.ofBool (bn.m_value ≠ 0))
  | _ => .error (.fault .assertion)

/-- `OP_1ADD` to `OP_0NOTEQUAL`. -/
def unary : Eval (List Valtype) := do
  needs 1 stack
  let top ← stackTop stack 1
  let bn ← CScriptNum.decode top fRequireMinimal
  let bn ← unaryResult bn opcode
  let stack ← popStack stack
  .ok (bn.getvch :: stack)

/-- The switch inside the opcodes with two operands. -/
def binaryResult (bn1 bn2 : CScriptNum) : Opcode → Eval CScriptNum
  | .add => .ok (bn1.add bn2)
  | .sub => .ok (bn1.sub bn2)
  | .booland => .ok (.ofBool (bn1.m_value ≠ 0 ∧ bn2.m_value ≠ 0))
  | .boolor => .ok (.ofBool (bn1.m_value ≠ 0 ∨ bn2.m_value ≠ 0))
  | .numequal => .ok (.ofBool (bn1.m_value = bn2.m_value))
  | .numequalverify => .ok (.ofBool (bn1.m_value = bn2.m_value))
  | .numnotequal => .ok (.ofBool (bn1.m_value ≠ bn2.m_value))
  | .lessthan => .ok (.ofBool (bn1.m_value < bn2.m_value))
  | .greaterthan => .ok (.ofBool (bn1.m_value > bn2.m_value))
  | .lessthanorequal => .ok (.ofBool (bn1.m_value ≤ bn2.m_value))
  | .greaterthanorequal => .ok (.ofBool (bn1.m_value ≥ bn2.m_value))
  | .min => .ok (if bn1.m_value < bn2.m_value then bn1 else bn2)
  | .max => .ok (if bn1.m_value > bn2.m_value then bn1 else bn2)
  | _ => .error (.fault .assertion)

/-- `OP_ADD` to `OP_MAX`. -/
def binary : Eval (List Valtype) := do
  needs 2 stack
  let first ← stackTop stack 2
  let bn1 ← CScriptNum.decode first fRequireMinimal
  let second ← stackTop stack 1
  let bn2 ← CScriptNum.decode second fRequireMinimal
  let bn ← binaryResult bn1 bn2 opcode
  let stack ← popStack stack
  let stack ← popStack stack
  verifyResult (opcode == .numequalverify) (castToBool bn.getvch) .numequalverify
    (bn.getvch :: stack)

def within : Eval (List Valtype) := do
  needs 3 stack
  let first ← stackTop stack 3
  let bn1 ← CScriptNum.decode first fRequireMinimal
  let second ← stackTop stack 2
  let bn2 ← CScriptNum.decode second fRequireMinimal
  let third ← stackTop stack 1
  let bn3 ← CScriptNum.decode third fRequireMinimal
  let fValue := decide (bn2.m_value ≤ bn1.m_value ∧ bn1.m_value < bn3.m_value)
  let stack ← popStack stack
  let stack ← popStack stack
  let stack ← popStack stack
  .ok (vchBool fValue :: stack)

/-! ## Hashes -/

/-- What the hash opcodes write into a buffer of the size of the hash. -/
def hashOf (hashes : ScriptHashes) (vch : Valtype) : Opcode → Valtype
  | .ripemd160 => hashes.ripemd160 vch
  | .sha1 => hashes.sha1 vch
  | .sha256 => hashes.sha256 vch
  | .hash160 => hashes.ripemd160 (hashes.sha256 vch)
  | .hash256 => hashes.sha256 (hashes.sha256 vch)
  | _ => List.replicate 32 0

/-- `OP_RIPEMD160` to `OP_HASH256`. -/
def hash (hashes : ScriptHashes) : Eval (List Valtype) := do
  needs 1 stack
  let vch ← stackTop stack 1
  let vchHash := hashOf hashes vch opcode
  let stack ← popStack stack
  .ok (vchHash :: stack)

end StackOp

namespace ScriptMachine

variable (hashes : ScriptHashes) (checker : SignatureChecker) (flags : ScriptFlags)
  (opcode : Opcode) (machine : ScriptMachine)

/-- An operation on the stack alone. -/
def onStack (op : List Valtype → Eval (List Valtype)) : Eval ScriptMachine := do
  let stack ← op machine.stack
  .ok { machine with stack := stack }

def push (vch : Valtype) : ScriptMachine := { machine with stack := vch :: machine.stack }

/-! ## Control -/

/-- `OP_IF` and `OP_NOTIF`. -/
def beginIf (fExec : Bool) : Eval ScriptMachine :=
  if fExec then do
    require (1 ≤ machine.stack.length) .unbalancedConditional
    let vch ← stackTop machine.stack 1
    let fValue := if opcode = .notif then !castToBool vch else castToBool vch
    let stack ← popStack machine.stack
    .ok { machine with stack := stack, vfExec := fValue :: machine.vfExec }
  else .ok { machine with vfExec := false :: machine.vfExec }

def elseBranch : Eval ScriptMachine :=
  match machine.vfExec with
  | [] => .error (.error .unbalancedConditional)
  | back :: outer => .ok { machine with vfExec := (!back) :: outer }

def endIf : Eval ScriptMachine :=
  match machine.vfExec with
  | [] => .error (.error .unbalancedConditional)
  | _ :: outer => .ok { machine with vfExec := outer }

def toAltStack : Eval ScriptMachine := do
  needs 1 machine.stack
  let vch ← stackTop machine.stack 1
  let stack ← popStack machine.stack
  .ok { machine with stack := stack, altstack := vch :: machine.altstack }

def fromAltStack : Eval ScriptMachine := do
  require (1 ≤ machine.altstack.length) .invalidAltstackOperation
  let vch ← stackTop machine.altstack 1
  let altstack ← popStack machine.altstack
  .ok { machine with stack := vch :: machine.stack, altstack := altstack }

/-! ## Signatures -/

/-- `OP_CHECKSIG` and `OP_CHECKSIGVERIFY`. -/
def checkSig : Eval ScriptMachine := do
  needs 2 machine.stack
  let vchSig ← stackTop machine.stack 2
  let vchPubKey ← stackTop machine.stack 1
  let scriptCode ← machine.pbegincodehash.findAndDelete (CScript.pushData vchSig)
  checkSignatureEncoding vchSig flags
  checkPubKeyEncoding vchPubKey flags
  let fSuccess := checker vchSig vchPubKey scriptCode
  let stack ← popStack machine.stack
  let stack ← popStack stack
  let stack ← verifyResult (opcode == .checksigverify) fSuccess .checksigverify
    (vchBool fSuccess :: stack)
  .ok { machine with stack := stack }

def deleteSignatures (stack : List Valtype) (isig : Nat) : Nat → CScript → Eval CScript
  | 0, scriptCode => .ok scriptCode
  | count + 1, scriptCode => do
      let vchSig ← stackTop stack isig
      let scriptCode ← scriptCode.findAndDelete (CScript.pushData vchSig)
      deleteSignatures stack (isig + 1) count scriptCode

/-- The loop over signatures and keys; it answers `fSuccess`. -/
def matchSignatures (stack : List Valtype) (scriptCode : CScript)
    (isig ikey nSigsCount nKeysCount : Nat) : Eval Bool :=
  if nSigsCount = 0 then .ok true
  else do
    let vchSig ← stackTop stack isig
    let vchPubKey ← stackTop stack ikey
    checkSignatureEncoding vchSig flags
    checkPubKeyEncoding vchPubKey flags
    let fOk := checker vchSig vchPubKey scriptCode
    let nSigsLeft := if fOk then nSigsCount - 1 else nSigsCount
    -- `nSigsCount > nKeysCount`, with one key less than before
    if _enough : nSigsLeft + 1 > nKeysCount then .ok false
    else
      matchSignatures stack scriptCode (if fOk then isig + 1 else isig) (ikey + 1) nSigsLeft
        (nKeysCount - 1)
termination_by nKeysCount
decreasing_by omega

/-- `OP_CHECKMULTISIG` and `OP_CHECKMULTISIGVERIFY`. -/
def checkMultiSig : Eval ScriptMachine := do
  needs 1 machine.stack
  let keys ← stackTop machine.stack 1
  let keysNum ← CScriptNum.decode keys flags.minimaldata
  require (¬(keysNum.getint < 0 ∨ keysNum.getint > 20)) .pubkeyCount
  let nKeysCount := keysNum.getint.toNat
  let nOpCount := machine.nOpCount + nKeysCount
  require (nOpCount ≤ 201) .opCount
  let ikey := 2
  needs (ikey + nKeysCount) machine.stack
  let sigs ← stackTop machine.stack (ikey + nKeysCount)
  let sigsNum ← CScriptNum.decode sigs flags.minimaldata
  require (¬(sigsNum.getint < 0 ∨ sigsNum.getint > nKeysCount)) .sigCount
  let nSigsCount := sigsNum.getint.toNat
  let isig := ikey + nKeysCount + 1
  let i := isig + nSigsCount
  needs i machine.stack
  let scriptCode ← deleteSignatures machine.stack isig nSigsCount machine.pbegincodehash
  let fSuccess ← matchSignatures checker flags machine.stack scriptCode isig ikey nSigsCount
    nKeysCount
  let stack ← popStacks (i - 1) machine.stack
  needs 1 stack
  let dummy ← stackTop stack 1
  checkWhen flags.nulldummy (require (dummy.length = 0) .sigNulldummy)
  let stack ← popStack stack
  let stack ← verifyResult (opcode == .checkmultisigverify) fSuccess .checkmultisigverify
    (vchBool fSuccess :: stack)
  .ok { machine with stack := stack, nOpCount := nOpCount }

/-! ## One opcode -/

/-- The switch over the opcodes; `pc` is the script after this one. -/
def switch (fExec : Bool) (byte : UInt8) (pc : CScript) : Eval ScriptMachine :=
  match Opcode.ofByte byte with
  | .opN => .ok (machine.push (CScriptNum.ofInt ((byte.toNat : Int) - (0x51 - 1))).getvch)
  | .nop => .ok machine
  | .upgradableNop => do
      checkWhen flags.discourageUpgradableNops (.error (.error .discourageUpgradableNops))
      .ok machine
  | .opIf => machine.beginIf .opIf fExec
  | .notif => machine.beginIf .notif fExec
  | .opElse => machine.elseBranch
  | .endif => machine.endIf
  | .verify => machine.onStack StackOp.verify
  | .opReturn => .error (.error .opReturn)
  | .toaltstack => machine.toAltStack
  | .fromaltstack => machine.fromAltStack
  | .drop2 => machine.onStack StackOp.drop2
  | .dup2 => machine.onStack StackOp.dup2
  | .dup3 => machine.onStack StackOp.dup3
  | .over2 => machine.onStack StackOp.over2
  | .rot2 => machine.onStack StackOp.rot2
  | .swap2 => machine.onStack StackOp.swap2
  | .ifdup => machine.onStack StackOp.ifdup
  | .depth => machine.onStack StackOp.depth
  | .drop => machine.onStack StackOp.drop
  | .dup => machine.onStack StackOp.dup
  | .nip => machine.onStack StackOp.nip
  | .opOver => machine.onStack StackOp.opOver
  | .pick => machine.onStack (StackOp.pickRoll flags.minimaldata .pick)
  | .roll => machine.onStack (StackOp.pickRoll flags.minimaldata .roll)
  | .rot => machine.onStack StackOp.rot
  | .swap => machine.onStack StackOp.swap
  | .tuck => machine.onStack StackOp.tuck
  | .size => machine.onStack StackOp.size
  | .equal => machine.onStack (StackOp.equal .equal)
  | .equalverify => machine.onStack (StackOp.equal .equalverify)
  | .add1 => machine.onStack (StackOp.unary flags.minimaldata .add1)
  | .sub1 => machine.onStack (StackOp.unary flags.minimaldata .sub1)
  | .negate => machine.onStack (StackOp.unary flags.minimaldata .negate)
  | .abs => machine.onStack (StackOp.unary flags.minimaldata .abs)
  | .not => machine.onStack (StackOp.unary flags.minimaldata .not)
  | .notequal0 => machine.onStack (StackOp.unary flags.minimaldata .notequal0)
  | .add => machine.onStack (StackOp.binary flags.minimaldata .add)
  | .sub => machine.onStack (StackOp.binary flags.minimaldata .sub)
  | .booland => machine.onStack (StackOp.binary flags.minimaldata .booland)
  | .boolor => machine.onStack (StackOp.binary flags.minimaldata .boolor)
  | .numequal => machine.onStack (StackOp.binary flags.minimaldata .numequal)
  | .numequalverify => machine.onStack (StackOp.binary flags.minimaldata .numequalverify)
  | .numnotequal => machine.onStack (StackOp.binary flags.minimaldata .numnotequal)
  | .lessthan => machine.onStack (StackOp.binary flags.minimaldata .lessthan)
  | .greaterthan => machine.onStack (StackOp.binary flags.minimaldata .greaterthan)
  | .lessthanorequal => machine.onStack (StackOp.binary flags.minimaldata .lessthanorequal)
  | .greaterthanorequal => machine.onStack (StackOp.binary flags.minimaldata .greaterthanorequal)
  | .min => machine.onStack (StackOp.binary flags.minimaldata .min)
  | .max => machine.onStack (StackOp.binary flags.minimaldata .max)
  | .within => machine.onStack (StackOp.within flags.minimaldata)
  | .ripemd160 => machine.onStack fun stack => StackOp.hash .ripemd160 stack hashes
  | .sha1 => machine.onStack fun stack => StackOp.hash .sha1 stack hashes
  | .sha256 => machine.onStack fun stack => StackOp.hash .sha256 stack hashes
  | .hash160 => machine.onStack fun stack => StackOp.hash .hash160 stack hashes
  | .hash256 => machine.onStack fun stack => StackOp.hash .hash256 stack hashes
  | .codeseparator => .ok { machine with pbegincodehash := pc }
  | .checksig => machine.checkSig checker flags .checksig
  | .checksigverify => machine.checkSig checker flags .checksigverify
  | .checkmultisig => machine.checkMultiSig checker flags .checkmultisig
  | .checkmultisigverify => machine.checkMultiSig checker flags .checkmultisigverify
  | .other => .error (.error .badOpcode)

/-- Count an opcode above `OP_16`. -/
def countOp (byte : UInt8) : ScriptMachine :=
  if byte > opN16 then { machine with nOpCount := machine.nOpCount + 1 } else machine

/-- Execute an opcode, or pass it by. -/
def execute (byte : UInt8) (vchPushValue : Valtype) (pc : CScript) : Eval ScriptMachine :=
  let fExec := machine.vfExec.all id
  if fExec ∧ byte ≤ opPushdata4 then do
    checkWhen flags.minimaldata (require (checkMinimalPush vchPushValue byte = true) .minimaldata)
    .ok (machine.push vchPushValue)
  else if fExec ∨ (0x63 ≤ byte ∧ byte ≤ 0x68) then machine.switch hashes checker flags fExec byte pc
  else .ok machine

/-- One pass of the loop, after the opcode is read. -/
def step (byte : UInt8) (vchPushValue : Valtype) (pc : CScript) : Eval ScriptMachine := do
  require (vchPushValue.length ≤ maxScriptElementSize) .pushSize
  require (byte > opN16 → machine.nOpCount + 1 ≤ 201) .opCount
  require (byte ∉ Opcode.disabled) .disabledOpcode
  let machine ← (machine.countOp byte).execute hashes checker flags byte vchPushValue pc
  require (machine.stack.length + machine.altstack.length ≤ 1000) .stackSize
  .ok machine

/-- The loop of `EvalScript`, from an iterator on. -/
def evalLoop (machine : ScriptMachine) (pc : CScript) : Eval ScriptMachine :=
  if pc.isEmpty then .ok machine
  else
    match _read : CScript.getOp2 pc with
    | .error stop => .error stop
    | .ok none => .error (.error .badOpcode)
    | .ok (some (byte, vchPushValue, rest)) => do
        let machine ← machine.step hashes checker flags byte vchPushValue rest
        evalLoop machine rest
termination_by pc.length
decreasing_by
  rw [CScript.getOp2_eq] at _read
  exact CScript.getOp_length_lt (Except.ok.inj _read)

/-- The loop with the opcode read as `GetOp2` reads it. -/
theorem evalLoop_eq (pc : CScript) :
    machine.evalLoop hashes checker flags pc =
      if pc.isEmpty then .ok machine
      else
        match pc.getOp with
        | none => .error (.error .badOpcode)
        | some (byte, vchPushValue, rest) =>
          machine.step hashes checker flags byte vchPushValue rest >>= fun machine =>
            machine.evalLoop hashes checker flags rest := by
  rw [evalLoop]
  split
  · rfl
  · split
    · next stop read =>
        rw [CScript.getOp2_eq] at read
        cases read
    · next read =>
        rw [CScript.getOp2_eq] at read
        rw [Except.ok.inj read]
    · next byte vchPushValue rest read =>
        rw [CScript.getOp2_eq] at read
        rw [Except.ok.inj read]

theorem evalLoop_nil : machine.evalLoop hashes checker flags [] = .ok machine := by
  rw [evalLoop_eq]
  rfl

theorem evalLoop_read {byte : UInt8} {vchPushValue : Valtype} {pc rest : CScript}
    (read : pc.getOp = some (byte, vchPushValue, rest)) :
    machine.evalLoop hashes checker flags pc =
      machine.step hashes checker flags byte vchPushValue rest >>= fun machine =>
        machine.evalLoop hashes checker flags rest := by
  have some_bytes : pc.isEmpty = false := by
    cases pc with
    | nil => cases read
    | cons _ _ => rfl
  rw [evalLoop_eq, some_bytes, read]
  rfl

end ScriptMachine

/-! ## Scripts -/

/-- `catch (...)`: exceptions become an error, the rest is not caught. -/
def Stop.caught : Stop → Stop
  | .fault .scriptnum => .error .unknownError
  | .fault .outOfRange => .error .unknownError
  | .fault .stackEmpty => .error .unknownError
  | stop => stop

section Scripts

variable (hashes : ScriptHashes) (checker : SignatureChecker) (flags : ScriptFlags)

/-- `EvalScript`; the stack that it leaves when it returns true. -/
def evalScript (stack : List Valtype) (script : CScript) : Eval (List Valtype) := do
  require (script.length ≤ 10000) .scriptSize
  let machine ← (ScriptMachine.evalLoop hashes checker flags
    { stack := stack, pbegincodehash := script } script).mapError Stop.caught
  require (machine.vfExec = []) .unbalancedConditional
  .ok machine.stack

def requireTrue (stack : List Valtype) : Eval Unit := do
  require (stack ≠ []) .evalFalse
  let back ← stackTop stack 1
  require (castToBool back = true) .evalFalse

/-- The additional validation for spend-to-script-hash transactions. -/
def verifyScriptHash (scriptSig : CScript) (stackCopy : List Valtype) : Eval Unit := do
  require (scriptSig.isPushOnly = true) .sigPushonly
  assertThat (stackCopy ≠ [])
  let pubKey2 ← stackTop stackCopy 1
  let stackCopy ← popStack stackCopy
  let stackCopy ← evalScript hashes checker flags stackCopy pubKey2
  requireTrue stackCopy

/-- `VerifyScript`; it returns true where the value is `ok`. -/
def verifyScript (scriptSig scriptPubKey : CScript) : Eval Unit := do
  checkWhen flags.sigpushonly (require (scriptSig.isPushOnly = true) .sigPushonly)
  let stackCopy ← evalScript hashes checker flags [] scriptSig
  let stack ← evalScript hashes checker flags stackCopy scriptPubKey
  requireTrue stack
  checkWhen (flags.p2sh && scriptPubKey.isPayToScriptHash)
    (verifyScriptHash hashes checker flags scriptSig stackCopy)

end Scripts

end CentNode
