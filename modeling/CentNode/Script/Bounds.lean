import CentNode.Script.Interpreter

/-!
# The interpreter stays within its bounds

Each opcode keeps the sizes of what is on the stacks and stops in no other way
than with an error or with `scriptnum_error`.  The loop keeps the number of
elements too, since every pass ends with the check of it.
-/

namespace CentNode

open CScriptNum

theorem needs_safe (count : Nat) (stack : List Valtype) :
    Safe (needs count stack) fun _ => count ≤ stack.length :=
  require_safe _ _

section Stack

variable {α : Type} {post : α → Prop} {stack : List Valtype}

/-- The check of the size and the element that it is for. -/
theorem needsTop_safe {count : Nat} (positive : 0 < count) {rest : Valtype → Eval α}
    (next : ∀ vch ∈ stack, count ≤ stack.length → Safe (rest vch) post) :
    Safe (needs count stack >>= fun _ => stackTop stack count >>= rest) post :=
  .bind (needs_safe count stack) fun _ deep =>
    .bind (stackTop_safe positive deep) fun vch member => next vch member deep

theorem popTwo_safe (deep : 2 ≤ stack.length) (fits : Fits stack) {rest : List Valtype → Eval α}
    (next : ∀ left, Fits left → Safe (rest left) post) :
    Safe (popStack stack >>= fun once => popStack once >>= rest) post :=
  .bind (popStack_safe 1 deep) fun _ kept => .bind (popStack_safe 0 kept.2) fun left keptAgain =>
    next left ((fits.of_subset kept.1).of_subset keptAgain.1)

end Stack

theorem getvch_small (bn : CScriptNum) : bn.getvch.length ≤ maxScriptElementSize :=
  Nat.le_trans bn.getvch_length_le (by decide)

theorem vchBool_small (value : Bool) : (vchBool value).length ≤ maxScriptElementSize := by
  cases value <;> decide

theorem verifyResult_safe (isVerify fSuccess : Bool) (serror : ScriptError) {stack : List Valtype}
    (some_left : 1 ≤ stack.length) (fits : Fits stack) :
    Safe (verifyResult isVerify fSuccess serror stack) Fits := by
  unfold verifyResult
  refine .ite (fun _ => .ite (fun _ => ?_) fun _ => ?_) fun _ => .ok fits
  · exact (popStack_safe 0 some_left).mono fun rest kept => fits.of_subset kept.1
  · exact .error (Stop.expected_error serror)

namespace StackOp

variable {stack : List Valtype} (fits : Fits stack)

section Moves

include fits

theorem verify_safe : Safe (verify stack) Fits := by
  unfold verify
  refine needsTop_safe (by decide) fun top _ deep => ?_
  exact verifyResult_safe true _ .verify deep fits

theorem drop2_safe : Safe (drop2 stack) Fits := by
  unfold drop2
  refine .bind (needs_safe 2 stack) fun _ deep => ?_
  refine .bind (popStack_safe _ deep) fun rest kept => ?_
  refine (popStack_safe 0 kept.2).mono fun left keptAgain => ?_
  exact (fits.of_subset kept.1).of_subset keptAgain.1

theorem dup2_safe : Safe (dup2 stack) Fits := by
  unfold dup2
  refine needsTop_safe (by decide) fun vch1 member1 deep => ?_
  refine .bind (stackTop_safe (by decide) (by omega)) fun vch2 member2 => ?_
  exact .ok ((fits.push (fits vch1 member1)).push (fits vch2 member2))

theorem dup3_safe : Safe (dup3 stack) Fits := by
  unfold dup3
  refine needsTop_safe (by decide) fun vch1 member1 deep => ?_
  refine .bind (stackTop_safe (by decide) (by omega)) fun vch2 member2 => ?_
  refine .bind (stackTop_safe (by decide) (by omega)) fun vch3 member3 => ?_
  exact .ok (((fits.push (fits vch1 member1)).push (fits vch2 member2)).push (fits vch3 member3))

theorem over2_safe : Safe (over2 stack) Fits := by
  unfold over2
  refine needsTop_safe (by decide) fun vch1 member1 deep => ?_
  refine .bind (stackTop_safe (by decide) (by omega)) fun vch2 member2 => ?_
  exact .ok ((fits.push (fits vch1 member1)).push (fits vch2 member2))

theorem rot2_safe : Safe (rot2 stack) Fits := by
  unfold rot2
  refine needsTop_safe (by decide) fun vch1 member1 deep => ?_
  refine .bind (stackTop_safe (by decide) (by omega)) fun vch2 member2 => ?_
  refine .bind (eraseRange_safe (by decide) deep) fun rest kept => ?_
  exact .ok (((fits.of_subset kept).push (fits vch1 member1)).push (fits vch2 member2))

theorem swap2_safe : Safe (swap2 stack) Fits := by
  unfold swap2
  refine .bind (needs_safe 4 stack) fun _ deep => ?_
  refine .bind (swapTop_safe (by omega) (by omega)) fun once kept => ?_
  refine (swapTop_safe (by omega) (by omega)).mono fun twice keptAgain => ?_
  exact (fits.of_subset kept.1).of_subset keptAgain.1

theorem ifdup_safe : Safe (ifdup stack) Fits := by
  unfold ifdup
  refine needsTop_safe (by decide) fun vch member deep => .ok ?_
  split
  · exact fits.push (fits vch member)
  · exact fits

theorem depth_safe : Safe (depth stack) Fits := .ok (fits.push (getvch_small _))

theorem drop_safe : Safe (drop stack) Fits := by
  unfold drop
  refine .bind (needs_safe 1 stack) fun _ deep => ?_
  exact (popStack_safe 0 deep).mono fun rest kept => fits.of_subset kept.1

theorem dup_safe : Safe (dup stack) Fits := by
  unfold dup
  refine needsTop_safe (by decide) fun vch member deep => .ok (fits.push (fits vch member))

theorem nip_safe : Safe (nip stack) Fits := by
  unfold nip
  refine .bind (needs_safe 2 stack) fun _ deep => ?_
  exact (eraseRange_safe (by decide) deep).mono fun rest kept => fits.of_subset kept

theorem opOver_safe : Safe (opOver stack) Fits := by
  unfold opOver
  refine needsTop_safe (by decide) fun vch member deep => .ok (fits.push (fits vch member))

theorem pickRoll_safe (fRequireMinimal : Bool) (opcode : Opcode) :
    Safe (pickRoll fRequireMinimal opcode stack) Fits := by
  unfold pickRoll
  refine .bind (needs_safe 2 stack) fun _ deep => ?_
  refine .bind (stackTop_safe (by decide) (by omega)) fun top _ => ?_
  refine .bind (decode_safe top fRequireMinimal) fun bn _ => ?_
  refine .bind (popStack_safe _ deep) fun rest kept => ?_
  refine .bind (require_safe _ _) fun _ inside => ?_
  have small := fits.of_subset kept.1
  refine .bind (stackTop_safe (by omega) (by omega)) fun vch member => ?_
  have erases : Safe (if opcode = .roll then
      eraseRange rest (bn.getint.toNat + 1) bn.getint.toNat else .ok rest) (· ⊆ rest) :=
    .ite (fun _ => eraseRange_safe (by omega) (by omega)) fun _ => .ok (List.Subset.refl rest)
  refine .bind erases fun left subset => ?_
  exact .ok ((small.of_subset subset).push (small vch member))

theorem rot_safe : Safe (rot stack) Fits := by
  unfold rot
  refine .bind (needs_safe 3 stack) fun _ deep => ?_
  refine .bind (swapTop_safe (by omega) (by omega)) fun once kept => ?_
  refine (swapTop_safe (by omega) (by omega)).mono fun twice keptAgain => ?_
  exact (fits.of_subset kept.1).of_subset keptAgain.1

theorem swap_safe : Safe (swap stack) Fits := by
  unfold swap
  refine .bind (needs_safe 2 stack) fun _ deep => ?_
  exact (swapTop_safe (by omega) (by omega)).mono fun swapped kept => fits.of_subset kept.1

theorem tuck_safe : Safe (tuck stack) Fits := by
  unfold tuck
  refine .bind (needs_safe 2 stack) fun _ deep => ?_
  refine .bind (stackTop_safe (by decide) (by omega)) fun vch member => ?_
  exact (insertAt_safe deep member).mono fun tucked kept => fits.of_subset kept

theorem size_safe : Safe (size stack) Fits := by
  unfold size
  refine needsTop_safe (by decide) fun vch _ deep => .ok (fits.push (getvch_small _))

theorem equal_safe (opcode : Opcode) : Safe (equal opcode stack) Fits := by
  unfold equal
  refine needsTop_safe (by decide) fun vch1 _ deep => ?_
  refine .bind (stackTop_safe (by decide) (by omega)) fun vch2 _ => ?_
  refine popTwo_safe deep fits fun left small => ?_
  exact verifyResult_safe _ _ _ (by simp) (small.push (vchBool_small _))

end Moves

/-! ## Numbers and hashes -/

/-- The opcodes that `unary` is run for. -/
def IsUnary (opcode : Opcode) : Prop :=
  opcode ∈ [Opcode.add1, .sub1, .negate, .abs, .not, .notequal0]

/-- The opcodes that `binary` is run for. -/
def IsBinary (opcode : Opcode) : Prop :=
  opcode ∈ [Opcode.add, .sub, .booland, .boolor, .numequal, .numequalverify, .numnotequal,
    .lessthan, .greaterthan, .lessthanorequal, .greaterthanorequal, .min, .max]

theorem isOperand_one : (ofInt 1).IsOperand := by
  unfold CScriptNum.IsOperand
  decide

theorem unaryResult_safe {opcode : Opcode} {bn : CScriptNum} (unary : IsUnary opcode)
    (operand : bn.IsOperand) : Safe (unaryResult bn opcode) fun _ => True := by
  cases opcode with
  | add1 => exact addAssign_safe operand isOperand_one
  | sub1 => exact subAssign_safe operand isOperand_one
  | negate => exact neg_safe operand
  | abs => exact .ite (fun _ => neg_safe operand) fun _ => .ok trivial
  | not => exact .ok trivial
  | notequal0 => exact .ok trivial
  | _ => exact absurd unary (by unfold IsUnary; decide)

theorem binaryResult_safe {opcode : Opcode} (bn1 bn2 : CScriptNum) (binary : IsBinary opcode) :
    Safe (binaryResult bn1 bn2 opcode) fun _ => True := by
  cases opcode <;> first | exact .ok trivial | exact absurd binary (by unfold IsBinary; decide)

section Numbers

include fits

variable (fRequireMinimal : Bool)

theorem unary_safe {opcode : Opcode} (isUnary : IsUnary opcode) :
    Safe (unary fRequireMinimal opcode stack) Fits := by
  unfold unary
  refine needsTop_safe (by decide) fun top _ deep => ?_
  refine .bind (decode_safe top fRequireMinimal) fun bn operand => ?_
  refine .bind (unaryResult_safe isUnary operand) fun result _ => ?_
  refine .bind (popStack_safe 0 deep) fun rest kept => ?_
  exact .ok ((fits.of_subset kept.1).push (getvch_small result))

theorem binary_safe {opcode : Opcode} (isBinary : IsBinary opcode) :
    Safe (binary fRequireMinimal opcode stack) Fits := by
  unfold binary
  refine needsTop_safe (by decide) fun first _ deep => ?_
  refine .bind (decode_safe first fRequireMinimal) fun bn1 _ => ?_
  refine .bind (stackTop_safe (by decide) (by omega)) fun second _ => ?_
  refine .bind (decode_safe second fRequireMinimal) fun bn2 _ => ?_
  refine .bind (binaryResult_safe bn1 bn2 isBinary) fun result _ => ?_
  refine popTwo_safe deep fits fun left small => ?_
  exact verifyResult_safe _ _ _ (by simp) (small.push (getvch_small result))

theorem within_safe : Safe (within fRequireMinimal stack) Fits := by
  unfold within
  refine needsTop_safe (by decide) fun first _ deep => ?_
  refine .bind (decode_safe first fRequireMinimal) fun bn1 _ => ?_
  refine .bind (stackTop_safe (by decide) (by omega)) fun second _ => ?_
  refine .bind (decode_safe second fRequireMinimal) fun bn2 _ => ?_
  refine .bind (stackTop_safe (by decide) (by omega)) fun third _ => ?_
  refine .bind (decode_safe third fRequireMinimal) fun bn3 _ => ?_
  refine .bind (popStack_safe _ deep) fun rest kept => ?_
  refine .bind (popStack_safe _ kept.2) fun left keptAgain => ?_
  refine .bind (popStack_safe 0 keptAgain.2) fun last keptLast => ?_
  have small := ((fits.of_subset kept.1).of_subset keptAgain.1).of_subset keptLast.1
  exact .ok (small.push (vchBool_small _))

theorem hash_safe (hashes : ScriptHashes) (opcode : Opcode) :
    Safe (hash opcode stack hashes) Fits := by
  unfold hash
  refine needsTop_safe (by decide) fun vch _ deep => ?_
  refine .bind (popStack_safe 0 deep) fun rest kept => ?_
  refine .ok ((fits.of_subset kept.1).push ?_)
  have bounded : (hashOf hashes vch opcode).length ≤ 32 := by
    unfold hashOf
    split <;> simp [hashes.ripemd160_length, hashes.sha1_length, hashes.sha256_length]
  exact Nat.le_trans bounded (by decide)

end Numbers

end StackOp

namespace ScriptMachine

open StackOp

/-- The sizes of what is on the two stacks. -/
structure Fitting (machine : ScriptMachine) : Prop where
  stack : Fits machine.stack
  altstack : Fits machine.altstack

variable {hashes : ScriptHashes} {checker : SignatureChecker} {flags : ScriptFlags}
  {machine : ScriptMachine}

theorem onStack_safe (fitting : machine.Fitting) {op : List Valtype → Eval (List Valtype)}
    (keeps : Safe (op machine.stack) Fits) : Safe (machine.onStack op) Fitting :=
  .bind keeps fun _ fits => .ok ⟨fits, fitting.altstack⟩

/-! ## Control -/

section

variable (fitting : machine.Fitting)

include fitting

theorem beginIf_safe (opcode : Opcode) (fExec : Bool) :
    Safe (machine.beginIf opcode fExec) Fitting := by
  unfold beginIf
  refine .ite (fun _ => ?_) fun _ => .ok ⟨fitting.stack, fitting.altstack⟩
  refine .bind (require_safe _ _) fun _ deep => ?_
  refine .bind (stackTop_safe (by decide) deep) fun vch _ => ?_
  refine .bind (popStack_safe 0 deep) fun rest kept => ?_
  exact .ok ⟨fitting.stack.of_subset kept.1, fitting.altstack⟩

theorem elseBranch_safe : Safe machine.elseBranch Fitting := by
  unfold elseBranch
  split
  · exact .error (Stop.expected_error _)
  · exact .ok ⟨fitting.stack, fitting.altstack⟩

theorem endIf_safe : Safe machine.endIf Fitting := by
  unfold endIf
  split
  · exact .error (Stop.expected_error _)
  · exact .ok ⟨fitting.stack, fitting.altstack⟩

theorem toAltStack_safe : Safe machine.toAltStack Fitting := by
  unfold toAltStack
  refine needsTop_safe (by decide) fun vch member deep => ?_
  refine .bind (popStack_safe 0 deep) fun rest kept => .ok ⟨?_, ?_⟩
  · exact fitting.stack.of_subset kept.1
  · exact fitting.altstack.push (fitting.stack vch member)

theorem fromAltStack_safe : Safe machine.fromAltStack Fitting := by
  unfold fromAltStack
  refine .bind (require_safe _ _) fun _ deep => ?_
  refine .bind (stackTop_safe (by decide) deep) fun vch member => ?_
  refine .bind (popStack_safe 0 deep) fun rest kept => .ok ⟨?_, ?_⟩
  · exact fitting.stack.push (fitting.altstack vch member)
  · exact fitting.altstack.of_subset kept.1

end

/-! ## Signatures -/

theorem checkSig_safe (fitting : machine.Fitting) (opcode : Opcode) :
    Safe (machine.checkSig checker flags opcode) Fitting := by
  unfold checkSig
  refine needsTop_safe (by decide) fun vchSig _ deep => ?_
  refine .bind (stackTop_safe (by decide) (by omega)) fun vchPubKey _ => ?_
  refine .bind (CScript.findAndDelete_safe _ _) fun scriptCode _ => ?_
  refine .bind (checkSignatureEncoding_safe vchSig flags) fun _ _ => ?_
  refine .bind (checkPubKeyEncoding_safe vchPubKey flags) fun _ _ => ?_
  refine popTwo_safe deep fitting.stack fun left small => ?_
  refine .bind (verifyResult_safe _ _ _ (by simp) (small.push (vchBool_small _))) fun last fits => ?_
  exact .ok ⟨fits, fitting.altstack⟩

theorem deleteSignatures_safe {stack : List Valtype} {isig count : Nat} (positive : 0 < isig)
    (deep : isig + count ≤ stack.length + 1) (scriptCode : CScript) :
    Safe (deleteSignatures stack isig count scriptCode) fun _ => True := by
  induction count generalizing isig scriptCode with
  | zero => exact .ok trivial
  | succ count ih =>
    refine .bind (stackTop_safe positive (by omega)) fun vchSig _ => ?_
    refine .bind (CScript.findAndDelete_safe _ _) fun edited _ => ?_
    exact ih (Nat.succ_pos isig) (by omega) edited

/-- The three counters of the loop: the signatures that are left lie between `isig` and
the end of the arguments, the keys between `ikey` and the number of signatures. -/
theorem matchSignatures_safe {stack : List Valtype} {scriptCode : CScript}
    {isig ikey nSigsCount nKeysCount : Nat} (positive : 0 < isig ∧ 0 < ikey)
    (sigsDeep : isig + nSigsCount ≤ stack.length + 1)
    (keysDeep : ikey + nKeysCount ≤ stack.length + 1) (enough : nSigsCount ≤ nKeysCount) :
    Safe (matchSignatures checker flags stack scriptCode isig ikey nSigsCount nKeysCount)
      fun _ => True := by
  induction nKeysCount using Nat.strong_induction_on generalizing isig ikey nSigsCount with
  | _ nKeysCount ih =>
    rw [matchSignatures]
    refine .ite (fun _ => .ok trivial) fun more => ?_
    refine .bind (stackTop_safe positive.1 (by omega)) fun vchSig _ => ?_
    refine .bind (stackTop_safe positive.2 (by omega)) fun vchPubKey _ => ?_
    refine .bind (checkSignatureEncoding_safe vchSig flags) fun _ _ => ?_
    refine .bind (checkPubKeyEncoding_safe vchPubKey flags) fun _ _ => ?_
    cases checker vchSig vchPubKey scriptCode with
    | true =>
      simp only [if_true]
      refine .dite (fun _ => .ok trivial) fun left => ?_
      exact ih _ (by omega) ⟨by omega, by omega⟩ (by omega) (by omega) (by omega)
    | false =>
      simp only [Bool.false_eq_true, if_false]
      refine .dite (fun _ => .ok trivial) fun left => ?_
      exact ih _ (by omega) ⟨by omega, by omega⟩ (by omega) (by omega) (by omega)

theorem checkMultiSig_safe (fitting : machine.Fitting) (opcode : Opcode) :
    Safe (machine.checkMultiSig checker flags opcode) Fitting := by
  unfold checkMultiSig
  refine needsTop_safe (by decide) fun keys _ deep => ?_
  refine .bind (decode_safe keys flags.minimaldata) fun keysNum _ => ?_
  refine .bind (require_safe _ _) fun _ keysRange => ?_
  refine .bind (require_safe _ _) fun _ _ => ?_
  refine .bind (needs_safe _ machine.stack) fun _ keysDeep => ?_
  refine .bind (stackTop_safe (by omega) keysDeep) fun sigs _ => ?_
  refine .bind (decode_safe sigs flags.minimaldata) fun sigsNum _ => ?_
  refine .bind (require_safe _ _) fun _ sigsRange => ?_
  refine .bind (needs_safe _ machine.stack) fun _ sigsDeep => ?_
  refine .bind (deleteSignatures_safe (by omega) (by omega) _) fun scriptCode _ => ?_
  refine .bind (matchSignatures_safe (by omega) (by omega) (by omega) (by omega))
    fun fSuccess _ => ?_
  refine .bind (popStacks_safe (by omega)) fun rest kept => ?_
  refine .bind (needs_safe 1 rest) fun _ dummyDeep => ?_
  refine .bind (stackTop_safe (by decide) dummyDeep) fun dummy _ => ?_
  refine .bind (checkWhen_safe _ ((require_safe _ _).mono fun _ _ => trivial)) fun _ _ => ?_
  refine .bind (popStack_safe 0 dummyDeep) fun left keptAgain => ?_
  have small := (fitting.stack.of_subset kept.1).of_subset keptAgain.1
  refine .bind (verifyResult_safe _ _ _ (by simp) (small.push (vchBool_small _))) fun last fits => ?_
  exact .ok ⟨fits, fitting.altstack⟩

/-! ## The loop -/

theorem switch_safe (fitting : machine.Fitting) (fExec : Bool) (byte : UInt8) (pc : CScript) :
    Safe (machine.switch hashes checker flags fExec byte pc) Fitting := by
  unfold switch
  cases Opcode.ofByte byte with
  | opN => exact .ok ⟨fitting.stack.push (getvch_small _), fitting.altstack⟩
  | nop => exact .ok fitting
  | upgradableNop =>
    exact .bind (checkWhen_safe _ (.error (Stop.expected_error _))) fun _ _ => .ok fitting
  | opIf => exact beginIf_safe fitting .opIf fExec
  | notif => exact beginIf_safe fitting .notif fExec
  | opElse => exact elseBranch_safe fitting
  | endif => exact endIf_safe fitting
  | opReturn => exact .error (Stop.expected_error _)
  | toaltstack => exact toAltStack_safe fitting
  | fromaltstack => exact fromAltStack_safe fitting
  | verify => exact onStack_safe fitting (verify_safe fitting.stack)
  | drop2 => exact onStack_safe fitting (drop2_safe fitting.stack)
  | dup2 => exact onStack_safe fitting (dup2_safe fitting.stack)
  | dup3 => exact onStack_safe fitting (dup3_safe fitting.stack)
  | over2 => exact onStack_safe fitting (over2_safe fitting.stack)
  | rot2 => exact onStack_safe fitting (rot2_safe fitting.stack)
  | swap2 => exact onStack_safe fitting (swap2_safe fitting.stack)
  | ifdup => exact onStack_safe fitting (ifdup_safe fitting.stack)
  | depth => exact onStack_safe fitting (depth_safe fitting.stack)
  | drop => exact onStack_safe fitting (drop_safe fitting.stack)
  | dup => exact onStack_safe fitting (dup_safe fitting.stack)
  | nip => exact onStack_safe fitting (nip_safe fitting.stack)
  | opOver => exact onStack_safe fitting (opOver_safe fitting.stack)
  | rot => exact onStack_safe fitting (rot_safe fitting.stack)
  | swap => exact onStack_safe fitting (swap_safe fitting.stack)
  | tuck => exact onStack_safe fitting (tuck_safe fitting.stack)
  | size => exact onStack_safe fitting (size_safe fitting.stack)
  | pick => exact onStack_safe fitting (pickRoll_safe fitting.stack _ .pick)
  | roll => exact onStack_safe fitting (pickRoll_safe fitting.stack _ .roll)
  | equal => exact onStack_safe fitting (equal_safe fitting.stack .equal)
  | equalverify => exact onStack_safe fitting (equal_safe fitting.stack .equalverify)
  | add1 | sub1 | negate | abs | not | notequal0 =>
    exact onStack_safe fitting (unary_safe fitting.stack _ (by unfold IsUnary; decide))
  | add | sub | booland | boolor | numequal | numequalverify | numnotequal | lessthan
  | greaterthan | lessthanorequal | greaterthanorequal | min | max =>
    exact onStack_safe fitting (binary_safe fitting.stack _ (by unfold IsBinary; decide))
  | within => exact onStack_safe fitting (within_safe fitting.stack _)
  | ripemd160 | sha1 | sha256 | hash160 | hash256 =>
    exact onStack_safe fitting (hash_safe fitting.stack hashes _)
  | codeseparator => exact .ok ⟨fitting.stack, fitting.altstack⟩
  | checksig => exact checkSig_safe fitting .checksig
  | checksigverify => exact checkSig_safe fitting .checksigverify
  | checkmultisig => exact checkMultiSig_safe fitting .checkmultisig
  | checkmultisigverify => exact checkMultiSig_safe fitting .checkmultisigverify
  | other => exact .error (Stop.expected_error _)

theorem execute_safe (fitting : machine.Fitting) (byte : UInt8) {vchPushValue : Valtype}
    (small : vchPushValue.length ≤ maxScriptElementSize) (pc : CScript) :
    Safe (machine.execute hashes checker flags byte vchPushValue pc) Fitting := by
  unfold execute
  refine .ite (fun _ => ?_) fun _ => .ite (fun _ => ?_) fun _ => .ok fitting
  · refine .bind (checkWhen_safe _ ((require_safe _ _).mono fun _ _ => trivial)) fun _ _ => ?_
    exact .ok ⟨fitting.stack.push small, fitting.altstack⟩
  · exact switch_safe fitting _ byte pc

theorem countOp_fitting (fitting : machine.Fitting) (byte : UInt8) :
    (machine.countOp byte).Fitting := by
  unfold countOp
  split
  · exact ⟨fitting.stack, fitting.altstack⟩
  · exact fitting

/-- The stacks between two passes of the loop. -/
structure InBounds (machine : ScriptMachine) : Prop extends machine.Fitting where
  total : machine.stack.length + machine.altstack.length ≤ 1000

theorem step_safe (inBounds : machine.InBounds) (byte : UInt8) (vchPushValue : Valtype)
    (pc : CScript) : Safe (machine.step hashes checker flags byte vchPushValue pc) InBounds := by
  unfold step
  refine .bind (require_safe _ _) fun _ small => ?_
  refine .bind (require_safe _ _) fun _ _ => ?_
  refine .bind (require_safe _ _) fun _ _ => ?_
  have counted := countOp_fitting inBounds.toFitting byte
  refine .bind (execute_safe counted byte small pc) fun after fitting => ?_
  exact .bind (require_safe _ _) fun _ total => .ok ⟨fitting, total⟩

theorem evalLoop_safe (inBounds : machine.InBounds) (pc : CScript) :
    Safe (machine.evalLoop hashes checker flags pc) InBounds := by
  fun_induction evalLoop hashes checker flags machine pc with
  | case1 machine pc finished => exact .ok inBounds
  | case2 machine pc more stop read =>
    -- reading an opcode does not fault
    rw [CScript.getOp2_eq] at read
    cases read
  | case3 machine pc more read => exact .error (Stop.expected_error _)
  | case4 machine pc more byte vchPushValue rest read ih =>
    exact .bind (step_safe inBounds byte vchPushValue rest) fun after kept => ih after kept

end ScriptMachine

/-! ## Scripts -/

section Scripts

variable (hashes : ScriptHashes) (checker : SignatureChecker) (flags : ScriptFlags)

/-- A stop that its callers see as `false`. -/
def Stop.IsError (stop : Stop) : Prop := ∃ serror, stop = .error serror

/-- The catch-all leaves no fault when only `scriptnum_error` reaches it. -/
theorem Stop.Expected.caught {stop : Stop} (expected : stop.Expected) : stop.caught.IsError := by
  cases stop with
  | error serror => exact ⟨serror, rfl⟩
  | fault fault =>
    rw [expected fault rfl]
    exact ⟨.unknownError, rfl⟩

theorem inBounds_start {stack : List Valtype} (few : stack.length ≤ 1000) (fits : Fits stack)
    (script : CScript) :
    ({ stack := stack, pbegincodehash := script } : ScriptMachine).InBounds :=
  ⟨⟨fits, Fits.nil⟩, few⟩

/-- `EvalScript` as its callers see it. -/
theorem evalScript_meets {stack : List Valtype} (few : stack.length ≤ 1000) (fits : Fits stack)
    (script : CScript) :
    Outcome.Meets (evalScript hashes checker flags stack script)
      (fun final => final.length ≤ 1000 ∧ Fits final) Stop.IsError := by
  have ran : Safe (ScriptMachine.evalLoop hashes checker flags
      { stack := stack, pbegincodehash := script } script) ScriptMachine.InBounds :=
    ScriptMachine.evalLoop_safe (inBounds_start few fits script) script
  unfold evalScript
  refine .bind (require_meets _ ⟨_, rfl⟩) fun _ _ => ?_
  refine .bind (ran.mapError fun stop expected => expected.caught) fun machine inBounds => ?_
  refine .bind (require_meets _ ⟨_, rfl⟩) fun _ _ => .ok ⟨?_, inBounds.stack⟩
  exact Nat.le_trans (Nat.le_add_right _ _) inBounds.total

/-- The interpreter never leaves its bounds. -/
theorem evalScript_stays_in_bounds {stack : List Valtype} (script : CScript)
    (few : stack.length ≤ 1000) (small : ∀ vch ∈ stack, vch.length ≤ 520) :
    (∀ fault, ScriptMachine.evalLoop hashes checker flags
        { stack := stack, pbegincodehash := script } script = .error (.fault fault) →
      fault = .scriptnum) ∧
    (∀ fault, evalScript hashes checker flags stack script ≠ .error (.fault fault)) ∧
    ∀ final, evalScript hashes checker flags stack script = .ok final →
      final.length ≤ 1000 ∧ ∀ vch ∈ final, vch.length ≤ 520 := by
  have met := evalScript_meets hashes checker flags few small script
  refine ⟨fun fault stopped => ?_, fun fault stopped => ?_, fun final returned => ?_⟩
  · have ran : Safe (ScriptMachine.evalLoop hashes checker flags
        { stack := stack, pbegincodehash := script } script) ScriptMachine.InBounds :=
      ScriptMachine.evalLoop_safe (inBounds_start few small script) script
    exact ran.failure stopped fault rfl
  · obtain ⟨serror, isError⟩ := met.failure stopped
    cases isError
  · exact met.value returned

end Scripts

/-- Hash functions for scripts that do not hash. -/
def ScriptHashes.zeros : ScriptHashes where
  ripemd160 _ := List.replicate 20 0
  sha1 _ := List.replicate 20 0
  sha256 _ := List.replicate 32 0
  ripemd160_length _ := rfl
  sha1_length _ := rfl
  sha256_length _ := rfl

theorem evalScript_stays_in_bounds_add :
    evalScript .zeros (fun _ _ _ => false) {} [[2], [3]] [0x93] = .ok [[5]] ∧
      ([[5]] : List Valtype).length ≤ 1000 ∧ ∀ vch ∈ ([[5]] : List Valtype), vch.length ≤ 520 := by
  have added : evalScript .zeros (fun _ _ _ => false) {} [[2], [3]] [0x93] = .ok [[5]] := by
    decide +kernel
  have bounds := evalScript_stays_in_bounds .zeros (fun _ _ _ => false) {} [0x93]
    (show [[2], [3]].length ≤ 1000 by decide) (by decide)
  exact ⟨added, bounds.2.2 _ added⟩

end CentNode
