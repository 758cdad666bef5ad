import CentNode.Script.Interpreter

/-!
# Stricter flags only reject

A run of the interpreter with more flags makes more checks and computes the
same values, opcode by opcode, so what it accepts is accepted with fewer flags.
-/

namespace CentNode

open Outcome CScriptNum

namespace StackOp

variable {strict lax : Bool} (on : lax = true → strict = true) (opcode : Opcode)
  (stack : List Valtype)

include on

theorem pickRoll_narrows : Narrows (pickRoll strict opcode stack) (pickRoll lax opcode stack) := by
  unfold pickRoll
  refine .bind (.refl _) fun _ => .bind (.refl _) fun top => ?_
  exact .bind (decode_narrows top on) fun bn => .refl _

theorem unary_narrows : Narrows (unary strict opcode stack) (unary lax opcode stack) := by
  unfold unary
  refine .bind (.refl _) fun _ => .bind (.refl _) fun top => ?_
  exact .bind (decode_narrows top on) fun bn => .refl _

theorem binary_narrows : Narrows (binary strict opcode stack) (binary lax opcode stack) := by
  unfold binary
  refine .bind (.refl _) fun _ => .bind (.refl _) fun first => ?_
  refine .bind (decode_narrows first on) fun bn1 => .bind (.refl _) fun second => ?_
  exact .bind (decode_narrows second on) fun bn2 => .refl _

theorem within_narrows : Narrows (within strict stack) (within lax stack) := by
  unfold within
  refine .bind (.refl _) fun _ => .bind (.refl _) fun first => ?_
  refine .bind (decode_narrows first on) fun bn1 => .bind (.refl _) fun second => ?_
  refine .bind (decode_narrows second on) fun bn2 => .bind (.refl _) fun third => ?_
  exact .bind (decode_narrows third on) fun bn3 => .refl _

end StackOp

namespace ScriptMachine

variable {hashes : ScriptHashes} {checker : SignatureChecker} {fewer more : ScriptFlags}
  (subset : fewer.Subset more) (machine : ScriptMachine)

theorem onStack_narrows {strictOp laxOp : List Valtype → Eval (List Valtype)}
    (narrows : Narrows (strictOp machine.stack) (laxOp machine.stack)) :
    Narrows (machine.onStack strictOp) (machine.onStack laxOp) :=
  .bind narrows fun _ => .refl _

include subset

variable (opcode : Opcode) (fExec : Bool) (byte : UInt8) (vchPushValue : Valtype)
  (stack : List Valtype) (scriptCode pc : CScript)

theorem checkSig_narrows :
    Narrows (machine.checkSig checker more opcode) (machine.checkSig checker fewer opcode) := by
  unfold checkSig
  refine .bind (.refl _) fun _ => .bind (.refl _) fun vchSig => ?_
  refine .bind (.refl _) fun vchPubKey => .bind (.refl _) fun scriptCode => ?_
  refine .bind (checkSignatureEncoding_narrows subset vchSig) fun _ => ?_
  exact .bind (checkPubKeyEncoding_narrows subset vchPubKey) fun _ => .refl _

theorem matchSignatures_narrows (isig ikey nSigsCount nKeysCount : Nat) :
    Narrows (matchSignatures checker more stack scriptCode isig ikey nSigsCount nKeysCount)
      (matchSignatures checker fewer stack scriptCode isig ikey nSigsCount nKeysCount) := by
  induction nKeysCount using Nat.strong_induction_on generalizing isig ikey nSigsCount with
  | _ nKeysCount ih =>
    rw [matchSignatures, matchSignatures]
    refine .ite (fun _ => .refl _) fun _ => .bind (.refl _) fun vchSig => ?_
    refine .bind (.refl _) fun vchPubKey => ?_
    refine .bind (checkSignatureEncoding_narrows subset vchSig) fun _ => ?_
    refine .bind (checkPubKeyEncoding_narrows subset vchPubKey) fun _ => ?_
    exact .dite (fun _ => .refl _) fun left => ih _ (by omega) _ _ _

theorem checkMultiSig_narrows :
    Narrows (machine.checkMultiSig checker more opcode)
      (machine.checkMultiSig checker fewer opcode) := by
  unfold checkMultiSig
  refine .bind (.refl _) fun _ => .bind (.refl _) fun keys => ?_
  refine .bind (decode_narrows keys subset.minimaldata) fun keysNum => ?_
  refine .bind (.refl _) fun _ => .bind (.refl _) fun _ => .bind (.refl _) fun _ => ?_
  refine .bind (.refl _) fun sigs => ?_
  refine .bind (decode_narrows sigs subset.minimaldata) fun sigsNum => ?_
  refine .bind (.refl _) fun _ => .bind (.refl _) fun _ => .bind (.refl _) fun scriptCode => ?_
  refine .bind (matchSignatures_narrows subset _ _ _ _ _ _) fun fSuccess => ?_
  refine .bind (.refl _) fun rest => .bind (.refl _) fun _ => .bind (.refl _) fun dummy => ?_
  exact .bind (checkWhen_narrows subset.nulldummy) fun _ => .refl _

theorem switch_narrows :
    Narrows (machine.switch hashes checker more fExec byte pc)
      (machine.switch hashes checker fewer fExec byte pc) := by
  unfold switch
  cases Opcode.ofByte byte with
  | upgradableNop =>
    exact .bind (checkWhen_narrows subset.discourageUpgradableNops) fun _ => .refl _
  | pick => exact machine.onStack_narrows (StackOp.pickRoll_narrows subset.minimaldata _ _)
  | roll => exact machine.onStack_narrows (StackOp.pickRoll_narrows subset.minimaldata _ _)
  | add1 | sub1 | negate | abs | not | notequal0 =>
    exact machine.onStack_narrows (StackOp.unary_narrows subset.minimaldata _ _)
  | add | sub | booland | boolor | numequal | numequalverify | numnotequal | lessthan
  | greaterthan | lessthanorequal | greaterthanorequal | min | max =>
    exact machine.onStack_narrows (StackOp.binary_narrows subset.minimaldata _ _)
  | within => exact machine.onStack_narrows (StackOp.within_narrows subset.minimaldata _)
  | checksig => exact machine.checkSig_narrows subset .checksig
  | checksigverify => exact machine.checkSig_narrows subset .checksigverify
  | checkmultisig => exact machine.checkMultiSig_narrows subset .checkmultisig
  | checkmultisigverify => exact machine.checkMultiSig_narrows subset .checkmultisigverify
  | _ => exact .refl _

theorem execute_narrows :
    Narrows (machine.execute hashes checker more byte vchPushValue pc)
      (machine.execute hashes checker fewer byte vchPushValue pc) := by
  unfold execute
  refine .ite (fun _ => ?_) fun _ => .ite (fun _ => ?_) fun _ => .refl _
  · exact .bind (checkWhen_narrows subset.minimaldata) fun _ => .refl _
  · exact machine.switch_narrows subset _ byte pc

theorem step_narrows :
    Narrows (machine.step hashes checker more byte vchPushValue pc)
      (machine.step hashes checker fewer byte vchPushValue pc) := by
  unfold step
  refine .bind (.refl _) fun _ => .bind (.refl _) fun _ => .bind (.refl _) fun _ => ?_
  exact .bind (execute_narrows subset _ byte vchPushValue pc) fun _ => .refl _

theorem evalLoop_narrows :
    Narrows (machine.evalLoop hashes checker more pc)
      (machine.evalLoop hashes checker fewer pc) := by
  induction size : pc.length using Nat.strong_induction_on generalizing machine pc with
  | _ size ih =>
    rw [evalLoop_eq, evalLoop_eq]
    refine .ite (fun _ => .refl _) fun _ => ?_
    cases read : pc.getOp with
    | none => exact .refl _
    | some operation =>
      obtain ⟨byte, vchPushValue, rest⟩ := operation
      have shorter := CScript.getOp_length_lt read
      refine .bind (machine.step_narrows subset byte vchPushValue rest) fun after => ?_
      exact ih rest.length (size ▸ shorter) after rest rfl

end ScriptMachine

section Scripts

variable {hashes : ScriptHashes} {checker : SignatureChecker} {fewer more : ScriptFlags}
  (subset : fewer.Subset more)

include subset

theorem evalScript_narrows (stack : List Valtype) (script : CScript) :
    Narrows (evalScript hashes checker more stack script)
      (evalScript hashes checker fewer stack script) := by
  unfold evalScript
  refine .bind (.refl _) fun _ => .bind ?_ fun _ => .refl _
  exact .mapError (ScriptMachine.evalLoop_narrows subset _ script)

theorem verifyScriptHash_narrows (scriptSig : CScript) (stackCopy : List Valtype) :
    Narrows (verifyScriptHash hashes checker more scriptSig stackCopy)
      (verifyScriptHash hashes checker fewer scriptSig stackCopy) := by
  unfold verifyScriptHash
  refine .bind (.refl _) fun _ => .bind (.refl _) fun _ => .bind (.refl _) fun pubKey2 => ?_
  refine .bind (.refl _) fun rest => ?_
  exact .bind (evalScript_narrows subset rest pubKey2) fun _ => .refl _

theorem verifyScript_narrows (scriptSig scriptPubKey : CScript) :
    Narrows (verifyScript hashes checker more scriptSig scriptPubKey)
      (verifyScript hashes checker fewer scriptSig scriptPubKey) := by
  have p2sh : (fewer.p2sh && scriptPubKey.isPayToScriptHash) = true →
      (more.p2sh && scriptPubKey.isPayToScriptHash) = true := by
    simp only [Bool.and_eq_true]
    exact And.imp_left subset.p2sh
  unfold verifyScript
  refine .bind (checkWhen_narrows subset.sigpushonly) fun _ => ?_
  refine .bind (evalScript_narrows subset [] scriptSig) fun stackCopy => ?_
  refine .bind (evalScript_narrows subset stackCopy scriptPubKey) fun stack => ?_
  refine .bind (.refl _) fun _ => ?_
  exact .switch p2sh (verifyScriptHash_narrows subset scriptSig stackCopy)

end Scripts

end CentNode
