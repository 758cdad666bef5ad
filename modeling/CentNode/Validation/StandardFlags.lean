import CentNode.Script.Bounds
import CentNode.Script.FlagOrder
import CentNode.Validation.MemoryPool

/-!
# Standard and mandatory script flags

`AcceptToMemoryPool` verifies scripts with the standard flags and then with the
mandatory ones, and reports a bug where only the second check fails.  With
`VerifyScript` for the scripts there is no such transaction.
-/

namespace CentNode

open Outcome

/-- Fewer flags accept what more flags accept. -/
def Primitives.FlagsReject (prim : Primitives) : Prop :=
  ∀ tx nIn scriptPubKey fewer more, ScriptFlags.Subset fewer more →
    prim.verifyScript tx nIn scriptPubKey more = true →
      prim.verifyScript tx nIn scriptPubKey fewer = true

/-- `VerifyScript` as `CScriptCheck` calls it, for the signature checker of an input. -/
def Primitives.interpreting (prim : Primitives) (hashes : ScriptHashes)
    (checkerOf : CTransaction → Nat → SignatureChecker) : Primitives :=
  { prim with
    verifyScript := fun tx nIn scriptPubKey flags =>
      match tx.vin[nIn]? with
      | none => false
      | some txin =>
        decide (CentNode.verifyScript hashes (checkerOf tx nIn) flags txin.scriptSig scriptPubKey =
          .ok ()) }

/-- The node whose scripts the interpreter verifies. -/
def PoolContext.interpreting (context : PoolContext) (hashes : ScriptHashes)
    (checkerOf : CTransaction → Nat → SignatureChecker) : PoolContext :=
  { context with
    node := { context.node with prim := context.node.prim.interpreting hashes checkerOf } }

theorem Primitives.interpreting_flagsReject (prim : Primitives) (hashes : ScriptHashes)
    (checkerOf : CTransaction → Nat → SignatureChecker) :
    (prim.interpreting hashes checkerOf).FlagsReject := by
  intro tx nIn scriptPubKey fewer more subset verified
  unfold interpreting at verified ⊢
  dsimp only at verified ⊢
  split at verified
  · cases verified
  · next txin found =>
      have accepted := of_decide_eq_true verified
      exact decide_eq_true (verifyScript_narrows subset txin.scriptSig scriptPubKey () accepted)

theorem forM_runCheck_of_passes {prim : Primitives} {checks : List CScriptCheck}
    (passed : ∀ check ∈ checks, check.passes prim = true) : checks.forM (runCheck prim) = .ok () := by
  induction checks with
  | nil => rfl
  | cons check rest ih =>
    have here : runCheck prim check = .ok () := if_pos (passed check List.mem_cons_self)
    rw [List.forM_eq_forM, List.forM_cons, here]
    exact ih fun other member => passed other (List.mem_cons_of_mem check member)

section Checks

variable {node : Node} {fewer more : ScriptFlags} (rejects : node.prim.FlagsReject)
  (subset : fewer.Subset more)

include rejects subset

theorem forM_scriptChecks_narrows (tx : CTransaction) (view : FlatCoins) :
    Narrows ((scriptChecks tx view more).forM (runCheck node.prim))
      ((scriptChecks tx view fewer).forM (runCheck node.prim)) := by
  intro _ passed
  refine forM_runCheck_of_passes fun check member => ?_
  obtain ⟨entry, inside, rfl⟩ := List.mem_map.mp member
  have passedMore := forM_runCheck passed _ (List.mem_map_of_mem inside)
  exact rejects _ _ _ fewer more subset passedMore

theorem checkInputsNow_narrows (tx : CTransaction) (view : FlatCoins) :
    Narrows (TxPool.checkInputsNow node tx view more) (TxPool.checkInputsNow node tx view fewer) := by
  unfold TxPool.checkInputsNow
  refine .bind ?_ fun _ => .refl _
  unfold checkInputs
  cases node.mapBlockIndex view.bestBlock with
  | none => exact .refl _
  | some pindexPrev =>
    refine .ite (fun _ => .ite (fun _ => .refl _) fun _ => ?_) fun _ => .refl _
    refine .bind (.refl _) fun nValueIn => .bind (.refl _) fun _ => ?_
    exact .bind (forM_scriptChecks_narrows rejects subset tx view) fun _ => .refl _

end Checks

namespace TxPool

theorem checkScripts_ne_bug {node : Node} (rejects : node.prim.FlagsReject) (view : FlatCoins)
    (tx : CTransaction) (failure : Failure) : checkScripts node view tx ≠ .error (.bug failure) := by
  unfold checkScripts
  cases standard : checkInputsNow node tx view ScriptFlags.standard with
  | error refusal => exact nofun
  | ok _ =>
    have mandatory := checkInputsNow_narrows rejects ScriptFlags.mandatory_subset_standard tx view
      _ standard
    rw [mandatory]
    exact nofun

theorem acceptToMemoryPool_ne_bug {context : PoolContext}
    (rejects : context.node.prim.FlagsReject) (pool : TxPool) (policy : RelayPolicy)
    (options : AcceptOptions) (tx : CTransaction) (failure : Failure) :
    pool.acceptToMemoryPool context policy options tx ≠ .error (.bug failure) := by
  unfold acceptToMemoryPool
  cases pool.checkLoose context.node policy tx with
  | error refusal => exact nofun
  | ok _ =>
    dsimp only
    generalize { context with mempool := pool.summary : PoolContext }.view = view
    cases checkSpending context.node policy options view tx with
    | error refusal => exact nofun
    | ok nFees =>
      cases scripts : checkScripts context.node view tx with
      | error stop =>
        intro bug
        cases bug
        exact checkScripts_ne_bug rejects view tx failure scripts
      | ok _ => exact nofun

end TxPool

/-- Stricter script flags only reject, and the standard flags of the memory pool accept
nothing that the mandatory ones refuse. -/
theorem stricter_flags_only_reject (hashes : ScriptHashes) :
    (∀ (checker : SignatureChecker) (fewer more : ScriptFlags) (scriptSig scriptPubKey : CScript),
      fewer.Subset more → verifyScript hashes checker more scriptSig scriptPubKey = .ok () →
        verifyScript hashes checker fewer scriptSig scriptPubKey = .ok ()) ∧
    ∀ (checkerOf : CTransaction → Nat → SignatureChecker) (pool : TxPool) (context : PoolContext)
      (policy : RelayPolicy) (options : AcceptOptions) (tx : CTransaction) (failure : Failure),
      pool.acceptToMemoryPool (context.interpreting hashes checkerOf) policy options tx ≠
        .error (.bug failure) := by
  refine ⟨fun checker fewer more scriptSig scriptPubKey subset accepted => ?_, ?_⟩
  · exact verifyScript_narrows subset scriptSig scriptPubKey () accepted
  · intro checkerOf pool context policy options tx failure
    exact TxPool.acceptToMemoryPool_ne_bug
      (context.node.prim.interpreting_flagsReject hashes checkerOf) pool policy options tx failure

theorem stricter_flags_only_reject_push :
    verifyScript .zeros (fun _ _ _ => false) ScriptFlags.mandatory [] [0x01, 0x11] = .ok () := by
  refine (stricter_flags_only_reject .zeros).1 _ _ ScriptFlags.standard _ _
    ScriptFlags.mandatory_subset_standard ?_
  have signed : evalScript .zeros (fun _ _ _ => false) ScriptFlags.standard [] [] = .ok [] := by
    unfold evalScript
    rw [ScriptMachine.evalLoop_nil]
    rfl
  have locked : evalScript .zeros (fun _ _ _ => false) ScriptFlags.standard [] [0x01, 0x11] =
      .ok [[0x11]] := by
    have read : CScript.getOp [0x01, 0x11] = some (0x01, [0x11], []) := by decide
    unfold evalScript
    rw [ScriptMachine.evalLoop_read _ _ _ _ read]
    simp only [ScriptMachine.evalLoop_nil]
    decide
  have pushes : checkWhen ScriptFlags.standard.sigpushonly
      (require (CScript.isPushOnly [] = true) .sigPushonly) = .ok () := rfl
  simp only [verifyScript, pushes, signed, locked, bind, Except.bind]
  decide

end CentNode
