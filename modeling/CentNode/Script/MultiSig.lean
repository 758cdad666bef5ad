import CentNode.Library.OrderedMatching
import CentNode.Script.Interpreter

/-!
# What a multiple signature check decides

The loop of `OP_CHECKMULTISIG` tries each key for the next signature and goes on.  Without
the flags for encodings that is the greedy search for an ordered matching of the signatures
with keys.
-/

namespace CentNode

open List

namespace CScript

theorem eraseHere_total (b pc : CScript) : ∃ left, eraseHere b pc = .ok left := by
  fun_induction eraseHere b pc with
  | case1 pc found ih =>
    rw [bytesAt_eq (by omega)]
    change ∃ left, (if (pc.drop 0).take b.length = b then eraseHere b (pc.drop b.length)
      else .ok pc) = .ok left
    split
    · exact ih
    · exact ⟨pc, rfl⟩
  | case2 pc missing => exact ⟨pc, rfl⟩

theorem deleteFrom_total (b pc : CScript) : ∃ kept, deleteFrom b pc = .ok kept := by
  fun_induction deleteFrom b pc with
  | case1 pc stop erased =>
    obtain ⟨left, same⟩ := eraseHere_total b pc
    rw [same] at erased
    cases erased
  | case2 pc left erased stop read =>
    rw [getOp2_eq] at read
    cases read
  | case3 pc left erased read => exact ⟨left, rfl⟩
  | case4 pc left erased opcode vch rest read ih =>
    obtain ⟨kept, same⟩ := ih
    rw [same]
    exact ⟨_, rfl⟩

/-- `FindAndDelete` does not fail. -/
theorem findAndDelete_total (script b : CScript) : ∃ kept, findAndDelete script b = .ok kept := by
  unfold findAndDelete
  split
  · exact ⟨script, rfl⟩
  · exact deleteFrom_total b script

end CScript

/-! ## Accesses that succeed -/

theorem ok_bind {α β : Type} (value : α) (next : α → Eval β) : (.ok value >>= next) = next value :=
  rfl

theorem needs_eq {count : Nat} {stack : List Valtype} (deep : count ≤ stack.length) :
    needs count stack = .ok () := if_pos deep

theorem require_eq {cond : Prop} [Decidable cond] {serror : ScriptError} (holds : cond) :
    require cond serror = .ok () := if_pos holds

theorem stackTop_of_drop {stack rest : List Valtype} {top : Valtype} {i : Nat}
    (here : stack.drop i = top :: rest) : stackTop stack (i + 1) = .ok top := by
  have found : stack[i]? = some top := by rw [← head?_drop, here, head?_cons]
  rw [stackTop, found]

theorem popStacks_eq {stack : List Valtype} {count : Nat} (deep : count ≤ stack.length) :
    popStacks count stack = .ok (stack.drop count) := by
  induction count generalizing stack with
  | zero => rfl
  | succ count ih =>
    obtain ⟨top, rest, rfl⟩ := exists_cons_of_length_pos (Nat.lt_of_lt_of_le (Nat.succ_pos _) deep)
    exact ih (Nat.le_of_succ_le_succ deep)

/-- No flag asks for an encoding of signatures or keys. -/
structure ScriptFlags.Unencoded (flags : ScriptFlags) : Prop where
  dersig : flags.dersig = false
  lowS : flags.lowS = false
  strictenc : flags.strictenc = false

section Encodings

variable {flags : ScriptFlags} (unencoded : flags.Unencoded) (vch : Valtype)
include unencoded

theorem checkSignatureEncoding_eq : checkSignatureEncoding vch flags = .ok () := by
  unfold checkSignatureEncoding
  rw [unencoded.dersig, unencoded.lowS, unencoded.strictenc]
  split
  · rfl
  · rfl

theorem checkPubKeyEncoding_eq : checkPubKeyEncoding vch flags = .ok () := by
  unfold checkPubKeyEncoding
  rw [unencoded.strictenc]
  rfl

end Encodings

namespace ScriptMachine

open OrderedMatching

variable {checker : SignatureChecker} {flags : ScriptFlags}

variable {machine : ScriptMachine} (scriptCode : CScript) {stack sigs keys rest : List Valtype}

theorem deleteSignatures_total {isig count : Nat}
    (deep : isig + count ≤ stack.length) (scriptCode : CScript) :
    ∃ edited, deleteSignatures stack (isig + 1) count scriptCode = .ok edited := by
  induction count generalizing isig scriptCode with
  | zero => exact ⟨scriptCode, rfl⟩
  | succ count ih =>
    have held : isig < stack.length := by omega
    obtain ⟨edited, deleted⟩ := scriptCode.findAndDelete_total (CScript.pushData stack[isig])
    rw [deleteSignatures, stackTop_eq (by omega), ok_bind, deleted, ok_bind]
    exact @ih (isig + 1) (by omega) edited

/-- The encodings that the flags ask for. -/
structure Encoded (flags : ScriptFlags) (sigs keys : List Valtype) : Prop where
  signatures : ∀ vchSig ∈ sigs, checkSignatureEncoding vchSig flags = .ok ()
  pubkeys : ∀ vchPubKey ∈ keys, checkPubKeyEncoding vchPubKey flags = .ok ()

/-- The loop, from where the signatures and the keys that are left lie in the stack. -/
theorem matchSignatures_eq
    (encoded : Encoded flags sigs keys) {isig ikey : Nat} (enough : sigs.length ≤ keys.length)
    (sigsHere : sigs <+: stack.drop isig) (keysHere : keys <+: stack.drop ikey) :
    matchSignatures checker flags stack scriptCode (isig + 1) (ikey + 1) sigs.length keys.length =
      .ok (greedy (fun vchSig vchPubKey => checker vchSig vchPubKey scriptCode) sigs keys) := by
  induction keys generalizing sigs isig ikey with
  | nil =>
    obtain rfl := length_eq_zero_iff.mp (Nat.le_zero.mp enough)
    rw [matchSignatures]
    rfl
  | cons vchPubKey keys ih =>
    cases sigs with
    | nil =>
      rw [matchSignatures]
      rfl
    | cons vchSig sigs =>
      obtain ⟨moreSigs, sigsEq⟩ := sigsHere
      obtain ⟨moreKeys, keysEq⟩ := keysHere
      have sigsNext : sigs <+: stack.drop (isig + 1) := by
        rw [← drop_drop, ← sigsEq]
        exact ⟨moreSigs, rfl⟩
      have keysNext : keys <+: stack.drop (ikey + 1) := by
        rw [← drop_drop, ← keysEq]
        exact ⟨moreKeys, rfl⟩
      have first := encoded.signatures vchSig mem_cons_self
      have firstKey := encoded.pubkeys vchPubKey mem_cons_self
      have otherKeys : ∀ other ∈ keys, checkPubKeyEncoding other flags = .ok () :=
        fun other member => encoded.pubkeys other (mem_cons_of_mem _ member)
      rw [matchSignatures, if_neg (show ¬ (vchSig :: sigs).length = 0 from Nat.succ_ne_zero _),
        stackTop_of_drop sigsEq.symm, ok_bind, stackTop_of_drop keysEq.symm, ok_bind, first,
        ok_bind, firstKey, ok_bind]
      rw [length_cons, length_cons] at enough
      dsimp only
      rw [length_cons, length_cons, greedy]
      cases fits : checker vchSig vchPubKey scriptCode with
      | true =>
        simp only [if_true]
        split
        · next few => rw [greedy_eq_false _ (by omega)]
        · next left =>
            have others : ∀ other ∈ sigs, checkSignatureEncoding other flags = .ok () :=
              fun other member => encoded.signatures other (mem_cons_of_mem _ member)
            exact ih ⟨others, otherKeys⟩ (by omega) sigsNext keysNext
      | false =>
        simp only [Bool.false_eq_true, if_false]
        split
        · next few =>
            rw [greedy_eq_false]
            rw [length_cons]
            omega
        · next left =>
            exact @ih (vchSig :: sigs) ⟨encoded.signatures, otherKeys⟩ isig (ikey + 1)
              (by rw [length_cons]; omega) ⟨moreSigs, sigsEq⟩ keysNext

/-- A number of operands as it is read off the stack. -/
structure Counts (flags : ScriptFlags) (vch : Valtype) (count : Nat) : Prop where
  exists_ : ∃ num, CScriptNum.decode vch flags.minimaldata = .ok num ∧ num.getint = count

/-- The operands of the opcode, in the order in which they are pushed: an element that is not
checked, the signatures with their number, and the keys with theirs. -/
structure Operands (flags : ScriptFlags) (machine : ScriptMachine) (sigs keys : List Valtype)
    (rest : List Valtype) : Prop where
  pushed : ∃ dummy nSigs nKeys,
    machine.stack = nKeys :: (keys.reverse ++ nSigs :: (sigs.reverse ++ dummy :: rest)) ∧
      Counts flags nSigs sigs.length ∧ Counts flags nKeys keys.length ∧
        (flags.nulldummy = true → dummy = [])
  enough : sigs.length ≤ keys.length
  few : keys.length ≤ 20
  ops : machine.nOpCount + keys.length ≤ 201

/-- The signatures verify with keys in the order of both. -/
def Verified (checker : SignatureChecker) (scriptCode : CScript) (sigs keys : List Valtype) : Prop :=
  ∃ position : Fin sigs.length → Fin keys.length, StrictMono position ∧
    ∀ index, checker (sigs.get index) (keys.get (position index)) scriptCode = true

theorem greedy_reverse_iff (sigs keys : List Valtype) :
    greedy (fun vchSig vchPubKey => checker vchSig vchPubKey scriptCode) sigs.reverse
        keys.reverse = true ↔ Verified checker scriptCode sigs keys := by
  rw [greedy_iff, matches_reverse_iff, matches_iff_positions]
  rfl

/-- `OP_CHECKMULTISIG` takes its operands off the stack and says whether all signatures verify,
each with a key, in order. -/
theorem checkMultiSig_encoded
    (operands : machine.Operands flags sigs keys rest) (encoded : Encoded flags sigs keys) :
    ∃ scriptCode fSuccess,
      deleteSignatures machine.stack (keys.length + 3) sigs.length machine.pbegincodehash =
          .ok scriptCode ∧
        machine.checkMultiSig checker flags .checkmultisig =
            .ok { machine with
              stack := vchBool fSuccess :: rest
              nOpCount := machine.nOpCount + keys.length } ∧
          machine.stack.length = keys.length + sigs.length + 3 + rest.length ∧
            machine.stack.drop (keys.length + sigs.length + 3) = rest ∧
              (fSuccess = true ↔ Verified checker scriptCode sigs keys) := by
  obtain ⟨dummy, nSigs, nKeys, stack_eq, sigsCount, keysCount, nullable⟩ := operands.pushed
  obtain ⟨keysNum, keysRead, keysInt⟩ := keysCount.exists_
  obtain ⟨sigsNum, sigsRead, sigsInt⟩ := sigsCount.exists_
  have enough := operands.enough
  have few := operands.few
  have ops := operands.ops
  -- where the operands lie
  have keysHere : machine.stack.drop 1 =
      keys.reverse ++ nSigs :: (sigs.reverse ++ dummy :: rest) := by rw [stack_eq]; rfl
  have countHere : machine.stack.drop (1 + keys.length) =
      nSigs :: (sigs.reverse ++ dummy :: rest) := by
    rw [← drop_drop, keysHere, drop_left' length_reverse]
  have sigsHere : machine.stack.drop (keys.length + 2) = sigs.reverse ++ dummy :: rest := by
    rw [show keys.length + 2 = 1 + keys.length + 1 by omega, ← drop_drop, countHere]
    rfl
  have dummyHere : machine.stack.drop (keys.length + sigs.length + 2) = dummy :: rest := by
    rw [show keys.length + sigs.length + 2 = keys.length + 2 + sigs.length by omega,
      ← drop_drop, sigsHere, drop_left' length_reverse]
  have restHere : machine.stack.drop (keys.length + sigs.length + 3) = rest := by
    rw [show keys.length + sigs.length + 3 = keys.length + sigs.length + 2 + 1 by omega,
      ← drop_drop, dummyHere]
    rfl
  have length_eq : machine.stack.length = keys.length + sigs.length + 3 + rest.length := by
    rw [stack_eq]
    simp only [length_cons, length_append, length_reverse]
    omega
  obtain ⟨scriptCode, deleted⟩ := @deleteSignatures_total machine.stack (keys.length + 2)
    sigs.length (by omega) machine.pbegincodehash
  have reversed : Encoded flags sigs.reverse keys.reverse :=
    ⟨fun vchSig member => encoded.signatures vchSig (mem_reverse.mp member),
      fun vchPubKey member => encoded.pubkeys vchPubKey (mem_reverse.mp member)⟩
  have decided := @matchSignatures_eq checker flags scriptCode machine.stack sigs.reverse
    keys.reverse reversed (keys.length + 2) 1
    (by rw [length_reverse, length_reverse]; exact enough)
    ⟨_, sigsHere.symm⟩ ⟨_, keysHere.symm⟩
  rw [length_reverse, length_reverse] at decided
  refine ⟨scriptCode, greedy (fun vchSig vchPubKey => checker vchSig vchPubKey scriptCode)
    sigs.reverse keys.reverse, deleted, ?_, length_eq, restHere, greedy_reverse_iff _ _ _⟩
  have popped := @popStacks_eq machine.stack (keys.length + sigs.length + 2) (by omega)
  rw [dummyHere] at popped
  have accepted : checkWhen flags.nulldummy (require (dummy.length = 0) .sigNulldummy) =
      .ok () := by
    unfold checkWhen
    split
    · next on => exact require_eq (congrArg List.length (nullable on))
    · rfl
  unfold checkMultiSig
  rw [needs_eq (by omega), ok_bind, stackTop_of_drop (show machine.stack.drop 0 = _ from stack_eq),
    ok_bind, keysRead, ok_bind, keysInt, require_eq (by omega), ok_bind,
    Int.toNat_natCast]
  dsimp only
  rw [require_eq ops, ok_bind, needs_eq (by omega), ok_bind,
    show 2 + keys.length = 1 + keys.length + 1 by omega, stackTop_of_drop countHere, ok_bind,
    sigsRead, ok_bind, sigsInt, require_eq (by omega), ok_bind, Int.toNat_natCast,
    needs_eq (by omega), ok_bind,
    show 1 + keys.length + 1 + 1 = keys.length + 2 + 1 by omega, deleted, ok_bind, decided, ok_bind,
    show keys.length + 2 + 1 + sigs.length - 1 = keys.length + sigs.length + 2 by omega, popped,
    ok_bind, needs_eq (Nat.succ_le_succ (Nat.zero_le _)), ok_bind]
  change (checkWhen flags.nulldummy (require (dummy.length = 0) .sigNulldummy) >>= _) = _
  rw [accepted]
  rfl

/-- Without the flags for encodings all operands are checked. -/
theorem checkMultiSig_decides (unencoded : flags.Unencoded) {machine : ScriptMachine}
    {sigs keys rest : List Valtype} (operands : machine.Operands flags sigs keys rest) :
    ∃ scriptCode fSuccess,
      deleteSignatures machine.stack (keys.length + 3) sigs.length machine.pbegincodehash =
          .ok scriptCode ∧
        machine.checkMultiSig checker flags .checkmultisig =
            .ok { machine with
              stack := vchBool fSuccess :: rest
              nOpCount := machine.nOpCount + keys.length } ∧
          machine.stack.length = keys.length + sigs.length + 3 + rest.length ∧
            machine.stack.drop (keys.length + sigs.length + 3) = rest ∧
              (fSuccess = true ↔ Verified checker scriptCode sigs keys) := by
  exact checkMultiSig_encoded operands ⟨fun vchSig _ => checkSignatureEncoding_eq unencoded vchSig,
    fun vchPubKey _ => checkPubKeyEncoding_eq unencoded vchPubKey⟩

/-- Two signatures, by the first and the third of three keys. -/
def twoOfThree : ScriptMachine where
  stack := [[3], [13], [12], [11], [2], [23], [21], []]
  pbegincodehash := [opN16]

/-- The ten in a key and the twenty in a signature apart, they are the same. -/
def sampleChecker : SignatureChecker := fun vchSig vchPubKey _ =>
  decide (vchSig.map (· - 20) = vchPubKey.map (· - 10))

theorem twoOfThree_decided :
    ∃ scriptCode fSuccess,
      deleteSignatures twoOfThree.stack 6 2 twoOfThree.pbegincodehash = .ok scriptCode ∧
        twoOfThree.checkMultiSig sampleChecker {} .checkmultisig =
            .ok { twoOfThree with stack := [vchBool fSuccess], nOpCount := 3 } ∧
          twoOfThree.stack.length = 8 ∧ twoOfThree.stack.drop 8 = [] ∧
            (fSuccess = true ↔
              Verified sampleChecker scriptCode [[21], [23]] [[11], [12], [13]]) :=
  @checkMultiSig_decides sampleChecker {} ⟨rfl, rfl, rfl⟩ twoOfThree [[21], [23]]
    [[11], [12], [13]] []
    { pushed := ⟨[], [2], [3], rfl, ⟨⟨_, rfl, by decide⟩⟩, ⟨⟨_, rfl, by decide⟩⟩, fun _ => rfl⟩
      enough := by decide
      few := by decide
      ops := by decide }

end ScriptMachine

end CentNode
