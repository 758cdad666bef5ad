import CentNode.Script.Bounds
import CentNode.Script.SigningSucceeds

/-!
# What combining keeps

For a script of several keys `CombineSignatures` puts a valid signature for each key that has
one into a script, in the order of the keys, until there are enough.
-/

namespace CentNode

open List Option StdMap

open OrderedMatching ScriptMachine

/-! ## The set of the signatures -/

section

variable (sigs1 sigs2 : List Valtype) {value other : Valtype} {set : List Valtype}

theorem mem_insertValue :
    other ∈ insertValue value set ↔ other = value ∨ other ∈ set := by
  induction set with
  | nil => simp [insertValue]
  | cons first rest ih =>
    rw [insertValue]
    split_ifs with below above
    · simp
    · simp [ih, or_left_comm]
    · have same : value = first := List.le_antisymm (List.not_lt.mp above) (List.not_lt.mp below)
      simp [same]

theorem insertValue_ordered
    (ordered : set.Pairwise (· < ·)) : (insertValue value set).Pairwise (· < ·) := by
  induction set with
  | nil => simp [insertValue]
  | cons first rest ih =>
    obtain ⟨least, later⟩ := pairwise_cons.mp ordered
    rw [insertValue]
    split_ifs with below above
    · refine pairwise_cons.mpr ⟨fun other member => ?_, ordered⟩
      rcases mem_cons.mp member with rfl | there
      · exact below
      · exact List.lt_trans below (least other there)
    · refine pairwise_cons.mpr ⟨fun other member => ?_, ih later⟩
      rcases mem_insertValue.mp member with rfl | there
      · exact above
      · exact least other there
    · exact ordered

theorem mem_allSignatures {sigs1 sigs2 : List Valtype} {vchSig : Valtype} :
    vchSig ∈ allSignatures sigs1 sigs2 ↔ vchSig ≠ [] ∧ vchSig ∈ sigs1 ++ sigs2 := by
  have all : ∀ values set : List Valtype,
      vchSig ∈ values.foldl (fun allsigs v => insertValue v allsigs) set ↔
        vchSig ∈ values ∨ vchSig ∈ set := by
    intro values
    induction values with
    | nil => simp
    | cons first rest ih =>
      intro set
      rw [foldl_cons, ih, mem_insertValue, mem_cons]
      tauto
  rw [allSignatures, all, mem_filter]
  simp [and_comm]

theorem allSignatures_ordered :
    (allSignatures sigs1 sigs2).Pairwise (· < ·) := by
  have all : ∀ values set : List Valtype, set.Pairwise (· < ·) →
      (values.foldl (fun allsigs v => insertValue v allsigs) set).Pairwise (· < ·) := by
    intro values
    induction values with
    | nil => exact fun set ordered => ordered
    | cons first rest ih => exact fun set ordered => ih _ (insertValue_ordered ordered)
  exact all _ [] .nil

theorem allSignatures_comm :
    allSignatures sigs1 sigs2 = allSignatures sigs2 sigs1 := by
  have irreflexive : Std.Irrefl (fun first second : Valtype => first < second) := ⟨List.lt_irrefl⟩
  have antisymmetric : Std.Antisymm (fun first second : Valtype => first < second) :=
    ⟨fun first second below above => absurd (List.lt_trans below above) (List.lt_irrefl _)⟩
  refine (allSignatures_ordered sigs1 sigs2).eq_of_mem_iff (allSignatures_ordered sigs2 sigs1)
    fun vchSig => ?_
  simp [mem_allSignatures, or_comm]

end

/-! ## The keys of the signatures -/

namespace TransactionVerifier

variable {verifier : TransactionVerifier} {txTo : CTransaction} {nIn : Nat} {script : CScript}

variable {sig : Valtype} {keys : List Valtype} {sigs : StdMap Valtype Valtype} {key : Valtype}

theorem lookup_matchKey {value : Valtype}
    (found : (verifier.matchKey txTo nIn script sig keys sigs).lookup key = some value) :
    sigs.lookup key = some value ∨
      (value = sig ∧ verifier.checkSig txTo nIn sig key script = true) := by
  induction keys with
  | nil => exact .inl found
  | cons pubkey rest ih =>
    rw [matchKey] at found
    split_ifs at found with taken valid
    · exact ih found
    · rw [lookup_insert_ite] at found
      split_ifs at found with same
      · cases found
        exact .inr ⟨rfl, same ▸ valid⟩
      · exact .inl found
    · exact ih found

theorem lookup_matchKey_kept (taken : (sigs.lookup key).isSome = true) :
    ((verifier.matchKey txTo nIn script sig keys sigs).lookup key).isSome = true := by
  induction keys with
  | nil => exact taken
  | cons pubkey rest ih =>
    rw [matchKey]
    split_ifs with held valid
    · exact ih
    · rw [lookup_insert_ite]
      split_ifs
      · rfl
      · exact taken
    · exact ih

theorem lookup_matchKey_valid (member : key ∈ keys)
    (valid : verifier.checkSig txTo nIn sig key script = true)
    (unique : ∀ other ∈ keys, verifier.checkSig txTo nIn sig other script = true → other = key) :
    ((verifier.matchKey txTo nIn script sig keys sigs).lookup key).isSome = true := by
  induction keys with
  | nil => exact absurd member not_mem_nil
  | cons pubkey rest ih =>
    have later : ∀ other ∈ rest, verifier.checkSig txTo nIn sig other script = true →
        other = key := fun other there => unique other (mem_cons_of_mem _ there)
    rw [matchKey]
    split_ifs with held fits
    · rcases mem_cons.mp member with rfl | there
      · exact lookup_matchKey_kept held
      · exact ih there later
    · obtain rfl := unique pubkey mem_cons_self fits
      simp
    · rcases mem_cons.mp member with rfl | there
      · exact absurd valid fits
      · exact ih there later

/-- The loop over all signatures. -/
def matchKeys (verifier : TransactionVerifier) (txTo : CTransaction) (nIn : Nat)
    (script : CScript) (keys allsigs : List Valtype) (sigs : StdMap Valtype Valtype) :
    StdMap Valtype Valtype :=
  allsigs.foldl (fun sigs sig => verifier.matchKey txTo nIn script sig keys sigs) sigs

variable {allsigs : List Valtype}

theorem lookup_matchKeys {value : Valtype}
    (found : (verifier.matchKeys txTo nIn script keys allsigs sigs).lookup key = some value) :
    sigs.lookup key = some value ∨
      (value ∈ allsigs ∧ verifier.checkSig txTo nIn value key script = true) := by
  induction allsigs generalizing sigs with
  | nil => exact .inl found
  | cons sig rest ih =>
    rcases ih found with before | ⟨member, valid⟩
    · rcases lookup_matchKey before with older | ⟨rfl, valid⟩
      · exact .inl older
      · exact .inr ⟨mem_cons_self, valid⟩
    · exact .inr ⟨mem_cons_of_mem _ member, valid⟩

theorem lookup_matchKeys_kept (taken : (sigs.lookup key).isSome = true) :
    ((verifier.matchKeys txTo nIn script keys allsigs sigs).lookup key).isSome = true := by
  induction allsigs generalizing sigs with
  | nil => exact taken
  | cons sig rest ih => exact ih (lookup_matchKey_kept taken)

theorem lookup_matchKeys_valid (member : key ∈ keys) (there : sig ∈ allsigs)
    (valid : verifier.checkSig txTo nIn sig key script = true)
    (unique : ∀ other ∈ keys, verifier.checkSig txTo nIn sig other script = true → other = key) :
    ((verifier.matchKeys txTo nIn script keys allsigs sigs).lookup key).isSome = true := by
  induction allsigs generalizing sigs with
  | nil => exact absurd there not_mem_nil
  | cons first rest ih =>
    rcases mem_cons.mp there with rfl | later
    · change ((verifier.matchKeys txTo nIn script keys rest
        (verifier.matchKey txTo nIn script sig keys sigs)).lookup key).isSome = true
      exact lookup_matchKeys_kept (lookup_matchKey_valid member valid unique)
    · exact ih later

/-! ## The combined script -/

theorem mergeSignatures_eq {nSigsRequired : Nat} {sigs : StdMap Valtype Valtype}
    (keys : List Valtype) {nSigsHave : Nat} (below : nSigsHave ≤ nSigsRequired)
    (result : CScript) :
    mergeSignatures nSigsRequired sigs keys nSigsHave result =
      (nSigsHave + ((keys.filterMap sigs.lookup).take (nSigsRequired - nSigsHave)).length,
        result ++ pushAll ((keys.filterMap sigs.lookup).take (nSigsRequired - nSigsHave))) := by
  induction keys generalizing nSigsHave result with
  | nil => simp [mergeSignatures, pushAll]
  | cons pubkey rest ih =>
    rw [mergeSignatures]
    split_ifs with more
    · cases found : sigs.lookup pubkey with
      | none =>
        have skipped : (pubkey :: rest).filterMap sigs.lookup = rest.filterMap sigs.lookup :=
          filterMap_cons_none found
        rw [skipped]
        exact ih below result
      | some sig =>
        have named : (pubkey :: rest).filterMap sigs.lookup =
            sig :: rest.filterMap sigs.lookup := filterMap_cons_some found
        have step : nSigsRequired - nSigsHave = nSigsRequired - (nSigsHave + 1) + 1 := by omega
        dsimp only
        rw [ih (show nSigsHave + 1 ≤ nSigsRequired from more), named, step, take_succ_cons]
        simp only [pushAll, flatMap_cons, length_cons, append_assoc,
          Prod.mk.injEq, and_true]
        omega
    · have none_left : nSigsRequired - nSigsHave = 0 := by omega
      simp [none_left, pushAll]

theorem checkSig_nil (key : Valtype) : verifier.checkSig txTo nIn [] key script = false := by
  simp [checkSig]

theorem pushAll_placeholders (count : Nat) :
    pushAll (List.replicate count []) = List.replicate count 0x00 := by
  induction count with
  | zero => rfl
  | succ count ih =>
    rw [replicate_succ, replicate_succ, ← ih]
    rfl

variable (verifier txTo nIn script)

/-- A signature is valid for a key, with the script as its script code. -/
abbrev Valid (vchSig key : Valtype) : Prop := verifier.checkSig txTo nIn vchSig key script = true

/-- How many of the keys have a valid signature among some values. -/
def signedKeys (keys values : List Valtype) : Nat :=
  keys.countP fun key => values.any fun vchSig => verifier.checkSig txTo nIn vchSig key script

def keptSignatures (nSigsRequired : Nat) (keys values1 values2 : List Valtype) : List Valtype :=
  (keys.filterMap
    (verifier.matchKeys txTo nIn script keys (allSignatures values1 values2) ∅).lookup).take
      nSigsRequired

variable {verifier txTo nIn script}

theorem combineMultisig_eq (m n : UInt8) (keys values1 values2 : List Valtype) :
    verifier.combineMultisig txTo nIn script ([m] :: (keys ++ [[n]])) values1 values2 =
      some (pushAll ([] :: (verifier.keptSignatures txTo nIn script m.toNat keys values1 values2 ++
        List.replicate (m.toNat - (verifier.keptSignatures txTo nIn script m.toNat keys values1
          values2).length) []))) := by
  have long : ([m] :: (keys ++ [[n]])).length > 1 := by simp
  have merged := @mergeSignatures_eq m.toNat (verifier.matchKeys txTo nIn script keys
    (allSignatures values1 values2) ∅) keys 0 (Nat.zero_le m.toNat) [0x00]
  rw [Nat.sub_zero, Nat.zero_add] at merged
  have combined : verifier.combineMultisig txTo nIn script ([m] :: (keys ++ [[n]])) values1
      values2 = some ((mergeSignatures m.toNat (verifier.matchKeys txTo nIn script keys
        (allSignatures values1 values2) ∅) keys 0 [0x00]).2 ++
          replicate (m.toNat - (mergeSignatures m.toNat (verifier.matchKeys txTo nIn script
            keys (allSignatures values1 values2) ∅) keys 0 [0x00]).1) 0x00) := by
    simp [combineMultisig, matchKeys]
  rw [combined, merged]
  have placeholders := pushAll_placeholders (m.toNat - (verifier.keptSignatures txTo nIn script
    m.toNat keys values1 values2).length)
  unfold keptSignatures at placeholders ⊢
  simp only [pushAll, flatMap_cons, flatMap_append] at placeholders ⊢
  rw [placeholders, append_assoc]
  rfl

/-- No key that has a valid signature goes without one. -/
theorem keptSignatures_spec {nSigsRequired : Nat} {keys values1 values2 : List Valtype}
    (unique : ∀ vchSig ∈ values1 ++ values2, ∀ key ∈ keys, ∀ other ∈ keys,
      verifier.Valid txTo nIn script vchSig key → verifier.Valid txTo nIn script vchSig other →
        other = key) :
    (verifier.keptSignatures txTo nIn script nSigsRequired keys values1 values2).length =
        min nSigsRequired (verifier.signedKeys txTo nIn script keys (values1 ++ values2)) ∧
      Matches (fun vchSig key => vchSig ∈ values1 ++ values2 ∧
          verifier.Valid txTo nIn script vchSig key)
        (verifier.keptSignatures txTo nIn script nSigsRequired keys values1 values2) keys := by
  have assigned : ∀ key value, (verifier.matchKeys txTo nIn script keys
      (allSignatures values1 values2) ∅).lookup key = some value →
        value ∈ values1 ++ values2 ∧ verifier.Valid txTo nIn script value key := by
    intro key value found
    rcases lookup_matchKeys found with impossible | ⟨member, valid⟩
    · cases impossible
    · exact ⟨(mem_allSignatures.mp member).2, valid⟩
  constructor
  · refine (length_filterMap_take _ keys nSigsRequired).trans
      (congrArg _ (countP_congr fun key member => ?_))
    rw [List.any_eq_true]
    constructor
    · intro found
      obtain ⟨value, named⟩ := isSome_iff_exists.mp found
      exact ⟨value, assigned key value named⟩
    · rintro ⟨vchSig, there, valid⟩
      have filled : vchSig ≠ [] := by
        rintro rfl
        simp [checkSig_nil] at valid
      exact lookup_matchKeys_valid member (mem_allSignatures.mpr ⟨filled, there⟩) valid
        fun other also fits => unique vchSig there key member other also valid fits
  · exact (matches_filterMap_take _ keys nSigsRequired).imp
      fun value key _ named => assigned key value named

end TransactionVerifier

/-! ## What a script of pushes leaves -/

theorem pushedBy_small {opcode : UInt8} {vch value : Valtype}
    (small : ¬ vch.length > maxScriptElementSize) (pushed : pushedBy opcode vch = some value) :
    value.length ≤ maxScriptElementSize := by
  unfold pushedBy at pushed
  split_ifs at pushed
  · cases pushed
    exact Nat.le_of_not_lt small
  · cases pushed
    exact getvch_small _

theorem evalPushes_fits {stack : List Valtype} (fits : Fits stack) (pc : CScript) :
    Fits (evalPushes stack pc) := by
  fun_induction evalPushes stack pc with
  | case1 => exact fits
  | case2 => exact fits
  | case3 => exact fits
  | case4 stack pc opcode vch rest read small value pushed full =>
    exact fits.push (pushedBy_small small pushed)
  | case5 stack pc opcode vch rest read small value pushed room ih =>
    exact ih (fits.push (pushedBy_small small pushed))

theorem valuesLeft_fits {script : CScript} {vch : Valtype} (member : vch ∈ valuesLeft script) :
    vch.length ≤ maxScriptElementSize := by
  unfold valuesLeft at member
  split_ifs at member
  · cases member
  · exact evalPushes_fits Fits.nil script vch (mem_reverse.mp member)

/-! ## Combining -/

/-- A script that asks for several keys, paid to on its own, or by its hash with the script
behind the values. -/
inductive AsksFor (hashes : ScriptHashes) (script : CScript) : CScript → List Valtype → Prop
  | bare : AsksFor hashes script script []
  | scriptHash : AsksFor hashes script
      (opHash160 :: 0x14 :: (hashes.ripemd160 (hashes.sha256 script) ++ [opEqual])) [script]

/-- Signatures and keys have the encodings that flags ask for. -/
structure Conforms (flags : ScriptFlags) (script : CScript) (sigs keys : List Valtype) :
    Prop where
  encoded : Encoded flags sigs keys
  minimal : flags.minimaldata = true → script.Minimal ∧ ∀ vchSig ∈ sigs, vchSig.length ≠ 1

theorem conforms_mandatory (script : CScript) (sigs keys : List Valtype) :
    Conforms .mandatory script sigs keys where
  encoded := ⟨fun vchSig _ => checkSignatureEncoding_eq ⟨rfl, rfl, rfl⟩ vchSig,
    fun vchPubKey _ => checkPubKeyEncoding_eq ⟨rfl, rfl, rfl⟩ vchPubKey⟩
  minimal := nofun

namespace TransactionVerifier

variable {verifier : TransactionVerifier} {txTo : CTransaction} {nIn : Nat}
  {script : CScript} {m n : UInt8} {keys : List Valtype}

/-- The values that are made of two lists of values. -/
def combinedValues (verifier : TransactionVerifier) (txTo : CTransaction) (nIn : Nat)
    (script : CScript) (m : UInt8) (keys values1 values2 : List Valtype) : List Valtype :=
  [] :: (verifier.keptSignatures txTo nIn script m.toNat keys values1 values2 ++
    List.replicate (m.toNat - (verifier.keptSignatures txTo nIn script m.toNat keys values1
      values2).length) [])

theorem combinedValues_comm (values1 values2 : List Valtype) :
    verifier.combinedValues txTo nIn script m keys values1 values2 =
      verifier.combinedValues txTo nIn script m keys values2 values1 := by
  unfold combinedValues keptSignatures
  rw [allSignatures_comm]

variable {hashes : ScriptHashes} {scriptPubKey scriptSig1 scriptSig2 : CScript}
  {suffix values1 values2 : List Valtype}

theorem combineSignatures_eq (form : StandardForm script .multisig ([m] :: (keys ++ [[n]])))
    (asks : AsksFor hashes script scriptPubKey suffix)
    (left1 : valuesLeft scriptSig1 = values1 ++ suffix)
    (left2 : valuesLeft scriptSig2 = values2 ++ suffix) :
    verifier.combineSignatures txTo nIn scriptPubKey scriptSig1 scriptSig2 =
      some (pushAll (verifier.combinedValues txTo nIn script m keys values1 values2 ++ suffix)) := by
  have solved := form.solved
  have combined := @combineMultisig_eq verifier txTo nIn script m n keys values1 values2
  cases asks with
  | bare =>
    rw [append_nil] at left1 left2
    unfold combineSignatures
    rw [solved, left1, left2]
    simp only [bind_eq_bind, bind_some]
    rw [combineValues, combined]
    simp [combinedValues]
  | scriptHash =>
    have outer := (StandardForm.scripthash (hashes.ripemd160_length (hashes.sha256 script))).solved
    have filled : script ≠ [] := by
      rintro rfl
      have unsolved : CentNode.solver [] = some ⟨false, .nonstandard, []⟩ := rfl
      cases unsolved.symm.trans solved
    unfold combineSignatures
    rw [outer, left1, left2]
    simp only [bind_eq_bind, bind_some]
    rw [combineValues]
    simp [filled, solved, combineValues, combined, combinedValues, pushAll]

/-- Enough signatures are accepted. -/
theorem verifyScript_combined {flags : ScriptFlags}
    (form : StandardForm script .multisig ([m] :: (keys ++ [[n]])))
    (asks : AsksFor hashes script scriptPubKey suffix)
    (small : ∀ vch ∈ values1 ++ values2 ++ suffix, vch.length ≤ maxScriptElementSize)
    (matched : Matches (fun vchSig key => vchSig ∈ values1 ++ values2 ∧
        verifier.Valid txTo nIn script vchSig key)
      (verifier.keptSignatures txTo nIn script m.toNat keys values1 values2) keys)
    (enough : (verifier.keptSignatures txTo nIn script m.toNat keys values1 values2).length =
      m.toNat)
    (apart : ∀ vchSig ∈ verifier.keptSignatures txTo nIn script m.toNat keys values1 values2,
      ∀ instruction ∈ script.parse.1, instruction.bytes ≠ CScript.pushData vchSig)
    (conforms : Conforms flags script
      (verifier.keptSignatures txTo nIn script m.toNat keys values1 values2) keys) :
    verifyScript hashes (verifier.checkSig txTo nIn) flags
      (pushAll (verifier.combinedValues txTo nIn script m keys values1 values2 ++ suffix))
        scriptPubKey = .ok () := by
  generalize kept : verifier.keptSignatures txTo nIn script m.toNat keys values1 values2 = sigs at *
  have values : verifier.combinedValues txTo nIn script m keys values1 values2 = [] :: sigs := by
    unfold combinedValues
    rw [kept, enough]
    simp
  have held : ∀ vchSig ∈ sigs, vchSig.length ≤ maxScriptElementSize := by
    intro vchSig member
    obtain ⟨_, _, there, _⟩ := matched.exists_partner member
    exact small vchSig (mem_append_left suffix there)
  have absent : ∀ vchSig ∈ sigs,
      script.findAndDelete (CScript.pushData vchSig) = .ok script := fun vchSig member =>
    CScript.findAndDelete_absent (Nat.lt_of_le_of_lt (held vchSig member) (by decide))
      (apart vchSig member)
  have fits : Matches (fun vchSig key => verifier.checkSig txTo nIn vchSig key script = true)
      sigs keys := matched.imp fun _ _ _ signed => signed.2
  obtain ⟨runs, few⟩ := @evalScript_multisigForm hashes (verifier.checkSig txTo nIn) flags script
    m n keys sigs form (fun on => (conforms.minimal on).1) enough conforms.encoded absent
    (matches_iff_positions.mp fits)
  rw [values]
  have pushable : ∀ vch ∈ [] :: sigs, CScript.Pushable flags vch := by
    refine forall_mem_cons.mpr ⟨⟨Nat.zero_le _, fun _ => by simp⟩, fun vch member => ?_⟩
    exact ⟨held vch member, fun on => (conforms.minimal on).2 vch member⟩
  have short : (([] :: sigs).flatMap CScript.pushData).length ≤ 9000 := by
    have sizes := @flatMap_pushData_length ([] :: sigs) 520 fun vch member => (pushable vch member).1
    rw [length_cons] at sizes
    omega
  have reversed : evalScript hashes (verifier.checkSig txTo nIn) flags ([] :: sigs).reverse script =
      .ok [vchTrue] := by
    rw [reverse_cons]
    exact runs
  cases asks with
  | bare =>
    rw [append_nil]
    exact verifyScript_pushed pushable (by simp; omega) short reversed
      (form.not_payToScriptHash (by decide))
  | scriptHash =>
    obtain ⟨_, _, _, parsed⟩ := form.parses (by decide) (by decide)
    have redeems : CScript.Pushable flags script :=
      ⟨small script (by simp), fun _ => parsed.length_ne_one⟩
    have joined : pushAll ([] :: sigs ++ [script]) =
        ([] :: sigs).flatMap CScript.pushData ++ CScript.pushData script := by simp [pushAll]
    rw [joined]
    exact verifyScript_redeemed pushable (by simp; omega) short reversed redeems
      (hashes.ripemd160_length _) rfl

end TransactionVerifier

/-- A script of pushes, and the values that `EvalScript` leaves of it. -/
structure Leaves (scriptSig : CScript) (values : List Valtype) : Prop where
  pushes : CScript.isPushOnly scriptSig = true
  left : valuesLeft scriptSig = values

/-- Of two partial scripts for several keys no signature is lost: a valid one is kept for every
key that has one, in the order of the keys, and enough of them are accepted. -/
theorem combineSignatures_complete (hashes : ScriptHashes) (verifier : TransactionVerifier)
    (txTo : CTransaction) (nIn : Nat) {scriptPubKey script scriptSig1 scriptSig2 : CScript}
    {m n : UInt8} {keys suffix values1 values2 : List Valtype}
    (form : StandardForm script .multisig ([m] :: (keys ++ [[n]])))
    (asks : AsksFor hashes script scriptPubKey suffix)
    (leaves1 : Leaves scriptSig1 (values1 ++ suffix))
    (leaves2 : Leaves scriptSig2 (values2 ++ suffix))
    (unique : ∀ vchSig ∈ values1 ++ values2, ∀ key ∈ keys, ∀ other ∈ keys,
      verifier.Valid txTo nIn script vchSig key → verifier.Valid txTo nIn script vchSig other →
        other = key) :
    ∃ (sigs : List Valtype) (result : CScript),
      sigs.length = min m.toNat (verifier.signedKeys txTo nIn script keys (values1 ++ values2)) ∧
        Matches (fun vchSig key => vchSig ∈ values1 ++ values2 ∧
            verifier.Valid txTo nIn script vchSig key) sigs keys ∧
          result = pushAll ([] :: (sigs ++ List.replicate (m.toNat - sigs.length) []) ++ suffix) ∧
            verifier.combineSignatures txTo nIn scriptPubKey scriptSig1 scriptSig2 = some result ∧
              verifier.combineSignatures txTo nIn scriptPubKey scriptSig2 scriptSig1 = some result ∧
                (m.toNat ≤ verifier.signedKeys txTo nIn script keys (values1 ++ values2) →
                  (∀ vchSig ∈ sigs, ∀ instruction ∈ script.parse.1,
                    instruction.bytes ≠ CScript.pushData vchSig) →
                  verifyScript hashes (verifier.checkSig txTo nIn) .mandatory result
                      scriptPubKey = .ok () ∧
                    ∀ flags, Conforms flags script sigs keys →
                      verifyScript hashes (verifier.checkSig txTo nIn) flags result
                        scriptPubKey = .ok ()) := by
  obtain ⟨counted, matched⟩ := @TransactionVerifier.keptSignatures_spec verifier txTo nIn script
    m.toNat keys values1 values2 unique
  have combined := @TransactionVerifier.combineSignatures_eq verifier txTo nIn script m n keys
    hashes scriptPubKey scriptSig1 scriptSig2 suffix values1 values2 form asks leaves1.left
    leaves2.left
  have reversed := @TransactionVerifier.combineSignatures_eq verifier txTo nIn script m n keys
    hashes scriptPubKey scriptSig2 scriptSig1 suffix values2 values1 form asks leaves2.left
    leaves1.left
  rw [TransactionVerifier.combinedValues_comm] at reversed
  refine ⟨_, _, counted, matched, rfl, combined, reversed, fun enough apart => ?_⟩
  have small : ∀ vch ∈ values1 ++ values2 ++ suffix, vch.length ≤ maxScriptElementSize := by
    intro vch member
    have either : vch ∈ valuesLeft scriptSig1 ∨ vch ∈ valuesLeft scriptSig2 := by
      rw [leaves1.left, leaves2.left]
      simp only [mem_append] at member ⊢
      tauto
    rcases either with there | there
    · exact valuesLeft_fits there
    · exact valuesLeft_fits there
  have complete := counted.trans (Nat.min_eq_left enough)
  have accepted : ∀ flags, Conforms flags script _ keys → _ := fun flags conforms =>
    @TransactionVerifier.verifyScript_combined verifier txTo nIn script m n keys hashes scriptPubKey
      suffix values1 values2 flags form asks small matched complete apart conforms
  exact ⟨accepted _ (conforms_mandatory _ _ _), accepted⟩

namespace Sample

/-- The public key of the private key two. -/
def secondKey : CPubKey :=
  [0x02, 0xc6, 0x04, 0x7f, 0x94, 0x41, 0xed, 0x7d, 0x6d, 0x30, 0x45, 0x40, 0x6e, 0x95, 0xc0,
    0x7c, 0xd8, 0x5c, 0x77, 0x8e, 0x4b, 0x8c, 0xef, 0x3c, 0xa7, 0xab, 0xac, 0x09, 0xb9, 0x5c,
    0x70, 0x9e, 0xe5]

/-- A signature by that key of the hash one, for the type single. -/
def shortSig : Valtype :=
  [0x30, 0x39, 0x02, 0x15, 0x3b, 0x78, 0xce, 0x56, 0x3f, 0x89, 0xa0, 0xed, 0x94, 0x14, 0xf5,
    0xaa, 0x28, 0xad, 0x0d, 0x96, 0xd6, 0x79, 0x5f, 0x9c, 0x63, 0x02, 0x20, 0x02, 0x00, 0x00,
    0x00, 0x00, 0x00, 0x00, 0x00, 0x00, 0x00, 0x00, 0xed, 0xe3, 0x39, 0x58, 0xfe, 0x26, 0x83,
    0xb6, 0x50, 0x53, 0xd6, 0xa8, 0xa2, 0xb4, 0x36, 0x5b, 0x59, 0xe5, 0x7e, 0x71, 0x8c, 3]

/-- A signature by the private key one of the hash seven, for all of the transaction. -/
def longSig : Valtype := sevenSig ++ [1]

/-- The second input has the hash seven for script code that makes so many bytes of it. -/
def pairVerifier (size : Nat) : TransactionVerifier where
  hash256 := fun bytes => if bytes.length = size then 7 else 8
  verify := fun vchPubKey hash vchSig =>
    decide ((vchPubKey = generator ∧ hash = 7 ∧ vchSig = sevenSig) ∨
      (vchPubKey = secondKey ∧ hash = 1 ∧ vchSig = shortSig.dropLast))

/-- Two signatures, for the second key and the first one. -/
def pairScript : CScript := [0x52] ++ pushAll [secondKey, generator] ++ [0x52, opCheckmultisig]

def pairPayment : CScript :=
  opHash160 :: 0x14 :: (signingStore.hashes.ripemd160 (signingStore.hashes.sha256 pairScript) ++
    [opEqual])

theorem pairScript_form :
    StandardForm pairScript .multisig ([2] :: ([secondKey, generator] ++ [[2]])) :=
  solver_sound (by decide +kernel)

theorem pairScript_apart : ∀ vchSig ∈ [[], shortSig] ++ [[], longSig],
    ∀ instruction ∈ pairScript.parse.1, instruction.bytes ≠ CScript.pushData vchSig := by
  decide +kernel

/-- The same two signatures, with one of them in place of a third key. -/
def tripleScript : CScript :=
  [0x52] ++ pushAll [secondKey, generator, shortSig] ++ [0x53, opCheckmultisig]

/-- One signature, for the second key. -/
def singleScript : CScript := [0x51] ++ CScript.pushData secondKey ++ [0x51, opCheckmultisig]

end Sample

open Sample in
/-- A signature by each of two keys, behind a script hash. -/
theorem combineSignatures_complete_sample :
    ∃ result, (pairVerifier 177).combineSignatures unsigned 1 pairPayment
        (pushAll [[], shortSig, pairScript]) (pushAll [[], longSig, pairScript]) = some result ∧
      verifyScript signingStore.hashes ((pairVerifier 177).checkSig unsigned 1) .mandatory result
        pairPayment = .ok () := by
  obtain ⟨sigs, result, _, matched, _, combined, _, verifies⟩ :=
    @combineSignatures_complete signingStore.hashes (pairVerifier 177) unsigned 1 pairPayment
      pairScript (pushAll [[], shortSig, pairScript]) (pushAll [[], longSig, pairScript]) 2 2
      [secondKey, generator] [pairScript] [[], shortSig] [[], longSig] pairScript_form .scriptHash
      ⟨by decide +kernel, by decide +kernel⟩ ⟨by decide +kernel, by decide +kernel⟩
      (by decide +kernel)
  refine ⟨result, combined, (verifies (by decide +kernel) fun vchSig member => ?_).1⟩
  obtain ⟨_, _, there, _⟩ := matched.exists_partner member
  exact pairScript_apart vchSig there

open Sample in
/-- A valid signature behind `OP_RESERVED` is lost, and two valid ones are not accepted where
the script pushes one of them. -/
theorem combineSignatures_incomplete :
    (StandardForm singleScript .multisig ([1] :: ([secondKey] ++ [[1]])) ∧
      CScript.isPushOnly (0x50 :: CScript.pushData shortSig) = true ∧
        (∃ instruction ∈ (CScript.parse (0x50 :: CScript.pushData shortSig)).1,
          instruction.vch = shortSig) ∧
          (pairVerifier 0).Valid unsigned 1 singleScript shortSig secondKey ∧
            (pairVerifier 0).combineSignatures unsigned 1 singleScript
              (0x50 :: CScript.pushData shortSig) [] = some [0x00, 0x00]) ∧
    StandardForm tripleScript .multisig ([2] :: ([secondKey, generator, shortSig] ++ [[3]])) ∧
      Leaves (pushAll [[], shortSig]) [[], shortSig] ∧ Leaves (pushAll [[], longSig]) [[], longSig] ∧
        (∀ vchSig ∈ [[], shortSig] ++ [[], longSig], ∀ key ∈ [secondKey, generator, shortSig],
          ∀ other ∈ [secondKey, generator, shortSig],
            (pairVerifier 238).Valid unsigned 1 tripleScript vchSig key →
              (pairVerifier 238).Valid unsigned 1 tripleScript vchSig other → other = key) ∧
          (pairVerifier 238).signedKeys unsigned 1 tripleScript [secondKey, generator, shortSig]
              ([[], shortSig] ++ [[], longSig]) = 2 ∧
            ∀ result, (pairVerifier 238).combineSignatures unsigned 1 tripleScript
                (pushAll [[], shortSig]) (pushAll [[], longSig]) = some result →
              verifyScript signingStore.hashes ((pairVerifier 238).checkSig unsigned 1) .mandatory
                result tripleScript ≠ .ok () := by
  have refused : ((pairVerifier 238).combineSignatures unsigned 1 tripleScript
      (pushAll [[], shortSig]) (pushAll [[], longSig])).map (fun result =>
        (verifyScript signingStore.hashes ((pairVerifier 238).checkSig unsigned 1) .mandatory result
          tripleScript).isOk) = some false := by decide +kernel
  refine ⟨⟨solver_sound (by decide +kernel), by decide +kernel, by decide +kernel,
    by decide +kernel, by decide +kernel⟩, solver_sound (by decide +kernel),
    ⟨by decide +kernel, by decide +kernel⟩, ⟨by decide +kernel, by decide +kernel⟩,
    by decide +kernel, by decide +kernel, fun result combined accepted => ?_⟩
  rw [combined, map_some, accepted] at refused
  cases refused

end CentNode
