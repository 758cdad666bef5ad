import CentNode.Script.FlagOrder
import CentNode.Script.Signing
import CentNode.Script.SignatureHashAgreement
import CentNode.Script.StandardRuns

/-!
# Signing with the keys at hand

What `SignSignature` makes with the keys that a standard script asks for is accepted by
`VerifyScript` with the standard flags, if the script pushes its operands minimally.
-/

namespace CentNode

open List Option CScript TransactionVerifier CTransactionSignatureSerializer

open OrderedMatching ScriptMachine

/-! ## What is signed -/

section SignatureHashes

variable (txTo : CTransaction) (nIn : Nat) (scriptSig scriptCode : CScript)

@[simp]
theorem CTransaction.length_setScriptSig :
    (txTo.setScriptSig nIn scriptSig).vin.length = txTo.vin.length := by
  simp [setScriptSig]

theorem CTransactionSignatureSerializer.serialize_setScriptSig
    (serializer : CTransactionSignatureSerializer) :
    CTransactionSignatureSerializer.serialize
        { serializer with txTo := serializer.txTo.setScriptSig nIn scriptSig } =
      serializer.serialize := by
  have inputs : CTransactionSignatureSerializer.serializeInput
      { serializer with txTo := serializer.txTo.setScriptSig nIn scriptSig } =
        serializer.serializeInput := by
    funext nInput
    unfold serializeInput
    dsimp only
    generalize (if serializer.fAnyoneCanPay = true then serializer.nIn else nInput) = index
    have read : (serializer.txTo.setScriptSig nIn scriptSig).vin[index]? =
        serializer.txTo.vin[index]?.map fun txin =>
          if nIn = index then { txin with scriptSig := scriptSig } else txin := by
      simp [CTransaction.setScriptSig, getElem?_modify]
    rw [read]
    cases serializer.txTo.vin[index]? with
    | none => rfl
    | some txin =>
      by_cases here : nIn = index
      · simp [here, serializeScriptCode]
      · simp [here, serializeScriptCode]
  have length := serializer.txTo.length_setScriptSig nIn scriptSig
  unfold serialize
  rw [inputs]
  simp only [length]
  rfl

@[simp]
theorem signatureHash_setScriptSig (other : Nat) (nHashType : BitVec 32) :
    signatureHash scriptCode (txTo.setScriptSig nIn scriptSig) other nHashType =
      signatureHash scriptCode txTo other nHashType := by
  have serialized := serialize_setScriptSig nIn scriptSig
    (.make txTo scriptCode other nHashType)
  have length := txTo.length_setScriptSig nIn scriptSig
  have made : make (txTo.setScriptSig nIn scriptSig) scriptCode
      other nHashType = { make txTo scriptCode other nHashType with
        txTo := txTo.setScriptSig nIn scriptSig } := rfl
  unfold signatureHash
  rw [length, made]
  exact congrArg _ (congrArg _ (congrArg (Option.bind · _) serialized))

variable (verifier : TransactionVerifier)

theorem TransactionVerifier.exists_sighash (nHashType : BitVec 32)
    (parses : scriptCode.parse.2 = []) :
    ∃ hash, verifier.sighash scriptCode txTo nIn nHashType = some hash := by
  have total : (signatureHash scriptCode txTo nIn nHashType).isSome = true := by
    unfold signatureHash
    split_ifs with outside noOutput
    · rfl
    · rfl
    · obtain ⟨txin, here⟩ : ∃ txin, txTo.vin[nIn]? = some txin :=
        ⟨_, getElem?_eq_getElem (Nat.lt_of_not_le outside)⟩
      have inside : baseType nHashType = sighashSingle → nIn < txTo.vout.length :=
        fun single => Nat.lt_of_not_le fun beyond => noOutput ⟨single, beyond⟩
      rw [serialize_signed parses here inside]
      rfl
  obtain ⟨digest, read⟩ := isSome_iff_exists.mp total
  unfold sighash
  rw [read]
  cases digest with
  | one => exact ⟨1, rfl⟩
  | hashOf bytes => exact ⟨verifier.hash256 bytes, rfl⟩

@[simp]
theorem TransactionVerifier.sighash_setScriptSig (other : Nat) (nHashType : BitVec 32) :
    verifier.sighash scriptCode (txTo.setScriptSig nIn scriptSig) other nHashType =
      verifier.sighash scriptCode txTo other nHashType := by
  unfold sighash
  rw [signatureHash_setScriptSig]

@[simp]
theorem TransactionVerifier.checkSig_setScriptSig (other : Nat) :
    verifier.checkSig (txTo.setScriptSig nIn scriptSig) other = verifier.checkSig txTo other := by
  funext vchSigIn vchPubKey scriptCode
  unfold checkSig
  simp only [sighash_setScriptSig]

end SignatureHashes

/-! ## Signatures and keys -/

/-- The hash types that are defined: all, none and single, and each for one input alone. -/
def definedHashTypes : List (BitVec 32) := [1, 2, 3, 0x81, 0x82, 0x83]

def WellEncoded (vchPubKey : Valtype) : Prop :=
  isCompressedOrUncompressedPubKey vchPubKey = .ok true

theorem WellEncoded.valid {vchPubKey : Valtype} (encoded : WellEncoded vchPubKey) :
    pubKeyValid vchPubKey = true := by
  unfold WellEncoded isCompressedOrUncompressedPubKey at encoded
  cases vchPubKey with
  | nil => cases encoded
  | cons chHeader rest =>
    split_ifs at encoded with short
    · cases encoded
    have value : (if chHeader = 0x04 then (.ok (decide ((chHeader :: rest).length = 65)) : Eval Bool)
        else if chHeader = 0x02 ∨ chHeader = 0x03 then .ok (decide ((chHeader :: rest).length = 33))
        else .ok false) = .ok true := encoded
    unfold pubKeyValid pubKeyLength
    split_ifs at value with four two
    · have sized : rest.length + 1 = 65 := of_decide_eq_true (Except.ok.inj value)
      simp [four, sized]
    · have sized : rest.length + 1 = 33 := of_decide_eq_true (Except.ok.inj value)
      simp [two, sized]
    · cases value

theorem WellEncoded.checked {vchPubKey : Valtype} (encoded : WellEncoded vchPubKey) :
    checkPubKeyEncoding vchPubKey .standard = .ok () := by
  change (isCompressedOrUncompressedPubKey vchPubKey >>= _) = _
  rw [encoded]
  rfl

variable {nHashType : BitVec 32}

theorem hashType_byte (defined : nHashType ∈ definedHashTypes) :
    BitVec.ofNat 32 (UInt8.ofNat nHashType.toNat).toNat = nHashType ∧
      ¬ (UInt8.ofNat nHashType.toNat &&& 0x7f < 1 ∨ UInt8.ofNat nHashType.toNat &&& 0x7f > 3) := by
  simp only [definedHashTypes, mem_cons, not_mem_nil, or_false] at defined
  rcases defined with rfl | rfl | rfl | rfl | rfl | rfl
  all_goals decide

theorem checkSignatureEncoding_standard {vchSig : List UInt8}
    (defined : nHashType ∈ definedHashTypes)
    (strict : isValidSignatureEncoding (withHashType vchSig nHashType) = .ok true) :
    checkSignatureEncoding (withHashType vchSig nHashType) .standard = .ok () := by
  have filled : ¬ (withHashType vchSig nHashType).length = 0 := by simp [withHashType]
  have typed : isDefinedHashtypeSignature (withHashType vchSig nHashType) = .ok true := by
    have last : byteAt (withHashType vchSig nHashType)
        ((withHashType vchSig nHashType).length - 1) = .ok (UInt8.ofNat nHashType.toNat) := by
      simp [byteAt, withHashType]
    obtain ⟨_, range⟩ := hashType_byte defined
    rw [not_or] at range
    rw [isDefinedHashtypeSignature, if_neg filled, last, ok_bind]
    simp [range.1, range.2]
  rw [checkSignatureEncoding, if_neg filled]
  change (demand _ _ >>= fun _ => _) = _
  rw [demand, strict, ok_bind, require_eq rfl, ok_bind]
  change (demand _ _) = _
  rw [demand, typed]
  rfl

theorem TransactionVerifier.checkSig_withHashType {verifier : TransactionVerifier}
    {txTo : CTransaction} {nIn : Nat} {scriptCode : CScript} {vchSig : List UInt8}
    {vchPubKey : CPubKey} {hash : Uint256} (defined : nHashType ∈ definedHashTypes)
    (valid : pubKeyValid vchPubKey = true)
    (hashed : verifier.sighash scriptCode txTo nIn nHashType = some hash) :
    verifier.checkSig txTo nIn (withHashType vchSig nHashType) vchPubKey scriptCode =
      verifier.verify vchPubKey hash vchSig := by
  obtain ⟨typed, _⟩ := hashType_byte defined
  unfold checkSig withHashType
  rw [if_pos valid, getLast?_append, getLast?_singleton, some_or]
  dsimp only
  rw [typed, hashed, dropLast_concat]

theorem isValidSignatureEncoding_length {sig : Valtype}
    (strict : isValidSignatureEncoding sig = .ok true) : 9 ≤ sig.length ∧ sig.length ≤ 73 := by
  unfold isValidSignatureEncoding at strict
  split_ifs at strict with short long
  · cases strict
  · cases strict
  · exact ⟨Nat.le_of_not_lt short, Nat.le_of_not_lt long⟩

/-! ## The keys at hand -/

namespace SigningStore

variable {CKey : Type} (store : SigningStore CKey)

def holds (vchPubKey : CPubKey) : Bool := (store.getKey (store.getID vchPubKey)).any store.fValid

/-- A key that is found for a public key is its own. -/
def Own (vchPubKey : CPubKey) : Prop :=
  ∀ key, store.getKey (store.getID vchPubKey) = some key → store.getPubKey key = vchPubKey

/-- What is made with a valid key is strictly encoded and verifies. -/
structure SignsSoundly : Prop where
  strict : ∀ key hash nHashType, store.fValid key = true →
    isValidSignatureEncoding (withHashType (store.ecdsaSign key hash) nHashType) = .ok true
  verified : ∀ key hash, store.fValid key = true →
    store.verifier.verify (store.getPubKey key) hash (store.ecdsaSign key hash) = true

def Makes (hash : Uint256) (nHashType : BitVec 32) (vchSig : Valtype) (vchPubKey : CPubKey) :
    Prop :=
  ∃ key, store.fValid key = true ∧ store.getPubKey key = vchPubKey ∧
    vchSig = withHashType (store.ecdsaSign key hash) nHashType

variable {store} {hash : Uint256} {nHashType : BitVec 32}

theorem sign1_held {address : CKeyID} {key : CKey} (known : store.getKey address = some key)
    (valid : store.fValid key = true) (scriptSigRet : CScript) :
    store.sign1 address hash nHashType scriptSigRet =
      (true, scriptSigRet ++
        pushData (withHashType (store.ecdsaSign key hash) nHashType)) := by
  unfold sign1
  rw [known]
  exact if_pos valid

theorem sign1_missing {vchPubKey : CPubKey} (missing : store.holds vchPubKey = false)
    (scriptSigRet : CScript) :
    store.sign1 (store.getID vchPubKey) hash nHashType scriptSigRet = (false, scriptSigRet) := by
  unfold holds at missing
  unfold sign1
  cases known : store.getKey (store.getID vchPubKey) with
  | none => rfl
  | some key =>
    rw [known] at missing
    have invalid : ¬ store.fValid key = true := by simpa using missing
    exact if_neg invalid

theorem holds_iff {vchPubKey : CPubKey} : store.holds vchPubKey = true ↔
    ∃ key, store.getKey (store.getID vchPubKey) = some key ∧ store.fValid key = true := by
  unfold holds
  cases store.getKey (store.getID vchPubKey) with
  | none => simp
  | some key => simp

/-- The loop signs with the first keys at hand, as many as are required. -/
theorem signKeys_spec {keys : List CPubKey} (own : ∀ vchPubKey ∈ keys, store.Own vchPubKey)
    {nRequired nSigned : Nat} (below : nSigned ≤ nRequired) (scriptSigRet : CScript) :
    ∃ sigs, store.signKeys nRequired hash nHashType keys nSigned scriptSigRet =
        (nSigned + sigs.length, scriptSigRet ++ sigs.flatMap pushData) ∧
      Matches (store.Makes hash nHashType) sigs keys ∧
        sigs.length = min (nRequired - nSigned) (keys.countP store.holds) := by
  induction keys generalizing nSigned scriptSigRet with
  | nil => exact ⟨[], by simp [signKeys], matches_nil [], by simp⟩
  | cons vchPubKey later ih =>
    have ownLater : ∀ other ∈ later, store.Own other :=
      fun other member => own other (mem_cons_of_mem _ member)
    rw [signKeys]
    split
    case isFalse enough => exact ⟨[], by simp, matches_nil _, by simp; omega⟩
    case isTrue more =>
      cases held : store.holds vchPubKey with
      | false =>
        rw [sign1_missing held]
        obtain ⟨sigs, ran, matched, counted⟩ := ih ownLater below scriptSigRet
        exact ⟨sigs, ran, matched.skip vchPubKey, by simpa [held] using counted⟩
      | true =>
        obtain ⟨key, known, valid⟩ := holds_iff.mp held
        have mine := own vchPubKey mem_cons_self key known
        rw [sign1_held known valid]
        obtain ⟨sigs, ran, matched, counted⟩ := ih ownLater (Nat.succ_le_of_lt more)
          (scriptSigRet ++ pushData (withHashType (store.ecdsaSign key hash) nHashType))
        refine ⟨withHashType (store.ecdsaSign key hash) nHashType :: sigs, ?_,
          matched.take ⟨key, valid, mine, rfl⟩, ?_⟩
        · simp only [if_true]
          rw [ran]
          simp
          omega
        · simp [held]
          omega

/-! ## One script -/

variable (store)

/-- Scripts that ask for keys at hand. -/
inductive Signable : CScript → Prop
  | pubkey {script : CScript} {vchPubKey : CPubKey} :
      StandardForm script .pubkey [vchPubKey] → WellEncoded vchPubKey → store.Own vchPubKey →
        store.holds vchPubKey = true → Signable script
  | pubkeyhash {script : CScript} {keyID : CKeyID} {key : CKey} :
      StandardForm script .pubkeyhash [keyID.val] → store.getKey keyID = some key →
        store.fValid key = true → store.hash160 (store.getPubKey key) = keyID →
          WellEncoded (store.getPubKey key) → Signable script
  | multisig {script : CScript} {m n : UInt8} {keys : List CPubKey} :
      StandardForm script .multisig ([m] :: (keys ++ [[n]])) →
        (∀ vchPubKey ∈ keys, WellEncoded vchPubKey ∧ store.Own vchPubKey) →
          m.toNat ≤ keys.countP store.holds → Signable script

/-- No signature is pushed by an instruction of a script. -/
def Apart (script : CScript) (nHashType : BitVec 32) : Prop :=
  ∀ key hash, store.fValid key = true → ∀ instruction ∈ script.parse.1,
    instruction.bytes ≠ CScript.pushData (withHashType (store.ecdsaSign key hash) nHashType)

/-- What `Solver` signs a script with is enough for the script. -/
structure Satisfies (checker : SignatureChecker) (script : CScript) (hash : Uint256)
    (nHashType : BitVec 32) (values : List Valtype) (whichType : Txnouttype) : Prop where
  solved : store.solver script hash nHashType =
    some ⟨true, values.flatMap CScript.pushData, whichType⟩
  direct : whichType ≠ .scripthash
  short : ∀ vch ∈ values, vch.length ≤ 73 ∧ vch.length ≠ 1
  few : values.length ≤ 17
  runs : evalScript store.hashes checker .standard values.reverse script = .ok [vchTrue]

variable {store}

section OneScript

variable {txTo : CTransaction} {nIn : Nat} {script : CScript} (sound : store.SignsSoundly)
  (defined : nHashType ∈ definedHashTypes) (apart : store.Apart script nHashType)
  (hashed : store.verifier.sighash script txTo nIn nHashType = some hash)
include sound

theorem withHashType_length {key : CKey} (valid : store.fValid key = true) :
    (withHashType (store.ecdsaSign key hash) nHashType).length ≤ 73 ∧
      (withHashType (store.ecdsaSign key hash) nHashType).length ≠ 1 := by
  have sized := isValidSignatureEncoding_length (sound.strict key hash nHashType valid)
  omega

include apart in
theorem findAndDelete_apart {key : CKey} (valid : store.fValid key = true) :
    script.findAndDelete (pushData (withHashType (store.ecdsaSign key hash) nHashType)) =
      .ok script := by
  have sized := @withHashType_length _ store hash nHashType sound key valid
  exact findAndDelete_absent (by omega) (apart key hash valid)

include defined apart hashed

theorem accepts_signed {key : CKey} (valid : store.fValid key = true)
    (encoded : WellEncoded (store.getPubKey key)) :
    Accepts (store.verifier.checkSig txTo nIn) .standard script
      (withHashType (store.ecdsaSign key hash) nHashType) (store.getPubKey key) where
  deleted := findAndDelete_apart sound apart valid
  encoded := checkSignatureEncoding_standard defined (sound.strict key hash nHashType valid)
  keyEncoded := encoded.checked
  verified := by
    rw [checkSig_withHashType defined encoded.valid hashed]
    exact sound.verified key hash valid

section

variable (minimal : script.Minimal)

include minimal

theorem satisfies_pubkey {vchPubKey : CPubKey}
    (form : StandardForm script .pubkey [vchPubKey]) (encoded : WellEncoded vchPubKey)
    (own : store.Own vchPubKey) (held : store.holds vchPubKey = true) :
    ∃ vchSig, store.Satisfies (store.verifier.checkSig txTo nIn) script hash nHashType [vchSig]
      .pubkey := by
  obtain ⟨key, known, valid⟩ := holds_iff.mp held
  obtain rfl := own key known
  have solved := form.solved
  refine ⟨withHashType (store.ecdsaSign key hash) nHashType, ?_, by decide, ?_, by simp, ?_⟩
  · simp [solver, solved, sign1_held known valid]
  · exact forall_mem_singleton.mpr (withHashType_length sound valid)
  · cases form with
    | pubkey sized parsed =>
      exact evalScript_pubkey (fun _ => minimal) sized parsed
        (accepts_signed sound defined apart hashed valid encoded)

theorem satisfies_pubkeyhash {keyID : CKeyID} {key : CKey}
    (form : StandardForm script .pubkeyhash [keyID.val]) (known : store.getKey keyID = some key)
    (valid : store.fValid key = true) (hashes : store.hash160 (store.getPubKey key) = keyID)
    (encoded : WellEncoded (store.getPubKey key)) :
    ∃ values, store.Satisfies (store.verifier.checkSig txTo nIn) script hash nHashType values
      .pubkeyhash := by
  have solved := form.solved
  have sized := keySized_of_valid encoded.valid
  have read := uint160OfBytes_val keyID
  refine ⟨[withHashType (store.ecdsaSign key hash) nHashType, store.getPubKey key], ?_,
    by decide, ?_, by simp, ?_⟩
  · simp [solver, solved, read, sign1_held known valid, lookupPubKey, known]
  · have signature := @withHashType_length _ store hash nHashType sound key valid
    have bounds : (store.getPubKey key).length ≤ 73 ∧ (store.getPubKey key).length ≠ 1 := by
      have lower := sized.1
      have upper := sized.2
      omega
    simpa using ⟨signature, bounds⟩
  · have hashed160 := store.hash160_val (store.getPubKey key)
    rw [hashes] at hashed160
    cases form with
    | pubkeyhash length parsed =>
      exact evalScript_pubkeyhash (fun _ => minimal) length parsed hashed160.symm
        (accepts_signed sound defined apart hashed valid encoded)

theorem satisfies_multisig {m n : UInt8} {keys : List CPubKey}
    (form : StandardForm script .multisig ([m] :: (keys ++ [[n]])))
    (usable : ∀ vchPubKey ∈ keys, WellEncoded vchPubKey ∧ store.Own vchPubKey)
    (enough : m.toNat ≤ keys.countP store.holds) :
    ∃ values, store.Satisfies (store.verifier.checkSig txTo nIn) script hash nHashType values
      .multisig := by
  have solved := form.solved
  obtain ⟨sigs, ran, matched, counted⟩ := @signKeys_spec _ store hash nHashType keys
    (fun vchPubKey member => (usable vchPubKey member).2) m.toNat 0 (Nat.zero_le _) [0x00]
  have required : sigs.length = m.toNat := by
    rw [counted]
    omega
  have made : ∀ vchSig ∈ sigs, ∃ key, store.fValid key = true ∧
      vchSig = withHashType (store.ecdsaSign key hash) nHashType := by
    intro vchSig member
    obtain ⟨_, _, key, valid, _, same⟩ := matched.exists_partner member
    exact ⟨key, valid, same⟩
  have bounds : ∀ vchSig ∈ sigs, vchSig.length ≤ 73 ∧ vchSig.length ≠ 1 := by
    intro vchSig member
    obtain ⟨key, valid, rfl⟩ := made vchSig member
    exact withHashType_length sound valid
  have encoded : Encoded .standard sigs keys := by
    refine ⟨fun vchSig member => ?_, fun vchPubKey member => (usable vchPubKey member).1.checked⟩
    obtain ⟨key, valid, rfl⟩ := made vchSig member
    exact checkSignatureEncoding_standard defined (sound.strict key hash nHashType valid)
  have absent : ∀ vchSig ∈ sigs,
      script.findAndDelete (pushData vchSig) = .ok script := by
    intro vchSig member
    obtain ⟨key, valid, rfl⟩ := made vchSig member
    exact findAndDelete_apart sound apart valid
  have verified : Verified (store.verifier.checkSig txTo nIn) script sigs keys := by
    have fits : Matches (fun vchSig vchPubKey =>
        store.verifier.checkSig txTo nIn vchSig vchPubKey script = true) sigs keys := by
      refine matched.imp fun vchSig vchPubKey member signed => ?_
      obtain ⟨key, valid, rfl, rfl⟩ := signed
      rw [checkSig_withHashType defined (usable _ member).1.valid hashed]
      exact sound.verified key hash valid
    exact matches_iff_positions.mp fits
  obtain ⟨runs, few⟩ := @evalScript_multisigForm store.hashes (store.verifier.checkSig txTo nIn)
    .standard script m n keys sigs form (fun _ => minimal) required encoded absent verified
  refine ⟨[] :: sigs, ?_, by decide, forall_mem_cons.mpr ⟨by decide, bounds⟩,
    Nat.succ_le_succ few, ?_⟩
  · simp [solver, solved, signN, ran, required]
    rfl
  · rw [reverse_cons]
    exact runs

theorem Signable.satisfies (signable : store.Signable script) :
    ∃ values whichType, store.Satisfies (store.verifier.checkSig txTo nIn) script hash nHashType
      values whichType := by
  cases signable with
  | pubkey form encoded own held =>
    obtain ⟨vchSig, satisfies⟩ :=
      satisfies_pubkey sound defined apart hashed minimal form encoded own held
    exact ⟨_, _, satisfies⟩
  | pubkeyhash form known valid hashes encoded =>
    obtain ⟨values, satisfies⟩ := satisfies_pubkeyhash sound defined apart hashed minimal form
      known valid hashes encoded
    exact ⟨_, _, satisfies⟩
  | multisig form usable enough =>
    obtain ⟨values, satisfies⟩ :=
      satisfies_multisig sound defined apart hashed minimal form usable enough
    exact ⟨_, _, satisfies⟩

end

end OneScript

theorem Signable.form {script : CScript} (signable : store.Signable script) :
    ∃ type solutions, StandardForm script type solutions ∧ type ≠ .scripthash ∧
      type ≠ .nullData := by
  cases signable with
  | pubkey form => exact ⟨_, _, form, by decide, by decide⟩
  | pubkeyhash form => exact ⟨_, _, form, by decide, by decide⟩
  | multisig form => exact ⟨_, _, form, by decide, by decide⟩

/-! ## The input -/

variable (store)

/-- Scripts that ask for keys at hand, or for the hash of such a script. -/
inductive Spendable (nHashType : BitVec 32) : CScript → Prop
  | bare {script : CScript} : store.Signable script → script.Minimal →
      store.Apart script nHashType → Spendable nHashType script
  | scriptHash {subscript : CScript} : subscript.length ≤ maxScriptElementSize →
      store.getCScript (store.hash160 subscript) = some subscript → store.Signable subscript →
        subscript.Minimal → store.Apart subscript nHashType →
          Spendable nHashType (opHash160 :: 0x14 :: ((store.hash160 subscript).val ++ [opEqual]))

variable {store}

namespace Satisfies

variable {checker : SignatureChecker} {script : CScript} {values : List Valtype}
  {whichType : Txnouttype}
  (satisfies : store.Satisfies checker script hash nHashType values whichType)
include satisfies

theorem pushable : ∀ vch ∈ values, CScript.Pushable .standard vch := fun vch member =>
  ⟨Nat.le_trans (satisfies.short vch member).1 (by decide),
    fun _ => (satisfies.short vch member).2⟩

theorem size : (values.flatMap pushData).length ≤ 1326 := by
  have length := flatMap_pushData_length fun vch member => (satisfies.short vch member).1
  have few := satisfies.few
  omega

theorem verifyScript_bare (direct : script.isPayToScriptHash = false) :
    verifyScript store.hashes checker .standard (values.flatMap pushData) script =
      .ok () :=
  verifyScript_pushed satisfies.pushable (Nat.le_trans satisfies.few (by decide))
    (Nat.le_trans satisfies.size (by decide)) satisfies.runs direct

theorem verifyScript_scriptHash (small : script.length ≤ maxScriptElementSize)
    (long : script.length ≠ 1) :
    verifyScript store.hashes checker .standard
        (values.flatMap pushData ++ pushData script)
        (opHash160 :: 0x14 :: ((store.hash160 script).val ++ [opEqual])) = .ok () :=
  verifyScript_redeemed satisfies.pushable (Nat.le_trans satisfies.few (by decide))
    (Nat.le_trans satisfies.size (by decide)) satisfies.runs ⟨small, fun _ => long⟩
    (store.hash160 script).property (store.hash160_val script).symm

end Satisfies

end SigningStore

/-- An input that asks for keys at hand is signed so that it verifies. -/
theorem signSignature_succeeds {CKey : Type} (store : SigningStore CKey)
    (sound : store.SignsSoundly) (scriptPubKey : CScript) (txTo : CTransaction) (nIn : Nat)
    (nHashType : BitVec 32) (inside : nIn < txTo.vin.length)
    (defined : nHashType ∈ definedHashTypes) (spendable : store.Spendable nHashType scriptPubKey) :
    ∃ signed, store.signSignature scriptPubKey txTo nIn nHashType = some (true, signed) := by
  cases spendable with
  | bare signable minimal apart =>
    obtain ⟨type, solutions, form, direct, spends⟩ := signable.form
    obtain ⟨_, _, _, parsed⟩ := form.parses direct spends
    obtain ⟨hash, hashed⟩ := exists_sighash txTo nIn scriptPubKey
      store.verifier nHashType parsed.parse.2
    obtain ⟨values, whichType, satisfies⟩ :=
      @SigningStore.Signable.satisfies _ store hash nHashType txTo nIn scriptPubKey sound defined
        apart hashed minimal signable
    have verified := satisfies.verifyScript_bare (form.not_payToScriptHash direct)
    refine ⟨txTo.setScriptSig nIn (values.flatMap pushData), ?_⟩
    unfold SigningStore.signSignature
    simp [inside, hashed, satisfies.solved, satisfies.direct, SigningStore.verifies, verified,
      Except.isOk, Except.toBool]
  | @scriptHash subscript small known signable minimal apart =>
    obtain ⟨_, _, outer⟩ := scripthash_parses .standard (store.hash160 subscript).property
    obtain ⟨hash, hashed⟩ := exists_sighash txTo nIn _ store.verifier
      nHashType outer.parse.2
    have solved := (StandardForm.scripthash (store.hash160 subscript).property).solved
    have read := uint160OfBytes_val (store.hash160 subscript)
    have redeems : store.solver (opHash160 :: 0x14 ::
        ((store.hash160 subscript).val ++ [opEqual])) hash nHashType =
          some ⟨true, subscript, .scripthash⟩ := by
      simp [SigningStore.solver, solved, read, known]
    -- the redeem script is signed in place of the script that is paid to
    obtain ⟨type, solutions, form, direct, spends⟩ := signable.form
    obtain ⟨_, _, _, parsed⟩ := form.parses direct spends
    obtain ⟨hash2, hashed2⟩ := exists_sighash txTo nIn subscript
      store.verifier nHashType parsed.parse.2
    obtain ⟨values, whichType, satisfies⟩ :=
      @SigningStore.Signable.satisfies _ store hash2 nHashType txTo nIn subscript sound defined
        apart hashed2 minimal signable
    have verified := satisfies.verifyScript_scriptHash small parsed.length_ne_one
    refine ⟨(txTo.setScriptSig nIn subscript).setScriptSig nIn
      (values.flatMap pushData ++ pushData subscript), ?_⟩
    unfold SigningStore.signSignature
    simp [inside, hashed, redeems, hashed2, satisfies.solved, satisfies.direct,
      SigningStore.verifies, verified, Except.isOk, Except.toBool]

namespace Sample

/-- `SHA256` of the public key. -/
def generatorSha : Valtype :=
  [0x0f, 0x71, 0x5b, 0xaf, 0x5d, 0x4c, 0x2e, 0xd3, 0x29, 0x78, 0x5c, 0xef, 0x29, 0xe5, 0x62,
    0xf7, 0x34, 0x88, 0xc8, 0xa2, 0xbb, 0x9d, 0xbc, 0x57, 0x00, 0xb3, 0x61, 0xd5, 0x4b, 0x9b,
    0x05, 0x54]

/-- A signature by its private key of the hash one. -/
def oneSig : List UInt8 :=
  [0x30, 0x44, 0x02, 0x20, 0x1f, 0x9a, 0xb6, 0xbc, 0xe5, 0x18, 0x55, 0x17, 0x90, 0x00, 0x75,
    0x4f, 0x23, 0x9b, 0xcd, 0xc9, 0x16, 0x82, 0xe5, 0x56, 0x27, 0x55, 0x14, 0xec, 0x72, 0xa6,
    0xb4, 0x29, 0xb8, 0x97, 0x2d, 0xa2, 0x02, 0x20, 0x76, 0xba, 0x62, 0x28, 0x14, 0x4d, 0xba,
    0xae, 0xff, 0xb5, 0xe5, 0x8e, 0xad, 0x62, 0x81, 0xa5, 0x6b, 0xd4, 0xe3, 0xae, 0x05, 0xf0,
    0x89, 0x0d, 0x1b, 0xbb, 0x5d, 0xad, 0x8f, 0x61, 0xb1, 0xac]

def signingStore : SigningStore Unit where
  toKeyStore := { generatorStore with ecdsaSign := fun _ _ => oneSig }
  hashes :=
    { ripemd160 := fun data => if data = generatorSha then generatorID.val else List.replicate 20 0
      sha1 := fun _ => List.replicate 20 0
      sha256 := fun data => if data = generator then generatorSha else List.replicate 32 0
      ripemd160_length := fun data => by split <;> simp [generatorID]
      sha1_length := fun _ => by simp
      sha256_length := fun data => by split <;> simp [generatorSha] }
  verifier :=
    { hash256 := fun _ => 7
      verify := fun vchPubKey _ vchSig => decide (vchPubKey = generator ∧ vchSig = oneSig) }
  getCScript := fun _ => none
  hash160_val := by
    intro vch
    have other : List.replicate 32 0 ≠ generatorSha := by decide
    by_cases same : vch = generator
    · simp [generatorStore, same]
    · change (if vch = generator then generatorID else _).val =
        if (if vch = generator then generatorSha else List.replicate 32 0) = generatorSha then
          generatorID.val else List.replicate 20 0
      rw [if_neg same, if_neg same, if_neg other]

theorem signingStore_sound : signingStore.SignsSoundly where
  strict := by
    intro key hash nHashType _
    rfl
  verified := fun _ _ _ => by
    change decide (generator = generator ∧ oneSig = oneSig) = true
    exact decide_eq_true ⟨rfl, rfl⟩

/-- Two inputs and one output. -/
def unsigned : CTransaction where
  hash := 0
  vin := [{ prevout := ⟨5, 0⟩ }, { prevout := ⟨6, 1⟩ }]
  vout := [⟨10, [0x51]⟩]

theorem generator_apart {script : CScript} {push : UInt8}
    (parsed : ParsesAs script [(push, generator), (opChecksig, [])]) :
    signingStore.Apart script 3 := by
  intro key hash _
  have other : ∀ part ∈ [(push, generator), (opChecksig, [])],
      part.2 ≠ withHashType oneSig 3 := by
    simp
    decide
  exact not_pushed_of_parts parsed
    (show (withHashType oneSig 3).length < 2 ^ 32 by decide) other

theorem generator_signable {script : CScript} {push : UInt8}
    (parsed : ParsesAs script [(push, generator), (opChecksig, [])]) :
    signingStore.Signable script :=
  .pubkey (.pubkey (by decide) parsed) rfl (fun _ _ => rfl) rfl

theorem generator_parses : ParsesAs (pushData generator ++ [opChecksig])
    [(33, generator), (opChecksig, [])] := ⟨_, rfl, _, rfl, rfl⟩

/-- A push with a size that it does not need. -/
def longScript : CScript := [opPushdata1, 33] ++ generator ++ [opChecksig]

theorem longScript_parses :
    ParsesAs longScript [(opPushdata1, generator), (opChecksig, [])] := ⟨_, rfl, _, rfl, rfl⟩

end Sample

open Sample

/-- The hash type is single, without an output beside the input. -/
theorem signSignature_succeeds_sample :
    ∃ signed, Sample.signingStore.signSignature (CScript.pushData Sample.generator ++ [opChecksig])
      Sample.unsigned 1 3 = some (true, signed) :=
  signSignature_succeeds signingStore signingStore_sound _ unsigned 1 3
    (by decide) (by decide) (.bare (generator_signable generator_parses)
      (minimal_of_parts generator_parses (by decide))
      (generator_apart generator_parses))

/-- The signature for a key that is not pushed minimally is not accepted. -/
theorem signSignature_longPush :
    Sample.signingStore.SignsSoundly ∧ Sample.signingStore.Signable Sample.longScript ∧
      Sample.signingStore.Apart Sample.longScript 3 ∧
        ∀ signed, Sample.signingStore.signSignature Sample.longScript Sample.unsigned 1 3 ≠
          some (true, signed) := by
  refine ⟨signingStore_sound, generator_signable longScript_parses,
    generator_apart longScript_parses, fun signed => ?_⟩
  have refused : (signingStore.signSignature longScript unsigned 1 3).map
      Prod.fst = some false := by decide +kernel
  intro accepted
  rw [accepted] at refused
  cases refused

/-! ## Signing every input -/

/-- The transaction with no script in an input. -/
def CTransaction.withoutScripts (tx : CTransaction) : CTransaction :=
  { tx with vin := tx.vin.map fun txin => { txin with scriptSig := [] } }

theorem CTransaction.withoutScripts_setScriptSig (tx : CTransaction) (nIn : Nat)
    (scriptSig : CScript) : (tx.setScriptSig nIn scriptSig).withoutScripts = tx.withoutScripts := by
  unfold withoutScripts setScriptSig
  congr 1
  apply ext_getElem?
  grind

namespace SigningStore

variable {CKey : Type} (store : SigningStore CKey)

/-- `SignSignature` for an output of `txFrom`. -/
def signSignatureFrom (txFrom txTo : CTransaction) (nIn : Nat) (nHashType : BitVec 32) :
    Option (Bool × CTransaction) := do
  let txin ← txTo.vin[nIn]?
  let txout ← txFrom.vout[txin.prevout.n]?
  store.signSignature txout.scriptPubKey txTo nIn nHashType

/-- The loop of `CreateTransaction` and of `CreateCoinStake` over what is left of the coins; the
hash type is `SIGHASH_ALL`. -/
def signInputs : List CTransaction → Nat → CTransaction → Option (Bool × CTransaction)
  | [], _, txNew => some (true, txNew)
  | txFrom :: setCoins, nIn, txNew => do
    let (signed, txNew) ← store.signSignatureFrom txFrom txNew nIn 1
    if signed then signInputs setCoins (nIn + 1) txNew else return (false, txNew)

/-- The input is accepted for the output it spends, whatever flags are left out. -/
def InputAccepted (tx : CTransaction) (nIn : Nat) (txFrom : CTransaction) : Prop :=
  ∃ txin txout, tx.vin[nIn]? = some txin ∧ txFrom.vout[txin.prevout.n]? = some txout ∧
    ∀ flags : ScriptFlags, flags.Subset .standard → verifyScript store.hashes
      (store.verifier.checkSig tx nIn) flags txin.scriptSig txout.scriptPubKey = .ok ()

variable {store} {txTo next : CTransaction} {nIn : Nat} {nHashType : BitVec 32}

theorem signSignature_true {fromPubKey : CScript}
    (signed : store.signSignature fromPubKey txTo nIn nHashType = some (true, next)) :
    ∃ scriptSig, next = txTo.setScriptSig nIn scriptSig ∧
      store.verifies txTo nIn scriptSig fromPubKey = true := by
  have twice (first second : CScript) :
      (txTo.setScriptSig nIn first).setScriptSig nIn second = txTo.setScriptSig nIn second := by
    unfold CTransaction.setScriptSig
    simp only [modify_modify_eq]
    rfl
  unfold signSignature at signed
  obtain ⟨hash, -, signed⟩ := bind_eq_some_iff.mp (ite_none_right_eq_some.mp signed).2
  obtain ⟨outer, -, signed⟩ := bind_eq_some_iff.mp signed
  split_ifs at signed
  · cases signed
  · obtain ⟨hash2, -, signed⟩ := bind_eq_some_iff.mp signed
    obtain ⟨inner, -, signed⟩ := bind_eq_some_iff.mp signed
    split_ifs at signed
    · obtain ⟨verified, rfl⟩ := Prod.mk.inj (some.inj signed)
      exact ⟨_, twice _ _, by simpa [verifies] using verified⟩
    · cases signed
  · obtain ⟨verified, rfl⟩ := Prod.mk.inj (some.inj signed)
    exact ⟨_, rfl, by simpa [verifies] using verified⟩

theorem signSignatureFrom_true {txFrom : CTransaction}
    (signed : store.signSignatureFrom txFrom txTo nIn nHashType = some (true, next)) :
    ∃ scriptSig, next = txTo.setScriptSig nIn scriptSig ∧ store.InputAccepted next nIn txFrom := by
  obtain ⟨txin, input, signed⟩ := bind_eq_some_iff.mp signed
  obtain ⟨txout, output, signed⟩ := bind_eq_some_iff.mp signed
  obtain ⟨scriptSig, rfl, verified⟩ := signSignature_true signed
  refine ⟨scriptSig, rfl, { txin with scriptSig := scriptSig }, txout, ?_, output, ?_⟩
  · simp [CTransaction.setScriptSig, input]
  · intro flags fewer
    rw [checkSig_setScriptSig]
    apply verifyScript_narrows fewer
    unfold verifies at verified
    cases result : verifyScript store.hashes (store.verifier.checkSig txTo nIn) .standard scriptSig
      txout.scriptPubKey with
    | error _ => rw [result] at verified; cases verified
    | ok _ => rfl

/-- No signature hash covers the script of another input. -/
theorem InputAccepted.setScriptSig {txFrom : CTransaction}
    (accepted : store.InputAccepted txTo nIn txFrom) {other : Nat} (apart : other ≠ nIn)
    (scriptSig : CScript) : store.InputAccepted (txTo.setScriptSig other scriptSig) nIn txFrom := by
  obtain ⟨txin, txout, input, output, verified⟩ := accepted
  refine ⟨txin, txout, ?_, output, ?_⟩
  · simp [CTransaction.setScriptSig, apart, input]
  · rwa [checkSig_setScriptSig]

/-- If the loop signs every input, they are accepted in the transaction that it ends with, as are
those that were accepted before, and only scripts of inputs have changed. -/
theorem signInputs_accepted {setCoins : List CTransaction} {txNew signed : CTransaction}
    (run : store.signInputs setCoins nIn txNew = some (true, signed)) :
    signed.withoutScripts = txNew.withoutScripts ∧
    (∀ i < nIn, ∀ txFrom, store.InputAccepted txNew i txFrom →
      store.InputAccepted signed i txFrom) ∧
    ∀ i txFrom, setCoins[i]? = some txFrom → store.InputAccepted signed (nIn + i) txFrom := by
  induction setCoins generalizing nIn txNew with
  | nil =>
    cases run
    exact ⟨rfl, fun _ _ _ => id, nofun⟩
  | cons txFrom rest ih =>
    obtain ⟨⟨_ | _, next⟩, step, run⟩ := bind_eq_some_iff.mp run
    · cases run
    · obtain ⟨scriptSig, rfl, accepted⟩ := signSignatureFrom_true step
      obtain ⟨same, before, later⟩ := ih run
      refine ⟨same.trans (txNew.withoutScripts_setScriptSig nIn scriptSig),
        fun i less other held => ?_, fun i other coin => ?_⟩
      · exact before i (by omega) other (held.setScriptSig less.ne' scriptSig)
      · cases i with
        | zero =>
          cases coin
          exact before nIn (Nat.lt_succ_self nIn) txFrom accepted
        | succ i => exact Nat.add_right_comm nIn 1 i ▸ later i other coin

/-- The second output is paid to the key of the store. -/
def paidCoin : CTransaction :=
  { hash := 6, vin := [], vout := [⟨9, []⟩, ⟨10, pushData generator ++ [opChecksig]⟩] }

theorem signInputs_accepted_one : ∃ signed, signingStore.InputAccepted signed 1 paidCoin := by
  have signs : (signingStore.signInputs [paidCoin] 1 unsigned).map Prod.fst = some true := by
    decide +kernel
  obtain ⟨⟨_, signed⟩, run, rfl⟩ := map_eq_some_iff.mp signs
  exact ⟨signed, (signInputs_accepted run).2.2 0 _ rfl⟩

end SigningStore

end CentNode
