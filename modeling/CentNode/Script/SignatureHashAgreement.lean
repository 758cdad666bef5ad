import CentNode.Script.SignatureHash
import CentNode.Script.StandardForms

/-!
# The streamed signature hash is the reference

For script code that `GetOp` reads to its end the serializer writes what the changed copy
serializes to.
-/

namespace CentNode

open List CTransactionSignatureSerializer

open Wire

/-! ## Script code -/

namespace CScript

variable (instruction : Instruction) (itBegin more : CScript)

theorem countCodeSeparators_cons :
    countCodeSeparators (instruction.bytes ++ more) =
      (if instruction.opcode = opCodeseparator then 1 else 0) + countCodeSeparators more := by
  rw [countCodeSeparators]
  split
  case h_1 ends => cases ends.symm.trans (instruction.reads more)
  case h_2 read =>
    cases read.symm.trans (instruction.reads more)
    rfl

theorem writeSegments_cons :
    writeSegments itBegin (instruction.bytes ++ more) =
      if instruction.opcode = opCodeseparator then
        itBegin.take (itBegin.length - more.length - 1) ++ writeSegments more more
      else writeSegments itBegin more := by
  rw [writeSegments]
  split
  case h_1 ends => cases ends.symm.trans (instruction.reads more)
  case h_2 read =>
    cases read.symm.trans (instruction.reads more)
    rfl

theorem writeSegments_nil : writeSegments itBegin [] = itBegin := by
  rw [writeSegments]
  split
  case h_1 =>
    cases itBegin with
    | nil => rfl
    | cons byte rest => simp [failedAt]
  case h_2 read => cases read

end CScript

theorem Instruction.codeseparator_iff (instruction : Instruction) :
    instruction.opcode = opCodeseparator ↔ instruction.bytes = [opCodeseparator] := by
  have read := instruction.reads []
  rw [append_nil] at read
  constructor
  · intro separator
    rw [separator] at read
    exact ((CScript.getOp_plain (by decide)).mp read).1
  · intro separator
    rw [separator] at read
    exact CScript.getOp_head read

/-- The instructions that are no code separators. -/
def keptInstructions (instructions : List Instruction) : List Instruction :=
  instructions.filter fun other => other.bytes ≠ [opCodeseparator]

theorem keptInstructions_cons (instruction : Instruction) (rest : List Instruction) :
    keptInstructions (instruction :: rest) =
      if instruction.opcode = opCodeseparator then keptInstructions rest
      else instruction :: keptInstructions rest := by
  by_cases separator : instruction.opcode = opCodeseparator
  · rw [if_pos separator]
    exact filter_cons_of_neg (by simpa using instruction.codeseparator_iff.mp separator)
  · rw [if_neg separator]
    refine filter_cons_of_pos ?_
    simpa using fun same => separator (instruction.codeseparator_iff.mpr same)

namespace CScript

theorem writeSegments_join (read : CScript) (instructions : List Instruction) :
    writeSegments (read ++ joinBytes instructions) (joinBytes instructions) =
      read ++ joinBytes (keptInstructions instructions) := by
  induction instructions generalizing read with
  | nil => simpa [keptInstructions] using writeSegments_nil read
  | cons instruction rest ih =>
    rw [joinBytes_cons, writeSegments_cons, keptInstructions_cons]
    by_cases separator : instruction.opcode = opCodeseparator
    · have bytes := instruction.codeseparator_iff.mp separator
      have start := ih []
      rw [nil_append] at start
      rw [if_pos separator, if_pos separator, start, bytes]
      have count : (read ++ ([opCodeseparator] ++ joinBytes rest)).length -
          (joinBytes rest).length - 1 = read.length := by
        rw [length_append, length_append, length_singleton]
        omega
      rw [count, take_left, nil_append]
    · have grown := ih (read ++ instruction.bytes)
      rw [append_assoc] at grown
      rw [if_neg separator, if_neg separator, grown, joinBytes_cons, append_assoc]

theorem countCodeSeparators_join (instructions : List Instruction) :
    (joinBytes (keptInstructions instructions)).length +
        countCodeSeparators (joinBytes instructions) =
      (joinBytes instructions).length := by
  induction instructions with
  | nil => simp [keptInstructions, countCodeSeparators, getOp]
  | cons instruction rest ih =>
    rw [joinBytes_cons, countCodeSeparators_cons, keptInstructions_cons]
    by_cases separator : instruction.opcode = opCodeseparator
    · have bytes := instruction.codeseparator_iff.mp separator
      rw [if_pos separator, if_pos separator, bytes, length_append, length_singleton]
      omega
    · rw [if_neg separator, if_neg separator, joinBytes_cons, length_append,
        length_append]
      omega

theorem findAndDelete_codeseparator {scriptCode : CScript}
    (parses : scriptCode.parse.2 = []) :
    (scriptCode.findAndDeleteFound [opCodeseparator]).1 =
      joinBytes (keptInstructions scriptCode.parse.1) := by
  have whole := scriptCode.parse_join
  rw [parses] at whole
  have separator : ∀ more, getOp ([opCodeseparator] ++ more) = some (opCodeseparator, [], more) :=
    fun more => (getOp_plain (by decide)).mpr ⟨rfl, rfl⟩
  have deleted := @findAndDeleteFound_join
    { bytes := [opCodeseparator], opcode := opCodeseparator, vch := [], reads := separator }
    scriptCode.parse.1 [] rfl
  rw [whole] at deleted
  rw [deleted, append_nil]
  rfl

end CScript

theorem writeBytes_eq (bytes : List UInt8) :
    writeBytes bytes = writeCompactSize bytes.length ++ bytes := by
  simp [writeBytes, writeVector]

theorem serializeScriptCode_eq (serializer : CTransactionSignatureSerializer)
    (parses : serializer.scriptCode.parse.2 = []) :
    serializer.serializeScriptCode =
      writeBytes (serializer.scriptCode.findAndDeleteFound [opCodeseparator]).1 := by
  have whole := serializer.scriptCode.parse_join
  rw [parses, append_nil] at whole
  have segments := CScript.writeSegments_join [] serializer.scriptCode.parse.1
  have sizes := CScript.countCodeSeparators_join serializer.scriptCode.parse.1
  rw [nil_append, nil_append, whole] at segments
  rw [whole] at sizes
  rw [CScript.findAndDelete_codeseparator parses, writeBytes_eq]
  unfold serializeScriptCode
  dsimp only
  rw [segments, ← sizes, Nat.add_sub_cancel]

/-! ## The loops -/

theorem mapM_range {α β : Type} {vector : List α} {count : Nat} {step : Nat → Option β}
    {value : Nat → α → β} (inside : count ≤ vector.length)
    (each : ∀ i < count, step i = vector[i]?.map (value i)) :
    (List.range count).mapM step = some ((vector.take count).mapIdx value) := by
  induction count with
  | zero => rfl
  | succ count ih =>
    have here : count < vector.length := inside
    have before := ih (Nat.le_of_succ_le inside) fun i small => each i (Nat.lt_succ_of_lt small)
    have last : step count = some (value count vector[count]) := by
      rw [each count (Nat.lt_succ_self count), getElem?_eq_getElem here]
      rfl
    have taken : vector.take (count + 1) = vector.take count ++ [vector[count]] :=
      take_succ_eq_append_getElem here
    have length : (vector.take count).length = count := length_take_of_le (Nat.le_of_lt here)
    rw [range_succ, mapM_append, before, taken, mapIdx_append, length]
    simp [last]

theorem mapIdx_then_map {α β γ : Type} (items : List α) (value : Nat → α → β) (next : β → γ) :
    (items.mapIdx value).map next = items.mapIdx fun i item => next (value i item) :=
  ext_getElem (by simp) fun i _ _ => by simp

/-! ## Inputs -/

/-- An input as it is signed. -/
def changedInput (nIn : Nat) (scriptCode : CScript) (release : Bool) (i : Nat) (txin : CTxIn) :
    CTxIn where
  prevout := txin.prevout
  scriptSig := if i ≠ nIn then [] else scriptCode
  nSequence := if i ≠ nIn ∧ release = true then 0 else txin.nSequence

theorem blankScripts_eq (nIn : Nat) (scriptCode : CScript) (vin : List CTxIn) :
    blankScripts nIn scriptCode vin = vin.mapIdx (changedInput nIn scriptCode false) := by
  refine ext_getElem (by simp [blankScripts]) fun i _ inside => ?_
  by_cases here : nIn = i
  · subst here
    simp [blankScripts, changedInput]
  · have other : i ≠ nIn := fun same => here same.symm
    simp [blankScripts, changedInput, here, other]

theorem releaseOthers_eq (nIn : Nat) (scriptCode : CScript) (vin : List CTxIn) :
    releaseOthers nIn (vin.mapIdx (changedInput nIn scriptCode false)) =
      vin.mapIdx (changedInput nIn scriptCode true) := by
  refine ext_getElem (by simp [releaseOthers]) fun i _ inside => ?_
  by_cases here : i = nIn
  · simp [releaseOthers, changedInput, here]
  · simp [releaseOthers, changedInput, here]

section Serializer

variable {serializer : CTransactionSignatureSerializer} {scriptCode : CScript} {release : Bool}

section

variable (code : serializer.serializeScriptCode = writeBytes scriptCode)
  (single : (serializer.fHashSingle || serializer.fHashNone) = release)

include code single

theorem serializeInput_eq (nInput : Nat) :
    serializer.serializeInput nInput =
      (serializer.txTo.vin[if serializer.fAnyoneCanPay then serializer.nIn else nInput]?).map
        fun txin => (changedInput serializer.nIn scriptCode release
          (if serializer.fAnyoneCanPay then serializer.nIn else nInput) txin).serialize := by
  unfold serializeInput
  dsimp only
  generalize (if serializer.fAnyoneCanPay = true then serializer.nIn else nInput) = index
  cases serializer.txTo.vin[index]? with
  | none => rfl
  | some txin =>
    have zero : writeSigned 4 0 = leBytes 4 0 := by decide
    have flags : (serializer.fHashSingle = true ∨ serializer.fHashNone = true) ↔
        release = true := by
      rw [← single, Bool.or_eq_true]
    by_cases here : index = serializer.nIn
    · simp [changedInput, CTxIn.serialize, here, code]
    · by_cases others : release = true
      · simp [changedInput, CTxIn.serialize, here, flags, others, zero]
      · simp [changedInput, CTxIn.serialize, here, flags, others]

theorem inputs_eq (everyone : serializer.fAnyoneCanPay = false) :
    (List.range serializer.txTo.vin.length).mapM serializer.serializeInput =
      some ((serializer.txTo.vin.mapIdx (changedInput serializer.nIn scriptCode release)).map
        CTxIn.serialize) := by
  have looped := @mapM_range _ _ serializer.txTo.vin serializer.txTo.vin.length
    serializer.serializeInput
    (fun i txin => (changedInput serializer.nIn scriptCode release i txin).serialize)
    (Nat.le_refl _) fun i _ => by
      rw [serializeInput_eq code single i, everyone]
      rfl
  rw [looped, take_length, mapIdx_then_map]

theorem input_eq (alone : serializer.fAnyoneCanPay = true) {txin : CTxIn}
    (here : serializer.txTo.vin[serializer.nIn]? = some txin) :
    (List.range 1).mapM serializer.serializeInput =
      some ([changedInput serializer.nIn scriptCode release serializer.nIn txin].map
        CTxIn.serialize) := by
  have first : serializer.serializeInput 0 =
      some (changedInput serializer.nIn scriptCode release serializer.nIn txin).serialize := by
    rw [serializeInput_eq code single 0, alone, if_pos rfl, here]
    rfl
  simp [range_one, first]

end

/-! ## Outputs -/

theorem outputs_single (single : serializer.fHashSingle = true)
    (inside : serializer.nIn < serializer.txTo.vout.length) :
    (List.range (serializer.nIn + 1)).mapM serializer.serializeOutput =
      some (((serializer.txTo.vout.take (serializer.nIn + 1)).mapIdx fun i txout =>
        if i < serializer.nIn then .null else txout).map CTxOut.serialize) := by
  rw [mapIdx_then_map]
  refine mapM_range inside fun i small => ?_
  have held : i < serializer.txTo.vout.length := by omega
  unfold serializeOutput
  rw [getElem?_eq_getElem held]
  by_cases below : i < serializer.nIn
  · simp [single, below, Nat.ne_of_lt below]
  · have same : i = serializer.nIn := by omega
    simp [same]

theorem outputs_all (single : serializer.fHashSingle = false) :
    (List.range serializer.txTo.vout.length).mapM serializer.serializeOutput =
      some (serializer.txTo.vout.map CTxOut.serialize) := by
  have looped := @mapM_range _ _ serializer.txTo.vout serializer.txTo.vout.length
    serializer.serializeOutput (fun _ txout => txout.serialize) (Nat.le_refl _) fun i _ => by
      unfold serializeOutput
      rw [single]
      simp
  rw [looped, take_length]
  exact congrArg some (ext_getElem (by simp) fun i _ _ => by simp)

theorem serialize_eq {vin : List CTxIn} {vout : List CTxOut}
    (inputs : (List.range (if serializer.fAnyoneCanPay then 1
      else serializer.txTo.vin.length)).mapM serializer.serializeInput =
        some (vin.map CTxIn.serialize))
    (outputs : (List.range (if serializer.fHashNone then 0
      else if serializer.fHashSingle then serializer.nIn + 1
      else serializer.txTo.vout.length)).mapM serializer.serializeOutput =
        some (vout.map CTxOut.serialize))
    (vinSize : vin.length = if serializer.fAnyoneCanPay then 1 else serializer.txTo.vin.length)
    (voutSize : vout.length = if serializer.fHashNone then 0
      else if serializer.fHashSingle then serializer.nIn + 1
      else serializer.txTo.vout.length) :
    serializer.serialize = some { serializer.txTo with vin := vin, vout := vout }.serialize := by
  unfold serialize CTransaction.serialize writeVector
  dsimp only
  rw [inputs, outputs, ← vinSize, ← voutSize]
  simp [flatMap_def]

end Serializer

/-! ## The transaction that is signed -/

section Signed

variable (nIn : Nat) (nHashType : BitVec 32)

/-- The other inputs may be updated at will. -/
def releases : Bool :=
  decide (baseType nHashType = sighashSingle) || decide (baseType nHashType = sighashNone)

/-- The inputs that are signed, before the others are left out. -/
def signedInputs (scriptCode : CScript) (vin : List CTxIn) : List CTxIn :=
  vin.mapIdx (changedInput nIn scriptCode (releases nHashType))

def signedOutputs (vout : List CTxOut) : List CTxOut :=
  if baseType nHashType = sighashNone then []
  else if baseType nHashType = sighashSingle then
    (vout.take (nIn + 1)).mapIdx fun i txout => if i < nIn then .null else txout
  else vout

variable {nIn nHashType} {txTo : CTransaction} {scriptCode : CScript}

theorem trimOutputs_eq
    (inside : baseType nHashType = sighashSingle → nIn < txTo.vout.length) :
    trimOutputs nIn nHashType { txTo with vin := blankScripts nIn scriptCode txTo.vin } =
      some { txTo with
        vin := signedInputs nIn nHashType scriptCode txTo.vin
        vout := signedOutputs nIn nHashType txTo.vout } := by
  unfold trimOutputs signedInputs signedOutputs releases
  rw [blankScripts_eq]
  by_cases none : baseType nHashType = sighashNone
  · have other : sighashNone ≠ sighashSingle := by decide
    simp [none, other, releaseOthers_eq]
  · by_cases single : baseType nHashType = sighashSingle
    · have held := inside single
      have resized : resize txTo.vout (nIn + 1) CTxOut.null = txTo.vout.take (nIn + 1) := by
        have nothing : nIn + 1 - txTo.vout.length = 0 := by omega
        simp [resize, nothing]
      have other : sighashSingle ≠ sighashNone := by decide
      simp [single, other, releaseOthers_eq, resized, Nat.not_le.mpr held]
    · simp [none, single]

theorem serialize_signed (parses : scriptCode.parse.2 = []) {txin : CTxIn}
    (here : txTo.vin[nIn]? = some txin)
    (inside : baseType nHashType = sighashSingle → nIn < txTo.vout.length) :
    (make txTo scriptCode nIn nHashType).serialize =
      some { txTo with
        vin := if anyoneCanPay nHashType then
            [changedInput nIn (scriptCode.findAndDeleteFound [opCodeseparator]).1
              (releases nHashType) nIn txin]
          else
            signedInputs nIn nHashType (scriptCode.findAndDeleteFound [opCodeseparator]).1
              txTo.vin
        vout := signedOutputs nIn nHashType txTo.vout }.serialize := by
  have code := serializeScriptCode_eq
    (make txTo scriptCode nIn nHashType) parses
  have flags : ((make txTo scriptCode nIn nHashType).fHashSingle ||
      (make txTo scriptCode nIn nHashType).fHashNone) =
        releases nHashType := rfl
  apply serialize_eq
  · -- the inputs
    by_cases alone : anyoneCanPay nHashType = true
    · rw [if_pos alone]
      simpa [make, alone] using input_eq code flags alone here
    · rw [if_neg alone]
      have everyone := Bool.eq_false_of_not_eq_true alone
      simpa [make, everyone, signedInputs] using
        inputs_eq code flags everyone
  · -- the outputs
    unfold signedOutputs
    by_cases none : baseType nHashType = sighashNone
    · simp [make, none]
    · by_cases single : baseType nHashType = sighashSingle
      · have held := inside single
        have other : sighashSingle ≠ sighashNone := by decide
        have isSingle : (make txTo scriptCode nIn
            nHashType).fHashSingle = true := decide_eq_true single
        simpa [make, single, other] using
          outputs_single isSingle held
      · have notSingle : (make txTo scriptCode nIn
            nHashType).fHashSingle = false := decide_eq_false single
        simpa [make, none, single] using outputs_all notSingle
  · by_cases alone : anyoneCanPay nHashType = true
    · simp [make, alone]
    · simp [make, alone, signedInputs]
  · unfold signedOutputs
    by_cases none : baseType nHashType = sighashNone
    · simp [make, none]
    · by_cases single : baseType nHashType = sighashSingle
      · have held := inside single
        have other : sighashSingle ≠ sighashNone := by decide
        simp [make, single, other]
        omega
      · simp [make, none, single]

theorem resize_one {vin : List CTxIn} {txin : CTxIn} (filled : 0 < vin.length) :
    resize (vin.set 0 txin) 1 { prevout := .null } = [txin] := by
  obtain ⟨first, rest, rfl⟩ := exists_cons_of_length_pos filled
  simp [resize]

end Signed

/-- For script code that `GetOp` reads to its end, the bytes that `SignatureHash` hashes are those
of the reference, and both return one for the same indices. -/
theorem signatureHash_eq_reference (scriptCode : CScript) (txTo : CTransaction) (nIn : Nat)
    (nHashType : BitVec 32) (parses : scriptCode.parse.2 = []) :
    signatureHash scriptCode txTo nIn nHashType = signatureHashOld scriptCode txTo nIn nHashType ∧
      (signatureHash scriptCode txTo nIn nHashType).isSome = true := by
  unfold signatureHash signatureHashOld
  by_cases outside : nIn ≥ txTo.vin.length
  · rw [if_pos outside, if_pos outside]
    exact ⟨rfl, rfl⟩
  rw [if_neg outside, if_neg outside]
  have held : nIn < txTo.vin.length := Nat.lt_of_not_le outside
  by_cases noOutput : baseType nHashType = sighashSingle ∧ nIn ≥ txTo.vout.length
  · have other : sighashSingle ≠ sighashNone := by decide
    rw [if_pos noOutput]
    have trimmed : trimOutputs nIn nHashType { txTo with
        vin := blankScripts nIn (scriptCode.findAndDeleteFound [opCodeseparator]).1 txTo.vin } =
          none := by
      simp [trimOutputs, noOutput.1, other, noOutput.2]
    dsimp only
    rw [trimmed]
    exact ⟨rfl, rfl⟩
  rw [if_neg noOutput]
  have inside : baseType nHashType = sighashSingle → nIn < txTo.vout.length :=
    fun single => Nat.lt_of_not_le fun beyond => noOutput ⟨single, beyond⟩
  obtain ⟨txin, here⟩ : ∃ txin, txTo.vin[nIn]? = some txin := ⟨_, getElem?_eq_getElem held⟩
  dsimp only
  rw [trimOutputs_eq inside, serialize_signed parses here inside]
  by_cases alone : anyoneCanPay nHashType = true
  · have read : (signedInputs nIn nHashType (scriptCode.findAndDeleteFound [opCodeseparator]).1
        txTo.vin)[nIn]? = some (changedInput nIn
          (scriptCode.findAndDeleteFound [opCodeseparator]).1 (releases nHashType) nIn txin) := by
      simp [signedInputs, here]
    have filled : 0 < (signedInputs nIn nHashType
        (scriptCode.findAndDeleteFound [opCodeseparator]).1 txTo.vin).length := by
      simp [signedInputs]
      omega
    simp [alone, read, resize_one filled]
  · simp [alone]

/-- Two inputs and two outputs. -/
def signedSample : CTransaction where
  hash := 0
  vin := [{ prevout := ⟨5, 0⟩ }, { prevout := ⟨6, 1⟩, scriptSig := [0x51], nSequence := 9 }]
  vout := [⟨10, [0x51]⟩, ⟨20, [0x52]⟩]

/-- The second input alone, with the output beside it, and code separators in the script. -/
theorem signatureHash_eq_reference_sample :
    signatureHash [0xab, 0x51, 0xab, 0xac] signedSample 1 0x83 =
        signatureHashOld [0xab, 0x51, 0xab, 0xac] signedSample 1 0x83 ∧
      (signatureHash [0xab, 0x51, 0xab, 0xac] signedSample 1 0x83).isSome = true :=
  signatureHash_eq_reference [0xab, 0x51, 0xab, 0xac] signedSample 1 0x83 (by decide +kernel)

end CentNode
