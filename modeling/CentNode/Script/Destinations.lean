import CentNode.Masternode.Broadcasts
import CentNode.Script.StandardForms
import CentNode.Validation.ReceivedBlock

/-!
# Destinations

`GetScriptForMultisig`, `GetScriptForDestination` and `ExtractDestination`.  What the
builders put into a script is what `Solver` and `ExtractDestination` take out of it.
-/

namespace CentNode

open CScript

abbrev CScriptID : Type := { bytes : List UInt8 // bytes.length = 20 }

inductive CTxDestination where
  | noDestination
  | keyID (address : CKeyID)
  | scriptID (address : CScriptID)
  deriving DecidableEq, Repr

def CTxDestination.getScriptForDestination : CTxDestination → CScript
  | .noDestination => []
  | .keyID address => CentNode.getScriptForDestination address
  | .scriptID address => [opHash160] ++ CScript.pushData address.val ++ [opEqual]

/-- `GetScriptForMultisig`; `none` where an assertion of `EncodeOP_N` fails. -/
def getScriptForMultisig (nRequired : Int) (keys : List CPubKey) : Option CScript := do
  let required ← encodeOPN nRequired
  let size ← encodeOPN (toInt32 keys.length)
  return required :: (keys.flatMap CScript.pushData ++ [size, opCheckmultisig])

/-- `uint160` of a vector; `none` where its assertion on the size fails. -/
def uint160OfBytes (vch : List UInt8) : Option CKeyID :=
  if sized : vch.length = 20 then some ⟨vch, sized⟩ else none

/-- `ExtractDestination`, with the destination it overwrites; `none` where a vector is read
outside its bounds or an assertion fails. -/
def extractDestination (hash160 : List UInt8 → CKeyID) (scriptPubKey : CScript)
    (addressRet : CTxDestination) : Option (Bool × CTxDestination) := do
  let solved ← solver scriptPubKey
  if solved.found then
    match solved.typeRet with
    | .pubkey =>
      let vch ← solved.vSolutions[0]?
      if pubKeyValid vch then return (true, .keyID (hash160 vch)) else return (false, addressRet)
    | .pubkeyhash =>
      let vch ← solved.vSolutions[0]?
      let keyID ← uint160OfBytes vch
      return (true, .keyID keyID)
    | .scripthash =>
      let vch ← solved.vSolutions[0]?
      let scriptID ← uint160OfBytes vch
      return (true, .scriptID scriptID)
    | _ => return (false, addressRet)
  else return (false, addressRet)

/-! ## The builders -/

theorem keySized_of_valid {key : CPubKey} (valid : pubKeyValid key = true) : KeySized key := by
  cases key with
  | nil => cases valid
  | cons chHeader rest =>
    have sized : pubKeyLength chHeader ≠ 0 ∧ pubKeyLength chHeader = (chHeader :: rest).length :=
      of_decide_eq_true valid
    unfold KeySized
    rw [← sized.2]
    revert sized
    unfold pubKeyLength
    split_ifs <;> simp

variable {keys : List CPubKey}

theorem pubKeys_read (valid : ∀ key ∈ keys, pubKeyValid key = true) (more : CScript) :
    ∃ pushes, pushes.map Prod.snd = keys ∧ (∀ push ∈ pushes, KeySized push.2) ∧
      ReadsAs (keys.flatMap pushData ++ more) pushes more := by
  induction keys with
  | nil => exact ⟨[], rfl, by simp, rfl⟩
  | cons key rest ih =>
    obtain ⟨pushes, same, sized, reads⟩ :=
      ih fun other member => valid other (List.mem_cons_of_mem _ member)
    have keySized := keySized_of_valid (valid key List.mem_cons_self)
    have small : key.length < 2 ^ 32 := Nat.lt_of_le_of_lt keySized.2 (by decide)
    obtain ⟨opcode, _, read⟩ := getOp_pushData small (rest.flatMap pushData ++ more)
    refine ⟨(opcode, key) :: pushes, by simp [same], List.forall_mem_cons.mpr ⟨keySized, sized⟩,
      rest.flatMap pushData ++ more, ?_, reads⟩
    simpa using read

theorem encodeOPN_isSome {n : Int} (low : 0 ≤ n) (high : n ≤ 16) :
    ∃ opcode, encodeOPN n = some opcode := by
  unfold encodeOPN
  rw [if_pos ⟨low, high⟩]
  split_ifs
  · exact ⟨_, rfl⟩
  · exact ⟨_, rfl⟩

/-- A script made for several keys is of the form that asks for them. -/
theorem getScriptForMultisig_form {m : Nat} {keys : List CPubKey}
    (valid : ∀ key ∈ keys, pubKeyValid key = true) (positive : 1 ≤ m)
    (ordered : m ≤ keys.length) (few : keys.length ≤ 16) :
    ∃ script, getScriptForMultisig m keys = some script ∧
      StandardForm script .multisig
        ([UInt8.ofNat m] :: (keys ++ [[UInt8.ofNat keys.length]])) := by
  obtain ⟨opM, encodedM⟩ := @encodeOPN_isSome m (by omega) (by omega)
  obtain ⟨opN, encodedN⟩ := @encodeOPN_isSome keys.length (by omega) (by omega)
  have range : toInt32 (keys.length : Int) = keys.length := toInt32_of_range (by omega) (by omega)
  obtain ⟨pushes, same, sized, reads⟩ := pubKeys_read valid [opN, opCheckmultisig]
  have countedN : opPushdata4 < opN := by
    obtain ⟨_, _, high⟩ := decodeOPN_encodeOPN few encodedN
    exact UInt8.lt_of_lt_of_le (by decide) (high (Nat.le_trans positive ordered)).1
  have countedM : opPushdata4 < opM := by
    obtain ⟨_, _, high⟩ := decodeOPN_encodeOPN (Nat.le_trans ordered few) encodedM
    exact UInt8.lt_of_lt_of_le (by decide) (high positive).1
  refine ⟨opM :: (keys.flatMap pushData ++ [opN, opCheckmultisig]), ?_, ?_⟩
  · simp [getScriptForMultisig, range, encodedM, encodedN]
  · have length : pushes.length = keys.length := by rw [← same, List.length_map]
    have form := @StandardForm.multisig _ m keys.length opM opN pushes positive ordered few
      encodedM encodedN length sized
      ⟨_, (getOp_plain countedM).mpr ⟨rfl, rfl⟩, reads.append
        ⟨_, (getOp_plain countedN).mpr ⟨rfl, rfl⟩, _,
          (getOp_plain (by decide)).mpr ⟨rfl, rfl⟩, rfl⟩⟩
    rw [same] at form
    exact form

theorem pushData_twenty {vch : List UInt8} (sized : vch.length = 20) :
    pushData vch = 20 :: vch := by
  simp [pushData, sized, opPushdata1]

theorem keyID_form (keyID : CKeyID) :
    StandardForm (getScriptForDestination keyID) .pubkeyhash [keyID.val] := by
  have small : keyID.val.length < 2 ^ 32 := by rw [keyID.property]; decide
  obtain ⟨opcode, _, read⟩ := getOp_pushData small [opEqualverify, opChecksig]
  rw [pushData_twenty keyID.property] at read
  exact @StandardForm.pubkeyhash _ opcode _ keyID.property
    ⟨_, (getOp_plain (by decide)).mpr ⟨rfl, rfl⟩, _,
      (getOp_plain (by decide)).mpr ⟨rfl, rfl⟩, _, read, _,
      (getOp_plain (by decide)).mpr ⟨rfl, rfl⟩, _,
      (getOp_plain (by decide)).mpr ⟨rfl, rfl⟩, rfl⟩

theorem scriptID_form (scriptID : CScriptID) :
    StandardForm (CTxDestination.scriptID scriptID).getScriptForDestination .scripthash
      [scriptID.val] := by
  have form := StandardForm.scripthash scriptID.property
  simpa [CTxDestination.getScriptForDestination, pushData_twenty scriptID.property] using form

theorem uint160OfBytes_val (keyID : CKeyID) : uint160OfBytes keyID.val = some keyID := by
  unfold uint160OfBytes
  rw [dif_pos keyID.property]

theorem extractDestination_getScript (hash160 : List UInt8 → CKeyID) (dest : CTxDestination) :
    extractDestination hash160 dest.getScriptForDestination .noDestination =
      some (decide (dest ≠ .noDestination), dest) := by
  cases dest with
  | noDestination => rfl
  | keyID keyID =>
    have solved := (keyID_form keyID).solved
    have read := uint160OfBytes_val keyID
    simp [extractDestination, CTxDestination.getScriptForDestination, solved, read]
  | scriptID scriptID =>
    have solved := (scriptID_form scriptID).solved
    have read := uint160OfBytes_val scriptID
    simp [extractDestination, solved, read]

theorem encodeOPN_range {n : Int} {opcode : UInt8} (encoded : encodeOPN n = some opcode) :
    0 ≤ n ∧ n ≤ 16 := by
  unfold encodeOPN at encoded
  split at encoded
  case isTrue range => exact range
  case isFalse => cases encoded

theorem StandardForm.multisig_ordered {script : CScript} {m n : Nat}
    (form : StandardForm script .multisig ([UInt8.ofNat m] :: (keys ++ [[UInt8.ofNat n]])))
    (small : m ≤ 16) : 1 ≤ m ∧ m ≤ keys.length := by
  obtain ⟨_, valid⟩ := multisig_form_iff.mpr form
  obtain ⟨positive, _, ordered, counted⟩ := (multisigValid_eq _ _ _).mp valid
  have value : (UInt8.ofNat m).toNat = m := by simp; omega
  rw [UInt8.le_iff_toNat_le, value] at positive ordered
  exact ⟨positive, counted ▸ ordered⟩

theorem getScriptForMultisig_solved_iff {m : Int} (valid : ∀ key ∈ keys, pubKeyValid key = true)
    (few : keys.length ≤ 16) :
    (∃ script, getScriptForMultisig m keys = some script ∧
      solver script = some ⟨true, .multisig,
        [UInt8.ofNat m.toNat] :: (keys ++ [[UInt8.ofNat keys.length]])⟩) ↔
      1 ≤ m ∧ m ≤ keys.length := by
  constructor
  · rintro ⟨script, built, solved⟩
    obtain ⟨opM, encodedM, _⟩ := Option.bind_eq_some_iff.mp built
    obtain ⟨low, high⟩ := encodeOPN_range encodedM
    have ordered := (solver_sound solved).multisig_ordered (by omega)
    omega
  · rintro ⟨positive, ordered⟩
    obtain ⟨script, built, form⟩ := @getScriptForMultisig_form m.toNat keys valid (by omega)
      (by omega) few
    rw [Int.toNat_of_nonneg (by omega)] at built
    exact ⟨script, built, form.solved⟩

/-- `Solver` finds exactly the five forms, which exclude one another, and what the builders
put into a script is what is found in it. -/
theorem solver_exact (hash160 : List UInt8 → CKeyID) :
    (∀ script type solutions,
      solver script = some ⟨true, type, solutions⟩ ↔ StandardForm script type solutions) ∧
    (∀ script first second solutions solutions', StandardForm script first solutions →
      StandardForm script second solutions' → first = second ∧ solutions = solutions') ∧
    (∀ (m : Int) (keys : List CPubKey), (∀ key ∈ keys, pubKeyValid key = true) →
      keys.length ≤ 16 →
        ((∃ script, getScriptForMultisig m keys = some script ∧
          solver script = some ⟨true, .multisig,
            [UInt8.ofNat m.toNat] :: (keys ++ [[UInt8.ofNat keys.length]])⟩) ↔
          1 ≤ m ∧ m ≤ keys.length)) ∧
    ∀ dest : CTxDestination,
      extractDestination hash160 dest.getScriptForDestination .noDestination =
        some (decide (dest ≠ .noDestination), dest) := by
  refine ⟨fun script type solutions => ⟨solver_sound, StandardForm.solved⟩, ?_, ?_,
    extractDestination_getScript hash160⟩
  · intro script first second solutions solutions' form form'
    have same := form.solved.symm.trans form'.solved
    cases same
    exact ⟨rfl, rfl⟩
  · intro m keys valid few
    exact getScriptForMultisig_solved_iff valid few

/-- A script for one of two keys. -/
theorem solver_exact_sample :
    ∃ script, getScriptForMultisig 1 [2 :: List.replicate 32 7, 3 :: List.replicate 32 9] =
        some script ∧
      solver script = some ⟨true, .multisig,
        [[1], 2 :: List.replicate 32 7, 3 :: List.replicate 32 9, [2]]⟩ :=
  ((solver_exact fun _ => ⟨List.replicate 20 0, rfl⟩).2.2.1 1
    [2 :: List.replicate 32 7, 3 :: List.replicate 32 9] (by decide) (by decide)).mpr
    (by decide)

end CentNode
