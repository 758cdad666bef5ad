import CentNode.Script.Destinations
import CentNode.Script.SignatureHash
import CentNode.Script.StraightRuns
import CentNode.Validation.BlockSigning

/-!
# Signing an input

`Sign1`, `SignN`, `Solver` and `SignSignature` of `script/sign.cpp` over a key store, the
checker of signatures in a transaction, and `CombineSignatures`.
-/

namespace CentNode

/-- What the signatures of a transaction are verified with. -/
structure TransactionVerifier where
  /-- `CHashWriter::GetHash`. -/
  hash256 : List UInt8 → Uint256
  /-- `CPubKey::Verify`. -/
  verify : CPubKey → Uint256 → List UInt8 → Bool

namespace TransactionVerifier

variable (verifier : TransactionVerifier)

def sighash (scriptCode : CScript) (txTo : CTransaction) (nIn : Nat) (nHashType : BitVec 32) :
    Option Uint256 := do
  match ← signatureHash scriptCode txTo nIn nHashType with
  | .one => return 1
  | .hashOf bytes => return verifier.hash256 bytes

def checkSig (txTo : CTransaction) (nIn : Nat) : SignatureChecker :=
  fun vchSigIn vchPubKey scriptCode =>
    if pubKeyValid vchPubKey then
      match vchSigIn.getLast? with
      | none => false
      | some back =>
        match verifier.sighash scriptCode txTo nIn (BitVec.ofNat 32 back.toNat) with
        | none => false
        | some sighash => verifier.verify vchPubKey sighash vchSigIn.dropLast
    else false

end TransactionVerifier

/-- A key store with redeem scripts beside its keys, and the functions that its scripts are
verified with. -/
structure SigningStore (CKey : Type) extends KeyStore CKey where
  hashes : ScriptHashes
  verifier : TransactionVerifier
  getCScript : CScriptID → Option CScript
  /-- Identifiers are made as `OP_HASH160` does it. -/
  hash160_val : ∀ vch, (hash160 vch).val = hashes.ripemd160 (hashes.sha256 vch)

/-- `txTo.vin[nIn].scriptSig = scriptSig`. -/
def CTransaction.setScriptSig (txTo : CTransaction) (nIn : Nat) (scriptSig : CScript) :
    CTransaction :=
  { txTo with vin := txTo.vin.modify nIn fun txin => { txin with scriptSig := scriptSig } }

/-- A signature with its hash type. -/
def withHashType (vchSig : List UInt8) (nHashType : BitVec 32) : Valtype :=
  vchSig ++ [UInt8.ofNat nHashType.toNat]

namespace SigningStore

variable {CKey : Type} (store : SigningStore CKey)

/-- `Sign1`, with the script that it appends to. -/
def sign1 (address : CKeyID) (hash : Uint256) (nHashType : BitVec 32) (scriptSigRet : CScript) :
    Bool × CScript :=
  match store.getKey address with
  | none => (false, scriptSigRet)
  | some key =>
    if store.fValid key then
      (true, scriptSigRet ++ CScript.pushData (withHashType (store.ecdsaSign key hash) nHashType))
    else (false, scriptSigRet)

/-- The loop of `SignN`. -/
def signKeys (nRequired : Nat) (hash : Uint256) (nHashType : BitVec 32) :
    List CPubKey → Nat → CScript → Nat × CScript
  | [], nSigned, scriptSigRet => (nSigned, scriptSigRet)
  | pubkey :: rest, nSigned, scriptSigRet =>
    if nSigned < nRequired then
      let signed := store.sign1 (store.getID pubkey) hash nHashType scriptSigRet
      signKeys nRequired hash nHashType rest (if signed.1 then nSigned + 1 else nSigned) signed.2
    else (nSigned, scriptSigRet)

/-- `SignN`; `none` where the number of signatures is read outside a vector. -/
def signN (multisigdata : List Valtype) (hash : Uint256) (nHashType : BitVec 32)
    (scriptSigRet : CScript) : Option (Bool × CScript) := do
  let front ← multisigdata.head?
  let nRequired ← front[0]?
  let signed := store.signKeys nRequired.toNat hash nHashType multisigdata.tail.dropLast 0
    scriptSigRet
  return (decide (signed.1 = nRequired.toNat), signed.2)

/-- `GetPubKey` into a public key that is not valid. -/
def lookupPubKey (address : CKeyID) : CPubKey := ((store.getKey address).map store.getPubKey).getD []

/-- What `Solver` returns and writes. -/
structure SignedScript where
  solved : Bool
  scriptSigRet : CScript
  whichTypeRet : Txnouttype
  deriving DecidableEq, Repr

/-- `Solver`; `none` where a vector is read outside its bounds or an assertion fails. -/
def solver (scriptPubKey : CScript) (hash : Uint256) (nHashType : BitVec 32) :
    Option SignedScript := do
  let found ← CentNode.solver scriptPubKey
  if found.found then
    match found.typeRet with
    | .nonstandard => return ⟨false, [], .nonstandard⟩
    | .nullData => return ⟨false, [], .nullData⟩
    | .pubkey =>
      let vch ← found.vSolutions[0]?
      let signed := store.sign1 (store.getID vch) hash nHashType []
      return ⟨signed.1, signed.2, .pubkey⟩
    | .pubkeyhash =>
      let vch ← found.vSolutions[0]?
      let keyID ← uint160OfBytes vch
      let signed := store.sign1 keyID hash nHashType []
      if signed.1 then
        return ⟨true, signed.2 ++ CScript.pushData (store.lookupPubKey keyID), .pubkeyhash⟩
      else return ⟨false, signed.2, .pubkeyhash⟩
    | .scripthash =>
      let vch ← found.vSolutions[0]?
      let scriptID ← uint160OfBytes vch
      match store.getCScript scriptID with
      | none => return ⟨false, [], .scripthash⟩
      | some redeemScript => return ⟨true, redeemScript, .scripthash⟩
    | .multisig =>
      -- one element more than the opcode needs
      let signed ← store.signN found.vSolutions hash nHashType [0x00]
      return ⟨signed.1, signed.2, .multisig⟩
  else return ⟨false, [], found.typeRet⟩

/-- `VerifyScript` of an input with the standard flags. -/
def verifies (txTo : CTransaction) (nIn : Nat) (scriptSig scriptPubKey : CScript) : Bool :=
  (verifyScript store.hashes (store.verifier.checkSig txTo nIn) .standard scriptSig
    scriptPubKey).isOk

/-- `SignSignature`: its result, and the transaction that it leaves. -/
def signSignature (fromPubKey : CScript) (txTo : CTransaction) (nIn : Nat)
    (nHashType : BitVec 32) : Option (Bool × CTransaction) :=
  if nIn < txTo.vin.length then do
    let hash ← store.verifier.sighash fromPubKey txTo nIn nHashType
    let signed ← store.solver fromPubKey hash nHashType
    let txTo := txTo.setScriptSig nIn signed.scriptSigRet
    if signed.solved = false then return (false, txTo)
    else if signed.whichTypeRet = .scripthash then
      let subscript := signed.scriptSigRet
      let hash2 ← store.verifier.sighash subscript txTo nIn nHashType
      let inner ← store.solver subscript hash2 nHashType
      let scriptSig := inner.scriptSigRet ++ CScript.pushData subscript
      let txTo := txTo.setScriptSig nIn scriptSig
      if inner.solved = true ∧ inner.whichTypeRet ≠ .scripthash then
        return (store.verifies txTo nIn scriptSig fromPubKey, txTo)
      else return (false, txTo)
    else return (store.verifies txTo nIn signed.scriptSigRet fromPubKey, txTo)
  else none

end SigningStore

/-! The scripts that `CombineSignatures` combines are scripts of pushes; the values that they
leave on a stack are vectors here, the oldest first. -/

/-! ## The values of a script -/

/-- What an instruction of a script of pushes puts on the stack; none is there for
`OP_RESERVED`. -/
def pushedBy (opcode : UInt8) (vchPushValue : Valtype) : Option Valtype :=
  if opcode ≤ opPushdata4 then some vchPushValue
  else if opcode = 0x4f ∨ (opN1 ≤ opcode ∧ opcode ≤ opN16) then some (pushedNumber opcode)
  else none

/-- The loop of `EvalScript` over a script of pushes: the stack, also where it fails. -/
def evalPushes (stack : List Valtype) (pc : CScript) : List Valtype :=
  match _read : CScript.getOp pc with
  | none => stack
  | some (opcode, vchPushValue, rest) =>
    if vchPushValue.length > maxScriptElementSize then stack
    else
      match pushedBy opcode vchPushValue with
      | none => stack
      | some value =>
        if stack.length + 1 > 1000 then value :: stack else evalPushes (value :: stack) rest
termination_by pc.length
decreasing_by exact CScript.getOp_length_lt _read

/-- The stack that `EvalScript` leaves of a script of pushes, whatever it returns. -/
def valuesLeft (script : CScript) : List Valtype :=
  if script.length > 10000 then [] else (evalPushes [] script).reverse

def pushAll (values : List Valtype) : CScript := values.flatMap CScript.pushData

/-! ## Several signatures -/

/-- `insert` into a `set<valtype>`, in the order of its iterators. -/
def insertValue (value : Valtype) : List Valtype → List Valtype
  | [] => [value]
  | first :: rest =>
    if value < first then value :: first :: rest
    else if first < value then first :: insertValue value rest
    else first :: rest

def allSignatures (sigs1 sigs2 : List Valtype) : List Valtype :=
  ((sigs1 ++ sigs2).filter (· ≠ [])).foldl (fun allsigs v => insertValue v allsigs) []

namespace TransactionVerifier

variable (verifier : TransactionVerifier) (txTo : CTransaction) (nIn : Nat)

/-- The loop that finds the public key for a signature. -/
def matchKey (scriptPubKey : CScript) (sig : Valtype) : List Valtype → StdMap Valtype Valtype → StdMap Valtype Valtype
  | [], sigs => sigs
  | pubkey :: rest, sigs =>
    if (sigs.lookup pubkey).isSome then matchKey scriptPubKey sig rest sigs
    else if verifier.checkSig txTo nIn sig pubkey scriptPubKey then sigs.insert pubkey sig
    else matchKey scriptPubKey sig rest sigs

/-- The loop that appends the signatures in the order of the keys. -/
def mergeSignatures (nSigsRequired : Nat) (sigs : StdMap Valtype Valtype) :
    List Valtype → Nat → CScript → Nat × CScript
  | [], nSigsHave, result => (nSigsHave, result)
  | pubkey :: rest, nSigsHave, result =>
    if nSigsHave < nSigsRequired then
      match sigs.lookup pubkey with
      | some sig =>
        mergeSignatures nSigsRequired sigs rest (nSigsHave + 1) (result ++ CScript.pushData sig)
      | none => mergeSignatures nSigsRequired sigs rest nSigsHave result
    else (nSigsHave, result)

/-- `CombineMultisig`; `none` where its assertion fails or a vector is read outside its
bounds. -/
def combineMultisig (scriptPubKey : CScript) (vSolutions sigs1 sigs2 : List Valtype) :
    Option CScript :=
  if vSolutions.length > 1 then do
    let front ← vSolutions.head?
    let nSigsRequired ← front[0]?
    let pubkeys := vSolutions.tail.dropLast
    let sigs := (allSignatures sigs1 sigs2).foldl
      (fun sigs sig => verifier.matchKey txTo nIn scriptPubKey sig pubkeys sigs) ∅
    let merged := mergeSignatures nSigsRequired.toNat sigs pubkeys 0 [0x00]
    return merged.2 ++ List.replicate (nSigsRequired.toNat - merged.1) 0x00
  else none

/-- `CombineSignatures` of values; `none` as in `CombineMultisig` and in `Solver`. -/
def combineValues (scriptPubKey : CScript) (txType : Txnouttype)
    (vSolutions sigs1 sigs2 : List Valtype) : Option CScript :=
  match txType with
  | .nonstandard | .nullData =>
    some (if sigs1.length ≥ sigs2.length then pushAll sigs1 else pushAll sigs2)
  | .pubkey | .pubkeyhash => some (if sigs1.headD [] = [] then pushAll sigs2 else pushAll sigs1)
  | .scripthash =>
    if _last : sigs1.getLastD [] = [] then some (pushAll sigs2)
    else if sigs2.getLastD [] = [] then some (pushAll sigs1)
    else do
      let spk := sigs1.getLastD []
      let solved ← solver spk
      let result ← combineValues spk solved.typeRet solved.vSolutions sigs1.dropLast
        sigs2.dropLast
      return result ++ CScript.pushData spk
  | .multisig => combineMultisig verifier txTo nIn scriptPubKey vSolutions sigs1 sigs2
termination_by sigs1.length
decreasing_by
  cases sigs1 with
  | nil => exact absurd rfl _last
  | cons _ _ => simp

def combineSignatures (scriptPubKey scriptSig1 scriptSig2 : CScript) : Option CScript := do
  let solved ← solver scriptPubKey
  combineValues verifier txTo nIn scriptPubKey solved.typeRet solved.vSolutions
    (valuesLeft scriptSig1) (valuesLeft scriptSig2)

end TransactionVerifier

end CentNode
