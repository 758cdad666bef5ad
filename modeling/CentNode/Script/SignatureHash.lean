import CentNode.Primitives.TransactionFormat
import CentNode.Script.Deletion

/-!
# Signature hashes

`SignatureHash` of `script/interpreter.cpp` streams a transaction with the changes that the
hash type asks for, and never builds the changed transaction.  The reference construction of
`test/sighash_tests.cpp` changes a copy and serializes it.
-/

namespace CentNode

open Wire

/-! ## Hash types -/

def opCodeseparator : UInt8 := 0xab

def sighashNone : BitVec 32 := 2

def sighashSingle : BitVec 32 := 3

def sighashAnyonecanpay : BitVec 32 := 0x80

def baseType (nHashType : BitVec 32) : BitVec 32 := nHashType &&& 0x1f

def anyoneCanPay (nHashType : BitVec 32) : Bool := decide (nHashType &&& sighashAnyonecanpay ≠ 0)

/-- What is returned: the number one, or the hash of some bytes. -/
inductive SignatureDigest where
  | one
  | hashOf (bytes : List UInt8)
  deriving DecidableEq, Repr

/-! ## The serializer -/

namespace CScript

/-- Where `GetOp` leaves its iterator when it fails: past the opcode and the size of its operand,
as far as they are there. -/
def failedAt : CScript → CScript
  | [] => []
  | opcode :: pc =>
    if opcode ≤ opPushdata4 then
      match operandSize opcode pc with
      | none => pc
      | some (_, pc) => pc
    else pc

/-- The first loop of `SerializeScriptCode`. -/
def countCodeSeparators (it : CScript) : Nat :=
  match _read : getOp it with
  | none => 0
  | some (opcode, _, rest) => (if opcode = opCodeseparator then 1 else 0) + countCodeSeparators rest
termination_by it.length
decreasing_by exact getOp_length_lt _read

/-- The second loop, with what is written after it.  An iterator is the script from it on. -/
def writeSegments (itBegin it : CScript) : List UInt8 :=
  match _read : getOp it with
  | none => if itBegin.isEmpty then [] else itBegin.take (itBegin.length - (failedAt it).length)
  | some (opcode, _, rest) =>
    if opcode = opCodeseparator then
      itBegin.take (itBegin.length - rest.length - 1) ++ writeSegments rest rest
    else writeSegments itBegin rest
termination_by it.length
decreasing_by
  · exact getOp_length_lt _read
  · exact getOp_length_lt _read

end CScript

/-- A transaction that is serialized with changes. -/
structure CTransactionSignatureSerializer where
  txTo : CTransaction
  scriptCode : CScript
  nIn : Nat
  fAnyoneCanPay : Bool
  fHashSingle : Bool
  fHashNone : Bool

namespace CTransactionSignatureSerializer

def make (txTo : CTransaction) (scriptCode : CScript) (nIn : Nat) (nHashType : BitVec 32) :
    CTransactionSignatureSerializer where
  txTo := txTo
  scriptCode := scriptCode
  nIn := nIn
  fAnyoneCanPay := anyoneCanPay nHashType
  fHashSingle := baseType nHashType = sighashSingle
  fHashNone := baseType nHashType = sighashNone

variable (serializer : CTransactionSignatureSerializer)

def serializeScriptCode : List UInt8 :=
  let scriptCode := serializer.scriptCode
  writeCompactSize (scriptCode.length - scriptCode.countCodeSeparators) ++
    scriptCode.writeSegments scriptCode

/-- `SerializeInput`; `none` where an input is read outside the vector. -/
def serializeInput (nInput : Nat) : Option (List UInt8) := do
  let nInput := if serializer.fAnyoneCanPay then serializer.nIn else nInput
  let txin ← serializer.txTo.vin[nInput]?
  let script := if nInput ≠ serializer.nIn then writeBytes [] else serializer.serializeScriptCode
  let nSequence :=
    if nInput ≠ serializer.nIn ∧ (serializer.fHashSingle ∨ serializer.fHashNone) then
      writeSigned 4 0
    else leBytes 4 txin.nSequence
  return txin.prevout.serialize ++ (script ++ nSequence)

def serializeOutput (nOutput : Nat) : Option (List UInt8) :=
  if serializer.fHashSingle ∧ nOutput ≠ serializer.nIn then some CTxOut.null.serialize
  else serializer.txTo.vout[nOutput]?.map CTxOut.serialize

def serialize : Option (List UInt8) := do
  let nInputs := if serializer.fAnyoneCanPay then 1 else serializer.txTo.vin.length
  let inputs ← (List.range nInputs).mapM serializer.serializeInput
  let nOutputs :=
    if serializer.fHashNone then 0
    else if serializer.fHashSingle then serializer.nIn + 1
    else serializer.txTo.vout.length
  let outputs ← (List.range nOutputs).mapM serializer.serializeOutput
  return writeSigned 4 serializer.txTo.nVersion ++
    (writeCompactSize nInputs ++ inputs.flatten ++
      (writeCompactSize nOutputs ++ outputs.flatten ++ leBytes 4 serializer.txTo.nLockTime))

end CTransactionSignatureSerializer

def signatureHash (scriptCode : CScript) (txTo : CTransaction) (nIn : Nat)
    (nHashType : BitVec 32) : Option SignatureDigest :=
  if nIn ≥ txTo.vin.length then some .one
  else if baseType nHashType = sighashSingle ∧ nIn ≥ txTo.vout.length then some .one
  else do
    let bytes ← (CTransactionSignatureSerializer.make txTo scriptCode nIn nHashType).serialize
    return .hashOf (bytes ++ writeWord 4 nHashType)

/-! ## The reference -/

def resize {α : Type} (vector : List α) (size : Nat) (value : α) : List α :=
  vector.take size ++ List.replicate (size - vector.length) value

/-- A loop that gives the other inputs a sequence number of zero. -/
def releaseOthers (nIn : Nat) (vin : List CTxIn) : List CTxIn :=
  vin.mapIdx fun i txin => if i ≠ nIn then { txin with nSequence := 0 } else txin

/-- The inputs with the script code at one of them and no other scripts. -/
def blankScripts (nIn : Nat) (scriptCode : CScript) (vin : List CTxIn) : List CTxIn :=
  (vin.map fun txin => { txin with scriptSig := [] }).modify nIn
    fun txin => { txin with scriptSig := scriptCode }

/-- The changes for `SIGHASH_NONE` and `SIGHASH_SINGLE`; `none` where there is no output at the
index of the input. -/
def trimOutputs (nIn : Nat) (nHashType : BitVec 32) (txTmp : CTransaction) :
    Option CTransaction :=
  if baseType nHashType = sighashNone then
    some { txTmp with vout := [], vin := releaseOthers nIn txTmp.vin }
  else if baseType nHashType = sighashSingle then
    if nIn ≥ txTmp.vout.length then none
    else
      let vout := (resize txTmp.vout (nIn + 1) .null).mapIdx
        fun i txout => if i < nIn then .null else txout
      some { txTmp with vout := vout, vin := releaseOthers nIn txTmp.vin }
  else some txTmp

def signatureHashOld (scriptCode : CScript) (txTo : CTransaction) (nIn : Nat)
    (nHashType : BitVec 32) : Option SignatureDigest :=
  if nIn ≥ txTo.vin.length then some .one
  else
    let scriptCode := (scriptCode.findAndDeleteFound [opCodeseparator]).1
    let txTmp := { txTo with vin := blankScripts nIn scriptCode txTo.vin }
    match trimOutputs nIn nHashType txTmp with
    | none => some .one
    | some txTmp =>
      if anyoneCanPay nHashType then do
        let txin ← txTmp.vin[nIn]?
        let vin := resize (txTmp.vin.set 0 txin) 1 { prevout := .null }
        return .hashOf ({ txTmp with vin := vin }.serialize ++ writeWord 4 nHashType)
      else some (.hashOf (txTmp.serialize ++ writeWord 4 nHashType))

end CentNode
