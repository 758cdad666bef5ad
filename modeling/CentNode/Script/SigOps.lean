import CentNode.Coins.FlatCoins
import CentNode.Primitives.Standard

/-!
# Signature operations

`CScript::GetSigOpCount` of `script.cpp`, and the counts of `main.cpp` over a
transaction: in its own scripts, and in the scripts that its inputs redeem.
-/

namespace CentNode

def opChecksigverify : UInt8 := 0xad

def opCheckmultisigverify : UInt8 := 0xaf

namespace CScript

/-- What one opcode counts; `OP_1` to `OP_16` before it say how many keys there are. -/
def opcodeSigOps (fAccurate : Bool) (lastOpcode opcode : UInt8) : Nat :=
  if opcode = opChecksig ∨ opcode = opChecksigverify then 1
  else if opcode = opCheckmultisig ∨ opcode = opCheckmultisigverify then
    if fAccurate && decide (opN1 ≤ lastOpcode) && decide (lastOpcode ≤ opN16) then
      (decodeOPN lastOpcode).toNat
    else 20
  else 0

/-- The loop of `GetSigOpCount`; every opcode takes a byte at least. -/
def sigOpsFrom (fAccurate : Bool) : Nat → UInt8 → CScript → Nat
  | 0, _, _ => 0
  | bytes + 1, lastOpcode, pc =>
    match getOp pc with
    | none => 0
    | some (opcode, _, rest) =>
      opcodeSigOps fAccurate lastOpcode opcode + sigOpsFrom fAccurate bytes opcode rest

def getSigOpCount (script : CScript) (fAccurate : Bool) : Nat :=
  sigOpsFrom fAccurate script.length opInvalidopcode script

/-- The last item that a script pushes; `none` where it does not only push. -/
def lastPush : Nat → List UInt8 → CScript → Option (List UInt8)
  | 0, data, _ => some data
  | bytes + 1, data, pc =>
    if pc.isEmpty then some data
    else
      match getOp pc with
      | none => none
      | some (opcode, pushed, rest) => if opcode > opN16 then none else lastPush bytes pushed rest

def getSigOpCountWith (scriptPubKey scriptSig : CScript) : Nat :=
  if !scriptPubKey.isPayToScriptHash then getSigOpCount scriptPubKey true
  else
    match lastPush scriptSig.length [] scriptSig with
    | none => 0
    | some data => getSigOpCount data true

end CScript

def getLegacySigOpCount (tx : CTransaction) : Nat :=
  (tx.vin.map fun txin => CScript.getSigOpCount txin.scriptSig false).sum +
    (tx.vout.map fun txout => CScript.getSigOpCount txout.scriptPubKey false).sum

/-- What the output of one input counts in `GetP2SHSigOpCount`. -/
def inputSigOps (scriptSig : CScript) (prevout : Option CTxOut) : Nat :=
  match prevout with
  | none => 0
  | some txout =>
    if txout.scriptPubKey.isPayToScriptHash then
      CScript.getSigOpCountWith txout.scriptPubKey scriptSig
    else 0

def getP2SHSigOpCount (tx : CTransaction) (outputFor : CTxIn → Option CTxOut) : Nat :=
  if tx.isCoinBase then 0
  else (tx.vin.map fun txin => inputSigOps txin.scriptSig (outputFor txin)).sum

theorem getP2SHSigOpCount_congr {tx : CTransaction} {first second : CTxIn → Option CTxOut}
    (same : tx.isCoinBase = false → ∀ txin ∈ tx.vin, first txin = second txin) :
    getP2SHSigOpCount tx first = getP2SHSigOpCount tx second := by
  unfold getP2SHSigOpCount
  split
  · rfl
  · next spends =>
      refine congrArg List.sum (List.map_congr_left fun txin member => ?_)
      rw [same (by simpa using spends) txin member]

end CentNode
