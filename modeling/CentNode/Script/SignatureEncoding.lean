import CentNode.Script.Stack

/-!
# Encodings of signatures and keys

The checks of `script/interpreter.cpp` on the bytes of signatures, public keys
and pushes, and the comparison of `eccryptoverify.cpp` behind one of them.
-/

namespace CentNode

def isCompressedOrUncompressedPubKey (vchPubKey : Valtype) : Eval Bool :=
  if vchPubKey.length < 33 then .ok false
  else do
    let first ← byteAt vchPubKey 0
    if first = 0x04 then .ok (decide (vchPubKey.length = 65))
    else if first = 0x02 ∨ first = 0x03 then .ok (decide (vchPubKey.length = 33))
    else .ok false

/-- What `IsValidSignatureEncoding` checks of an integer that starts at an index: its tag
before the length, its size and its sign. -/
def validInteger (sig : Valtype) (start len : Nat) : Eval Bool := do
  let tag ← byteAt sig (start - 2)
  if tag ≠ 0x02 then .ok false
  else if len = 0 then .ok false
  else do
    let first ← byteAt sig start
    if first &&& 0x80 ≠ 0 then .ok false
    else if len > 1 ∧ first = 0x00 then do
      -- a null byte at the start must keep the number from being negative
      let second ← byteAt sig (start + 1)
      .ok (decide (second &&& 0x80 ≠ 0))
    else .ok true

def isValidSignatureEncoding (sig : Valtype) : Eval Bool :=
  if sig.length < 9 then .ok false
  else if sig.length > 73 then .ok false
  else do
    let compound ← byteAt sig 0
    if compound ≠ 0x30 then .ok false
    else do
      let total ← byteAt sig 1
      if total.toNat ≠ sig.length - 3 then .ok false
      else do
        let lenR ← byteAt sig 3
        if 5 + lenR.toNat ≥ sig.length then .ok false
        else do
          let lenS ← byteAt sig (5 + lenR.toNat)
          if lenR.toNat + lenS.toNat + 7 ≠ sig.length then .ok false
          else do
            let validR ← validInteger sig 4 lenR.toNat
            if !validR then .ok false
            else validInteger sig (lenR.toNat + 6) lenS.toNat

/-- The order of secp256k1's generator minus one, halved: `vchMaxModHalfOrder`. -/
def vchMaxModHalfOrder : List UInt8 :=
  [0x7F, 0xFF, 0xFF, 0xFF, 0xFF, 0xFF, 0xFF, 0xFF, 0xFF, 0xFF, 0xFF, 0xFF, 0xFF, 0xFF, 0xFF, 0xFF,
    0x5D, 0x57, 0x6E, 0x73, 0x57, 0xA4, 0x50, 0x1D, 0xDF, 0xE9, 0x2F, 0x46, 0x68, 0x1B, 0x20, 0xA0]

/-- `CompareBigEndian`: the bytes that only one number has are compared with zero. -/
def compareBigEndian : List UInt8 → List UInt8 → Int
  | [], [] => 0
  | byte :: c1, [] => if byte ≠ 0 then 1 else compareBigEndian c1 []
  | [], byte :: c2 => if byte ≠ 0 then -1 else compareBigEndian [] c2
  | first :: c1, second :: c2 =>
    if c1.length > c2.length then if first ≠ 0 then 1 else compareBigEndian c1 (second :: c2)
    else if c2.length > c1.length then if second ≠ 0 then -1 else compareBigEndian (first :: c1) c2
    else if first > second then 1
    else if second > first then -1
    else compareBigEndian c1 c2

/-- `CheckSignatureElement` with `half`. -/
def checkSignatureElement (vch : List UInt8) : Bool :=
  decide (compareBigEndian vch [] > 0) && decide (compareBigEndian vch vchMaxModHalfOrder ≤ 0)

def isLowDERSignature (vchSig : Valtype) : Eval Unit := do
  let valid ← isValidSignatureEncoding vchSig
  require (valid = true) .sigDer
  let nLenR ← byteAt vchSig 3
  let nLenS ← byteAt vchSig (5 + nLenR.toNat)
  let s ← bytesAt vchSig (6 + nLenR.toNat) nLenS.toNat
  require (checkSignatureElement s = true) .sigHighS

/-- `IsDefinedHashtypeSignature`: all, none or single, with or without anyone-can-pay. -/
def isDefinedHashtypeSignature (vchSig : Valtype) : Eval Bool :=
  if vchSig.length = 0 then .ok false
  else do
    let last ← byteAt vchSig (vchSig.length - 1)
    let nHashType := last &&& 0x7f
    .ok (!(decide (nHashType < 1) || decide (nHashType > 3)))

/-- A check that makes the script fail when it is answered with no. -/
def demand (answer : Eval Bool) (serror : ScriptError) : Eval Unit := do
  let holds ← answer
  require (holds = true) serror

def checkSignatureEncoding (vchSig : Valtype) (flags : ScriptFlags) : Eval Unit :=
  -- an empty signature is a compact way to provide an invalid one
  if vchSig.length = 0 then .ok ()
  else do
    checkWhen (flags.dersig || flags.lowS || flags.strictenc)
      (demand (isValidSignatureEncoding vchSig) .sigDer)
    checkWhen flags.lowS (isLowDERSignature vchSig)
    checkWhen flags.strictenc (demand (isDefinedHashtypeSignature vchSig) .sigHashtype)

def checkPubKeyEncoding (vchSig : Valtype) (flags : ScriptFlags) : Eval Unit :=
  checkWhen flags.strictenc (demand (isCompressedOrUncompressedPubKey vchSig) .pubkeytype)

def checkMinimalPush (data : Valtype) (opcode : UInt8) : Bool :=
  match data with
  | [] => opcode == 0
  | [byte] =>
    if 1 ≤ byte ∧ byte ≤ 16 then opcode == opN1 + (byte - 1)
    else if byte = 0x81 then opcode == 0x4f
    else opcode == 1
  | _ =>
    if data.length ≤ 75 then opcode.toNat == data.length
    else if data.length ≤ 255 then opcode == opPushdata1
    else if data.length ≤ 65535 then opcode == opPushdata2
    else true

/-! ## No read past the end -/

theorem demand_safe {answer : Eval Bool} (serror : ScriptError)
    (answered : Safe answer fun _ => True) : Safe (demand answer serror) fun _ => True :=
  .bind answered fun holds _ => (require_safe (holds = true) serror).mono fun _ _ => trivial

theorem isCompressedOrUncompressedPubKey_safe (vchPubKey : Valtype) :
    Safe (isCompressedOrUncompressedPubKey vchPubKey) fun _ => True := by
  unfold isCompressedOrUncompressedPubKey
  refine .ite (fun _ => .ok trivial) fun long => ?_
  refine .bind (byteAt_safe (by omega)) fun first _ => .ite (fun _ => .ok trivial) fun _ => ?_
  exact .ite (fun _ => .ok trivial) fun _ => .ok trivial

theorem validInteger_safe {sig : Valtype} {start len : Nat} (inside : start + len < sig.length) :
    Safe (validInteger sig start len) fun _ => True := by
  unfold validInteger
  refine .bind (byteAt_safe (by omega)) fun tag _ => .ite (fun _ => .ok trivial) fun _ => ?_
  refine .ite (fun _ => .ok trivial) fun positive => ?_
  refine .bind (byteAt_safe (by omega)) fun first _ => .ite (fun _ => .ok trivial) fun _ => ?_
  refine .ite (fun long => ?_) fun _ => .ok trivial
  exact .bind (byteAt_safe (by omega)) fun second _ => .ok trivial

/-- The lengths in a signature, when they cover it. -/
structure Covers (sig : Valtype) : Prop where
  long : 9 ≤ sig.length
  lengths : ∀ lenR lenS, sig[3]? = some lenR → sig[5 + lenR.toNat]? = some lenS →
    lenR.toNat + lenS.toNat + 7 = sig.length
  inside : ∀ lenR, sig[3]? = some lenR → 5 + lenR.toNat < sig.length

theorem isValidSignatureEncoding_safe (sig : Valtype) :
    Safe (isValidSignatureEncoding sig) fun valid => valid = true → Covers sig := by
  have refused : Safe (.ok false) fun valid => valid = true → Covers sig := .ok nofun
  unfold isValidSignatureEncoding
  refine .ite (fun _ => refused) fun long => .ite (fun _ => refused) fun _ => ?_
  refine .bind (byteAt_safe (by omega)) fun compound _ => .ite (fun _ => refused) fun _ => ?_
  refine .bind (byteAt_safe (by omega)) fun total _ => .ite (fun _ => refused) fun _ => ?_
  refine .bind (byteAt_safe (by omega)) fun lenR readR => .ite (fun _ => refused) fun inside => ?_
  refine .bind (byteAt_safe (by omega)) fun lenS readS => .ite (fun _ => refused) fun covers => ?_
  have covered : Covers sig := by
    refine ⟨by omega, fun lenR' lenS' readR' readS' => ?_, fun lenR' readR' => ?_⟩
    · cases readR.symm.trans readR'
      cases readS.symm.trans readS'
      omega
    · cases readR.symm.trans readR'
      omega
  refine .bind (validInteger_safe (by omega)) fun validR _ => .ite (fun _ => refused) fun _ => ?_
  exact (validInteger_safe (by omega)).mono fun _ _ _ => covered

variable (vchSig : Valtype)

theorem isLowDERSignature_safe : Safe (isLowDERSignature vchSig) fun _ => True := by
  unfold isLowDERSignature
  refine .bind (isValidSignatureEncoding_safe vchSig) fun valid covers => ?_
  refine .bind (require_safe (valid = true) .sigDer) fun _ isValid => ?_
  have covered := covers isValid
  have long := covered.long
  refine .bind (byteAt_safe (by omega)) fun nLenR readR => ?_
  refine .bind (byteAt_safe (covered.inside nLenR readR)) fun nLenS readS => ?_
  have lengths := covered.lengths nLenR nLenS readR readS
  rw [bytesAt_eq (by omega)]
  exact (require_safe _ .sigHighS).mono fun _ _ => trivial

theorem isDefinedHashtypeSignature_safe :
    Safe (isDefinedHashtypeSignature vchSig) fun _ => True := by
  unfold isDefinedHashtypeSignature
  refine .ite (fun _ => .ok trivial) fun _ => ?_
  exact .bind (byteAt_safe (by omega)) fun last _ => .ok trivial

theorem checkSignatureEncoding_safe (flags : ScriptFlags) :
    Safe (checkSignatureEncoding vchSig flags) fun _ => True := by
  unfold checkSignatureEncoding
  refine .ite (fun _ => .ok trivial) fun _ => ?_
  have encoded : Safe (isValidSignatureEncoding vchSig) fun _ => True :=
    (isValidSignatureEncoding_safe vchSig).mono fun _ _ => trivial
  refine .bind (checkWhen_safe _ (demand_safe .sigDer encoded)) fun _ _ => ?_
  refine .bind (checkWhen_safe _ (isLowDERSignature_safe vchSig)) fun _ _ => ?_
  exact checkWhen_safe _ (demand_safe .sigHashtype (isDefinedHashtypeSignature_safe vchSig))

theorem checkPubKeyEncoding_safe (flags : ScriptFlags) :
    Safe (checkPubKeyEncoding vchSig flags) fun _ => True :=
  checkWhen_safe _ (demand_safe .pubkeytype (isCompressedOrUncompressedPubKey_safe vchSig))

/-! ## More flags make more checks -/

section Flags

variable {fewer more : ScriptFlags}

theorem checkSignatureEncoding_narrows (subset : fewer.Subset more) (vchSig : Valtype) :
    Outcome.Narrows (checkSignatureEncoding vchSig more) (checkSignatureEncoding vchSig fewer) := by
  have encoded : (fewer.dersig || fewer.lowS || fewer.strictenc) = true →
      (more.dersig || more.lowS || more.strictenc) = true := by
    simp only [Bool.or_eq_true]
    exact Or.imp (Or.imp subset.dersig subset.lowS) subset.strictenc
  unfold checkSignatureEncoding
  refine .ite (fun _ => .refl _) fun _ => .bind (checkWhen_narrows encoded) fun _ => ?_
  exact .bind (checkWhen_narrows subset.lowS) fun _ => checkWhen_narrows subset.strictenc

theorem checkPubKeyEncoding_narrows (subset : fewer.Subset more) (vchSig : Valtype) :
    Outcome.Narrows (checkPubKeyEncoding vchSig more) (checkPubKeyEncoding vchSig fewer) :=
  checkWhen_narrows subset.strictenc

end Flags

end CentNode
