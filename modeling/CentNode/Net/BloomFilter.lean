import CentNode.Library.BitTable
import CentNode.Primitives.TransactionFormat
import CentNode.Script.Stack

/-!
# Bloom filters

`MurmurHash3` of `hash.cpp` and `CBloomFilter` of `bloom.cpp`, in which clients
load what they want to be told of.  `none` is a division by zero or an access
outside a vector.
-/

namespace CentNode

/-! ## `MurmurHash3` -/

namespace MurmurHash3

def rotl32 (x r : UInt32) : UInt32 := x <<< r ||| x >>> (32 - r)

def c1 : UInt32 := 0xcc9e2d51

def c2 : UInt32 := 0x1b873593

def scramble (k1 : UInt32) : UInt32 := rotl32 (k1 * c1) 15 * c2

/-- The blocks of four bytes: the state after them, and the bytes of the tail. -/
def body (h1 : UInt32) : List UInt8 → UInt32 × List UInt8
  | b0 :: b1 :: b2 :: b3 :: rest =>
    let k1 := b0.toUInt32 ||| b1.toUInt32 <<< 8 ||| b2.toUInt32 <<< 16 ||| b3.toUInt32 <<< 24
    body (rotl32 (h1 ^^^ scramble k1) 13 * 5 + 0xe6546b64) rest
  | tail => (h1, tail)

def tail (h1 : UInt32) : List UInt8 → UInt32
  | [t0] => h1 ^^^ scramble t0.toUInt32
  | [t0, t1] => h1 ^^^ scramble (t1.toUInt32 <<< 8 ^^^ t0.toUInt32)
  | [t0, t1, t2] => h1 ^^^ scramble (t2.toUInt32 <<< 16 ^^^ t1.toUInt32 <<< 8 ^^^ t0.toUInt32)
  | _ => h1

def finalize (h1 : UInt32) : UInt32 :=
  let h1 := (h1 ^^^ h1 >>> 16) * 0x85ebca6b
  let h1 := (h1 ^^^ h1 >>> 13) * 0xc2b2ae35
  h1 ^^^ h1 >>> 16

end MurmurHash3

def murmurHash3 (nHashSeed : UInt32) (vDataToHash : List UInt8) : UInt32 :=
  let read := MurmurHash3.body nHashSeed vDataToHash
  MurmurHash3.finalize (MurmurHash3.tail read.1 read.2 ^^^ UInt32.ofNat vDataToHash.length)

example : murmurHash3 0 [0, 0x11, 0x22, 0x33, 0x44, 0x55, 0x66] = 0xb074502c := by decide

/-! ## The filter -/

def maxBloomFilterSize : Nat := 36000

def maxHashFuncs : Nat := 50

def bloomUpdateAll : UInt8 := 1

def bloomUpdateP2pubkeyOnly : UInt8 := 2

def bloomUpdateMask : UInt8 := 3

/-- The default-constructed filter is full. -/
structure CBloomFilter where
  vData : List UInt8 := []
  isFull : Bool := true
  isEmpty : Bool := false
  nHashFuncs : UInt32 := 0
  nTweak : UInt32 := 0
  nFlags : UInt8 := 0
  deriving DecidableEq, Repr

namespace CBloomFilter

/-- `Hash`, which divides by the number of bits. -/
def hash (filter : CBloomFilter) (nHashNum : Nat) (vDataToHash : List UInt8) : Option Nat :=
  let seed := UInt32.ofNat nHashNum * 0xFBA4C795 + filter.nTweak
  let bits := filter.vData.length * 8
  if bits = 0 then none else some ((murmurHash3 seed vDataToHash).toNat % bits)

def insert (filter : CBloomFilter) (vKey : List UInt8) : Option CBloomFilter :=
  if filter.isFull then some filter
  else
    ((List.range filter.nHashFuncs.toNat).foldlM
        (fun vData i => (filter.hash i vKey).bind fun nIndex => BitTable.set vData nIndex)
        filter.vData).map
      fun vData => { filter with vData := vData, isEmpty := false }

/-- The loop of `contains` over what is left of the hash functions. -/
def containsLoop (filter : CBloomFilter) (vKey : List UInt8) : List Nat → Option Bool
  | [] => some true
  | i :: rest =>
    ((filter.hash i vKey).bind fun nIndex => BitTable.test filter.vData nIndex).bind fun bit =>
      if bit then containsLoop filter vKey rest else some false

def contains (filter : CBloomFilter) (vKey : List UInt8) : Option Bool :=
  if filter.isFull then some true
  else if filter.isEmpty then some false
  else filter.containsLoop vKey (List.range filter.nHashFuncs.toNat)

def isWithinSizeConstraints (filter : CBloomFilter) : Bool :=
  filter.vData.length ≤ maxBloomFilterSize && filter.nHashFuncs.toNat ≤ maxHashFuncs

def updateEmptyFull (filter : CBloomFilter) : CBloomFilter :=
  { filter with
    isFull := filter.vData.all fun byte => byte = 0xff
    isEmpty := filter.vData.all fun byte => byte = 0 }

/-! ## `IsRelevantAndUpdate` -/

/-- A script data element of what is left of a script is contained. -/
def matchesPush (filter : CBloomFilter) (pc : CScript) : Option Bool :=
  match read : CScript.getOp pc with
  | none => some false
  | some (_, data, rest) =>
    have := CScript.getOp_length_lt read
    if data.length ≠ 0 then
      (filter.contains data).bind fun found => if found then some true else matchesPush filter rest
    else matchesPush filter rest
  termination_by pc.length

/-- A matched output is added, by the flags. -/
def updates (filter : CBloomFilter) (scriptPubKey : CScript) : Option Bool :=
  if filter.nFlags &&& bloomUpdateMask = bloomUpdateAll then some true
  else if filter.nFlags &&& bloomUpdateMask = bloomUpdateP2pubkeyOnly then
    (solver scriptPubKey).map fun solved =>
      solved.found && (solved.typeRet = .pubkey || solved.typeRet = .multisig)
  else some false

/-- The outputs that matched, those of them that were added, and the filter after it. -/
structure OutputsRead where
  matched : List COutPoint := []
  inserted : List COutPoint := []
  filter : CBloomFilter

/-- An output: whether it matched, whether it was added, and the filter after it. -/
def readOutput (filter : CBloomFilter) (out : COutPoint) (scriptPubKey : CScript) :
    Option OutputsRead :=
  (filter.matchesPush scriptPubKey).bind fun found =>
    if found then
      (filter.updates scriptPubKey).bind fun update =>
        if update then (filter.insert out.serialize).map fun next => ⟨[out], [out], next⟩
        else some ⟨[out], [], filter⟩
    else some ⟨[], [], filter⟩

/-- The loop over what is left of the outputs. -/
def readOutputs (hash : Uint256) : Nat → List CTxOut → CBloomFilter → Option OutputsRead
  | _, [], filter => some { filter := filter }
  | i, txout :: rest, filter =>
    (filter.readOutput ⟨hash, i⟩ txout.scriptPubKey).bind fun here =>
      (readOutputs hash (i + 1) rest here.filter).map fun later =>
        ⟨here.matched ++ later.matched, here.inserted ++ later.inserted, later.filter⟩

/-- The loop over what is left of the inputs. -/
def readInputs (filter : CBloomFilter) : List CTxIn → Option Bool
  | [] => some false
  | txin :: rest =>
    (filter.contains txin.prevout.serialize).bind fun spends =>
      if spends then some true
      else
        (filter.matchesPush txin.scriptSig).bind fun found =>
          if found then some true else readInputs filter rest

/-- Whether a transaction is relevant, and what its outputs led to. -/
structure Relevance extends OutputsRead where
  relevant : Bool

def isRelevantAndUpdate (filter : CBloomFilter) (tx : CTransaction) : Option Relevance :=
  if filter.isFull then some { filter := filter, relevant := true }
  else if filter.isEmpty then some { filter := filter, relevant := false }
  else
    (filter.contains (writeUint256 tx.hash)).bind fun txid =>
      (filter.readOutputs tx.hash 0 tx.vout).bind fun outputs =>
        if txid || !outputs.matched.isEmpty then some { outputs with relevant := true }
        else
          (outputs.filter.readInputs tx.vin).map fun spends => { outputs with relevant := spends }

end CBloomFilter

/-! ## The filter of a peer -/

/-- What `filterload` carries. -/
structure FilterLoad where
  vData : List UInt8
  nHashFuncs : UInt32
  nTweak : UInt32
  nFlags : UInt8
  deriving DecidableEq, Repr

/-- What a node keeps of a peer and its filter; `pfilter` always points to one. -/
structure FilterPeer where
  pfilter : CBloomFilter := {}
  fRelayTxes : Bool := false
  nMisbehavior : Nat := 0
  deriving DecidableEq, Repr

namespace FilterPeer

def misbehaving (peer : FilterPeer) (howmuch : Nat) : FilterPeer :=
  { peer with nMisbehavior := peer.nMisbehavior + howmuch }

/-- The filter of `filterload`, as it is read: the flags of the default constructor. -/
def readFilter (load : FilterLoad) : CBloomFilter where
  vData := load.vData
  nHashFuncs := load.nHashFuncs
  nTweak := load.nTweak
  nFlags := load.nFlags

def filterload (peer : FilterPeer) (load : FilterLoad) : FilterPeer :=
  let filter := readFilter load
  let loaded :=
    if !filter.isWithinSizeConstraints then peer.misbehaving 100
    else { peer with pfilter := filter.updateEmptyFull }
  { loaded with fRelayTxes := true }

def filteradd (peer : FilterPeer) (vData : List UInt8) : Option FilterPeer :=
  if maxScriptElementSize < vData.length then some (peer.misbehaving 100)
  else (peer.pfilter.insert vData).map fun next => { peer with pfilter := next }

def filterclear (peer : FilterPeer) : FilterPeer := { peer with pfilter := {}, fRelayTxes := true }

end FilterPeer

end CentNode
