import CentNode.Script.ScriptCode
import CentNode.Script.ScriptNum
import CentNode.Script.SigOps
import CentNode.Validation.MemoryPool

/-!
# Creating a block

`CreateNewBlock` of `miner.cpp`.  The coinbase and the coinstake stand first;
then transactions of the memory pool are taken off a priority queue while they
fit, each on a scratch view of the coins.  Priorities are floating-point
numbers, and their arithmetic is a parameter.
-/

namespace CentNode

def CScript.pushInt64 (n : Int) : CScript :=
  if n = -1 ∨ (1 ≤ n ∧ n ≤ 16) then [UInt8.ofNat (n + 80).toNat]
  else if n = 0 then [0]
  else pushData (CScriptNum.serialize n)

def locktimeThreshold : Nat := 500000000

def CTxIn.isFinal (txin : CTxIn) : Bool := txin.nSequence = 4294967295

def isFinalTx (tx : CTransaction) (nBlockHeight nBlockTime : Int) : Bool :=
  tx.nLockTime = 0 ||
    decide ((tx.nLockTime : Int) <
      if tx.nLockTime < locktimeThreshold then nBlockHeight else nBlockTime) ||
    tx.vin.all CTxIn.isFinal

def calculateModifiedSize (tx : CTransaction) (nTxSize : Nat) : Nat :=
  tx.vin.foldl
    (fun nTxSize txin =>
      let offset := 41 + min 110 txin.scriptSig.length
      if nTxSize > offset then nTxSize - offset else nTxSize)
    (if nTxSize = 0 then tx.serializeSize else nTxSize)

/-- `CFeeRate`, in satoshis for a thousand bytes; the division is unsigned. -/
def feeRate (nFeePaid : Int) (nSize : Nat) : Int :=
  if nSize > 0 then toInt64 ((nFeePaid * 1000) % 2 ^ 64 / nSize) else 0

/-- The arithmetic of priorities. -/
structure PriorityArith (Priority : Type) where
  zero : Priority
  add : Priority → Priority → Priority
  /-- The value of an input, converted, times its age. -/
  weigh : Int → Int → Priority
  div : Priority → Nat → Priority
  lt : Priority → Priority → Bool
  beq : Priority → Priority → Bool
  /-- `AllowFree`. -/
  allowFree : Priority → Bool

structure TxPriority (Priority : Type) where
  dPriority : Priority
  feeRate : Int
  ptx : CTransaction

/-- `TxPriorityCompare`. -/
def TxPriority.less {Priority : Type} (arith : PriorityArith Priority) (byFee : Bool)
    (a b : TxPriority Priority) : Bool :=
  if byFee then
    if a.feeRate = b.feeRate then arith.lt a.dPriority b.dPriority
    else decide (a.feeRate < b.feeRate)
  else if arith.beq a.dPriority b.dPriority then decide (a.feeRate < b.feeRate)
  else arith.lt a.dPriority b.dPriority

/-- The heap algorithms of the standard library: a greatest element comes off the heap.
Which one among equals is not said. -/
structure HeapAlgorithms (α : Type) where
  popHeap : (α → α → Bool) → List α → Option (α × List α)
  popHeap_nil : ∀ less heap, popHeap less heap = none ↔ heap = []
  popHeap_perm : ∀ less heap front rest, popHeap less heap = some (front, rest) →
    heap.Perm (front :: rest)
  popHeap_greatest : ∀ less heap front rest, popHeap less heap = some (front, rest) →
    (∀ a b, less a b = true → less b a = false) →
      (∀ a b c, less a b = false → less b c = false → less a c = false) →
        ∀ other ∈ rest, less front other = false

namespace HeapAlgorithms

variable {α : Type}

/-- A greatest element and the others. -/
def popGreatest (less : α → α → Bool) : List α → Option (α × List α)
  | [] => none
  | first :: rest =>
    match popGreatest less rest with
    | none => some (first, [])
    | some (front, others) =>
      if less first front then some (front, first :: others) else some (first, front :: others)

section

variable (less : α → α → Bool) (heap : List α)

include less heap

theorem popGreatest_nil :
    popGreatest less heap = none ↔ heap = [] := by
  cases heap with
  | nil => exact iff_of_true rfl rfl
  | cons first rest =>
    refine iff_of_false (fun impossible => ?_) (List.cons_ne_nil _ _)
    rw [popGreatest] at impossible
    split at impossible
    · cases impossible
    · split at impossible <;> cases impossible

theorem popGreatest_perm (front : α) (others : List α)
    (popped : popGreatest less heap = some (front, others)) : heap.Perm (front :: others) := by
  induction heap generalizing front others with
  | nil => cases popped
  | cons first rest ih =>
    rw [popGreatest] at popped
    split at popped
    · next empty =>
        cases popped
        rw [(popGreatest_nil less rest).mp empty]
    · next best later poppedRest =>
        have rest_perm := ih best later poppedRest
        split at popped
        · cases popped
          exact (rest_perm.cons first).trans (.swap _ _ _)
        · cases popped
          exact rest_perm.cons first

theorem popGreatest_greatest (front : α) (others : List α)
    (popped : popGreatest less heap = some (front, others))
    (asymm : ∀ a b, less a b = true → less b a = false)
    (trans : ∀ a b c, less a b = false → less b c = false → less a c = false) :
    ∀ other ∈ others, less front other = false := by
  induction heap generalizing front others with
  | nil => cases popped
  | cons first rest ih =>
    rw [popGreatest] at popped
    split at popped
    · cases popped
      exact fun other member => absurd member List.not_mem_nil
    · next best later poppedRest =>
        have below := ih best later poppedRest
        split at popped
        · next smaller =>
            cases popped
            intro other member
            rcases List.mem_cons.mp member with rfl | more
            · exact asymm _ _ smaller
            · exact below other more
        · next notSmaller =>
            cases popped
            have level : less first best = false := by simpa using notSmaller
            intro other member
            rcases List.mem_cons.mp member with rfl | more
            · exact level
            · exact trans _ _ _ level (below other more)

end

/-- The heap algorithms that take the last of the greatest elements. -/
def greatest : HeapAlgorithms α where
  popHeap := popGreatest
  popHeap_nil := popGreatest_nil
  popHeap_perm := popGreatest_perm
  popHeap_greatest := popGreatest_greatest

end HeapAlgorithms

/-- `COrphan`: a transaction that waits for others; `mapDependers` is where they stand. -/
structure COrphan (Priority : Type) where
  ptx : CTransaction
  setDependsOn : List Uint256
  feeRate : Int
  dPriority : Priority

/-- The options on the sizes of created blocks. -/
structure BlockSizeArgs where
  blockmaxsize : Nat := 7500000
  blockprioritysize : Nat := 50000
  blockminsize : Nat := 0
  deriving DecidableEq, Repr

namespace BlockSizeArgs

variable (args : BlockSizeArgs)

def nBlockMaxSize : Nat := max 1000 (min (maxBlockSize - 1000) args.blockmaxsize)

def nBlockPrioritySize : Nat := min args.nBlockMaxSize args.blockprioritysize

def nBlockMinSize : Nat := min args.nBlockMaxSize args.blockminsize

end BlockSizeArgs

/-- What `CreateNewBlock` reads. -/
structure MinerContext (Priority : Type) where
  node : Node
  pcoinsTip : FlatCoins
  mempool : TxPool
  /-- `mapDeltas` of the pool. -/
  mapDeltas : StdMap Uint256 (Priority × Int) := ∅
  arith : PriorityArith Priority
  heap : HeapAlgorithms (TxPriority Priority)
  args : BlockSizeArgs := {}
  /-- `::minRelayTxFee`. -/
  minRelayTxFee : Int
  /-- The hash of a transaction that is made. -/
  getHash : CTransaction → Uint256
  /-- `FillBlockPayee` on the outputs of a coinbase. -/
  fillBlockPayee : List CTxOut → Int → List CTxOut

/-- The state of the loop over the queue. -/
structure Selection (Priority : Type) where
  vecPriority : List (TxPriority Priority)
  vOrphan : List (COrphan Priority)
  view : FlatCoins
  fSortedByFee : Bool
  nBlockSize : Nat := 1000
  nBlockSigOps : Nat := 100
  nFees : Int := 0
  vtx : List CTransaction := []
  vTxFees : List Int := []
  vTxSigOps : List Nat := []

namespace MinerContext

variable {Priority : Type} (context : MinerContext Priority)

/-! ## The queue -/

def computePriority (tx : CTransaction) (dPriorityInputs : Priority) (nTxSize : Nat) : Priority :=
  if calculateModifiedSize tx nTxSize = 0 then context.arith.zero
  else context.arith.div dPriorityInputs (calculateModifiedSize tx nTxSize)

/-- The tests before the queue may be sorted again: sizes, signature operations, and free
transactions past the minimum size. -/
def refuses (state : Selection Priority) (entry : TxPriority Priority) : Bool :=
  let nTxSize := entry.ptx.serializeSize
  let deltas := context.mapDeltas.lookup entry.ptx.hash
  decide (state.nBlockSize + nTxSize ≥ context.args.nBlockMaxSize) ||
    decide (state.nBlockSigOps + getLegacySigOpCount entry.ptx ≥ maxBlockSigOps) ||
      (state.fSortedByFee &&
        !(deltas.any fun deltas => context.arith.lt context.arith.zero deltas.1) &&
        !(deltas.any fun deltas => decide (deltas.2 > 0)) &&
        decide (entry.feeRate < context.minRelayTxFee) &&
        decide (state.nBlockSize + nTxSize ≥ context.args.nBlockMinSize))

/-- By fee once past the priority size, or without transactions of high priority. -/
def sortsByFee (state : Selection Priority) (entry : TxPriority Priority) : Bool :=
  state.fSortedByFee ||
    decide (state.nBlockSize + entry.ptx.serializeSize ≥ context.args.nBlockPrioritySize) ||
    !context.arith.allowFree entry.dPriority

/-- What becomes of a transaction off the queue. -/
inductive Verdict where
  | skip
  | take (nTxFees : Int) (nTxSigOps : Nat)

/-- The tests on the scratch view; `none` is an exception or a failed assertion. -/
def judge (state : Selection Priority) (tx : CTransaction) : Option Verdict :=
  if !state.view.haveInputs tx then some .skip
  else
    (state.view.getValueIn tx).bind fun nValueIn =>
      tx.getValueOut.bind fun nValueOut =>
        let nTxSigOps := getLegacySigOpCount tx + getP2SHSigOpCount tx state.view.getOutputFor
        if state.nBlockSigOps + nTxSigOps ≥ maxBlockSigOps then some .skip
        else
          match TxPool.checkInputsNow context.node tx state.view ScriptFlags.mandatory with
          | .error .assertion => none
          | .error (.exception _) => none
          | .error _ => some .skip
          | .ok _ => some (.take (toInt64 (nValueIn - nValueOut)) nTxSigOps)

/-- The transactions that waited for a transaction only go to the queue. -/
def release (state : Selection Priority) (hash : Uint256) : Selection Priority :=
  let vOrphan := state.vOrphan.map fun porphan =>
    { porphan with setDependsOn := porphan.setDependsOn.erase hash }
  { state with
    vecPriority := state.vecPriority ++
      (vOrphan.filter fun porphan => porphan.setDependsOn.isEmpty).map fun porphan =>
        ⟨porphan.dPriority, porphan.feeRate, porphan.ptx⟩
    vOrphan := vOrphan.filter fun porphan => !porphan.setDependsOn.isEmpty }

/-- A transaction is added to the block. -/
def addTx (nHeight : Int) (state : Selection Priority) (tx : CTransaction) (nTxFees : Int)
    (nTxSigOps : Nat) : Option (Selection Priority) :=
  (updateCoins tx state.view nHeight).map fun updated =>
    release
      { state with
        view := updated.1
        nBlockSize := state.nBlockSize + tx.serializeSize
        nBlockSigOps := state.nBlockSigOps + nTxSigOps
        nFees := toInt64 (state.nFees + nTxFees)
        vtx := state.vtx ++ [tx]
        vTxFees := state.vTxFees ++ [nTxFees]
        vTxSigOps := state.vTxSigOps ++ [nTxSigOps] }
      tx.hash

/-- One pass with the transaction that came off the queue. -/
def passWith (nHeight : Int) (state : Selection Priority) (entry : TxPriority Priority) :
    Option (Selection Priority) :=
  if context.refuses state entry then some state
  else
    let sorted := { state with fSortedByFee := context.sortsByFee state entry }
    (context.judge sorted entry.ptx).bind fun
      | .skip => some sorted
      | .take nTxFees nTxSigOps => addTx nHeight sorted entry.ptx nTxFees nTxSigOps

/-- One pass; `none` where the queue is empty, or where an exception leaves the function. -/
def pass (nHeight : Int) (state : Selection Priority) : Option (Selection Priority) :=
  (context.heap.popHeap (TxPriority.less context.arith state.fSortedByFee)
    state.vecPriority).bind fun popped =>
      context.passWith nHeight { state with vecPriority := popped.2 } popped.1

/-- So many passes, or less where the queue gets empty. -/
def selectTxs (nHeight : Int) : Nat → Selection Priority → Option (Selection Priority)
  | 0, state => some state
  | passes + 1, state =>
    if state.vecPriority.isEmpty then some state
    else (context.pass nHeight state).bind (selectTxs nHeight passes)

/-- The coinbase as it is made first. -/
def newCoinbase (scriptPubKeyIn : CScript) (prev : CBlockIndex) : CTransaction :=
  let txNew : CTransaction :=
    { hash := 0
      vin := [{ prevout := COutPoint.null }]
      vout := [⟨getBlockValue context.node.params prev prev.nHeight, scriptPubKeyIn⟩] }
  { txNew with hash := context.getHash txNew }

/-- The coinbase of the block.  With a stake it loses its value and gets the height, and
keeps the hash it had; without one the payees of the block are filled in. -/
def finalCoinbase (txNew : CTransaction) (prev : CBlockIndex) (fProofOfStake : Bool) (nFees : Int) :
    CTransaction :=
  if fProofOfStake then
    { txNew with
      vin := [{ prevout := COutPoint.null
                scriptSig := CScript.pushInt64 (prev.nHeight + 1) ++ [0] }]
      vout := [⟨0, []⟩] }
  else
    let paid := { txNew with vout := context.fillBlockPayee txNew.vout nFees }
    { paid with hash := context.getHash paid }

end MinerContext

end CentNode
