import CentNode.Chain.BlockIndex
import CentNode.Library.StdMap

/-!
# Stake modifiers

`kernel.cpp`: the modifier that `AddToBlockIndex` gives to a new entry of the
block index, and the modifier that a stake kernel hashes.
-/

namespace CentNode

/-- The part of `CBlockIndex` that the modifiers are computed from. -/
structure StakeIndex where
  hash : Uint256
  nTime : Nat
  fProofOfStake : Bool
  nHeight : Nat
  nStakeModifier : BitVec 64
  fGeneratedStakeModifier : Bool
  deriving DecidableEq, Repr

/-- An entry with the entries that its `pprev` links lead to, the parent first. -/
structure LinkedIndex where
  entry : StakeIndex
  ancestors : List StakeIndex
  deriving DecidableEq, Repr

def LinkedIndex.chain (linked : LinkedIndex) : List StakeIndex := linked.entry :: linked.ancestors

/-- `mapBlockIndex`. -/
abbrev BlockMap : Type := StdMap Uint256 LinkedIndex

def BlockMap.find (mapBlockIndex : BlockMap) (hash : Uint256) : Option StakeIndex :=
  (mapBlockIndex.lookup hash).map LinkedIndex.entry

namespace StakeIndex

def getStakeEntropyBit (pindex : StakeIndex) : BitVec 64 := pindex.hash.setWidth 64 &&& 1

end StakeIndex

/-- `MODIFIER_INTERVAL`, for both values of `fTestNet`. -/
def modifierInterval : Int := 60

def modifierIntervalRatio : Int := 3

def selectionIntervalSection (nSection : Nat) : Int :=
  modifierInterval * 63 / (63 + (63 - nSection) * (modifierIntervalRatio - 1))

def selectionInterval : Int := ((List.range 64).map selectionIntervalSection).sum

/-- `GetLastStakeModifier`: the next entry down the chain with a modifier of
its own, or the error at the genesis block. -/
def getLastStakeModifier (pindex : List StakeIndex) : Option StakeIndex :=
  pindex.find? StakeIndex.fGeneratedStakeModifier

section Modifier

/- `hashOf` is `Hash` of the serialized proof hash and modifier. -/
variable (params : CChainParams) (hashOf : Uint256 → BitVec 64 → Uint256)

/-- The hash that selects a block; a proof-of-stake block is favoured. -/
def selectionHash (fModifierV2 : Bool) (nStakeModifierPrev : BitVec 64) (pindex : StakeIndex) :
    Uint256 :=
  let hashProof := if !fModifierV2 && pindex.fProofOfStake then 0 else pindex.hash
  let hashSelection := hashOf hashProof nStakeModifierPrev
  if pindex.fProofOfStake then hashSelection >>> 32 else hashSelection

def keepBest (best : Option (Uint256 × StakeIndex)) (hashSelection : Uint256)
    (pindex : StakeIndex) : Option (Uint256 × StakeIndex) :=
  match best with
  | none => some (hashSelection, pindex)
  | some (hashBest, selected) =>
    if hashSelection < hashBest then some (hashSelection, pindex) else some (hashBest, selected)

/-- The loop of `SelectBlockFromCandidates`.  The first candidate decides on
the version; `none` is the error on a candidate that is not indexed. -/
def selectLoop (find : Uint256 → Option StakeIndex) (mapSelectedBlocks : List Uint256)
    (nSelectionIntervalStop : Int) (nStakeModifierPrev : BitVec 64) :
    List (Nat × Uint256) → Option Bool → Option (Uint256 × StakeIndex) →
      Option (Option (Uint256 × StakeIndex))
  | [], _, best => some best
  | item :: rest, version, best =>
    match find item.2 with
    | none => none
    | some pindex =>
      if best.isSome ∧ nSelectionIntervalStop < pindex.nTime then some best
      else
        let fModifierV2 := version.getD (params.modifierUpgradeBlock ≤ pindex.nHeight)
        if pindex.hash ∈ mapSelectedBlocks then
          selectLoop find mapSelectedBlocks nSelectionIntervalStop nStakeModifierPrev rest
            (some fModifierV2) best
        else
          selectLoop find mapSelectedBlocks nSelectionIntervalStop nStakeModifierPrev rest
            (some fModifierV2)
            (keepBest best (selectionHash hashOf fModifierV2 nStakeModifierPrev pindex) pindex)

def selectBlockFromCandidates (find : Uint256 → Option StakeIndex)
    (vSortedByTimestamp : List (Nat × Uint256)) (mapSelectedBlocks : List Uint256)
    (nSelectionIntervalStop : Int) (nStakeModifierPrev : BitVec 64) : Option StakeIndex :=
  (selectLoop params hashOf find mapSelectedBlocks nSelectionIntervalStop nStakeModifierPrev
    vSortedByTimestamp none none).join.map Prod.snd

/-- The rounds of `ComputeNextStakeModifier`: each writes the entropy bit of
the block it selects. -/
def selectRounds (find : Uint256 → Option StakeIndex) (vSortedByTimestamp : List (Nat × Uint256))
    (nStakeModifierPrev : BitVec 64) :
    List Nat → Int → List Uint256 → BitVec 64 → Option (BitVec 64)
  | [], _, _, nStakeModifierNew => some nStakeModifierNew
  | nRound :: rest, stop, mapSelectedBlocks, nStakeModifierNew =>
    let nSelectionIntervalStop := stop + selectionIntervalSection nRound
    (selectBlockFromCandidates params hashOf find vSortedByTimestamp mapSelectedBlocks
      nSelectionIntervalStop nStakeModifierPrev).bind fun pindex =>
        selectRounds find vSortedByTimestamp nStakeModifierPrev rest nSelectionIntervalStop
          (pindex.hash :: mapSelectedBlocks)
          (nStakeModifierNew ||| (pindex.getStakeEntropyBit <<< nRound))

/-- The order of `pair<int64_t, uint256>`. -/
def timestampLE (left right : Nat × Uint256) : Prop :=
  left.1 < right.1 ∨ left.1 = right.1 ∧ left.2 ≤ right.2

instance : DecidableRel timestampLE := fun left right =>
  inferInstanceAs (Decidable (left.1 < right.1 ∨ left.1 = right.1 ∧ left.2 ≤ right.2))

def selectionIntervalStart (pindexPrev : StakeIndex) : Int :=
  pindexPrev.nTime / modifierInterval * modifierInterval - selectionInterval

def sortedCandidates (nSelectionIntervalStart : Int) (pindexPrev : List StakeIndex) :
    List (Nat × Uint256) :=
  let candidates := pindexPrev.takeWhile fun pindex => nSelectionIntervalStart ≤ pindex.nTime
  (candidates.map fun pindex => (pindex.nTime, pindex.hash)).reverse.insertionSort timestampLE

structure NextModifier where
  ok : Bool
  nStakeModifier : BitVec 64
  fGeneratedStakeModifier : Bool
  deriving DecidableEq, Repr

/-- `ComputeNextStakeModifier`.  The modifier of the first block is
`uint64_t("stakemodifier")`: a string literal converts to its address, and
`literal` is that address in the running process. -/
def computeNextStakeModifier (literal : BitVec 64) (find : Uint256 → Option StakeIndex)
    (pindexPrev : List StakeIndex) : NextModifier :=
  match pindexPrev with
  | [] => ⟨true, 0, true⟩
  | prev :: _ =>
    if prev.nHeight = 0 then ⟨true, literal, true⟩
    else
      match getLastStakeModifier pindexPrev with
      | none => ⟨false, 0, false⟩
      | some last =>
        if prev.nTime / modifierInterval ≤ last.nTime / modifierInterval then
          ⟨true, last.nStakeModifier, false⟩
        else
          let start := selectionIntervalStart prev
          let vSortedByTimestamp := sortedCandidates start pindexPrev
          match selectRounds params hashOf find vSortedByTimestamp last.nStakeModifier
              (List.range (min 64 vSortedByTimestamp.length)) start [] 0 with
          | none => ⟨false, last.nStakeModifier, false⟩
          | some nStakeModifierNew => ⟨true, nStakeModifierNew, true⟩

def StakeIndex.ofBlock (block : CBlock) : StakeIndex where
  hash := block.hash
  nTime := block.nTime
  fProofOfStake := block.isProofOfStake
  nHeight := 0
  nStakeModifier := 0
  fGeneratedStakeModifier := false

/-- `AddToBlockIndex`: an entry without a parent keeps the values it is made
with, also when `ComputeNextStakeModifier` fails its values are stored. -/
def addToBlockIndex (literal : BitVec 64) (mapBlockIndex : BlockMap) (block : CBlock) : BlockMap :=
  if (mapBlockIndex.lookup block.hash).isSome then mapBlockIndex
  else
    let pindexNew := StakeIndex.ofBlock block
    match mapBlockIndex.lookup block.hashPrevBlock with
    | none => mapBlockIndex.insert block.hash ⟨pindexNew, []⟩
    | some pprev =>
      let next := computeNextStakeModifier params hashOf literal mapBlockIndex.find pprev.chain
      mapBlockIndex.insert block.hash
        ⟨{ pindexNew with
            nHeight := pprev.entry.nHeight + 1
            nStakeModifier := next.nStakeModifier
            fGeneratedStakeModifier := next.fGeneratedStakeModifier },
          pprev.chain⟩

/-- The block index after the blocks, in the order in which they came. -/
def blockIndexOf (literal : BitVec 64) (blocks : List CBlock) : BlockMap :=
  blocks.foldl (addToBlockIndex params hashOf literal) ∅

end Modifier

structure KernelModifier where
  nStakeModifier : BitVec 64
  nStakeModifierHeight : Nat
  nStakeModifierTime : Nat
  deriving DecidableEq, Repr

/-- The loop of `GetKernelStakeModifier` over the entries of the active chain
above the source block; `none` is the error on a null `pindexNext`. -/
def kernelLoop (timeFrom : Nat) : StakeIndex → Nat → Nat → List StakeIndex → Option KernelModifier
  | pindex, height, time, later =>
    if (time : Int) < timeFrom + selectionInterval then
      match later with
      | [] => none
      | next :: rest =>
        if next.fGeneratedStakeModifier then kernelLoop timeFrom next next.nHeight next.nTime rest
        else kernelLoop timeFrom next height time rest
    else some ⟨pindex.nStakeModifier, height, time⟩
  termination_by structural _ _ _ later => later

/-- `GetKernelStakeModifier`, with the active chain from the genesis block up. -/
def getKernelStakeModifier (mapBlockIndex : BlockMap) (vChain : List StakeIndex)
    (hashBlockFrom : Uint256) : Option KernelModifier :=
  (mapBlockIndex.find hashBlockFrom).bind fun pindexFrom =>
    kernelLoop pindexFrom.nTime pindexFrom pindexFrom.nHeight pindexFrom.nTime
      (vChain.drop (pindexFrom.nHeight + 1))

end CentNode
