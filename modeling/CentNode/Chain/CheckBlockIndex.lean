import CentNode.Chain.Activation

/-!
# The consistency check of the block index

`CheckBlockIndex` of `main.cpp` walks the tree depth first and asserts, at every
entry, how its fields, the candidates and the unlinked blocks fit together.
-/

namespace CentNode

/-- The oldest entries with certain properties on the path from the genesis
block to the one being explored. -/
structure FirstSeen where
  pindexFirstInvalid : Option BlockPtr := none
  pindexFirstMissing : Option BlockPtr := none
  pindexFirstNotTreeValid : Option BlockPtr := none
  pindexFirstNotChainValid : Option BlockPtr := none
  pindexFirstNotScriptsValid : Option BlockPtr := none
  deriving DecidableEq, Repr

/-- `if (first == NULL && property) first = pindex`. -/
def noteFirst (first : Option BlockPtr) (property : Bool) (pindex : BlockPtr) : Option BlockPtr :=
  if first.isNone && property then some pindex else first

namespace IndexState

/-- The validity level of an entry. -/
def level (state : IndexState) (pindex : BlockPtr) : Nat := (state.nStatus pindex).validity.level

/-- Entering an entry of the tree. -/
def noteEntry (state : IndexState) (seen : FirstSeen) (pindex : BlockPtr) : FirstSeen :=
  let status := state.nStatus pindex
  let below (validity : BlockValidity) : Bool :=
    (state.tree.pprev pindex).isSome && decide (state.level pindex < validity.level)
  { pindexFirstInvalid := noteFirst seen.pindexFirstInvalid status.failedValid pindex
    pindexFirstMissing := noteFirst seen.pindexFirstMissing (!status.haveData) pindex
    pindexFirstNotTreeValid := noteFirst seen.pindexFirstNotTreeValid (below .tree) pindex
    pindexFirstNotChainValid := noteFirst seen.pindexFirstNotChainValid (below .chain) pindex
    pindexFirstNotScriptsValid := noteFirst seen.pindexFirstNotScriptsValid (below .scripts) pindex }

/-- The checks of the fields of one entry. -/
def checkFields (hashGenesisBlock : Uint256) (state : IndexState) (seen : FirstSeen)
    (nHeight : Nat) (pindex : BlockPtr) : Bool :=
  let status := state.nStatus pindex
  -- Genesis block checks.
  ((state.tree.pprev pindex).isSome ||
    (state.tree.phashBlock pindex = hashGenesisBlock && state.chainActive.getLast? = some pindex)) &&
  (!status.haveData) == decide (state.nTx pindex = 0) &&
  decide (BlockValidity.transactions.level ≤ state.level pindex) == decide (0 < state.nTx pindex) &&
  (state.nChainTx pindex ≠ 0 || state.nSequenceId pindex = 0) &&
  seen.pindexFirstMissing.isSome == decide (state.nChainTx pindex = 0) &&
  state.tree.nHeight pindex = nHeight &&
  ((state.tree.pprev pindex).all fun parent =>
    state.tree.nChainWork parent ≤ state.tree.nChainWork pindex) &&
  (nHeight < 2 || (state.tree.pskip pindex).any fun skip => state.tree.nHeight skip < nHeight) &&
  seen.pindexFirstNotTreeValid.isNone &&
  (state.level pindex < BlockValidity.chain.level || seen.pindexFirstNotChainValid.isNone) &&
  (state.level pindex < BlockValidity.scripts.level || seen.pindexFirstNotScriptsValid.isNone) &&
  (seen.pindexFirstInvalid.isSome || !status.failed)

/-- The checks of the two sets for one entry. -/
def checkSets (state : IndexState) (seen : FirstSeen) (pindex : BlockPtr) : Bool :=
  let candidate := state.setBlockIndexCandidates.contains pindex
  let foundInUnlinked := state.mapBlocksUnlinked.contains (state.tree.pprev pindex, pindex)
  (if state.notWorseThanTip pindex && seen.pindexFirstMissing.isNone then
    seen.pindexFirstInvalid.isSome || candidate
  else !candidate) &&
  (if (state.tree.pprev pindex).isSome && (state.nStatus pindex).haveData &&
      seen.pindexFirstMissing.isSome then
    seen.pindexFirstInvalid.isSome || foundInUnlinked
  else !foundInUnlinked)

/-- `CheckBlockIndex`: `false` is a failed assertion. -/
def checkBlockIndex (hashGenesisBlock : Uint256) (state : IndexState) : Bool :=
  if state.chainActive.isEmpty then state.tree.entries.length ≤ 1
  else
    match state.tree.entries.filter fun pindex => state.tree.pprev pindex = none with
    | [genesis] =>
      let visits := Forest.traverse
        (fun pindex => state.tree.entries.filter fun child => state.tree.pprev child = some pindex)
        state.noteEntry state.tree.entries.length 0 {} genesis
      (visits.all fun (seen, nHeight, pindex) =>
        state.checkFields hashGenesisBlock seen nHeight pindex && state.checkSets seen pindex) &&
        visits.length = state.tree.entries.length
    | _ => false

end IndexState

end CentNode
