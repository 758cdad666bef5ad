import CentNode.Net.FilterMatches
import CentNode.Primitives.PartialMerkleBuild

/-!
# Filtered blocks

The block that `merkleblock.cpp` makes of a block and the filter of a peer.
-/

namespace CentNode

open Option List FilterRun

/-- `vMatchedTxn` holds the positions and ids of the transactions that are sent after it. -/
structure CMerkleBlock where
  header : CBlock
  txn : CPartialMerkleTree
  vMatchedTxn : List (Nat × Uint256)

namespace CMerkleBlock

/-- The loop over what is left of the transactions: the mask, `vMatchedTxn` and the filter. -/
def matchTxs (filter : CBloomFilter) (i : Nat) :
    List CTransaction → Option (List Bool × List (Nat × Uint256) × CBloomFilter)
  | [] => some ([], [], filter)
  | tx :: rest => do
    let seen ← filter.isRelevantAndUpdate tx
    let (vMatch, vMatchedTxn, last) ← matchTxs seen.filter (i + 1) rest
    return (seen.relevant :: vMatch,
      if seen.relevant then (i, tx.hash) :: vMatchedTxn else vMatchedTxn, last)

/-- The constructor, with the filter that it updates. -/
def make (hash : Uint256 → Uint256 → Uint256) (block : CBlock) (filter : CBloomFilter) :
    Option (CMerkleBlock × CBloomFilter) := do
  let (vMatch, vMatchedTxn, last) ← matchTxs filter 0 block.vtx
  return (⟨{ block with vtx := [], vchBlockSig := [] },
    .build hash (block.vtx.map CTransaction.hash) vMatch, vMatchedTxn⟩, last)

/-- The positions and ids that a mask selects. -/
def selected (i : Nat) (ids : List Uint256) (vMatch : List Bool) : List (Nat × Uint256) :=
  ((ids.zipIdx i).zip vMatch).filterMap fun entry =>
    if entry.2 then some (entry.1.2, entry.1.1) else none

/-- The transaction spends an output that was inserted or, if all are updated, matched. -/
def Spends (run : FilterRun) (tx : CTransaction) : Prop :=
  ∃ out ∈ tx.prevouts, out.serialize ∈ run.inserted ∨
    (run.peer.pfilter.nFlags &&& bloomUpdateMask = bloomUpdateAll ∧ out ∈ run.matched)

theorem matchTxs_spec (nodeBloom : Bool) {run : FilterRun} (kept : run.Kept) (i : Nat)
    (txs : List CTransaction) : ∃ vMatch last,
      matchTxs run.peer.pfilter i txs =
        some (vMatch, selected i (txs.map CTransaction.hash) vMatch, last) ∧
      vMatch.length = txs.length ∧
      ∀ j tx, txs[j]? = some tx → ∃ before,
        Runs.run (step nodeBloom) run ((txs.take j).map .transaction) = some before ∧
          (Spends before tx → vMatch[j]? = some true) := by
  induction txs generalizing run i with
  | nil => exact ⟨[], _, rfl, rfl, nofun⟩
  | cons tx rest ih =>
    obtain ⟨next, stepped, keptNext⟩ := kept.progress nodeBloom (.transaction tx)
    obtain ⟨seen, read, rfl⟩ := map_eq_some_iff.mp stepped
    obtain ⟨vMatch, last, ran, length, found⟩ := ih keptNext (i + 1)
    dsimp only at ran
    refine ⟨seen.relevant :: vMatch, last, ?_, congrArg (· + 1) length, fun j other here => ?_⟩
    · rw [matchTxs, read]
      cases relevant : seen.relevant <;> simp [ran, relevant, selected]
    · cases j with
      | zero =>
        cases here
        refine ⟨run, rfl, fun ⟨out, spent, known⟩ => ?_⟩
        have inserted := known.elim id fun all => kept.matched all.1 out all.2
        obtain ⟨same, again, relevant⟩ := CBloomFilter.relevant_of_spends kept.readable spent
          (kept.contained _ inserted)
        cases read.symm.trans again
        exact congrArg some relevant
      | succ j =>
        obtain ⟨before, reached, matched⟩ := found j other here
        exact ⟨before, (congrArg (Option.bind · _) stepped).trans reached, matched⟩

/-- After every sequence of filter messages and transactions a block is filtered, and a transaction
that spends what was inserted or matched before it, ahead of the block or in it, is in the tree. -/
theorem make_never_misses (hash : Uint256 → Uint256 → Uint256) (nodeBloom : Bool)
    (inputs : List FilterInput) (block : CBlock) : ∃ run vMatch last,
      Runs.run (step nodeBloom) {} inputs = some run ∧
      make hash block run.peer.pfilter = some
        (⟨{ block with vtx := [], vchBlockSig := [] },
          .build hash (block.vtx.map CTransaction.hash) vMatch,
          selected 0 (block.vtx.map CTransaction.hash) vMatch⟩, last) ∧
      vMatch.length = block.vtx.length ∧
      ∀ i tx, block.vtx[i]? = some tx → ∃ before,
        Runs.run (step nodeBloom) run ((block.vtx.take i).map .transaction) = some before ∧
          (Spends before tx → vMatch[i]? = some true) := by
  obtain ⟨run, reached, kept⟩ := Runs.run_succeeds
    (fun _ input kept _ => Kept.progress nodeBloom kept input) Kept.start
    (Runs.Meets.trivial (step nodeBloom) _ inputs)
  obtain ⟨vMatch, last, ran, spec⟩ := matchTxs_spec nodeBloom kept 0 block.vtx
  exact ⟨run, vMatch, last, reached, congrArg (Option.bind · _) ran, spec⟩

end CMerkleBlock

end CentNode
