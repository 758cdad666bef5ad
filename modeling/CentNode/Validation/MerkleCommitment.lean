import CentNode.Primitives.MerkleTree
import CentNode.Validation.Node

/-!
# What a merkle root commits to

A block is accepted only under the root of its own transactions, and only if
its tree is not mutated.  For a hash without a collision among the pairs that
are hashed, the root then stands for one list of transactions.
-/

namespace CentNode

variable {hash : Uint256 → Uint256 → Uint256}

/-- The hashes of two trees do not collide, and none of them is a transaction id. -/
structure CommittingHash (hash : Uint256 → Uint256 → Uint256) (txids others : List Uint256) :
    Prop where
  collisionFree : HashTree.CollisionFree hash (HashTree.inputs hash txids ++ HashTree.inputs hash others)
  fresh : ∀ pair ∈ HashTree.inputs hash txids ++ HashTree.inputs hash others,
    hash pair.1 pair.2 ∉ txids ∧ hash pair.1 pair.2 ∉ others

namespace CommittingHash

variable {txids others : List Uint256}

section

variable (safe : CommittingHash hash txids others)

include safe

theorem symm : CommittingHash hash others txids where
  collisionFree := safe.collisionFree.mono fun pair mem => by
    rw [List.mem_append] at mem ⊢
    exact mem.symm
  fresh pair mem := by
    rw [List.mem_append] at mem
    exact (safe.fresh pair (List.mem_append.mpr mem.symm)).symm

theorem eq_of_levels_eq (clean : (buildMerkleTree hash txids).2 = false)
    (cleanOthers : (buildMerkleTree hash others).2 = false)
    (root : (buildMerkleTree hash txids).1 = (buildMerkleTree hash others).1)
    (levels : merkleLevels txids = merkleLevels others) : txids = others := by
  by_cases empty : txids = []
  · subst empty
    by_contra some
    simp [merkleLevels, Ne.symm some] at levels
  · by_cases emptyOthers : others = []
    · subst emptyOthers
      simp [merkleLevels, empty] at levels
    · rw [merkleLevels, merkleLevels, if_neg empty, if_neg emptyOthers] at levels
      apply HashTree.leaves_eq_of_root_eq safe.collisionFree
        ((buildMerkleTree_mutated hash txids).mp clean)
        ((buildMerkleTree_mutated hash others).mp cleanOthers) (by omega)
      rw [buildMerkleTree_root hash empty, buildMerkleTree_root hash emptyOthers, root]

theorem levels_le (some : txids ≠ [])
    (someOthers : others ≠ []) (clean : (buildMerkleTree hash txids).2 = false)
    (cleanOthers : (buildMerkleTree hash others).2 = false)
    (root : (buildMerkleTree hash txids).1 = (buildMerkleTree hash others).1) :
    merkleLevels others ≤ merkleLevels txids := by
  rw [merkleLevels, merkleLevels, if_neg some, if_neg someOthers]
  apply Nat.add_le_add_right
  apply HashTree.height_le_of_root_eq safe.collisionFree
    ((buildMerkleTree_mutated hash txids).mp clean)
    ((buildMerkleTree_mutated hash others).mp cleanOthers) some
  · intro pair mem
    exact (safe.fresh pair (List.mem_append_right _ mem)).1
  · rw [buildMerkleTree_root hash some, buildMerkleTree_root hash someOthers, root]

theorem eq_of_root_eq (some : txids ≠ [])
    (someOthers : others ≠ []) (clean : (buildMerkleTree hash txids).2 = false)
    (cleanOthers : (buildMerkleTree hash others).2 = false)
    (root : (buildMerkleTree hash txids).1 = (buildMerkleTree hash others).1) : txids = others :=
  safe.eq_of_levels_eq clean cleanOthers root
    (Nat.le_antisymm (safe.symm.levels_le someOthers some cleanOthers clean root.symm)
      (safe.levels_le some someOthers clean cleanOthers root))

end

end CommittingHash

theorem merkleTree_of_checkBlock {node : Node} {block : CBlock}
    (accepted : checkBlock node block true = .ok ()) :
    block.vtx ≠ [] ∧ node.prim.buildMerkleTree block.vtx = (block.hashMerkleRoot, false) := by
  simp only [checkBlock, Bool.true_and] at accepted
  split at accepted
  · cases accepted
  split at accepted
  · cases accepted
  split at accepted
  · cases accepted
  next root =>
  split at accepted
  · cases accepted
  next mutated =>
  split at accepted
  · cases accepted
  next size =>
  refine ⟨?_, Prod.ext ?_ ?_⟩
  · intro empty
    simp [empty] at size
  · simpa using (Eq.symm (by simpa using root))
  · simpa using mutated

/-- The merkle root commits to the transaction ids, and so the hash of a block that two nodes
accept to its transactions. -/
theorem merkleRoot_commits {txids others : List Uint256} (safe : CommittingHash hash txids others) :
    ((buildMerkleTree hash txids).2 = false → (buildMerkleTree hash others).2 = false →
      (buildMerkleTree hash txids).1 = (buildMerkleTree hash others).1 →
      merkleLevels txids = merkleLevels others → txids = others) ∧
    ∀ (node other : Node) (block otherBlock : CBlock),
      node.prim.buildMerkleTree = merkleTreeOf hash →
      other.prim.buildMerkleTree = merkleTreeOf hash →
      block.vtx.map CTransaction.hash = txids → otherBlock.vtx.map CTransaction.hash = others →
      (block.hash = otherBlock.hash → block.hashMerkleRoot = otherBlock.hashMerkleRoot) →
      (∀ tx ∈ block.vtx, ∀ otherTx ∈ otherBlock.vtx, tx.hash = otherTx.hash → tx = otherTx) →
      checkBlock node block true = .ok () → checkBlock other otherBlock true = .ok () →
      block.hash = otherBlock.hash → block.vtx = otherBlock.vtx := by
  refine ⟨safe.eq_of_levels_eq, ?_⟩
  intro node other block otherBlock tree otherTree ids otherIds header txHash accepted
    otherAccepted sameHash
  obtain ⟨some, root⟩ := merkleTree_of_checkBlock accepted
  obtain ⟨otherSome, otherRoot⟩ := merkleTree_of_checkBlock otherAccepted
  rw [tree, merkleTreeOf, ids] at root
  rw [otherTree, merkleTreeOf, otherIds] at otherRoot
  have same : txids = others := by
    apply safe.eq_of_root_eq
    · rw [← ids]
      simpa using some
    · rw [← otherIds]
      simpa using otherSome
    · rw [root]
    · rw [otherRoot]
    · rw [root, otherRoot]
      exact header sameHash
  apply HashTree.eq_of_map_eq txHash
  rw [ids, otherIds, same]

namespace Sample

def coinbaseTx : CTransaction :=
  { hash := 20, vin := [{ prevout := COutPoint.null, scriptSig := [0, 0] }], vout := [⟨0, []⟩] }

def payment (txid : Uint256) : CTransaction :=
  { hash := txid, vin := [{ prevout := ⟨11, 0⟩ }], vout := [⟨1000, [2]⟩] }

/-- A node without a chain. -/
def freshNode : Node where
  params := mainParams
  prim :=
    { verifyScript := fun _ _ _ _ => true
      getLegacySigOpCount := fun _ => 1
      getP2SHSigOpCount := fun _ _ => 0
      checkProofOfWork := fun _ _ => true
      buildMerkleTree := merkleTreeOf pairHash
      blockSize := fun _ => 1000
      txSize := fun _ => 200
      masternodePaymentValid := fun _ _ => true }
  tip := none
  mapBlockIndex := fun _ => none

def threeTxs : CBlock where
  hash := 2
  hashPrevBlock := 1
  hashMerkleRoot := (merkleTreeOf pairHash [coinbaseTx, payment 21, payment 22]).1
  vtx := [coinbaseTx, payment 21, payment 22]

theorem inner_apart : ∀ pair ∈ HashTree.inputs pairHash [20, 21, 22] ++
    HashTree.inputs pairHash [20, 21, 22],
      pairHash pair.1 pair.2 ∉ [20, 21, 22] ∧ pairHash pair.1 pair.2 ∉ [20, 21, 22] := by
  have all : (HashTree.inputs pairHash [20, 21, 22] ++ HashTree.inputs pairHash [20, 21, 22]).all
      (fun pair => decide (pairHash pair.1 pair.2 ∉ [20, 21, 22] ∧
        pairHash pair.1 pair.2 ∉ [20, 21, 22])) = true := by decide
  exact fun pair inside => of_decide_eq_true (List.all_eq_true.mp all pair inside)

end Sample

theorem merkleRoot_commits_three :
    Sample.threeTxs.vtx = { Sample.threeTxs with vchBlockSig := [7] }.vtx :=
  (@merkleRoot_commits Sample.pairHash [20, 21, 22] [20, 21, 22] ⟨by decide, Sample.inner_apart⟩).2
    Sample.freshNode Sample.freshNode Sample.threeTxs { Sample.threeTxs with vchBlockSig := [7] }
    rfl rfl (by decide) (by decide) (fun _ => rfl) (by decide) (by decide) (by decide) rfl

end CentNode
