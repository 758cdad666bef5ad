import CentNode.Chain.DiskIndex
import CentNode.Chain.IndexState
import CentNode.Staking.StakeModifier

/-!
# The block index with the fields that are stored

`AddToBlockIndex` and `ReceivedBlockTransactions` on the index together with the
fields of its entries that go to disk, and the updates of the validity.  An
entry with its data is linked to its parent, or waits in `mapBlocksUnlinked`
for a parent that counts no transactions.
-/

namespace CentNode

/-! ## Blocks that arrive -/

/-- A block, or a header without transactions. -/
structure IncomingBlock where
  header : CBlockHeader
  vtx : List CTransaction

namespace IncomingBlock

def toBlock (hashOf : CBlockHeader → Uint256) (block : IncomingBlock) : CBlock where
  hash := hashOf block.header
  nVersion := block.header.nVersion.toInt
  hashPrevBlock := block.header.hashPrevBlock
  hashMerkleRoot := block.header.hashMerkleRoot
  nTime := block.header.nTime.toNat
  nBits := block.header.nBits.toNat
  vtx := block.vtx

def isProofOfStake (block : IncomingBlock) : Bool :=
  match block.vtx with
  | _ :: second :: _ => second.isCoinStake
  | _ => false

def stakePrevout (block : IncomingBlock) : StakePrevout :=
  match block.vtx with
  | _ :: coinstake :: _ =>
    match coinstake.vin with
    | txin :: _ => ⟨txin.prevout.hash, BitVec.ofNat 32 txin.prevout.n⟩
    | [] => {}
  | _ => {}

end IncomingBlock

/-- `nFlags` from its three bits. -/
def flagWord (proofOfStake stakeEntropy stakeModifier : Bool) : BitVec 32 :=
  (if proofOfStake then 1 else 0) ||| (if stakeEntropy then 2 else 0) |||
    (if stakeModifier then 4 else 0)

theorem flagWord_lsb (proofOfStake stakeEntropy stakeModifier : Bool) :
    (flagWord proofOfStake stakeEntropy stakeModifier).getLsbD 0 = proofOfStake := by
  cases proofOfStake <;> cases stakeEntropy <;> cases stakeModifier <;> rfl

/-- The fields of a new entry; the stake fields below the flags are only set
under a parent. -/
def IncomingBlock.newFields (block : IncomingBlock) (hash : Uint256) (hasParent : Bool)
    (modifier : NextModifier) : BlockFields where
  nFlags := flagWord block.isProofOfStake (hasParent && hash.getLsbD 0)
    (hasParent && modifier.fGeneratedStakeModifier)
  nStakeModifier := if hasParent then modifier.nStakeModifier else 0
  prevoutStake := if block.isProofOfStake then block.stakePrevout else {}
  nStakeTime := if block.isProofOfStake then block.header.nTime else 0
  nVersion := block.header.nVersion
  hashMerkleRoot := block.header.hashMerkleRoot
  nTime := block.header.nTime
  nBits := block.header.nBits
  nNonce := block.header.nNonce

structure CDiskBlockPos where
  nFile : Nat
  nPos : Nat

def BlockFields.receive (fields : BlockFields) (block : IncomingBlock) (pos : CDiskBlockPos) :
    BlockFields :=
  { fields with
    nFlags := if block.isProofOfStake then fields.nFlags ||| 1 else fields.nFlags
    nFile := pos.nFile
    nDataPos := pos.nPos
    nUndoPos := 0 }

/-- The fields that `ConnectBlock` and its callers set. -/
def BlockFields.revalidate (fields other : BlockFields) : BlockFields :=
  { fields with
    nUndoPos := other.nUndoPos
    nMint := other.nMint
    nMoneySupply := other.nMoneySupply }

/-! ## The states of the index -/

structure StoredIndex where
  index : IndexState
  fields : BlockPtr → BlockFields

namespace StoredIndex

variable (hashOf : CBlockHeader → Uint256)

/-- An index without entries. -/
def empty : StoredIndex where
  index :=
    { tree :=
        { mapBlockIndex := ∅
          phashBlock := fun _ => 0
          pprev := fun _ => none
          pskip := fun _ => none
          nHeight := fun _ => 0
          nChainWork := fun _ => 0 }
      nStatus := fun _ => {}
      nTx := fun _ => 0
      nChainTx := fun _ => 0
      nSequenceId := fun _ => 0
      chainActive := []
      setBlockIndexCandidates := []
      mapBlocksUnlinked := []
      nBlockSequenceId := 1 }
  fields := fun _ => {}

/-- `AddToBlockIndex`, with what `ComputeNextStakeModifier` writes. -/
def addToBlockIndex (state : StoredIndex) (address : BlockPtr) (block : IncomingBlock)
    (modifier : NextModifier) : Option StoredIndex :=
  match state.index.addToBlockIndex address (block.toBlock hashOf) with
  | none => none
  | some (next, pindex) =>
    if (state.index.tree.mapBlockIndex.lookup (hashOf block.header)).isSome then some state
    else
      some
        { index := next
          fields := Function.update state.fields pindex
            (block.newFields (hashOf block.header) (next.tree.pprev pindex).isSome modifier) }

def receivedBlockTransactions (state : StoredIndex) (block : IncomingBlock) (pindexNew : BlockPtr)
    (pos : CDiskBlockPos) : StoredIndex where
  index := state.index.receivedBlockTransactions (block.toBlock hashOf) pindexNew
  fields := Function.update state.fields pindexNew ((state.fields pindexNew).receive block pos)

/-- The callers add a header under an entry, or the genesis block, which has no
parent and whose hash is not zero. -/
def Addable (state : StoredIndex) (block : IncomingBlock) : Prop :=
  (state.index.tree.mapBlockIndex.lookup block.header.hashPrevBlock).isSome = true ∨
    (block.header.hashPrevBlock = 0 ∧ hashOf block.header ≠ 0)

/-- `AcceptBlock` takes data for an entry that has none and whose parent is not
failed, after `CheckBlock` bounded the number of transactions. -/
structure Receivable (state : StoredIndex) (block : IncomingBlock) (pindexNew : BlockPtr) :
    Prop where
  found : state.index.tree.mapBlockIndex.lookup (hashOf block.header) = some pindexNew
  missing : (state.index.nStatus pindexNew).haveData = false
  parentClear : ∀ parent, state.index.tree.pprev pindexNew = some parent →
    (state.index.nStatus parent).failed = false
  filled : block.vtx ≠ []
  bounded : block.vtx.length ≤ maxBlockSize

/-- The updates of the validity: flags and levels of the entries, undo
positions and amounts change, with the chain and the candidates.  A level is
only raised, and no block loses its data. -/
structure Revalidates (state next : StoredIndex) : Prop where
  tree : next.index.tree = state.index.tree
  nTx : next.index.nTx = state.index.nTx
  nChainTx : next.index.nChainTx = state.index.nChainTx
  unlinked : next.index.mapBlocksUnlinked = state.index.mapBlocksUnlinked
  haveData : ∀ pindex, (next.index.nStatus pindex).haveData = (state.index.nStatus pindex).haveData
  level : ∀ pindex, (state.index.nStatus pindex).validity.level ≤
    (next.index.nStatus pindex).validity.level
  fields : ∀ pindex, ∃ other, next.fields pindex = (state.fields pindex).revalidate other

/-- The block indexes that can come about. -/
inductive Reachable : StoredIndex → Prop where
  | empty : Reachable StoredIndex.empty
  | added {state next : StoredIndex} (before : Reachable state) {address : BlockPtr}
      {block : IncomingBlock} {modifier : NextModifier} (addable : state.Addable hashOf block)
      (added : state.addToBlockIndex hashOf address block modifier = some next) : Reachable next
  | received {state : StoredIndex} (before : Reachable state) {block : IncomingBlock}
      {pindexNew : BlockPtr} {pos : CDiskBlockPos}
      (receivable : state.Receivable hashOf block pindexNew) :
      Reachable (state.receivedBlockTransactions hashOf block pindexNew pos)
  | revalidated {state next : StoredIndex} (before : Reachable state)
      (revalidates : state.Revalidates next) : Reachable next

end StoredIndex

end CentNode
