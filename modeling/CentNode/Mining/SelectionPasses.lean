import CentNode.Chain.PoolRuns
import CentNode.Mining.BlockTemplate

/-!
# The passes of the selection

What one pass of the loop of `CreateNewBlock` can do, and what the whole loop
keeps: the selected transactions are those of the pool, they apply to the coins
one after another, and the budgets count them and nothing else.
-/

namespace CentNode

open List Option

open FlatCoins

/-- The signature operations of a transaction, with the outputs that its inputs name. -/
def CTransaction.sigOps (txOf : Uint256 → CTransaction) (tx : CTransaction) : Nat :=
  getLegacySigOpCount tx + getP2SHSigOpCount tx fun txin => spendableAt txOf txin.prevout

theorem getOutputFor_eq {txOf : Uint256 → CTransaction} {view : FlatCoins}
    (traced : view.Traced txOf) {txin : CTxIn}
    (available : (view.coins txin.prevout.hash).isAvailable txin.prevout.n = true) :
    view.getOutputFor txin = spendableAt txOf txin.prevout := by
  obtain ⟨txout, found, notNull⟩ := CCoins.isAvailable_iff.mp available
  rw [FlatCoins.getOutputFor, if_pos available, found]
  exact (traced _ _ txout (CCoins.output_eq_some.mpr ⟨found, notNull⟩)).symm

theorem sigOps_eq {txOf : Uint256 → CTransaction} {view : FlatCoins} (traced : view.Traced txOf)
    {tx : CTransaction} (present : view.haveInputs tx = true) :
    getLegacySigOpCount tx + getP2SHSigOpCount tx view.getOutputFor = tx.sigOps txOf := by
  refine congrArg (getLegacySigOpCount tx + ·) (getP2SHSigOpCount_congr fun spends txin member => ?_)
  exact getOutputFor_eq traced (available_of_haveInputs present spends member)

namespace Selection

variable {Priority : Type}

/-- The transactions that may still be selected. -/
def pending (state : Selection Priority) : List CTransaction :=
  state.vecPriority.map TxPriority.ptx ++ state.vOrphan.map COrphan.ptx

end Selection

namespace MinerContext

variable {Priority : Type} {context : MinerContext Priority} {txOf : Uint256 → CTransaction}
  {nHeight : Int} {state next : Selection Priority}

/-! ## One pass -/

/-- The transaction that a pass adds to the block. -/
structure TakenTx (context : MinerContext Priority) (nHeight : Int)
    (state next : Selection Priority) (tx : CTransaction) : Prop where
  moved : state.pending.Perm (tx :: next.pending)
  size_lt : state.nBlockSize + tx.serializeSize < context.args.nBlockMaxSize
  sigOps_lt : state.nBlockSigOps +
    (getLegacySigOpCount tx + getP2SHSigOpCount tx state.view.getOutputFor) < maxBlockSigOps
  present : state.view.haveInputs tx = true
  updated : ∃ txundo, updateCoins tx state.view nHeight = some (next.view, txundo)
  vtx_eq : next.vtx = state.vtx ++ [tx]
  size_eq : next.nBlockSize = state.nBlockSize + tx.serializeSize
  sigOps_eq : next.nBlockSigOps = state.nBlockSigOps +
    (getLegacySigOpCount tx + getP2SHSigOpCount tx state.view.getOutputFor)

/-- A pass takes a transaction off the queue, and leaves the block as it is. -/
structure DroppedTx (state next : Selection Priority) : Prop where
  dropped : ∃ tx, state.pending.Perm (tx :: next.pending)
  view_eq : next.view = state.view
  vtx_eq : next.vtx = state.vtx
  size_eq : next.nBlockSize = state.nBlockSize
  sigOps_eq : next.nBlockSigOps = state.nBlockSigOps

def PassEffect (context : MinerContext Priority) (nHeight : Int)
    (state next : Selection Priority) : Prop :=
  DroppedTx state next ∨ ∃ tx, TakenTx context nHeight state next tx

theorem PassEffect.shrinks (effect : PassEffect context nHeight state next) :
    next.pending.length < state.pending.length := by
  have shorter : ∀ {tx}, state.pending.Perm (tx :: next.pending) →
      next.pending.length < state.pending.length := by
    intro tx perm
    rw [perm.length_eq]
    exact Nat.lt_succ_self _
  rcases effect with ⟨⟨tx, perm⟩, _⟩ | ⟨tx, taken⟩
  · exact shorter perm
  · exact shorter taken.moved

theorem release_pending (state : Selection Priority) (hash : Uint256) :
    (release state hash).pending.Perm state.pending := by
  unfold release Selection.pending
  dsimp only
  rw [map_append, append_assoc, List.map_map]
  refine Perm.append_left _ ?_
  have split := (filter_append_perm (fun porphan : COrphan Priority => porphan.setDependsOn.isEmpty)
    (state.vOrphan.map fun porphan =>
      { porphan with setDependsOn := porphan.setDependsOn.erase hash })).map COrphan.ptx
  rw [map_append, List.map_map] at split
  exact split

variable {tx : CTransaction}

theorem judge_take {nTxFees : Int} {nTxSigOps : Nat}
    (judged : context.judge state tx = some (.take nTxFees nTxSigOps)) :
    state.view.haveInputs tx = true ∧
      nTxSigOps = getLegacySigOpCount tx + getP2SHSigOpCount tx state.view.getOutputFor ∧
        state.nBlockSigOps + nTxSigOps < maxBlockSigOps := by
  unfold judge at judged
  split at judged
  · cases judged
  next present =>
  obtain ⟨nValueIn, _, rest⟩ := bind_eq_some_iff.mp judged
  obtain ⟨nValueOut, _, tested⟩ := bind_eq_some_iff.mp rest
  dsimp only at tested
  split at tested
  · cases tested
  next fits =>
  split at tested
  · cases tested
  · cases tested
  · cases tested
  · cases tested
    exact ⟨by simpa using present, rfl, Nat.lt_of_not_le fits⟩

theorem passWith_effect {entry : TxPriority Priority} {rest : List (TxPriority Priority)}
    (popped : state.vecPriority.Perm (entry :: rest))
    (passed : context.passWith nHeight { state with vecPriority := rest } entry = some next) :
    PassEffect context nHeight state next := by
  have moved : state.pending.Perm
      (entry.ptx :: (rest.map TxPriority.ptx ++ state.vOrphan.map COrphan.ptx)) :=
    (popped.map TxPriority.ptx).append_right _
  unfold passWith at passed
  split at passed
  · cases passed
    exact Or.inl ⟨⟨entry.ptx, moved⟩, rfl, rfl, rfl, rfl⟩
  next accepted =>
  obtain ⟨verdict, judged, followed⟩ := bind_eq_some_iff.mp passed
  cases verdict with
  | skip =>
    cases followed
    exact Or.inl ⟨⟨entry.ptx, moved⟩, rfl, rfl, rfl, rfl⟩
  | take nTxFees nTxSigOps =>
    obtain ⟨present, rfl, fits⟩ := judge_take judged
    obtain ⟨updated, applied, rfl⟩ := map_eq_some_iff.mp followed
    have small : state.nBlockSize + entry.ptx.serializeSize < context.args.nBlockMaxSize := by
      unfold refuses at accepted
      dsimp only at accepted
      simp only [Bool.or_eq_true, decide_eq_true_eq, not_or] at accepted
      exact Nat.lt_of_not_le accepted.1.1
    refine Or.inr ⟨entry.ptx, ?_, small, fits, present, ⟨updated.2, applied⟩, rfl, rfl, rfl⟩
    refine moved.trans (Perm.cons _ (Perm.symm ?_))
    exact release_pending _ _

theorem pass_effect (passed : context.pass nHeight state = some next) :
    PassEffect context nHeight state next := by
  obtain ⟨⟨entry, rest⟩, popped, followed⟩ := bind_eq_some_iff.mp passed
  exact passWith_effect (context.heap.popHeap_perm _ _ _ _ popped) followed

variable {final : Selection Priority}

/-- There are enough passes for the whole queue. -/
theorem selectTxs_ends {passes : Nat} (enough : state.pending.length ≤ passes)
    (selected : context.selectTxs nHeight passes state = some final) : final.vecPriority = [] := by
  induction passes generalizing state with
  | zero =>
    cases selected
    have empty : final.pending = [] := length_eq_zero_iff.mp (by omega)
    exact map_eq_nil_iff.mp (append_eq_nil_iff.mp empty).1
  | succ passes ih =>
    rw [selectTxs] at selected
    split at selected
    · next empty =>
        cases selected
        exact List.isEmpty_iff.mp empty
    · obtain ⟨next, passed, followed⟩ := bind_eq_some_iff.mp selected
      have shrinks := (pass_effect passed).shrinks
      exact ih (by omega) followed

/-! ## The whole loop -/

/-- The loop over the pool does not pass over the transaction at once. -/
def offers (context : MinerContext Priority) (nHeight : Int) (tx : CTransaction) : Bool :=
  !(tx.isCoinBase || tx.isCoinStake || !isFinalTx tx nHeight context.node.adjustedTime)

/-- What may come to the queue. -/
def candidates (context : MinerContext Priority) (nHeight : Int) : List CTransaction :=
  (context.mempool.mapTx.entries.map fun entry => entry.2.tx).filter (context.offers nHeight)

theorem held_of_candidate (candidate : tx ∈ context.candidates nHeight) :
    ∃ id entry, context.mempool.Holds id entry ∧ entry.tx = tx := by
  obtain ⟨⟨id, entry⟩, inside, rfl⟩ := List.mem_map.mp (mem_of_mem_filter candidate)
  exact ⟨id, entry, AList.mem_lookup_iff.mpr inside, rfl⟩

variable {gathered before : List (TxPriority Priority) × List (COrphan Priority)}

/-- What every pass keeps. -/
structure Chosen (context : MinerContext Priority) (txOf : Uint256 → CTransaction) (nHeight : Int)
    (state : Selection Priority) : Prop where
  held : (state.vtx ++ state.pending).Subperm (context.candidates nHeight)
  ran : coinsAfter nHeight context.pcoinsTip state.vtx = some state.view
  traced : state.view.Traced txOf
  size_eq : state.nBlockSize = 1000 + (state.vtx.map CTransaction.serializeSize).sum
  sigOps_eq : state.nBlockSigOps = 100 + (state.vtx.map (CTransaction.sigOps txOf)).sum
  size_le : (state.vtx.map CTransaction.serializeSize).sum ≤ context.args.nBlockMaxSize - 1001
  sigOps_le : (state.vtx.map (CTransaction.sigOps txOf)).sum ≤ maxBlockSigOps - 101

/-- The pool holds each transaction under its id. -/
abbrev Faithful (context : MinerContext Priority) (txOf : Uint256 → CTransaction) : Prop :=
  ∀ id entry, context.mempool.Holds id entry → entry.tx.hash = id ∧ txOf id = entry.tx

theorem Chosen.candidate (kept : Chosen context txOf nHeight state)
    (taken : TakenTx context nHeight state next tx) : tx ∈ context.candidates nHeight :=
  kept.held.subset (mem_append_right _ (taken.moved.mem_iff.mpr mem_cons_self))

end MinerContext

end CentNode
