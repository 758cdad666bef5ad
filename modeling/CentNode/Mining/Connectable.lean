import Mathlib.Algebra.Group.Action.Defs
import Mathlib.Algebra.Order.BigOperators.Group.List
import CentNode.Mining.SelectionPasses

/-!
# Whether a created block connects

The loop of `CreateNewBlock` selects on coins to which the coinstake was not
applied, and with budgets in which neither the coinbase nor the coinstake is
counted.  The block connects when nothing in the pool spends what the coinstake
spends, and when the two leave room for all that the budgets let in.
-/

namespace CentNode

open List Option

open FlatCoins

/-- The serialized block is small enough, and so is the number of signature operations. -/
structure BlockFits (txOf : Uint256 → CTransaction) (vtx : List CTransaction) : Prop where
  size : blockSerializeSize vtx [] ≤ maxBlockSize
  sigOps : (vtx.map (CTransaction.sigOps txOf)).sum ≤ maxBlockSigOps

namespace MinerContext

variable {Priority : Type} (context : MinerContext Priority) (txOf : Uint256 → CTransaction)

/-- The coinbase of a block with a stake. -/
def stakeCoinbase (scriptPubKeyIn : CScript) (prev : CBlockIndex) : CTransaction :=
  context.finalCoinbase (context.newCoinbase scriptPubKeyIn prev) prev true 0

/-- What the block holds before the loop. -/
def stakeBase (scriptPubKeyIn : CScript) (prev : CBlockIndex) (coinstake : CTransaction) :
    List CTransaction :=
  [context.stakeCoinbase scriptPubKeyIn prev, coinstake]

/-- What `CreateNewBlock` finds: sound coins, a consistent pool, and a coinstake whose inputs
are unspent.  Ids identify transactions, and that of the new coinbase is not in use. -/
structure Prepared (scriptPubKeyIn : CScript) (prev : CBlockIndex) (coinstake : CTransaction) :
    Prop where
  tip : context.node.tip = some prev
  sound : context.pcoinsTip.Sound txOf
  consistent : context.mempool.Consistent context.pcoinsTip
  faithful : ∀ id entry, context.mempool.Holds id entry → txOf id = entry.tx
  isCoinStake : coinstake.isCoinStake = true
  stakeFaithful : txOf coinstake.hash = coinstake
  stakeDistinct : coinstake.prevouts.Nodup
  stakeUnspent : ∀ out ∈ coinstake.prevouts, context.pcoinsTip.Unspent out
  coinbaseNew : (context.pcoinsTip.coins
    (context.stakeCoinbase scriptPubKeyIn prev).hash).isPruned = true

/-- Nothing that may be selected spends an outpoint of the coinstake, and coinbase and coinstake
leave room for what the two budgets let in, or for the whole pool where that is less. -/
structure Unopposed (scriptPubKeyIn : CScript) (prev : CBlockIndex) (coinstake : CTransaction) :
    Prop where
  apart : ∀ tx ∈ context.candidates (prev.nHeight + 1),
    1000 + tx.serializeSize < context.args.nBlockMaxSize →
      ∀ out ∈ tx.prevouts, out ∉ coinstake.prevouts
  /-- The header takes 80 bytes, and the signature that is still missing one. -/
  size : 80 + getSizeOfCompactSize ((context.candidates (prev.nHeight + 1)).length + 2) +
      (context.stakeCoinbase scriptPubKeyIn prev).serializeSize + coinstake.serializeSize + 1 +
        min (context.args.nBlockMaxSize - 1001)
          ((context.candidates (prev.nHeight + 1)).map CTransaction.serializeSize).sum ≤
    maxBlockSize
  sigOps : (context.stakeCoinbase scriptPubKeyIn prev).sigOps txOf + coinstake.sigOps txOf +
      min (maxBlockSigOps - 101)
        ((context.candidates (prev.nHeight + 1)).map (CTransaction.sigOps txOf)).sum ≤
    maxBlockSigOps

/-! ## The scratch view and the coins of the block -/

/-- What is unspent in the scratch view is so in the coins of the block, but for what the
coinstake spends. -/
def Ahead (coinstake : CTransaction) (scratch actual : FlatCoins) : Prop :=
  ∀ out, scratch.Unspent out → out ∉ coinstake.prevouts → actual.Unspent out

section Coins

variable {context txOf} {scriptPubKeyIn : CScript} {prev : CBlockIndex} {nHeight : Int}
  {coinstake tx : CTransaction}

theorem Ahead.grow {scratch scratchMiddle scratchNext actual middle next : FlatCoins}
    {vprevout undo : List CTxInUndo} (ahead : Ahead coinstake scratch actual)
    (onScratch : AppliedTx nHeight scratch tx scratchMiddle scratchNext vprevout)
    (onActual : AppliedTx nHeight actual tx middle next undo) :
    Ahead coinstake scratchNext next := by
  intro out unspent apart
  by_cases same : out.hash = tx.hash
  · rw [FlatCoins.Unspent, same, onScratch.added] at unspent
    rw [FlatCoins.Unspent, same, onActual.added]
    exact unspent
  · rw [FlatCoins.Unspent, onScratch.others same] at unspent
    rw [FlatCoins.Unspent, onActual.others same]
    obtain ⟨before, unused⟩ := (onScratch.spent.available out.hash out.n).mp unspent
    exact (onActual.spent.available out.hash out.n).mpr ⟨ahead out before apart, unused⟩

section

variable (prepared : context.Prepared txOf scriptPubKeyIn prev coinstake)

include prepared

theorem Prepared.ids : context.Faithful txOf := fun id entry held =>
  ⟨prepared.consistent.keyed id entry held, prepared.faithful id entry held⟩

theorem Prepared.distinct (candidate : tx ∈ context.candidates nHeight) : tx.prevouts.Nodup := by
  obtain ⟨id, entry, held, rfl⟩ := held_of_candidate candidate
  refine nodup_iff_injective_getElem.mpr fun i j same => Fin.ext ?_
  have equal : entry.tx.prevouts[i] = entry.tx.prevouts[j] := same
  have here : entry.tx.prevouts[(i : Nat)]? = some entry.tx.prevouts[i] := getElem?_eq_getElem i.2
  have there : entry.tx.prevouts[(j : Nat)]? = some entry.tx.prevouts[i] := by
    rw [equal]
    exact getElem?_eq_getElem j.2
  exact (prepared.consistent.spentOnce id entry id entry held held i j _ here there).2

end

variable {state next final : Selection Priority} {passes : Nat}

theorem sum_le_of_subperm {vtx pending pool : List CTransaction} (size : CTransaction → Nat)
    (held : (vtx ++ pending).Subperm pool) : (vtx.map size).sum ≤ (pool.map size).sum := by
  obtain ⟨chosen, perm, sublist⟩ := held
  have least := (sublist.map size).sum_le_sum fun _ _ => Nat.zero_le _
  rw [(perm.map size).sum_eq, map_append, sum_append] at least
  omega

/-- Within the budgets, there is room beside coinbase and coinstake. -/
theorem Chosen.fits (kept : Chosen context txOf (prev.nHeight + 1) state)
    (prepared : context.Prepared txOf scriptPubKeyIn prev coinstake)
    (unopposed : context.Unopposed txOf scriptPubKeyIn prev coinstake) :
    BlockFits txOf (context.stakeBase scriptPubKeyIn prev coinstake ++ state.vtx) := by
  constructor
  · have few : getSizeOfCompactSize (state.vtx.length + 2) ≤
        getSizeOfCompactSize ((context.candidates (prev.nHeight + 1)).length + 2) := by
      have shorter := kept.held.length_le
      rw [length_append] at shorter
      exact getSizeOfCompactSize_mono (by omega)
    have size_eq : blockSerializeSize
        (context.stakeBase scriptPubKeyIn prev coinstake ++ state.vtx) [] =
          80 + (getSizeOfCompactSize (state.vtx.length + 2) +
            ((context.stakeCoinbase scriptPubKeyIn prev).serializeSize + (coinstake.serializeSize +
              (state.vtx.map CTransaction.serializeSize).sum))) + 1 := by
      simp only [blockSerializeSize, stakeBase, cons_append, nil_append, prepared.isCoinStake,
        if_true, vectorSize, map_cons, length_cons, length_map, sum_cons]
      rfl
    have chosen := Nat.le_min.mpr ⟨kept.size_le, sum_le_of_subperm CTransaction.serializeSize
      kept.held⟩
    have room := unopposed.size
    rw [size_eq]
    omega
  · have chosen := Nat.le_min.mpr ⟨kept.sigOps_le, sum_le_of_subperm (CTransaction.sigOps txOf)
      kept.held⟩
    have room := unopposed.sigOps
    simp only [stakeBase, cons_append, nil_append, map_cons, sum_cons]
    omega

end Coins

end MinerContext

/-! ## A pool with one transaction -/

namespace TemplateSample

/-- Two coins; the first is staked. -/
def funding (txid : Uint256) : CTransaction :=
  { hash := txid, vin := [{ prevout := COutPoint.null, scriptSig := [0, 0] }], vout := [⟨100, [1]⟩] }

def coinstake : CTransaction :=
  { hash := 21, vin := [{ prevout := ⟨10, 0⟩ }], vout := [⟨0, []⟩, ⟨110, [1]⟩] }

/-- A transaction of the pool that spends one of the coins. -/
def payment (coin : Uint256) : CTransaction :=
  { hash := 30, vin := [{ prevout := ⟨coin, 0⟩ }], vout := [⟨90, [1]⟩] }

def entry (coin : Uint256) : CTxMemPoolEntry :=
  { tx := payment coin, nTxSize := (payment coin).serializeSize, nFee := 10 }

def txOf (coin txid : Uint256) : CTransaction :=
  if txid = 10 ∨ txid = 11 then funding txid
  else if txid = 21 then coinstake
  else if txid = 30 then payment coin
  else { hash := txid, vin := [], vout := [] }

/-- Priorities are integers here. -/
def arith : PriorityArith Int where
  zero := 0
  add := (· + ·)
  weigh := (· * ·)
  div := fun priority nTxSize => priority / nTxSize
  lt := fun a b => decide (a < b)
  beq := fun a b => decide (a = b)
  allowFree := fun priority => decide (priority > 0)

def context (coin : Uint256) : MinerContext Int where
  node := Sample.node true 9
  pcoinsTip :=
    { coins := fun txid =>
        if txid = 10 ∨ txid = 11 then { vout := [⟨100, [1]⟩], nHeight := 1, nVersion := 1 }
        else CCoins.cleared
      bestBlock := 1 }
  mempool := TxPool.addUnchecked {} 30 (entry coin)
  arith := arith
  heap := HeapAlgorithms.greatest
  minRelayTxFee := 10000
  getHash := fun _ => 50
  fillBlockPayee := fun vout _ => vout

variable {coin : Uint256}

theorem sound : (context coin).pcoinsTip.Sound (txOf coin) := by
  have funded_eq : ∀ txid, txid = 10 ∨ txid = 11 → (context coin).pcoinsTip.coins txid =
      { vout := [⟨100, [1]⟩], nHeight := 1, nVersion := 1 } := fun txid funded => if_pos funded
  have other : ∀ txid, ¬ (txid = 10 ∨ txid = 11) →
      (context coin).pcoinsTip.coins txid = CCoins.cleared := fun txid differs => if_neg differs
  refine ⟨fun txid n txout unspent => ?_, fun txid left => ?_⟩
  · by_cases funded : txid = 10 ∨ txid = 11
    · rw [funded_eq txid funded] at unspent
      rw [spendableAt, txOf, if_pos funded]
      cases n with
      | zero => exact unspent
      | succ n => exact unspent
    · rw [other txid funded] at unspent
      cases unspent
  · by_cases funded : txid = 10 ∨ txid = 11
    · refine Acc.intro _ fun parent spent => ?_
      obtain ⟨out, member, _⟩ := spent
      rw [txOf, if_pos funded] at member
      exact absurd member not_mem_nil
    · rw [other txid funded] at left
      cases left

theorem unspent (funded : coin = 10 ∨ coin = 11) :
    ∀ out ∈ (payment coin).prevouts, (context coin).pcoinsTip.Unspent out := by
  intro out member
  rw [mem_singleton.mp member]
  rcases funded with rfl | rfl <;> rfl

theorem rooted (funded : coin = 10 ∨ coin = 11) :
    (context coin).mempool.Rooted (txOf coin) (context coin).pcoinsTip.Unspent := by
  have only : ∀ id held, (context coin).mempool.Holds id held → id = 30 ∧ held = entry coin := by
    intro id held found
    have cases_of := TxPool.holds_addUnchecked.mp found
    split at cases_of
    · next same => exact ⟨same, cases_of.symm⟩
    · cases cases_of
  have loose : (payment coin).isCoinBase = false := by
    rcases funded with rfl | rfl <;> rfl
  refine ⟨?_, ?_, ?_, ?_, ?_, ?_⟩
  · have nodup : (entry coin).tx.prevouts.Nodup := nodup_singleton _
    exact TxPool.indexed_empty.addUnchecked rfl nodup fun _ _ => rfl
  · intro id held found
    obtain ⟨rfl, rfl⟩ := only id held found
    rfl
  · intro id held found
    obtain ⟨rfl, rfl⟩ := only id held found
    exact loose
  · intro id held found out member
    obtain ⟨rfl, rfl⟩ := only id held found
    exact (unspent funded out member).real sound.traced
  · intro id held found out member
    obtain ⟨rfl, rfl⟩ := only id held found
    exact Or.inl (unspent funded out member)
  · intro id held found
    obtain ⟨rfl, rfl⟩ := only id held found
    have faithful : txOf coin (payment coin).hash = payment coin := rfl
    exact grounded_of_spends faithful fun out member =>
      (unspent funded out (by rwa [CTransaction.spends, if_neg (by simp [loose])] at member)).grounded
        sound

theorem prepared (funded : coin = 10 ∨ coin = 11) :
    (context coin).Prepared (txOf coin) [1] (Sample.parent 9) coinstake where
  tip := rfl
  sound := sound
  consistent := (rooted funded).consistent
  faithful := (rooted funded).faithful
  isCoinStake := rfl
  stakeFaithful := rfl
  stakeDistinct := nodup_singleton _
  stakeUnspent := by
    intro out member
    rw [mem_singleton.mp member]
    rfl
  coinbaseNew := rfl

end TemplateSample

namespace MinerContext

end MinerContext

end CentNode
