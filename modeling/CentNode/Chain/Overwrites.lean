import CentNode.Chain.Tip
import CentNode.Validation.UndoExactness

/-!
# Overwritten coins

`UpdateCoins` puts the outputs of a transaction in place of whatever record the
coins hold under its id.  The test of BIP30 that would refuse such a block is
made for entries without a hash only, which `ConnectTip` never sees.  A block
overwrites nothing exactly when it spends by itself, in time, what is unspent
under the ids of its transactions.
-/

namespace CentNode

open Option List

open FlatCoins

/-- No transaction finds an unspent output under its id when it is applied. -/
def OverwritesNone (nHeight : Int) (view : FlatCoins) (txs : List CTransaction) : Prop :=
  ∀ before tx after, txs = before ++ tx :: after →
    ∀ current, coinsAfter nHeight view before = some current →
      (current.coins tx.hash).isPruned = true

/-- What is unspent under the id of a transaction, before the block or from an earlier
transaction of the block with that id, is spent in between. -/
structure SpentBefore (nHeight : Int) (view : FlatCoins) (txs : List CTransaction) : Prop where
  old : ∀ before tx after, txs = before ++ tx :: after →
    tx.hash ∉ before.map CTransaction.hash →
      ∀ n, (view.coins tx.hash).isAvailable n = true →
        ⟨tx.hash, n⟩ ∈ before.flatMap CTransaction.spends
  repeated : ∀ first twin between tx after, txs = first ++ twin :: between ++ tx :: after →
    twin.hash = tx.hash → tx.hash ∉ between.map CTransaction.hash →
      ∀ n, (CCoins.fromTx twin nHeight).isAvailable n = true →
        ⟨tx.hash, n⟩ ∈ between.flatMap CTransaction.spends

section Transactions

variable {nHeight : Int} {view final : FlatCoins} {txs : List CTransaction}

theorem coinsAfter_eq_applyTxs (nHeight : Int) (view : FlatCoins) (txs : List CTransaction) :
    coinsAfter nHeight view txs = (applyTxs nHeight view txs).map Prod.fst := by
  induction txs generalizing view with
  | nil => rfl
  | cons tx rest ih =>
    rw [coinsAfter, applyTxs, Option.map_bind]
    refine Option.bind_congr fun updated _ => ?_
    rw [ih, Function.comp, Option.map_map]
    rfl

theorem coinsAfter_append (nHeight : Int) (view : FlatCoins) (first second : List CTransaction) :
    coinsAfter nHeight view (first ++ second) =
      (coinsAfter nHeight view first).bind fun middle => coinsAfter nHeight middle second := by
  induction first generalizing view with
  | nil => rfl
  | cons tx rest ih =>
    rw [cons_append, coinsAfter, coinsAfter, bind_assoc]
    exact Option.bind_congr fun updated _ => ih updated.1

variable {current : FlatCoins} {first between before after : List CTransaction}

theorem coinsAfter_before (ran : coinsAfter nHeight view (before ++ after) = some final) :
    ∃ current, coinsAfter nHeight view before = some current := by
  rw [coinsAfter_append] at ran
  obtain ⟨current, reached, _⟩ := bind_eq_some_iff.mp ran
  exact ⟨current, reached⟩

theorem coinsAfter_available (ran : coinsAfter nHeight view before = some current) {txid : Uint256}
    (old : txid ∉ before.map CTransaction.hash) (n : Nat) :
    (current.coins txid).isAvailable n = true ↔
      (view.coins txid).isAvailable n = true ∧
        ⟨txid, n⟩ ∉ before.flatMap CTransaction.spends := by
  rw [coinsAfter_eq_applyTxs] at ran
  obtain ⟨result, applied, rfl⟩ := map_eq_some_iff.mp ran
  exact applyTxs_available applied old n

theorem coinsAfter_twin {twin : CTransaction}
    (ran : coinsAfter nHeight view (first ++ twin :: between) = some current)
    (last : twin.hash ∉ between.map CTransaction.hash) (n : Nat) :
    (current.coins twin.hash).isAvailable n = true ↔
      (CCoins.fromTx twin nHeight).isAvailable n = true ∧
        ⟨twin.hash, n⟩ ∉ between.flatMap CTransaction.spends := by
  rw [coinsAfter_append] at ran
  obtain ⟨middle, _, rest⟩ := bind_eq_some_iff.mp ran
  obtain ⟨updated, applied, followed⟩ := bind_eq_some_iff.mp rest
  rw [updateCoins_eq] at applied
  obtain ⟨spent, took, rfl⟩ := map_eq_some_iff.mp applied
  have step : AppliedTx nHeight middle twin spent.1 (addOutputs spent.1 twin nHeight) spent.2 :=
    ⟨took, rfl⟩
  rw [coinsAfter_available followed last n, step.added]

theorem last_with_id (txs : List CTransaction) (txid : Uint256) :
    txid ∉ txs.map CTransaction.hash ∨
      ∃ first twin between, txs = first ++ twin :: between ∧ twin.hash = txid ∧
        txid ∉ between.map CTransaction.hash := by
  induction txs with
  | nil => exact Or.inl (not_mem_nil)
  | cons tx rest ih =>
    rcases ih with absent | ⟨first, twin, between, rfl, same, last⟩
    · by_cases here : tx.hash = txid
      · exact Or.inr ⟨[], tx, rest, rfl, here, absent⟩
      · refine Or.inl fun member => ?_
        rcases mem_cons.mp member with equal | later
        · exact here equal.symm
        · exact absent later
    · exact Or.inr ⟨tx :: first, twin, between, rfl, same, last⟩

theorem pruned_iff_spent {coins record : CCoins} {txid : Uint256} {spends : List COutPoint}
    (left : ∀ n, coins.isAvailable n = true ↔
      record.isAvailable n = true ∧ (⟨txid, n⟩ : COutPoint) ∉ spends) :
    coins.isPruned = true ↔
      ∀ n, record.isAvailable n = true → (⟨txid, n⟩ : COutPoint) ∈ spends := by
  rw [CCoins.isPruned_iff_not_available]
  refine forall_congr' fun n => ?_
  rw [Bool.eq_false_iff, Ne, left n, not_and, not_not]

theorem overwritesNone_iff (ran : coinsAfter nHeight view txs = some final) :
    OverwritesNone nHeight view txs ↔ SpentBefore nHeight view txs := by
  constructor
  · intro none
    refine ⟨?_, ?_⟩
    · rintro before tx after rfl fresh
      obtain ⟨current, reached⟩ := coinsAfter_before ran
      exact (pruned_iff_spent (coinsAfter_available reached fresh)).mp
        (none before tx after rfl current reached)
    · rintro first twin between tx after rfl same last
      obtain ⟨current, reached⟩ := coinsAfter_before ran
      have pruned := none (first ++ twin :: between) tx after rfl current reached
      rw [← same] at last pruned ⊢
      exact (pruned_iff_spent (coinsAfter_twin reached last)).mp pruned
  · rintro spent before tx after rfl current reached
    rcases last_with_id before tx.hash with fresh | ⟨first, twin, between, rfl, same, last⟩
    · exact (pruned_iff_spent (coinsAfter_available reached fresh)).mpr
        (spent.old before tx after rfl fresh)
    · have gone := spent.repeated first twin between tx after rfl same last
      rw [← same] at last gone ⊢
      exact (pruned_iff_spent (coinsAfter_twin reached last)).mpr gone

theorem kept_or_spent (ran : coinsAfter nHeight view txs = some final)
    (none : OverwritesNone nHeight view txs) {out : COutPoint}
    (unspent : (view.coins out.hash).isAvailable out.n = true) :
    (final.coins out.hash).isAvailable out.n = true ∨ out ∈ txs.flatMap CTransaction.spends := by
  by_cases created : out.hash ∈ txs.map CTransaction.hash
  · -- the first transaction with the id found the record empty
    obtain ⟨ids, later, shape, fresh⟩ := eq_append_cons_of_mem created
    obtain ⟨before, rest, rfl, rfl, rest_eq⟩ := map_eq_append_iff.mp shape
    obtain ⟨tx, after, rfl, same, _⟩ := map_eq_cons_iff.mp rest_eq
    rw [← same] at fresh unspent
    have spent := ((overwritesNone_iff ran).mp none).old before tx after rfl fresh out.n unspent
    rw [same] at spent
    exact Or.inr (flatMap_append ▸ mem_append_left _ spent)
  · by_cases taken : out ∈ txs.flatMap CTransaction.spends
    · exact Or.inr taken
    · exact Or.inl ((coinsAfter_available ran created out.n).mpr ⟨unspent, taken⟩)

end Transactions

namespace ChainState

/-- The block that a call connects overwrites nothing, and unspent outputs disappear
only where it spends them.  The transactions of the genesis block are not applied. -/
def OverwritesNothing (state : ChainState) : TipCall → Prop
  | .connect node disk pindexNew (some block) fAlreadyChecked _ =>
    ∀ connected, connectBlock { node with tip := state.active.head? } disk block pindexNew
        state.active state.pcoinsTip state.mapStakeSpent false fAlreadyChecked = .ok connected →
      block.hash ≠ node.params.hashGenesisBlock →
        OverwritesNone pindexNew.nHeight state.pcoinsTip block.vtx ∧
          ∀ out, (state.pcoinsTip.coins out.hash).isAvailable out.n = true →
            (connected.view.coins out.hash).isAvailable out.n = true ∨ out ∈ block.spentOutpoints
  | _ => True

/-- The block that a call connects spends in time what is unspent under the ids of its
transactions. -/
def SpendsInTime (state : ChainState) : TipCall → Prop
  | .connect node disk pindexNew (some block) fAlreadyChecked flush =>
    state.applies (.connect node disk pindexNew (some block) fAlreadyChecked flush) = true →
      block.hash ≠ node.params.hashGenesisBlock →
        SpentBefore pindexNew.nHeight state.pcoinsTip block.vtx
  | _ => True

theorem coinsAfter_of_connectBlock {node : Node} {disk : DiskWrites} {block : CBlock}
    {pindex : CBlockIndex} {ancestors : List CBlockIndex} {view : FlatCoins}
    {mapStakeSpent : StakeSpent} {fAlreadyChecked : Bool} {connected : Connected}
    (ok : connectBlock node disk block pindex ancestors view mapStakeSpent false fAlreadyChecked =
      .ok connected) (other : block.hash ≠ node.params.hashGenesisBlock) :
    ∃ final, coinsAfter pindex.nHeight view block.vtx = some final ∧
      connected.view = final.setBestBlock pindex.getBlockHash := by
  rcases connectBlock_cases ok with ⟨genesis, _⟩ | ⟨_, pprev, state, steps⟩
  · exact absurd genesis other
  obtain ⟨undos, applied, _⟩ := connectTxs_applies steps.looped
  refine ⟨state.view, ?_, steps.finished.view_eq⟩
  rw [coinsAfter_eq_applyTxs]
  exact congrArg (Option.map Prod.fst) applied

theorem overwritesNothing_iff (state : ChainState) (input : TipCall) :
    state.OverwritesNothing input ↔ state.SpendsInTime input := by
  cases input with
  | disconnect => exact Iff.rfl
  | connect node disk pindexNew block fAlreadyChecked flush =>
    cases block with
    | none => exact Iff.rfl
    | some block =>
      constructor
      · intro nothing applied other
        obtain ⟨connected, ok⟩ := applies_connect_iff.mp applied
        obtain ⟨final, ran, _⟩ := coinsAfter_of_connectBlock ok other
        exact (overwritesNone_iff ran).mp (nothing connected ok other).1
      · intro inTime connected ok other
        obtain ⟨final, ran, view_eq⟩ := coinsAfter_of_connectBlock ok other
        have none := (overwritesNone_iff ran).mpr
          (inTime (applies_connect_iff.mpr ⟨connected, ok⟩) other)
        refine ⟨none, fun out unspent => ?_⟩
        rw [view_eq, spentOutpoints_eq]
        exact kept_or_spent ran none unspent

/-- In every run, no connected block overwrites coins exactly when every connected block
spends in time what is unspent under the ids of its transactions. -/
theorem no_overwrite_iff (start : ChainState) (calls : List TipCall) :
    Runs.Meets step OverwritesNothing start calls ↔ Runs.Meets step SpendsInTime start calls :=
  Runs.meets_congr overwritesNothing_iff

/-- The coinbase of two blocks: a coin that nobody spent. -/
def twinCoinbase : CTransaction :=
  { hash := 20
    vin := [{ prevout := COutPoint.null, scriptSig := [0, 0] }]
    vout := [⟨coin, [1]⟩] }

/-- The chain of the genesis block, whose coinbase is not applied. -/
def genesisStart : ChainState where
  active := [{ phashBlock := some mainParams.hashGenesisBlock }]
  pcoinsTip := ⟨fun _ => CCoins.cleared, mainParams.hashGenesisBlock⟩

def connectTwin (hash hashPrevBlock : Uint256) (nHeight : Nat) : TipCall :=
  .connect (Sample.node true 0) {} { phashBlock := some hash, nHeight := nHeight }
    (some { hash := hash, hashPrevBlock := hashPrevBlock, vtx := [twinCoinbase] }) false .done

/-- Two blocks with one coinbase are connected, and the second takes the coin of the first. -/
theorem coinbase_overwritten :
    ∃ next last,
      genesisStart.step (connectTwin 2 mainParams.hashGenesisBlock 1) = some next ∧
      next.step (connectTwin 3 2 2) = some last ∧
      last.active.length = 3 ∧
      (next.pcoinsTip.coins 20).isPruned = false ∧
      ¬ next.OverwritesNothing (connectTwin 3 2 2) := by
  refine ⟨_, _, rfl, rfl, rfl, by decide, fun nothing => ?_⟩
  have pruned := (nothing _ rfl (by decide)).1 [] twinCoinbase [] rfl _ rfl
  exact absurd pruned (by decide)

end ChainState

end CentNode
