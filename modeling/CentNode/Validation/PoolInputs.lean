import CentNode.Validation.PoolIndex
import Mathlib.Order.WellFounded

/-!
# The inputs of the memory pool

Every input of the pool is an output of another transaction of the pool, or it
is there from elsewhere: unspent in the coins, or about to be put right by the
loop over a block that is running.  Transactions are grounded when no chain of
spends below them is endless.
-/

namespace CentNode

open List Option

/-- A transaction that spends an output of another. -/
def SpendsFrom (txOf : Uint256 → CTransaction) (parent child : Uint256) : Prop :=
  ∃ out ∈ (txOf child).spends, out.hash = parent

/-- Going from a transaction to what it spends comes to an end. -/
abbrev Grounded (txOf : Uint256 → CTransaction) (id : Uint256) : Prop := Acc (SpendsFrom txOf) id

/-- The output is in the coins and unspent. -/
def FlatCoins.Unspent (view : FlatCoins) (out : COutPoint) : Prop :=
  (view.coins out.hash).isAvailable out.n = true

/-- Unspent outputs are those of grounded transactions. -/
structure FlatCoins.Sound (txOf : Uint256 → CTransaction) (view : FlatCoins) : Prop where
  traced : view.Traced txOf
  grounded : ∀ id, (view.coins id).isPruned = false → Grounded txOf id

section Coins

variable {txOf : Uint256 → CTransaction} {view : FlatCoins} {out : COutPoint}

theorem FlatCoins.Unspent.real (unspent : view.Unspent out) (traced : view.Traced txOf) :
    (spendableAt txOf out).isSome = true := by
  rw [Unspent, CCoins.isAvailable_eq] at unspent
  obtain ⟨txout, found⟩ := isSome_iff_exists.mp unspent
  rw [traced out.hash out.n txout found]
  rfl

theorem FlatCoins.Unspent.grounded (unspent : view.Unspent out) (sound : view.Sound txOf) :
    Grounded txOf out.hash :=
  sound.grounded out.hash (not_pruned_of_available unspent)

theorem inside_of_real (real : (spendableAt txOf out).isSome = true) :
    out.n < (txOf out.hash).vout.length := by
  obtain ⟨txout, found⟩ := isSome_iff_exists.mp real
  obtain ⟨here, _⟩ := filter_eq_some_iff.mp found
  exact (List.getElem?_eq_some_iff.mp here).1

theorem fromTx_available_iff {tx : CTransaction} (faithful : txOf out.hash = tx) (nHeight : Int) :
    (CCoins.fromTx tx nHeight).isAvailable out.n = true ↔ (spendableAt txOf out).isSome = true := by
  rw [CCoins.isAvailable_eq, CCoins.output_fromTx, spendableAt, faithful]

theorem grounded_of_spends {tx : CTransaction} (faithful : txOf tx.hash = tx)
    (inputs : ∀ out ∈ tx.spends, Grounded txOf out.hash) : Grounded txOf tx.hash := by
  refine Acc.intro tx.hash fun parent spends => ?_
  obtain ⟨out, member, rfl⟩ := spends
  rw [faithful] at member
  exact inputs out member

end Coins

namespace TxPool

variable {txOf : Uint256 → CTransaction} {there elsewhere : COutPoint → Prop}
  {pool rest : TxPool}

/-- The transactions of the pool and where their inputs come from. -/
structure Rooted (txOf : Uint256 → CTransaction) (there : COutPoint → Prop) (pool : TxPool) :
    Prop where
  indexed : pool.Indexed
  faithful : ∀ id entry, pool.Holds id entry → txOf id = entry.tx
  loose : ∀ id entry, pool.Holds id entry → entry.tx.isCoinBase = false
  real : ∀ id entry, pool.Holds id entry → ∀ out ∈ entry.tx.prevouts,
    (spendableAt txOf out).isSome = true
  sourced : ∀ id entry, pool.Holds id entry → ∀ out ∈ entry.tx.prevouts,
    there out ∨ ∃ parent, pool.Holds out.hash parent
  grounded : ∀ id entry, pool.Holds id entry → Grounded txOf id

theorem rooted_empty (txOf : Uint256 → CTransaction) (there : COutPoint → Prop) :
    Rooted txOf there {} :=
  ⟨indexed_empty, nofun, nofun, nofun, nofun, nofun⟩

theorem Rooted.reroot (rooted : pool.Rooted txOf there)
    (moved : ∀ id entry, pool.Holds id entry → ∀ out ∈ entry.tx.prevouts, there out →
      elsewhere out ∨ ∃ parent, pool.Holds out.hash parent) : pool.Rooted txOf elsewhere :=
  { rooted with
    sourced := fun id entry held out member =>
      (rooted.sourced id entry held out member).elim (moved id entry held out member) Or.inr }

theorem Rooted.removed (rooted : pool.Rooted txOf there) (removed : Removed pool rest) :
    rest.Rooted txOf there where
  indexed := removed.indexed
  faithful id entry held := rooted.faithful id entry (removed.subset id entry held)
  loose id entry held := rooted.loose id entry (removed.subset id entry held)
  real id entry held := rooted.real id entry (removed.subset id entry held)
  grounded id entry held := rooted.grounded id entry (removed.subset id entry held)
  sourced id entry held out member := by
    have before := removed.subset id entry held
    rcases rooted.sourced id entry before out member with outside | ⟨parent, inPool⟩
    · exact Or.inl outside
    · by_cases kept : rest.Holds out.hash parent
      · exact Or.inr ⟨parent, kept⟩
      · have beyond := removed.closed out.hash parent inPool kept id entry held out member rfl
        have inside := inside_of_real (rooted.real id entry before out member)
        rw [rooted.faithful out.hash parent inPool] at inside
        exact absurd inside (Nat.not_lt_of_le beyond)

variable {tx : CTransaction}

theorem Rooted.remove (rooted : pool.Rooted txOf there) (faithful : txOf tx.hash = tx) :
    (pool.remove tx true).Rooted txOf there ∧ Removed pool (pool.remove tx true) ∧
      (∀ entry, ¬ (pool.remove tx true).Holds tx.hash entry) ∧
        ∀ id entry, (pool.remove tx true).Holds id entry →
          ∀ out ∈ entry.tx.prevouts, out.hash ≠ tx.hash := by
  obtain ⟨removed, gone, unspent⟩ := remove_removed rooted.indexed fun entry held =>
    (rooted.faithful tx.hash entry held).symm.trans faithful
  have kept := rooted.removed removed
  refine ⟨kept, removed, gone, fun id entry held out member same => ?_⟩
  have inside := inside_of_real (kept.real id entry held out member)
  rw [same, faithful] at inside
  exact absurd inside (Nat.not_lt_of_le (unspent id entry held out member same))

/-! ## `AcceptToMemoryPool` -/

/-- What an accepted transaction went through. -/
structure AcceptedTx (pool : TxPool) (view : FlatCoins) (tx : CTransaction)
    (entry : CTxMemPoolEntry) : Prop where
  tx_eq : entry.tx = tx
  loose : tx.isCoinBase = false
  new : pool.mapTx.lookup tx.hash = none
  distinct : tx.prevouts.Nodup
  free : ∀ out ∈ tx.prevouts, pool.mapNextTx.lookup out = none
  there : ∀ out ∈ tx.prevouts, view.Unspent out

theorem prevouts_nodup_of_checkTransaction {node : Node}
    (passed : checkTransaction node tx = .ok ()) : tx.prevouts.Nodup := by
  unfold checkTransaction at passed
  iterate 3
    split at passed
    · cases passed
  split at passed
  · cases passed
  split at passed
  · cases passed
  · next distinct => exact not_not.mp distinct

variable {policy : RelayPolicy} {options : AcceptOptions}

theorem haveInputs_of_checkSpending {node : Node} {view : FlatCoins} {nFees : Int}
    (passed : checkSpending node policy options view tx = .ok nFees) :
    view.haveInputs tx = true := by
  unfold checkSpending at passed
  iterate 2
    split at passed
    · cases passed
  split at passed
  · cases passed
  · next there => simpa using there

/-- The coins under the pool, as `AcceptToMemoryPool` sees them. -/
def viewOn (pool : TxPool) (context : PoolContext) : FlatCoins :=
  { context with mempool := pool.summary : PoolContext }.view

theorem acceptToMemoryPool_ok {context : PoolContext} {next : TxPool}
    (accepted : pool.acceptToMemoryPool context policy options tx = .ok next) :
    ∃ entry, next = pool.addUnchecked tx.hash entry ∧
      AcceptedTx pool (pool.viewOn context) tx entry := by
  unfold acceptToMemoryPool at accepted
  cases loosely : pool.checkLoose context.node policy tx with
  | error failure =>
    rw [loosely] at accepted
    cases accepted
  | ok _ =>
  rw [loosely] at accepted
  change (checkSpending context.node policy options (pool.viewOn context) tx).mapError
    AcceptStop.refused >>= _ = _ at accepted
  cases spending : checkSpending context.node policy options (pool.viewOn context) tx with
  | error failure =>
    rw [spending] at accepted
    cases accepted
  | ok nFees =>
  rw [spending] at accepted
  change checkScripts context.node (pool.viewOn context) tx >>= _ = _ at accepted
  cases scripts : checkScripts context.node (pool.viewOn context) tx with
  | error failure =>
    rw [scripts] at accepted
    cases accepted
  | ok _ =>
  rw [scripts] at accepted
  cases accepted
  refine ⟨_, rfl, ?_⟩
  obtain ⟨_, checked, passed⟩ := Checked.bind_ok.mp loosely
  split at passed
  · cases passed
  next loose =>
  iterate 2
    split at passed
    · cases passed
  split at passed
  · cases passed
  next new =>
  split at passed
  · cases passed
  split at passed
  · cases passed
  next free =>
  have notCoinBase : tx.isCoinBase = false := by simpa using loose
  have present := haveInputs_of_checkSpending spending
  refine ⟨rfl, notCoinBase, by simpa using new, prevouts_nodup_of_checkTransaction checked,
    fun out member => ?_, fun out member => ?_⟩
  · rw [List.any_eq_true, not_exists] at free
    simpa [member] using free out
  · obtain ⟨txin, inside, rfl⟩ := List.mem_map.mp member
    exact FlatCoins.available_of_haveInputs present notCoinBase inside

theorem viewOn_coins (pool : TxPool) (context : PoolContext) (txid : Uint256) :
    (pool.viewOn context).coins txid =
      match pool.mapTx.lookup txid with
      | some entry => CCoins.fromTx entry.tx mempoolHeight
      | none => context.pcoinsTip.coins txid := by
  unfold viewOn PoolContext.view summary
  simp only [StdMap.lookup_image]
  cases pool.mapTx.lookup txid <;> rfl

/-- An accepted transaction spends outputs of the pool and unspent outputs of the chain. -/
theorem Rooted.accepted (rooted : pool.Rooted txOf there) {context : PoolContext} {next : TxPool}
    (sound : context.pcoinsTip.Sound txOf)
    (onChain : ∀ out, context.pcoinsTip.Unspent out → there out) (faithful : txOf tx.hash = tx)
    (accepted : pool.acceptToMemoryPool context policy options tx = .ok next) :
    next.Rooted txOf there ∧ ∃ entry, next.Holds tx.hash entry := by
  obtain ⟨entry, rfl, passed⟩ := acceptToMemoryPool_ok accepted
  obtain rfl := passed.tx_eq
  -- where an input comes from, and that it is real
  have source : ∀ out ∈ entry.tx.prevouts, (spendableAt txOf out).isSome = true ∧
      Grounded txOf out.hash ∧ (there out ∨ ∃ parent, pool.Holds out.hash parent) := by
    intro out member
    have unspent := passed.there out member
    rw [FlatCoins.Unspent, viewOn_coins] at unspent
    split at unspent
    · next parent found =>
        have parent_eq := rooted.faithful out.hash parent found
        exact ⟨(fromTx_available_iff parent_eq mempoolHeight).mp unspent,
          rooted.grounded out.hash parent found, Or.inr ⟨parent, found⟩⟩
    · have here : context.pcoinsTip.Unspent out := unspent
      exact ⟨here.real sound.traced, here.grounded sound, Or.inl (onChain out here)⟩
  have stays : ∀ id other, pool.Holds id other →
      (pool.addUnchecked entry.tx.hash entry).Holds id other := by
    intro id other held
    rw [holds_addUnchecked, if_neg]
    · exact held
    · intro same
      rw [same, Holds, passed.new] at held
      cases held
  have cases_of : ∀ id other, (pool.addUnchecked entry.tx.hash entry).Holds id other →
      (id = entry.tx.hash ∧ other = entry) ∨ pool.Holds id other := by
    intro id other held
    rw [holds_addUnchecked] at held
    split at held
    · next same => exact Or.inl ⟨same, held.symm⟩
    · exact Or.inr held
  have stillHeld : ∀ id, (∃ parent, pool.Holds id parent) →
      ∃ parent, (pool.addUnchecked entry.tx.hash entry).Holds id parent := by
    intro id held
    obtain ⟨parent, held⟩ := held
    exact ⟨parent, stays _ _ held⟩
  have sourced : ∀ out ∈ entry.tx.prevouts,
      there out ∨ ∃ parent, (pool.addUnchecked entry.tx.hash entry).Holds out.hash parent :=
    fun out member => (source out member).2.2.imp_right (stillHeld _)
  refine ⟨⟨rooted.indexed.addUnchecked passed.new passed.distinct passed.free, ?_, ?_, ?_, ?_, ?_⟩,
    entry, holds_addUnchecked.mpr (by rw [if_pos rfl])⟩
  · intro id other held
    rcases cases_of id other held with ⟨rfl, rfl⟩ | before
    · exact faithful
    · exact rooted.faithful id other before
  · intro id other held
    rcases cases_of id other held with ⟨rfl, rfl⟩ | before
    · exact passed.loose
    · exact rooted.loose id other before
  · intro id other held out member
    rcases cases_of id other held with ⟨rfl, rfl⟩ | before
    · exact (source out member).1
    · exact rooted.real id other before out member
  · intro id other held out member
    rcases cases_of id other held with ⟨rfl, rfl⟩ | before
    · exact sourced out member
    · exact (rooted.sourced id other before out member).imp_right (stillHeld _)
  · intro id other held
    rcases cases_of id other held with ⟨rfl, rfl⟩ | before
    · refine grounded_of_spends faithful fun out member => (source out ?_).2.1
      rwa [CTransaction.spends, if_neg (by simp [passed.loose])] at member
    · exact rooted.grounded id other before

end TxPool

/-! While `removeForBlock` and the loop of `DisconnectTip` run, inputs of the pool
may have lost their source to the block.  Each transaction of the block that is
gone over puts the inputs right that it spends or that spend its outputs. -/

namespace TxPool

variable {txOf : Uint256 → CTransaction} {there : COutPoint → Prop} {pool : TxPool}
  {tx : CTransaction}

/-! ## Disconnecting -/

section Disconnecting

variable {context : PoolContext} {policy : RelayPolicy} {later : List Uint256}

section

variable (rooted : pool.Rooted txOf fun out => there out ∨ out.hash ∈ tx.hash :: later)
  (faithful : txOf tx.hash = tx)

include rooted faithful

theorem Rooted.forget :
    (pool.remove tx true).Rooted txOf fun out => there out ∨ out.hash ∈ later := by
  obtain ⟨kept, _, _, unspent⟩ := rooted.remove faithful
  refine kept.reroot fun id entry held out member source => Or.inl ?_
  rcases source with outside | listed
  · exact Or.inl outside
  · exact Or.inr ((mem_cons.mp listed).resolve_left (unspent id entry held out member))

theorem Rooted.resurrect (sound : context.pcoinsTip.Sound txOf)
    (onChain : ∀ out, context.pcoinsTip.Unspent out → there out) :
    (pool.resurrect context policy tx).Rooted txOf fun out => there out ∨ out.hash ∈ later := by
  unfold TxPool.resurrect
  split
  · exact rooted.forget faithful
  · split
    · next accepted passed =>
        obtain ⟨kept, entry, held⟩ :=
          rooted.accepted sound (fun out unspent => Or.inl (onChain out unspent)) faithful passed
        refine kept.reroot fun id other _ out _ source => ?_
        rcases source with outside | listed
        · exact Or.inl (Or.inl outside)
        · rcases mem_cons.mp listed with same | more
          · exact Or.inr ⟨entry, same ▸ held⟩
          · exact Or.inl (Or.inr more)
    · exact rooted.forget faithful

end

theorem Rooted.resurrectAll {vtx : List CTransaction}
    (rooted : pool.Rooted txOf fun out => there out ∨ out.hash ∈ vtx.map CTransaction.hash)
    (faithful : ∀ tx ∈ vtx, txOf tx.hash = tx) (sound : context.pcoinsTip.Sound txOf)
    (onChain : ∀ out, context.pcoinsTip.Unspent out → there out) :
    (vtx.foldl (TxPool.resurrect context policy) pool).Rooted txOf there := by
  induction vtx generalizing pool with
  | nil => exact rooted.reroot fun _ _ _ _ _ source => Or.inl (source.resolve_right not_mem_nil)
  | cons tx rest ih =>
    refine ih (rooted.resurrect (faithful tx mem_cons_self) sound onChain) ?_
    exact fun other member => faithful other (mem_cons_of_mem tx member)

theorem Rooted.removeAll {txs : List CTransaction} (rooted : pool.Rooted txOf there)
    (faithful : ∀ tx ∈ txs, txOf tx.hash = tx) :
    (txs.foldl (fun pool tx => pool.remove tx true) pool).Rooted txOf there := by
  induction txs generalizing pool with
  | nil => exact rooted
  | cons tx rest ih =>
    refine ih (rooted.remove (faithful tx mem_cons_self)).1 ?_
    exact fun other member => faithful other (mem_cons_of_mem tx member)

theorem Rooted.entries_faithful (rooted : pool.Rooted txOf there) :
    ∀ tx ∈ pool.mapTx.entries.map (fun entry => entry.2.tx), txOf tx.hash = tx := by
  intro tx member
  obtain ⟨⟨id, entry⟩, inside, rfl⟩ := List.mem_map.mp member
  have held : pool.Holds id entry := AList.mem_lookup_iff.mpr inside
  rw [rooted.indexed.keyed id entry held]
  exact rooted.faithful id entry held

theorem Rooted.afterDisconnect {vtx : List CTransaction} {nHeight : Int}
    (rooted : pool.Rooted txOf fun out => there out ∨ out.hash ∈ vtx.map CTransaction.hash)
    (faithful : ∀ tx ∈ vtx, txOf tx.hash = tx) (sound : context.pcoinsTip.Sound txOf)
    (onChain : ∀ out, context.pcoinsTip.Unspent out → there out) :
    (pool.afterDisconnect context policy vtx nHeight).Rooted txOf there := by
  have resurrected : (vtx.foldl (TxPool.resurrect context policy) pool).Rooted txOf there :=
    rooted.resurrectAll faithful sound onChain
  refine resurrected.removeAll fun tx member => ?_
  exact resurrected.entries_faithful tx (mem_of_mem_filter member)

end Disconnecting

/-! ## Connecting -/

/-- An outpoint that a transaction of the block spends is left to that transaction. -/
theorem Rooted.removeConflict (rooted : pool.Rooted txOf there) (tx : CTransaction)
    (prevout : COutPoint) :
    (removeConflict tx pool prevout).Rooted txOf there ∧
      Removed pool (removeConflict tx pool prevout) ∧
        ∀ id entry, (removeConflict tx pool prevout).Holds id entry →
          prevout ∈ entry.tx.prevouts → id = tx.hash := by
  unfold TxPool.removeConflict
  cases next : pool.mapNextTx.lookup prevout with
  | none =>
    refine ⟨rooted, .refl rooted.indexed, fun id entry held member => ?_⟩
    obtain ⟨n, found⟩ := rooted.indexed.next_of_mem held member
    rw [next] at found
    cases found
  | some point =>
    obtain ⟨spender, held, here⟩ := (rooted.indexed.next_iff prevout point).mp next
    have only : ∀ id entry, pool.Holds id entry → prevout ∈ entry.tx.prevouts →
        id = spender.tx.hash := by
      intro id entry heldToo member
      obtain ⟨n, there⟩ := mem_iff_getElem?.mp member
      rw [rooted.indexed.keyed point.ptx spender held]
      exact (rooted.indexed.spent_once heldToo held there here).1
    have found : pool.mapTx.lookup point.ptx = some spender := held
    simp only [found]
    split
    · have faithful : txOf spender.tx.hash = spender.tx := by
        rw [rooted.indexed.keyed point.ptx spender held]
        exact rooted.faithful point.ptx spender held
      obtain ⟨kept, removed, gone, _⟩ := rooted.remove faithful
      refine ⟨kept, removed, fun id entry left member => ?_⟩
      have same := only id entry (removed.subset id entry left) member
      rw [same] at left
      exact absurd left (gone entry)
    · next same =>
        refine ⟨rooted, .refl rooted.indexed, fun id entry heldToo member => ?_⟩
        exact (only id entry heldToo member).trans (not_not.mp same)

theorem Rooted.removeConflicts (rooted : pool.Rooted txOf there) (tx : CTransaction)
    (prevouts : List COutPoint) :
    (prevouts.foldl (TxPool.removeConflict tx) pool).Rooted txOf there ∧
      Removed pool (prevouts.foldl (TxPool.removeConflict tx) pool) ∧
        ∀ id entry, (prevouts.foldl (TxPool.removeConflict tx) pool).Holds id entry →
          ∀ out ∈ prevouts, out ∈ entry.tx.prevouts → id = tx.hash := by
  induction prevouts generalizing pool with
  | nil => exact ⟨rooted, .refl rooted.indexed, fun _ _ _ _ member => absurd member not_mem_nil⟩
  | cons prevout rest ih =>
    obtain ⟨keptFirst, removedFirst, first⟩ := rooted.removeConflict tx prevout
    obtain ⟨kept, removed, others⟩ := ih keptFirst
    refine ⟨kept, removedFirst.trans removed, fun id entry held out member spends => ?_⟩
    rcases mem_cons.mp member with rfl | more
    · exact first id entry (removed.subset id entry held) spends
    · exact others id entry held out more spends

theorem Rooted.moveOut (rooted : pool.Rooted txOf there)
    (created : ∀ out, out.hash = tx.hash → (spendableAt txOf out).isSome = true → there out) :
    (pool.remove tx false).Rooted txOf there ∧
      ∀ entry, ¬ (pool.remove tx false).Holds tx.hash entry := by
  rw [remove_false]
  split
  · next missing =>
      refine ⟨rooted, fun entry held => ?_⟩
      rw [Holds, missing] at held
      cases held
  · next own found =>
      refine ⟨⟨rooted.indexed.erase found, fun id entry held => ?_, fun id entry held => ?_,
        fun id entry held => ?_, fun id entry held out member => ?_, fun id entry held => ?_⟩,
        fun entry held => (holds_erase.mp held).1 rfl⟩
      · exact rooted.faithful id entry (holds_erase.mp held).2
      · exact rooted.loose id entry (holds_erase.mp held).2
      · exact rooted.real id entry (holds_erase.mp held).2
      · have before := (holds_erase.mp held).2
        rcases rooted.sourced id entry before out member with outside | ⟨parent, inPool⟩
        · exact Or.inl outside
        · by_cases same : out.hash = tx.hash
          · exact Or.inl (created out same (rooted.real id entry before out member))
          · exact Or.inr ⟨parent, holds_erase.mpr ⟨same, inPool⟩⟩
      · exact rooted.grounded id entry (holds_erase.mp held).2

theorem Rooted.connectTx {later : List COutPoint}
    (rooted : pool.Rooted txOf fun out => there out ∨ out ∈ tx.spends ++ later)
    (created : ∀ out, out.hash = tx.hash → (spendableAt txOf out).isSome = true →
      there out ∨ out ∈ later) :
    ((pool.remove tx false).removeConflicts tx).Rooted txOf fun out => there out ∨ out ∈ later := by
  obtain ⟨moved, gone⟩ := rooted.moveOut fun out same real =>
    (created out same real).imp_right (mem_append_right _)
  obtain ⟨kept, removed, conflicts⟩ := moved.removeConflicts tx tx.prevouts
  refine kept.reroot fun id entry held out member source => Or.inl ?_
  rcases source with outside | spent
  · exact Or.inl outside
  · rcases mem_append.mp spent with own | more
    · have listed : out ∈ tx.prevouts := by
        unfold CTransaction.spends at own
        split at own
        · cases own
        · exact own
      have same := conflicts id entry held out listed member
      rw [same] at held
      exact absurd (removed.subset _ _ held) (gone entry)
    · exact Or.inr more

/-- `removeForBlock`, when each output of a transaction of the block is there or spent by
a later one. -/
theorem Rooted.removeForBlock {vtx : List CTransaction}
    (rooted : pool.Rooted txOf fun out => there out ∨ out ∈ vtx.flatMap CTransaction.spends)
    (created : ∀ before tx after, vtx = before ++ tx :: after → ∀ out, out.hash = tx.hash →
      (spendableAt txOf out).isSome = true → there out ∨ out ∈ after.flatMap CTransaction.spends) :
    (pool.removeForBlock vtx).Rooted txOf there := by
  unfold TxPool.removeForBlock
  induction vtx generalizing pool with
  | nil => exact rooted.reroot fun _ _ _ _ _ source => Or.inl (source.resolve_right not_mem_nil)
  | cons tx rest ih =>
    refine ih (rooted.connectTx (created [] tx rest rfl)) fun before other after split => ?_
    exact created (tx :: before) other after (by rw [split]; rfl)

end TxPool

end CentNode
