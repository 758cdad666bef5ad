import CentNode.Validation.MemoryPool

/-!
# The index of the memory pool

`mapNextTx` maps the inputs of the transactions of the pool to where they are,
and `totalTxSize` is the sum of their sizes.  Adding a transaction whose inputs
are free keeps this, taking one out keeps it, and so does a removal, which
takes out with a transaction whatever spends its outputs.
-/

namespace CentNode

open List StdMap

namespace TxPool

/-- A transaction of the pool. -/
def Holds (pool : TxPool) (id : Uint256) (entry : CTxMemPoolEntry) : Prop :=
  pool.mapTx.lookup id = some entry

/-- The index and the counter say what the transactions are. -/
structure Indexed (pool : TxPool) : Prop where
  keyed : ∀ id entry, pool.Holds id entry → entry.tx.hash = id
  next_iff : ∀ out point, pool.mapNextTx.lookup out = some point ↔
    ∃ entry, pool.Holds point.ptx entry ∧ entry.tx.prevouts[point.n]? = some out
  total : pool.totalTxSize = pool.mapTx.sumOf (·.nTxSize)

theorem indexed_empty : Indexed {} := by
  refine ⟨fun id entry held => ?_, fun out point => ⟨fun found => ?_, fun ⟨entry, held, _⟩ => ?_⟩, rfl⟩
  · cases held
  · cases found
  · cases held

variable {id : Uint256} {entry other : CTxMemPoolEntry}

theorem Holds.unique {pool : TxPool} (held : pool.Holds id entry) (heldToo : pool.Holds id other) :
    entry = other :=
  Option.some.inj (held.symm.trans heldToo)

variable {pool : TxPool}

theorem Indexed.next_of_mem (indexed : pool.Indexed) (held : pool.Holds id entry)
    {out : COutPoint} (member : out ∈ entry.tx.prevouts) :
    ∃ n, pool.mapNextTx.lookup out = some ⟨id, n⟩ := by
  obtain ⟨n, here⟩ := mem_iff_getElem?.mp member
  exact ⟨n, (indexed.next_iff out ⟨id, n⟩).mpr ⟨entry, held, here⟩⟩

theorem Indexed.spent_once (indexed : pool.Indexed) {other : Uint256}
    {otherEntry : CTxMemPoolEntry} (held : pool.Holds id entry)
    (heldToo : pool.Holds other otherEntry) {i j : Nat} {out : COutPoint}
    (here : entry.tx.prevouts[i]? = some out) (there : otherEntry.tx.prevouts[j]? = some out) :
    id = other ∧ i = j := by
  have first := (indexed.next_iff out ⟨id, i⟩).mpr ⟨entry, held, here⟩
  have second := (indexed.next_iff out ⟨other, j⟩).mpr ⟨otherEntry, heldToo, there⟩
  cases Option.some.inj (first.symm.trans second)
  exact ⟨rfl, rfl⟩

/-! ## Adding a transaction -/

/-- The loop of `addUnchecked` over different inputs, from a position on. -/
theorem lookup_insertInputs {hash : Uint256} {prevouts : List COutPoint} {k : Nat}
    {mapNextTx : StdMap COutPoint CInPoint} (distinct : prevouts.Nodup) (out : COutPoint) :
    ((prevouts.zipIdx k).foldl
      (fun mapNextTx input => mapNextTx.insert input.1 (⟨hash, input.2⟩ : CInPoint)) mapNextTx).lookup
        out =
      if out ∈ prevouts then some ⟨hash, k + prevouts.idxOf out⟩ else mapNextTx.lookup out := by
  induction prevouts generalizing k mapNextTx with
  | nil => simp
  | cons first rest ih =>
    obtain ⟨new, distinctRest⟩ := nodup_cons.mp distinct
    rw [zipIdx_cons, foldl_cons, ih distinctRest, lookup_insert_ite]
    by_cases same : out = first
    · subst same
      simp [new]
    · have offset : k + 1 + rest.idxOf out = k + (first :: rest).idxOf out := by
        rw [idxOf_cons_ne _ (Ne.symm same)]
        omega
      simp [same, offset]

variable {hash : Uint256}

theorem holds_addUnchecked :
    (pool.addUnchecked hash entry).Holds id other ↔
      if id = hash then entry = other else pool.Holds id other := by
  rw [Holds, addUnchecked, lookup_insert_ite]
  split
  · exact Option.some_inj
  · exact Iff.rfl

theorem Indexed.addUnchecked (indexed : pool.Indexed)
    (new : pool.mapTx.lookup entry.tx.hash = none) (distinct : entry.tx.prevouts.Nodup)
    (free : ∀ out ∈ entry.tx.prevouts, pool.mapNextTx.lookup out = none) :
    (pool.addUnchecked entry.tx.hash entry).Indexed := by
  refine ⟨fun id other held => ?_, fun out point => ?_, ?_⟩
  · rw [holds_addUnchecked] at held
    split at held
    · next same => rw [same, held]
    · exact indexed.keyed id other held
  · have found_eq := @lookup_insertInputs entry.tx.hash _ 0 pool.mapNextTx distinct out
    rw [Nat.zero_add] at found_eq
    rw [TxPool.addUnchecked, found_eq]
    constructor
    · intro found
      split at found
      · next member =>
          cases found
          exact ⟨entry, AList.lookup_insert _, getElem?_idxOf member⟩
      · next elsewhere =>
          obtain ⟨other, held, here⟩ := (indexed.next_iff out point).mp found
          refine ⟨other, ?_, here⟩
          rw [Holds, lookup_insert_ite, if_neg]
          · exact held
          · intro same
            rw [Holds, same, new] at held
            cases held
    · rintro ⟨other, held, here⟩
      rw [Holds, lookup_insert_ite] at held
      split at held
      · next same =>
          cases held
          obtain ⟨inside, rfl⟩ := List.getElem?_eq_some_iff.mp here
          rw [if_pos (getElem_mem inside), distinct.idxOf_getElem point.n inside, ← same]
      · next differs =>
          have found := (indexed.next_iff out point).mpr ⟨other, held, here⟩
          rw [if_neg, found]
          intro member
          rw [free out member] at found
          cases found
  · rw [TxPool.addUnchecked, sumOf_insert new, indexed.total, Nat.add_comm]

/-! ## Taking a transaction out -/

theorem holds_erase :
    (pool.erase hash entry).Holds id other ↔ id ≠ hash ∧ pool.Holds id other := by
  rw [Holds, erase, lookup_erase_ite]
  split
  · next same =>
      constructor
      · intro absent
        cases absent
      · intro held
        exact absurd same held.1
  · next differs => exact ⟨fun held => ⟨differs, held⟩, And.right⟩

theorem Indexed.erase (indexed : pool.Indexed) (held : pool.Holds hash entry) :
    (pool.erase hash entry).Indexed := by
  refine ⟨fun id other kept => indexed.keyed id other (holds_erase.mp kept).2, fun out point => ?_,
    ?_⟩
  · have lookup_eq : (pool.erase hash entry).mapNextTx.lookup out =
        if out ∈ entry.tx.prevouts then none else pool.mapNextTx.lookup out :=
      lookup_eraseAll pool.mapNextTx entry.tx.prevouts out
    rw [lookup_eq]
    constructor
    · intro found
      split at found
      · cases found
      · next elsewhere =>
          obtain ⟨other, heldToo, here⟩ := (indexed.next_iff out point).mp found
          refine ⟨other, holds_erase.mpr ⟨?_, heldToo⟩, here⟩
          rintro same
          rw [same] at heldToo
          cases heldToo.unique held
          exact elsewhere (mem_of_getElem? here)
    · rintro ⟨other, kept, here⟩
      obtain ⟨differs, heldToo⟩ := holds_erase.mp kept
      rw [if_neg]
      · exact (indexed.next_iff out point).mpr ⟨other, heldToo, here⟩
      · intro member
        obtain ⟨n, there⟩ := mem_iff_getElem?.mp member
        exact differs (indexed.spent_once heldToo held here there).1
  · have sum_eq := sumOf_erase held (·.nTxSize)
    rw [← indexed.total] at sum_eq
    change pool.totalTxSize - entry.nTxSize = _
    rw [sum_eq, Nat.add_sub_cancel_left]
    rfl

/-! ## Removals -/

/-- What a removal leaves: some of the transactions, none of them one that spends an output
of a transaction that is gone. -/
structure Removed (pool rest : TxPool) : Prop where
  indexed : rest.Indexed
  subset : ∀ id entry, rest.Holds id entry → pool.Holds id entry
  closed : ∀ id entry, pool.Holds id entry → ¬ rest.Holds id entry →
    ∀ other child, rest.Holds other child →
      ∀ out ∈ child.tx.prevouts, out.hash = id → entry.tx.vout.length ≤ out.n

theorem Removed.refl (indexed : pool.Indexed) : Removed pool pool :=
  ⟨indexed, fun _ _ held => held, fun _ _ held gone => absurd held gone⟩

theorem Removed.trans {rest last : TxPool} (first : Removed pool rest)
    (second : Removed rest last) : Removed pool last := by
  refine ⟨second.indexed, fun id entry held => first.subset id entry (second.subset id entry held),
    fun id entry held gone other child kept out member same => ?_⟩
  by_cases between : rest.Holds id entry
  · exact second.closed id entry between gone other child kept out member same
  · exact first.closed id entry held between other child (second.subset other child kept) out
      member same

theorem mem_spendersOf {tx : CTransaction} {n : Nat} {point : CInPoint}
    (inside : n < tx.vout.length) (found : pool.mapNextTx.lookup ⟨hash, n⟩ = some point) :
    point.ptx ∈ pool.spendersOf hash tx :=
  mem_filterMap.mpr ⟨n, mem_range.mpr inside, by rw [found]; rfl⟩

/-- The loop takes out everything on the list, and with each transaction its children. -/
theorem removeLoop_removed (indexed : pool.Indexed) (txToRemove : List Uint256) :
    Removed pool (pool.removeLoop true txToRemove) ∧
      ∀ id ∈ txToRemove, ∀ entry, ¬ (pool.removeLoop true txToRemove).Holds id entry := by
  fun_induction removeLoop true pool txToRemove with
  | case1 pool => exact ⟨.refl indexed, fun id member => absurd member not_mem_nil⟩
  | case2 pool hash txToRemove missing ih =>
    obtain ⟨removed, gone⟩ := ih indexed
    refine ⟨removed, fun id member entry held => ?_⟩
    rcases mem_cons.mp member with rfl | later
    · have before := removed.subset _ _ held
      rw [Holds, missing] at before
      cases before
    · exact gone id later entry held
  | case3 pool hash txToRemove entry found ih =>
    simp only [reduceDIte, reduceIte] at ih ⊢
    obtain ⟨removed, gone⟩ := ih (indexed.erase found)
    have erased : ∀ other, ¬ (removeLoop true (pool.erase hash entry)
        (txToRemove ++ pool.spendersOf hash entry.tx)).Holds hash other := fun other held =>
      (holds_erase.mp (removed.subset _ _ held)).1 rfl
    refine ⟨⟨removed.indexed, fun id other held =>
      (holds_erase.mp (removed.subset id other held)).2, ?_⟩, fun id member other held => ?_⟩
    · intro id parent held lost other child kept out member same
      by_cases here : id = hash
      · subst here
        cases held.unique found
        -- a child of the transaction is on the list
        by_contra spends
        obtain ⟨n, next⟩ := indexed.next_of_mem
          (holds_erase.mp (removed.subset other child kept)).2 member
        have out_eq : out = ⟨id, out.n⟩ := by
          cases out
          cases same
          rfl
        rw [out_eq] at next
        have listed := mem_spendersOf (Nat.lt_of_not_le spends) next
        exact gone other (mem_append_right _ listed) child kept
      · exact removed.closed id parent (holds_erase.mpr ⟨here, held⟩) lost other child kept out
          member same
    · rcases mem_cons.mp member with rfl | later
      · exact erased other held
      · exact gone id (mem_append_left _ later) other held

theorem remove_false (tx : CTransaction) :
    pool.remove tx false =
      match pool.mapTx.lookup tx.hash with
      | none => pool
      | some entry => pool.erase tx.hash entry := by
  rw [remove, Bool.false_and, if_neg Bool.false_ne_true, removeLoop]
  split
  · next missing => rw [missing, removeLoop]
  · next entry found => rw [found, if_neg Bool.false_ne_true, append_nil, removeLoop]

theorem remove_removed (indexed : pool.Indexed) {tx : CTransaction}
    (same : ∀ entry, pool.Holds tx.hash entry → entry.tx = tx) :
    Removed pool (pool.remove tx true) ∧
      (∀ entry, ¬ (pool.remove tx true).Holds tx.hash entry) ∧
        ∀ id entry, (pool.remove tx true).Holds id entry →
          ∀ out ∈ entry.tx.prevouts, out.hash = tx.hash → tx.vout.length ≤ out.n := by
  unfold remove
  obtain ⟨removed, gone⟩ := removeLoop_removed indexed
    (tx.hash :: if true && (pool.mapTx.lookup tx.hash).isNone then pool.spendersOf tx.hash tx else [])
  refine ⟨removed, gone _ mem_cons_self, fun id entry held out member spends => ?_⟩
  cases found : pool.mapTx.lookup tx.hash with
  | some own =>
    rw [← same own found]
    exact removed.closed tx.hash own found (gone _ mem_cons_self own) id entry held out member
      spends
  | none =>
    by_contra inside
    obtain ⟨n, next⟩ := indexed.next_of_mem (removed.subset id entry held) member
    have out_eq : out = ⟨tx.hash, out.n⟩ := by
      cases out
      cases spends
      rfl
    rw [out_eq] at next
    have listed := mem_spendersOf (Nat.lt_of_not_le inside) next
    refine gone id (mem_cons_of_mem _ ?_) entry held
    rw [found]
    exact listed

end TxPool

end CentNode
