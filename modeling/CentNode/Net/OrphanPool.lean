import CentNode.Library.MultiMap
import CentNode.Net.BlockDownload

/-!
# Orphan transactions

`mapOrphanTransactions` of `main.cpp` with `mapOrphanTransactionsByPrev`, which
names the orphans that spend outputs of a transaction.  The loops hold iterators
over the first map while they erase from it.
-/

namespace CentNode

open List StdMap Option

structure COrphanTx where
  tx : CTransaction
  fromPeer : NodeId
  deriving DecidableEq, Repr

/-- An element of `mapOrphanTransactions`. -/
abbrev OrphanEntry : Type := Sigma fun _ : Uint256 => COrphanTx

structure OrphanPool where
  mapOrphanTransactions : StdMap Uint256 COrphanTx := ∅
  mapOrphanTransactionsByPrev : MultiMap Uint256 Uint256 := ∅

/-- The transactions that the inputs spend outputs of. -/
def CTransaction.parents (tx : CTransaction) : List Uint256 :=
  tx.vin.map fun txin => txin.prevout.hash

namespace OrphanPool

/-- The orphans as an iterator meets them. -/
def inOrder (pool : OrphanPool) : List OrphanEntry :=
  @StdMap.inOrder _ _ Uint256.compareOrder pool.mapOrphanTransactions

def addOrphanTx (tx : CTransaction) (peer : NodeId) (pool : OrphanPool) : OrphanPool :=
  if (pool.mapOrphanTransactions.lookup tx.hash).isSome then pool
  else if 5000 < tx.serializeSize then pool
  else
    { mapOrphanTransactions := AList.insert tx.hash ⟨tx, peer⟩ pool.mapOrphanTransactions
      mapOrphanTransactionsByPrev :=
        pool.mapOrphanTransactionsByPrev.insertUnder tx.hash tx.parents }

def eraseOrphanTx (hash : Uint256) (pool : OrphanPool) : OrphanPool :=
  match pool.mapOrphanTransactions.lookup hash with
  | none => pool
  | some orphan =>
    { mapOrphanTransactions := AList.erase hash pool.mapOrphanTransactions
      mapOrphanTransactionsByPrev :=
        pool.mapOrphanTransactionsByPrev.eraseUnder hash orphan.tx.parents }

/-- The loop of `EraseOrphansFor` over what is left of the map; `none` where the
iterator points to an element that has been erased. -/
def sweep (peer : NodeId) : List OrphanEntry → OrphanPool → Option OrphanPool
  | [], pool => some pool
  | ⟨hash, _⟩ :: rest, pool =>
    match pool.mapOrphanTransactions.lookup hash with
    | none => none
    | some maybeErase =>
      if maybeErase.fromPeer = peer then sweep peer rest (pool.eraseOrphanTx maybeErase.tx.hash)
      else sweep peer rest pool

def eraseOrphansFor (peer : NodeId) (pool : OrphanPool) : Option OrphanPool :=
  sweep peer pool.inOrder pool

/-- The orphan that is evicted for a random hash: `lower_bound`, or else the first. -/
def evicted (randomhash : Uint256) (pool : OrphanPool) : Option OrphanEntry :=
  (pool.inOrder.find? fun entry => randomhash.toNat ≤ entry.1.toNat).or pool.inOrder.head?

/-- The loop of `LimitOrphanTxSize` for a number of iterations, with what
`GetRandHash` returns in them; `none` where it goes on, or where there is no
orphan to evict. -/
def limitLoop (nMaxOrphans : Nat) (randHash : Nat → Uint256) :
    Nat → Nat → OrphanPool → Option (OrphanPool × Nat)
  | fuel, nEvicted, pool =>
    if pool.mapOrphanTransactions.entries.length ≤ nMaxOrphans then some (pool, nEvicted)
    else
      match fuel with
      | 0 => none
      | fuel + 1 =>
        (pool.evicted (randHash nEvicted)).bind fun entry =>
          limitLoop nMaxOrphans randHash fuel (nEvicted + 1) (pool.eraseOrphanTx entry.1)

def limitOrphanTxSize (nMaxOrphans : Nat) (randHash : Nat → Uint256) (pool : OrphanPool) :
    Option (OrphanPool × Nat) :=
  limitLoop nMaxOrphans randHash pool.mapOrphanTransactions.entries.length 0 pool

/-! ## Calls -/

inductive Call where
  | addOrphanTx (tx : CTransaction) (peer : NodeId)
  | eraseOrphanTx (hash : Uint256)
  | eraseOrphansFor (peer : NodeId)
  | limitOrphanTxSize (nMaxOrphans : Nat) (randHash : Nat → Uint256)

def call (pool : OrphanPool) : Call → Option OrphanPool
  | .addOrphanTx tx peer => some (pool.addOrphanTx tx peer)
  | .eraseOrphanTx hash => some (pool.eraseOrphanTx hash)
  | .eraseOrphansFor peer => pool.eraseOrphansFor peer
  | .limitOrphanTxSize nMaxOrphans randHash =>
    (pool.limitOrphanTxSize nMaxOrphans randHash).map Prod.fst

/-! ## What holds of the two maps -/

/-- An orphan is stored that spends an output of a transaction. -/
def Spends (pool : OrphanPool) (hash prev : Uint256) : Prop :=
  ∃ orphan, pool.mapOrphanTransactions.lookup hash = some orphan ∧ prev ∈ orphan.tx.parents

structure Consistent (pool : OrphanPool) : Prop where
  keyed : ∀ hash orphan, pool.mapOrphanTransactions.lookup hash = some orphan →
    orphan.tx.hash = hash
  small : ∀ hash orphan, pool.mapOrphanTransactions.lookup hash = some orphan →
    orphan.tx.serializeSize ≤ 5000
  indexed : ∀ hash prev,
    hash ∈ pool.mapOrphanTransactionsByPrev.members prev ↔ pool.Spends hash prev
  noneEmpty : pool.mapOrphanTransactionsByPrev.NoneEmpty

theorem consistent_empty : Consistent {} where
  keyed := fun _ _ found => by cases found
  small := fun _ _ found => by cases found
  indexed := fun hash prev => by
    refine iff_of_false (Finset.notMem_empty hash) ?_
    rintro ⟨orphan, found, _⟩
    cases found
  noneEmpty := fun _ _ found => by cases found

variable {pool : OrphanPool}

theorem Consistent.lookup_byPrev (consistent : pool.Consistent) (prev : Uint256) :
    (∀ hashes, pool.mapOrphanTransactionsByPrev.lookup prev = some hashes →
      hashes.Nonempty ∧ ∀ hash, hash ∈ hashes ↔ pool.Spends hash prev) ∧
    (pool.mapOrphanTransactionsByPrev.lookup prev = none → ∀ hash, ¬ pool.Spends hash prev) := by
  constructor
  · intro hashes found
    refine ⟨consistent.noneEmpty prev hashes found, fun hash => ?_⟩
    rw [← consistent.indexed, MultiMap.members, found, getD_some]
  · intro absent hash
    rw [← consistent.indexed, consistent.noneEmpty.lookup_eq_none_iff.mp absent]
    exact Finset.notMem_empty hash

theorem Consistent.addOrphanTx (consistent : pool.Consistent) (tx : CTransaction) (peer : NodeId) :
    (pool.addOrphanTx tx peer).Consistent := by
  unfold OrphanPool.addOrphanTx
  split
  · exact consistent
  · next new =>
      have absent : pool.mapOrphanTransactions.lookup tx.hash = none :=
        not_isSome_iff_eq_none.mp new
      split
      · exact consistent
      · next small =>
          have stored : ∀ {hash orphan},
              AList.lookup hash (AList.insert tx.hash ⟨tx, peer⟩ pool.mapOrphanTransactions) =
                some orphan →
              (hash = tx.hash ∧ orphan = ⟨tx, peer⟩) ∨
                pool.mapOrphanTransactions.lookup hash = some orphan := by
            intro hash orphan found
            rw [lookup_insert_ite] at found
            split at found
            · next same =>
                cases found
                exact Or.inl ⟨same, rfl⟩
            · exact Or.inr found
          refine ⟨fun hash orphan found => ?_, fun hash orphan found => ?_, fun hash prev => ?_,
            consistent.noneEmpty.insertUnder _ _⟩
          · rcases stored found with ⟨rfl, rfl⟩ | before
            · rfl
            · exact consistent.keyed hash orphan before
          · rcases stored found with ⟨rfl, rfl⟩ | before
            · exact Nat.not_lt.mp small
            · exact consistent.small hash orphan before
          · rw [MultiMap.mem_members_insertUnder, consistent.indexed]
            constructor
            · rintro (⟨rfl, inside⟩ | ⟨orphan, found, inside⟩)
              · exact ⟨⟨tx, peer⟩, AList.lookup_insert _, inside⟩
              · have differ : hash ≠ tx.hash := by
                  rintro rfl
                  cases absent.symm.trans found
                exact ⟨orphan, (AList.lookup_insert_ne differ).trans found, inside⟩
            · rintro ⟨orphan, found, inside⟩
              rcases stored found with ⟨rfl, rfl⟩ | before
              · exact Or.inl ⟨rfl, inside⟩
              · exact Or.inr ⟨orphan, before, inside⟩

theorem lookup_eraseOrphanTx (hash other : Uint256) :
    (pool.eraseOrphanTx hash).mapOrphanTransactions.lookup other =
      if other = hash then none else pool.mapOrphanTransactions.lookup other := by
  unfold eraseOrphanTx
  cases found : pool.mapOrphanTransactions.lookup hash with
  | none => exact lookup_eq_ite found other
  | some orphan => exact lookup_erase_ite hash other pool.mapOrphanTransactions

theorem Consistent.eraseOrphanTx (consistent : pool.Consistent) (hash : Uint256) :
    (pool.eraseOrphanTx hash).Consistent := by
  have kept : ∀ {other orphan},
      (pool.eraseOrphanTx hash).mapOrphanTransactions.lookup other = some orphan →
        other ≠ hash ∧ pool.mapOrphanTransactions.lookup other = some orphan := by
    intro other orphan found
    rw [lookup_eraseOrphanTx] at found
    split at found
    · cases found
    · next differ => exact ⟨differ, found⟩
  cases here : pool.mapOrphanTransactions.lookup hash with
  | none =>
    rw [OrphanPool.eraseOrphanTx, here]
    exact consistent
  | some gone =>
    have byPrev : (pool.eraseOrphanTx hash).mapOrphanTransactionsByPrev =
        pool.mapOrphanTransactionsByPrev.eraseUnder hash gone.tx.parents := by
      rw [OrphanPool.eraseOrphanTx, here]
    refine ⟨fun other orphan found => consistent.keyed other orphan (kept found).2,
      fun other orphan found => consistent.small other orphan (kept found).2,
      fun other prev => ?_, byPrev ▸ consistent.noneEmpty.eraseUnder _ _⟩
    rw [byPrev, MultiMap.mem_members_eraseUnder, consistent.indexed]
    constructor
    · rintro ⟨⟨orphan, found, inside⟩, apart⟩
      have differ : other ≠ hash := by
        rintro rfl
        cases here.symm.trans found
        exact apart ⟨rfl, inside⟩
      refine ⟨orphan, ?_, inside⟩
      rw [lookup_eraseOrphanTx, if_neg differ]
      exact found
    · rintro ⟨orphan, found, inside⟩
      obtain ⟨differ, before⟩ := kept found
      exact ⟨⟨orphan, before, inside⟩, fun both => differ both.1⟩

/-! ## The loops -/

/-- The iterator of `EraseOrphansFor` never points to an erased orphan, and the
loop erases the orphans of the peer that it meets. -/
theorem Consistent.sweep (consistent : pool.Consistent) (peer : NodeId) {rest : List OrphanEntry}
    (distinct : (rest.map Sigma.fst).Nodup)
    (stored : ∀ entry ∈ rest, pool.mapOrphanTransactions.lookup entry.1 = some entry.2) :
    ∃ swept, sweep peer rest pool = some swept ∧ swept.Consistent ∧
      ∀ hash orphan, swept.mapOrphanTransactions.lookup hash = some orphan ↔
        pool.mapOrphanTransactions.lookup hash = some orphan ∧
          (hash ∈ rest.map Sigma.fst → orphan.fromPeer ≠ peer) := by
  induction rest generalizing pool with
  | nil =>
    refine ⟨pool, rfl, consistent, fun hash orphan => ?_⟩
    rw [map_nil]
    simp only [not_mem_nil, false_implies, and_true]
  | cons entry rest ih =>
    obtain ⟨key, value⟩ := entry
    rw [map_cons, nodup_cons] at distinct
    have found := stored ⟨key, value⟩ mem_cons_self
    dsimp only at found
    have hash_eq := consistent.keyed key value found
    rw [OrphanPool.sweep, found]
    dsimp only
    by_cases same : value.fromPeer = peer
    · have after := consistent.eraseOrphanTx key
      obtain ⟨swept, ran, sweptOk, left⟩ := ih after distinct.2 fun entry member => by
        have differ : entry.1 ≠ key := fun again =>
          distinct.1 (List.mem_map.mpr ⟨entry, member, again⟩)
        rw [lookup_eraseOrphanTx, if_neg differ]
        exact stored entry (mem_cons_of_mem _ member)
      rw [if_pos same, hash_eq]
      refine ⟨swept, ran, sweptOk, fun hash orphan => ?_⟩
      rw [left, lookup_eraseOrphanTx, map_cons, mem_cons]
      by_cases here : hash = key
      · subst here
        rw [if_pos rfl]
        refine iff_of_false (fun impossible => ?_) fun both => ?_
        · cases impossible.1
        · cases found.symm.trans both.1
          exact both.2 (Or.inl rfl) same
      · rw [if_neg here]
        simp only [here, false_or]
    · obtain ⟨swept, ran, sweptOk, left⟩ := ih consistent distinct.2 fun entry member =>
        stored entry (mem_cons_of_mem _ member)
      rw [if_neg same]
      refine ⟨swept, ran, sweptOk, fun hash orphan => ?_⟩
      rw [left, map_cons, mem_cons]
      refine and_congr_right fun stands => ⟨fun other => ?_, fun other inside =>
        other (Or.inr inside)⟩
      rintro (rfl | inside)
      · cases found.symm.trans stands
        exact same
      · exact other inside

/-- `EraseOrphansFor` leaves the orphans of the other peers. -/
theorem Consistent.eraseOrphansFor (consistent : pool.Consistent) (peer : NodeId) :
    ∃ swept, pool.eraseOrphansFor peer = some swept ∧ swept.Consistent ∧
      ∀ hash orphan, swept.mapOrphanTransactions.lookup hash = some orphan ↔
        pool.mapOrphanTransactions.lookup hash = some orphan ∧ orphan.fromPeer ≠ peer := by
  have stored : ∀ hash orphan, (⟨hash, orphan⟩ : OrphanEntry) ∈ pool.inOrder ↔
      pool.mapOrphanTransactions.lookup hash = some orphan := fun _ _ =>
    @mem_inOrder _ _ _ Uint256.compareOrder _ _ _
  obtain ⟨swept, ran, sweptOk, left⟩ := consistent.sweep peer
    (@nodup_inOrder _ _ Uint256.compareOrder pool.mapOrphanTransactions)
    fun entry member => (stored entry.1 entry.2).mp member
  refine ⟨swept, ran, sweptOk, fun hash orphan => (left hash orphan).trans ?_⟩
  refine and_congr_right fun found => ⟨fun apart => apart ?_, fun apart _ => apart⟩
  exact List.mem_map_of_mem ((stored hash orphan).mpr found)

theorem evicted_eq_some (randomhash : Uint256)
    (filled : pool.mapOrphanTransactions.entries ≠ []) :
    ∃ entry, pool.evicted randomhash = some entry ∧
      pool.mapOrphanTransactions.lookup entry.1 = some entry.2 := by
  have stored : ∀ entry ∈ pool.inOrder,
      pool.mapOrphanTransactions.lookup entry.1 = some entry.2 := fun entry member =>
    (@mem_inOrder _ _ _ Uint256.compareOrder _ entry.1 entry.2).mp member
  unfold evicted
  cases found : pool.inOrder.find? fun entry => randomhash.toNat ≤ entry.1.toNat with
  | some entry => exact ⟨entry, some_or, stored entry (mem_of_find?_eq_some found)⟩
  | none =>
    have perm := @inOrder_perm _ _ Uint256.compareOrder pool.mapOrphanTransactions
    obtain ⟨first, others, split⟩ : ∃ first others, pool.inOrder = first :: others :=
      exists_cons_of_ne_nil fun empty => by
        refine filled (perm_nil.mp ?_)
        rw [← empty]
        exact perm.symm
    refine ⟨first, ?_, stored first (split ▸ mem_cons_self)⟩
    rw [none_or, split, head?_cons]

theorem length_eraseOrphanTx {hash : Uint256} {orphan : COrphanTx}
    (found : pool.mapOrphanTransactions.lookup hash = some orphan) :
    (pool.eraseOrphanTx hash).mapOrphanTransactions.entries.length + 1 =
      pool.mapOrphanTransactions.entries.length := by
  rw [eraseOrphanTx, found, (perm_erase found).length_eq, length_cons]

/-- Every iteration of `LimitOrphanTxSize` evicts an orphan. -/
theorem Consistent.limitLoop (consistent : pool.Consistent) (nMaxOrphans : Nat)
    (randHash : Nat → Uint256) {fuel : Nat} (nEvicted : Nat)
    (enough : pool.mapOrphanTransactions.entries.length ≤ fuel) :
    ∃ limited evictions, limitLoop nMaxOrphans randHash fuel nEvicted pool =
        some (limited, evictions) ∧ limited.Consistent ∧
      limited.mapOrphanTransactions.entries.length ≤ nMaxOrphans ∧
      limited.mapOrphanTransactions.entries.length + evictions =
        pool.mapOrphanTransactions.entries.length + nEvicted := by
  induction fuel generalizing pool nEvicted with
  | zero =>
    refine ⟨pool, nEvicted, ?_, consistent, by omega, rfl⟩
    rw [OrphanPool.limitLoop, if_pos (by omega)]
  | succ fuel ih =>
    by_cases small : pool.mapOrphanTransactions.entries.length ≤ nMaxOrphans
    · refine ⟨pool, nEvicted, ?_, consistent, small, rfl⟩
      rw [OrphanPool.limitLoop, if_pos small]
    · have filled : pool.mapOrphanTransactions.entries ≠ [] := by
        intro empty
        rw [empty] at small
        exact small (Nat.zero_le _)
      obtain ⟨entry, chosen, found⟩ := evicted_eq_some (randHash nEvicted) filled
      have shorter := length_eraseOrphanTx found
      obtain ⟨limited, evictions, ran, limitedOk, bounded, counted⟩ :=
        ih (consistent.eraseOrphanTx entry.1) (nEvicted + 1) (by omega)
      refine ⟨limited, evictions, ?_, limitedOk, bounded, by omega⟩
      rw [OrphanPool.limitLoop, if_neg small, chosen, bind_some, ran]

theorem Consistent.limitOrphanTxSize (consistent : pool.Consistent) (nMaxOrphans : Nat)
    (randHash : Nat → Uint256) :
    ∃ limited evictions, pool.limitOrphanTxSize nMaxOrphans randHash = some (limited, evictions) ∧
      limited.Consistent ∧ limited.mapOrphanTransactions.entries.length ≤ nMaxOrphans ∧
        limited.mapOrphanTransactions.entries.length + evictions =
          pool.mapOrphanTransactions.entries.length :=
  consistent.limitLoop nMaxOrphans randHash 0 (Nat.le_refl _)

/-! ## Runs -/

theorem Consistent.call (consistent : pool.Consistent) (input : Call) :
    ∃ next, call pool input = some next ∧ next.Consistent := by
  cases input with
  | addOrphanTx tx peer => exact ⟨_, rfl, consistent.addOrphanTx tx peer⟩
  | eraseOrphanTx hash => exact ⟨_, rfl, consistent.eraseOrphanTx hash⟩
  | eraseOrphansFor peer =>
    obtain ⟨swept, ran, sweptOk, _⟩ := consistent.eraseOrphansFor peer
    exact ⟨swept, ran, sweptOk⟩
  | limitOrphanTxSize nMaxOrphans randHash =>
    obtain ⟨limited, evictions, ran, limitedOk, _⟩ :=
      consistent.limitOrphanTxSize nMaxOrphans randHash
    refine ⟨limited, ?_, limitedOk⟩
    rw [OrphanPool.call, ran, map_some]

/-- After any calls no iterator has been left dangling, and the two maps tell
the same; the orphans of a peer can be erased and their number be limited. -/
theorem orphan_pool_along_calls (calls : List Call) :
    ∃ pool, Runs.run call {} calls = some pool ∧
      (∀ prev hashes, pool.mapOrphanTransactionsByPrev.lookup prev = some hashes →
        hashes.Nonempty ∧ ∀ hash, hash ∈ hashes ↔ pool.Spends hash prev) ∧
      (∀ prev, pool.mapOrphanTransactionsByPrev.lookup prev = none →
        ∀ hash, ¬ pool.Spends hash prev) ∧
      (∀ hash orphan, pool.mapOrphanTransactions.lookup hash = some orphan →
        orphan.tx.serializeSize ≤ 5000) ∧
      (∀ peer, ∃ swept, pool.eraseOrphansFor peer = some swept ∧
        ∀ hash orphan, swept.mapOrphanTransactions.lookup hash = some orphan →
          orphan.fromPeer ≠ peer) ∧
      ∀ nMaxOrphans randHash, ∃ limited evictions,
        pool.limitOrphanTxSize nMaxOrphans randHash = some (limited, evictions) ∧
          limited.mapOrphanTransactions.entries.length ≤ nMaxOrphans := by
  obtain ⟨pool, ran, consistent⟩ := Runs.run_succeeds
    (fun _ input consistent _ => Consistent.call consistent input) consistent_empty
    (Runs.Meets.trivial call {} calls)
  refine ⟨pool, ran, fun prev => (consistent.lookup_byPrev prev).1,
    fun prev => (consistent.lookup_byPrev prev).2, consistent.small, fun peer => ?_,
    fun nMaxOrphans randHash => ?_⟩
  · obtain ⟨swept, erased, _, left⟩ := consistent.eraseOrphansFor peer
    exact ⟨swept, erased, fun hash orphan found => ((left hash orphan).mp found).2⟩
  · obtain ⟨limited, evictions, ended, _, bounded, _⟩ :=
      consistent.limitOrphanTxSize nMaxOrphans randHash
    exact ⟨limited, evictions, ended, bounded⟩

end OrphanPool

end CentNode
