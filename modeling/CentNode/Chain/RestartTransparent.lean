import CentNode.Chain.RestartIndex

/-!
# What the rebuilding loop computes

In the order of the heights a parent comes before its children, so each work
and each count is computed from the final values of the parent.
-/

namespace CentNode

open Option List Function

/-! ## One iteration -/

/-- `nChainTx` of an entry, from that of its parent. -/
def LoadedEntry.chainTx (entry : LoadedEntry) (nChainTx : Uint256 → Nat) : Nat :=
  if entry.nStatus.haveData then
    match entry.pprev with
    | none => entry.nTx
    | some parent => if nChainTx parent ≠ 0 then (nChainTx parent + entry.nTx) % 2 ^ 32 else 0
  else 0

structure LoadedEntry.Waits (entry : LoadedEntry) (nChainTx : Uint256 → Nat) (parent : Uint256) :
    Prop where
  data : entry.nStatus.haveData = true
  edge : entry.pprev = some parent
  bare : nChainTx parent = 0

variable {entry : LoadedEntry}

section

variable {before after : Uint256 → Nat}
  (same : ∀ parent, entry.pprev = some parent → after parent = before parent)

include same

theorem LoadedEntry.chainTx_congr :
    entry.chainTx after = entry.chainTx before := by
  unfold chainTx
  cases edge : entry.pprev with
  | none => rfl
  | some parent =>
    dsimp only
    rw [same parent edge]

theorem LoadedEntry.waits_congr {parent : Uint256} :
    entry.Waits after parent ↔ entry.Waits before parent := by
  constructor
  · rintro ⟨data, edge, bare⟩
    exact ⟨data, edge, (same parent edge).symm.trans bare⟩
  · rintro ⟨data, edge, bare⟩
    exact ⟨data, edge, (same parent edge).trans bare⟩

end

namespace LoadedIndex

variable {index : LoadedIndex} {hash : Uint256} {entry : LoadedEntry}

/-- What an iteration does, for an entry that counts nothing so far. -/
structure Iterates (index next : LoadedIndex) (hash : Uint256) (entry : LoadedEntry) : Prop where
  map : next.mapBlockIndex = index.mapBlockIndex
  work : next.nChainWork = Function.update index.nChainWork hash
    (((entry.pprev.map index.nChainWork).getD 0 + getBlockProof entry.fields.nBits.toNat) % 2 ^ 256)
  count : next.nChainTx = Function.update index.nChainTx hash (entry.chainTx index.nChainTx)
  pending : (∃ parent, entry.Waits index.nChainTx parent ∧
      next.mapBlocksUnlinked = (parent, hash) :: index.mapBlocksUnlinked) ∨
    ((∀ parent, ¬ entry.Waits index.nChainTx parent) ∧
      next.mapBlocksUnlinked = index.mapBlocksUnlinked)

theorem rebuildEntry_iterates (found : index.mapBlockIndex.lookup hash = some entry)
    (zero : index.nChainTx hash = 0) : index.Iterates (index.rebuildEntry hash) hash entry := by
  unfold rebuildEntry
  rw [found]
  dsimp only
  cases data : entry.nStatus.haveData with
  | false =>
    rw [if_neg Bool.false_ne_true]
    refine ⟨rfl, rfl, ?_, Or.inr ⟨fun parent waits => ?_, rfl⟩⟩
    · unfold LoadedEntry.chainTx
      rw [data, if_neg Bool.false_ne_true, ← zero, update_eq_self]
    · cases waits.data.symm.trans data
  | true =>
    rw [if_pos rfl]
    unfold countEntry
    cases edge : entry.pprev with
    | none =>
      refine ⟨rfl, by rw [edge], ?_, Or.inr ⟨fun parent waits => ?_, rfl⟩⟩
      · unfold LoadedEntry.chainTx
        rw [data, if_pos rfl, edge]
      · cases waits.edge.symm.trans edge
    | some parent =>
      dsimp only
      split
      case isTrue counted =>
        refine ⟨rfl, by rw [edge], ?_, Or.inr ⟨fun other waits => ?_, rfl⟩⟩
        · unfold LoadedEntry.chainTx
          rw [data, if_pos rfl, edge]
          dsimp only
          rw [if_pos counted]
        · cases waits.edge.symm.trans edge
          exact counted waits.bare
      case isFalse bare =>
        refine ⟨rfl, by rw [edge], ?_, Or.inl ⟨parent, ⟨data, edge, not_not.mp bare⟩, rfl⟩⟩
        unfold LoadedEntry.chainTx
        rw [data, if_pos rfl, edge]
        dsimp only
        rw [if_neg bare]

end LoadedIndex

/-! ## The loop -/

/-- What the loop has computed once it is done with some of the entries. -/
structure Rebuilt (mapBlockIndex : StdMap Uint256 LoadedEntry) (done : List Uint256)
    (index : LoadedIndex) : Prop where
  map : index.mapBlockIndex = mapBlockIndex
  work : ∀ {hash entry}, hash ∈ done → mapBlockIndex.lookup hash = some entry →
    index.nChainWork hash = (((entry.pprev.map index.nChainWork).getD 0 +
      getBlockProof entry.fields.nBits.toNat) % 2 ^ 256)
  count : ∀ {hash entry}, hash ∈ done → mapBlockIndex.lookup hash = some entry →
    index.nChainTx hash = entry.chainTx index.nChainTx
  later : ∀ {hash}, hash ∉ done → index.nChainTx hash = 0
  closed : ∀ {hash entry parent}, hash ∈ done → mapBlockIndex.lookup hash = some entry →
    entry.pprev = some parent → parent ∈ done
  pending : ∀ {parent hash}, (parent, hash) ∈ index.mapBlocksUnlinked ↔
    ∃ entry, hash ∈ done ∧ mapBlockIndex.lookup hash = some entry ∧
      entry.Waits index.nChainTx parent
  once : index.mapBlocksUnlinked.Nodup

theorem Rebuilt.start (mapBlockIndex : StdMap Uint256 LoadedEntry) :
    Rebuilt mapBlockIndex [] { mapBlockIndex := mapBlockIndex } := by
  constructor
  case map => rfl
  case later => exact fun _ => rfl
  case once => exact nodup_nil
  case pending =>
    intro parent hash
    constructor
    · exact fun member => absurd member not_mem_nil
    · rintro ⟨_, member, _⟩
      exact absurd member not_mem_nil
  all_goals exact fun member => absurd member not_mem_nil

variable {mapBlockIndex : StdMap Uint256 LoadedEntry} {done : List Uint256}

theorem Rebuilt.rebuildEntry {index : LoadedIndex} (rebuilt : Rebuilt mapBlockIndex done index)
    {hash : Uint256} (found : mapBlockIndex.lookup hash = some entry) (new : hash ∉ done)
    (parents : ∀ parent, entry.pprev = some parent → parent ∈ done) :
    Rebuilt mapBlockIndex (hash :: done) (index.rebuildEntry hash) := by
  have step := LoadedIndex.rebuildEntry_iterates (rebuilt.map ▸ found) (rebuilt.later new)
  generalize index.rebuildEntry hash = next at step
  have differ : ∀ {other}, other ∈ done → other ≠ hash := fun member same => new (same ▸ member)
  -- the values of entries that are done stay, and so do those of their parents
  have count : ∀ {other}, other ∈ done → next.nChainTx other = index.nChainTx other := by
    intro other member
    rw [step.count, update_of_ne (differ member)]
  have work : ∀ {other}, other ∈ done → next.nChainWork other = index.nChainWork other := by
    intro other member
    rw [step.work, update_of_ne (differ member)]
  have ups : ∀ {parent : Option Uint256}, (∀ up, parent = some up → up ∈ done) →
      (parent.map next.nChainWork).getD 0 = (parent.map index.nChainWork).getD 0 := by
    intro parent inside
    cases parent with
    | none => rfl
    | some up => rw [map_some, map_some, work (inside up rfl)]
  have waits : ∀ {other otherEntry parent}, other ∈ done →
      mapBlockIndex.lookup other = some otherEntry →
        (otherEntry.Waits next.nChainTx parent ↔ otherEntry.Waits index.nChainTx parent) :=
    fun member otherFound => LoadedEntry.waits_congr fun up edge =>
      count (rebuilt.closed member otherFound edge)
  have waitsHere : ∀ {parent},
      (entry.Waits next.nChainTx parent ↔ entry.Waits index.nChainTx parent) :=
    LoadedEntry.waits_congr fun up edge => count (parents up edge)
  constructor
  case map => exact step.map.trans rebuilt.map
  case work =>
    intro other otherEntry member otherFound
    rcases mem_cons.mp member with rfl | before
    · cases found.symm.trans otherFound
      rw [ups parents, step.work, update_self]
    · rw [ups fun up edge => rebuilt.closed before otherFound edge, work before]
      exact rebuilt.work before otherFound
  case count =>
    intro other otherEntry member otherFound
    rcases mem_cons.mp member with rfl | before
    · cases found.symm.trans otherFound
      rw [LoadedEntry.chainTx_congr fun up edge => count (parents up edge), step.count,
        update_self]
    · rw [LoadedEntry.chainTx_congr fun up edge => count (rebuilt.closed before otherFound edge),
        count before]
      exact rebuilt.count before otherFound
  case later =>
    intro other absent
    have elsewhere := not_mem_of_not_mem_cons absent
    rw [step.count, update_of_ne (ne_of_not_mem_cons absent)]
    exact rebuilt.later elsewhere
  case closed =>
    intro other otherEntry parent member otherFound edge
    rcases mem_cons.mp member with rfl | before
    · cases found.symm.trans otherFound
      exact mem_cons_of_mem _ (parents parent edge)
    · exact mem_cons_of_mem _ (rebuilt.closed before otherFound edge)
  case pending =>
    intro parent other
    have pairs : (parent, other) ∈ next.mapBlocksUnlinked ↔
        (other = hash ∧ entry.Waits index.nChainTx parent) ∨
          (parent, other) ∈ index.mapBlocksUnlinked := by
      rcases step.pending with ⟨up, waitsUp, unlinked⟩ | ⟨free, unlinked⟩
      · rw [unlinked, mem_cons, Prod.mk.injEq]
        refine or_congr ⟨?_, ?_⟩ Iff.rfl
        · rintro ⟨rfl, rfl⟩
          exact ⟨rfl, waitsUp⟩
        · rintro ⟨rfl, waitsToo⟩
          exact ⟨Option.some.inj (waitsToo.edge.symm.trans waitsUp.edge), rfl⟩
      · rw [unlinked]
        exact (or_iff_right fun here => free parent here.2).symm
    rw [pairs, rebuilt.pending]
    constructor
    · rintro (⟨rfl, waitsNow⟩ | ⟨otherEntry, member, otherFound, waitsNow⟩)
      · exact ⟨entry, mem_cons_self, found, waitsHere.mpr waitsNow⟩
      · exact ⟨otherEntry, mem_cons_of_mem _ member, otherFound,
          (waits member otherFound).mpr waitsNow⟩
    · rintro ⟨otherEntry, member, otherFound, waitsNow⟩
      rcases mem_cons.mp member with rfl | before
      · cases found.symm.trans otherFound
        exact Or.inl ⟨rfl, waitsHere.mp waitsNow⟩
      · exact Or.inr ⟨otherEntry, before, otherFound, (waits before otherFound).mp waitsNow⟩
  case once =>
    rcases step.pending with ⟨up, _, unlinked⟩ | ⟨_, unlinked⟩
    · rw [unlinked, nodup_cons]
      refine ⟨fun member => ?_, rebuilt.once⟩
      obtain ⟨_, inside, _⟩ := rebuilt.pending.mp member
      exact new inside
    · rw [unlinked]
      exact rebuilt.once

/-! ## The order of the heights -/

/-- The pointers lead to entries that were loaded, one height below. -/
def HeightsStep (mapBlockIndex : StdMap Uint256 LoadedEntry) : Prop :=
  ∀ {hash entry parent}, mapBlockIndex.lookup hash = some entry → entry.pprev = some parent →
    (mapBlockIndex.lookup parent).isSome = true ∧
      loadedHeight mapBlockIndex hash = loadedHeight mapBlockIndex parent + 1

theorem Rebuilt.run (steps : HeightsStep mapBlockIndex) (todo : List Uint256) {index : LoadedIndex}
    (present : ∀ hash ∈ todo, ∃ entry, mapBlockIndex.lookup hash = some entry)
    (covered : ∀ hash, (mapBlockIndex.lookup hash).isSome = true → hash ∈ todo ∨ hash ∈ done)
    (sorted : todo.Pairwise fun first second =>
      loadedHeight mapBlockIndex first ≤ loadedHeight mapBlockIndex second)
    (fresh : todo.Nodup) (apart : ∀ hash ∈ todo, hash ∉ done)
    (rebuilt : Rebuilt mapBlockIndex done index) :
    ∃ all, (∀ hash, (mapBlockIndex.lookup hash).isSome = true → hash ∈ all) ∧
      Rebuilt mapBlockIndex all (todo.foldl LoadedIndex.rebuildEntry index) := by
  induction todo generalizing done index with
  | nil =>
    refine ⟨done, fun hash inMap => ?_, rebuilt⟩
    rcases covered hash inMap with impossible | inside
    · exact absurd impossible not_mem_nil
    · exact inside
  | cons hash rest ih =>
    obtain ⟨entry, found⟩ := present hash mem_cons_self
    obtain ⟨lowest, restSorted⟩ := pairwise_cons.mp sorted
    obtain ⟨outside, restFresh⟩ := nodup_cons.mp fresh
    -- a parent is lower, so it does not come later
    have parents : ∀ parent, entry.pprev = some parent → parent ∈ done := by
      intro parent edge
      obtain ⟨inMap, height⟩ := steps found edge
      rcases covered parent inMap with member | inside
      · rcases mem_cons.mp member with same | later
        · subst same
          omega
        · have above := lowest parent later
          omega
      · exact inside
    have next := rebuilt.rebuildEntry found (apart hash mem_cons_self) parents
    refine ih (fun other inside => present other (mem_cons_of_mem _ inside)) ?_ restSorted
      restFresh ?_ next
    · intro other inMap
      rcases covered other inMap with member | before
      · rcases mem_cons.mp member with rfl | later
        · exact Or.inr mem_cons_self
        · exact Or.inl later
      · exact Or.inr (mem_cons_of_mem _ before)
    · intro other inside member
      rcases mem_cons.mp member with same | before
      · exact outside (same ▸ inside)
      · exact apart other (mem_cons_of_mem _ inside) before

variable (address : Uint256 → Nat)

theorem mem_sortedByHeight {hash : Uint256} :
    hash ∈ sortedByHeight address mapBlockIndex ↔ (mapBlockIndex.lookup hash).isSome = true := by
  unfold sortedByHeight
  rw [mem_mergeSort, AList.lookup_isSome]
  exact AList.mem_keys.symm

theorem sortedByHeight_nodup : (sortedByHeight address mapBlockIndex).Nodup :=
  (mergeSort_perm _ _).nodup_iff.mpr mapBlockIndex.nodupKeys

theorem sortedByHeight_sorted :
    (sortedByHeight address mapBlockIndex).Pairwise fun first second =>
      loadedHeight mapBlockIndex first ≤ loadedHeight mapBlockIndex second := by
  unfold sortedByHeight
  refine (pairwise_mergeSort ?_ ?_ _).imp ?_
  · intro first second third
    rw [decide_eq_true_eq, decide_eq_true_eq, decide_eq_true_eq]
    omega
  · intro first second
    rw [Bool.or_eq_true, decide_eq_true_eq, decide_eq_true_eq]
    omega
  · intro first second ordered
    rw [decide_eq_true_eq] at ordered
    omega

theorem rebuild_rebuilt (steps : HeightsStep mapBlockIndex) (address : Uint256 → Nat) :
    ∃ all, (∀ hash, (mapBlockIndex.lookup hash).isSome = true → hash ∈ all) ∧
      Rebuilt mapBlockIndex all (rebuild address mapBlockIndex) := by
  refine Rebuilt.run steps (sortedByHeight address mapBlockIndex) (fun hash inside => ?_)
    (fun hash inMap => Or.inl ((mem_sortedByHeight address).mpr inMap))
    (sortedByHeight_sorted address) (sortedByHeight_nodup address)
    (fun hash _ => not_mem_nil) (Rebuilt.start mapBlockIndex)
  exact isSome_iff_exists.mp ((mem_sortedByHeight address).mp inside)

/-! ## Memory and the loaded index -/

namespace StoredIndex

variable {hashOf : CBlockHeader → Uint256} {state : StoredIndex}

variable {pindex : BlockPtr}

section

variable (traced : state.Traced hashOf) (named : state.index.tree.mapBlockIndex.lookup 0 = none)

include traced named

theorem loadedEntry_pprev
    (known : state.index.tree.Known pindex) : (state.loadedEntry pindex).pprev =
      (state.index.tree.pprev pindex).map state.index.tree.phashBlock := by
  change (if state.hashPrev pindex = 0 then none else some (state.hashPrev pindex)) = _
  unfold hashPrev
  cases edge : state.index.tree.pprev pindex with
  | none => rfl
  | some parent =>
    have parentKnown := traced.linked.ranked.parent_known known edge
    have nonzero : state.index.tree.phashBlock parent ≠ 0 := by
      intro zero
      unfold BlockTree.Known at parentKnown
      rw [zero, named] at parentKnown
      cases parentKnown
    exact if_neg nonzero

theorem loadedEntry_same (known : state.index.tree.Known pindex) :
    state.SameEntry pindex (state.loadedEntry pindex) := by
  have fields : (state.loadedEntry pindex).fields =
      (state.fields pindex).onDisk (state.index.nStatus pindex) := rfl
  constructor
  case pprev => exact loadedEntry_pprev traced named known
  case nHeight => rfl
  case nStatus => rfl
  case nTx => rfl
  case fields =>
    rw [fields]
    unfold BlockFields.onDisk BlockFields.withoutPositions
    cases flag : (state.fields pindex).isProofOfStake with
    | true => rfl
    | false =>
      obtain ⟨prevout, time⟩ := traced.staked known flag
      dsimp only
      rw [if_neg Bool.false_ne_true, if_neg Bool.false_ne_true, prevout, time]
  case nFile =>
    intro there
    rw [fields]
    exact if_pos (Bool.or_eq_true_iff.mpr there)
  case nDataPos =>
    intro there
    rw [fields]
    exact if_pos there
  case nUndoPos =>
    intro there
    rw [fields]
    exact if_pos there

theorem Loaded.heightsStep (loaded : state.Loaded mapBlockIndex) : HeightsStep mapBlockIndex := by
  have height : ∀ {hash pindex}, state.index.tree.mapBlockIndex.lookup hash = some pindex →
      loadedHeight mapBlockIndex hash = state.index.tree.nHeight pindex := by
    intro hash pindex found
    unfold loadedHeight
    rw [loaded.loaded found]
    rfl
  intro hash entry parentHash found edge
  obtain ⟨pindex, inIndex⟩ := isSome_iff_exists.mp (loaded.known (isSome_of_mem found))
  cases found.symm.trans (loaded.loaded inIndex)
  have known := traced.linked.known_of_lookup inIndex
  rw [loadedEntry_pprev traced named known] at edge
  obtain ⟨parent, up, rfl⟩ := map_eq_some_iff.mp edge
  have parentKnown := traced.linked.ranked.parent_known known up
  refine ⟨isSome_of_mem (loaded.loaded parentKnown), ?_⟩
  rw [height inIndex, height parentKnown]
  exact traced.linked.ranked.rank_parent known up

end

section Counted

variable (counted : ∀ {pindex parent}, state.index.tree.Known pindex →
  state.index.nChainTx pindex ≠ 0 → state.index.tree.pprev pindex = some parent →
    state.index.nChainTx parent ≠ 0)

include counted

section

variable (traced : state.Traced hashOf)

include traced

theorem Traced.parent_counts {pindex parent : BlockPtr}
    (known : state.index.tree.Known pindex)
    (data : (state.index.nStatus pindex).haveData = true)
    (linked : ∀ up, (up, pindex) ∉ state.index.mapBlocksUnlinked)
    (edge : state.index.tree.pprev pindex = some parent) : state.index.nChainTx parent ≠ 0 := by
  intro bare
  obtain ⟨sum, _⟩ := traced.counts.counted known ⟨data, not_mem_nil, linked⟩
  obtain ⟨some_tx, bounded⟩ := traced.filled known data
  rw [edge, map_some, getD_some, bare, Nat.zero_add] at sum
  have small : state.index.nTx pindex < 2 ^ 32 := Nat.lt_of_le_of_lt bounded (by decide)
  rw [Nat.mod_eq_of_lt small] at sum
  exact counted known (by omega) edge bare

theorem Traced.waiting_iff {pindex parent : BlockPtr} :
    (some parent, pindex) ∈ state.index.mapBlocksUnlinked ↔
      state.index.tree.Known pindex ∧ (state.index.nStatus pindex).haveData = true ∧
        state.index.tree.pprev pindex = some parent ∧ state.index.nChainTx parent = 0 := by
  constructor
  · intro member
    obtain ⟨known, data, _, _, other, same, edge, bare⟩ := traced.counts.waiting member
    cases same
    exact ⟨known, data, edge, bare⟩
  · rintro ⟨known, data, edge, bare⟩
    by_contra absent
    refine traced.parent_counts counted known data (fun up member => ?_) edge bare
    obtain ⟨_, _, _, _, other, rfl, edgeToo, _⟩ := traced.counts.waiting member
    cases edge.symm.trans edgeToo
    exact absent member

theorem Traced.chainTx_eq {pindex : BlockPtr}
    (known : state.index.tree.Known pindex) {nChainTx : Uint256 → Nat}
    (up : (state.loadedEntry pindex).pprev =
      (state.index.tree.pprev pindex).map state.index.tree.phashBlock)
    (parents : ∀ parent, state.index.tree.pprev pindex = some parent →
      nChainTx (state.index.tree.phashBlock parent) = state.index.nChainTx parent) :
    (state.loadedEntry pindex).chainTx nChainTx = state.index.nChainTx pindex := by
  unfold LoadedEntry.chainTx
  rw [up]
  change (if (state.index.nStatus pindex).haveData = true then _ else 0) = _
  cases data : (state.index.nStatus pindex).haveData with
  | false => exact (traced.counts.bare known data).symm
  | true =>
    rw [if_pos rfl]
    change (match (state.index.tree.pprev pindex).map state.index.tree.phashBlock with
      | none => state.index.nTx pindex
      | some parent => if nChainTx parent ≠ 0 then
          (nChainTx parent + state.index.nTx pindex) % 2 ^ 32 else 0) = _
    by_cases waits : ∃ up, (up, pindex) ∈ state.index.mapBlocksUnlinked
    · obtain ⟨_, member⟩ := waits
      obtain ⟨_, _, _, zero, parent, _, edge, bare⟩ := traced.counts.waiting member
      rw [edge, zero]
      dsimp only [map_some]
      rw [parents parent edge, bare]
      exact if_neg (not_not.mpr rfl)
    · have linked : ∀ up, (up, pindex) ∉ state.index.mapBlocksUnlinked :=
        fun up member => waits ⟨up, member⟩
      obtain ⟨sum, _⟩ := traced.counts.counted known ⟨data, not_mem_nil, linked⟩
      cases edge : state.index.tree.pprev pindex with
      | none =>
        have small : state.index.nTx pindex < 2 ^ 32 :=
          Nat.lt_of_le_of_lt (traced.filled known data).2 (by decide)
        rw [edge] at sum
        change _ = (0 + state.index.nTx pindex) % 2 ^ 32 at sum
        rw [sum, Nat.zero_add, Nat.mod_eq_of_lt small]
        rfl
      | some parent =>
        rw [edge] at sum
        dsimp only [map_some]
        rw [parents parent edge,
          if_pos (traced.parent_counts counted known data linked edge)]
        exact sum.symm

/-- Work and counts come out as they were in memory. -/
theorem Loaded.values
    (named : state.index.tree.mapBlockIndex.lookup 0 = none) (loaded : state.Loaded mapBlockIndex) {all : List Uint256} {index : LoadedIndex}
    (complete : ∀ hash, (mapBlockIndex.lookup hash).isSome = true → hash ∈ all)
    (rebuilt : Rebuilt mapBlockIndex all index) {pindex : BlockPtr}
    (known : state.index.tree.Known pindex) :
    index.nChainWork (state.index.tree.phashBlock pindex) = state.index.tree.nChainWork pindex ∧
      index.nChainTx (state.index.tree.phashBlock pindex) = state.index.nChainTx pindex := by
  induction rank : state.index.tree.nHeight pindex using Nat.strong_induction_on
    generalizing pindex with
  | _ height ih =>
    have found := loaded.loaded known
    have inside := complete _ (isSome_of_mem found)
    have up := loadedEntry_pprev traced named known
    have parentValues : ∀ parent, state.index.tree.pprev pindex = some parent →
        index.nChainWork (state.index.tree.phashBlock parent) = state.index.tree.nChainWork parent ∧
          index.nChainTx (state.index.tree.phashBlock parent) = state.index.nChainTx parent := by
      intro parent edge
      have grows := traced.linked.ranked.rank_parent known edge
      exact ih _ (by omega) (traced.linked.ranked.parent_known known edge) rfl
    have bits : (state.loadedEntry pindex).fields.nBits = (state.fields pindex).nBits := rfl
    refine ⟨?_, ?_⟩
    · rw [rebuilt.work inside found, traced.work known, up, bits]
      cases edge : state.index.tree.pprev pindex with
      | none => rfl
      | some parent => rw [map_some, map_some, map_some, (parentValues parent edge).1]
    · rw [rebuilt.count inside found]
      exact traced.chainTx_eq counted known up fun parent edge => (parentValues parent edge).2

/-- The pairs that wait come out as they were in memory. -/
theorem Loaded.pending
    (named : state.index.tree.mapBlockIndex.lookup 0 = none) (loaded : state.Loaded mapBlockIndex)
    {all : List Uint256} {index : LoadedIndex}
    (complete : ∀ hash, (mapBlockIndex.lookup hash).isSome = true → hash ∈ all)
    (rebuilt : Rebuilt mapBlockIndex all index) {hashPrev hash : Uint256} :
    (hashPrev, hash) ∈ index.mapBlocksUnlinked ↔ ∃ parent pindex,
      state.index.tree.mapBlockIndex.lookup hash = some pindex ∧
        (some parent, pindex) ∈ state.index.mapBlocksUnlinked ∧
          state.index.tree.phashBlock parent = hashPrev := by
  have value := fun {pindex} => @Loaded.values _ _ _ counted traced named loaded _ _ complete rebuilt
    pindex
  rw [rebuilt.pending]
  constructor
  · rintro ⟨entry, _, found, data, up, bare⟩
    obtain ⟨pindex, inIndex⟩ := isSome_iff_exists.mp (loaded.known (isSome_of_mem found))
    cases found.symm.trans (loaded.loaded inIndex)
    have known := traced.linked.known_of_lookup inIndex
    rw [loadedEntry_pprev traced named known] at up
    obtain ⟨parent, edge, rfl⟩ := map_eq_some_iff.mp up
    have parentKnown := traced.linked.ranked.parent_known known edge
    refine ⟨parent, pindex, inIndex, (traced.waiting_iff counted).mpr ⟨known, data, edge, ?_⟩, rfl⟩
    exact (value parentKnown).2.symm.trans bare
  · rintro ⟨parent, pindex, inIndex, member, rfl⟩
    obtain ⟨known, data, edge, bare⟩ := (traced.waiting_iff counted).mp member
    have found := loaded.loaded inIndex
    refine ⟨_, complete _ (isSome_of_mem found), found, data, ?_, ?_⟩
    · rw [loadedEntry_pprev traced named known, edge, map_some]
    · exact (value (traced.linked.ranked.parent_known known edge)).2.trans bare

end

end Counted

/-! ## Restarting -/

theorem Restartable.loads {params : LoadParams} (restartable : state.Restartable params)
    (traced : state.Traced params.hashOf) (hash : Uint256) (pindex : BlockPtr)
    (found : state.index.tree.mapBlockIndex.lookup hash = some pindex) :
    state.Loads params hash pindex := by
  refine ⟨?_, fun low => ?_⟩
  · rintro rfl
    cases found.symm.trans restartable.named
  · have worked := restartable.worked (traced.linked.known_of_lookup found) low
    rw [traced.linked.keyed found] at worked
    exact worked

/-- A restart brings the index back exactly when the entries are accepted and
no count wrapped to zero under an entry that counts. -/
theorem restart_same_iff {params : LoadParams} (address : Uint256 → Nat)
    (reachable : Reachable params.hashOf state) :
    (∃ loaded, state.restart params address = some loaded ∧ state.SameIndex loaded) ↔
      state.Restartable params := by
  have traced := reachable.traced
  constructor
  · rintro ⟨loaded, ran, same⟩
    obtain ⟨mapBlockIndex, read, rfl⟩ := map_eq_some_iff.mp ran
    have accepted := (load_iff traced).mp ⟨mapBlockIndex, read⟩
    have named : state.index.tree.mapBlockIndex.lookup 0 = none := by
      cases found : state.index.tree.mapBlockIndex.lookup 0 with
      | none => rfl
      | some pindex => exact absurd rfl (accepted 0 pindex found).named
    have kept := load_loaded traced read
    obtain ⟨all, complete, rebuilt⟩ := rebuild_rebuilt (kept.heightsStep traced named) address
    refine ⟨named, fun known low => (accepted _ _ known).worked low, ?_⟩
    intro pindex parent known counts edge bare
    obtain ⟨entry, found, _, _, count⟩ := same.entry known
    have parentKnown := traced.linked.ranked.parent_known known edge
    obtain ⟨_, _, _, _, parentCount⟩ := same.entry parentKnown
    have entry_eq := kept.loaded known
    have sum := rebuilt.count (complete _ (isSome_of_mem entry_eq)) entry_eq
    refine counts ?_
    rw [← count, sum]
    unfold LoadedEntry.chainTx
    rw [loadedEntry_pprev traced named known, edge]
    dsimp only [map_some]
    rw [parentCount, bare]
    split
    · exact if_neg (not_not.mpr rfl)
    · rfl
  · intro restartable
    have named := restartable.named
    obtain ⟨mapBlockIndex, read⟩ := (load_iff traced).mpr (restartable.loads traced)
    have kept := load_loaded traced read
    obtain ⟨all, complete, rebuilt⟩ := rebuild_rebuilt (kept.heightsStep traced named) address
    have ran : state.restart params address = some (rebuild address mapBlockIndex) := by
      unfold restart
      rw [read]
      rfl
    refine ⟨_, ran, ?_, fun {hash pindex} found => ?_, fun hashPrev hash _ => ?_, rebuilt.once⟩
    · intro hash
      rw [rebuilt.map, Bool.eq_iff_iff]
      refine ⟨kept.known, fun present => ?_⟩
      obtain ⟨pindex, found⟩ := isSome_iff_exists.mp present
      exact isSome_of_mem (kept.loaded found)
    · have known := traced.linked.known_of_lookup found
      have values := kept.values restartable.counted traced named complete rebuilt known
      rw [traced.linked.keyed found] at values
      refine ⟨state.loadedEntry pindex, ?_, loadedEntry_same traced named known, values⟩
      rw [rebuilt.map]
      exact kept.loaded found
    · exact kept.pending restartable.counted traced named complete rebuilt

/-! Small indexes: the genesis block, and a block with work or with a stake on it. -/

/-- A hash that can be chosen freely. -/
def rootHash (header : CBlockHeader) : Uint256 := header.hashMerkleRoot

def smallParams : LoadParams where
  hashOf := rootHash
  clientVersion := 1
  lastPowBlock := 200
  fSkipProofOfWorkCheck := false
  bnProofOfWorkLimit := 2 ^ 236 - 1

def genesisBlock : IncomingBlock :=
  ⟨{ hashMerkleRoot := 1, nBits := 0x03000010 }, [CTransaction.empty]⟩

def stakeBlock : IncomingBlock :=
  ⟨{ hashPrevBlock := 1, hashMerkleRoot := 100, nBits := 0x03000010 },
    [CTransaction.empty,
      { hash := 5, vin := [{ prevout := ⟨3, 0⟩ }], vout := [⟨0, []⟩, ⟨1, [1]⟩] }]⟩

def workBlock : IncomingBlock :=
  ⟨{ hashPrevBlock := 1, hashMerkleRoot := 7, nBits := 0x03000010 }, [CTransaction.empty]⟩

def genesisIndex : StoredIndex :=
  ((empty.addToBlockIndex rootHash 1 genesisBlock ⟨true, 0, false⟩).getD empty).receivedBlockTransactions
    rootHash genesisBlock 1 ⟨0, 8⟩

def stakeIndex : StoredIndex :=
  (genesisIndex.addToBlockIndex rootHash 2 stakeBlock ⟨true, 0, false⟩).getD empty

def workIndex : StoredIndex :=
  ((genesisIndex.addToBlockIndex rootHash 2 workBlock ⟨true, 0, false⟩).getD
    empty).receivedBlockTransactions rootHash workBlock 2 ⟨0, 300⟩

theorem genesisIndex_reachable : Reachable rootHash genesisIndex := by
  refine Reachable.received (Reachable.added Reachable.empty (Or.inr ⟨rfl, by decide⟩) rfl) ?_
  exact ⟨rfl, rfl, fun parent edge => (nomatch edge), cons_ne_nil _ _, by decide⟩

theorem stakeIndex_reachable : Reachable rootHash stakeIndex :=
  @Reachable.added rootHash genesisIndex stakeIndex genesisIndex_reachable 2 stakeBlock
    ⟨true, 0, false⟩ (Or.inl rfl) rfl

theorem workIndex_reachable : Reachable rootHash workIndex := by
  refine Reachable.received (@Reachable.added rootHash genesisIndex _ genesisIndex_reachable 2
    workBlock ⟨true, 0, false⟩ (Or.inl rfl) rfl) ?_
  refine ⟨rfl, rfl, fun parent edge => ?_, cons_ne_nil _ _, by decide⟩
  cases edge
  decide

theorem workIndex_known (known : workIndex.index.tree.Known pindex) : pindex = 2 ∨ pindex = 1 := by
  have inside := workIndex_reachable.traced.linked.mem_entries.mpr known
  rw [show workIndex.index.tree.entries = [2, 1] from rfl] at inside
  simpa using inside

/-- Both entries come back, with the counts of transactions. -/
theorem restart_same_workIndex :
    (workIndex.index.nChainTx 1, workIndex.index.nChainTx 2) = (1, 2) ∧ ∃ loaded,
      workIndex.restart smallParams BitVec.toNat = some loaded ∧ workIndex.SameIndex loaded := by
  have reachable : Reachable smallParams.hashOf workIndex := workIndex_reachable
  refine ⟨rfl, (restart_same_iff BitVec.toNat reachable).mpr
    ⟨rfl, fun known _ => ?_, fun known _ up => ?_⟩⟩
  · rcases workIndex_known known with rfl | rfl <;> decide
  · rcases workIndex_known known with rfl | rfl
    · cases up
      decide
    · cases up

/-- The restart fails at a proof-of-stake block of the first two hundred, which
has no work. -/
theorem restart_loses_stakeBlock : Reachable smallParams.hashOf stakeIndex ∧
    stakeBlock.isProofOfStake = true ∧ stakeIndex.index.tree.nHeight 2 = 1 ∧
      stakeIndex.restart smallParams BitVec.toNat = none := by
  refine ⟨stakeIndex_reachable, rfl, rfl, ?_⟩
  cases ran : stakeIndex.restart smallParams BitVec.toNat with
  | none => rfl
  | some loaded =>
    obtain ⟨mapBlockIndex, read, _⟩ := map_eq_some_iff.mp ran
    have traced : stakeIndex.Traced smallParams.hashOf := stakeIndex_reachable.traced
    have accepted := (load_iff traced).mp ⟨mapBlockIndex, read⟩
    have worked := (accepted 100 2 rfl).worked (by decide)
    exact absurd worked (by decide)

end StoredIndex

end CentNode
