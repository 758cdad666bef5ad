import CentNode.Chain.ReachableIndex

/-!
# Loading the block index after a restart

`CBlockTreeDB::LoadBlockIndexGuts` reads the entries in the order of their keys,
and the loop of `LoadBlockIndexDB` computes work and transaction counts again,
in the order of the heights.  A pointer to an entry is the hash it is found under.
-/

namespace CentNode

open List StdMap Option

/-! ## The database -/

/-- What loading reads of the parameters of the chain and of the program. -/
structure LoadParams where
  hashOf : CBlockHeader → Uint256
  clientVersion : Nat
  lastPowBlock : Int
  fSkipProofOfWorkCheck : Bool
  bnProofOfWorkLimit : Nat

def LoadParams.checkProofOfWork (params : LoadParams) (hash : Uint256) (nBits : Nat) : Bool :=
  if params.fSkipProofOfWorkCheck then true
  else
    let (bnTarget, fNegative, fOverflow) := setCompact nBits
    if fNegative || bnTarget = 0 || fOverflow || bnTarget > params.bnProofOfWorkLimit then false
    else hash.toNat ≤ bnTarget

namespace StoredIndex

/-- `CDiskBlockIndex(pindex)`; nothing sets `hashNext`. -/
def diskEntry (state : StoredIndex) (pindex : BlockPtr) : CDiskBlockIndex where
  nHeight := state.index.tree.nHeight pindex
  nStatus := state.index.nStatus pindex
  nTx := state.index.nTx pindex
  fields := state.fields pindex
  hashPrev := state.hashPrev pindex

/-- The records under the key `b` once every entry is written with `WriteBlockIndex`. -/
def writeAll (params : LoadParams) (state : StoredIndex) : StdMap Uint256 (List UInt8) :=
  state.index.tree.entries.foldl
    (fun db pindex =>
      db.insert ((state.diskEntry pindex).getBlockHash params.hashOf)
        (writeDiskIndex params.clientVersion (state.diskEntry pindex)))
    ∅

end StoredIndex

/-- The records in the order of the bytes of their keys. -/
def cursor (db : StdMap Uint256 (List UInt8)) : List (Uint256 × List UInt8) :=
  (db.entries.map fun record => (record.1, record.2)).mergeSort
    fun first second => decide (writeUint256 first.1 ≤ writeUint256 second.1)

/-! ## `LoadBlockIndexGuts` -/

/-- An entry of the index while it is loaded. -/
structure LoadedEntry where
  pprev : Option Uint256 := none
  nHeight : Nat := 0
  nStatus : BlockStatus := {}
  nTx : Nat := 0
  fields : BlockFields := {}
  deriving DecidableEq, Repr

/-- `InsertBlockIndex`: the hash zero stands for no entry. -/
def insertBlockIndex (mapBlockIndex : StdMap Uint256 LoadedEntry) (hash : Uint256) :
    StdMap Uint256 LoadedEntry :=
  if hash = 0 then mapBlockIndex else mapBlockIndex.insertNew hash {}

/-- The entry that a record becomes. -/
def CDiskBlockIndex.loaded (diskindex : CDiskBlockIndex) : LoadedEntry where
  pprev := if diskindex.hashPrev = 0 then none else some diskindex.hashPrev
  nHeight := diskindex.nHeight
  nStatus := diskindex.nStatus
  nTx := diskindex.nTx
  fields := diskindex.fields

namespace LoadParams

variable (params : LoadParams)

/-- One iteration of the loop of `LoadBlockIndexGuts`: `none` when the record
cannot be read, when its hash is zero and the null pointer is followed, or when
the proof of work fails. -/
def loadEntry (mapBlockIndex : StdMap Uint256 LoadedEntry) (record : Uint256 × List UInt8) :
    Option (StdMap Uint256 LoadedEntry) :=
  match readDiskIndex.run record.2 with
  | none => none
  | some (diskindex, _) =>
    let hash := diskindex.getBlockHash params.hashOf
    if hash = 0 then none
    else
      let inserted := insertBlockIndex (insertBlockIndex (insertBlockIndex mapBlockIndex hash)
        diskindex.hashPrev) diskindex.hashNext
      if (diskindex.nHeight : Int) ≤ params.lastPowBlock &&
          !params.checkProofOfWork hash diskindex.fields.nBits.toNat then none
      else some (inserted.insert hash diskindex.loaded)

def loadBlockIndexGuts (db : StdMap Uint256 (List UInt8)) : Option (StdMap Uint256 LoadedEntry) :=
  (cursor db).foldlM params.loadEntry ∅

end LoadParams

/-! ## The loop of `LoadBlockIndexDB` -/

/-- The index with the fields that are not stored. -/
structure LoadedIndex where
  mapBlockIndex : StdMap Uint256 LoadedEntry
  nChainWork : Uint256 → Nat := fun _ => 0
  nChainTx : Uint256 → Nat := fun _ => 0
  mapBlocksUnlinked : List (Uint256 × Uint256) := []

namespace LoadedIndex

/-- `nChainTx` of an entry with its data, and whether it waits for its parent. -/
def countEntry (index : LoadedIndex) (hash : Uint256) (entry : LoadedEntry) : LoadedIndex :=
  match entry.pprev with
  | none => { index with nChainTx := Function.update index.nChainTx hash entry.nTx }
  | some parent =>
    if index.nChainTx parent ≠ 0 then
      { index with
        nChainTx := Function.update index.nChainTx hash
          ((index.nChainTx parent + entry.nTx) % 2 ^ 32) }
    else
      { index with
        nChainTx := Function.update index.nChainTx hash 0
        mapBlocksUnlinked := (parent, hash) :: index.mapBlocksUnlinked }

/-- One iteration of the loop. -/
def rebuildEntry (index : LoadedIndex) (hash : Uint256) : LoadedIndex :=
  match index.mapBlockIndex.lookup hash with
  | none => index
  | some entry =>
    let worked := { index with
      nChainWork := Function.update index.nChainWork hash
        (((entry.pprev.map index.nChainWork).getD 0 +
          getBlockProof entry.fields.nBits.toNat) % 2 ^ 256) }
    if entry.nStatus.haveData then worked.countEntry hash entry else worked

end LoadedIndex

def loadedHeight (mapBlockIndex : StdMap Uint256 LoadedEntry) (hash : Uint256) : Nat :=
  ((mapBlockIndex.lookup hash).map (·.nHeight)).getD 0

/-- `vSortedByHeight`: by height, then by the address of the entry. -/
def sortedByHeight (address : Uint256 → Nat) (mapBlockIndex : StdMap Uint256 LoadedEntry) :
    List Uint256 :=
  (mapBlockIndex.entries.map (·.1)).mergeSort fun first second =>
    decide (loadedHeight mapBlockIndex first < loadedHeight mapBlockIndex second ∨
      (loadedHeight mapBlockIndex first = loadedHeight mapBlockIndex second ∧
        address first ≤ address second))

/-- The rebuilding loop, with the addresses that the new entries have. -/
def rebuild (address : Uint256 → Nat) (mapBlockIndex : StdMap Uint256 LoadedEntry) : LoadedIndex :=
  (sortedByHeight address mapBlockIndex).foldl LoadedIndex.rebuildEntry
    { mapBlockIndex := mapBlockIndex }

/-- Every entry is written, and the node starts again. -/
def StoredIndex.restart (params : LoadParams) (address : Uint256 → Nat) (state : StoredIndex) :
    Option LoadedIndex :=
  (params.loadBlockIndexGuts (state.writeAll params)).map (rebuild address)

/-! ## What a restart has to keep -/

/-- The fields apart from the positions in the files. -/
def BlockFields.withoutPositions (fields : BlockFields) : BlockFields :=
  { fields with nFile := 0, nDataPos := 0, nUndoPos := 0 }

namespace StoredIndex

/-- The entry that was loaded agrees with the entry in memory; the positions
have to agree where the status says they exist. -/
structure SameEntry (state : StoredIndex) (pindex : BlockPtr) (entry : LoadedEntry) : Prop where
  pprev : entry.pprev = (state.index.tree.pprev pindex).map state.index.tree.phashBlock
  nHeight : entry.nHeight = state.index.tree.nHeight pindex
  nStatus : entry.nStatus = state.index.nStatus pindex
  nTx : entry.nTx = state.index.nTx pindex
  fields : entry.fields.withoutPositions = (state.fields pindex).withoutPositions
  nFile : (state.index.nStatus pindex).haveData = true ∨ (state.index.nStatus pindex).haveUndo = true →
    entry.fields.nFile = (state.fields pindex).nFile
  nDataPos : (state.index.nStatus pindex).haveData = true →
    entry.fields.nDataPos = (state.fields pindex).nDataPos
  nUndoPos : (state.index.nStatus pindex).haveUndo = true →
    entry.fields.nUndoPos = (state.fields pindex).nUndoPos

/-- No entry above this one is failed. -/
def Unspoiled (state : StoredIndex) (pindex : BlockPtr) : Prop :=
  ∀ elder, state.index.tree.Below pindex elder → elder ≠ pindex →
    (state.index.nStatus elder).failed = false

structure SameIndex (state : StoredIndex) (loaded : LoadedIndex) : Prop where
  hashes : ∀ hash, (loaded.mapBlockIndex.lookup hash).isSome =
    (state.index.tree.mapBlockIndex.lookup hash).isSome
  entry : ∀ {hash pindex}, state.index.tree.mapBlockIndex.lookup hash = some pindex →
    ∃ entry, loaded.mapBlockIndex.lookup hash = some entry ∧ state.SameEntry pindex entry ∧
      loaded.nChainWork hash = state.index.tree.nChainWork pindex ∧
        loaded.nChainTx hash = state.index.nChainTx pindex
  pending : ∀ hashPrev hash, (∀ pindex,
      state.index.tree.mapBlockIndex.lookup hash = some pindex → state.Unspoiled pindex) →
    ((hashPrev, hash) ∈ loaded.mapBlocksUnlinked ↔ ∃ parent pindex,
      state.index.tree.mapBlockIndex.lookup hash = some pindex ∧
        (some parent, pindex) ∈ state.index.mapBlocksUnlinked ∧
          state.index.tree.phashBlock parent = hashPrev)
  once : loaded.mapBlocksUnlinked.Nodup

/-- The indexes that survive a restart: no hash is zero, the early entries have
proof of work, and a count is only above zero under a parent whose count is. -/
structure Restartable (params : LoadParams) (state : StoredIndex) : Prop where
  named : state.index.tree.mapBlockIndex.lookup 0 = none
  worked : ∀ {pindex}, state.index.tree.Known pindex →
    (state.index.tree.nHeight pindex : Int) ≤ params.lastPowBlock →
      params.checkProofOfWork (state.index.tree.phashBlock pindex)
        (state.fields pindex).nBits.toNat = true
  counted : ∀ {pindex parent}, state.index.tree.Known pindex →
    state.index.nChainTx pindex ≠ 0 → state.index.tree.pprev pindex = some parent →
      state.index.nChainTx parent ≠ 0

end StoredIndex

/-! ## The records in the database -/

section Records

variable {params : LoadParams} {state : StoredIndex}

namespace StoredIndex

variable {pindex : BlockPtr}

theorem key_eq (traced : state.Traced params.hashOf) (known : state.index.tree.Known pindex) :
    (state.diskEntry pindex).getBlockHash params.hashOf = state.index.tree.phashBlock pindex :=
  traced.named known

variable {hash : Uint256}

/-- Every entry has its record, and there is no other. -/
theorem lookup_writeAll (traced : state.Traced params.hashOf) {bytes : List UInt8} :
    (state.writeAll params).lookup hash = some bytes ↔
      ∃ pindex, state.index.tree.mapBlockIndex.lookup hash = some pindex ∧
        bytes = writeDiskIndex params.clientVersion (state.diskEntry pindex) := by
  have known : ∀ pindex ∈ state.index.tree.entries, state.index.tree.Known pindex :=
    fun pindex inside => traced.linked.mem_entries.mp inside
  obtain ⟨here, elsewhere⟩ := lookup_insertEach
    (fun pindex => (state.diskEntry pindex).getBlockHash params.hashOf)
    (fun pindex => writeDiskIndex params.clientVersion (state.diskEntry pindex))
    state.index.tree.entries ∅ (by
      intro first inside second insideToo same
      have same : (state.diskEntry first).getBlockHash params.hashOf =
        (state.diskEntry second).getBlockHash params.hashOf := same
      rw [key_eq traced (known first inside), key_eq traced (known second insideToo)] at same
      have firstKnown := known first inside
      unfold BlockTree.Known at firstKnown
      rw [same, known second insideToo] at firstKnown
      cases firstKnown
      rfl)
  constructor
  · intro found
    by_cases written : ∃ pindex ∈ state.index.tree.entries,
        (state.diskEntry pindex).getBlockHash params.hashOf = hash
    · obtain ⟨pindex, inside, rfl⟩ := written
      refine ⟨pindex, ?_, Option.some.inj (found.symm.trans (here pindex inside))⟩
      rw [key_eq traced (known pindex inside)]
      exact known pindex inside
    · have absent := elsewhere hash fun pindex inside same => written ⟨pindex, inside, same⟩
      cases absent.symm.trans found
  · rintro ⟨pindex, found, rfl⟩
    have pindexKnown := traced.linked.known_of_lookup found
    have record := here pindex (traced.linked.mem_entries.mpr pindexKnown)
    rw [key_eq traced pindexKnown, traced.linked.keyed found] at record
    exact record

theorem mem_cursor (traced : state.Traced params.hashOf) {record : Uint256 × List UInt8} :
    record ∈ cursor (state.writeAll params) ↔
      ∃ pindex, state.index.tree.mapBlockIndex.lookup record.1 = some pindex ∧
        record.2 = writeDiskIndex params.clientVersion (state.diskEntry pindex) := by
  obtain ⟨hash, bytes⟩ := record
  rw [← lookup_writeAll traced]
  unfold cursor
  rw [mem_mergeSort, List.mem_map]
  constructor
  · rintro ⟨⟨key, value⟩, inside, same⟩
    cases same
    exact AList.mem_lookup_iff.mpr inside
  · intro found
    exact ⟨⟨hash, bytes⟩, AList.mem_lookup_iff.mp found, rfl⟩

/-! ## Loading the records -/

/-- The entry that the record of an entry becomes. -/
def loadedEntry (state : StoredIndex) (pindex : BlockPtr) : LoadedEntry :=
  (state.diskEntry pindex).stored.loaded

/-- What the loop demands of an entry. -/
structure Loads (params : LoadParams) (state : StoredIndex) (hash : Uint256) (pindex : BlockPtr) :
    Prop where
  named : hash ≠ 0
  worked : (state.index.tree.nHeight pindex : Int) ≤ params.lastPowBlock →
    params.checkProofOfWork hash (state.fields pindex).nBits.toNat = true

theorem loadEntry_writes (traced : state.Traced params.hashOf)
    (found : state.index.tree.mapBlockIndex.lookup hash = some pindex)
    (mapBlockIndex : StdMap Uint256 LoadedEntry) :
    params.loadEntry mapBlockIndex
        (hash, writeDiskIndex params.clientVersion (state.diskEntry pindex)) =
      if hash = 0 then none
      else if (state.index.tree.nHeight pindex : Int) ≤ params.lastPowBlock &&
          !params.checkProofOfWork hash (state.fields pindex).nBits.toNat then none
      else some ((insertBlockIndex (insertBlockIndex mapBlockIndex hash)
        (state.hashPrev pindex)).insert hash (state.loadedEntry pindex)) := by
  have bytes := reads_diskIndex params.clientVersion (state.diskEntry pindex) []
  rw [append_nil] at bytes
  have name : (state.diskEntry pindex).stored.getBlockHash params.hashOf = hash :=
    (traced.named (traced.linked.known_of_lookup found)).trans (traced.linked.keyed found)
  unfold LoadParams.loadEntry
  rw [bytes]
  dsimp only
  rw [name]
  rfl

/-- The map while the records are read. -/
structure Loading (state : StoredIndex) (done : List Uint256)
    (mapBlockIndex : StdMap Uint256 LoadedEntry) : Prop where
  known : ∀ {hash}, (mapBlockIndex.lookup hash).isSome = true →
    (state.index.tree.mapBlockIndex.lookup hash).isSome = true
  loaded : ∀ {hash pindex}, hash ∈ done →
    state.index.tree.mapBlockIndex.lookup hash = some pindex →
      mapBlockIndex.lookup hash = some (state.loadedEntry pindex)

variable {done : List Uint256} {mapBlockIndex : StdMap Uint256 LoadedEntry}

theorem Loading.insertBlockIndex (loading : state.Loading done mapBlockIndex)
    (inIndex : hash ≠ 0 → (state.index.tree.mapBlockIndex.lookup hash).isSome = true) :
    state.Loading done (insertBlockIndex mapBlockIndex hash) := by
  unfold CentNode.insertBlockIndex
  split
  case isTrue => exact loading
  case isFalse nonzero =>
    refine ⟨fun {other} present => ?_, fun {other pindex} member found => ?_⟩
    · rw [isSome_lookup_insertNew, Bool.or_eq_true, decide_eq_true_eq] at present
      rcases present with rfl | before
      · exact inIndex nonzero
      · exact loading.known before
    · have before := loading.loaded member found
      rw [lookup_insertNew, if_neg ?_, before]
      rintro ⟨rfl, absent⟩
      cases before.symm.trans absent

section

variable (traced : state.Traced params.hashOf)

include traced

theorem hashPrev_known
    (known : state.index.tree.Known pindex) (nonzero : state.hashPrev pindex ≠ 0) :
    (state.index.tree.mapBlockIndex.lookup (state.hashPrev pindex)).isSome = true := by
  unfold hashPrev at nonzero ⊢
  cases edge : state.index.tree.pprev pindex with
  | none =>
    rw [edge] at nonzero
    exact absurd rfl nonzero
  | some parent =>
    have parentKnown := traced.linked.ranked.parent_known known edge
    exact isSome_of_mem parentKnown

theorem Loading.loadEntry
    {next : StdMap Uint256 LoadedEntry} (loading : state.Loading done mapBlockIndex)
    (found : state.index.tree.mapBlockIndex.lookup hash = some pindex)
    (step : params.loadEntry mapBlockIndex
      (hash, writeDiskIndex params.clientVersion (state.diskEntry pindex)) = some next) :
    state.Loading (hash :: done) next ∧ state.Loads params hash pindex := by
  rw [loadEntry_writes traced found] at step
  split at step
  · cases step
  next nonzero =>
  split at step
  · cases step
  next accepted =>
  cases step
  have known := traced.linked.known_of_lookup found
  have inserted : state.Loading done (CentNode.insertBlockIndex
      (CentNode.insertBlockIndex mapBlockIndex hash) (state.hashPrev pindex)) :=
    (loading.insertBlockIndex fun _ => isSome_of_mem found).insertBlockIndex
      (hashPrev_known traced known)
  refine ⟨⟨fun {other} present => ?_, fun {other otherIndex} member otherFound => ?_⟩, nonzero,
    fun low => ?_⟩
  · rw [lookup_insert_ite] at present
    split at present
    · next same =>
        rw [same, found]
        rfl
    · exact inserted.known present
  · rw [lookup_insert_ite]
    split
    · next same =>
        rw [same, found] at otherFound
        cases otherFound
        rfl
    · next differ =>
        rcases mem_cons.mp member with same | before
        · exact absurd same differ
        · exact inserted.loaded before otherFound
  · rw [decide_eq_true low, Bool.true_and, Bool.not_eq_true', Bool.not_eq_false] at accepted
    exact accepted

/-- Reading all records gives an index exactly when every entry is accepted. -/
theorem Loading.foldlM
    (records : List (Uint256 × List UInt8)) (formed : ∀ record ∈ records, ∃ pindex,
      state.index.tree.mapBlockIndex.lookup record.1 = some pindex ∧
        record.2 = writeDiskIndex params.clientVersion (state.diskEntry pindex))
    (loading : state.Loading done mapBlockIndex) :
    (∀ next, records.foldlM params.loadEntry mapBlockIndex = some next →
      state.Loading (records.map (·.1) ++ done) next ∧ ∀ record ∈ records, ∀ pindex,
        state.index.tree.mapBlockIndex.lookup record.1 = some pindex →
          state.Loads params record.1 pindex) ∧
      ((∀ record ∈ records, ∀ pindex, state.index.tree.mapBlockIndex.lookup record.1 = some pindex →
        state.Loads params record.1 pindex) →
          ∃ next, records.foldlM params.loadEntry mapBlockIndex = some next) := by
  induction records generalizing done mapBlockIndex with
  | nil =>
    refine ⟨fun next ran => ?_, fun _ => ⟨mapBlockIndex, rfl⟩⟩
    cases ran
    exact ⟨loading, fun record inside => absurd inside not_mem_nil⟩
  | cons record rest ih =>
    obtain ⟨pindex, found, bytes⟩ := formed record mem_cons_self
    obtain ⟨hash, value⟩ := record
    dsimp only at found bytes
    subst bytes
    have later := fun record inside => formed record (mem_cons_of_mem _ inside)
    rw [foldlM_cons]
    cases step : params.loadEntry mapBlockIndex
        (hash, writeDiskIndex params.clientVersion (state.diskEntry pindex)) with
    | none =>
      refine ⟨fun next ran => (nomatch ran), fun accepted => ?_⟩
      obtain ⟨nonzero, worked⟩ := accepted _ mem_cons_self pindex found
      rw [loadEntry_writes traced found, if_neg nonzero, if_neg ?_] at step
      · cases step
      · rw [Bool.and_eq_true, decide_eq_true_eq, Bool.not_eq_true']
        rintro ⟨low, fails⟩
        cases (worked low).symm.trans fails
    | some middle =>
      obtain ⟨loadingNext, loads⟩ := loading.loadEntry traced found step
      obtain ⟨ran, runs⟩ := ih later loadingNext
      refine ⟨fun next rest_eq => ?_, fun accepted =>
        runs fun record inside => accepted record (mem_cons_of_mem _ inside)⟩
      obtain ⟨final, others⟩ := ran next rest_eq
      refine ⟨⟨final.known, fun {other otherIndex} member => final.loaded ?_⟩,
        fun record inside otherIndex otherFound => ?_⟩
      · rw [map_cons, cons_append] at member
        rcases mem_cons.mp member with same | elsewhere
        · exact mem_append_right _ (same ▸ mem_cons_self)
        · rcases mem_append.mp elsewhere with inRest | before
          · exact mem_append_left _ inRest
          · exact mem_append_right _ (mem_cons_of_mem _ before)
      · rcases mem_cons.mp inside with rfl | inRest
        · cases found.symm.trans otherFound
          exact loads
        · exact others record inRest otherIndex otherFound

end

theorem loading_empty : state.Loading [] ∅ := by
  constructor
  · exact fun present => nomatch present
  · exact fun member => nomatch member

/-- The map that is loaded, with an entry for each entry in memory. -/
structure Loaded (state : StoredIndex) (mapBlockIndex : StdMap Uint256 LoadedEntry) : Prop where
  known : ∀ {hash}, (mapBlockIndex.lookup hash).isSome = true →
    (state.index.tree.mapBlockIndex.lookup hash).isSome = true
  loaded : ∀ {hash pindex}, state.index.tree.mapBlockIndex.lookup hash = some pindex →
    mapBlockIndex.lookup hash = some (state.loadedEntry pindex)

theorem load_iff (traced : state.Traced params.hashOf) :
    (∃ mapBlockIndex, params.loadBlockIndexGuts (state.writeAll params) = some mapBlockIndex) ↔
      ∀ hash pindex, state.index.tree.mapBlockIndex.lookup hash = some pindex →
        state.Loads params hash pindex := by
  obtain ⟨ran, runs⟩ := Loading.foldlM traced (cursor (state.writeAll params))
    (fun record inside => (mem_cursor traced).mp inside) loading_empty
  constructor
  · rintro ⟨mapBlockIndex, loaded⟩ hash pindex found
    exact (ran mapBlockIndex loaded).2 (hash, _) ((mem_cursor traced).mpr ⟨pindex, found, rfl⟩)
      pindex found
  · exact fun accepted => runs fun record _ pindex => accepted record.1 pindex

theorem load_loaded (traced : state.Traced params.hashOf)
    (ran : params.loadBlockIndexGuts (state.writeAll params) = some mapBlockIndex) :
    state.Loaded mapBlockIndex := by
  obtain ⟨loading, _⟩ := (Loading.foldlM traced (cursor (state.writeAll params))
    (fun record inside => (mem_cursor traced).mp inside) loading_empty).1 mapBlockIndex ran
  refine ⟨loading.known, fun {hash pindex} found => loading.loaded ?_ found⟩
  have record : (hash, writeDiskIndex params.clientVersion (state.diskEntry pindex)) ∈
      cursor (state.writeAll params) := (mem_cursor traced).mpr ⟨pindex, found, rfl⟩
  exact mem_append_left _ (List.mem_map.mpr ⟨_, record, rfl⟩)

end StoredIndex

end Records

end CentNode
