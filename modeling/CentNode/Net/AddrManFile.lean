import CentNode.Library.Renumbering
import CentNode.Net.AddrManTables

/-!
# The file of the address manager

`CAddrMan::Serialize` and `CAddrMan::Unserialize`.  The new entries are written
first, then the tried ones, each kind in the order of `mapInfo`, and then for
each bucket of the table of new entries the numbers of the entries in it.
-/

namespace CentNode

open List AList Function Option

open Wire

/-! ## Integers -/

def writeInt (value : Int) : List UInt8 := writeWord 4 (BitVec.ofInt 32 value)

def readInt : Reader Int := do
  let (value : BitVec 32) ← readWord 4 32
  pure value.toInt

theorem reads_int {value : Int} (low : -2 ^ 31 ≤ value) (high : value < 2 ^ 31) :
    Reads readInt (writeInt value) value := by
  have wide : 2 ^ 32 ≤ 256 ^ 4 := by decide
  have read := (reads_word wide (BitVec.ofInt 32 value)).map BitVec.toInt
  rwa [BitVec.toInt_ofInt_eq_self (by decide) low high] at read

/-- `ADDRMAN_NEW_BUCKET_COUNT ^ (1 << 30)`. -/
def markedBucketCount : BitVec 32 := BitVec.ofNat 32 addrmanNewBucketCount ^^^ (1 <<< 30)

namespace CAddrMan

/-! ## Serialize -/

section Serialize

variable (nVersion : BitVec 32) (state : CAddrMan)

/-- `mapUnkIds`, `nIds` and what the loops over the entries have written. -/
structure Written where
  mapUnkIds : StdMap Int Int := ∅
  nIds : Int := 0
  s : List UInt8 := []

/-- One iteration of the loop that writes the new entries. -/
def writeNewEntry (written : Written) (entry : Sigma fun _ : Int => CAddrInfo) : Option Written :=
  let noted := { written with mapUnkIds := written.mapUnkIds.insert entry.1 written.nIds }
  if entry.2.nRefCount ≠ 0 then
    if written.nIds = state.nNew then none
    else some { noted with
      nIds := written.nIds + 1
      s := written.s ++ writeAddrInfo nVersion entry.2 }
  else some noted

/-- One iteration of the loop that writes the tried entries. -/
def writeTriedEntry (written : Written) (entry : Sigma fun _ : Int => CAddrInfo) : Option Written :=
  if entry.2.fInTried then
    if written.nIds = state.nTried then none
    else some { written with
      nIds := written.nIds + 1
      s := written.s ++ writeAddrInfo nVersion entry.2 }
  else some written

/-- The slots of a bucket that are in use. -/
def usedSlots (bucket : Fin addrmanNewBucketCount) : List NewSlot :=
  ((List.finRange addrmanBucketSize).map fun i => (bucket, i)).filter fun slot => state.vvNew slot ≠ -1

/-- The size of a bucket and the numbers of its entries; `operator[]` gives zero
for an id without a number. -/
def writeBucket (mapUnkIds : StdMap Int Int) (bucket : Fin addrmanNewBucketCount) : List UInt8 :=
  writeInt (state.usedSlots bucket).length ++ (state.usedSlots bucket).flatMap fun slot =>
    writeInt ((mapUnkIds.lookup (state.vvNew slot)).getD 0)

def serialize : Option (List UInt8) := do
  let news ← state.mapInfo.inOrder.foldlM (state.writeNewEntry nVersion) {}
  let trieds ← state.mapInfo.inOrder.foldlM (state.writeTriedEntry nVersion) {}
  some ([1] ++ ([32] ++ (writeUint256 state.nKey ++ (writeInt state.nNew ++
    (writeInt state.nTried ++ (writeWord 4 markedBucketCount ++ (news.s ++ (trieds.s ++
      (List.finRange addrmanNewBucketCount).flatMap (state.writeBucket news.mapUnkIds)))))))))

end Serialize

/-! ## Unserialize -/

/-- `Clear`: the key is drawn, and the maps stay as they are. -/
def clear (state : CAddrMan) (randHash : Uint256) : CAddrMan :=
  { state with
    vRandom := []
    nKey := randHash
    vvNew := fun _ => -1
    vvTried := fun _ => -1
    nIdCount := 0
    nTried := 0
    nNew := 0 }

variable (hashOf : List UInt8 → Uint256)

/-- The positions in the file fit the table. -/
def Usable (nVersion : UInt8) (nUBuckets : Int) : Prop :=
  nVersion = 1 ∧ nUBuckets = addrmanNewBucketCount

instance (nVersion : UInt8) (nUBuckets : Int) : Decidable (Usable nVersion nUBuckets) :=
  inferInstanceAs (Decidable (nVersion = 1 ∧ nUBuckets = addrmanNewBucketCount))

/-- What the loop over the new entries does with an entry it has read into
`mapInfo[n]`, where the fields in memory stay. -/
def loadNew (nVersion : UInt8) (nUBuckets : Int) (n : Nat) (state : CAddrMan) (read : CAddrInfo) :
    CAddrMan :=
  let old := state.infoAt n
  let info := { read with
    nRefCount := old.nRefCount
    fInTried := old.fInTried
    nRandomPos := state.vRandom.length }
  let entered := { state with
    mapInfo := state.mapInfo.insert n info
    mapAddr := state.mapAddr.insert info.toCNetAddr n
    vRandom := state.vRandom ++ [(n : Int)] }
  if ¬ Usable nVersion nUBuckets then
    let slot := info.newSlot hashOf state.nKey (info.getNewBucket hashOf state.nKey info.source)
    if state.vvNew slot = -1 then
      { entered.updateInfo n fun info => { info with nRefCount := info.nRefCount + 1 } with
        vvNew := Function.update state.vvNew slot n }
    else entered
  else entered

/-- What the loop over the tried entries does with an entry; the other component
is `nLost`. -/
def loadTried (state : CAddrMan) (nLost : Int) (read : CAddrInfo) : CAddrMan × Int :=
  let slot := read.triedSlot hashOf state.nKey
  if state.vvTried slot = -1 then
    let nId := state.nIdCount.toInt
    let info := { read with nRandomPos := state.vRandom.length, fInTried := true }
    ({ state with
        vRandom := state.vRandom ++ [nId]
        mapInfo := state.mapInfo.insert nId info
        mapAddr := state.mapAddr.insert info.toCNetAddr nId
        vvTried := Function.update state.vvTried slot nId
        nIdCount := state.nIdCount + 1 }, nLost)
  else (state, nLost + 1)

/-- A number in a bucket puts the entry back into its slot there, if it has one left. -/
def loadPosition (nVersion : UInt8) (nUBuckets : Int) (bucket : Nat) (state : CAddrMan) (nIndex : Int) :
    CAddrMan :=
  if 0 ≤ nIndex ∧ nIndex < state.nNew then
    let info := state.infoAt nIndex
    let slot := info.newSlot hashOf state.nKey (Fin.ofNat addrmanNewBucketCount bucket)
    if Usable nVersion nUBuckets ∧ state.vvNew slot = -1 ∧
        info.nRefCount < addrmanNewBucketsPerAddress then
      { state.updateInfo nIndex fun info => { info with nRefCount := info.nRefCount + 1 } with
        vvNew := Function.update state.vvNew slot nIndex }
    else state
  else state

/-- One bucket of the table of new entries. -/
def loadBucket (nVersion : UInt8) (nUBuckets : Int) (bucket : Nat) (state : CAddrMan) :
    Reader CAddrMan := do
  let nSize ← readInt
  loop (fun _ state => do
    let nIndex ← readInt
    pure (loadPosition hashOf nVersion nUBuckets bucket state nIndex)) 0 nSize.toNat state

/-- The new entries without references are deleted. -/
def prune (state : CAddrMan) : Option CAddrMan :=
  state.mapInfo.inOrder.foldlM (fun state entry =>
    let info := state.infoAt entry.1
    if info.fInTried = false ∧ info.nRefCount = 0 then state.delete entry.1 else some state) state

/-- `Unserialize`; a failed assertion of `Delete` fails like the stream. -/
def unserialize (randHash : Uint256) (old : CAddrMan) : Reader CAddrMan := do
  let nVersion ← byte
  let nKeySize ← byte
  if nKeySize ≠ 32 then fail
  else do
    let nKey ← readUint256
    let nNew ← readInt
    let nTried ← readInt
    let (word : BitVec 32) ← readWord 4 32
    let nUBuckets := (if nVersion ≠ 0 then word ^^^ (1 <<< 30) else word).toInt
    let state := { old.clear randHash with nKey := nKey, nNew := nNew, nTried := nTried }
    let state ← loop (fun n state => do
      let read ← readAddrInfo
      pure (loadNew hashOf nVersion nUBuckets n state read)) 0 nNew.toNat state
    let state := { state with nIdCount := BitVec.ofInt 32 nNew }
    let (state, nLost) ← loop (fun _ (state, nLost) => do
      let read ← readAddrInfo
      pure (loadTried hashOf state nLost read)) 0 nTried.toNat (state, 0)
    let state := { state with nTried := state.nTried - nLost }
    let state ← loop (loadBucket hashOf nVersion nUBuckets) 0 nUBuckets.toNat state
    ofOption state.prune

end CAddrMan

/-! While the file is read, the entries that were written get new ids, one after
the other: `Loaded` says how far the manager that is filled has come.  A loop of
`Unserialize` adds to the entries or to the slots that it has done. -/

open SlotTable Renumbering

/-- An element of `mapInfo`. -/
abbrev AddrEntry : Type := Sigma fun _ : Int => CAddrInfo

/-- An entry that comes from the file, with its fields in memory. -/
def CAddrInfo.reloaded (info : CAddrInfo) (nRefCount nRandomPos : Int) : CAddrInfo :=
  { info.stored with nRefCount := nRefCount, fInTried := info.fInTried, nRandomPos := nRandomPos }

namespace CAddrMan

variable {hashOf : List UInt8 → Uint256} {state now next : CAddrMan} {loaded : List AddrEntry}
  {done : List NewSlot} {n : Int} {info : CAddrInfo}

/-- The entries of `state` that are loaded have their positions as ids, and the
slots of `state` that are done hold them. -/
structure Loaded (state now : CAddrMan) (loaded : List AddrEntry) (done : List NewSlot) : Prop where
  nKey : now.nKey = state.nKey
  vRandom : now.vRandom = (List.range loaded.length).map fun place : Nat => (place : Int)
  info : ∀ {place : Nat} {n : Int} {info : CAddrInfo}, loaded[place]? = some ⟨n, info⟩ →
    now.mapInfo.lookup (place : Int) = some (info.reloaded (holders now.vvNew (place : Int)) place)
  only : ∀ {m}, (now.mapInfo.lookup m).isSome → ∃ place : Nat, place < loaded.length ∧ m = place
  mapAddr : ∀ {place : Nat} {n : Int} {info : CAddrInfo}, loaded[place]? = some ⟨n, info⟩ →
    now.mapAddr.lookup info.toCNetAddr = some (place : Int)
  vvTried : ∀ slot, now.vvTried slot = numberOf (loaded.map Sigma.fst) (state.vvTried slot)
  vvNew : ∀ slot, now.vvNew slot =
    if slot ∈ done then numberOf (loaded.map Sigma.fst) (state.vvNew slot) else -1

theorem Loaded.unplaced (at_start : Loaded state now loaded []) (slot : NewSlot) :
    now.vvNew slot = -1 :=
  at_start.vvNew slot

theorem Loaded.length (stage : Loaded state now loaded done) :
    now.vRandom.length = loaded.length := by
  rw [stage.vRandom, length_map, length_range]

theorem Loaded.free (stage : Loaded state now loaded done) :
    now.mapInfo.lookup (loaded.length : Int) = none := by
  cases found : now.mapInfo.lookup (loaded.length : Int) with
  | none => rfl
  | some info =>
    obtain ⟨place, short, same⟩ := stage.only (isSome_of_mem found)
    rw [Int.natCast_inj.mp same] at short
    exact absurd short (Nat.lt_irrefl place)

theorem loaded_nothing (state : CAddrMan) (made randHash : Uint256) : Loaded state
    { clear { nKey := made } randHash with
      nKey := state.nKey
      nNew := state.nNew
      nTried := state.nTried } [] [] := by
  refine ⟨rfl, rfl, fun here => ?_, fun found => ?_, fun here => ?_, fun slot => ?_, fun slot => rfl⟩
  · cases here
  · cases found
  · cases here
  · exact (numberOf_eq_neg_one.mpr not_mem_nil).symm

/-- An entry of the file is entered at the end. -/
theorem Loaded.enter (stage : Loaded state now loaded [])
    (unknown : ∀ entry ∈ loaded, entry.2.toCNetAddr ≠ info.toCNetAddr)
    (nKey : next.nKey = now.nKey) (vRandom : next.vRandom = now.vRandom ++ [(loaded.length : Int)])
    (mapInfo : next.mapInfo =
      now.mapInfo.insert (loaded.length : Int) (info.reloaded 0 loaded.length))
    (mapAddr : next.mapAddr = now.mapAddr.insert info.toCNetAddr (loaded.length : Int))
    (vvTried : ∀ slot, next.vvTried slot =
      numberOf (loaded.map Sigma.fst ++ [n]) (state.vvTried slot))
    (vvNew : next.vvNew = now.vvNew) : Loaded state next (loaded ++ [⟨n, info⟩]) [] := by
  have places : ∀ {place : Nat} {entry : AddrEntry}, (loaded ++ [⟨n, info⟩])[place]? = some entry →
      place < loaded.length ∧ loaded[place]? = some entry ∨ place = loaded.length ∧ ⟨n, info⟩ = entry := by
    intro place entry here
    rcases Nat.lt_trichotomy place loaded.length with short | same | long
    · rw [getElem?_append_left short] at here
      exact Or.inl ⟨short, here⟩
    · subst same
      rw [getElem?_concat_length] at here
      exact Or.inr ⟨rfl, Option.some.inj here⟩
    · have short := (List.getElem?_eq_some_iff.mp here).1
      rw [length_append, length_singleton] at short
      omega
  constructor
  case nKey => exact nKey.trans stage.nKey
  case vRandom =>
    rw [vRandom, stage.vRandom, length_append, length_singleton, range_succ,
      map_append]
    rfl
  case info =>
    intro place m found here
    rw [mapInfo, vvNew]
    rcases places here with ⟨short, before⟩ | ⟨rfl, same⟩
    · rw [lookup_insert_ne (by omega)]
      exact stage.info before
    · cases same
      have nowhere : holders now.vvNew (loaded.length : Int) = 0 :=
        holders_eq_zero.mpr fun slot => by
          rw [stage.unplaced]
          omega
      rw [lookup_insert, nowhere]
      rfl
  case only =>
    intro m found
    rw [length_append, length_singleton]
    rw [mapInfo, StdMap.lookup_insert_ite] at found
    split at found
    case isTrue same => exact ⟨loaded.length, Nat.lt_succ_self _, same⟩
    case isFalse =>
      obtain ⟨place, short, same⟩ := stage.only found
      exact ⟨place, Nat.lt_succ_of_lt short, same⟩
  case mapAddr =>
    intro place m found here
    rw [mapAddr]
    rcases places here with ⟨_, before⟩ | ⟨rfl, same⟩
    · rw [lookup_insert_ne (unknown _ (mem_of_getElem? before))]
      exact stage.mapAddr before
    · cases same
      exact lookup_insert _
  case vvTried =>
    intro slot
    rw [map_append]
    exact vvTried slot
  case vvNew =>
    intro slot
    rw [vvNew]
    exact stage.vvNew slot

/-- A slot of the table of new entries is filled again. -/
theorem Loaded.place (stage : Loaded state now loaded done) (nodup : (loaded.map Sigma.fst).Nodup)
    {slot : NewSlot} (fresh : slot ∉ done) {place : Nat}
    (here : (loaded.map Sigma.fst)[place]? = some (state.vvNew slot)) :
    Loaded state { now.updateInfo place fun info => { info with nRefCount := info.nRefCount + 1 } with
      vvNew := Function.update now.vvNew slot place } loaded (done ++ [slot]) := by
  have empty : now.vvNew slot = -1 := (stage.vvNew slot).trans (if_neg fresh)
  constructor
  case nKey => exact stage.nKey
  case vRandom => exact stage.vRandom
  case info =>
    intro other m info there
    dsimp only
    have counted := holders_update now.vvNew slot (place : Int) (other : Int)
    rw [empty, if_neg (by omega), Nat.add_zero] at counted
    rw [lookup_updateInfo, counted]
    by_cases same : (other : Int) = place
    · rw [if_pos same, if_pos same.symm, ← same, stage.info there, Int.natCast_add]
      rfl
    · rw [if_neg same, if_neg (Ne.symm same), Nat.add_zero, stage.info there]
  case only =>
    intro m found
    dsimp only at found
    rw [lookup_updateInfo] at found
    split at found
    case isTrue same =>
      rw [isSome_map] at found
      exact stage.only (same ▸ found)
    case isFalse => exact stage.only found
  case mapAddr => exact stage.mapAddr
  case vvTried => exact stage.vvTried
  case vvNew =>
    intro other
    dsimp only
    by_cases same : other = slot
    · rw [same, update_self, if_pos (mem_append_right done (mem_singleton_self slot))]
      exact ((numberOf_eq nodup).mpr here).symm
    · have member : other ∈ done ++ [slot] ↔ other ∈ done := by
        rw [mem_append, mem_singleton]
        exact or_iff_left same
      rw [update_of_ne same, stage.vvNew other]
      exact if_congr member.symm rfl rfl

end CAddrMan

end CentNode
