import CentNode.Net.AddrManFile
import CentNode.Net.AddrManRuns

/-!
# The address manager after its file is read

What `Serialize` writes for a manager that passes `Check_` is read back by
`Unserialize` without a loss: the ids are new, and everything else that the
file keeps is the same.
-/

namespace CentNode

open List Option StdMap AList Function

open Wire SlotTable Renumbering

namespace CAddrMan

variable {hashOf : List UInt8 → Uint256} {state now next : CAddrMan} {n : Int} {info : CAddrInfo}

/-! ## The order in the file -/

section Order

variable (state)

/-- The new entries in the order in which they are written. -/
def news : List AddrEntry := state.mapInfo.inOrder.filter fun entry => !entry.2.fInTried

def trieds : List AddrEntry := state.mapInfo.inOrder.filter fun entry => entry.2.fInTried

/-- The entries in the order in which they are written. -/
def fileOrder : List AddrEntry := state.news ++ state.trieds

/-- The ids in the order in which the entries are written. -/
def fileIds : List Int := state.fileOrder.map Sigma.fst

end Order

theorem mem_news : (⟨n, info⟩ : AddrEntry) ∈ state.news ↔
    state.mapInfo.lookup n = some info ∧ info.fInTried = false := by
  unfold news
  rw [mem_filter, mem_inOrder, Bool.not_eq_true']

theorem mem_trieds : (⟨n, info⟩ : AddrEntry) ∈ state.trieds ↔
    state.mapInfo.lookup n = some info ∧ info.fInTried = true := by
  unfold trieds
  rw [mem_filter, mem_inOrder]

theorem fileOrder_perm (state : CAddrMan) : state.fileOrder.Perm state.mapInfo.entries := by
  have halves := filter_append_perm (fun entry : AddrEntry => !entry.2.fInTried)
    state.mapInfo.inOrder
  simp only [Bool.not_not] at halves
  exact halves.trans (inOrder_perm state.mapInfo)

theorem mem_fileOrder : (⟨n, info⟩ : AddrEntry) ∈ state.fileOrder ↔
    state.mapInfo.lookup n = some info :=
  (fileOrder_perm state).mem_iff.trans mem_lookup_iff.symm

theorem nodup_fileIds (state : CAddrMan) : state.fileIds.Nodup :=
  ((fileOrder_perm state).map Sigma.fst).nodup_iff.mpr state.mapInfo.nodupKeys

theorem fileIds_get {place : Nat} : state.fileIds[place]? = some n ↔
    ∃ info, state.fileOrder[place]? = some ⟨n, info⟩ := by
  unfold fileIds
  rw [getElem?_map, map_eq_some_iff]
  constructor
  · rintro ⟨⟨_, info⟩, here, rfl⟩
    exact ⟨info, here⟩
  · rintro ⟨info, here⟩
    exact ⟨_, here, rfl⟩

theorem mem_fileIds : n ∈ state.fileIds ↔ ∃ info, state.mapInfo.lookup n = some info := by
  unfold fileIds
  rw [List.mem_map]
  constructor
  · rintro ⟨⟨_, info⟩, inside, rfl⟩
    exact ⟨info, mem_fileOrder.mp inside⟩
  · rintro ⟨info, found⟩
    exact ⟨_, mem_fileOrder.mpr found, rfl⟩

namespace Consistent

variable (consistent : state.Consistent hashOf)
include consistent

theorem length_news : (state.news.length : Int) = state.nNew := by
  rw [← consistent.nNew]
  unfold news newCount
  rw [← countP_eq_length_filter, (inOrder_perm state.mapInfo).countP_eq]

theorem length_trieds : (state.trieds.length : Int) = state.nTried := by
  rw [← consistent.nTried]
  unfold trieds triedCount
  rw [← countP_eq_length_filter, (inOrder_perm state.mapInfo).countP_eq]

theorem held_new (found : state.mapInfo.lookup n = some info) (untried : info.fInTried = false) :
    ∃ slot, state.vvNew slot = n := by
  have counted := (consistent.newHeld found untried).2
  have referenced := ((consistent.entry found).new untried).1
  exact holders_pos.mp (by omega)

theorem news_le : state.news.length ≤ addrmanNewBucketCount * addrmanBucketSize := by
  have nodup : (state.news.map Sigma.fst).Nodup :=
    List.Nodup.sublist ((sublist_append_left _ _).map Sigma.fst) (nodup_fileIds state)
  have bound := length_le_card nodup fun n member => by
    obtain ⟨⟨_, info⟩, inside, rfl⟩ := List.mem_map.mp member
    exact consistent.held_new (mem_news.mp inside).1 (mem_news.mp inside).2
  rwa [length_map, Fintype.card_prod, Fintype.card_fin, Fintype.card_fin] at bound

theorem trieds_le : state.trieds.length ≤ addrmanTriedBucketCount * addrmanBucketSize := by
  have nodup : (state.trieds.map Sigma.fst).Nodup :=
    List.Nodup.sublist ((sublist_append_right _ _).map Sigma.fst) (nodup_fileIds state)
  have bound := length_le_card nodup fun n member => by
    obtain ⟨⟨_, info⟩, inside, rfl⟩ := List.mem_map.mp member
    exact ⟨_, (consistent.triedHeld (mem_trieds.mp inside).1 (mem_trieds.mp inside).2).2⟩
  rwa [length_map, Fintype.card_prod, Fintype.card_fin, Fintype.card_fin] at bound

theorem address_injective {other : Int} {infoOther : CAddrInfo}
    (found : state.mapInfo.lookup n = some info)
    (foundOther : state.mapInfo.lookup other = some infoOther)
    (same : infoOther.toCNetAddr = info.toCNetAddr) : other = n := by
  rw [← (consistent.entry found).mapAddr, ← (consistent.entry foundOther).mapAddr, same]

section

variable (found : state.mapInfo.lookup n = some info)

include found

theorem nameable : n ≠ -1 := by
  cases flag : info.fInTried with
  | true => exact (consistent.triedHeld found flag).1
  | false => exact (consistent.newHeld found flag).1

theorem vvTried_iff (slot : TriedSlot) :
    state.vvTried slot = n ↔ info.fInTried = true ∧ info.triedSlot hashOf state.nKey = slot := by
  constructor
  · intro here
    obtain ⟨_, foundHere, tried, place⟩ :=
      consistent.triedSlot fun empty => consistent.nameable found (here.symm.trans empty)
    rw [here] at foundHere
    cases found.symm.trans foundHere
    exact ⟨tried, place⟩
  · rintro ⟨tried, rfl⟩
    exact (consistent.triedHeld found tried).2

/-- `nRefCount` is the number of slots, for tried entries too. -/
theorem holders_eq :
    (holders state.vvNew n : Int) = info.nRefCount := by
  cases flag : info.fInTried with
  | false => exact (consistent.newHeld found flag).2
  | true =>
    have nowhere : holders state.vvNew n = 0 := holders_eq_zero.mpr fun slot here => by
      obtain ⟨_, foundHere, untried, _⟩ :=
        consistent.newSlot fun empty => consistent.nameable found (here.symm.trans empty)
      rw [here] at foundHere
      cases found.symm.trans foundHere
      cases flag.symm.trans untried
    rw [nowhere, ((consistent.entry found).tried flag).2]
    rfl

end

end Consistent

/-! ## What is written -/

section Writing

/-- The entries that the first loop writes. -/
def referenced (entry : AddrEntry) : Bool := entry.2.nRefCount ≠ 0

/-- The entries that the second loop writes. -/
def tried (entry : AddrEntry) : Bool := entry.2.fInTried

variable {nVersion : BitVec 32} {entries : List AddrEntry} {written : Written}

/-- The new entries are numbered in the order in which they are written. -/
theorem foldlM_writeNewEntry (nodup : (entries.map Sigma.fst).Nodup)
    (room : written.nIds + (entries.filter referenced).length ≤ state.nNew) :
    ∃ result, entries.foldlM (state.writeNewEntry nVersion) written = some result ∧
      result.s = written.s ++ (entries.filter referenced).flatMap
        (fun entry => writeAddrInfo nVersion entry.2) ∧
      (∀ n ∉ entries.map Sigma.fst, result.mapUnkIds.lookup n = written.mapUnkIds.lookup n) ∧
      ∀ {place : Nat} {n : Int} {info : CAddrInfo},
        (entries.filter referenced)[place]? = some ⟨n, info⟩ →
          result.mapUnkIds.lookup n = some (written.nIds + place) := by
  induction entries generalizing written with
  | nil => exact ⟨written, rfl, (append_nil _).symm, fun _ _ => rfl, fun here => nomatch here⟩
  | cons entry rest ih =>
    obtain ⟨fresh, nodup⟩ := nodup_cons.mp nodup
    have others : ∀ {result : Written} {mapUnkIds : StdMap Int Int},
        (∀ n ∉ rest.map Sigma.fst, result.mapUnkIds.lookup n =
          (mapUnkIds.insert entry.1 written.nIds).lookup n) →
        ∀ n ∉ (entry :: rest).map Sigma.fst, result.mapUnkIds.lookup n = mapUnkIds.lookup n := by
      intro result mapUnkIds kept n outside
      obtain ⟨differ, outside⟩ := not_or.mp (mem_cons.not.mp outside)
      rw [kept n outside, lookup_insert_ne differ]
    rw [foldlM_cons]
    unfold writeNewEntry
    dsimp only
    by_cases counted : entry.2.nRefCount ≠ 0
    · have kind : referenced entry = true := decide_eq_true counted
      rw [filter_cons_of_pos kind, length_cons] at room
      rw [if_pos counted, if_neg (by omega), bind_eq_bind, bind_some,
        filter_cons_of_pos kind]
      obtain ⟨result, ran, bytes, kept, numbered⟩ := @ih { written with
        mapUnkIds := written.mapUnkIds.insert entry.1 written.nIds
        nIds := written.nIds + 1
        s := written.s ++ writeAddrInfo nVersion entry.2 } nodup (by dsimp only; omega)
      refine ⟨result, ran, ?_, others kept, fun {place n info} here => ?_⟩
      · rw [bytes, flatMap_cons, append_assoc]
      · cases place with
        | zero =>
          cases here
          rw [kept _ fresh, lookup_insert]
          exact congrArg some (Int.add_zero _).symm
        | succ place =>
          rw [numbered here]
          exact congrArg some (by dsimp only; omega)
    · have kind : ¬ referenced entry = true := fun kind => counted (of_decide_eq_true kind)
      rw [filter_cons_of_neg kind] at room ⊢
      rw [if_neg counted, bind_eq_bind, bind_some]
      obtain ⟨result, ran, bytes, kept, numbered⟩ := @ih { written with
        mapUnkIds := written.mapUnkIds.insert entry.1 written.nIds } nodup room
      exact ⟨result, ran, bytes, others kept, numbered⟩

theorem foldlM_writeTriedEntry
    (room : written.nIds + (entries.filter tried).length ≤ state.nTried) :
    ∃ result, entries.foldlM (state.writeTriedEntry nVersion) written = some result ∧
      result.s = written.s ++ (entries.filter tried).flatMap
        fun entry => writeAddrInfo nVersion entry.2 := by
  induction entries generalizing written with
  | nil => exact ⟨written, rfl, (append_nil _).symm⟩
  | cons entry rest ih =>
    rw [foldlM_cons]
    unfold writeTriedEntry
    cases flag : entry.2.fInTried with
    | true =>
      have kind : tried entry = true := flag
      rw [filter_cons_of_pos kind, length_cons] at room
      rw [if_pos rfl, if_neg (by omega), bind_eq_bind, bind_some,
        filter_cons_of_pos kind]
      obtain ⟨result, ran, bytes⟩ := @ih { written with
        nIds := written.nIds + 1
        s := written.s ++ writeAddrInfo nVersion entry.2 } (by dsimp only; omega)
      exact ⟨result, ran, by rw [bytes, flatMap_cons, append_assoc]⟩
    | false =>
      have kind : ¬ tried entry = true := fun kind => Bool.false_ne_true (flag.symm.trans kind)
      rw [filter_cons_of_neg kind] at room ⊢
      rw [if_neg Bool.false_ne_true, bind_eq_bind, bind_some]
      exact ih room

/-- What is written of a manager that passes its check. -/
theorem Consistent.serialize (consistent : state.Consistent hashOf) (nVersion : BitVec 32) :
    ∃ mapUnkIds : StdMap Int Int, state.serialize nVersion =
      some ([1] ++ ([32] ++ (writeUint256 state.nKey ++ (writeInt state.nNew ++
        (writeInt state.nTried ++ (writeWord 4 markedBucketCount ++
          (state.news.flatMap (fun entry => writeAddrInfo nVersion entry.2) ++
            (state.trieds.flatMap (fun entry => writeAddrInfo nVersion entry.2) ++
              (List.finRange addrmanNewBucketCount).flatMap (state.writeBucket mapUnkIds))))))))) ∧
      ∀ {place : Nat} {n : Int} {info : CAddrInfo}, state.news[place]? = some ⟨n, info⟩ →
        mapUnkIds.lookup n = some (place : Int) := by
  have news_eq : (state.mapInfo.inOrder.filter referenced) = state.news := by
    refine filter_congr fun entry inside => ?_
    have found := mem_inOrder.mp inside
    cases flag : entry.2.fInTried with
    | true => exact decide_eq_false (not_not.mpr ((consistent.entry found).tried flag).2)
    | false => exact decide_eq_true (by have := ((consistent.entry found).new flag).1; omega)
  have newRoom := consistent.length_news
  have triedRoom : ((state.mapInfo.inOrder.filter tried).length : Int) = state.nTried :=
    consistent.length_trieds
  obtain ⟨news, ranNew, bytesNew, _, numbered⟩ := @foldlM_writeNewEntry state nVersion
    state.mapInfo.inOrder {} (nodup_inOrder _) (by rw [news_eq]; dsimp only; omega)
  obtain ⟨trieds, ranTried, bytesTried⟩ := @foldlM_writeTriedEntry state nVersion
    state.mapInfo.inOrder {} (by dsimp only; omega)
  refine ⟨news.mapUnkIds, ?_, fun here => ?_⟩
  · unfold CAddrMan.serialize
    rw [ranNew, ranTried, bind_eq_bind, bind_some, bind_some, bytesNew, bytesTried, news_eq]
    rfl
  · rw [news_eq] at numbered
    rw [numbered here]
    exact congrArg some (Int.zero_add _)

end Writing

/-! ## What the loops load -/

section Loading

variable {before after : List AddrEntry} (nVersion : BitVec 32)

theorem Consistent.unknown (consistent : state.Consistent hashOf)
    (split : state.fileOrder = before ++ ⟨n, info⟩ :: after) :
    n ∉ before.map Sigma.fst ∧ ∀ entry ∈ before, entry.2.toCNetAddr ≠ info.toCNetAddr := by
  have nodup := nodup_fileIds state
  unfold fileIds at nodup
  rw [split, map_append, map_cons] at nodup
  have absent : n ∉ before.map Sigma.fst := fun inside =>
    (nodup_append.mp nodup).2.2 n inside n mem_cons_self rfl
  have found : ∀ entry ∈ before ++ ⟨n, info⟩ :: after, state.mapInfo.lookup entry.1 = some entry.2 :=
    fun entry inside => mem_fileOrder.mp (split ▸ inside)
  refine ⟨absent, fun entry inside same => absent ?_⟩
  have here := found _ (mem_append_right before mem_cons_self)
  have there := found entry (mem_append_left _ inside)
  have member : entry.1 ∈ before.map Sigma.fst := List.mem_map_of_mem inside
  rwa [consistent.address_injective here there same] at member

variable {nUBuckets : Int}

/-- The loop over the new entries. -/
theorem Consistent.load_news (consistent : state.Consistent hashOf) (usable : Usable 1 nUBuckets)
    (stage : Loaded state now [] []) (nNew : now.nNew = state.nNew)
    (nTried : now.nTried = state.nTried) : ∃ next,
      Reads (loop (fun n state => do
        let read ← readAddrInfo
        pure (loadNew hashOf 1 nUBuckets n state read)) 0 state.news.length now)
          (state.news.flatMap fun entry => writeAddrInfo nVersion entry.2) next ∧
        Loaded state next state.news [] ∧ next.nNew = state.nNew ∧ next.nTried = state.nTried := by
  refine @reads_loop _ _ _ _ (fun before now => Loaded state now before [] ∧
    now.nNew = state.nNew ∧ now.nTried = state.nTried) _ _ _ ?_ ⟨stage, nNew, nTried⟩
  rintro before ⟨n, info⟩ after now split ⟨stage, nNew, nTried⟩
  have inside : (⟨n, info⟩ : AddrEntry) ∈ state.news :=
    split ▸ mem_append_right before mem_cons_self
  obtain ⟨found, untried⟩ := mem_news.mp inside
  have order : state.fileOrder = before ++ ⟨n, info⟩ :: (after ++ state.trieds) := by
    unfold fileOrder
    rw [split, append_assoc, cons_append]
  obtain ⟨absent, unknown⟩ := consistent.unknown order
  refine ⟨_, (reads_addrInfo nVersion info).map fun read =>
    loadNew hashOf 1 nUBuckets (0 + before.length) now read, ?_⟩
  unfold loadNew
  rw [Nat.zero_add]
  have fresh : now.infoAt (before.length : Int) = CAddrInfo.init := by
    unfold infoAt
    rw [stage.free]
    rfl
  dsimp only
  rw [if_neg (not_not.mpr usable), fresh]
  refine ⟨stage.enter unknown rfl rfl ?_ rfl (fun slot => ?_) rfl, nNew, nTried⟩
  · dsimp only
    unfold CAddrInfo.reloaded
    rw [stage.length, untried]
    rfl
  · have elsewhere : state.vvTried slot ≠ n := fun here =>
      Bool.false_ne_true (untried.symm.trans ((consistent.vvTried_iff found slot).mp here).1)
    rw [numberOf_append absent, if_neg elsewhere]
    exact stage.vvTried slot

theorem toInt_ofInt_length {count : Nat}
    (few : count ≤ addrmanNewBucketCount * addrmanBucketSize +
      addrmanTriedBucketCount * addrmanBucketSize) : (BitVec.ofInt 32 (count : Int)).toInt = count := by
  have bound : addrmanNewBucketCount * addrmanBucketSize +
    addrmanTriedBucketCount * addrmanBucketSize < 2 ^ 31 := by decide
  exact BitVec.toInt_ofInt_eq_self (by decide) (by omega) (by omega)

/-- The loop over the tried entries. -/
theorem Consistent.load_trieds (consistent : state.Consistent hashOf)
    (stage : Loaded state now state.news []) (nNew : now.nNew = state.nNew)
    (nTried : now.nTried = state.nTried)
    (nIdCount : now.nIdCount = BitVec.ofInt 32 (state.news.length : Int)) : ∃ next,
      Reads (loop (fun _ (state, nLost) => do
        let read ← readAddrInfo
        pure (loadTried hashOf state nLost read)) 0 state.trieds.length (now, 0))
          (state.trieds.flatMap fun entry => writeAddrInfo nVersion entry.2) (next, (0 : Int)) ∧
        Loaded state next state.fileOrder [] ∧ next.nNew = state.nNew ∧ next.nTried = state.nTried := by
  have run := @reads_loop AddrEntry (CAddrMan × Int) (fun _ (now, nLost) => do
    let read ← readAddrInfo
    pure (loadTried hashOf now nLost read)) (fun entry => writeAddrInfo nVersion entry.2)
    (fun before step => Loaded state step.1 (state.news ++ before) [] ∧ step.1.nNew = state.nNew ∧
      step.1.nTried = state.nTried ∧
        step.1.nIdCount = BitVec.ofInt 32 ((state.news ++ before).length : Int) ∧ step.2 = 0)
    state.trieds 0 (now, 0) ?_ ⟨(append_nil state.news).symm ▸ stage, nNew, nTried,
      (append_nil state.news).symm ▸ nIdCount, rfl⟩
  · obtain ⟨⟨next, _⟩, reads, stage, nNew, nTried, _, rfl⟩ := run
    exact ⟨next, reads, stage, nNew, nTried⟩
  rintro before ⟨n, info⟩ after ⟨now, _⟩ split ⟨stage, nNew, nTried, nIdCount, rfl⟩
  dsimp only at stage nNew nTried nIdCount
  have inside : (⟨n, info⟩ : AddrEntry) ∈ state.trieds :=
    split ▸ mem_append_right before mem_cons_self
  obtain ⟨found, flag⟩ := mem_trieds.mp inside
  have order : state.fileOrder = (state.news ++ before) ++ ⟨n, info⟩ :: after := by
    unfold fileOrder
    rw [split, append_assoc]
  obtain ⟨absent, unknown⟩ := consistent.unknown order
  have few : (state.news ++ before).length ≤ addrmanNewBucketCount * addrmanBucketSize +
      addrmanTriedBucketCount * addrmanBucketSize := by
    have news := consistent.news_le
    have trieds := consistent.trieds_le
    rw [split, length_append] at trieds
    rw [length_append]
    omega
  have nId := toInt_ofInt_length few
  have slot : info.stored.triedSlot hashOf now.nKey = info.triedSlot hashOf state.nKey := by
    rw [stage.nKey]
    rfl
  have held := (consistent.vvTried_iff found _).mpr ⟨flag, rfl⟩
  have empty : now.vvTried (info.triedSlot hashOf state.nKey) = -1 := by
    rw [stage.vvTried, held]
    exact numberOf_eq_neg_one.mpr absent
  refine ⟨_, (reads_addrInfo nVersion info).map fun read => loadTried hashOf now 0 read, ?_⟩
  unfold loadTried
  dsimp only
  rw [slot, if_pos empty, nIdCount, nId]
  dsimp only
  rw [← append_assoc]
  refine ⟨stage.enter unknown rfl rfl ?_ rfl (fun other => ?_) rfl, nNew, nTried, ?_, rfl⟩
  · dsimp only
    unfold CAddrInfo.reloaded
    rw [stage.length, flag]
    rfl
  · dsimp only
    rw [numberOf_append absent]
    by_cases same : other = info.triedSlot hashOf state.nKey
    · rw [same, held, if_pos rfl, update_self, length_map]
    · have elsewhere : state.vvTried other ≠ n := fun here =>
        same ((consistent.vvTried_iff found other).mp here).2.symm
      rw [if_neg elsewhere, update_of_ne same]
      exact stage.vvTried other
  · have longer : (state.news ++ before ++ [(⟨n, info⟩ : AddrEntry)]).length =
      (state.news ++ before).length + 1 := length_append
    rw [longer, Int.natCast_add, BitVec.ofInt_add]
    rfl

theorem flatMap_usedSlots (state : CAddrMan) :
    (List.finRange addrmanNewBucketCount).flatMap state.usedSlots =
      (allSlots addrmanNewBucketCount addrmanBucketSize).filter fun slot => state.vvNew slot ≠ -1 := by
  unfold allSlots List.product
  rw [filter_flatMap]
  rfl

/-- A number in a bucket puts an entry back into its slot. -/
theorem Consistent.load_position (consistent : state.Consistent hashOf)
    (usable : Usable 1 nUBuckets) {done : List NewSlot} {slot : NewSlot} {bucket : Nat}
    (stage : Loaded state now state.fileOrder done) (nNew : now.nNew = state.nNew)
    (nTried : now.nTried = state.nTried) (row : slot.1 = Fin.ofNat addrmanNewBucketCount bucket)
    (fresh : slot ∉ done) {place : Nat} {info : CAddrInfo}
    (here : state.news[place]? = some ⟨state.vvNew slot, info⟩) :
    Loaded state (loadPosition hashOf 1 nUBuckets bucket now place) state.fileOrder (done ++ [slot]) ∧
      (loadPosition hashOf 1 nUBuckets bucket now place).nNew = state.nNew ∧
      (loadPosition hashOf 1 nUBuckets bucket now place).nTried = state.nTried := by
  obtain ⟨found, untried⟩ := mem_news.mp (mem_of_getElem? here)
  have short := (List.getElem?_eq_some_iff.mp here).1
  have inOrder : state.fileOrder[place]? = some ⟨state.vvNew slot, info⟩ := by
    unfold fileOrder
    rw [getElem?_append_left short]
    exact here
  have named := fileIds_get.mpr ⟨info, inOrder⟩
  have infoAt : now.infoAt (place : Int) = info.reloaded (holders now.vvNew (place : Int)) place := by
    unfold CAddrMan.infoAt
    rw [stage.info inOrder]
    rfl
  have position : (now.infoAt (place : Int)).newSlot hashOf now.nKey
      (Fin.ofNat addrmanNewBucketCount bucket) = slot := by
    obtain ⟨_, foundToo, _, home⟩ := consistent.newSlot (consistent.nameable found)
    cases found.symm.trans foundToo
    rw [infoAt, stage.nKey, ← row]
    exact home
  have empty : now.vvNew slot = -1 := (stage.vvNew slot).trans (if_neg fresh)
  have room : (now.infoAt (place : Int)).nRefCount < addrmanNewBucketsPerAddress := by
    have fewer : holders now.vvNew (place : Int) < holders state.vvNew (state.vvNew slot) := by
      refine holders_lt (fun other held => ?_) (fun held => ?_) rfl
      · rw [stage.vvNew other] at held
        split at held
        case isTrue =>
          have namedToo := (numberOf_eq (nodup_fileIds state)).mp held
          exact Option.some.inj (namedToo.symm.trans named)
        case isFalse => omega
      · omega
    have most := ((consistent.entry found).new untried).2
    have counted := (consistent.newHeld found untried).2
    rw [infoAt]
    change (holders now.vvNew (place : Int) : Int) < _
    omega
  have inRange : 0 ≤ (place : Int) ∧ (place : Int) < now.nNew := by
    have length := consistent.length_news
    omega
  unfold loadPosition
  dsimp only
  rw [if_pos inRange, position, if_pos ⟨usable, empty, room⟩]
  exact ⟨stage.place (nodup_fileIds state) fresh named, nNew, nTried⟩

variable {bucket : Fin addrmanNewBucketCount}

theorem mem_usedSlots {slot : NewSlot} :
    slot ∈ state.usedSlots bucket ↔ slot.1 = bucket ∧ state.vvNew slot ≠ -1 := by
  unfold usedSlots
  rw [mem_filter, decide_eq_true_iff, List.mem_map]
  refine and_congr_left fun _ => ?_
  constructor
  · rintro ⟨position, _, rfl⟩
    rfl
  · rintro rfl
    exact ⟨slot.2, mem_finRange _, rfl⟩

theorem length_usedSlots (state : CAddrMan) (bucket : Fin addrmanNewBucketCount) :
    (state.usedSlots bucket).length ≤ addrmanBucketSize := by
  unfold usedSlots
  refine (length_filter_le _ _).trans (le_of_eq ?_)
  rw [length_map, length_finRange]

/-- The loop over the numbers of a bucket. -/
theorem Consistent.load_bucket (consistent : state.Consistent hashOf)
    (usable : Usable 1 nUBuckets) {mapUnkIds : StdMap Int Int}
    (numbered : ∀ {place : Nat} {n : Int} {info : CAddrInfo}, state.news[place]? = some ⟨n, info⟩ →
      mapUnkIds.lookup n = some (place : Int)) {done : List NewSlot}
    (stage : Loaded state now state.fileOrder done) (nNew : now.nNew = state.nNew)
    (nTried : now.nTried = state.nTried) (once : (done ++ state.usedSlots bucket).Nodup) : ∃ next,
      Reads (loadBucket hashOf 1 nUBuckets bucket now) (state.writeBucket mapUnkIds bucket) next ∧
        Loaded state next state.fileOrder (done ++ state.usedSlots bucket) ∧
          next.nNew = state.nNew ∧ next.nTried = state.nTried := by
  have few := length_usedSlots state bucket
  have small : addrmanBucketSize < 2 ^ 31 := by decide
  have size : Reads readInt (writeInt ((state.usedSlots bucket).length : Int))
      ((state.usedSlots bucket).length : Int) :=
    reads_int (by omega) (by omega)
  have run := @reads_loop NewSlot CAddrMan (fun _ now => do
    let nIndex ← readInt
    pure (loadPosition hashOf 1 nUBuckets bucket now nIndex))
    (fun slot => writeInt ((mapUnkIds.lookup (state.vvNew slot)).getD 0))
    (fun before now => Loaded state now state.fileOrder (done ++ before) ∧ now.nNew = state.nNew ∧
      now.nTried = state.nTried) (state.usedSlots bucket) 0 now ?_
    ⟨(append_nil done).symm ▸ stage, nNew, nTried⟩
  · obtain ⟨next, reads, ends⟩ := run
    exact ⟨next, size.bind reads, ends⟩
  rintro before slot after now split ⟨stage, nNew, nTried⟩
  have inside : slot ∈ state.usedSlots bucket := split ▸ mem_append_right before mem_cons_self
  obtain ⟨row, used⟩ := mem_usedSlots.mp inside
  obtain ⟨info, found, untried, _⟩ := consistent.newSlot used
  obtain ⟨place, here⟩ := mem_iff_getElem?.mp (mem_news.mpr ⟨found, untried⟩)
  have fresh : slot ∉ done ++ before := fun member => by
    rw [split, ← append_assoc] at once
    exact (nodup_append.mp once).2.2 slot member slot mem_cons_self rfl
  have short := (List.getElem?_eq_some_iff.mp here).1
  have most := consistent.news_le
  have bound : addrmanNewBucketCount * addrmanBucketSize < 2 ^ 31 := by decide
  have number : Reads readInt (writeInt ((mapUnkIds.lookup (state.vvNew slot)).getD 0)) (place : Int) := by
    rw [numbered here, getD_some]
    exact reads_int (by omega) (by omega)
  refine ⟨_, number.map fun nIndex => loadPosition hashOf 1 nUBuckets bucket now nIndex, ?_⟩
  rw [← append_assoc]
  refine consistent.load_position usable stage nNew nTried ?_ fresh here
  rw [row]
  exact (Fin.ofNat_val_eq_self bucket).symm

/-- The loop over the buckets. -/
theorem Consistent.load_buckets (consistent : state.Consistent hashOf) {nUBuckets : Int}
    (usable : Usable 1 nUBuckets) {mapUnkIds : StdMap Int Int}
    (numbered : ∀ {place : Nat} {n : Int} {info : CAddrInfo}, state.news[place]? = some ⟨n, info⟩ →
      mapUnkIds.lookup n = some (place : Int)) (stage : Loaded state now state.fileOrder [])
    (nNew : now.nNew = state.nNew) (nTried : now.nTried = state.nTried) : ∃ next,
      Reads (loop (loadBucket hashOf 1 nUBuckets) 0 addrmanNewBucketCount now)
        ((List.finRange addrmanNewBucketCount).flatMap (state.writeBucket mapUnkIds)) next ∧
        Loaded state next state.fileOrder
          ((List.finRange addrmanNewBucketCount).flatMap state.usedSlots) ∧
          next.nNew = state.nNew ∧ next.nTried = state.nTried := by
  have run := @reads_loop _ CAddrMan (loadBucket hashOf 1 nUBuckets) (state.writeBucket mapUnkIds)
    (fun before now => Loaded state now state.fileOrder (before.flatMap state.usedSlots) ∧
      now.nNew = state.nNew ∧ now.nTried = state.nTried) (finRange addrmanNewBucketCount) 0 now
      ?_ ⟨stage, nNew, nTried⟩
  · rwa [length_finRange] at run
  rintro before bucket after now split ⟨stage, nNew, nTried⟩
  have index : bucket.val = 0 + before.length := by
    have here : (finRange addrmanNewBucketCount)[before.length]? = some bucket := by
      rw [split, getElem?_append_right (Nat.le_refl _), Nat.sub_self]
      rfl
    obtain ⟨_, same⟩ := List.getElem?_eq_some_iff.mp here
    rw [← same, getElem_finRange, Nat.zero_add]
    rfl
  have once : (before.flatMap state.usedSlots ++ state.usedSlots bucket).Nodup := by
    have all : ((finRange addrmanNewBucketCount).flatMap state.usedSlots).Nodup := by
      rw [flatMap_usedSlots]
      exact (nodup_allSlots _ _).filter _
    rw [split, flatMap_append, flatMap_cons, ← append_assoc] at all
    exact all.of_append_left
  rw [← index, flatMap_append, flatMap_singleton]
  exact consistent.load_bucket usable numbered stage nNew nTried once

end Loading

/-! ## What is restored -/

section Restored

variable {done : List NewSlot} {place : Nat}

theorem Consistent.numberOf_empty (consistent : state.Consistent hashOf) :
    numberOf state.fileIds (-1) = -1 :=
  numberOf_eq_neg_one.mpr fun inside => by
    obtain ⟨_, found⟩ := mem_fileIds.mp inside
    exact consistent.nameable found rfl

/-- Every slot of `state` is filled again. -/
structure Restored (hashOf : List UInt8 → Uint256) (state now : CAddrMan) : Prop where
  consistent : state.Consistent hashOf
  nKey : now.nKey = state.nKey
  nNew : now.nNew = state.nNew
  nTried : now.nTried = state.nTried
  vRandom : now.vRandom = (List.range state.fileOrder.length).map fun place : Nat => (place : Int)
  info : ∀ {place : Nat} {n : Int} {info : CAddrInfo}, state.fileOrder[place]? = some ⟨n, info⟩ →
    now.mapInfo.lookup (place : Int) = some (info.reloaded info.nRefCount place)
  only : ∀ {m}, (now.mapInfo.lookup m).isSome →
    ∃ place : Nat, place < state.fileOrder.length ∧ m = place
  mapAddr : ∀ {place : Nat} {n : Int} {info : CAddrInfo}, state.fileOrder[place]? = some ⟨n, info⟩ →
    now.mapAddr.lookup info.toCNetAddr = some (place : Int)
  vvTried : ∀ slot, now.vvTried slot = numberOf state.fileIds (state.vvTried slot)
  vvNew : ∀ slot, now.vvNew slot = numberOf state.fileIds (state.vvNew slot)

theorem exists_number (found : state.mapInfo.lookup n = some info) : ∃ place : Nat,
    numberOf state.fileIds n = place ∧ state.fileOrder[place]? = some ⟨n, info⟩ := by
  obtain ⟨place, here⟩ := mem_iff_getElem?.mp (mem_fileOrder.mpr found)
  exact ⟨place, (numberOf_eq (nodup_fileIds state)).mpr (fileIds_get.mpr ⟨info, here⟩), here⟩

theorem holders_renumbered {S : Type} [Fintype S] {table second : S → Int}
    (renumbered : ∀ slot, second slot = numberOf state.fileIds (table slot))
    (here : state.fileIds[place]? = some n) : holders second (place : Int) = holders table n := by
  refine holders_congr fun slot => ?_
  rw [renumbered, numberOf_eq (nodup_fileIds state), here, some_inj]
  exact eq_comm

theorem Loaded.restored (stage : Loaded state now state.fileOrder done)
    (complete : ∀ slot, slot ∈ done ↔ state.vvNew slot ≠ -1)
    (consistent : state.Consistent hashOf) (nNew : now.nNew = state.nNew)
    (nTried : now.nTried = state.nTried) : Restored hashOf state now := by
  have vvNew : ∀ slot, now.vvNew slot = numberOf state.fileIds (state.vvNew slot) := by
    intro slot
    rw [stage.vvNew]
    split
    case isTrue => rfl
    case isFalse outside =>
      rw [not_not.mp ((complete slot).not.mp outside), consistent.numberOf_empty]
  refine ⟨consistent, stage.nKey, nNew, nTried, stage.vRandom, fun {place n info} here => ?_,
    stage.only, stage.mapAddr, stage.vvTried, vvNew⟩
  have found := mem_fileOrder.mp (mem_of_getElem? here)
  rw [stage.info here, holders_renumbered vvNew (fileIds_get.mpr ⟨info, here⟩),
    consistent.holders_eq found]

namespace Restored

variable (restored : Restored hashOf state now)
include restored

theorem origin {m : Int} {infoNow : CAddrInfo} (found : now.mapInfo.lookup m = some infoNow) :
    ∃ (place : Nat) (n : Int) (info : CAddrInfo), m = place ∧
      state.fileOrder[place]? = some ⟨n, info⟩ ∧ state.mapInfo.lookup n = some info ∧
        infoNow = info.reloaded info.nRefCount place := by
  obtain ⟨place, short, rfl⟩ := restored.only (isSome_of_mem found)
  obtain ⟨⟨n, info⟩, here⟩ : ∃ entry : AddrEntry, state.fileOrder[place]? = some entry :=
    ⟨_, getElem?_eq_getElem short⟩
  exact ⟨place, n, info, rfl, here, mem_fileOrder.mp (mem_of_getElem? here),
    Option.some.inj (found.symm.trans (restored.info here))⟩

theorem entries_perm : now.mapInfo.entries.Perm (state.fileOrder.zipIdx.map fun pair =>
    (⟨pair.2, pair.1.2.reloaded pair.1.2.nRefCount pair.2⟩ : AddrEntry)) := by
  have ids : (state.fileOrder.zipIdx.map fun pair =>
      (⟨pair.2, pair.1.2.reloaded pair.1.2.nRefCount pair.2⟩ : AddrEntry)).map Sigma.fst =
        (List.range state.fileOrder.length).map fun place : Nat => (place : Int) := by
    rw [List.map_map, range_eq_range', ← zipIdx_map_snd 0 state.fileOrder, List.map_map]
    rfl
  have nodup : ((List.range state.fileOrder.length).map fun place : Nat => (place : Int)).Nodup :=
    nodup_range.map fun _ _ same => Int.natCast_inj.mp same
  refine (perm_ext_iff_of_nodup now.mapInfo.nodupKeys.nodup
    (List.Nodup.of_map Sigma.fst (ids ▸ nodup))).mpr ?_
  rintro ⟨m, infoNow⟩
  rw [← mem_lookup_iff, List.mem_map]
  constructor
  · intro found
    obtain ⟨place, n, info, rfl, here, _, rfl⟩ := restored.origin found
    exact ⟨(⟨n, info⟩, place), mem_zipIdx_iff_getElem?.mpr here, rfl⟩
  · rintro ⟨⟨⟨n, info⟩, place⟩, inside, same⟩
    cases same
    exact restored.info (mem_zipIdx_iff_getElem?.mp inside)

theorem countP_kind (kind : Bool → Bool) :
    now.mapInfo.entries.countP (fun entry => kind entry.2.fInTried) =
      state.mapInfo.entries.countP fun entry => kind entry.2.fInTried := by
  rw [restored.entries_perm.countP_eq, countP_map, ← (fileOrder_perm state).countP_eq]
  have fields := zipIdx_map_fst 0 state.fileOrder
  rw [← congrArg (countP fun entry : AddrEntry => kind entry.2.fInTried) fields, countP_map]
  rfl

/-- What is restored passes the check. -/
theorem restored_consistent : now.Consistent hashOf := by
  have whole := restored
  obtain ⟨consistent, nKey, nNew, nTried, vRandom, lookup, _, mapAddr, vvTried, vvNew⟩ := restored
  have nonnegative : ∀ place : Nat, (place : Int) ≠ -1 := fun place same => by omega
  constructor
  case size =>
    have length : state.fileOrder.length = state.news.length + state.trieds.length := length_append
    rw [vRandom, length_map, length_range, length, Int.natCast_add, consistent.length_news,
      consistent.length_trieds, nNew, nTried]
    exact Int.add_comm _ _
  case entry =>
    intro m infoNow found
    obtain ⟨place, n, info, rfl, here, foundOld, rfl⟩ := whole.origin found
    have ok := consistent.entry foundOld
    have short := (List.getElem?_eq_some_iff.mp here).1
    refine ⟨ok.tried, ok.new, ?_, Int.natCast_nonneg place, ?_, Int.le_refl 0, ok.nLastSuccess⟩
    · exact congrArg (Option.getD · 0) (mapAddr here)
    · change now.vRandom[place]? = some (place : Int)
      rw [vRandom, getElem?_map, getElem?_range short]
      rfl
  case nTried =>
    rw [nTried, ← consistent.nTried]
    exact congrArg Int.ofNat (whole.countP_kind id)
  case nNew =>
    rw [nNew, ← consistent.nNew]
    exact congrArg Int.ofNat (whole.countP_kind Bool.not)
  case triedSlot =>
    intro slot used
    rw [vvTried] at used ⊢
    obtain ⟨place, number, named⟩ := exists_place (nodup_fileIds state) used
    obtain ⟨info, here⟩ := fileIds_get.mp named
    have found := mem_fileOrder.mp (mem_of_getElem? here)
    obtain ⟨tried, home⟩ := (consistent.vvTried_iff found slot).mp rfl
    rw [number, nKey]
    exact ⟨_, lookup here, tried, home⟩
  case triedHeld =>
    intro m infoNow found tried
    obtain ⟨place, n, info, rfl, here, foundOld, rfl⟩ := whole.origin found
    refine ⟨nonnegative place, ?_⟩
    have held := (consistent.vvTried_iff foundOld _).mpr ⟨tried, rfl⟩
    have slot : (info.reloaded info.nRefCount place).triedSlot hashOf now.nKey =
        info.triedSlot hashOf state.nKey := by
      rw [nKey]
      rfl
    rw [slot, vvTried, held]
    exact (numberOf_eq (nodup_fileIds state)).mpr (fileIds_get.mpr ⟨info, here⟩)
  case newSlot =>
    intro slot used
    rw [vvNew] at used ⊢
    obtain ⟨place, number, named⟩ := exists_place (nodup_fileIds state) used
    obtain ⟨info, here⟩ := fileIds_get.mp named
    have found := mem_fileOrder.mp (mem_of_getElem? here)
    obtain ⟨_, foundToo, untried, home⟩ := consistent.newSlot (consistent.nameable found)
    cases found.symm.trans foundToo
    rw [number, nKey]
    exact ⟨_, lookup here, untried, home⟩
  case newHeld =>
    intro m infoNow found untried
    obtain ⟨place, n, info, rfl, here, foundOld, rfl⟩ := whole.origin found
    refine ⟨nonnegative place, ?_⟩
    have counted := consistent.holders_eq foundOld
    rw [holders_renumbered vvNew (fileIds_get.mpr ⟨info, here⟩)]
    exact counted
  case key =>
    rw [nKey]
    exact consistent.key

end Restored

end Restored

theorem Consistent.prune (consistent : state.Consistent hashOf) : state.prune = some state := by
  unfold CAddrMan.prune
  have each : ∀ entry ∈ state.mapInfo.inOrder,
      ¬ ((state.infoAt entry.1).fInTried = false ∧ (state.infoAt entry.1).nRefCount = 0) := by
    intro entry inside both
    have found := mem_inOrder.mp inside
    have infoAt : state.infoAt entry.1 = entry.2 := by
      unfold CAddrMan.infoAt
      rw [found]
      rfl
    rw [infoAt] at both
    have counted := ((consistent.entry found).new both.1).1
    omega
  generalize state.mapInfo.inOrder = entries at each ⊢
  induction entries with
  | nil => rfl
  | cons entry rest ih =>
    rw [foldlM_cons, if_neg (each entry mem_cons_self)]
    exact ih fun other inside => each other (mem_cons_of_mem entry inside)

/-! ## The round trip -/

/-- What the file keeps of the entry with an id. -/
def kept (state : CAddrMan) (nId : Int) : Option CAddrInfo :=
  (state.mapInfo.lookup nId).map CAddrInfo.stored

/-- The key, the records of each kind and the records in the slots are the same. -/
structure SameContents (state other : CAddrMan) : Prop where
  nKey : other.nKey = state.nKey
  nNew : other.nNew = state.nNew
  nTried : other.nTried = state.nTried
  records : ∀ (fInTried : Bool) (record : CAddrInfo),
    (∃ nId info, other.mapInfo.lookup nId = some info ∧ info.fInTried = fInTried ∧
      info.stored = record) ↔
    ∃ nId info, state.mapInfo.lookup nId = some info ∧ info.fInTried = fInTried ∧
      info.stored = record
  vvTried : ∀ slot, other.kept (other.vvTried slot) = state.kept (state.vvTried slot)
  vvNew : ∀ slot, other.kept (other.vvNew slot) = state.kept (state.vvNew slot)

theorem Restored.sameContents (restored : Restored hashOf state now) : SameContents state now := by
  have consistent := restored.consistent
  have kept_number : ∀ nId, nId = -1 ∨ (∃ info, state.mapInfo.lookup nId = some info) →
      now.kept (numberOf state.fileIds nId) = state.kept nId := by
    rintro nId (rfl | ⟨info, found⟩)
    · have none_old : state.mapInfo.lookup (-1) = none := eq_none_iff_forall_ne_some.mpr
        fun info found => consistent.nameable found rfl
      have none_now : now.mapInfo.lookup (-1) = none := eq_none_iff_forall_ne_some.mpr
        fun info found => restored.restored_consistent.nameable found rfl
      unfold kept
      rw [consistent.numberOf_empty, none_old, none_now]
    · obtain ⟨place, number, here⟩ := exists_number found
      unfold kept
      rw [number, restored.info here, found]
      rfl
  refine ⟨restored.nKey, restored.nNew, restored.nTried, fun fInTried record => ?_, fun slot => ?_,
    fun slot => ?_⟩
  · constructor
    · rintro ⟨m, infoNow, found, flag, same⟩
      obtain ⟨place, n, info, rfl, _, foundOld, rfl⟩ := restored.origin found
      exact ⟨n, info, foundOld, flag, same⟩
    · rintro ⟨n, info, found, flag, same⟩
      obtain ⟨place, _, here⟩ := exists_number found
      exact ⟨place, _, restored.info here, flag, same⟩
  · rw [restored.vvTried]
    refine kept_number _ (or_iff_not_imp_left.mpr fun used => ?_)
    obtain ⟨info, found, _⟩ := consistent.triedSlot used
    exact ⟨info, found⟩
  · rw [restored.vvNew]
    refine kept_number _ (or_iff_not_imp_left.mpr fun used => ?_)
    obtain ⟨info, found, _⟩ := consistent.newSlot used
    exact ⟨info, found⟩

/-- A manager that passes its check is written, and what is written is read into
a new manager that passes it and has the same contents. -/
theorem unserialize_serialize (checked : state.check hashOf = .ok ()) (nVersion : BitVec 32)
    (made randHash : Uint256) : ∃ file restored, state.serialize nVersion = some file ∧
      Reads (unserialize hashOf randHash { nKey := made }) file restored ∧
        restored.check hashOf = .ok () ∧ SameContents state restored := by
  have consistent := check_ok_iff.mp checked
  obtain ⟨mapUnkIds, wrote, numbered⟩ := consistent.serialize nVersion
  have usable : Usable 1 (markedBucketCount ^^^ (1 <<< 30)).toInt := ⟨rfl, by decide⟩
  have newFew := consistent.news_le
  have triedFew := consistent.trieds_le
  have newCount := consistent.length_news
  have triedCount := consistent.length_trieds
  have newBound : addrmanNewBucketCount * addrmanBucketSize < 2 ^ 31 := by decide
  have triedBound : addrmanTriedBucketCount * addrmanBucketSize < 2 ^ 31 := by decide
  obtain ⟨news, readNews, stage, nNew, nTried⟩ :=
    consistent.load_news nVersion usable (loaded_nothing state made randHash) rfl rfl
  obtain ⟨all, readTrieds, stage, nNew, nTried⟩ := @Consistent.load_trieds hashOf state
    { news with nIdCount := BitVec.ofInt 32 state.nNew } nVersion consistent
      ⟨stage.nKey, stage.vRandom, stage.info, stage.only, stage.mapAddr, stage.vvTried, stage.vvNew⟩
      nNew nTried (congrArg (BitVec.ofInt 32) consistent.length_news.symm)
  obtain ⟨restored, readBuckets, stage, nNew, nTried⟩ := @Consistent.load_buckets hashOf state
    { all with nTried := all.nTried - 0 } consistent _ usable _ numbered
      ⟨stage.nKey, stage.vRandom, stage.info, stage.only, stage.mapAddr, stage.vvTried, stage.vvNew⟩
      nNew ((Int.sub_zero _).trans nTried)
  have complete : ∀ slot, slot ∈ (finRange addrmanNewBucketCount).flatMap state.usedSlots ↔
      state.vvNew slot ≠ -1 := fun slot => by
    rw [flatMap_usedSlots, mem_filter, decide_eq_true_iff]
    exact and_iff_right (mem_allSlots slot)
  have same := stage.restored complete consistent nNew nTried
  refine ⟨_, restored, wrote, ?_, check_ok_iff.mpr same.restored_consistent, same.sameContents⟩
  have sizes : state.nNew.toNat = state.news.length ∧ state.nTried.toNat = state.trieds.length := by
    omega
  unfold unserialize
  refine (reads_byte 1).bind ?_
  refine (reads_byte 32).bind ?_
  rw [if_neg (by decide)]
  refine (reads_uint256 state.nKey).bind ?_
  refine (reads_int (by omega) (by omega)).bind ?_
  refine (reads_int (by omega) (by omega)).bind ?_
  refine (reads_word (by decide) markedBucketCount).bind ?_
  dsimp only
  rw [sizes.1, sizes.2]
  refine readNews.bind ?_
  refine readTrieds.bind ?_
  refine readBuckets.finish ?_
  rw [same.restored_consistent.prune]
  exact reads_ofOption restored

theorem unserialize_serialize_six : ∃ state, Runs.run (call mixHash) { nKey := 1 } sixAdded =
    some state ∧ (state.nNew, state.nTried) = (5, 1) ∧
      ∃ file restored, state.serialize 70206 = some file ∧
        Reads (unserialize mixHash 5 { nKey := 3 }) file restored ∧
          restored.check mixHash = .ok () ∧ SameContents state restored := by
  obtain ⟨state, ran, sound⟩ := Runs.run_succeeds
    (fun state input sound met => sound.call input met.1 met.2) (sound_empty (by decide))
      (Runs.Meets.and (Runs.Meets.of_mem (fun input inside _ => timed_sixAdded input inside) _)
        fresh_sixAdded)
  have counts : (Runs.run (call mixHash) { nKey := 1 } sixAdded).map
      (fun state => (state.nNew, state.nTried)) = some (5, 1) := by
    decide +kernel
  rw [ran] at counts
  exact ⟨state, ran, Option.some.inj counts,
    unserialize_serialize (check_ok_iff.mpr sound.consistent) 70206 3 5⟩

end CAddrMan

end CentNode
