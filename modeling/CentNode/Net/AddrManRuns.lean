import CentNode.Library.Runs
import CentNode.Net.AddrManTables

/-!
# The operations of the address manager

Each operation runs without a failed assertion and keeps the index and the
tables, so every sequence of calls does, as long as a new entry gets an id that
is not in use.
-/

namespace CentNode

open Option List AList Function StdMap

open SlotTable

namespace CAddrMan

variable {hashOf : List UInt8 → Uint256} {state next : CAddrMan} {loose : Int → Prop} {gap : Int}
  {n : Int} {info : CAddrInfo}

/-! ## Positions -/

/-- The entry is there after the operation as it was before, up to its position. -/
def Spared (state next : CAddrMan) (m : Int) : Prop :=
  ∃ place, next.mapInfo.lookup m =
    (state.mapInfo.lookup m).map fun info => { info with nRandomPos := place }

theorem Spared.refl (state : CAddrMan) (m : Int) : Spared state state m := by
  unfold Spared
  cases found : state.mapInfo.lookup m with
  | none => exact ⟨0, rfl⟩
  | some info => exact ⟨info.nRandomPos, rfl⟩

theorem Spared.trans {middle : CAddrMan} {m : Int} (first : Spared state middle m)
    (second : Spared middle next m) : Spared state next m := by
  obtain ⟨_, before⟩ := first
  obtain ⟨place, after⟩ := second
  refine ⟨place, ?_⟩
  rw [after, before, Option.map_map]
  rfl

theorem Spared.some (spared : Spared state next n) (found : state.mapInfo.lookup n = some info) :
    ∃ place, next.mapInfo.lookup n = some { info with nRandomPos := place } := by
  obtain ⟨place, after⟩ := spared
  rw [found] at after
  exact ⟨place, after⟩

variable {change : CAddrInfo → CAddrInfo}

theorem spared_updateInfo {m : Int} (differ : m ≠ n) :
    Spared state (state.updateInfo n change) m := by
  obtain ⟨place, same⟩ := Spared.refl state m
  refine ⟨place, ?_⟩
  rw [lookup_updateInfo, if_neg differ]
  exact same

theorem spared_moved (state : CAddrMan) (n m place : Int) :
    Spared state (state.updateInfo n fun info => { info with nRandomPos := place }) m := by
  by_cases same : m = n
  · refine ⟨place, ?_⟩
    rw [lookup_updateInfo, if_pos same, same]
  · exact spared_updateInfo same

/-- What no operation on positions touches. -/
structure SameTables (state next : CAddrMan) : Prop where
  nKey : next.nKey = state.nKey
  vvTried : next.vvTried = state.vvTried
  vvNew : next.vvNew = state.vvNew
  nTried : next.nTried = state.nTried

/-- What `SwapRandom` does. -/
structure Swapped (state next : CAddrMan) : Prop where
  tables : SameTables state next
  nNew : next.nNew = state.nNew
  mapAddr : next.mapAddr = state.mapAddr
  nIdCount : next.nIdCount = state.nIdCount
  length : next.vRandom.length = state.vRandom.length
  spared : ∀ m, Spared state next m

theorem touches_position (place : Int) (info : CAddrInfo) :
    Touches (fun info => { info with nRandomPos := place }) info :=
  ⟨rfl, rfl, rfl, id, id, id⟩

theorem Held.swapRandom (held : state.Held hashOf loose gap) {i j : Nat}
    (iLt : i < state.vRandom.length) (jLt : j < state.vRandom.length) :
    ∃ next, state.swapRandom i j = some next ∧ next.Held hashOf loose gap ∧ Swapped state next ∧
      next.vRandom[j]? = state.vRandom[i]? := by
  by_cases same : i = j
  · refine ⟨state, ?_, held, ⟨⟨rfl, rfl, rfl, rfl⟩, rfl, rfl, rfl, rfl, Spared.refl state⟩, by rw [same]⟩
    unfold CAddrMan.swapRandom
    rw [if_pos same]
  have atI : state.vRandom[i]? = some state.vRandom[i] := getElem?_eq_getElem iLt
  have atJ : state.vRandom[j]? = some state.vRandom[j] := getElem?_eq_getElem jLt
  generalize state.vRandom[i] = first at atI
  generalize state.vRandom[j] = second at atJ
  have firstAt := held.indexed.placed.get_iff.mp atI
  have secondAt := held.indexed.placed.get_iff.mp atJ
  obtain ⟨firstInfo, firstFound, firstPlace⟩ := map_eq_some_iff.mp firstAt
  obtain ⟨secondInfo, secondFound, secondPlace⟩ := map_eq_some_iff.mp secondAt
  have differ : second ≠ first := by
    rintro rfl
    rw [firstAt, Option.some.injEq, Int.natCast_inj] at secondAt
    exact same secondAt
  let once := state.updateInfo first fun info => { info with nRandomPos := j }
  let twice := once.updateInfo second fun info => { info with nRandomPos := i }
  have secondOnce : once.mapInfo.lookup second = some secondInfo := by
    rw [lookup_updateInfo, if_neg differ, secondFound]
  have tabled := (held.tabled.touch firstFound (touches_position j firstInfo)).touch secondOnce
    (touches_position i secondInfo)
  refine ⟨{ twice with vRandom := (state.vRandom.set i second).set j first }, ?_,
    ⟨?_, tabled.named, tabled.triedSlot, tabled.newSlot, tabled.stands, tabled.nTried, tabled.nNew⟩,
    ⟨⟨rfl, rfl, rfl, rfl⟩, rfl, rfl, rfl, ?_, fun m => ?_⟩, ?_⟩
  · unfold CAddrMan.swapRandom
    rw [if_neg same, atI, atJ]
    dsimp only
    rw [firstFound, secondFound]
    rfl
  · have positions : twice.position = Function.update
        (Function.update state.position first (some (j : Int))) second (some (i : Int)) := by
      rw [position_moved secondOnce, position_moved firstFound]
    constructor
    case placed =>
      change Roster.Placed _ twice.position
      rw [positions]
      exact held.indexed.placed.swap same atI atJ
    case mapAddr =>
      have moved : once.Addressed := held.indexed.mapAddr.update rfl rfl fun _ => rfl
      exact moved.update rfl rfl fun _ => rfl
  · change ((state.vRandom.set i second).set j first).length = _
    rw [length_set, length_set]
  · exact Spared.trans (spared_moved state first m j) (spared_moved once second m i)
  · change ((state.vRandom.set i second).set j first)[j]? = _
    rw [getElem?_set_self (by rw [length_set]; exact jLt), atI]

/-! ## Entries that are deleted -/

/-- What `Delete` does. -/
structure Deleted (state next : CAddrMan) (n : Int) : Prop where
  tables : SameTables state next
  gone : next.mapInfo.lookup n = none
  spared : ∀ m, m ≠ n → Spared state next m

theorem Held.delete (held : state.Held hashOf loose gap)
    (found : state.mapInfo.lookup n = some info) (untried : info.fInTried = false)
    (bare : info.nRefCount = 0) :
    ∃ next, state.delete n = some next ∧ next.Held hashOf loose gap ∧ Deleted state next n := by
  have placed := held.indexed.placed
  have position := position_eq found
  have inside := placed.lt_of_position position
  obtain ⟨swapped, ran, heldSwapped, effect, ends⟩ :=
    held.swapRandom inside (Nat.sub_lt (Nat.zero_lt_of_lt inside) Nat.one_pos)
  obtain ⟨place, foundSwapped⟩ := (effect.spared n).some found
  have last : place = ((swapped.vRandom.length - 1 : Nat) : Int) := by
    rw [placed.get_of_position position, heldSwapped.indexed.placed.get_iff,
      position_eq foundSwapped] at ends
    rw [effect.length]
    exact Option.some.inj ends
  have deleted : state.delete n = some { swapped with
      vRandom := swapped.vRandom.dropLast
      mapAddr := swapped.mapAddr.erase info.toCNetAddr
      mapInfo := swapped.mapInfo.erase n
      nNew := swapped.nNew - 1 } := by
    unfold CAddrMan.delete
    rw [found]
    dsimp only
    rw [untried, if_neg Bool.false_ne_true, if_neg (not_not.mpr bare), ran]
  refine ⟨_, deleted, ⟨?_, ?_⟩, ⟨?_, ?_, fun m differ => ?_⟩⟩
  · exact heldSwapped.indexed.leave foundSwapped last rfl rfl rfl
  · refine heldSwapped.tabled.leave foundSwapped rfl rfl rfl rfl rfl ?_ untried bare
    change swapped.nNew - 1 + gap = swapped.nNew + gap - 1
    omega
  · exact ⟨effect.tables.nKey, effect.tables.vvTried, effect.tables.vvNew, effect.tables.nTried⟩
  · exact lookup_erase _ _
  · obtain ⟨place, same⟩ := effect.spared m
    refine ⟨place, ?_⟩
    rw [← same]
    exact lookup_erase_ne differ

/-- What `ClearNew` does. -/
structure Cleared (state next : CAddrMan) (slot : NewSlot) : Prop where
  nKey : next.nKey = state.nKey
  vvTried : next.vvTried = state.vvTried
  nTried : next.nTried = state.nTried
  here : next.vvNew slot = -1
  elsewhere : ∀ other, other ≠ slot → next.vvNew other = state.vvNew other
  spared : ∀ m, m ≠ state.vvNew slot → Spared state next m

theorem Held.clearNew (held : state.Held hashOf loose gap) (slot : NewSlot) :
    ∃ next, state.clearNew slot = some next ∧ next.Held hashOf loose gap ∧
      Cleared state next slot := by
  unfold CAddrMan.clearNew
  dsimp only
  by_cases empty : state.vvNew slot = -1
  · rw [if_pos empty]
    exact ⟨state, rfl, held, rfl, rfl, rfl, empty, fun _ _ => rfl, fun m _ => Spared.refl state m⟩
  rw [if_neg empty]
  obtain ⟨info, found, _⟩ := held.tabled.newSlot empty
  obtain ⟨more, untried⟩ := held.tabled.held rfl found
  rw [found]
  dsimp only
  rw [if_neg (Int.not_le.mpr more)]
  have unplaced := held.tabled.unplace rfl found
  have indexed : Indexed { state.updateInfo (state.vvNew slot) fun info =>
      { info with nRefCount := info.nRefCount - 1 } with
        vvNew := Function.update state.vvNew slot (-1) } :=
    held.indexed.update rfl rfl rfl (fun _ => rfl) fun _ => rfl
  have foundNext : AList.lookup (state.vvNew slot) (state.updateInfo (state.vvNew slot) fun info =>
      { info with nRefCount := info.nRefCount - 1 }).mapInfo =
        some { info with nRefCount := info.nRefCount - 1 } := by
    rw [lookup_updateInfo, if_pos rfl, found]
    rfl
  split
  case isTrue last =>
    obtain ⟨next, ran, ⟨indexedNext, tabledNext⟩, effect⟩ :=
      @Held.delete hashOf _ _ gap _ _ ⟨indexed, unplaced⟩ foundNext untried last
    refine ⟨next, ran, ⟨indexedNext, tabledNext.loosen fun {m info} foundM _ _ isLoose => ?_⟩, ?_⟩
    · rcases isLoose with rfl | before
      · cases foundM.symm.trans effect.gone
      · exact before
    · refine ⟨effect.tables.nKey, effect.tables.vvTried, effect.tables.nTried, ?_, fun other differ => ?_,
        fun m differ => ?_⟩
      · rw [effect.tables.vvNew]
        exact update_self _ _ _
      · rw [effect.tables.vvNew]
        exact update_of_ne differ _ _
      · exact Spared.trans (spared_updateInfo differ) (effect.spared m differ)
  case isFalse others =>
    refine ⟨_, rfl, ⟨indexed, unplaced.loosen fun {m infoM} foundM _ zero isLoose => ?_⟩, ?_⟩
    · rcases isLoose with rfl | before
      · cases foundNext.symm.trans foundM
        exact absurd zero others
      · exact before
    · exact ⟨rfl, rfl, rfl, update_self _ _ _, fun other differ => update_of_ne differ _ _,
        fun m differ => spared_updateInfo differ⟩

/-! ## From new to tried -/

/-- What the loop of `MakeTried` does to the tables and to the other entries. -/
structure Removed (state next : CAddrMan) (n : Int) (info : CAddrInfo) : Prop where
  nKey : next.nKey = state.nKey
  vvTried : next.vvTried = state.vvTried
  nTried : next.nTried = state.nTried
  nNew : next.nNew = state.nNew
  found : ∃ refs, next.mapInfo.lookup n = some { info with nRefCount := refs }
  fewer : ∀ slot, next.vvNew slot = n → state.vvNew slot = n

theorem Held.removeNew (held : state.Held hashOf (fun m => m = n ∨ loose m) gap) {refs : Int}
    (found : state.mapInfo.lookup n = some { info with nRefCount := refs })
    (bucket : Fin addrmanNewBucketCount) :
    (removeNew hashOf info n state bucket).Held hashOf (fun m => m = n ∨ loose m) gap ∧
      Removed state (removeNew hashOf info n state bucket) n info ∧
      (removeNew hashOf info n state bucket).vvNew (info.newSlot hashOf state.nKey bucket) ≠ n := by
  have used := held.tabled.nameable found
  unfold CAddrMan.removeNew
  dsimp only
  split
  case isTrue here =>
    have unplaced := held.tabled.unplace here found
    refine ⟨⟨held.indexed.update rfl rfl rfl (fun _ => rfl) fun _ => rfl,
      unplaced.loosen fun _ _ _ isLoose => ?_⟩, ⟨rfl, rfl, rfl, rfl, ⟨refs - 1, ?_⟩, fun slot there => ?_⟩,
      ?_⟩
    · rcases isLoose with same | before
      · exact Or.inl same
      · exact before
    · change (state.updateInfo n _).mapInfo.lookup n = _
      rw [lookup_updateInfo, if_pos rfl, found]
      rfl
    · by_cases same : slot = info.newSlot hashOf state.nKey bucket
      · exact same ▸ here
      · dsimp only at there
        rw [update_of_ne same] at there
        exact there
    · dsimp only
      rw [update_self]
      exact Ne.symm used
  case isFalse elsewhere =>
    exact ⟨held, ⟨rfl, rfl, rfl, rfl, ⟨refs, found⟩, fun _ there => there⟩, elsewhere⟩

theorem Held.removeBuckets (buckets : List (Fin addrmanNewBucketCount))
    (held : state.Held hashOf (fun m => m = n ∨ loose m) gap) {refs : Int}
    (found : state.mapInfo.lookup n = some { info with nRefCount := refs }) :
    (buckets.foldl (CAddrMan.removeNew hashOf info n) state).Held hashOf
        (fun m => m = n ∨ loose m) gap ∧
      Removed state (buckets.foldl (CAddrMan.removeNew hashOf info n) state) n info ∧
      ∀ bucket ∈ buckets, (buckets.foldl (CAddrMan.removeNew hashOf info n) state).vvNew
        (info.newSlot hashOf state.nKey bucket) ≠ n := by
  induction buckets generalizing state refs with
  | nil =>
    exact ⟨held, ⟨rfl, rfl, rfl, rfl, ⟨refs, found⟩, fun _ there => there⟩,
      fun _ inside => absurd inside not_mem_nil⟩
  | cons bucket rest ih =>
    rw [foldl_cons]
    obtain ⟨heldOne, one, free⟩ := held.removeNew found bucket
    obtain ⟨_, foundOne⟩ := one.found
    obtain ⟨heldAll, all, others⟩ := ih heldOne foundOne
    refine ⟨heldAll, ⟨all.nKey.trans one.nKey, all.vvTried.trans one.vvTried,
      all.nTried.trans one.nTried, all.nNew.trans one.nNew, all.found,
      fun slot there => one.fewer slot (all.fewer slot there)⟩, fun other inside => ?_⟩
    rw [one.nKey] at others
    rcases mem_cons.mp inside with rfl | later
    · exact fun there => free (all.fewer _ there)
    · exact others other later

/-- After the loop the entry is in no new bucket. -/
theorem Held.removeAllNew (held : state.Held hashOf loose gap)
    (found : state.mapInfo.lookup n = some info) :
    (removeAllNew hashOf info n state).Held hashOf (fun m => m = n ∨ loose m) gap ∧
      Removed state (removeAllNew hashOf info n state) n info ∧
      (removeAllNew hashOf info n state).mapInfo.lookup n = some { info with nRefCount := 0 } := by
  have start : state.Held hashOf (fun m => m = n ∨ loose m) gap :=
    ⟨held.indexed, held.tabled.loosen fun _ _ _ isLoose => Or.inr isLoose⟩
  obtain ⟨heldAll, all, free⟩ := @Held.removeBuckets _ _ _ _ _ info
    (finRange addrmanNewBucketCount) start info.nRefCount found
  unfold CAddrMan.removeAllNew
  generalize (finRange addrmanNewBucketCount).foldl (CAddrMan.removeNew hashOf info n) state =
    next at heldAll all free ⊢
  obtain ⟨refs, foundAll⟩ := all.found
  refine ⟨heldAll, all, ?_⟩
  have nowhere : holders next.vvNew n = 0 := by
    rw [holders_eq_zero]
    intro slot here
    have used : next.vvNew slot ≠ -1 := by
      rw [here]
      exact held.tabled.nameable found
    obtain ⟨other, foundOther, place⟩ := heldAll.tabled.newSlot used
    rw [here, foundAll] at foundOther
    cases foundOther
    rw [all.nKey] at place
    have place : info.newSlot hashOf state.nKey slot.1 = slot := place
    refine free slot.1 (mem_finRange _) ?_
    rw [place]
    exact here
  have zero := (heldAll.tabled.stands foundAll).refs
  rw [nowhere] at zero
  have none_left : refs = 0 := zero.symm
  rw [foundAll, none_left]

theorem updateInfo_some (found : state.mapInfo.lookup n = some info) : state.updateInfo n change =
      { state with mapInfo := state.mapInfo.insert n (change info) } := by
  unfold updateInfo
  rw [found]

theorem updateInfo_congr {change other : CAddrInfo → CAddrInfo}
    (found : state.mapInfo.lookup n = some info) (same : change info = other info) :
    state.updateInfo n change = state.updateInfo n other := by
  rw [updateInfo_some found, updateInfo_some found, same]

/-- The move back to new leaves alone every entry without references. -/
theorem Held.evict (held : state.Held hashOf loose gap) (slot : TriedSlot) :
    ∃ next, state.evict hashOf slot = some next ∧ next.Held hashOf loose gap ∧
      next.nKey = state.nKey ∧ next.vvTried slot = -1 ∧ next.nTried ≤ state.nTried ∧
      ∀ m info, state.mapInfo.lookup m = some info → info.fInTried = false → info.nRefCount = 0 →
        Spared state next m := by
  unfold CAddrMan.evict
  dsimp only
  by_cases empty : state.vvTried slot = -1
  · rw [if_pos empty]
    exact ⟨state, rfl, held, rfl, empty, Int.le_refl _, fun m _ _ _ _ => Spared.refl state m⟩
  rw [if_neg empty]
  obtain ⟨infoOld, found, _, _⟩ := held.tabled.triedSlot.mp ⟨empty, rfl⟩
  rw [found]
  dsimp only
  obtain ⟨flag, untried⟩ := held.tabled.untry rfl found
  generalize evicted_eq : ({ state.updateInfo (state.vvTried slot) fun info =>
    { info with fInTried := false } with
      vvTried := Function.update state.vvTried slot (-1)
      nTried := state.nTried - 1 } : CAddrMan) = evicted at untried
  have foundEvicted : evicted.mapInfo.lookup (state.vvTried slot) =
      some { infoOld with fInTried := false } := by
    rw [← evicted_eq]
    change (state.updateInfo _ _).mapInfo.lookup _ = _
    rw [lookup_updateInfo, if_pos rfl, found]
    rfl
  have indexed : evicted.Indexed := by
    rw [← evicted_eq]
    exact held.indexed.update rfl rfl rfl (fun _ => rfl) fun _ => rfl
  generalize newSlot_eq : infoOld.newSlot hashOf state.nKey
    (infoOld.getNewBucket hashOf state.nKey infoOld.source) = newSlot
  obtain ⟨cleared, ran, heldCleared, effect⟩ := Held.clearNew ⟨indexed, untried⟩ newSlot
  rw [ran]
  dsimp only
  rw [if_neg (not_not.mpr effect.here)]
  have bare := ((held.tabled.stands found).tried flag).1
  -- the entry that is moved has no references, so it is not what the slot held
  have apart : ∀ m info, evicted.mapInfo.lookup m = some info → info.nRefCount = 0 →
      m ≠ evicted.vvNew newSlot := by
    intro m info foundM zero same
    have more := (untried.held same.symm foundM).1
    omega
  obtain ⟨place, foundCleared⟩ := (effect.spared _ (apart _ _ foundEvicted bare)).some foundEvicted
  have nKey : cleared.nKey = state.nKey := by
    rw [effect.nKey, ← evicted_eq]
    rfl
  have bucket : infoOld.newSlot hashOf cleared.nKey newSlot.1 = newSlot := by
    rw [nKey, ← newSlot_eq]
    rfl
  have tightened : ∀ m, m ≠ state.vvTried slot → m = state.vvTried slot ∨ loose m → loose m :=
    fun m differ isLoose => isLoose.resolve_left differ
  have placed := heldCleared.tabled.place effect.here foundCleared rfl bucket
    (by rw [bare]; decide) tightened
  have once : (cleared.updateInfo (state.vvTried slot) fun info => { info with nRefCount := 1 }) =
      cleared.updateInfo (state.vvTried slot) fun info => { info with nRefCount := info.nRefCount + 1 } := by
    refine updateInfo_congr foundCleared ?_
    dsimp only
    rw [bare]
    rfl
  rw [once]
  refine ⟨_, rfl, ⟨heldCleared.indexed.update rfl rfl rfl (fun _ => rfl) fun _ => rfl, placed.named,
    placed.triedSlot, placed.newSlot, placed.stands, placed.nTried, ?_⟩, nKey, ?_, ?_,
    fun m info foundM new zero => ?_⟩
  · refine placed.nNew.trans ?_
    change cleared.nNew + (gap + 1) = cleared.nNew + 1 + gap
    omega
  · change cleared.vvTried slot = -1
    rw [effect.vvTried, ← evicted_eq]
    exact update_self _ _ _
  · change cleared.nTried ≤ state.nTried
    rw [effect.nTried, ← evicted_eq]
    exact Int.sub_le_self _ (by decide)
  · have differ : m ≠ state.vvTried slot := by
      rintro rfl
      cases found.symm.trans foundM
      cases flag.symm.trans new
    have foundAfter : evicted.mapInfo.lookup m = some info := by
      rw [← evicted_eq]
      change (state.updateInfo _ _).mapInfo.lookup _ = _
      rw [lookup_updateInfo, if_neg differ, foundM]
    have first : Spared state evicted m := by
      rw [← evicted_eq]
      exact spared_updateInfo differ
    exact (first.trans (effect.spared m (apart m info foundAfter zero))).trans
      (spared_updateInfo differ)

theorem Held.makeTried (held : state.Held hashOf loose gap)
    (found : state.mapInfo.lookup n = some info) (untried : info.fInTried = false)
    (success : info.nLastSuccess ≠ 0) :
    ∃ next, state.makeTried hashOf n = some next ∧ next.Held hashOf loose gap ∧
      next.nKey = state.nKey := by
  unfold CAddrMan.makeTried
  rw [found]
  dsimp only
  obtain ⟨heldAll, all, foundAll⟩ := held.removeAllNew found
  generalize CAddrMan.removeAllNew hashOf info n state = removed at heldAll all foundAll ⊢
  generalize uncounted_eq : ({ removed with nNew := removed.nNew - 1 } : CAddrMan) = uncounted
  have foundUncounted : uncounted.mapInfo.lookup n = some { info with nRefCount := 0 } := by
    rw [← uncounted_eq]
    exact foundAll
  have heldUncounted : uncounted.Held hashOf (fun m => m = n ∨ loose m) (gap + 1) := by
    rw [← uncounted_eq]
    obtain ⟨⟨placed, mapAddr⟩, tabled⟩ := heldAll
    refine ⟨⟨placed, mapAddr⟩, tabled.named, tabled.triedSlot, tabled.newSlot, tabled.stands,
      tabled.nTried, ?_⟩
    have count := tabled.nNew
    dsimp only
    omega
  have bare : uncounted.refCount n = 0 := by
    unfold CAddrMan.refCount
    rw [foundUncounted]
    rfl
  rw [if_neg (not_not.mpr bare)]
  obtain ⟨evicted, ran, heldEvicted, nKey, empty, _, spared⟩ :=
    heldUncounted.evict (info.triedSlot hashOf state.nKey)
  rw [ran]
  dsimp only
  rw [if_neg (not_not.mpr empty)]
  obtain ⟨place, foundEvicted⟩ := (spared n _ foundUncounted untried rfl).some foundUncounted
  have sameKey : evicted.nKey = state.nKey := by
    rw [nKey, ← uncounted_eq]
    exact all.nKey
  have slot : info.triedSlot hashOf evicted.nKey = info.triedSlot hashOf state.nKey := by
    rw [sameKey]
  have tightened : ∀ m, m ≠ n → m = n ∨ loose m → loose m :=
    fun m differ isLoose => isLoose.resolve_left differ
  have tabled := heldEvicted.tabled.tryEntry empty foundEvicted untried slot rfl success tightened
  rw [Int.add_sub_cancel] at tabled
  exact ⟨_, rfl, ⟨heldEvicted.indexed.update rfl rfl rfl (fun _ => rfl) fun _ => rfl, tabled⟩, sameKey⟩

/-! ## The calls -/

/-- What holds between calls. -/
structure Sound (hashOf : List UInt8 → Uint256) (state : CAddrMan) : Prop where
  held : state.Held hashOf (fun _ => False) 0
  key : state.nKey ≠ 0

theorem find_some (indexed : state.Indexed) {addr : CNetAddr}
    (found : state.find addr = some (n, info)) :
    state.mapInfo.lookup n = some info ∧ info.toCNetAddr = addr := by
  unfold CAddrMan.find at found
  cases known : state.mapAddr.lookup addr with
  | none =>
    rw [known] at found
    cases found
  | some other =>
    rw [known] at found
    obtain ⟨infoToo, here, same⟩ := map_eq_some_iff.mp found
    cases same
    obtain ⟨infoAgain, hereToo, address⟩ := (indexed.mapAddr _ _).mp known
    cases here.symm.trans hereToo
    exact ⟨here, address⟩

theorem find_none (indexed : state.Indexed) {addr : CNetAddr} (unknown : state.find addr = none) :
    state.mapAddr.lookup addr = none := by
  unfold CAddrMan.find at unknown
  cases known : state.mapAddr.lookup addr with
  | none => rfl
  | some n =>
    obtain ⟨info, here, _⟩ := (indexed.mapAddr _ _).mp known
    rw [known] at unknown
    dsimp only at unknown
    rw [here] at unknown
    cases unknown

theorem Sound.touch (sound : state.Sound hashOf) (found : state.mapInfo.lookup n = some info)
    (touches : Touches change info)
    (position : ∀ info, (change info).nRandomPos = info.nRandomPos)
    (address : ∀ info, (change info).toCNetAddr = info.toCNetAddr) :
    (state.updateInfo n change).Sound hashOf :=
  ⟨⟨sound.held.indexed.update rfl rfl rfl position address,
    sound.held.tabled.touch found touches⟩, sound.key⟩

variable {nTime : BitVec 64}

theorem toInt_ne_zero (positive : 0 < nTime.toInt) : nTime ≠ 0 := by
  rintro rfl
  exact absurd positive (by decide)

theorem Sound.good (sound : state.Sound hashOf) (addr : CService) (positive : 0 < nTime.toInt)
    (nRand : Nat) :
    ∃ next, state.good hashOf addr nTime nRand = some next ∧ next.Sound hashOf := by
  unfold CAddrMan.good
  cases found : state.find addr.toCNetAddr with
  | none => exact ⟨state, rfl, sound⟩
  | some pair =>
    obtain ⟨nId, info⟩ := pair
    obtain ⟨here, _⟩ := find_some sound.held.indexed found
    dsimp only
    split
    case isTrue => exact ⟨state, rfl, sound⟩
    have updated : (state.updateInfo nId fun info =>
        { info with nLastSuccess := nTime, nLastTry := nTime, nAttempts := 0 }).Sound hashOf :=
      sound.touch here ⟨rfl, rfl, rfl, fun _ => toInt_ne_zero positive,
        fun _ => Int.le_of_lt positive, fun _ => Int.le_of_lt positive⟩ (fun _ => rfl) fun _ => rfl
    split
    case isTrue => exact ⟨_, rfl, updated⟩
    case isFalse untried =>
      split
      case isFalse => exact ⟨_, rfl, updated⟩
      case isTrue =>
        have hereUpdated : (state.updateInfo nId fun info =>
            { info with nLastSuccess := nTime, nLastTry := nTime, nAttempts := 0 }).mapInfo.lookup nId =
              some { info with nLastSuccess := nTime, nLastTry := nTime, nAttempts := 0 } := by
          rw [lookup_updateInfo, if_pos rfl, here]
          rfl
        obtain ⟨next, ran, held, nKey⟩ := updated.held.makeTried hereUpdated
          (Bool.not_eq_true _ ▸ untried) (toInt_ne_zero positive)
        exact ⟨next, ran, held, nKey ▸ sound.key⟩

/-- An entry that may be loose is put into a bucket, or is deleted. -/
theorem Held.insertNew (held : state.Held hashOf (fun m => m = n) gap)
    (found : state.mapInfo.lookup n = some info) (untried : info.fInTried = false)
    (room : info.nRefCount < addrmanNewBucketsPerAddress) (source : CNetAddr) (nNow : Int) :
    ∃ next, state.insertNew hashOf n source nNow = some next ∧
      next.Held hashOf (fun _ => False) gap ∧ next.nKey = state.nKey := by
  -- an entry with references is not loose
  have tighten : info.nRefCount ≠ 0 → state.Held hashOf (fun _ => False) gap := by
    refine fun refs => ⟨held.indexed, held.tabled.loosen fun {m infoM} foundM _ zero same => ?_⟩
    subst same
    cases found.symm.trans foundM
    exact refs zero
  unfold CAddrMan.insertNew
  rw [found]
  dsimp only
  generalize slot_eq : info.newSlot hashOf state.nKey
    (info.getNewBucket hashOf state.nKey source) = slot
  by_cases here : state.vvNew slot = n
  · rw [if_pos here]
    have more := (held.tabled.held here found).1
    exact ⟨state, rfl, tighten (by omega), rfl⟩
  rw [if_neg here]
  split
  case isTrue =>
    obtain ⟨cleared, ran, heldCleared, effect⟩ := held.clearNew slot
    obtain ⟨place, foundCleared⟩ := (effect.spared n (Ne.symm here)).some found
    have bucket : info.newSlot hashOf cleared.nKey slot.1 = slot := by
      rw [effect.nKey, ← slot_eq]
      rfl
    rw [ran]
    exact ⟨_, rfl, ⟨heldCleared.indexed.update rfl rfl rfl (fun _ => rfl) fun _ => rfl,
      heldCleared.tabled.place effect.here foundCleared untried bucket room fun m differ same =>
        differ same⟩, effect.nKey⟩
  case isFalse =>
    by_cases bare : info.nRefCount = 0
    · rw [if_pos bare]
      obtain ⟨next, ran, heldNext, effect⟩ := held.delete found untried bare
      refine ⟨next, ran, ⟨heldNext.indexed, heldNext.tabled.loosen ?_⟩, effect.tables.nKey⟩
      rintro m infoM foundM _ _ rfl
      cases foundM.symm.trans effect.gone
    · rw [if_neg bare]
      exact ⟨state, rfl, tighten bare, rfl⟩

theorem Held.create (held : state.Held hashOf (fun _ => False) gap) {addr : CAddress}
    (unknown : state.find addr.toCNetAddr = none) (addrSource : CNetAddr)
    (fresh : state.mapInfo.lookup state.nIdCount.toInt = none)
    (used : state.nIdCount.toInt ≠ -1) :
    (state.create addr addrSource).Held hashOf (fun m => m = state.nIdCount.toInt) (gap + 1) := by
  refine ⟨?_, ?_⟩
  · exact @Indexed.enter state _ { CAddrInfo.make addr addrSource with
      nRandomPos := state.vRandom.length } held.indexed _ fresh (find_none held.indexed unknown) rfl rfl
        rfl rfl
  · have counted : (state.create addr addrSource).nNew + (gap + 1) = state.nNew + gap + 1 :=
      (Int.add_assoc _ _ _).symm
    have made : (state.create addr addrSource).mapInfo = state.mapInfo.insert state.nIdCount.toInt
      { CAddrInfo.make addr addrSource with nRandomPos := state.vRandom.length } := rfl
    have entered := held.tabled.enter fresh used made rfl rfl rfl rfl counted rfl rfl (Int.le_refl 0)
      (Int.le_refl 0)
    exact entered.loosen fun _ _ _ isLoose => isLoose.resolve_right id

/-- The id that `Create` would give to an address is in use nowhere, and is not
the mark of an empty slot. -/
def FreshId (state : CAddrMan) : AddrManCall → Prop
  | .add addr _ _ _ => addr.isRoutable = true → state.find addr.toCNetAddr = none →
      state.mapInfo.lookup state.nIdCount.toInt = none ∧ state.nIdCount.toInt ≠ -1
  | _ => True

theorem Sound.add (sound : state.Sound hashOf) (addr : CAddress) (source : CNetAddr)
    (nTimePenalty : Int) (draws : AddDraws)
    (fresh : state.FreshId (.add addr source nTimePenalty draws)) :
    ∃ next, state.add hashOf addr source nTimePenalty draws = some next ∧ next.1.Sound hashOf := by
  unfold CAddrMan.add
  cases routable : addr.isRoutable with
  | false => exact ⟨(state, false), rfl, sound⟩
  | true =>
    rw [Bool.not_true, if_neg Bool.false_ne_true]
    cases found : state.find addr.toCNetAddr with
    | some pair =>
      obtain ⟨nId, known⟩ := pair
      obtain ⟨here, _⟩ := find_some sound.held.indexed found
      dsimp only
      have updated : (state.updateInfo nId fun _ =>
          refresh known addr nTimePenalty draws.nNow).Sound hashOf := by
        rw [@updateInfo_congr state nId known (fun _ => refresh known addr nTimePenalty draws.nNow)
          (fun info => refresh info addr nTimePenalty draws.nNow) here rfl]
        exact sound.touch here ⟨rfl, rfl, rfl, id, id, id⟩ (fun _ => rfl) fun _ => rfl
      split
      case isTrue => exact ⟨_, rfl, updated⟩
      split
      case isTrue => exact ⟨_, rfl, updated⟩
      next untried =>
      split
      case isTrue => exact ⟨_, rfl, updated⟩
      next room =>
      split
      case isTrue => exact ⟨_, rfl, updated⟩
      have hereUpdated : (state.updateInfo nId fun _ =>
          refresh known addr nTimePenalty draws.nNow).mapInfo.lookup nId =
            some (refresh known addr nTimePenalty draws.nNow) := by
        rw [lookup_updateInfo, if_pos rfl, here]
        rfl
      have untried : known.fInTried = false := Bool.not_eq_true _ ▸ untried
      have high := (sound.held.tabled.stands here).high
      have room : known.nRefCount < addrmanNewBucketsPerAddress := lt_of_le_of_ne high room
      have loose : (state.updateInfo nId fun _ =>
          refresh known addr nTimePenalty draws.nNow).Held hashOf (fun m => m = nId) 0 :=
        ⟨updated.held.indexed, updated.held.tabled.loosen fun _ _ _ impossible => impossible.elim⟩
      obtain ⟨next, ran, held, nKey⟩ := loose.insertNew hereUpdated untried room source draws.nNowToo
      rw [ran]
      exact ⟨_, rfl, held, nKey ▸ sound.key⟩
    | none =>
      dsimp only
      obtain ⟨free, used⟩ := fresh routable found
      have created := sound.held.create found source free used
      have here : (state.create addr source).mapInfo.lookup state.nIdCount.toInt =
          some { CAddrInfo.make addr source with nRandomPos := state.vRandom.length } :=
        lookup_insert _
      let nTimeOf := fun info : CAddrInfo =>
        { info with nTime := BitVec.ofInt 32 (max 0 (info.nTime.toNat - nTimePenalty)) }
      have touched : ((state.create addr source).updateInfo state.nIdCount.toInt nTimeOf).Tabled
          hashOf _ _ := created.tabled.touch here ⟨rfl, rfl, rfl, id, id, id⟩
      have counted : CAddrMan.Held hashOf
          { (state.create addr source).updateInfo state.nIdCount.toInt nTimeOf with
            nNew := state.nNew + 1 } (fun m => m = state.nIdCount.toInt) 0 := by
        refine ⟨created.indexed.update rfl rfl rfl (fun _ => rfl) fun _ => rfl, touched.named,
          touched.triedSlot, touched.newSlot, touched.stands, touched.nTried, ?_⟩
        refine touched.nNew.trans ?_
        change state.nNew + (0 + 1) = state.nNew + 1 + 0
        omega
      have hereCounted : ((state.create addr source).updateInfo state.nIdCount.toInt
          nTimeOf).mapInfo.lookup state.nIdCount.toInt =
            some (nTimeOf { CAddrInfo.make addr source with nRandomPos := state.vRandom.length }) := by
        rw [lookup_updateInfo, if_pos rfl, here]
        rfl
      have room : (0 : Int) < addrmanNewBucketsPerAddress := by decide
      obtain ⟨next, ran, held, nKey⟩ := counted.insertNew hereCounted rfl room source
        draws.nNowToo
      exact ⟨(next, true), congrArg (Option.map fun next => (next, true)) ran, held,
        nKey ▸ sound.key⟩

theorem Sound.attempt (sound : state.Sound hashOf) (addr : CService) (positive : 0 < nTime.toInt) :
    (state.attempt addr nTime).Sound hashOf := by
  unfold CAddrMan.attempt
  cases found : state.find addr.toCNetAddr with
  | none => exact sound
  | some pair =>
    obtain ⟨here, _⟩ := find_some sound.held.indexed found
    dsimp only
    split
    · exact sound
    · exact sound.touch here ⟨rfl, rfl, rfl, id, fun _ => Int.le_of_lt positive, id⟩ (fun _ => rfl)
        fun _ => rfl

theorem Sound.connected (sound : state.Sound hashOf) (addr : CService) (nTime : BitVec 64) :
    (state.connected addr nTime).Sound hashOf := by
  unfold CAddrMan.connected
  cases found : state.find addr.toCNetAddr with
  | none => exact sound
  | some pair =>
    obtain ⟨here, _⟩ := find_some sound.held.indexed found
    dsimp only
    split
    · exact sound
    · split
      · exact sound.touch here ⟨rfl, rfl, rfl, id, id, id⟩ (fun _ => rfl) fun _ => rfl
      · exact sound

/-- The address under an id. -/
def addressAt (state : CAddrMan) (n : Int) : Option CAddress :=
  (state.mapInfo.lookup n).map (·.toCAddress)

theorem take_swapRandom {first i j : Nat} (swapped : state.swapRandom i j = some next)
    (low : first ≤ i) (high : first ≤ j) : next.vRandom.take first = state.vRandom.take first := by
  unfold CAddrMan.swapRandom at swapped
  split at swapped
  · cases swapped
    rfl
  split at swapped
  · split at swapped
    · cases swapped
      dsimp only
      rw [take_set_of_le high, take_set_of_le low]
    · cases swapped
  · cases swapped

/-- The loop of `GetAddr_` takes addresses off the front of `vRandom`, where it no longer swaps. -/
theorem listed_getAddrFrom (draws : Nat → Nat) (nNow : Nat → Int) (nNodes : Nat)
    {fuel first : Nat} (sound : state.Sound hashOf) (inside : first + fuel = state.vRandom.length)
    {vAddr : List CAddress} (few : vAddr.length ≤ nNodes)
    (listed : vAddr.map some <+ (state.vRandom.take first).map state.addressAt) :
    ∃ next found, getAddrFrom draws nNow nNodes fuel first state vAddr = some (next, found) ∧
      found.length ≤ nNodes ∧ next.addressAt = state.addressAt ∧ next.Sound hashOf ∧
      found.map some <+ next.vRandom.map next.addressAt := by
  induction fuel generalizing state first vAddr with
  | zero =>
    exact ⟨state, vAddr, rfl, few, rfl, sound, listed.trans ((take_sublist _ _).map _)⟩
  | succ fuel ih =>
    unfold CAddrMan.getAddrFrom
    split
    · exact ⟨state, vAddr, rfl, few, rfl, sound, listed.trans ((take_sublist _ _).map _)⟩
    next more =>
    have here : first < state.vRandom.length := by omega
    have second : draws first % (state.vRandom.length - first) + first < state.vRandom.length := by
      have small := Nat.mod_lt (draws first) (Nat.sub_pos_of_lt here)
      omega
    obtain ⟨swapped, ran, held, effect, _⟩ := sound.held.swapRandom here second
    have same : swapped.addressAt = state.addressAt := by
      funext m
      obtain ⟨place, kept⟩ := effect.spared m
      rw [addressAt, addressAt, kept, Option.map_map]
      rfl
    rw [← same, ← take_swapRandom ran (Nat.le_refl first) (Nat.le_add_left first _)] at listed
    have there := getElem?_eq_getElem (effect.length.symm ▸ here)
    obtain ⟨ai, found, _⟩ := map_eq_some_iff.mp (held.indexed.placed.get_iff.mp there)
    rw [ran]
    dsimp only
    rw [there, bind_some, found, ← same]
    refine ih ⟨held, effect.tables.nKey ▸ sound.key⟩ (by rw [effect.length]; omega) ?_ ?_
    · split
      · exact few
      · rw [length_append, length_singleton]
        omega
    · rw [take_add_one, there, map_append]
      split
      · exact listed.trans (sublist_append_left _ _)
      · rw [map_append]
        refine listed.append ?_
        simp [addressAt, found]

/-- Two ids have no address in common. -/
theorem Sound.inj_addressAt (sound : state.Sound hashOf) {n m : Int} {addr : CNetAddr}
    (first : (state.addressAt n).map (·.toCNetAddr) = some addr)
    (second : (state.addressAt m).map (·.toCNetAddr) = some addr) : n = m := by
  have named : ∀ {n}, (state.addressAt n).map (·.toCNetAddr) = some addr →
      state.mapAddr.lookup addr = some n := by
    intro n here
    rw [addressAt, Option.map_map] at here
    obtain ⟨info, found, same⟩ := map_eq_some_iff.mp here
    exact (sound.held.indexed.mapAddr addr n).mpr ⟨info, found, same⟩
  exact Option.some.inj ((named first).symm.trans (named second))

/-- Addresses of the manager, no two of them the same. -/
structure Handed (state : CAddrMan) (vAddr : List CAddress) : Prop where
  known : ∀ addr ∈ vAddr, ∃ n, state.addressAt n = some addr
  distinct : (vAddr.map (·.toCNetAddr)).Nodup

theorem Sound.handed (sound : state.Sound hashOf) {vAddr : List CAddress}
    (listed : vAddr.map some <+ state.vRandom.map state.addressAt) : state.Handed vAddr := by
  obtain ⟨ids, front, same⟩ := sublist_map_iff.mp listed
  constructor
  · intro addr inside
    obtain ⟨n, _, here⟩ := mem_map.mp (same ▸ mem_map_of_mem inside)
    exact ⟨n, here⟩
  · have names : (vAddr.map (·.toCNetAddr)).map some =
        ids.map fun n => (state.addressAt n).map (·.toCNetAddr) := by
      have mapped := congrArg (List.map (Option.map (·.toCNetAddr))) same
      rw [List.map_map, List.map_map] at mapped
      rwa [List.map_map]
    refine Nodup.of_map some (names ▸ Nodup.map_on (fun n inside m _ alike => ?_)
      (sound.held.indexed.placed.nodup.sublist front))
    obtain ⟨addr, _, here⟩ := mem_map.mp (same ▸ mem_map_of_mem inside)
    have named : (state.addressAt n).map (·.toCNetAddr) = some addr.toCNetAddr := by
      rw [← here, Option.map_some]
    exact sound.inj_addressAt named (alike ▸ named)

theorem Sound.getAddr (sound : state.Sound hashOf) (draws : Nat → Nat) (nNow : Nat → Int) :
    ∃ next vAddr, state.getAddr draws nNow = some (next, vAddr) ∧ next.Sound hashOf ∧
      state.Handed vAddr ∧ vAddr.length ≤ min (23 * state.vRandom.length / 100) 2500 := by
  obtain ⟨next, vAddr, ran, few, same, soundNext, listed⟩ := listed_getAddrFrom draws nNow
    (min (23 * state.vRandom.length / 100) 2500) sound (Nat.zero_add _)
    (show length ([] : List CAddress) ≤ _ from Nat.zero_le _) (nil_sublist _)
  obtain ⟨known, distinct⟩ := soundNext.handed listed
  exact ⟨next, vAddr, ran, soundNext, ⟨same ▸ known, distinct⟩, few⟩

/-- Each slot in use has an entry, so a table hands out addresses that the manager holds. -/
theorem selectFrom_known {Slot : Type} {table : Slot → Int}
    (known : ∀ slot, table slot ≠ -1 → state.mapInfo.lookup (table slot) ≠ none)
    (draws : List (Slot × Bool)) : ∃ result, state.selectFrom table draws = some result ∧
      ∀ addr ∈ result, ∃ n, state.addressAt n = some addr := by
  induction draws with
  | nil => exact ⟨none, rfl, nofun⟩
  | cons draw rest ih =>
    obtain ⟨slot, passes⟩ := draw
    unfold CAddrMan.selectFrom
    split
    · exact ih
    · next used =>
        obtain ⟨info, found⟩ := ne_none_iff_exists'.mp (known slot used)
        rw [found]
        dsimp only
        split
        · refine ⟨_, rfl, fun addr same => ⟨table slot, ?_⟩⟩
          rw [addressAt, found]
          exact same
        · exact ih

theorem Sound.select (sound : state.Sound hashOf) (nRand : Nat)
    (triedDraws : List (TriedSlot × Bool)) (newDraws : List (NewSlot × Bool)) :
    ∃ result, state.select nRand triedDraws newDraws = some result ∧
      (state.vRandom ≠ [] → ∀ addr ∈ result, ∃ n, state.addressAt n = some addr) := by
  unfold CAddrMan.select
  split
  · next none_ => exact ⟨_, rfl, fun more => absurd (length_eq_zero_iff.mp none_) more⟩
  split
  · refine (selectFrom_known (fun slot used => ?_) triedDraws).imp fun _ found =>
      ⟨found.1, fun _ => found.2⟩
    obtain ⟨info, found, _⟩ := sound.held.tabled.triedSlot.mp ⟨used, rfl⟩
    rw [found]
    exact some_ne_none info
  · exact (selectFrom_known (fun slot used => sound.held.tabled.lookup_ne used) newDraws).imp
      fun _ found => ⟨found.1, fun _ => found.2⟩

/-! ## Every sequence of calls -/

theorem Sound.call (sound : state.Sound hashOf) (call : AddrManCall) (timed : call.Timed)
    (fresh : state.FreshId call) :
    ∃ next, state.call hashOf call = some next ∧ next.Sound hashOf := by
  cases call with
  | add addr source nTimePenalty draws =>
    obtain ⟨next, ran, soundNext⟩ := sound.add addr source nTimePenalty draws fresh
    exact ⟨next.1, congrArg (Option.map Prod.fst) ran, soundNext⟩
  | good addr nTime nRand => exact sound.good addr timed nRand
  | attempt addr nTime => exact ⟨_, rfl, sound.attempt addr timed⟩
  | connected addr nTime => exact ⟨_, rfl, sound.connected addr nTime⟩
  | getAddr draws nNow =>
    obtain ⟨next, vAddr, ran, soundNext, _⟩ := sound.getAddr draws nNow
    exact ⟨next, congrArg (Option.map Prod.fst) ran, soundNext⟩
  | select nRand triedDraws newDraws =>
    obtain ⟨result, ran, _⟩ := sound.select nRand triedDraws newDraws
    exact ⟨state, congrArg (Option.map fun _ => state) ran, sound⟩

theorem sound_empty {nKey : Uint256} (nonnull : nKey ≠ 0) :
    Sound hashOf { nKey := nKey } := by
  have nothing : ∀ n, (∅ : StdMap Int CAddrInfo).lookup n = none := fun n => rfl
  refine ⟨⟨⟨?_, fun addr n => ?_⟩, ?_⟩, nonnull⟩
  · exact Roster.Placed.empty
  · exact iff_of_false (fun impossible => nomatch impossible) fun found => by
      obtain ⟨_, impossible, _⟩ := found
      cases impossible
  · constructor
    case named => rfl
    case triedSlot =>
      intro slot n
      refine iff_of_false (fun both => both.1 both.2.symm) fun found => ?_
      obtain ⟨_, impossible, _⟩ := found
      cases impossible
    case newSlot => exact fun used => absurd rfl used
    case stands => exact fun found => nomatch found
    case nTried => rfl
    case nNew => rfl

/-- The structures agree between calls. -/
theorem Sound.consistent (sound : state.Sound hashOf) : state.Consistent hashOf := by
  obtain ⟨⟨⟨placed, mapAddr⟩, tabled⟩, key⟩ := sound
  have new_refs : ∀ {n info}, state.mapInfo.lookup n = some info → info.fInTried = false →
      1 ≤ info.nRefCount := by
    intro n info found untried
    have stands := tabled.stands found
    have nonzero := stands.low untried id
    have refs := stands.refs
    omega
  have nameable : ∀ {n info}, state.mapInfo.lookup n = some info → n ≠ -1 :=
    fun found => tabled.nameable found
  have nNew := tabled.nNew
  rw [Int.add_zero] at nNew
  have members : state.vRandom.Perm state.mapInfo.keys := by
    refine (perm_ext_iff_of_nodup placed.nodup state.mapInfo.nodupKeys).mpr fun n => ?_
    rw [mem_iff_getElem?]
    constructor
    · rintro ⟨index, here⟩
      obtain ⟨info, found, _⟩ := map_eq_some_iff.mp (placed.get_iff.mp here)
      exact AList.mem_keys.mp (mem_of_lookup found)
    · intro inside
      obtain ⟨info, found⟩ := isSome_iff_exists.mp
        (lookup_isSome.mpr (AList.mem_keys.mpr inside))
      exact ⟨_, placed.get_of_position (position_eq found)⟩
  have length : state.vRandom.length = state.mapInfo.entries.length := by
    rw [members.length_eq]
    exact length_map _
  have split := @length_eq_countP_add_countP _ (fun entry : Sigma fun _ : Int => CAddrInfo =>
    entry.2.fInTried) state.mapInfo.entries
  refine ⟨?_, fun {n info} found => ?_, tabled.nTried, nNew, fun {slot} used => ?_,
    fun {n info} found tried => ?_, fun {slot} used => ?_, fun {n info} found untried => ?_, key⟩
  · have nTried := tabled.nTried
    have newEq : newCount state.mapInfo.entries = state.mapInfo.entries.countP fun entry =>
        decide ¬ entry.2.fInTried = true := by
      refine countP_congr fun entry _ => ?_
      cases entry.2.fInTried <;> decide
    rw [newEq] at nNew
    unfold triedCount at nTried
    omega
  · have stands := tabled.stands found
    refine ⟨fun tried => (stands.tried tried).symm, fun untried => ⟨new_refs found untried, stands.high⟩,
      ?_, placed.natural (position_eq found), placed.get_of_position (position_eq found),
      stands.nLastTry, stands.nLastSuccess⟩
    rw [(mapAddr _ _).mpr ⟨info, found, rfl⟩]
    rfl
  · exact tabled.triedSlot.mp ⟨used, rfl⟩
  · exact tabled.triedSlot.mpr ⟨info, found, tried, rfl⟩
  · obtain ⟨info, found, place⟩ := tabled.newSlot used
    exact ⟨info, found, (tabled.held rfl found).2, place⟩
  · exact ⟨nameable found, (tabled.stands found).refs⟩

/-- Along every sequence of calls whose new entries get a free id, no assertion
fails and `Check_` returns zero after each call. -/
theorem check_along_calls {nKey : Uint256} (nonnull : nKey ≠ 0) (calls : List AddrManCall)
    (timed : ∀ call ∈ calls, call.Timed)
    (fresh : Runs.Meets (call hashOf) FreshId { nKey := nKey } calls) :
    Runs.Always (call hashOf) (fun state => state.check hashOf = .ok () ∧ state.Sound hashOf)
      { nKey := nKey } calls := by
  have progress : ∀ state input, Sound hashOf state → input.Timed ∧ FreshId state input →
      ∃ next, CAddrMan.call hashOf state input = some next ∧ Sound hashOf next :=
    fun state input sound met => sound.call input met.1 met.2
  refine Runs.always_of_progress (fun state sound => ⟨check_ok_iff.mpr sound.consistent, sound⟩)
    progress (sound_empty nonnull) ?_
  exact Runs.Meets.and (Runs.Meets.of_mem (fun input member _ => timed input member) _) fresh

/-! ## Ids that run out -/

def ipv4 (a b c d : UInt8) : CAddress where
  toCNetAddr := ⟨CNetAddr.pchIPv4 ++ [a, b, c, d], rfl⟩
  port := 8333

/-- The call that adds an address, at the time it was seen. -/
def addCall (addr : CAddress) : AddrManCall := .add addr CNetAddr.init 0 ⟨100000000, 100000000, 0⟩

theorem check_along_three : Runs.Always (call fun _ => 0)
    (fun state => state.check (fun _ => 0) = .ok () ∧ state.Sound fun _ => 0) { nKey := 1 }
      [addCall (ipv4 8 8 4 4), .good (ipv4 8 8 4 4).toCService 5 0, .getAddr id fun _ => 5] := by
  refine check_along_calls (by decide) _ (fun call inside => ?_)
    ⟨fun _ _ => ⟨rfl, by decide⟩, fun _ _ => ⟨trivial, fun _ _ => ⟨trivial, fun _ _ => trivial⟩⟩⟩
  simp only [mem_cons, not_mem_nil, or_false] at inside
  rcases inside with rfl | rfl | rfl
  · trivial
  · change (0 : Int) < BitVec.toInt 5
    decide
  · trivial

/-- What the manager hands out: `GetAddr` different addresses, at most as many as it may, and
`Select` one that is held, if there is any. -/
structure HandsOut (state : CAddrMan) : Prop where
  getAddr : ∀ draws nNow, ∃ next vAddr, state.getAddr draws nNow = some (next, vAddr) ∧
    state.Handed vAddr ∧ vAddr.length ≤ min (23 * state.vRandom.length / 100) 2500
  select : ∀ nRand triedDraws newDraws, ∃ result,
    state.select nRand triedDraws newDraws = some result ∧
      (state.vRandom ≠ [] → ∀ addr ∈ result, ∃ n, state.addressAt n = some addr)

/-- Along every sequence of calls the manager hands out addresses that it holds. -/
theorem handed_along_calls {nKey : Uint256} (nonnull : nKey ≠ 0) (calls : List AddrManCall)
    (timed : ∀ call ∈ calls, call.Timed)
    (fresh : Runs.Meets (call hashOf) FreshId { nKey := nKey } calls) :
    Runs.Always (call hashOf) HandsOut { nKey := nKey } calls := by
  refine Runs.always_of_progress (fun state sound => ⟨fun draws nNow => ?_, sound.select⟩)
    (fun state input sound met => sound.call input met.1 met.2) (sound_empty nonnull)
    (Runs.Meets.and (Runs.Meets.of_mem (fun input member _ => timed input member) _) fresh)
  obtain ⟨next, vAddr, ran, _, handed⟩ := sound.getAddr draws nNow
  exact ⟨next, vAddr, ran, handed⟩

instance (state : CAddrMan) (call : AddrManCall) : Decidable (state.FreshId call) :=
  match call with
  | .add addr _ _ _ => inferInstanceAs (Decidable (addr.isRoutable = true →
      state.find addr.toCNetAddr = none →
        state.mapInfo.lookup state.nIdCount.toInt = none ∧ state.nIdCount.toInt ≠ -1))
  | .good .. | .attempt .. | .connected .. | .getAddr .. | .select .. => .isTrue trivial

def mixHash (bytes : List UInt8) : Uint256 :=
  bytes.foldl (fun hash byte => hash * 31 + BitVec.ofNat 256 byte.toNat) 7

/-- Six addresses are added, and one of them is good. -/
def sixAdded : List AddrManCall :=
  (finRange 6).map (fun i => addCall (ipv4 (UInt8.ofNat (11 + i)) 8 4 4)) ++
    [.good (ipv4 11 8 4 4).toCService 5 0]

theorem timed_sixAdded : ∀ call ∈ sixAdded, call.Timed := by
  intro call inside
  rcases mem_append.mp inside with added | good
  · obtain ⟨i, _, rfl⟩ := List.mem_map.mp added
    trivial
  · rw [mem_singleton.mp good]
    change (0 : Int) < BitVec.toInt 5
    decide

theorem fresh_sixAdded : Runs.Meets (call mixHash) FreshId { nKey := 1 } sixAdded := by
  decide +kernel

theorem handed_along_six : Runs.Always (call mixHash) HandsOut { nKey := 1 } sixAdded ∧
    ((Runs.run (call mixHash) { nKey := 1 } sixAdded).bind fun state =>
      (state.getAddr id fun _ => 100000000).map fun handed =>
        (state.nNew, state.nTried, handed.2.length)) = some (5, 1, 1) :=
  ⟨handed_along_calls (by decide) _ timed_sixAdded fresh_sixAdded, by decide +kernel⟩

/-- The entry of a first address, in its slot. -/
def firstEntry : CAddrInfo :=
  { CAddrInfo.make (ipv4 8 8 4 4) CNetAddr.init with nRefCount := 1, nRandomPos := 0 }

/-- One address, in a table where every entry is hashed to one slot. -/
def crowded (nIdCount : BitVec 32) : CAddrMan where
  nKey := 1
  nIdCount := nIdCount
  mapInfo := (∅ : StdMap Int CAddrInfo).insert 0 firstEntry
  mapAddr := (∅ : StdMap CNetAddr Int).insert (ipv4 8 8 4 4).toCNetAddr 0
  vRandom := [0]
  nNew := 1
  vvNew := Function.update (fun _ => -1) (0, 0) 0

theorem call_first : call (fun _ => 0) { nKey := 1 } (addCall (ipv4 8 8 4 4)) = some (crowded 1) := by
  rfl

/-- The entry of a second address, when it is made. -/
def secondEntry : CAddrInfo := { CAddrInfo.make (ipv4 8 8 8 8) CNetAddr.init with nRandomPos := 1 }

/-- The state in which the second address looks for a slot. -/
def crowdedMore (nIdCount : BitVec 32) : CAddrMan :=
  { crowded (nIdCount + 1) with
    mapInfo := (crowded nIdCount).mapInfo.insert nIdCount.toInt secondEntry
    mapAddr := (crowded nIdCount).mapAddr.insert (ipv4 8 8 8 8).toCNetAddr nIdCount.toInt
    vRandom := [0, nIdCount.toInt]
    nNew := 2 }

theorem call_second (nIdCount : BitVec 32) :
    call (fun _ => 0) (crowded nIdCount) (addCall (ipv4 8 8 8 8)) =
      (crowdedMore nIdCount).insertNew (fun _ => 0) nIdCount.toInt CNetAddr.init 100000000 := by
  have found : ((crowded nIdCount).create (ipv4 8 8 8 8) CNetAddr.init).mapInfo.lookup
      nIdCount.toInt = some secondEntry := lookup_insert _
  have nIdCount_eq : (crowded nIdCount).nIdCount = nIdCount := rfl
  have made : ((crowded nIdCount).create (ipv4 8 8 8 8) CNetAddr.init).updateInfo nIdCount.toInt
      (fun info => { info with nTime := BitVec.ofInt 32 (max 0 (info.nTime.toNat - 0)) }) =
        { crowdedMore nIdCount with nNew := 1 } := by
    rw [updateInfo_some found]
    unfold create
    dsimp only
    rw [nIdCount_eq, insert_insert]
    rfl
  have routable : (ipv4 8 8 8 8).isRoutable = true := rfl
  have unknown : (crowded nIdCount).find (ipv4 8 8 8 8).toCNetAddr = none := rfl
  unfold call addCall CAddrMan.add
  dsimp only
  rw [routable, unknown, Bool.not_true, if_neg Bool.false_ne_true]
  dsimp only
  rw [nIdCount_eq, made, Option.map_map]
  exact map_id_apply

/-- The second address finds its slot taken, and is deleted. -/
theorem call_again {nIdCount : BitVec 32} (nonzero : nIdCount.toInt ≠ 0) :
    call (fun _ => 0) (crowded nIdCount) (addCall (ipv4 8 8 8 8)) =
      some (crowded (nIdCount + 1)) := by
  have absent : nIdCount.toInt ∉ (crowded nIdCount).mapInfo := by
    unfold crowded
    rw [mem_insert, not_or]
    exact ⟨nonzero, notMem_empty _⟩
  have unnamed : (ipv4 8 8 8 8).toCNetAddr ∉ (crowded nIdCount).mapAddr := by
    unfold crowded
    rw [mem_insert, not_or]
    exact ⟨by decide, notMem_empty _⟩
  have found : (crowdedMore nIdCount).mapInfo.lookup nIdCount.toInt = some secondEntry :=
    lookup_insert _
  have existing : (crowdedMore nIdCount).mapInfo.lookup 0 =
      some firstEntry := by
    unfold crowdedMore
    dsimp only
    rw [lookup_insert_ne (Ne.symm nonzero)]
    rfl
  have slot : secondEntry.newSlot (fun _ => 0) (crowdedMore nIdCount).nKey
      (secondEntry.getNewBucket (fun _ => 0) (crowdedMore nIdCount).nKey CNetAddr.init) = (0, 0) := rfl
  have taken : (crowdedMore nIdCount).vvNew (0, 0) = 0 := rfl
  have stays : ¬ ((0 : Int) = -1 ∨ firstEntry.isTerrible 100000000 = true ∨
      (firstEntry.nRefCount > 1 ∧ secondEntry.nRefCount = 0)) := by decide
  have unreferenced : secondEntry.nRefCount = 0 := rfl
  rw [call_second]
  unfold CAddrMan.insertNew
  rw [found]
  dsimp only
  rw [slot, taken, if_neg (Ne.symm nonzero), existing, getD_some, if_neg stays,
    if_pos unreferenced]
  unfold CAddrMan.delete
  rw [found]
  have same : (crowdedMore nIdCount).swapRandom secondEntry.nRandomPos.toNat
      ((crowdedMore nIdCount).vRandom.length - 1) = some (crowdedMore nIdCount) := rfl
  dsimp only
  rw [same, if_neg (by decide), if_neg (by decide)]
  unfold crowdedMore
  dsimp only
  have address : secondEntry.toCNetAddr = (ipv4 8 8 8 8).toCNetAddr := rfl
  rw [erase_insert absent, address, erase_insert unnamed]
  rfl

theorem run_again {calls : Nat} {nIdCount : BitVec 32} (positive : 0 < nIdCount.toNat)
    (room : nIdCount.toNat + calls ≤ 2 ^ 32) :
    Runs.run (call fun _ => 0) (crowded nIdCount)
      (List.replicate calls (addCall (ipv4 8 8 8 8))) =
        some (crowded (nIdCount + BitVec.ofNat 32 calls)) := by
  induction calls with
  | zero => exact congrArg (fun nIdCount => some (crowded nIdCount)) (BitVec.add_zero nIdCount).symm
  | succ calls ih =>
    have reached : (nIdCount + BitVec.ofNat 32 calls).toNat = nIdCount.toNat + calls := by
      rw [BitVec.toNat_add, BitVec.toNat_ofNat, Nat.add_mod_mod]
      exact Nat.mod_eq_of_lt room
    have nonzero : (nIdCount + BitVec.ofNat 32 calls).toInt ≠ 0 := fun zero => by
      rw [BitVec.eq_of_toInt_eq (zero.trans BitVec.toInt_zero.symm), BitVec.toNat_zero] at reached
      omega
    have ran := ih (Nat.le_of_succ_le room)
    rw [replicate_succ', Runs.run_append, ran, bind_some, Runs.run, call_again nonzero,
      bind_some, Runs.run, BitVec.add_assoc, BitVec.ofNat_add]
    rfl

theorem call_wrapped : call (fun _ => 0) (crowded 0) (addCall (ipv4 8 8 8 8)) = some (crowdedMore 0) := by
  rw [call_second]
  rfl

theorem crowdedMore_inconsistent : (crowdedMore 0).check (fun _ => 0) ≠ .ok () := fun passed => by
  have found : (crowdedMore 0).mapInfo.lookup 0 = some secondEntry := lookup_insert _
  exact absurd (((check_ok_iff.mp passed).entry found).new rfl).1 (by decide)

theorem id_reused : ∃ final, Runs.run (call fun _ => 0) { nKey := 1 }
    (addCall (ipv4 8 8 4 4) :: replicate (2 ^ 32) (addCall (ipv4 8 8 8 8))) = some final ∧
      final.check (fun _ => 0) ≠ .ok () := by
  refine ⟨crowdedMore 0, ?_, crowdedMore_inconsistent⟩
  have again := @run_again (2 ^ 32 - 1) 1 (by decide) (by decide)
  have wrapped : (1 : BitVec 32) + BitVec.ofNat 32 (2 ^ 32 - 1) = 0 := by decide
  rw [wrapped] at again
  have split : 2 ^ 32 = 2 ^ 32 - 1 + 1 := by decide
  rw [Runs.run, call_first, bind_some, split, replicate_succ', Runs.run_append, again,
    bind_some, Runs.run, call_wrapped]
  rfl

end CAddrMan

end CentNode
