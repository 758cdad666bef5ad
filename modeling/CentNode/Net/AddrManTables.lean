import CentNode.Library.Roster
import CentNode.Net.AddrManCheck

/-!
# What every operation of the address manager keeps

Inside an operation an entry can be loose, in no table, and the number of new
entries can be off by a gap.  Each lemma below is one assignment of the source.
-/

namespace CentNode

open Function StdMap Option Bool List

open SlotTable

namespace CAddrMan

/-! ## Entries -/

section Lookups

variable {state : CAddrMan} {n : Int} {change : CAddrInfo → CAddrInfo}

theorem lookup_updateInfo (state : CAddrMan) (n : Int) (change : CAddrInfo → CAddrInfo)
    (other : Int) : (state.updateInfo n change).mapInfo.lookup other =
      if other = n then (state.mapInfo.lookup n).map change else state.mapInfo.lookup other := by
  unfold updateInfo
  cases found : state.mapInfo.lookup n with
  | none =>
    dsimp only
    split
    case isTrue same => rw [same, found, map_none]
    case isFalse => rfl
  | some info =>
    dsimp only
    rw [lookup_insert_ite, map_some]

/-- `nRandomPos` of an id. -/
def position (state : CAddrMan) (n : Int) : Option Int :=
  (state.mapInfo.lookup n).map (·.nRandomPos)

theorem position_eq {info : CAddrInfo} (found : state.mapInfo.lookup n = some info) :
    state.position n = some info.nRandomPos := by
  unfold position
  rw [found]
  rfl

theorem position_updateInfo (keeps : ∀ info, (change info).nRandomPos = info.nRandomPos) :
    (state.updateInfo n change).position = state.position := by
  funext other
  unfold position
  rw [lookup_updateInfo]
  split
  case isTrue same =>
    rw [same, Option.map_map]
    exact congrArg (fun shown => (state.mapInfo.lookup n).map shown) (funext keeps)
  case isFalse => rfl

theorem position_moved {place : Int} {info : CAddrInfo} (found : state.mapInfo.lookup n = some info) :
    (state.updateInfo n fun info => { info with nRandomPos := place }).position =
      Function.update state.position n (some place) := by
  funext other
  unfold position
  rw [lookup_updateInfo]
  split
  case isTrue same =>
    subst same
    rw [update_self, found]
    rfl
  case isFalse differ => rw [update_of_ne differ]

theorem countP_updateInfo {info : CAddrInfo} (found : state.mapInfo.lookup n = some info)
    (property : (Sigma fun _ : Int => CAddrInfo) → Bool) :
    (state.updateInfo n change).mapInfo.entries.countP property +
        (if property ⟨n, info⟩ then 1 else 0) =
      state.mapInfo.entries.countP property + if property ⟨n, change info⟩ then 1 else 0 := by
  have grown := countP_insert state.mapInfo n (change info) property
  have before := StdMap.countP_erase found property
  unfold updateInfo
  rw [found]
  dsimp only
  omega

end Lookups

/-! ## The index of the entries -/

/-- `mapAddr` finds exactly the entries. -/
def Addressed (state : CAddrMan) : Prop :=
  ∀ addr n, state.mapAddr.lookup addr = some n ↔
    ∃ info, state.mapInfo.lookup n = some info ∧ info.toCNetAddr = addr

/-- `vRandom` and `nRandomPos` are inverse, and `mapAddr` finds the entries. -/
structure Indexed (state : CAddrMan) : Prop where
  placed : Roster.Placed state.vRandom state.position
  mapAddr : state.Addressed

/-! ## The tables -/

/-- The fields that say where an entry is. -/
structure Stands (loose : Prop) (held : Nat) (info : CAddrInfo) : Prop where
  refs : (held : Int) = info.nRefCount
  tried : info.fInTried = true → info.nRefCount = 0 ∧ info.nLastSuccess ≠ 0
  low : info.fInTried = false → ¬ loose → info.nRefCount ≠ 0
  high : info.nRefCount ≤ addrmanNewBucketsPerAddress
  nLastTry : 0 ≤ info.nLastTry.toInt
  nLastSuccess : 0 ≤ info.nLastSuccess.toInt

variable (hashOf : List UInt8 → Uint256)

/-- The tables hold the entries that are not loose, and no others. -/
structure Tabled (state : CAddrMan) (loose : Int → Prop) (gap : Int) : Prop where
  named : state.mapInfo.lookup (-1) = none
  triedSlot : ∀ {slot n}, (n ≠ -1 ∧ state.vvTried slot = n) ↔ ∃ info,
    state.mapInfo.lookup n = some info ∧ info.fInTried = true ∧
      info.triedSlot hashOf state.nKey = slot
  newSlot : ∀ {slot}, state.vvNew slot ≠ -1 → ∃ info,
    state.mapInfo.lookup (state.vvNew slot) = some info ∧
      info.newSlot hashOf state.nKey slot.1 = slot
  stands : ∀ {n info}, state.mapInfo.lookup n = some info →
    Stands (loose n) (holders state.vvNew n) info
  nTried : (triedCount state.mapInfo.entries : Int) = state.nTried
  nNew : (newCount state.mapInfo.entries : Int) = state.nNew + gap

/-- The state between two assignments. -/
structure Held (state : CAddrMan) (loose : Int → Prop) (gap : Int) : Prop where
  indexed : state.Indexed
  tabled : state.Tabled hashOf loose gap

variable {hashOf} {state : CAddrMan} {loose looser : Int → Prop} {gap : Int} {n : Int}
  {info : CAddrInfo} {change : CAddrInfo → CAddrInfo}

/-! ## Changes that keep the index -/

variable {next : CAddrMan}

theorem Addressed.update (addressed : state.Addressed)
    (mapInfo : next.mapInfo = (state.updateInfo n change).mapInfo)
    (mapAddr : next.mapAddr = state.mapAddr)
    (address : ∀ info, (change info).toCNetAddr = info.toCNetAddr) : next.Addressed := by
  intro addr other
  rw [mapAddr, addressed, mapInfo, lookup_updateInfo]
  split
  case isTrue same =>
    subst same
    constructor
    · rintro ⟨info, found, here⟩
      exact ⟨change info, by rw [found, map_some], (address info).trans here⟩
    · rintro ⟨_, found, here⟩
      obtain ⟨info, before, rfl⟩ := map_eq_some_iff.mp found
      exact ⟨info, before, (address info).symm.trans here⟩
  case isFalse => exact Iff.rfl

theorem Indexed.update (indexed : state.Indexed)
    (mapInfo : next.mapInfo = (state.updateInfo n change).mapInfo)
    (mapAddr : next.mapAddr = state.mapAddr) (vRandom : next.vRandom = state.vRandom)
    (position : ∀ info, (change info).nRandomPos = info.nRandomPos)
    (address : ∀ info, (change info).toCNetAddr = info.toCNetAddr) : next.Indexed := by
  refine ⟨?_, indexed.mapAddr.update mapInfo mapAddr address⟩
  have same : next.position = state.position := by
    rw [← @position_updateInfo state n change position]
    unfold CAddrMan.position
    rw [mapInfo]
  rw [same, vRandom]
  exact indexed.placed

/-! ## Changes of the tables -/

variable {slot : NewSlot}

section

variable (tabled : state.Tabled hashOf loose gap)

include tabled

theorem Tabled.nameable (found : state.mapInfo.lookup n = some info) : n ≠ -1 := by
  rintro rfl
  cases found.symm.trans tabled.named

/-- An entry is in a slot of the tried table if it says so and the slot is its own. -/
theorem Tabled.inTried (found : state.mapInfo.lookup n = some info) {slot : TriedSlot} :
    state.vvTried slot = n ↔ info.fInTried = true ∧ info.triedSlot hashOf state.nKey = slot := by
  constructor
  · intro here
    obtain ⟨other, foundOther, flag, place⟩ := tabled.triedSlot.mp ⟨tabled.nameable found, here⟩
    cases found.symm.trans foundOther
    exact ⟨flag, place⟩
  · rintro ⟨flag, place⟩
    exact (tabled.triedSlot.mpr ⟨info, found, flag, place⟩).2

theorem Tabled.lookup_ne (used : state.vvNew slot ≠ -1) :
    state.mapInfo.lookup (state.vvNew slot) ≠ none := by
  obtain ⟨info, found, _⟩ := tabled.newSlot used
  rw [found]
  exact some_ne_none info

theorem Tabled.held (here : state.vvNew slot = n)
    (found : state.mapInfo.lookup n = some info) :
    0 < info.nRefCount ∧ info.fInTried = false := by
  have stands := tabled.stands found
  have some_held : 0 < holders state.vvNew n := holders_pos.mpr ⟨slot, here⟩
  have refs := stands.refs
  refine ⟨by omega, ?_⟩
  cases tried : info.fInTried with
  | false => rfl
  | true =>
    have zero := (stands.tried tried).1
    omega

theorem Tabled.loosen
    (weaker : ∀ {m info}, state.mapInfo.lookup m = some info → info.fInTried = false →
      info.nRefCount = 0 → loose m → looser m) : state.Tabled hashOf looser gap := by
  refine ⟨tabled.named, tabled.triedSlot, tabled.newSlot, fun {m info} found => ?_, tabled.nTried, tabled.nNew⟩
  obtain ⟨refs, tried, low, high, nLastTry, nLastSuccess⟩ := tabled.stands found
  refine ⟨refs, tried, fun untried free => ?_, high, nLastTry, nLastSuccess⟩
  intro zero
  exact low untried (fun isLoose => free (weaker found untried zero isLoose)) zero

end

theorem triedSlot_congr {other : CAddrInfo} (same : other.toCService = info.toCService) :
    other.triedSlot hashOf = info.triedSlot hashOf := by
  unfold CAddrInfo.triedSlot CAddrInfo.getTriedBucket CAddrInfo.getBucketPosition
  rw [same]

theorem newSlot_congr {other : CAddrInfo} (same : other.toCService = info.toCService) :
    other.newSlot hashOf = info.newSlot hashOf := by
  unfold CAddrInfo.newSlot CAddrInfo.getBucketPosition
  rw [same]

/-- One entry changes, and with it what the tables hold of it. -/
theorem Tabled.changeInfo (tabled : state.Tabled hashOf loose gap) {nextGap : Int}
    (found : state.mapInfo.lookup n = some info)
    (mapInfo : next.mapInfo = (state.updateInfo n change).mapInfo) (nKey : next.nKey = state.nKey)
    (service : (change info).toCService = info.toCService)
    (triedElse : ∀ slot m, m ≠ -1 → m ≠ n → (next.vvTried slot = m ↔ state.vvTried slot = m))
    (triedHere : ∀ slot, next.vvTried slot = n ↔
      (change info).fInTried = true ∧ info.triedSlot hashOf state.nKey = slot)
    (newSlots : ∀ slot, next.vvNew slot ≠ -1 → next.vvNew slot = state.vvNew slot ∨
      (next.vvNew slot = n ∧ info.newSlot hashOf state.nKey slot.1 = slot))
    (held : ∀ m, m ≠ -1 → m ≠ n → holders next.vvNew m = holders state.vvNew m)
    (stands : Stands (looser n) (holders next.vvNew n) (change info))
    (loosened : ∀ m, m ≠ n → loose m → looser m)
    (nTried : next.nTried = state.nTried + (if (change info).fInTried then 1 else 0) -
      if info.fInTried then 1 else 0)
    (nNew : next.nNew + nextGap = state.nNew + gap + (if (change info).fInTried then 0 else 1) -
      if info.fInTried then 0 else 1) : next.Tabled hashOf looser nextGap := by
  have lookup : ∀ other, next.mapInfo.lookup other =
      if other = n then some (change info) else state.mapInfo.lookup other := by
    intro other
    rw [mapInfo, lookup_updateInfo, found]
    rfl
  have nameable := tabled.nameable found
  constructor
  case named => rw [lookup, if_neg (Ne.symm nameable), tabled.named]
  case triedSlot =>
    intro slot m
    rw [lookup, nKey]
    by_cases same : m = n
    · subst same
      rw [if_pos rfl, triedHere]
      constructor
      · rintro ⟨_, flag, place⟩
        exact ⟨change info, rfl, flag, by rw [triedSlot_congr service, place]⟩
      · rintro ⟨_, here, flag, place⟩
        cases here
        rw [triedSlot_congr service] at place
        exact ⟨nameable, flag, place⟩
    · rw [if_neg same, ← tabled.triedSlot]
      exact and_congr_right fun used => triedElse slot m used same
  case newSlot =>
    intro slot used
    rw [lookup, nKey]
    by_cases isN : next.vvNew slot = n
    · rw [if_pos isN]
      refine ⟨change info, rfl, ?_⟩
      rw [newSlot_congr service]
      rcases newSlots slot used with same | ⟨_, place⟩
      · rw [same] at used isN
        obtain ⟨other, foundOther, place⟩ := tabled.newSlot used
        rw [isN, found] at foundOther
        cases foundOther
        exact place
      · exact place
    · rw [if_neg isN]
      rcases newSlots slot used with same | ⟨here, _⟩
      · rw [same] at used ⊢
        exact tabled.newSlot used
      · exact absurd here isN
  case stands =>
    intro m other foundOther
    rw [lookup] at foundOther
    by_cases same : m = n
    · subst same
      rw [if_pos rfl] at foundOther
      cases foundOther
      exact stands
    · rw [if_neg same] at foundOther
      obtain ⟨refs, tried, low, high, nLastTry, nLastSuccess⟩ := tabled.stands foundOther
      rw [held m (tabled.nameable foundOther) same]
      exact ⟨refs, tried, fun untried tight => low untried fun isLoose =>
        tight (loosened m same isLoose), high, nLastTry, nLastSuccess⟩
  case nTried =>
    have count := @countP_updateInfo state n change info found fun entry => entry.2.fInTried
    have before := tabled.nTried
    unfold triedCount at before ⊢
    rw [mapInfo, nTried]
    dsimp only at count
    cases first : (change info).fInTried <;> cases second : info.fInTried <;>
      rw [first, second] at count <;>
      simp only [if_true, if_false, false_eq_true] at count ⊢ <;> omega
  case nNew =>
    have count := @countP_updateInfo state n change info found fun entry => !entry.2.fInTried
    have before := tabled.nNew
    unfold newCount at before ⊢
    rw [mapInfo, nNew]
    dsimp only at count
    cases first : (change info).fInTried <;> cases second : info.fInTried <;>
      rw [first, second] at count <;>
      simp only [Bool.not_true, Bool.not_false, if_true, if_false, false_eq_true] at count ⊢ <;>
      omega

/-! ## The assignments -/

/-- The statistics of an entry change. -/
structure Touches (change : CAddrInfo → CAddrInfo) (info : CAddrInfo) : Prop where
  service : (change info).toCService = info.toCService
  flag : (change info).fInTried = info.fInTried
  count : (change info).nRefCount = info.nRefCount
  tried : info.nLastSuccess ≠ 0 → (change info).nLastSuccess ≠ 0
  nLastTry : 0 ≤ info.nLastTry.toInt → 0 ≤ (change info).nLastTry.toInt
  nLastSuccess : 0 ≤ info.nLastSuccess.toInt → 0 ≤ (change info).nLastSuccess.toInt

theorem Tabled.touch (tabled : state.Tabled hashOf loose gap)
    (found : state.mapInfo.lookup n = some info) (touches : Touches change info) :
    (state.updateInfo n change).Tabled hashOf loose gap := by
  have stands := tabled.stands found
  refine tabled.changeInfo found rfl rfl touches.service (fun _ _ _ _ => Iff.rfl) (fun slot => ?_)
    (fun _ _ => Or.inl rfl) (fun _ _ _ => rfl) ?_ (fun _ _ isLoose => isLoose) ?_ ?_
  · rw [touches.flag]
    exact tabled.inTried found
  · refine ⟨stands.refs.trans touches.count.symm, fun flag => ?_, fun flag tight => ?_, ?_,
      touches.nLastTry stands.nLastTry, touches.nLastSuccess stands.nLastSuccess⟩
    · rw [touches.flag] at flag
      rw [touches.count]
      exact ⟨(stands.tried flag).1, touches.tried (stands.tried flag).2⟩
    · rw [touches.flag] at flag
      rw [touches.count]
      exact stands.low flag tight
    · rw [touches.count]
      exact stands.high
  · rw [touches.flag]
    exact (Int.add_sub_cancel _ _).symm
  · rw [touches.flag]
    exact (Int.add_sub_cancel _ _).symm

theorem holders_other {value m : Int} (before : state.vvNew slot ≠ m) (after : value ≠ m) :
    holders (Function.update state.vvNew slot value) m = holders state.vvNew m := by
  have counts := holders_update state.vvNew slot value m
  rw [if_neg before, if_neg after, Nat.add_zero, Nat.add_zero] at counts
  exact counts

section

variable (tabled : state.Tabled hashOf loose gap)

include tabled

/-- `vvNew[bucket][pos] = -1; info.nRefCount--`. -/
theorem Tabled.unplace (here : state.vvNew slot = n)
    (found : state.mapInfo.lookup n = some info) :
    Tabled hashOf { state.updateInfo n fun info => { info with nRefCount := info.nRefCount - 1 } with
      vvNew := Function.update state.vvNew slot (-1) } (fun m => m = n ∨ loose m) gap := by
  have stands := tabled.stands found
  obtain ⟨some_refs, untried⟩ := tabled.held here found
  have used := tabled.nameable found
  refine tabled.changeInfo found rfl rfl rfl (fun _ _ _ _ => Iff.rfl) (fun place => ?_)
    (fun place inUse => ?_) (fun m nameable differ => ?_) ?_ (fun m _ isLoose => Or.inr isLoose) ?_ ?_
  · exact tabled.inTried found
  · dsimp only at inUse ⊢
    by_cases same : place = slot
    · subst same
      rw [update_self] at inUse
      exact absurd rfl inUse
    · rw [update_of_ne same]
      exact Or.inl rfl
  · exact holders_other (fun same => differ (same.symm.trans here)) (Ne.symm nameable)
  · have counts := holders_update state.vvNew slot (-1) n
    rw [if_pos here, if_neg (Ne.symm used)] at counts
    have refs := stands.refs
    refine ⟨?_, fun flag => ?_, fun _ tight => absurd (Or.inl rfl) tight, ?_, stands.nLastTry,
      stands.nLastSuccess⟩
    · dsimp only
      omega
    · cases untried.symm.trans flag
    · have high := stands.high
      dsimp only
      omega
  · exact (Int.add_sub_cancel _ _).symm
  · exact (Int.add_sub_cancel _ _).symm

/-- `info.nRefCount++; vvNew[bucket][pos] = nId`, in an empty slot. -/
theorem Tabled.place (empty : state.vvNew slot = -1)
    (found : state.mapInfo.lookup n = some info) (untried : info.fInTried = false)
    (place : info.newSlot hashOf state.nKey slot.1 = slot)
    (room : info.nRefCount < addrmanNewBucketsPerAddress)
    (tightened : ∀ m, m ≠ n → loose m → looser m) :
    Tabled hashOf { state.updateInfo n fun info => { info with nRefCount := info.nRefCount + 1 } with
      vvNew := Function.update state.vvNew slot n } looser gap := by
  have stands := tabled.stands found
  have used := tabled.nameable found
  refine tabled.changeInfo found rfl rfl rfl (fun _ _ _ _ => Iff.rfl) (fun other => ?_)
    (fun other inUse => ?_) (fun m nameable differ => ?_) ?_ tightened ?_ ?_
  · exact tabled.inTried found
  · dsimp only at inUse ⊢
    by_cases same : other = slot
    · subst same
      rw [update_self]
      exact Or.inr ⟨rfl, place⟩
    · rw [update_of_ne same]
      exact Or.inl rfl
  · exact holders_other (fun same => nameable (same.symm.trans empty)) (Ne.symm differ)
  · have counts := holders_update state.vvNew slot n n
    rw [if_pos rfl, if_neg fun same => used (same.symm.trans empty)] at counts
    have refs := stands.refs
    refine ⟨?_, fun flag => ?_, fun _ _ => ?_, ?_, stands.nLastTry, stands.nLastSuccess⟩
    · dsimp only
      omega
    · cases untried.symm.trans flag
    · dsimp only
      omega
    · dsimp only
      omega
  · exact (Int.add_sub_cancel _ _).symm
  · exact (Int.add_sub_cancel _ _).symm

/-- `info.fInTried = false; vvTried[bucket][pos] = -1; nTried--`. -/
theorem Tabled.untry {slot : TriedSlot}
    (here : state.vvTried slot = n) (found : state.mapInfo.lookup n = some info) :
    info.fInTried = true ∧ Tabled hashOf
      { state.updateInfo n fun info => { info with fInTried := false } with
        vvTried := Function.update state.vvTried slot (-1)
        nTried := state.nTried - 1 } (fun m => m = n ∨ loose m) (gap + 1) := by
  have stands := tabled.stands found
  have used := tabled.nameable found
  obtain ⟨flag, place⟩ := (tabled.inTried found).mp here
  refine ⟨flag, ?_⟩
  refine tabled.changeInfo found rfl rfl rfl (fun other m nameable differ => ?_) (fun other => ?_)
    (fun _ _ => Or.inl rfl) (fun _ _ _ => rfl) ?_ (fun m _ isLoose => Or.inr isLoose) ?_ ?_
  · dsimp only
    by_cases same : other = slot
    · subst same
      rw [update_self]
      exact iff_of_false (Ne.symm nameable) fun isHere => differ (isHere.symm.trans here)
    · rw [update_of_ne same]
  · dsimp only
    refine iff_of_false (fun isHere => ?_) fun impossible => nomatch impossible.1
    by_cases same : other = slot
    · subst same
      rw [update_self] at isHere
      exact used isHere.symm
    · rw [update_of_ne same] at isHere
      exact same (((tabled.inTried found).mp isHere).2.symm.trans place)
  · exact ⟨stands.refs, fun impossible => (nomatch impossible), fun _ tight => absurd (Or.inl rfl) tight,
      stands.high, stands.nLastTry, stands.nLastSuccess⟩
  · rw [flag]
    dsimp only
    simp only [if_true, if_false, false_eq_true, Int.add_zero]
  · rw [flag]
    change state.nNew + (gap + 1) = state.nNew + gap + 1 - 0
    omega

/-- `vvTried[bucket][pos] = nId; nTried++; info.fInTried = true`, in an empty slot. -/
theorem Tabled.tryEntry {slot : TriedSlot}
    (empty : state.vvTried slot = -1) (found : state.mapInfo.lookup n = some info)
    (untried : info.fInTried = false) (place : info.triedSlot hashOf state.nKey = slot)
    (bare : info.nRefCount = 0) (success : info.nLastSuccess ≠ 0)
    (tightened : ∀ m, m ≠ n → loose m → looser m) :
    Tabled hashOf { state.updateInfo n fun info => { info with fInTried := true } with
      vvTried := Function.update state.vvTried slot n
      nTried := state.nTried + 1 } looser (gap - 1) := by
  have stands := tabled.stands found
  have used := tabled.nameable found
  refine tabled.changeInfo found rfl rfl rfl (fun other m nameable differ => ?_) (fun other => ?_)
    (fun _ _ => Or.inl rfl) (fun _ _ _ => rfl) ?_ tightened ?_ ?_
  · dsimp only
    by_cases same : other = slot
    · subst same
      rw [update_self]
      exact iff_of_false (Ne.symm differ) fun isHere => nameable (isHere.symm.trans empty)
    · rw [update_of_ne same]
  · dsimp only
    rw [place]
    by_cases same : other = slot
    · subst same
      rw [update_self]
      exact iff_of_true rfl ⟨rfl, rfl⟩
    · rw [update_of_ne same]
      refine iff_of_false (fun isHere => ?_) fun both => same both.2.symm
      cases untried.symm.trans ((tabled.inTried found).mp isHere).1
  · exact ⟨stands.refs, fun _ => ⟨bare, success⟩, fun impossible => (nomatch impossible), stands.high,
      stands.nLastTry, stands.nLastSuccess⟩
  · rw [untried]
    dsimp only
    simp only [if_true, if_false, false_eq_true, Int.sub_zero]
  · rw [untried]
    change state.nNew + (gap - 1) = state.nNew + gap + 0 - 1
    omega

end

/-! ## Entries that come and go -/

/-- The entry of an id that no table holds comes, goes or changes. -/
theorem Tabled.replace (tabled : state.Tabled hashOf loose gap) {nextGap : Int}
    {entry : Option CAddrInfo} (used : n ≠ -1) (lookup : ∀ other, next.mapInfo.lookup other =
      if other = n then entry else state.mapInfo.lookup other)
    (nKey : next.nKey = state.nKey) (vvTried : next.vvTried = state.vvTried)
    (vvNew : next.vvNew = state.vvNew)
    (before : ∀ {info}, state.mapInfo.lookup n = some info →
      info.fInTried = false ∧ info.nRefCount = 0)
    (after : ∀ {info}, entry = some info → info.fInTried = false ∧ Stands (looser n) 0 info)
    (loosened : ∀ m, m ≠ n → loose m → looser m)
    (nTried : (triedCount next.mapInfo.entries : Int) = next.nTried)
    (nNew : (newCount next.mapInfo.entries : Int) = next.nNew + nextGap) :
    next.Tabled hashOf looser nextGap := by
  have nowhere : ∀ slot, state.vvNew slot ≠ n := by
    intro slot here
    obtain ⟨info, found, _⟩ := tabled.newSlot (here.symm ▸ used)
    rw [here] at found
    have more := (tabled.held here found).1
    have none_held := (before found).2
    omega
  constructor
  case named => rw [lookup, if_neg (Ne.symm used), tabled.named]
  case triedSlot =>
    intro slot m
    rw [vvTried, nKey, tabled.triedSlot, lookup]
    split
    case isTrue same =>
      subst same
      refine iff_of_false ?_ ?_
      · rintro ⟨_, found, flag, _⟩
        cases flag.symm.trans (before found).1
      · rintro ⟨_, found, flag, _⟩
        cases flag.symm.trans (after found).1
    case isFalse => exact Iff.rfl
  case newSlot =>
    intro slot inUse
    rw [vvNew] at inUse
    rw [vvNew, nKey, lookup, if_neg (nowhere slot)]
    exact tabled.newSlot inUse
  case stands =>
    intro m other found
    rw [lookup] at found
    rw [vvNew]
    split at found
    case isTrue same =>
      rw [same, holders_eq_zero.mpr nowhere]
      exact (after found).2
    case isFalse differ =>
      obtain ⟨refs, tried, low, high, nLastTry, nLastSuccess⟩ := tabled.stands found
      exact ⟨refs, tried, fun flag tight => low flag fun isLoose =>
        tight (loosened m differ isLoose), high, nLastTry, nLastSuccess⟩
  case nTried => exact nTried
  case nNew => exact nNew

/-- A new entry is in no table. -/
theorem Tabled.enter (tabled : state.Tabled hashOf loose gap) {next : CAddrMan} {nextGap : Int}
    (new : state.mapInfo.lookup n = none) (used : n ≠ -1)
    (mapInfo : next.mapInfo = state.mapInfo.insert n info) (nKey : next.nKey = state.nKey)
    (vvTried : next.vvTried = state.vvTried) (vvNew : next.vvNew = state.vvNew)
    (nTried : next.nTried = state.nTried) (nNew : next.nNew + nextGap = state.nNew + gap + 1)
    (untried : info.fInTried = false) (bare : info.nRefCount = 0)
    (nLastTry : 0 ≤ info.nLastTry.toInt) (nLastSuccess : 0 ≤ info.nLastSuccess.toInt) :
    next.Tabled hashOf (fun m => m = n ∨ loose m) nextGap := by
  have entries : next.mapInfo.entries = ⟨n, info⟩ :: state.mapInfo.entries := by
    rw [mapInfo]
    exact AList.entries_insert_of_notMem (AList.lookup_eq_none.mp new)
  refine @Tabled.replace _ _ _ _ _ _ _ tabled nextGap (some info) used (fun other => ?_) nKey vvTried
    vvNew (fun found => ?_) (fun found => ?_) (fun _ _ isLoose => Or.inr isLoose) ?_ ?_
  · rw [mapInfo, lookup_insert_ite]
  · cases new.symm.trans found
  · cases found
    refine ⟨untried, bare.symm, fun flag => ?_, fun _ tight => absurd (Or.inl rfl) tight, ?_,
      nLastTry, nLastSuccess⟩
    · cases untried.symm.trans flag
    · rw [bare]
      decide
  · rw [entries, nTried, ← tabled.nTried]
    unfold triedCount
    rw [countP_cons, untried]
    rfl
  · have before := tabled.nNew
    rw [entries, nNew]
    unfold newCount at before ⊢
    rw [countP_cons, untried]
    change ((countP _ _ + 1 : Nat) : Int) = _
    omega

/-- An entry that is in no table goes. -/
theorem Tabled.leave (tabled : state.Tabled hashOf loose gap) {nextGap : Int}
    (found : state.mapInfo.lookup n = some info) (mapInfo : next.mapInfo = state.mapInfo.erase n)
    (nKey : next.nKey = state.nKey) (vvTried : next.vvTried = state.vvTried)
    (vvNew : next.vvNew = state.vvNew) (nTried : next.nTried = state.nTried)
    (nNew : next.nNew + nextGap = state.nNew + gap - 1) (untried : info.fInTried = false)
    (bare : info.nRefCount = 0) : next.Tabled hashOf loose nextGap := by
  refine @Tabled.replace _ _ _ _ _ _ _ tabled nextGap none (tabled.nameable found) (fun other => ?_)
    nKey vvTried vvNew (fun foundToo => ?_) (fun impossible => (nomatch impossible))
    (fun _ _ isLoose => isLoose) ?_ ?_
  · rw [mapInfo, lookup_erase_ite]
  · cases found.symm.trans foundToo
    exact ⟨untried, bare⟩
  · have before := tabled.nTried
    have counts := StdMap.countP_erase found fun entry => entry.2.fInTried
    rw [mapInfo, nTried]
    unfold triedCount at before ⊢
    dsimp only at counts
    rw [untried, if_neg Bool.false_ne_true] at counts
    omega
  · have before := tabled.nNew
    have counts := StdMap.countP_erase found fun entry => !entry.2.fInTried
    rw [mapInfo, nNew]
    unfold newCount at before ⊢
    dsimp only at counts
    rw [untried, Bool.not_false, if_pos rfl] at counts
    omega

theorem Indexed.enter (indexed : state.Indexed) {next : CAddrMan}
    (new : state.mapInfo.lookup n = none) (unknown : state.mapAddr.lookup info.toCNetAddr = none)
    (mapInfo : next.mapInfo = state.mapInfo.insert n info)
    (mapAddr : next.mapAddr = state.mapAddr.insert info.toCNetAddr n)
    (vRandom : next.vRandom = state.vRandom ++ [n])
    (position : info.nRandomPos = state.vRandom.length) : next.Indexed := by
  have lookup : ∀ other, next.mapInfo.lookup other =
      if other = n then some info else state.mapInfo.lookup other := by
    intro other
    rw [mapInfo, lookup_insert_ite]
  constructor
  case placed =>
    have at_end : next.position =
        Function.update state.position n (some (state.vRandom.length : Int)) := by
      funext other
      unfold CAddrMan.position
      rw [lookup]
      split
      case isTrue same =>
        rw [same, update_self, ← position]
        rfl
      case isFalse differ => rw [update_of_ne differ]
    rw [at_end, vRandom]
    refine indexed.placed.push ?_
    unfold CAddrMan.position
    rw [new]
    rfl
  case mapAddr =>
    intro addr m
    rw [mapAddr, lookup_insert_ite, lookup]
    by_cases isNew : addr = info.toCNetAddr
    · rw [if_pos isNew]
      constructor
      · intro same
        cases same
        exact ⟨info, if_pos rfl, isNew.symm⟩
      · rintro ⟨other, found, here⟩
        split at found
        case isTrue same => rw [same]
        case isFalse =>
          have known := (indexed.mapAddr _ _).mpr ⟨other, found, here⟩
          rw [isNew, unknown] at known
          cases known
    · rw [if_neg isNew, indexed.mapAddr]
      split
      case isTrue same =>
        subst same
        refine iff_of_false ?_ ?_
        · rintro ⟨_, found, _⟩
          cases new.symm.trans found
        · rintro ⟨_, found, here⟩
          cases found
          exact isNew here.symm
      case isFalse => exact Iff.rfl

/-- The entry at the end of `vRandom` goes. -/
theorem Indexed.leave (indexed : state.Indexed) (found : state.mapInfo.lookup n = some info)
    (last : info.nRandomPos = ((state.vRandom.length - 1 : Nat) : Int))
    (mapInfo : next.mapInfo = state.mapInfo.erase n)
    (mapAddr : next.mapAddr = state.mapAddr.erase info.toCNetAddr)
    (vRandom : next.vRandom = state.vRandom.dropLast) : next.Indexed := by
  have lookup : ∀ other, next.mapInfo.lookup other =
      if other = n then none else state.mapInfo.lookup other := by
    intro other
    rw [mapInfo, lookup_erase_ite]
  constructor
  case placed =>
    have gone : next.position = Function.update state.position n none := by
      funext other
      unfold CAddrMan.position
      rw [lookup]
      split
      case isTrue same =>
        rw [same, update_self]
        rfl
      case isFalse differ => rw [update_of_ne differ]
    rw [gone, vRandom]
    exact indexed.placed.pop ((position_eq found).trans (congrArg some last))
  case mapAddr =>
    intro addr m
    rw [mapAddr, lookup_erase_ite, lookup]
    have here := (indexed.mapAddr _ _).mpr ⟨info, found, rfl⟩
    by_cases isHis : addr = info.toCNetAddr
    · rw [if_pos isHis]
      refine iff_of_false (some_ne_none _).symm ?_
      rintro ⟨other, foundOther, same⟩
      split at foundOther
      case isTrue => cases foundOther
      case isFalse differ =>
        have there := (indexed.mapAddr _ _).mpr ⟨other, foundOther, same⟩
        rw [isHis, here] at there
        exact differ (Option.some.inj there).symm
    · rw [if_neg isHis, indexed.mapAddr]
      split
      case isTrue same =>
        subst same
        refine iff_of_false ?_ ?_
        · rintro ⟨other, foundOther, same⟩
          cases found.symm.trans foundOther
          exact isHis same.symm
        · rintro ⟨_, impossible, _⟩
          cases impossible
      case isFalse => exact Iff.rfl

end CAddrMan

end CentNode
