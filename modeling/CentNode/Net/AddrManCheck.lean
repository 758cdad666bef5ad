import CentNode.Net.AddrMan

/-!
# The consistency check of the address manager

`Check_` goes through the entries and the two tables.  It returns zero exactly
when the structures agree, which is stated here without the sets it fills and
empties on its way.
-/

namespace CentNode

open List AList StdMap Option Prod

open SlotTable

/-! ## Checks that return a code -/

/-- `if (bad) return code`. -/
def failIf (bad : Prop) [Decidable bad] (code : Int) : Except Int Unit :=
  if bad then .error code else .ok ()

theorem failIf_ok {bad : Prop} [Decidable bad] {code : Int} {done : Unit} :
    failIf bad code = .ok done ↔ ¬ bad := by
  unfold failIf
  split
  case isTrue holds => exact iff_of_false (fun same => nomatch same) (not_not.mpr holds)
  case isFalse fails => exact iff_of_true rfl fails

theorem bind_ok {α β : Type} {first : Except Int α} {next : α → Except Int β} {result : β} :
    (first >>= next) = .ok result ↔ ∃ value, first = .ok value ∧ next value = .ok result := by
  cases first with
  | error code =>
    refine iff_of_false (fun same => nomatch same) ?_
    rintro ⟨_, same, _⟩
    cases same
  | ok value =>
    constructor
    · exact fun same => ⟨value, rfl, same⟩
    · rintro ⟨_, same, rest⟩
      cases same
      exact rest

theorem failIf_bind {bad : Prop} [Decidable bad] {code : Int} {β : Type} {rest : Except Int β}
    {result : β} : (failIf bad code >>= fun _ => rest) = .ok result ↔ ¬ bad ∧ rest = .ok result := by
  rw [bind_ok]
  constructor
  · rintro ⟨_, passed, same⟩
    exact ⟨failIf_ok.mp passed, same⟩
  · rintro ⟨passed, same⟩
    exact ⟨(), failIf_ok.mpr passed, same⟩

/-! ## Check_ -/

/-- `setTried` and `mapNew` of `Check_`. -/
structure Seen where
  setTried : List Int := []
  mapNew : StdMap Int Int := ∅

namespace CAddrMan

variable (hashOf : List UInt8 → Uint256) (state : CAddrMan)

/-- The first checks of an entry, and where it is noted. -/
def noteEntry (seen : Seen) (n : Int) (info : CAddrInfo) : Except Int Seen :=
  if info.fInTried then do
    failIf (info.nLastSuccess = 0) (-1)
    failIf (info.nRefCount ≠ 0) (-2)
    pure { seen with setTried := n :: seen.setTried }
  else do
    failIf (info.nRefCount < 0 ∨ info.nRefCount > addrmanNewBucketsPerAddress) (-3)
    failIf (info.nRefCount = 0) (-4)
    pure { seen with mapNew := seen.mapNew.insert n info.nRefCount }

/-- One iteration of the loop over `mapInfo`; a missing address is at zero. -/
def checkEntry (seen : Seen) (entry : Sigma fun _ : Int => CAddrInfo) : Except Int Seen := do
  let next ← noteEntry seen entry.1 entry.2
  failIf ((state.mapAddr.lookup entry.2.toCNetAddr).getD 0 ≠ entry.1) (-5)
  failIf (entry.2.nRandomPos < 0 ∨ entry.2.nRandomPos ≥ state.vRandom.length ∨
    state.vRandom[entry.2.nRandomPos.toNat]? ≠ some entry.1) (-14)
  failIf (entry.2.nLastTry.toInt < 0) (-6)
  failIf (entry.2.nLastSuccess.toInt < 0) (-8)
  pure next

/-- The entry that `operator[]` gives. -/
def infoAt (n : Int) : CAddrInfo := (state.mapInfo.lookup n).getD CAddrInfo.init

/-- One iteration of the loop over the table of tried entries. -/
def checkTriedSlot (setTried : List Int) (slot : TriedSlot) : Except Int (List Int) :=
  if state.vvTried slot ≠ -1 then do
    let n := state.vvTried slot
    failIf (n ∉ setTried) (-11)
    failIf ((state.infoAt n).getTriedBucket hashOf state.nKey ≠ slot.1) (-17)
    failIf ((state.infoAt n).getBucketPosition hashOf state.nKey false slot.1 ≠ slot.2) (-18)
    pure (setTried.erase n)
  else pure setTried

/-- One iteration of the loop over the table of new entries. -/
def checkNewSlot (mapNew : StdMap Int Int) (slot : NewSlot) : Except Int (StdMap Int Int) :=
  if state.vvNew slot ≠ -1 then do
    let n := state.vvNew slot
    failIf (mapNew.lookup n = none) (-12)
    failIf ((state.infoAt n).getBucketPosition hashOf state.nKey true slot.1 ≠ slot.2) (-19)
    let left := (mapNew.lookup n).getD 0 - 1
    pure (if left = 0 then mapNew.erase n else mapNew.insert n left)
  else pure mapNew

/-- `Check_`: the code of the first check that fails, or `ok` for zero. -/
def check : Except Int Unit := do
  failIf ((state.vRandom.length : Int) ≠ state.nTried + state.nNew) (-7)
  let seen ← state.mapInfo.entries.foldlM state.checkEntry {}
  failIf ((seen.setTried.length : Int) ≠ state.nTried) (-9)
  failIf ((seen.mapNew.entries.length : Int) ≠ state.nNew) (-10)
  let setTried ← (allSlots addrmanTriedBucketCount addrmanBucketSize).foldlM
    (state.checkTriedSlot hashOf) seen.setTried
  let mapNew ← (allSlots addrmanNewBucketCount addrmanBucketSize).foldlM
    (state.checkNewSlot hashOf) seen.mapNew
  failIf (setTried ≠ []) (-13)
  failIf (mapNew.entries ≠ []) (-15)
  failIf (state.nKey = 0) (-16)

/-! ## What the check means -/

/-- What is checked of one entry. -/
structure EntryOk (n : Int) (info : CAddrInfo) : Prop where
  tried : info.fInTried = true → info.nLastSuccess ≠ 0 ∧ info.nRefCount = 0
  new : info.fInTried = false → 1 ≤ info.nRefCount ∧ info.nRefCount ≤ addrmanNewBucketsPerAddress
  mapAddr : (state.mapAddr.lookup info.toCNetAddr).getD 0 = n
  natural : 0 ≤ info.nRandomPos
  vRandom : state.vRandom[info.nRandomPos.toNat]? = some n
  nLastTry : 0 ≤ info.nLastTry.toInt
  nLastSuccess : 0 ≤ info.nLastSuccess.toInt

/-- The number of tried and of new entries. -/
def triedCount (entries : List (Sigma fun _ : Int => CAddrInfo)) : Nat :=
  entries.countP fun entry => entry.2.fInTried

def newCount (entries : List (Sigma fun _ : Int => CAddrInfo)) : Nat :=
  entries.countP fun entry => !entry.2.fInTried

/-- The structures agree. -/
structure Consistent : Prop where
  size : (state.vRandom.length : Int) = state.nTried + state.nNew
  entry : ∀ {n info}, state.mapInfo.lookup n = some info → state.EntryOk n info
  nTried : (triedCount state.mapInfo.entries : Int) = state.nTried
  nNew : (newCount state.mapInfo.entries : Int) = state.nNew
  triedSlot : ∀ {slot}, state.vvTried slot ≠ -1 → ∃ info,
    state.mapInfo.lookup (state.vvTried slot) = some info ∧ info.fInTried = true ∧
      info.triedSlot hashOf state.nKey = slot
  triedHeld : ∀ {n info}, state.mapInfo.lookup n = some info → info.fInTried = true →
    n ≠ -1 ∧ state.vvTried (info.triedSlot hashOf state.nKey) = n
  newSlot : ∀ {slot}, state.vvNew slot ≠ -1 → ∃ info,
    state.mapInfo.lookup (state.vvNew slot) = some info ∧ info.fInTried = false ∧
      info.newSlot hashOf state.nKey slot.1 = slot
  newHeld : ∀ {n info}, state.mapInfo.lookup n = some info → info.fInTried = false →
    n ≠ -1 ∧ (holders state.vvNew n : Int) = info.nRefCount
  key : state.nKey ≠ 0

/-! ## The loop over the entries -/

variable {hashOf : List UInt8 → Uint256} {state : CAddrMan}

/-- What an iteration notes. -/
def note (seen : Seen) (entry : Sigma fun _ : Int => CAddrInfo) : Seen :=
  if entry.2.fInTried then { seen with setTried := entry.1 :: seen.setTried }
  else { seen with mapNew := seen.mapNew.insert entry.1 entry.2.nRefCount }

theorem checkEntry_ok {seen result : Seen} {entry : Sigma fun _ : Int => CAddrInfo} :
    state.checkEntry seen entry = .ok result ↔
      state.EntryOk entry.1 entry.2 ∧ result = note seen entry := by
  have noted : ∀ {next}, noteEntry seen entry.1 entry.2 = .ok next ↔
      ((entry.2.fInTried = true → entry.2.nLastSuccess ≠ 0 ∧ entry.2.nRefCount = 0) ∧
        (entry.2.fInTried = false →
          1 ≤ entry.2.nRefCount ∧ entry.2.nRefCount ≤ addrmanNewBucketsPerAddress)) ∧
          next = note seen entry := by
    intro next
    unfold noteEntry note
    cases entry.2.fInTried with
    | true =>
      rw [if_pos rfl, if_pos rfl, failIf_bind, failIf_bind, not_not]
      constructor
      · rintro ⟨success, refs, same⟩
        cases same
        exact ⟨⟨fun _ => ⟨success, refs⟩, fun impossible => nomatch impossible⟩, rfl⟩
      · rintro ⟨⟨holds, _⟩, rfl⟩
        exact ⟨(holds rfl).1, (holds rfl).2, rfl⟩
    | false =>
      rw [if_neg Bool.false_ne_true, if_neg Bool.false_ne_true, failIf_bind, failIf_bind, not_or]
      constructor
      · rintro ⟨⟨low, high⟩, zero, same⟩
        cases same
        exact ⟨⟨fun impossible => (nomatch impossible), fun _ => ⟨by omega, Int.not_lt.mp high⟩⟩, rfl⟩
      · rintro ⟨⟨_, holds⟩, rfl⟩
        obtain ⟨low, high⟩ := holds rfl
        exact ⟨⟨by omega, Int.not_lt.mpr high⟩, by omega, rfl⟩
  unfold checkEntry
  rw [bind_ok]
  constructor
  · rintro ⟨next, first, rest⟩
    obtain ⟨⟨tried, new⟩, rfl⟩ := noted.mp first
    rw [failIf_bind, failIf_bind, failIf_bind, failIf_bind] at rest
    obtain ⟨mapAddr, random, nLastTry, nLastSuccess, same⟩ := rest
    rw [not_or, not_or, not_not] at random
    cases same
    exact ⟨⟨tried, new, not_not.mp mapAddr, Int.not_lt.mp random.1, random.2.2, Int.not_lt.mp nLastTry,
      Int.not_lt.mp nLastSuccess⟩, rfl⟩
  · rintro ⟨ok, rfl⟩
    refine ⟨note seen entry, noted.mpr ⟨⟨ok.tried, ok.new⟩, rfl⟩, ?_⟩
    rw [failIf_bind, failIf_bind, failIf_bind, failIf_bind, not_or, not_or, not_not, not_not]
    have inside := (List.getElem?_eq_some_iff.mp ok.vRandom).1
    have natural := ok.natural
    exact ⟨ok.mapAddr, ⟨Int.not_lt.mpr natural, by omega, ok.vRandom⟩, Int.not_lt.mpr ok.nLastTry,
      Int.not_lt.mpr ok.nLastSuccess, rfl⟩

variable (entries : List (Sigma fun _ : Int => CAddrInfo))

theorem foldlM_checkEntry {seen result : Seen} :
    entries.foldlM state.checkEntry seen = .ok result ↔
      (∀ entry ∈ entries, state.EntryOk entry.1 entry.2) ∧ result = entries.foldl note seen := by
  induction entries generalizing seen with
  | nil =>
    constructor
    · intro same
      cases same
      exact ⟨fun _ inside => absurd inside not_mem_nil, rfl⟩
    · rintro ⟨_, rfl⟩
      rfl
  | cons entry rest ih =>
    rw [foldlM_cons, bind_ok, foldl_cons, forall_mem_cons]
    constructor
    · rintro ⟨next, first, later⟩
      obtain ⟨ok, rfl⟩ := checkEntry_ok.mp first
      obtain ⟨others, same⟩ := ih.mp later
      exact ⟨⟨ok, others⟩, same⟩
    · rintro ⟨⟨ok, others⟩, same⟩
      exact ⟨note seen entry, checkEntry_ok.mpr ⟨ok, rfl⟩, ih.mpr ⟨others, same⟩⟩

theorem setTried_foldl_note (seen : Seen) :
    (entries.foldl note seen).setTried =
      ((entries.filter fun entry => entry.2.fInTried).map (·.1)).reverse ++ seen.setTried := by
  induction entries generalizing seen with
  | nil => rfl
  | cons entry rest ih =>
    rw [foldl_cons, ih, filter_cons]
    unfold note
    cases entry.2.fInTried with
    | true => rw [if_pos rfl, if_pos rfl, map_cons, reverse_cons, append_assoc]; rfl
    | false => rw [if_neg Bool.false_ne_true, if_neg Bool.false_ne_true]

theorem mapNew_foldl_note (seen : Seen) (distinct : entries.NodupKeys)
    (fresh : ∀ entry ∈ entries, entry.1 ∉ seen.mapNew) :
    (entries.foldl note seen).mapNew.entries =
      ((entries.filter fun entry => !entry.2.fInTried).map fun entry =>
        (⟨entry.1, entry.2.nRefCount⟩ : Sigma fun _ : Int => Int)).reverse ++ seen.mapNew.entries := by
  induction entries generalizing seen with
  | nil => rfl
  | cons entry rest ih =>
    obtain ⟨apart, restDistinct⟩ := nodupKeys_cons.mp distinct
    have here := fresh entry mem_cons_self
    have later := fun other inside => fresh other (mem_cons_of_mem entry inside)
    rw [foldl_cons, ih _ restDistinct ?_, filter_cons]
    · unfold note
      cases entry.2.fInTried with
      | true => rfl
      | false =>
        rw [if_neg Bool.false_ne_true, Bool.not_false, if_pos rfl, map_cons,
          reverse_cons, append_assoc, entries_insert_of_notMem here]
        rfl
    · intro other inside
      unfold note
      split
      · exact later other inside
      · dsimp only
        rw [mem_insert, not_or]
        refine ⟨fun same => apart ?_, later other inside⟩
        rw [← same]
        exact mem_keys_of_mem inside

/-! ## The loops over the tables -/

/-- The ids in the slots that are in use. -/
def heldIds {Slot : Type} (table : Slot → Int) (slots : List Slot) : List Int :=
  (slots.filter fun slot => table slot ≠ -1).map table

theorem heldIds_cons {Slot : Type} (table : Slot → Int) (slot : Slot) (slots : List Slot) :
    heldIds table (slot :: slots) =
      if table slot ≠ -1 then table slot :: heldIds table slots else heldIds table slots := by
  unfold heldIds
  rw [filter_cons]
  by_cases used : table slot ≠ -1
  · rw [if_pos (decide_eq_true used), if_pos used, map_cons]
  · rw [if_neg fun same => used (of_decide_eq_true same), if_neg used]

theorem checkTriedSlot_ok {setTried result : List Int} {slot : TriedSlot} :
    state.checkTriedSlot hashOf setTried slot = .ok result ↔
      if state.vvTried slot ≠ -1 then
        (state.infoAt (state.vvTried slot)).triedSlot hashOf state.nKey = slot ∧
          state.vvTried slot ∈ setTried ∧ result = setTried.erase (state.vvTried slot)
      else result = setTried := by
  unfold checkTriedSlot
  split
  case isTrue used =>
    rw [failIf_bind, failIf_bind, failIf_bind, not_not, not_not, not_not]
    constructor
    · rintro ⟨inside, bucket, position, same⟩
      cases same
      refine ⟨?_, inside, rfl⟩
      unfold CAddrInfo.triedSlot
      rw [bucket, position]
    · rintro ⟨place, inside, rfl⟩
      have bucket : (state.infoAt (state.vvTried slot)).getTriedBucket hashOf state.nKey = slot.1 :=
        congrArg fst place
      have position := congrArg snd place
      unfold CAddrInfo.triedSlot at position
      rw [bucket] at position
      exact ⟨inside, bucket, position, rfl⟩
  case isFalse empty =>
    constructor
    · intro same
      cases same
      rfl
    · rintro rfl
      rfl

/-- The loop empties the set exactly when the slots hold its members, each once. -/
theorem foldlM_checkTriedSlot (slots : List TriedSlot) {setTried : List Int} :
    slots.foldlM (state.checkTriedSlot hashOf) setTried = .ok [] ↔
      (∀ slot ∈ slots, state.vvTried slot ≠ -1 →
        (state.infoAt (state.vvTried slot)).triedSlot hashOf state.nKey = slot) ∧
        (heldIds state.vvTried slots).Perm setTried := by
  induction slots generalizing setTried with
  | nil =>
    constructor
    · intro same
      cases same
      exact ⟨fun _ inside => absurd inside not_mem_nil, List.Perm.refl []⟩
    · rintro ⟨_, perm⟩
      rw [nil_perm.mp perm]
      rfl
  | cons slot rest ih =>
    rw [foldlM_cons, bind_ok, forall_mem_cons, heldIds_cons]
    by_cases used : state.vvTried slot ≠ -1
    · rw [if_pos used, cons_perm_iff_perm_erase]
      constructor
      · rintro ⟨next, first, later⟩
        rw [checkTriedSlot_ok, if_pos used] at first
        obtain ⟨place, inside, rfl⟩ := first
        obtain ⟨others, perm⟩ := ih.mp later
        exact ⟨⟨fun _ => place, others⟩, inside, perm⟩
      · rintro ⟨⟨place, others⟩, inside, perm⟩
        refine ⟨setTried.erase (state.vvTried slot), ?_, ih.mpr ⟨others, perm⟩⟩
        rw [checkTriedSlot_ok, if_pos used]
        exact ⟨place used, inside, rfl⟩
    · rw [if_neg used]
      constructor
      · rintro ⟨next, first, later⟩
        rw [checkTriedSlot_ok, if_neg used] at first
        subst first
        obtain ⟨others, perm⟩ := ih.mp later
        exact ⟨⟨fun inUse => absurd inUse used, others⟩, perm⟩
      · rintro ⟨⟨_, others⟩, perm⟩
        refine ⟨setTried, ?_, ih.mpr ⟨others, perm⟩⟩
        rw [checkTriedSlot_ok, if_neg used]

/-- What is left in `mapNew` after a slot that holds the id. -/
def countDown (mapNew : StdMap Int Int) (n : Int) : StdMap Int Int :=
  if (mapNew.lookup n).getD 0 - 1 = 0 then mapNew.erase n
  else mapNew.insert n ((mapNew.lookup n).getD 0 - 1)

theorem lookup_countDown (mapNew : StdMap Int Int) (n other : Int) :
    ((countDown mapNew n).lookup other).getD 0 =
      (mapNew.lookup other).getD 0 - (if other = n then 1 else 0) := by
  unfold countDown
  split
  case isTrue zero =>
    rw [lookup_erase_ite]
    split
    case isTrue same =>
      rw [same]
      exact zero.symm
    case isFalse => exact (Int.sub_zero _).symm
  case isFalse =>
    rw [lookup_insert_ite]
    split
    case isTrue same =>
      rw [same]
      rfl
    case isFalse => exact (Int.sub_zero _).symm

variable {mapNew : StdMap Int Int} {n : Int}

theorem countDown_positive (positive : ∀ {n left}, mapNew.lookup n = some left → 0 < left)
    (present : mapNew.lookup n ≠ none) {other left : Int}
    (found : (countDown mapNew n).lookup other = some left) : 0 < left := by
  obtain ⟨before, here⟩ := ne_none_iff_exists'.mp present
  have more := positive here
  unfold countDown at found
  rw [here, getD_some] at found
  split at found
  case isTrue =>
    rw [lookup_erase_ite] at found
    split at found
    · cases found
    · exact positive found
  case isFalse nonzero =>
    rw [lookup_insert_ite] at found
    split at found
    · cases found
      omega
    · exact positive found

theorem checkNewSlot_ok {result : StdMap Int Int} {slot : NewSlot} :
    state.checkNewSlot hashOf mapNew slot = .ok result ↔
      if state.vvNew slot ≠ -1 then
        (state.infoAt (state.vvNew slot)).newSlot hashOf state.nKey slot.1 = slot ∧
          mapNew.lookup (state.vvNew slot) ≠ none ∧ result = countDown mapNew (state.vvNew slot)
      else result = mapNew := by
  unfold checkNewSlot
  split
  case isTrue used =>
    rw [failIf_bind, failIf_bind, not_not]
    constructor
    · rintro ⟨inside, position, same⟩
      cases same
      refine ⟨?_, inside, rfl⟩
      unfold CAddrInfo.newSlot
      rw [position]
    · rintro ⟨place, inside, rfl⟩
      exact ⟨inside, congrArg snd place, rfl⟩
  case isFalse empty =>
    constructor
    · intro same
      cases same
      rfl
    · rintro rfl
      rfl

/-- The loop empties the map exactly when the slots hold each id as often as it says. -/
theorem foldlM_checkNewSlot (slots : List NewSlot)
    (positive : ∀ {n left}, mapNew.lookup n = some left → 0 < left) :
    (∃ result, slots.foldlM (state.checkNewSlot hashOf) mapNew = .ok result ∧ result.entries = []) ↔
      (∀ slot ∈ slots, state.vvNew slot ≠ -1 →
        (state.infoAt (state.vvNew slot)).newSlot hashOf state.nKey slot.1 = slot) ∧
        ∀ n, ((heldIds state.vvNew slots).count n : Int) = (mapNew.lookup n).getD 0 := by
  induction slots generalizing mapNew with
  | nil =>
    constructor
    · rintro ⟨_, same, empty⟩
      cases same
      refine ⟨fun _ inside => absurd inside not_mem_nil, fun n => ?_⟩
      have absent : mapNew.lookup n = none := by
        cases found : mapNew.lookup n with
        | none => rfl
        | some left =>
          have member := mem_lookup_iff.mp found
          rw [empty] at member
          exact absurd member not_mem_nil
      rw [absent]
      rfl
    · rintro ⟨_, counts⟩
      refine ⟨mapNew, rfl, eq_nil_iff_forall_not_mem.mpr ?_⟩
      rintro ⟨n, left⟩ member
      have found := mem_lookup_iff.mpr member
      have zero := counts n
      have more := positive found
      rw [found] at zero
      change (0 : Int) = left at zero
      omega
  | cons slot rest ih =>
    rw [foldlM_cons, forall_mem_cons, heldIds_cons]
    by_cases used : state.vvNew slot ≠ -1
    · rw [if_pos used]
      constructor
      · rintro ⟨result, ran, empty⟩
        obtain ⟨next, first, later⟩ := bind_ok.mp ran
        rw [checkNewSlot_ok, if_pos used] at first
        obtain ⟨place, present, rfl⟩ := first
        obtain ⟨others, counts⟩ := (ih fun found => countDown_positive positive present found).mp
          ⟨result, later, empty⟩
        refine ⟨⟨fun _ => place, others⟩, fun n => ?_⟩
        have left := counts n
        rw [lookup_countDown] at left
        rw [count_cons, Nat.cast_add, left]
        by_cases same : n = state.vvNew slot
        · rw [if_pos same, if_pos (beq_iff_eq.mpr same.symm)]
          omega
        · rw [if_neg same, if_neg fun equal => same (beq_iff_eq.mp equal).symm]
          omega
      · rintro ⟨⟨place, others⟩, counts⟩
        have present : mapNew.lookup (state.vvNew slot) ≠ none := by
          intro absent
          have zero := counts (state.vvNew slot)
          rw [absent, count_cons_self] at zero
          change ((List.count _ _ + 1 : Nat) : Int) = 0 at zero
          omega
        obtain ⟨result, later, empty⟩ :=
          (ih fun found => countDown_positive positive present found).mpr ⟨others, fun n => by
            have left := counts n
            rw [count_cons] at left
            rw [lookup_countDown, ← left]
            by_cases same : n = state.vvNew slot
            · rw [if_pos same, if_pos (beq_iff_eq.mpr same.symm)]
              omega
            · rw [if_neg same, if_neg fun equal => same (beq_iff_eq.mp equal).symm]
              omega⟩
        refine ⟨result, bind_ok.mpr ⟨countDown mapNew (state.vvNew slot), ?_, later⟩, empty⟩
        rw [checkNewSlot_ok, if_pos used]
        exact ⟨place used, present, rfl⟩
    · rw [if_neg used]
      have first : state.checkNewSlot hashOf mapNew slot = .ok mapNew := by
        rw [checkNewSlot_ok, if_neg used]
      rw [first]
      constructor
      · intro ran
        obtain ⟨others, counts⟩ := (ih positive).mp ran
        exact ⟨⟨fun inUse => absurd inUse used, others⟩, counts⟩
      · rintro ⟨⟨_, others⟩, counts⟩
        exact (ih positive).mpr ⟨others, counts⟩

/-! ## The whole check -/

/-- The sets as they stand after the loop over the entries. -/
def seenAll (state : CAddrMan) : Seen := state.mapInfo.entries.foldl note {}

theorem mem_setTried : n ∈ state.seenAll.setTried ↔
    ∃ info, state.mapInfo.lookup n = some info ∧ info.fInTried = true := by
  unfold seenAll
  rw [setTried_foldl_note, append_nil, mem_reverse, List.mem_map]
  constructor
  · rintro ⟨⟨_, info⟩, inside, rfl⟩
    obtain ⟨member, tried⟩ := mem_filter.mp inside
    exact ⟨info, mem_lookup_iff.mpr member, tried⟩
  · rintro ⟨info, found, tried⟩
    exact ⟨⟨n, info⟩, mem_filter.mpr ⟨mem_lookup_iff.mp found, tried⟩, rfl⟩

theorem nodup_setTried : state.seenAll.setTried.Nodup := by
  unfold seenAll
  rw [setTried_foldl_note, append_nil, nodup_reverse]
  exact List.Nodup.sublist (filter_sublist.map _) state.mapInfo.nodupKeys

theorem length_setTried : state.seenAll.setTried.length = triedCount state.mapInfo.entries := by
  unfold seenAll triedCount
  rw [setTried_foldl_note, append_nil, length_reverse, length_map,
    countP_eq_length_filter]

theorem mapNew_entries : state.seenAll.mapNew.entries =
    ((state.mapInfo.entries.filter fun entry => !entry.2.fInTried).map fun entry =>
      (⟨entry.1, entry.2.nRefCount⟩ : Sigma fun _ : Int => Int)).reverse := by
  unfold seenAll
  rw [mapNew_foldl_note _ _ state.mapInfo.nodupKeys fun _ _ => notMem_empty _]
  exact append_nil _

theorem length_mapNew : state.seenAll.mapNew.entries.length = newCount state.mapInfo.entries := by
  unfold newCount
  rw [mapNew_entries, length_reverse, length_map, countP_eq_length_filter]

theorem lookup_mapNew {left : Int} : state.seenAll.mapNew.lookup n = some left ↔
    ∃ info, state.mapInfo.lookup n = some info ∧ info.fInTried = false ∧ info.nRefCount = left := by
  rw [← mem_def, mem_lookup_iff, mapNew_entries, mem_reverse, List.mem_map]
  constructor
  · rintro ⟨⟨_, info⟩, inside, same⟩
    obtain ⟨member, new⟩ := mem_filter.mp inside
    cases same
    exact ⟨info, mem_lookup_iff.mpr member, (Bool.not_eq_true' _).mp new, rfl⟩
  · rintro ⟨info, found, new, rfl⟩
    exact ⟨⟨n, info⟩, mem_filter.mpr ⟨mem_lookup_iff.mp found,
      (Bool.not_eq_true' _).mpr new⟩, rfl⟩

/-- The check, with its loops replaced by what they find out. -/
theorem check_ok : state.check hashOf = .ok () ↔
    (state.vRandom.length : Int) = state.nTried + state.nNew ∧
      (∀ n info, state.mapInfo.lookup n = some info → state.EntryOk n info) ∧
      (triedCount state.mapInfo.entries : Int) = state.nTried ∧
      (newCount state.mapInfo.entries : Int) = state.nNew ∧
      ((∀ slot, state.vvTried slot ≠ -1 →
        (state.infoAt (state.vvTried slot)).triedSlot hashOf state.nKey = slot) ∧
        (heldIds state.vvTried (allSlots _ _)).Perm state.seenAll.setTried) ∧
      ((∀ slot, state.vvNew slot ≠ -1 →
        (state.infoAt (state.vvNew slot)).newSlot hashOf state.nKey slot.1 = slot) ∧
        ∀ n, ((heldIds state.vvNew (allSlots _ _)).count n : Int) =
          (state.seenAll.mapNew.lookup n).getD 0) ∧
      state.nKey ≠ 0 := by
  have entriesOk : (∀ entry ∈ state.mapInfo.entries, state.EntryOk entry.1 entry.2) ↔
      ∀ n info, state.mapInfo.lookup n = some info → state.EntryOk n info := by
    constructor
    · exact fun ok n info found => ok ⟨n, info⟩ (mem_lookup_iff.mp found)
    · rintro ok ⟨n, info⟩ inside
      exact ok n info (mem_lookup_iff.mpr inside)
  have positive : (∀ n info, state.mapInfo.lookup n = some info → state.EntryOk n info) →
      ∀ {n left}, state.seenAll.mapNew.lookup n = some left → 0 < left := by
    intro ok n left found
    obtain ⟨info, inMap, new, rfl⟩ := lookup_mapNew.mp found
    have least := ((ok _ _ inMap).new new).1
    omega
  have tried := @foldlM_checkTriedSlot hashOf state (allSlots _ _) state.seenAll.setTried
  unfold check
  rw [failIf_bind, bind_ok, not_not]
  refine and_congr_right fun _ => ?_
  constructor
  · rintro ⟨seen, ran, rest⟩
    obtain ⟨ok, rfl⟩ := (foldlM_checkEntry _).mp ran
    rw [failIf_bind, failIf_bind, bind_ok, not_not, not_not] at rest
    obtain ⟨nTried, nNew, setTried, triedRan, rest⟩ := rest
    obtain ⟨mapNew, newRan, rest⟩ := bind_ok.mp rest
    rw [failIf_bind, failIf_bind, failIf_ok, not_not, not_not] at rest
    obtain ⟨rfl, empty, key⟩ := rest
    have ok := entriesOk.mp ok
    obtain ⟨places, perm⟩ := tried.mp triedRan
    obtain ⟨newPlaces, counts⟩ := (foldlM_checkNewSlot _ (positive ok)).mp ⟨mapNew, newRan, empty⟩
    exact ⟨ok, length_setTried ▸ nTried, length_mapNew ▸ nNew,
      ⟨fun slot => places slot (mem_allSlots slot), perm⟩,
      ⟨fun slot => newPlaces slot (mem_allSlots slot), counts⟩, key⟩
  · rintro ⟨ok, nTried, nNew, ⟨places, perm⟩, ⟨newPlaces, counts⟩, key⟩
    refine ⟨state.seenAll, (foldlM_checkEntry _).mpr ⟨entriesOk.mpr ok, rfl⟩, ?_⟩
    rw [failIf_bind, failIf_bind, bind_ok, not_not, not_not, length_setTried, length_mapNew]
    obtain ⟨mapNew, newRan, empty⟩ := (foldlM_checkNewSlot _ (positive ok)).mpr
      ⟨fun slot _ => newPlaces slot, counts⟩
    refine ⟨nTried, nNew, [], tried.mpr ⟨fun slot _ => places slot, perm⟩,
      bind_ok.mpr ⟨mapNew, newRan, ?_⟩⟩
    rw [failIf_bind, failIf_bind, failIf_ok, not_not, not_not]
    exact ⟨rfl, empty, key⟩

theorem mem_heldIds {Slot : Type} {table : Slot → Int} {slots : List Slot} :
    n ∈ heldIds table slots ↔ n ≠ -1 ∧ ∃ slot ∈ slots, table slot = n := by
  unfold heldIds
  rw [List.mem_map]
  constructor
  · rintro ⟨slot, inside, rfl⟩
    obtain ⟨member, used⟩ := mem_filter.mp inside
    exact ⟨of_decide_eq_true used, slot, member, rfl⟩
  · rintro ⟨used, slot, member, rfl⟩
    exact ⟨slot, mem_filter.mpr ⟨member, decide_eq_true used⟩, rfl⟩

theorem count_heldIds {rows columns : Nat} (table : Fin rows × Fin columns → Int) (n : Int) :
    (heldIds table (allSlots rows columns)).count n = if n ≠ -1 then holders table n else 0 := by
  split
  case isTrue used =>
    rw [← count_map_allSlots]
    unfold heldIds
    change countP (· == n) _ = countP (· == n) _
    rw [countP_map, countP_filter, countP_map]
    refine countP_congr fun slot _ => ?_
    rw [Bool.and_eq_true]
    constructor
    · exact fun both => both.1
    · intro same
      refine ⟨same, decide_eq_true ?_⟩
      rw [beq_iff_eq.mp same]
      exact used
  case isFalse empty =>
    rw [count_eq_zero, mem_heldIds]
    exact fun both => empty both.1

/-- `Check_` returns zero exactly when the structures agree. -/
theorem check_ok_iff : state.check hashOf = .ok () ↔ state.Consistent hashOf := by
  rw [check_ok]
  have infoAt : ∀ {n info}, state.mapInfo.lookup n = some info → state.infoAt n = info := by
    intro n info found
    unfold CAddrMan.infoAt
    rw [found]
    rfl
  constructor
  · rintro ⟨size, entry, nTried, nNew, ⟨places, perm⟩, ⟨newPlaces, counts⟩, key⟩
    have triedSlot : ∀ {slot}, state.vvTried slot ≠ -1 → ∃ info,
        state.mapInfo.lookup (state.vvTried slot) = some info ∧ info.fInTried = true ∧
          info.triedSlot hashOf state.nKey = slot := by
      intro slot used
      obtain ⟨info, found, tried⟩ := mem_setTried.mp
        (perm.mem_iff.mp (mem_heldIds.mpr ⟨used, slot, mem_allSlots slot, rfl⟩))
      have place := places slot used
      rw [infoAt found] at place
      exact ⟨info, found, tried, place⟩
    refine ⟨size, fun found => entry _ _ found, nTried, nNew, triedSlot, fun {n info} found tried => ?_,
      fun {slot} used => ?_, fun {n info} found new => ?_, key⟩
    · obtain ⟨used, slot, _, rfl⟩ := mem_heldIds.mp
        (perm.mem_iff.mpr (mem_setTried.mpr ⟨info, found, tried⟩))
      have place := places slot used
      rw [infoAt found] at place
      exact ⟨used, congrArg state.vvTried place⟩
    · have more := counts (state.vvNew slot)
      rw [count_heldIds, if_pos used] at more
      have held : 0 < holders state.vvNew (state.vvNew slot) := holders_pos.mpr ⟨slot, rfl⟩
      cases inMap : state.seenAll.mapNew.lookup (state.vvNew slot) with
      | none =>
        rw [inMap] at more
        change _ = (0 : Int) at more
        omega
      | some left =>
        obtain ⟨info, found, new, _⟩ := lookup_mapNew.mp inMap
        have place := newPlaces slot used
        rw [infoAt found] at place
        exact ⟨info, found, new, place⟩
    · have left := counts n
      have least := ((entry n info found).new new).1
      rw [lookup_mapNew.mpr ⟨info, found, new, rfl⟩, count_heldIds, getD_some] at left
      by_cases used : n ≠ -1
      · rw [if_pos used] at left
        exact ⟨used, left⟩
      · rw [if_neg used] at left
        omega
  · intro consistent
    refine ⟨consistent.size, fun _ _ found => consistent.entry found, consistent.nTried, consistent.nNew,
      ⟨fun slot used => ?_, ?_⟩, ⟨fun slot used => ?_, fun n => ?_⟩, consistent.key⟩
    · obtain ⟨info, found, _, place⟩ := consistent.triedSlot used
      rw [infoAt found]
      exact place
    · refine (perm_ext_iff_of_nodup ?_ nodup_setTried).mpr fun n => ?_
      · refine List.Nodup.map_on ?_ ((nodup_allSlots _ _).filter _)
        intro first inside second insideToo same
        have used : state.vvTried first ≠ -1 := of_decide_eq_true (mem_filter.mp inside).2
        have usedToo : state.vvTried second ≠ -1 := of_decide_eq_true (mem_filter.mp insideToo).2
        obtain ⟨info, found, _, place⟩ := consistent.triedSlot used
        obtain ⟨infoToo, foundToo, _, placeToo⟩ := consistent.triedSlot usedToo
        rw [same] at found
        cases found.symm.trans foundToo
        exact place.symm.trans placeToo
      · rw [mem_heldIds, mem_setTried]
        constructor
        · rintro ⟨used, slot, _, rfl⟩
          obtain ⟨info, found, tried, _⟩ := consistent.triedSlot used
          exact ⟨info, found, tried⟩
        · rintro ⟨info, found, tried⟩
          obtain ⟨used, held⟩ := consistent.triedHeld found tried
          exact ⟨used, _, mem_allSlots _, held⟩
    · obtain ⟨info, found, _, place⟩ := consistent.newSlot used
      rw [infoAt found]
      exact place
    · rw [count_heldIds]
      cases inMap : state.seenAll.mapNew.lookup n with
      | some left =>
        obtain ⟨info, found, new, rfl⟩ := lookup_mapNew.mp inMap
        obtain ⟨used, held⟩ := consistent.newHeld found new
        rw [if_pos used, held]
        rfl
      | none =>
        split
        case isFalse => rfl
        case isTrue used =>
          have none_held : holders state.vvNew n = 0 := by
            rw [holders_eq_zero]
            rintro slot rfl
            obtain ⟨info, found, new, _⟩ := consistent.newSlot used
            cases inMap.symm.trans (lookup_mapNew.mpr ⟨info, found, new, rfl⟩)
          rw [none_held]
          rfl

end CAddrMan

end CentNode
