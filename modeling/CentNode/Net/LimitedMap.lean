import CentNode.Library.Runs
import CentNode.Library.StdMap

/-!
# The limited map

`limitedmap` of `limitedmap.h`, which holds the requests for inventory.  It evicts an entry when
a new one makes the map as large as its limit, so it never holds as many entries as that.
-/

namespace CentNode

open List StdMap Runs

variable {K V : Type} [LinearOrder V]

/-- An iterator into `map` is the key of its element; `rmap` is in the order of the values. -/
structure LimitedMap (K V : Type) where
  map : StdMap K V
  rmap : List (V × K) := []
  nMaxSize : Nat

namespace LimitedMap

/-- A call; `update` takes an iterator. -/
inductive Call (K V : Type) where
  | insert (x : K × V)
  | erase (k : K)
  | update (itIn : K) (v : V)

def size (m : LimitedMap K V) : Nat := m.map.keys.length

/-- `rmap.insert`, behind the entries of equal value. -/
def insertBehind (entry : V × K) (rmap : List (V × K)) : List (V × K) :=
  rmap.orderedInsert (fun first second => first.1 < second.1) entry

theorem perm_insertBehind (entry : V × K) (rmap : List (V × K)) :
    (insertBehind entry rmap).Perm (entry :: rmap) := perm_orderedInsert _ entry rmap

theorem sorted_insertBehind (entry : V × K) {rmap : List (V × K)}
    (sorted : rmap.Pairwise fun first second => first.1 ≤ second.1) :
    (insertBehind entry rmap).Pairwise fun first second => first.1 ≤ second.1 := by
  induction rmap with
  | nil => exact pairwise_singleton _ _
  | cons first rest ih =>
    obtain ⟨least, others⟩ := pairwise_cons.mp sorted
    rw [insertBehind, orderedInsert_cons]
    split_ifs with less
    · refine pairwise_cons.mpr ⟨forall_mem_cons.mpr ⟨less.le, fun other member => ?_⟩, sorted⟩
      exact less.le.trans (least other member)
    · refine pairwise_cons.mpr ⟨fun other member => ?_, ih others⟩
      rcases mem_cons.mp ((perm_insertBehind entry rest).mem_iff.mp member) with rfl | later
      · exact not_lt.mp less
      · exact least other later

variable [DecidableEq K]

/-- `none` where `rmap.begin()` is the end of an empty `rmap`. -/
def insert (m : LimitedMap K V) (x : K × V) : Option (LimitedMap K V) :=
  if x.1 ∈ m.map then some m
  else
    let map := m.map.insert x.1 x.2
    if m.nMaxSize ≠ 0 ∧ map.keys.length = m.nMaxSize then
      match m.rmap with
      | [] => none
      | first :: rest =>
        some { m with map := map.erase first.2, rmap := insertBehind (x.2, x.1) rest }
    else some { m with map := map, rmap := insertBehind (x.2, x.1) m.rmap }

/-- `none` where the assertion fails. -/
def erase (m : LimitedMap K V) (k : K) : Option (LimitedMap K V) :=
  match m.map.lookup k with
  | none => some m
  | some value =>
    if (value, k) ∈ m.rmap then
      some { m with map := m.map.erase k, rmap := m.rmap.erase (value, k) }
    else none

/-- `none` where the assertion fails. -/
def update (m : LimitedMap K V) (itIn : K) (v : V) : Option (LimitedMap K V) :=
  match m.map.lookup itIn with
  | none => some m
  | some value =>
    if (value, itIn) ∈ m.rmap then
      some { m with
        map := m.map.insert itIn v
        rmap := insertBehind (v, itIn) (m.rmap.erase (value, itIn)) }
    else none

def step (m : LimitedMap K V) : Call K V → Option (LimitedMap K V)
  | .insert x => m.insert x
  | .erase k => m.erase k
  | .update itIn v => m.update itIn v

/-! ## The two maps -/

/-- Both maps hold the same entries, each key once, and `rmap` has them by value. -/
structure InStep (map : StdMap K V) (rmap : List (V × K)) : Prop where
  entries : ∀ {k value}, map.lookup k = some value ↔ (value, k) ∈ rmap
  unique : (rmap.map Prod.snd).Nodup
  sorted : rmap.Pairwise fun first second => first.1 ≤ second.1

variable {map next : StdMap K V} {rmap : List (V × K)} {k : K} {v value : V}

theorem InStep.insert (inStep : InStep map rmap) (new : map.lookup k = none)
    (lookup : ∀ other, next.lookup other = if other = k then some v else map.lookup other) :
    InStep next (insertBehind (v, k) rmap) where
  entries := by
    intro other value
    rw [lookup, (perm_insertBehind _ rmap).mem_iff, mem_cons, Prod.mk.injEq, ← inStep.entries]
    split_ifs with same
    · subst same
      simp [new, eq_comm]
    · simp [same]
  unique := by
    rw [((perm_insertBehind (v, k) rmap).map Prod.snd).nodup_iff, map_cons, nodup_cons]
    refine ⟨fun member => ?_, inStep.unique⟩
    obtain ⟨⟨value, _⟩, there, rfl⟩ := List.mem_map.mp member
    cases new.symm.trans (inStep.entries.mpr there)
  sorted := sorted_insertBehind _ inStep.sorted

theorem InStep.erase (inStep : InStep map rmap) (found : map.lookup k = some value) :
    InStep (map.erase k) (rmap.erase (value, k)) := by
  have listed := inStep.unique.of_map
  refine ⟨fun {other held} => ?_, inStep.unique.sublist (erase_sublist.map _),
    inStep.sorted.sublist erase_sublist⟩
  rw [lookup_erase_ite, listed.mem_erase_iff, ← inStep.entries]
  split_ifs with same
  · subst same
    refine iff_of_false id ?_
    rintro ⟨differ, heldToo⟩
    cases found.symm.trans heldToo
    exact differ rfl
  · simp [same]

/-! ## The calls -/

/-- What a call is meant to do: a map of `limit` entries loses one of least value to a new key. -/
def Meant (limit : Nat) (m : LimitedMap K V) (next : StdMap K V) : Call K V → Prop
  | .insert (k, v) =>
    if k ∈ m.map then next = m.map
    else if m.size < limit then next = m.map.insert k v
    else ∃ least value, m.map.lookup least = some value ∧
      (∀ other held, m.map.lookup other = some held → value ≤ held) ∧
      next = (m.map.insert k v).erase least
  | .erase k => next = m.map.erase k
  | .update k v => next = if k ∈ m.map then m.map.insert k v else m.map

/-- The call ends, and both maps hold the entries that it is meant to leave. -/
def Correct (limit : Nat) (m : LimitedMap K V) (call : Call K V) : Prop :=
  ∃ next, m.step call = some next ∧ InStep next.map next.rmap ∧ next.size ≤ limit ∧
    m.Meant limit next.map call

/-- A new key comes to a map that has room for just one more. -/
def Fills (m : LimitedMap K V) : Call K V → Prop
  | .insert x => x.1 ∉ m.map ∧ m.size + 1 = m.nMaxSize
  | _ => False

/-- What holds between calls: one entry is always left free. -/
structure Kept (limit : Nat) (m : LimitedMap K V) : Prop where
  inStep : InStep m.map m.rmap
  nMaxSize : m.nMaxSize = limit + 1
  size : m.size ≤ limit

variable {limit : Nat} {m : LimitedMap K V}

/-- A call that does not fill the map evicts nothing. -/
theorem Kept.step (kept : m.Kept limit) {call : Call K V} (free : ¬ m.Fills call) :
    ∃ next, m.step call = some next ∧ next.Kept limit ∧
      ∀ {bound}, limit ≤ bound → m.Meant bound next.map call := by
  obtain ⟨inStep, nMaxSize, size⟩ := kept
  cases call with
  | insert x =>
    obtain ⟨k, v⟩ := x
    by_cases known : k ∈ m.map
    · exact ⟨m, if_pos known, ⟨inStep, nMaxSize, size⟩, fun _ => by rw [Meant, if_pos known]⟩
    · have room : m.size + 1 ≠ m.nMaxSize := fun fills => free ⟨known, fills⟩
      have grown := length_keys_insert known v
      refine ⟨⟨m.map.insert k v, insertBehind (v, k) m.rmap, m.nMaxSize⟩, ?_, ⟨?_, nMaxSize, ?_⟩,
        fun within => ?_⟩
      · rw [LimitedMap.step, LimitedMap.insert, if_neg known, if_neg]
        rintro ⟨_, full⟩
        exact room (grown.symm.trans full)
      · exact inStep.insert (AList.lookup_eq_none.mpr known) fun _ => lookup_insert_ite ..
      · change (m.map.insert k v).keys.length ≤ limit
        change m.map.keys.length + 1 ≠ _ at room
        change m.map.keys.length ≤ limit at size
        omega
      · rw [Meant, if_neg known, if_pos (by omega)]
  | erase k =>
    cases found : m.map.lookup k with
    | none =>
      refine ⟨m, ?_, ⟨inStep, nMaxSize, size⟩, fun _ => ?_⟩
      · rw [LimitedMap.step, LimitedMap.erase, found]
      · exact AList.ext (kerase_of_notMem_keys (AList.lookup_eq_none.mp found)).symm
    | some value =>
      refine ⟨⟨m.map.erase k, m.rmap.erase (value, k), m.nMaxSize⟩, ?_,
        ⟨inStep.erase found, nMaxSize, ?_⟩, fun _ => rfl⟩
      · rw [LimitedMap.step, LimitedMap.erase, found]
        exact if_pos (inStep.entries.mp found)
      · exact (length_keys_erase (mem_of_lookup found)).trans_le ((Nat.sub_le _ _).trans size)
  | update k v =>
    cases found : m.map.lookup k with
    | none =>
      refine ⟨m, ?_, ⟨inStep, nMaxSize, size⟩, fun _ => ?_⟩
      · rw [LimitedMap.step, LimitedMap.update, found]
      · exact (if_neg (AList.lookup_eq_none.mp found)).symm
    | some value =>
      have known := mem_of_lookup found
      refine ⟨⟨m.map.insert k v, insertBehind (v, k) (m.rmap.erase (value, k)), m.nMaxSize⟩, ?_,
        ⟨?_, nMaxSize, ?_⟩, fun _ => (if_pos known).symm⟩
      · rw [LimitedMap.step, LimitedMap.update, found]
        exact if_pos (inStep.entries.mp found)
      · refine (inStep.erase found).insert (AList.lookup_erase k m.map) fun other => ?_
        rw [lookup_insert_ite]
        split_ifs with same
        · rfl
        · exact (AList.lookup_erase_ne same).symm
      · have some_ := length_pos_of_mem (AList.mem_keys.mp known)
        change (m.map.insert k v).keys.length ≤ limit
        change m.map.keys.length ≤ limit at size
        rw [AList.keys_insert, length_cons, length_erase_of_mem (AList.mem_keys.mp known)]
        omega

/-- A call that fills the map evicts an entry of least value, if there is one. -/
theorem Kept.fill (kept : m.Kept limit) (some_ : 0 < limit) {call : Call K V}
    (fills : m.Fills call) :
    ∃ next, m.step call = some next ∧ next.Kept limit ∧ m.Meant limit next.map call := by
  obtain ⟨inStep, nMaxSize, size⟩ := kept
  cases call with
  | erase k => exact fills.elim
  | update k v => exact fills.elim
  | insert x =>
    obtain ⟨k, v⟩ := x
    obtain ⟨new, full⟩ := fills
    have length : m.map.keys.length = limit := Nat.succ.inj (full.trans nMaxSize)
    have grown := (length_keys_insert new v).trans full
    obtain ⟨map, rmap, _⟩ := m
    cases rmap with
    | nil =>
      obtain ⟨any, member⟩ := exists_mem_of_length_pos (length ▸ some_)
      obtain ⟨held, found⟩ := Option.isSome_iff_exists.mp
        (AList.lookup_isSome.mpr (AList.mem_keys.mpr member))
      cases inStep.entries.mp found
    | cons first rest =>
      obtain ⟨value, least⟩ := first
      have found : map.lookup least = some value := inStep.entries.mpr mem_cons_self
      have known := mem_of_lookup found
      have differ : k ≠ least := by
        rintro rfl
        exact new known
      have erased := inStep.erase found
      rw [erase_cons_head] at erased
      have left : ((map.insert k v).erase least).keys.length = limit :=
        (length_keys_erase ((AList.mem_insert _).mpr (.inr known))).trans (by dsimp only at nMaxSize grown; omega)
      refine ⟨⟨(map.insert k v).erase least, insertBehind (v, k) rest, _⟩, ?_,
        ⟨erased.insert ?_ fun other => ?_, nMaxSize, by exact left.le⟩, ?_⟩
      · rw [LimitedMap.step, LimitedMap.insert, if_neg new]
        exact if_pos ⟨by dsimp only at nMaxSize ⊢; omega, grown⟩
      · rw [AList.lookup_erase_ne differ]
        exact AList.lookup_eq_none.mpr new
      · rw [lookup_erase_ite, lookup_insert_ite, lookup_erase_ite]
        split_ifs with same sameToo
        · exact absurd (sameToo.symm.trans same) differ
        · rfl
        · rfl
        · rfl
      · rw [Meant, if_neg new, if_neg (by exact length.not_lt)]
        refine ⟨least, value, found, fun other held there => ?_, rfl⟩
        rcases mem_cons.mp (inStep.entries.mp there) with same | later
        · exact (Prod.mk.inj same).1.ge
        · exact (pairwise_cons.mp inStep.sorted).1 _ later

/-- A call that fills the map does not leave the new entry beside all others. -/
theorem Kept.not_correct (kept : m.Kept limit) {call : Call K V} (fills : m.Fills call) :
    ¬ m.Correct (limit + 1) call := by
  rintro ⟨next, stepped, _, _, meant⟩
  obtain ⟨inStep, nMaxSize, size⟩ := kept
  cases call with
  | erase k => exact fills.elim
  | update k v => exact fills.elim
  | insert x =>
    obtain ⟨k, v⟩ := x
    obtain ⟨new, full⟩ := fills
    have grown := (length_keys_insert new v).trans full
    rw [Meant, if_neg new, if_pos (Nat.lt_succ_of_le size)] at meant
    rw [LimitedMap.step, LimitedMap.insert, if_neg new] at stepped
    rw [if_pos ⟨by omega, grown⟩] at stepped
    cases listed : m.rmap with
    | nil =>
      rw [listed] at stepped
      cases stepped
    | cons first rest =>
      rw [listed] at stepped
      cases stepped
      have known := mem_of_lookup (inStep.entries.mpr (listed ▸ mem_cons_self))
      have inside : first.2 ∈ m.map.insert k v := (AList.mem_insert _).mpr (.inr known)
      have shrunk := length_keys_erase inside
      have same := congrArg (fun map : StdMap K V => map.keys.length) meant
      dsimp only at grown same
      omega

def empty (nMaxSize : Nat) : LimitedMap K V := { map := ∅, nMaxSize := nMaxSize }

theorem kept_empty (limit : Nat) : (empty (limit + 1) : LimitedMap K V).Kept limit where
  inStep := ⟨fun {_ _} => by simp [empty], nodup_nil, .nil⟩
  nMaxSize := rfl
  size := Nat.zero_le _

/-- A map is what it is meant to be as long as no call fills it.  With a limit of two or more it
always is a map with a limit that is less by one. -/
theorem correct_along_calls (limit : Nat) (calls : List (Call K V)) :
    (Meets step (Correct (limit + 1)) (empty (limit + 1)) calls ↔
      Meets step (fun m call => ¬ m.Fills call) (empty (limit + 1)) calls) ∧
    (0 < limit → Meets step (Correct limit) (empty (limit + 1)) calls) := by
  have small {bound : Nat} {m next : LimitedMap K V} {call : Call K V} (within : limit ≤ bound)
      (kept : next.Kept limit) (stepped : m.step call = some next)
      (meant : m.Meant bound next.map call) : m.Correct bound call :=
    ⟨next, stepped, kept.inStep, kept.size.trans within, meant⟩
  refine ⟨meets_iff_of_kept (fun m call next kept correct stepped => ?_) (fun m call kept => ?_)
    (kept_empty limit), fun some_ => ?_⟩
  · obtain ⟨other, steppedToo, keptToo, _⟩ := kept.step fun fills => kept.not_correct fills correct
    cases stepped.symm.trans steppedToo
    exact keptToo
  · refine ⟨fun correct fills => kept.not_correct fills correct, fun free => ?_⟩
    obtain ⟨next, stepped, keptToo, meant⟩ := kept.step free
    exact small (Nat.le_succ limit) keptToo stepped (meant (Nat.le_succ limit))
  · have progress (m : LimitedMap K V) (call : Call K V) (kept : m.Kept limit) :
        ∃ next, m.step call = some next ∧ next.Kept limit ∧ m.Meant limit next.map call := by
      by_cases fills : m.Fills call
      · exact kept.fill some_ fills
      · obtain ⟨next, stepped, keptToo, meant⟩ := kept.step fills
        exact ⟨next, stepped, keptToo, meant le_rfl⟩
    refine (meets_iff_of_kept (fun m call next kept _ stepped => ?_) (fun m call kept => ?_)
      (kept_empty limit)).mpr (Meets.trivial step _ calls)
    · obtain ⟨other, steppedToo, keptToo, _⟩ := progress m call kept
      cases stepped.symm.trans steppedToo
      exact keptToo
    · obtain ⟨next, stepped, keptToo, meant⟩ := progress m call kept
      exact iff_of_true (small le_rfl keptToo stepped meant) True.intro

/-- The second entry evicts the first one, where the limit is two. -/
theorem second_evicts : ¬ ∀ calls : List (Call Nat Nat),
    Meets step (Correct 2) (empty 2) calls := by
  intro correct
  obtain ⟨_, along⟩ := correct [.insert (1, 1), .insert (2, 2)]
  obtain ⟨⟨next, stepped, _, _, meant⟩, _⟩ := along _ rfl
  cases stepped
  rw [Meant, if_neg (by decide), if_pos (by decide)] at meant
  exact absurd (congrArg (fun map => map.keys.length) meant) (by decide)

end LimitedMap

end CentNode
