import CentNode.Library.StdMap
import Mathlib.Data.Finset.Basic

/-!
# Maps to sets

A map whose values are sets keeps the members of many keys.  A set is made when
its first member comes and dropped when its last one goes, so that a key without
members is not in the map.
-/

/-- `std::map<K, std::set<M>>`. -/
abbrev MultiMap (K M : Type) : Type := StdMap K (Finset M)

namespace MultiMap

open StdMap Option

variable {K M : Type} [DecidableEq K] [DecidableEq M]

def members (map : MultiMap K M) (key : K) : Finset M := (map.lookup key).getD ∅

def insertMember (member : M) (map : MultiMap K M) (key : K) : MultiMap K M :=
  AList.insert key (insert member (map.members key)) map

/-- A member is taken out of the set of a key, and the key with its last member. -/
def eraseMember (member : M) (map : MultiMap K M) (key : K) : MultiMap K M :=
  match map.lookup key with
  | none => map
  | some held =>
    if held.erase member = ∅ then AList.erase key map
    else AList.insert key (held.erase member) map

/-- No key is without members. -/
def NoneEmpty (map : MultiMap K M) : Prop := ∀ key held, map.lookup key = some held → held.Nonempty

variable {map : MultiMap K M}

omit [DecidableEq M] in
theorem NoneEmpty.lookup_eq_none_iff (full : map.NoneEmpty) {key : K} :
    map.lookup key = none ↔ map.members key = ∅ := by
  unfold members
  cases found : map.lookup key with
  | none => exact iff_of_true rfl rfl
  | some held => exact iff_of_false (some_ne_none held) (full key held found).ne_empty

theorem members_insertMember (member : M) (map : MultiMap K M) (key other : K) :
    members (map.insertMember member key) other =
      if other = key then insert member (map.members key) else map.members other := by
  rw [insertMember, members, lookup_insert_ite]
  split
  · rfl
  · rfl

theorem NoneEmpty.insertMember (full : map.NoneEmpty) (member : M) (key : K) :
    NoneEmpty (map.insertMember member key) := by
  intro other held found
  rw [MultiMap.insertMember, lookup_insert_ite] at found
  split at found
  · cases found
    exact Finset.insert_nonempty _ _
  · exact full other held found

theorem members_eraseMember (member : M) (map : MultiMap K M) (key other : K) :
    members (map.eraseMember member key) other =
      if other = key then (map.members key).erase member else map.members other := by
  unfold eraseMember
  cases found : map.lookup key with
  | none =>
    have empty : map.members key = ∅ := by rw [members, found, getD_none]
    dsimp only
    split
    · next same => rw [same, empty, Finset.erase_empty]
    · rfl
  | some held =>
    have held_eq : map.members key = held := by rw [members, found, getD_some]
    dsimp only
    split
    · next last =>
        rw [members, lookup_erase_ite, held_eq, last]
        split
        · rfl
        · rfl
    · rw [members, lookup_insert_ite, held_eq]
      split
      · rfl
      · rfl

theorem NoneEmpty.eraseMember (full : map.NoneEmpty) (member : M) (key : K) :
    NoneEmpty (map.eraseMember member key) := by
  intro other held found
  unfold MultiMap.eraseMember at found
  split at found
  · exact full other held found
  · split at found
    · rw [lookup_erase_ite] at found
      split at found
      · cases found
      · exact full other held found
    · next left =>
        rw [lookup_insert_ite] at found
        split at found
        · cases found
          exact Finset.nonempty_iff_ne_empty.mpr left
        · exact full other held found

/-! ## One member under many keys -/

/-- A loop that puts a member under each of some keys. -/
def insertUnder (map : MultiMap K M) (member : M) (keys : List K) : MultiMap K M :=
  keys.foldl (insertMember member) map

/-- A loop that takes a member from under each of some keys. -/
def eraseUnder (map : MultiMap K M) (member : M) (keys : List K) : MultiMap K M :=
  keys.foldl (eraseMember member) map

theorem mem_members_insertUnder {member other : M} {keys : List K} {key : K} :
    other ∈ members (map.insertUnder member keys) key ↔
      (other = member ∧ key ∈ keys) ∨ other ∈ map.members key := by
  induction keys generalizing map with
  | nil => simp [insertUnder]
  | cons first rest ih =>
    have step : map.insertUnder member (first :: rest) =
        insertUnder (map.insertMember member first) member rest := rfl
    rw [step, ih, members_insertMember, List.mem_cons]
    split
    · next same =>
        subst same
        rw [Finset.mem_insert]
        tauto
    · next differ => simp only [differ, false_or]

theorem mem_members_eraseUnder {member other : M} {keys : List K} {key : K} :
    other ∈ members (map.eraseUnder member keys) key ↔
      other ∈ map.members key ∧ ¬ (other = member ∧ key ∈ keys) := by
  induction keys generalizing map with
  | nil => simp [eraseUnder]
  | cons first rest ih =>
    have step : map.eraseUnder member (first :: rest) =
        eraseUnder (map.eraseMember member first) member rest := rfl
    rw [step, ih, members_eraseMember, List.mem_cons]
    split
    · next same =>
        subst same
        rw [Finset.mem_erase]
        tauto
    · next differ => simp only [differ, false_or]

theorem NoneEmpty.insertUnder (full : map.NoneEmpty) (member : M) (keys : List K) :
    NoneEmpty (map.insertUnder member keys) := by
  induction keys generalizing map with
  | nil => exact full
  | cons first rest ih => exact ih (full.insertMember member first)

theorem NoneEmpty.eraseUnder (full : map.NoneEmpty) (member : M) (keys : List K) :
    NoneEmpty (map.eraseUnder member keys) := by
  induction keys generalizing map with
  | nil => exact full
  | cons first rest ih => exact ih (full.eraseMember member first)

end MultiMap
