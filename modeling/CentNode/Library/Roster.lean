import Mathlib.Data.List.Nodup

/-!
# A list whose members know their positions

A vector of names, and for each name the position it is kept at, as a program
keeps them to pick names at random: a name is removed by swapping it with the
last one.  A position is an integer, since a name outside may have any.
-/

namespace Roster

open Function List Option

variable {K : Type}

/-- The names are at their positions, and no other name has one. -/
structure Placed (roster : List K) (position : K → Option Int) : Prop where
  natural : ∀ {name place}, position name = some place → 0 ≤ place
  get_iff : ∀ {index : Nat} {name : K}, roster[index]? = some name ↔ position name = some (index : Int)

variable {roster : List K} {position : K → Option Int}

namespace Placed

theorem empty : Placed ([] : List K) fun _ => none := by
  constructor
  case natural => exact fun impossible => nomatch impossible
  case get_iff =>
    intro index name
    rw [getElem?_nil]
    exact iff_of_false (some_ne_none _).symm (some_ne_none _).symm

section

variable (placed : Placed roster position) {name : K} {place : Int}
  (found : position name = some place)

include placed found

theorem get_of_position : roster[place.toNat]? = some name := by
  rw [placed.get_iff, Int.toNat_of_nonneg (placed.natural found)]
  exact found

theorem lt_of_position : place.toNat < roster.length :=
  (List.getElem?_eq_some_iff.mp (placed.get_of_position found)).1

end

theorem nodup (placed : Placed roster position) : roster.Nodup := by
  rw [nodup_iff_getElem?_ne_getElem?]
  intro i j less inside same
  have found : roster[j]? = some roster[j] := getElem?_eq_getElem inside
  have one := placed.get_iff.mp found
  rw [← same] at found
  have other := placed.get_iff.mp found
  rw [one, Option.some.injEq, Int.natCast_inj] at other
  omega

variable [DecidableEq K]

/-- A new name goes to the end. -/
theorem push (placed : Placed roster position) {name : K} (new : position name = none) :
    Placed (roster ++ [name]) (Function.update position name (some (roster.length : Int))) := by
  constructor
  case natural =>
    intro other place found
    by_cases same : other = name
    · subst same
      rw [update_self] at found
      cases found
      exact Int.natCast_nonneg _
    · rw [update_of_ne same] at found
      exact placed.natural found
  case get_iff =>
    intro index other
    by_cases same : other = name
    · subst same
      rw [update_self, Option.some.injEq, Int.natCast_inj]
      constructor
      · intro found
        rcases Nat.lt_or_ge index roster.length with inside | outside
        · rw [getElem?_append_left inside, placed.get_iff, new] at found
          cases found
        · rw [getElem?_append_right outside, getElem?_singleton] at found
          split at found
          · omega
          · cases found
      · rintro rfl
        exact getElem?_concat_length
    · rw [update_of_ne same, ← placed.get_iff]
      rcases Nat.lt_or_ge index roster.length with inside | outside
      · rw [getElem?_append_left inside]
      · rw [getElem?_append_right outside, getElem?_singleton,
          getElem?_eq_none outside]
        split
        · exact iff_of_false (fun found => same (Option.some.inj found).symm)
            (some_ne_none _).symm
        · exact Iff.rfl

/-- Two names change places. -/
theorem swap (placed : Placed roster position) {i j : Nat} {first second : K} (apart : i ≠ j)
    (atFirst : roster[i]? = some first) (atSecond : roster[j]? = some second) :
    Placed ((roster.set i second).set j first)
      (Function.update (Function.update position first (some (j : Int))) second
        (some (i : Int))) := by
  have firstAt := placed.get_iff.mp atFirst
  have secondAt := placed.get_iff.mp atSecond
  have differ : first ≠ second := by
    rintro rfl
    rw [firstAt, Option.some.injEq, Int.natCast_inj] at secondAt
    exact apart secondAt
  have iLt := (List.getElem?_eq_some_iff.mp atFirst).1
  have jLt := (List.getElem?_eq_some_iff.mp atSecond).1
  constructor
  case natural =>
    intro name place found
    by_cases isSecond : name = second
    · subst isSecond
      rw [update_self] at found
      cases found
      exact Int.natCast_nonneg _
    · rw [update_of_ne isSecond] at found
      by_cases isFirst : name = first
      · subst isFirst
        rw [update_self] at found
        cases found
        exact Int.natCast_nonneg _
      · rw [update_of_ne isFirst] at found
        exact placed.natural found
  case get_iff =>
    intro index name
    have swapped : ((roster.set i second).set j first)[index]? =
        if j = index then some first else if i = index then some second else roster[index]? := by
      rw [getElem?_set, length_set, getElem?_set]
      by_cases isJ : j = index
      · rw [if_pos isJ, if_pos isJ, if_pos jLt]
      · rw [if_neg isJ, if_neg isJ, if_pos iLt]
    rw [swapped]
    by_cases isSecond : name = second
    · subst isSecond
      rw [update_self, Option.some.injEq, Int.natCast_inj]
      by_cases isJ : j = index
      · rw [if_pos isJ, Option.some.injEq]
        exact iff_of_false differ fun same => apart (same.trans isJ.symm)
      · rw [if_neg isJ]
        by_cases isI : i = index
        · rw [if_pos isI]
          exact iff_of_true rfl isI
        · rw [if_neg isI, placed.get_iff, secondAt, Option.some.injEq, Int.natCast_inj]
          exact iff_of_false isJ isI
    rw [update_of_ne isSecond]
    by_cases isFirst : name = first
    · subst isFirst
      rw [update_self, Option.some.injEq, Int.natCast_inj]
      by_cases isJ : j = index
      · rw [if_pos isJ]
        exact iff_of_true rfl isJ
      · rw [if_neg isJ]
        by_cases isI : i = index
        · rw [if_pos isI, Option.some.injEq]
          exact iff_of_false (Ne.symm differ) isJ
        · rw [if_neg isI, placed.get_iff, firstAt, Option.some.injEq, Int.natCast_inj]
          exact iff_of_false isI isJ
    rw [update_of_ne isFirst, ← placed.get_iff]
    by_cases isJ : j = index
    · rw [if_pos isJ, ← isJ, atSecond, Option.some.injEq, Option.some.injEq]
      exact iff_of_false (Ne.symm isFirst) (Ne.symm isSecond)
    · rw [if_neg isJ]
      by_cases isI : i = index
      · rw [if_pos isI, ← isI, atFirst, Option.some.injEq, Option.some.injEq]
        exact iff_of_false (Ne.symm isSecond) (Ne.symm isFirst)
      · rw [if_neg isI]

theorem pop (placed : Placed roster position) {name : K}
    (last : position name = some ((roster.length - 1 : Nat) : Int)) :
    Placed roster.dropLast (Function.update position name none) := by
  have lastAt := placed.get_iff.mpr last
  have nonempty := (List.getElem?_eq_some_iff.mp lastAt).1
  constructor
  case natural =>
    intro other place found
    by_cases same : other = name
    · subst same
      rw [update_self] at found
      cases found
    · rw [update_of_ne same] at found
      exact placed.natural found
  case get_iff =>
    intro index other
    rw [getElem?_dropLast]
    by_cases same : other = name
    · subst same
      rw [update_self]
      refine iff_of_false (fun found => ?_) (some_ne_none _).symm
      split at found
      · next inside =>
          rw [placed.get_iff, last, Option.some.injEq, Int.natCast_inj] at found
          omega
      · cases found
    · rw [update_of_ne same, ← placed.get_iff]
      split
      · exact Iff.rfl
      · next outside =>
          refine iff_of_false (some_ne_none _).symm fun found => ?_
          have inside := (List.getElem?_eq_some_iff.mp found).1
          obtain rfl : index = roster.length - 1 := by omega
          rw [lastAt] at found
          exact same (Option.some.inj found).symm

end Placed

end Roster
