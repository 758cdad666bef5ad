import Mathlib.Data.List.MinMax
import Mathlib.Data.List.Perm.Basic
import Mathlib.Algebra.Order.Group.Int

/-!
# A register that takes what may follow

A register holds one value.  It takes a new value when it is empty or when the
new value may follow the one it holds.  A list of values leaves the latest one
in the register, in whatever order it comes, when the latest one may follow
every value the register could have taken.
-/

namespace GapRegister

open List

variable {Value : Type} (follows : Value → Value → Prop) [DecidableRel follows]

/-- The register after one more value. -/
def accept (held : Option Value) (value : Value) : Option Value :=
  match held with
  | none => some value
  | some old => if follows old value then some value else some old

def acceptAll (held : Option Value) (values : List Value) : Option Value :=
  values.foldl (accept follows) held

omit [DecidableRel follows] in
theorem exists_latest {value : Value} {values : List Value} (time : Value → Int)
    (member : value ∈ values) :
    ∃ latest ∈ values, ∀ other ∈ values, time other ≤ time latest := by
  obtain ⟨latest, found⟩ : ∃ latest, values.argmax time = some latest :=
    Option.ne_none_iff_exists'.mp fun none => ne_nil_of_mem member (argmax_eq_none.mp none)
  exact ⟨latest, argmax_mem found, fun other inside => le_of_mem_argmax inside found⟩

/-- The value may follow the one that is held. -/
def Eligible (held : Option Value) (value : Value) : Prop := ∀ old ∈ held, follows old value

variable {follows} {held : Option Value} {value latest : Value} {values : List Value}

theorem accept_of_eligible (eligible : Eligible follows held value) :
    accept follows held value = some value := by
  cases held with
  | none => rfl
  | some old => exact if_pos (eligible old rfl)

omit [DecidableRel follows] in
theorem eligible_none : Eligible follows none value := by
  intro old impossible
  cases impossible

omit [DecidableRel follows] in
theorem eligible_some {old : Value} : Eligible follows (some old) value ↔ follows old value := by
  constructor
  · exact fun eligible => eligible old rfl
  · rintro next other same
    cases same
    exact next

theorem accept_of_not_eligible (early : ¬ Eligible follows held value) :
    accept follows held value = held := by
  cases held with
  | none => exact absurd eligible_none early
  | some old => exact if_neg (mt eligible_some.mpr early)

theorem acceptAll_of_early (early : ∀ value ∈ values, ¬ Eligible follows held value) :
    acceptAll follows held values = held := by
  induction values with
  | nil => rfl
  | cons value rest ih =>
    rw [acceptAll, foldl_cons, accept_of_not_eligible (early value mem_cons_self)]
    exact ih fun other member => early other (mem_cons_of_mem value member)

theorem acceptAll_append (first second : List Value) :
    acceptAll follows held (first ++ second) =
      acceptAll follows (acceptAll follows held first) second :=
  foldl_append

theorem acceptAll_cons_stays (eligible : Eligible follows held value)
    (early : ∀ other ∈ values, ¬ follows value other) :
    acceptAll follows held (value :: values) = some value := by
  rw [acceptAll, foldl_cons, accept_of_eligible eligible]
  exact acceptAll_of_early fun other member => mt eligible_some.mp (early other member)

theorem acceptAll_ne (absent : value ∉ values) (other : held ≠ some value) :
    acceptAll follows held values ≠ some value := by
  induction values generalizing held with
  | nil => exact other
  | cons first rest ih =>
    obtain ⟨differs, later⟩ := not_or.mp (mt mem_cons.mpr absent)
    rw [acceptAll, foldl_cons]
    refine ih later ?_
    by_cases eligible : Eligible follows held first
    · rw [accept_of_eligible eligible]
      exact fun same => differs (Option.some.inj same).symm
    · rw [accept_of_not_eligible eligible]
      exact other

/-- A value that comes, however often, where it may not follow, is not the one that is left. -/
theorem acceptAll_ne_of_blocked (blocked : ¬ Eligible follows held value)
    (other : held ≠ some value) {copies : List Value} (same : ∀ copy ∈ copies, copy = value)
    (absent : value ∉ values) : acceptAll follows held (copies ++ values) ≠ some value := by
  have skipped : acceptAll follows held copies = held :=
    acceptAll_of_early fun copy member => (same copy member).symm ▸ blocked
  rw [acceptAll_append, skipped]
  exact acceptAll_ne absent other

/-- A value that may follow all values the register could take is the one that is left. -/
theorem acceptAll_eq_latest (member : latest ∈ values)
    (eligible : Eligible follows held latest)
    (last : ∀ other ∈ values, ¬ follows latest other)
    (trans : ∀ old value, ∀ other ∈ values, follows old latest → follows old value →
      follows value other → follows old other)
    (apart : ∀ other ∈ values, other ≠ latest → Eligible follows held other →
      follows other latest) :
    acceptAll follows held values = some latest := by
  induction values generalizing held with
  | nil => cases member
  | cons value rest ih =>
    have lastLater : ∀ other ∈ rest, ¬ follows latest other :=
      fun other later => last other (mem_cons_of_mem value later)
    by_cases here : value = latest
    · subst here
      exact acceptAll_cons_stays eligible lastLater
    · have inRest : latest ∈ rest := (mem_cons.mp member).resolve_left (Ne.symm here)
      have transLater := fun old value other later =>
        trans old value other (mem_cons_of_mem _ later)
      rw [acceptAll, foldl_cons]
      by_cases possible : Eligible follows held value
      · rw [accept_of_eligible possible]
        refine ih inRest (eligible_some.mpr (apart value mem_cons_self here possible)) lastLater
          transLater fun other later differs next => ?_
        -- what follows the value could have followed the one held before
        refine apart other (mem_cons_of_mem value later) differs fun old same => ?_
        exact transLater old value other later (eligible old same) (possible old same)
          (eligible_some.mp next)
      · rw [accept_of_not_eligible possible]
        exact ih inRest eligible lastLater transLater
          fun other later => apart other (mem_cons_of_mem value later)

end GapRegister
