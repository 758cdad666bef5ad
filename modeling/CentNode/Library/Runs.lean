import Mathlib.Logic.Basic

/-!
# Runs of a partial step function

A component is a function that takes a state and an input to the next state,
or to `none` when the input has no successor there (an assertion fails, or the
input is not admitted).  A run feeds it a list of inputs.  The rules below
carry an invariant along a run whose steps all meet a condition on the state
they start from.
-/

namespace Runs

variable {State Input : Type} (step : State → Input → Option State)

def run : State → List Input → Option State
  | state, [] => some state
  | state, input :: rest => (step state input).bind fun next => run next rest

/-- Every step of the run meets `condition` in the state it starts from. -/
def Meets (condition : State → Input → Prop) : State → List Input → Prop
  | _, [] => True
  | state, input :: rest =>
    condition state input ∧ ∀ next, step state input = some next → Meets condition next rest

/-- The run never stops short and every state it passes through satisfies `Property`. -/
def Always (Property : State → Prop) : State → List Input → Prop
  | state, [] => Property state
  | state, input :: rest =>
    Property state ∧ ∃ next, step state input = some next ∧ Always Property next rest

/-- Every state the run passes through satisfies `Property`, as far as it goes. -/
def Throughout (Property : State → Prop) : State → List Input → Prop
  | state, [] => Property state
  | state, input :: rest =>
    Property state ∧ ∀ next, step state input = some next → Throughout Property next rest

variable {step}

variable {state : State}

theorem run_cons {input : Input} {rest : List Input} {final : State}
    (ran : run step state (input :: rest) = some final) :
    ∃ next, step state input = some next ∧ run step next rest = some final :=
  Option.bind_eq_some_iff.mp ran

theorem Meets.cons {condition : State → Input → Prop} {state next : State} {input : Input}
    {rest : List Input} (met : condition state input) (stepped : step state input = some next)
    (along : Meets step condition next rest) : Meets step condition state (input :: rest) := by
  refine ⟨met, fun other steppedToo => ?_⟩
  cases stepped.symm.trans steppedToo
  exact along

variable {condition : State → Input → Prop} {inputs : List Input}

theorem Meets.of_mem (met : ∀ input ∈ inputs, ∀ state, condition state input) (state : State) :
    Meets step condition state inputs := by
  induction inputs generalizing state with
  | nil => exact True.intro
  | cons input rest ih =>
    refine ⟨met input List.mem_cons_self state, fun next _ => ?_⟩
    exact ih (fun other member => met other (List.mem_cons_of_mem input member)) next

/-- Two runs one after the other. -/
theorem Meets.append {state middle : State} {front back : List Input}
    (along : Meets step condition state front) (ran : run step state front = some middle)
    (after : Meets step condition middle back) : Meets step condition state (front ++ back) := by
  induction front generalizing state with
  | nil =>
    cases ran
    exact after
  | cons input rest ih =>
    obtain ⟨next, stepped, ranOn⟩ := run_cons ran
    exact .cons along.1 stepped (ih (along.2 next stepped) ranOn)

theorem Meets.trivial (step : State → Input → Option State) (state : State)
    (inputs : List Input) : Meets step (fun _ _ => True) state inputs :=
  Meets.of_mem (fun _ _ _ => True.intro) state

instance decidableMeets [∀ state input, Decidable (condition state input)] :
    ∀ state inputs, Decidable (Meets step condition state inputs)
  | _, [] => .isTrue True.intro
  | state, input :: rest =>
    have _ : ∀ next, Decidable (Meets step condition next rest) := fun next =>
      decidableMeets next rest
    inferInstanceAs (Decidable (condition state input ∧
      ∀ next ∈ step state input, Meets step condition next rest))

variable {first second : State → Input → Prop}

theorem Meets.and (left : Meets step first state inputs) (right : Meets step second state inputs) :
    Meets step (fun state input => first state input ∧ second state input) state inputs := by
  induction inputs generalizing state with
  | nil => trivial
  | cons input rest ih =>
    exact ⟨⟨left.1, right.1⟩, fun next stepped => ih (left.2 next stepped) (right.2 next stepped)⟩

theorem meets_congr (same : ∀ state input, first state input ↔ second state input) :
    Meets step first state inputs ↔ Meets step second state inputs := by
  induction inputs generalizing state with
  | nil => exact Iff.rfl
  | cons input rest ih =>
    exact and_congr (same state input) (forall_congr' fun next => imp_congr_right fun _ => ih)

variable {Invariant : State → Prop}

/-- Two conditions that agree where an invariant holds agree along a run that keeps it. -/
theorem meets_iff_of_kept (kept : ∀ state input next, Invariant state → first state input →
      step state input = some next → Invariant next)
    (same : ∀ state input, Invariant state → (first state input ↔ second state input))
    (holds : Invariant state) : Meets step first state inputs ↔ Meets step second state inputs := by
  induction inputs generalizing state with
  | nil => exact Iff.rfl
  | cons input rest ih =>
    rw [Meets, Meets, ← same state input holds]
    exact and_congr_right fun here => forall_congr' fun next => imp_congr_right fun stepped =>
      ih (kept state input next holds here stepped)

theorem run_succeeds (progress : ∀ state input, Invariant state → condition state input →
      ∃ next, step state input = some next ∧ Invariant next) (holds : Invariant state)
    (meets : Meets step condition state inputs) :
    ∃ final, run step state inputs = some final ∧ Invariant final := by
  induction inputs generalizing state with
  | nil => exact ⟨state, rfl, holds⟩
  | cons input rest ih =>
    obtain ⟨next, stepped, kept⟩ := progress state input holds meets.1
    obtain ⟨final, ran, ends⟩ := ih kept (meets.2 next stepped)
    exact ⟨final, by simp only [run, stepped, Option.bind_some, ran], ends⟩

variable {Property : State → Prop}

theorem always_of_progress (implies : ∀ state, Invariant state → Property state)
    (progress : ∀ state input, Invariant state → condition state input →
      ∃ next, step state input = some next ∧ Invariant next) (holds : Invariant state)
    (meets : Meets step condition state inputs) : Always step Property state inputs := by
  induction inputs generalizing state with
  | nil => exact implies state holds
  | cons input rest ih =>
    obtain ⟨next, stepped, kept⟩ := progress state input holds meets.1
    exact ⟨implies state holds, next, stepped, ih kept (meets.2 next stepped)⟩

theorem run_append (state : State) (first second : List Input) :
    run step state (first ++ second) =
      (run step state first).bind fun middle => run step middle second := by
  induction first generalizing state with
  | nil => rfl
  | cons input rest ih =>
    change (step state input).bind (fun next => run step next (rest ++ second)) =
      ((step state input).bind fun next => run step next rest).bind fun middle =>
        run step middle second
    rw [Option.bind_assoc]
    exact congrArg (Option.bind (step state input)) (funext ih)

variable {extra : State → Input → Prop}

/-- When a property that holds before a step holds after it exactly if the step
meets `extra`, it holds along a run exactly if all steps of the run do. -/
theorem always_iff_meets (progress : ∀ state input, Invariant state → condition state input →
      ∃ next, step state input = some next ∧ Invariant next)
    (exact : ∀ state input next, Invariant state → condition state input →
      Property state → step state input = some next →
        (Property next ↔ extra state input)) (holds : Invariant state) (property : Property state)
    (meets : Meets step condition state inputs) :
    Always step Property state inputs ↔ Meets step extra state inputs := by
  induction inputs generalizing state with
  | nil => exact ⟨fun _ => trivial, fun _ => property⟩
  | cons input rest ih =>
    obtain ⟨next, stepped, kept⟩ := progress state input holds meets.1
    have here := exact state input next holds meets.1 property stepped
    constructor
    · rintro ⟨_, other, steppedToo, along⟩
      cases stepped.symm.trans steppedToo
      have later : Property next := by
        cases rest with
        | nil => exact along
        | cons _ _ => exact along.1
      refine ⟨here.mp later, fun other steppedToo => ?_⟩
      cases stepped.symm.trans steppedToo
      exact (ih kept later (meets.2 next stepped)).mp along
    · rintro ⟨met, along⟩
      have later := here.mpr met
      exact ⟨property, next, stepped,
        (ih kept later (meets.2 next stepped)).mpr (along next stepped)⟩

theorem Throughout.here (along : Throughout step Property state inputs) : Property state := by
  cases inputs with
  | nil => exact along
  | cons _ _ => exact along.1

theorem Throughout.final {final : State} (along : Throughout step Property state inputs)
    (ran : run step state inputs = some final) : Property final := by
  induction inputs generalizing state with
  | nil =>
    cases ran
    exact along
  | cons input rest ih =>
    obtain ⟨next, stepped, rested⟩ := run_cons ran
    exact ih (along.2 next stepped) rested

theorem throughout_of_kept (implies : ∀ state, Invariant state → Property state)
    (kept : ∀ state input next, Invariant state → condition state input →
      step state input = some next → Invariant next) (holds : Invariant state)
    (meets : Meets step condition state inputs) : Throughout step Property state inputs := by
  induction inputs generalizing state with
  | nil => exact implies state holds
  | cons input rest ih =>
    refine ⟨implies state holds, fun next stepped => ?_⟩
    exact ih (kept state input next holds meets.1 stepped) (meets.2 next stepped)

/-- The same for a component that may stop: the property holds in every state
reached exactly if all steps of the run meet `extra`.  The invariant only has to
survive where the property does. -/
theorem throughout_iff_meets (kept : ∀ state input next, Invariant state → condition state input →
      Property state → step state input = some next → Property next → Invariant next)
    (exact : ∀ state input next, Invariant state → condition state input →
      Property state → step state input = some next → (Property next ↔ extra state input))
    (stuck : ∀ state input, step state input = none → extra state input) (holds : Invariant state)
    (property : Property state) (meets : Meets step condition state inputs) :
    Throughout step Property state inputs ↔ Meets step extra state inputs := by
  induction inputs generalizing state with
  | nil => exact ⟨fun _ => trivial, fun _ => property⟩
  | cons input rest ih =>
    have later := fun next stepped after =>
      ih (kept state input next holds meets.1 property stepped after) after
        (meets.2 next stepped)
    constructor
    · intro along
      refine ⟨?_, fun next stepped => ?_⟩
      · cases stepped : step state input with
        | none => exact stuck state input stepped
        | some next =>
          exact (exact state input next holds meets.1 property stepped).mp
            (along.2 next stepped).here
      · exact (later next stepped (along.2 next stepped).here).mp (along.2 next stepped)
    · rintro ⟨met, along⟩
      refine ⟨property, fun next stepped => ?_⟩
      have after := (exact state input next holds meets.1 property stepped).mpr met
      exact (later next stepped after).mpr (along next stepped)

end Runs
