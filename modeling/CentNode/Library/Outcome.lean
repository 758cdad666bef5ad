import Mathlib.Data.List.Basic

/-!
# Programs that may fail

Two relations on `Except`.  A program meets a contract if its value satisfies
one condition and its failure another; a strict program narrows a lax one if
every value it returns the lax one returns too.  Both go through sequencing.
-/

namespace Outcome

variable {ε α β : Type}

/-- The value of `run` satisfies `post`, or its failure satisfies `fails`. -/
def Meets (run : Except ε α) (post : α → Prop) (fails : ε → Prop) : Prop :=
  match run with
  | .ok value => post value
  | .error failure => fails failure

namespace Meets

variable {run : Except ε α} {post weaker : α → Prop} {fails : ε → Prop}

theorem ok {value : α} (holds : post value) : Meets (.ok value) post fails := holds

theorem error {failure : ε} (allowed : fails failure) :
    Meets (.error failure : Except ε α) post fails := allowed

theorem bind {next : α → Except ε β} {final : β → Prop} (first : Meets run post fails)
    (rest : ∀ value, post value → Meets (next value) final fails) :
    Meets (run >>= next) final fails := by
  cases run with
  | ok value => exact rest value first
  | error failure => exact first

theorem mono (met : Meets run post fails) (weaken : ∀ value, post value → weaker value) :
    Meets run weaker fails := by
  cases run with
  | ok value => exact weaken value met
  | error failure => exact met

theorem ite {cond : Prop} [Decidable cond] {other : Except ε α}
    (positive : cond → Meets run post fails) (negative : ¬cond → Meets other post fails) :
    Meets (if cond then run else other) post fails := by
  split
  · exact positive ‹_›
  · exact negative ‹_›

theorem dite {cond : Prop} [Decidable cond] {accept : cond → Except ε α}
    {refuse : ¬cond → Except ε α} (positive : ∀ holds, Meets (accept holds) post fails)
    (negative : ∀ differs, Meets (refuse differs) post fails) :
    Meets (if holds : cond then accept holds else refuse holds) post fails := by
  split
  · exact positive _
  · exact negative _

theorem mapError {ε' : Type} {rename : ε → ε'} {renamed : ε' → Prop} (met : Meets run post fails)
    (keeps : ∀ failure, fails failure → renamed (rename failure)) :
    Meets (run.mapError rename) post renamed := by
  cases run with
  | ok value => exact met
  | error failure => exact keeps failure met

theorem value {result : α} (met : Meets run post fails) (returns : run = .ok result) :
    post result := by
  rw [returns] at met
  exact met

theorem failure {stop : ε} (met : Meets run post fails) (stops : run = .error stop) :
    fails stop := by
  rw [stops] at met
  exact met

end Meets

/-- Whatever `strict` returns, `lax` returns. -/
def Narrows (strict lax : Except ε α) : Prop := ∀ value, strict = .ok value → lax = .ok value

namespace Narrows

variable {strict lax : Except ε α}

theorem refl (run : Except ε α) : Narrows run run := fun _ returns => returns

theorem bind {strictNext laxNext : α → Except ε β} (first : Narrows strict lax)
    (rest : ∀ value, Narrows (strictNext value) (laxNext value)) :
    Narrows (strict >>= strictNext) (lax >>= laxNext) := by
  intro result returns
  cases ran : strict with
  | error failure =>
    rw [ran] at returns
    cases returns
  | ok value =>
    rw [ran] at returns
    rw [first value ran]
    exact rest value result returns

theorem ite {cond : Prop} [Decidable cond] {strictOther laxOther : Except ε α}
    (positive : cond → Narrows strict lax) (negative : ¬cond → Narrows strictOther laxOther) :
    Narrows (if cond then strict else strictOther) (if cond then lax else laxOther) := by
  split
  · exact positive ‹_›
  · exact negative ‹_›

theorem dite {cond : Prop} [Decidable cond] {strictYes laxYes : cond → Except ε α}
    {strictNo laxNo : ¬cond → Except ε α} (positive : ∀ holds, Narrows (strictYes holds) (laxYes holds))
    (negative : ∀ differs, Narrows (strictNo differs) (laxNo differs)) :
    Narrows (if holds : cond then strictYes holds else strictNo holds)
      (if holds : cond then laxYes holds else laxNo holds) := by
  split
  · exact positive _
  · exact negative _

theorem mapError {ε' : Type} {rename : ε → ε'} (narrows : Narrows strict lax) :
    Narrows (strict.mapError rename) (lax.mapError rename) := by
  intro value returns
  cases ran : strict with
  | error failure =>
    rw [ran] at returns
    cases returns
  | ok result =>
    rw [ran] at returns
    rw [narrows result ran]
    exact returns

theorem switch {strictOn laxOn : Bool} {strictCheck laxCheck : Except ε Unit}
    (on : laxOn = true → strictOn = true) (narrower : Narrows strictCheck laxCheck) :
    Narrows (if strictOn then strictCheck else .ok ()) (if laxOn then laxCheck else .ok ()) := by
  cases laxOn with
  | true =>
    rw [on rfl]
    exact narrower
  | false => exact fun _ _ => rfl

end Narrows

end Outcome
