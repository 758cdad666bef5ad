import Mathlib.Algebra.Order.Monoid.Canonical.Defs
import Mathlib.Tactic.Basic

/-!
# Programs that tally what they do

A program of this kind returns a value or stops, and adds up a cost on the way.  Its costs
are bounded by the rules for the steps it is made of.
-/

namespace CentNode

/-- An outcome, with the sum of the costs until then. -/
structure Tally (M ε α : Type) where
  outcome : Except ε α
  tally : M

namespace Tally

variable {M N ε α β : Type}

def charge (cost : M) (value : α) : Tally M ε α := ⟨.ok value, cost⟩

/-- Another error for the same costs. -/
def mapError {ε' : Type} (change : ε → ε') (run : Tally M ε α) : Tally M ε' α :=
  ⟨run.outcome.mapError change, run.tally⟩

/-- The costs counted in other units. -/
def convert (units : M → N) (run : Tally M ε α) : Tally N ε α := ⟨run.outcome, units run.tally⟩

@[simp]
theorem outcome_charge (cost : M) (value : α) :
    (charge cost value : Tally M ε α).outcome = .ok value := rfl

@[simp]
theorem outcome_mapError {ε' : Type} (change : ε → ε') (run : Tally M ε α) :
    (run.mapError change).outcome = run.outcome.mapError change := rfl

@[simp]
theorem outcome_convert (units : M → N) (run : Tally M ε α) :
    (run.convert units).outcome = run.outcome := rfl

@[simp]
theorem outcome_ite {cond : Prop} [Decidable cond] (yes no : Tally M ε α) :
    (if cond then yes else no).outcome = if cond then yes.outcome else no.outcome :=
  apply_ite outcome cond yes no

/-! ## Sequences -/

section Monad

variable [AddMonoid M]

/-- A program that costs nothing. -/
def lift (run : Except ε α) : Tally M ε α := ⟨run, 0⟩

/-- The program after a value; its costs come on top. -/
def andThen (run : Tally M ε α) (next : α → Tally M ε β) : Tally M ε β :=
  match run.outcome with
  | .error stop => ⟨.error stop, run.tally⟩
  | .ok value => ⟨(next value).outcome, run.tally + (next value).tally⟩

instance : Monad (Tally M ε) where
  pure value := lift (.ok value)
  bind := andThen

instance : MonadLift (Except ε) (Tally M ε) where
  monadLift := lift

@[simp]
theorem outcome_lift (run : Except ε α) : (lift run : Tally M ε α).outcome = run := rfl

@[simp]
theorem outcome_liftM (run : Except ε α) : (liftM run : Tally M ε α).outcome = run := rfl

@[simp]
theorem outcome_pure (value : α) : (pure value : Tally M ε α).outcome = .ok value := rfl

@[simp]
theorem outcome_bind (run : Tally M ε α) (next : α → Tally M ε β) :
    (run >>= next).outcome = run.outcome >>= fun value => (next value).outcome := by
  change (andThen run next).outcome = _
  unfold andThen
  cases run.outcome with
  | error stop => rfl
  | ok value => rfl

end Monad

/-! ## Bounds -/

/-- The program costs no more than a limit, and a value that it returns has `post`. -/
structure Within [LE M] (run : Tally M ε α) (limit : M) (post : α → Prop) : Prop where
  cost : run.tally ≤ limit
  value : ∀ value, run.outcome = .ok value → post value

namespace Within

variable {run other : Tally M ε α} {limit more : M} {post weaker : α → Prop} {cond : Prop}

theorem ite [LE M] [Decidable cond] (yes : cond → Within run limit post)
    (no : ¬ cond → Within other limit post) :
    Within (if cond then run else other) limit post := by
  split
  case isTrue holds => exact yes holds
  case isFalse fails => exact no fails

theorem mapError [LE M] {ε' : Type} (change : ε → ε') (bound : Within run limit post) :
    Within (run.mapError change) limit post := by
  refine ⟨bound.cost, fun value returned => bound.value value ?_⟩
  cases ran : run.outcome with
  | error stop =>
    rw [outcome_mapError, ran] at returned
    cases returned
  | ok other =>
    rw [outcome_mapError, ran] at returned
    cases returned
    rfl

theorem mono [Preorder M] (bound : Within run limit post) (enough : limit ≤ more)
    (follows : ∀ value, post value → weaker value) : Within run more weaker :=
  ⟨le_trans bound.cost enough, fun value returned => follows value (bound.value value returned)⟩

theorem convert [Preorder M] [Preorder N] {units : M → N} (monotone : Monotone units)
    (bound : Within run limit post) : Within (run.convert units) (units limit) post :=
  ⟨monotone bound.cost, bound.value⟩

theorem charge [Preorder M] {value : α} (holds : post value) :
    Within (charge limit value : Tally M ε α) limit post :=
  ⟨le_refl _, fun _ returned => Except.ok.inj returned ▸ holds⟩

variable [AddCommMonoid M] [PartialOrder M] [CanonicallyOrderedAdd M]

theorem lift {free : Except ε α} (meets : ∀ value, free = .ok value → post value) :
    Within (lift free : Tally M ε α) limit post :=
  ⟨zero_le, meets⟩

variable [IsOrderedAddMonoid M] {next : α → Tally M ε β} {after : β → Prop}

theorem bind (bound : Within run limit post)
    (continues : ∀ value, post value → Within (next value) more after) :
    Within (run >>= next) (limit + more) after := by
  change Within (andThen run next) (limit + more) after
  unfold andThen
  cases ran : run.outcome with
  | error stop => exact ⟨le_trans bound.cost le_self_add, fun _ returned => nomatch returned⟩
  | ok value =>
    have later := continues value (bound.value value ran)
    exact ⟨add_le_add bound.cost later.cost, later.value⟩

theorem bindCharge {cost : M} {value : α} (continues : Within (next value) more after) :
    Within (Tally.charge cost value >>= next) (cost + more) after := by
  have charged : Within (Tally.charge cost value : Tally M ε α) cost (fun other => other = value) :=
    .charge rfl
  exact charged.bind fun other same => same ▸ continues

theorem bindFree {free : Except ε α}
    (continues : ∀ value, free = .ok value → Within (next value) limit after) :
    Within ((liftM free : Tally M ε α) >>= next) limit after := by
  have nothing : Within (Tally.lift free : Tally M ε α) 0 (fun value => free = .ok value) :=
    .lift fun _ returned => returned
  have both := nothing.bind continues
  rw [zero_add] at both
  exact both

end Within

end Tally

end CentNode
