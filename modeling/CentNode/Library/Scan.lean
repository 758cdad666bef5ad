import Mathlib.Logic.Relation
import Mathlib.Data.Nat.Notation

/-!
# Scanning for marked offsets

A scanner goes through a text turn by turn and enters what it takes.  A turn is meant to
go on at one offset and goes on at another, not before it; what is marked in between is
lost.  The scanner loses nothing exactly if this happens over nothing that is marked.
-/

namespace Scan

structure Scanner (State Entry : Type) where
  /-- The loop ends before another turn. -/
  ends : State → Bool
  /-- A turn, and whether the loop goes on after it. -/
  turn : State → Bool × State
  restart : State → Nat
  resume : State → Nat
  entries : State → List Entry
  start : Entry → Nat
  stop : Entry → Nat

/-- Nothing from the one offset up to the other is marked. -/
def Bare (Mark : Nat → Prop) (lower upper : Nat) : Prop :=
  ∀ offset, lower ≤ offset → offset < upper → ¬ Mark offset

namespace Scanner

variable {State Entry : Type} (scanner : Scanner State Entry)

/-- The loop for a number of turns; `none` where they do not suffice. -/
def loop : Nat → State → Option State
  | 0, _ => none
  | turns + 1, state =>
    if scanner.ends state then some state
    else if (scanner.turn state).1 then loop turns (scanner.turn state).2
    else some (scanner.turn state).2

/-- From the start of one turn to the start of the next. -/
def Next (before after : State) : Prop :=
  scanner.ends before = false ∧ scanner.turn before = (true, after)

/-- A turn starts in the state. -/
def Reached (first state : State) : Prop := Relation.ReflTransGen scanner.Next first state

/-- No marked offset is passed over before the turn. -/
def NoGap (Mark : Nat → Prop) (state : State) : Prop :=
  Bare Mark (scanner.restart state) (scanner.resume state)

/-- Every marked offset is in what some entry spans. -/
def Covers (Mark : Nat → Prop) (entries : List Entry) : Prop :=
  ∀ offset, Mark offset →
    ∃ entry ∈ entries, scanner.start entry ≤ offset ∧ offset < scanner.stop entry

/-- The turn passes over nothing that is marked, and takes at most one entry. -/
inductive Moves (Mark : Nat → Prop) (before after : State) : Prop
  | skip (same : scanner.entries after = scanner.entries before)
      (bare : Bare Mark (scanner.resume before) (scanner.restart after))
  | take (entry : Entry) (added : scanner.entries after = scanner.entries before ++ [entry])
      (start_ge : scanner.resume before ≤ scanner.start entry)
      (bare : Bare Mark (scanner.resume before) (scanner.start entry))
      (stop_eq : scanner.stop entry = scanner.restart after)

/-- What the turns of a scanner do, under an invariant; all marks are before an offset. -/
structure Lawful (Mark : Nat → Prop) (last : Nat) (Invariant : State → Prop) : Prop where
  restart_le : ∀ {state}, Invariant state → scanner.restart state ≤ scanner.resume state
  ended : ∀ {state}, Invariant state → scanner.ends state = true →
    ∀ offset, Mark offset → offset < scanner.resume state
  left : ∀ {state after}, Invariant state → scanner.ends state = false →
    scanner.turn state = (false, after) → scanner.entries after = scanner.entries state ∧
      ∀ offset, Mark offset → offset < scanner.resume state
  kept : ∀ {state after}, Invariant state → scanner.Next state after → Invariant after
  forward : ∀ {state after}, Invariant state → scanner.Next state after →
    scanner.resume state < scanner.restart after ∧ scanner.restart after ≤ last
  moves : ∀ {state after}, Invariant state → scanner.Next state after →
    scanner.Moves Mark state after

variable {scanner} {Mark : Nat → Prop} {last : Nat} {Invariant : State → Prop}

/-! ## The loop ends -/

/-- The loop ends in a state, after the turns before another. -/
def Leaves (scanner : Scanner State Entry) (before final : State) : Prop :=
  (scanner.ends before = true ∧ final = before) ∨
    (scanner.ends before = false ∧ scanner.turn before = (false, final))

variable {state : State}

theorem Lawful.loop_leaves (lawful : scanner.Lawful Mark last Invariant) {turns : Nat}
    (holds : Invariant state) (enough : last - scanner.restart state < turns) :
    ∃ before final, scanner.loop turns state = some final ∧ scanner.Reached state before ∧
      scanner.Leaves before final := by
  induction turns generalizing state with
  | zero => exact absurd enough (Nat.not_lt_zero _)
  | succ turns ih =>
    rw [loop]
    cases ended : scanner.ends state with
    | true =>
      rw [if_pos rfl]
      exact ⟨state, state, rfl, .refl, .inl ⟨ended, rfl⟩⟩
    | false =>
      rw [if_neg Bool.false_ne_true]
      cases goesOn : (scanner.turn state).1 with
      | false =>
        rw [if_neg Bool.false_ne_true]
        exact ⟨state, _, rfl, .refl, .inr ⟨ended, Prod.ext goesOn rfl⟩⟩
      | true =>
        rw [if_pos rfl]
        have next : scanner.Next state (scanner.turn state).2 := ⟨ended, Prod.ext goesOn rfl⟩
        have le := lawful.restart_le holds
        obtain ⟨less, inside⟩ := lawful.forward holds next
        obtain ⟨before, final, looped, reached, leaves⟩ := ih (lawful.kept holds next) (by omega)
        exact ⟨before, final, looped, .head next reached, leaves⟩

variable {first : State}

theorem Reached.invariant (reached : scanner.Reached first state)
    (lawful : scanner.Lawful Mark last Invariant) (holds : Invariant first) : Invariant state := by
  induction reached with
  | refl => exact holds
  | tail _ next ih => exact lawful.kept ih next

variable {before final : State}

theorem Reached.leads (reached : scanner.Reached first state)
    (reachedToo : scanner.Reached first before) (leaves : scanner.Leaves before final) :
    scanner.Reached state before := by
  have unique : Relator.RightUnique scanner.Next := by
    intro state after other next nextToo
    exact congrArg Prod.snd (next.2.symm.trans nextToo.2)
  rcases Relation.ReflTransGen.total_of_right_unique unique reached reachedToo with on | back
  · exact on
  · rcases Relation.ReflTransGen.cases_head back with same | ⟨after, next, _⟩
    · rw [same]
      exact .refl
    · rcases leaves with ⟨ended, _⟩ | ⟨_, turned⟩
      · exact absurd (next.1.symm.trans ended) Bool.false_ne_true
      · cases next.2.symm.trans turned

section

variable (leaves : scanner.Leaves before final) (lawful : scanner.Lawful Mark last Invariant)
  (holds : Invariant before)

include leaves lawful holds

theorem Leaves.entries_eq :
    scanner.entries final = scanner.entries before := by
  rcases leaves with ⟨_, rfl⟩ | ⟨goesOn, turned⟩
  · rfl
  · exact (lawful.left holds goesOn turned).1

theorem Leaves.mark_lt {offset : Nat}
    (mark : Mark offset) : offset < scanner.resume before := by
  rcases leaves with ⟨ended, _⟩ | ⟨goesOn, turned⟩
  · exact lawful.ended holds ended offset mark
  · exact (lawful.left holds goesOn turned).2 offset mark

end

/-! ## What the entries cover -/

section

variable (reached : scanner.Reached first state) (lawful : scanner.Lawful Mark last Invariant)
  (holds : Invariant first)

include reached lawful holds

/-- Without gaps, what is marked before the restart is covered. -/
theorem Reached.covered (zero : scanner.restart first = 0)
    (noGap : ∀ state, scanner.Reached first state → scanner.NoGap Mark state) :
    scanner.Covers (fun offset => Mark offset ∧ offset < scanner.restart state)
      (scanner.entries state) := by
  induction reached with
  | refl =>
    intro offset marked
    rw [zero] at marked
    exact absurd marked.2 (Nat.not_lt_zero _)
  | @tail state after before next ih =>
    intro offset ⟨mark, less⟩
    by_cases old : offset < scanner.restart state
    · obtain ⟨entry, member, spans⟩ := ih offset ⟨mark, old⟩
      refine ⟨entry, ?_, spans⟩
      cases lawful.moves (Reached.invariant before lawful holds) next with
      | skip same _ => rwa [same]
      | take _ added => exact added ▸ List.mem_append_left _ member
    · -- nothing between the restart and where the turn goes on
      have resumed : scanner.resume state ≤ offset :=
        Nat.le_of_not_lt fun passed => noGap state before offset (Nat.le_of_not_lt old) passed mark
      cases lawful.moves (Reached.invariant before lawful holds) next with
      | skip _ bare => exact absurd mark (bare offset resumed less)
      | take entry added _ bare stop_eq =>
        have started : scanner.start entry ≤ offset :=
          Nat.le_of_not_lt fun passed => bare offset resumed passed mark
        exact ⟨entry, added ▸ List.mem_append_right _ List.mem_cons_self, started,
          stop_eq ▸ less⟩

theorem Reached.stop_le (empty : scanner.entries first = []) :
    ∀ entry ∈ scanner.entries state, scanner.stop entry ≤ scanner.restart state := by
  induction reached with
  | refl =>
    rw [empty]
    exact fun entry member => absurd member List.not_mem_nil
  | @tail state after before next ih =>
    intro entry member
    have invariant := Reached.invariant before lawful holds
    have restart_le := lawful.restart_le invariant
    have less := (lawful.forward invariant next).1
    have old : entry ∈ scanner.entries state → scanner.stop entry ≤ scanner.restart after := by
      intro member
      have before_le := ih entry member
      omega
    cases lawful.moves invariant next with
    | skip same _ => exact old (same ▸ member)
    | take taken added _ _ stop_eq =>
      rw [added] at member
      rcases List.mem_append.mp member with member | member
      · exact old member
      · rw [List.mem_singleton.mp member]
        exact Nat.le_of_eq stop_eq

end

theorem Reached.resume_le {later : State} (reached : scanner.Reached state later)
    (lawful : scanner.Lawful Mark last Invariant) (holds : Invariant state) :
    scanner.resume state ≤ scanner.resume later ∧ ∀ entry ∈ scanner.entries later,
      entry ∈ scanner.entries state ∨ scanner.resume state ≤ scanner.start entry := by
  induction reached with
  | refl => exact ⟨Nat.le_refl _, fun entry member => .inl member⟩
  | @tail middle after before next ih =>
    have invariant := Reached.invariant before lawful holds
    have restart_le := lawful.restart_le (lawful.kept invariant next)
    have less := (lawful.forward invariant next).1
    obtain ⟨resume_le, old⟩ := ih
    refine ⟨by omega, fun entry member => ?_⟩
    cases lawful.moves invariant next with
    | skip same _ => exact old entry (same ▸ member)
    | take taken added start_ge =>
      rw [added] at member
      rcases List.mem_append.mp member with member | member
      · exact old entry member
      · rw [List.mem_singleton.mp member]
        exact .inr (Nat.le_trans resume_le start_ge)

theorem Leaves.covers_iff (leaves : scanner.Leaves before final)
    (lawful : scanner.Lawful Mark last Invariant) (holds : Invariant first)
    (zero : scanner.restart first = 0) (empty : scanner.entries first = [])
    (reached : scanner.Reached first before) :
    scanner.Covers Mark (scanner.entries final) ↔
      ∀ state, scanner.Reached first state → scanner.NoGap Mark state := by
  have invariant := reached.invariant lawful holds
  rw [leaves.entries_eq lawful invariant]
  constructor
  · intro covers state reachedToo offset restarted passed mark
    obtain ⟨entry, member, started, stopped⟩ := covers offset mark
    have onTheWay := reachedToo.leads reached leaves
    rcases (onTheWay.resume_le lawful (reachedToo.invariant lawful holds)).2 entry member with
      old | new
    · have stop_le := reachedToo.stop_le lawful holds empty entry old
      omega
    · omega
  · intro noGap offset mark
    have less := leaves.mark_lt lawful invariant mark
    have restarted : offset < scanner.restart before :=
      Nat.lt_of_not_le fun restarted => noGap before reached offset restarted less mark
    exact reached.covered lawful holds zero noGap offset ⟨mark, restarted⟩

end Scanner

end Scan
