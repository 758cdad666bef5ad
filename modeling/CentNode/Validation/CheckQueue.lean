import Mathlib.Algebra.Order.Ring.Int
import CentNode.Library.Runs

/-!
# The script check queue

`CCheckQueue` of `checkqueue.h`.  A thread in `Loop` is between two critical
sections: it waits on its condition variable, or works off its batch, one check
after another.  A waiting thread may wake at any time, notified or not, so the
steps below are all interleavings of the critical sections.
-/

namespace CentNode

open List Option Bool

structure CCheckQueue (T : Type) where
  /-- A stack, the last element on top. -/
  queue : List T := []
  nIdle : Int := 0
  nTotal : Int := 0
  fAllOk : Bool := true
  nTodo : Nat := 0
  fQuit : Bool := false
  nBatchSize : Nat
  deriving DecidableEq, Repr

/-- Where a thread stands with respect to `Loop`. -/
inductive LoopThread (T : Type) where
  /-- Not in `Loop`. -/
  | outside
  /-- In `cond.wait`. -/
  | waiting
  /-- Outside the lock with `vChecks`, part of it executed, and `fOk`. -/
  | working (executed left : List T) (fOk : Bool)
  deriving DecidableEq, Repr

namespace CCheckQueue

variable {T : Type}

/-- The critical section from `while (queue.empty())` on: the thread returns `fRet`, waits, or
takes a batch off the top of the queue. -/
def takeWork (q : CCheckQueue T) (fMaster : Bool) : CCheckQueue T × LoopThread T × Option Bool :=
  if q.queue.isEmpty then
    if (fMaster || q.fQuit) && q.nTodo = 0 then
      ({ q with
          nTotal := q.nTotal - 1
          fAllOk := if fMaster then true else q.fAllOk }, .outside, some q.fAllOk)
    else ({ q with nIdle := q.nIdle + 1 }, .waiting, none)
  else
    let nNow := max 1 (min q.nBatchSize (q.queue.length / (q.nTotal + q.nIdle + 1).toNat))
    ({ q with queue := q.queue.take (q.queue.length - nNow) },
      .working [] (q.queue.drop (q.queue.length - nNow)).reverse q.fAllOk, none)

/-- The first iteration. -/
def enter (q : CCheckQueue T) (fMaster : Bool) : CCheckQueue T × LoopThread T × Option Bool :=
  takeWork { q with nTotal := q.nTotal + 1 } fMaster

/-- `cond.wait` returns with the lock. -/
def wake (q : CCheckQueue T) (fMaster : Bool) : CCheckQueue T × LoopThread T × Option Bool :=
  takeWork { q with nIdle := q.nIdle - 1 } fMaster

/-- The clean-up of a batch, at the head of the next iteration. -/
def cleanUp (q : CCheckQueue T) (fMaster : Bool) (nNow : Nat) (fOk : Bool) :
    CCheckQueue T × LoopThread T × Option Bool :=
  takeWork { q with fAllOk := q.fAllOk && fOk, nTodo := q.nTodo - nNow } fMaster

def add (q : CCheckQueue T) (vChecks : List T) : CCheckQueue T :=
  { q with queue := q.queue ++ vChecks, nTodo := q.nTodo + vChecks.length }

def isIdle (q : CCheckQueue T) : Bool := q.nTotal = q.nIdle && q.nTodo = 0 && q.fAllOk

end CCheckQueue

/-- A queue with its threads, the master first. -/
structure CheckSystem (T : Type) where
  q : CCheckQueue T
  threads : List (LoopThread T)
  /-- The checks added since `Wait` last returned. -/
  added : List T := []
  deriving DecidableEq, Repr

/-- A step of one thread, given by its place in the list. -/
inductive CheckStep (T : Type) where
  /-- The master calls `Add`. -/
  | add (vChecks : List T)
  /-- A worker calls `Thread`, or the master `Wait`. -/
  | enter (thread : Nat)
  | wake (thread : Nat)
  /-- One check is executed, outside the lock. -/
  | execute (thread : Nat)
  | cleanUp (thread : Nat)
  deriving DecidableEq, Repr

namespace CheckSystem

variable {T : Type}

/-- The thread leaves the critical section; the master may return from `Wait` with a result. -/
def leave (system : CheckSystem T) (thread : Nat)
    (result : CCheckQueue T × LoopThread T × Option Bool) : CheckSystem T × Option Bool :=
  let returned := if thread = 0 then result.2.2 else none
  ({ q := result.1
     threads := system.threads.set thread result.2.1
     added := if returned.isSome then [] else system.added }, returned)

/-- A step, and what `Wait` returns in it; `none` if the thread is not at that point. -/
def step (run : T → Bool) (system : CheckSystem T) :
    CheckStep T → Option (CheckSystem T × Option Bool)
  | .add vChecks =>
    match system.threads.head? with
    | some .outside =>
      some ({ system with q := system.q.add vChecks, added := system.added ++ vChecks }, none)
    | _ => none
  | .enter thread =>
    match system.threads[thread]? with
    | some .outside => some (system.leave thread (system.q.enter (thread = 0)))
    | _ => none
  | .wake thread =>
    match system.threads[thread]? with
    | some .waiting => some (system.leave thread (system.q.wake (thread = 0)))
    | _ => none
  | .execute thread =>
    match system.threads[thread]? with
    | some (.working executed (check :: left) fOk) =>
      let after := LoopThread.working (executed ++ [check]) left
        (if fOk then run check else fOk)
      some ({ system with threads := system.threads.set thread after }, none)
    | _ => none
  | .cleanUp thread =>
    match system.threads[thread]? with
    | some (.working executed [] fOk) =>
      some (system.leave thread (system.q.cleanUp (thread = 0) executed.length fOk))
    | _ => none

def next (run : T → Bool) (system : CheckSystem T) (input : CheckStep T) :
    Option (CheckSystem T) :=
  (system.step run input).map Prod.fst

/-- No thread is in `Loop` yet. -/
def start (nBatchSize workers : Nat) : CheckSystem T where
  q := { nBatchSize := nBatchSize }
  threads := List.replicate (workers + 1) .outside

/-! ## What holds between the critical sections -/

/-- The checks of a thread's batch until it is cleaned up. -/
def held : LoopThread T → Nat
  | .working executed left _ => executed.length + left.length
  | _ => 0

def isWaiting : LoopThread T → Bool
  | .waiting => true
  | _ => false

def isInside : LoopThread T → Bool
  | .outside => false
  | _ => true

/-- Nothing the thread has seen failed, and nothing left in its batch will. -/
def Sound (run : T → Bool) : LoopThread T → Prop
  | .working _ left fOk => fOk = true ∧ ∀ check ∈ left, run check = true
  | _ => True

/-- A batch is not empty. -/
def Busy : LoopThread T → Prop
  | .working executed left _ => 0 < executed.length + left.length
  | _ => True

/-- The counters are exact, and the checks still to be merged have the result of all checks
added. -/
structure Consistent (run : T → Bool) (system : CheckSystem T) : Prop where
  todo : system.q.nTodo = system.q.queue.length + (system.threads.map held).sum
  idle : system.q.nIdle = system.threads.countP isWaiting
  total : system.q.nTotal = system.threads.countP isInside
  busy : ∀ thread ∈ system.threads, Busy thread
  result : (system.q.fAllOk = true ∧ (∀ check ∈ system.q.queue, run check = true) ∧
      ∀ thread ∈ system.threads, Sound run thread) ↔ ∀ check ∈ system.added, run check = true
  pending : system.q.nTodo ≤ system.added.length
  quit : system.q.fQuit = false

/-- The same with a thread in the critical section, beside the other threads. -/
structure Locked (run : T → Bool) (q : CCheckQueue T) (others : List (LoopThread T))
    (added : List T) : Prop where
  todo : q.nTodo = q.queue.length + (others.map held).sum
  idle : q.nIdle = others.countP isWaiting
  total : q.nTotal = others.countP isInside + 1
  busy : ∀ thread ∈ others, Busy thread
  result : (q.fAllOk = true ∧ (∀ check ∈ q.queue, run check = true) ∧
      ∀ thread ∈ others, Sound run thread) ↔ ∀ check ∈ added, run check = true
  pending : q.nTodo ≤ added.length
  quit : q.fQuit = false

section Lock

variable {run : T → Bool} {system : CheckSystem T} {place : Nat} {thread : LoopThread T}

theorem exists_others (here : system.threads[place]? = some thread) :
    ∃ before after, system.threads = before ++ thread :: after ∧
      ∀ new, system.threads.set place new = before ++ new :: after := by
  obtain ⟨inside, same⟩ := List.getElem?_eq_some_iff.mp here
  refine ⟨system.threads.take place, system.threads.drop (place + 1), ?_, fun new => ?_⟩
  · rw [← same, getElem_cons_drop, take_append_drop]
  · exact set_eq_take_append_cons_drop.trans (if_pos inside)

variable {q : CCheckQueue T} {before after : List (LoopThread T)} {added : List T}

/-- A thread that is added to the others, with what it brings. -/
theorem Consistent.of_parts
    (todo : q.nTodo = q.queue.length + held thread + ((before ++ after).map held).sum)
    (idle : q.nIdle = (before ++ after).countP isWaiting + (isWaiting thread).toNat)
    (total : q.nTotal = (before ++ after).countP isInside + (isInside thread).toNat)
    (busyHere : Busy thread) (busy : ∀ other ∈ before ++ after, Busy other)
    (result : (q.fAllOk = true ∧ (∀ check ∈ q.queue, run check = true) ∧ Sound run thread ∧
      ∀ other ∈ before ++ after, Sound run other) ↔ ∀ check ∈ added, run check = true)
    (pending : q.nTodo ≤ added.length) (quit : q.fQuit = false) :
    Consistent run ⟨q, before ++ thread :: after, added⟩ where
  todo := by
    simp only [map_append, sum_append, map_cons, sum_cons] at todo ⊢
    omega
  idle := by
    simp only [countP_append, countP_cons] at idle ⊢
    cases waits : isWaiting thread <;> simp [waits] at idle ⊢ <;> omega
  total := by
    simp only [countP_append, countP_cons] at total ⊢
    cases inside : isInside thread <;> simp [inside] at total ⊢ <;> omega
  busy := by
    intro other mem
    rcases mem_append.mp mem with mem | mem
    · exact busy other (mem_append_left _ mem)
    · rcases mem_cons.mp mem with rfl | mem
      · exact busyHere
      · exact busy other (mem_append_right _ mem)
  result := by
    rw [← result]
    simp only [mem_append, mem_cons]
    constructor
    · rintro ⟨ok, queue, sound⟩
      exact ⟨ok, queue, sound _ (by simp), fun other mem => sound other (by tauto)⟩
    · rintro ⟨ok, queue, here, sound⟩
      refine ⟨ok, queue, fun other mem => ?_⟩
      rcases mem with mem | rfl | mem
      · exact sound other (Or.inl mem)
      · exact here
      · exact sound other (Or.inr mem)
  pending := pending
  quit := quit

/-- A split of the threads, and the state of the locked queue without one of them. -/
theorem Consistent.split (consistent : Consistent run system)
    (here : system.threads[place]? = some thread) :
    ∃ before after, (∀ new, system.threads.set place new = before ++ new :: after) ∧
      system.q.nTodo = system.q.queue.length + held thread + ((before ++ after).map held).sum ∧
      system.q.nIdle = (before ++ after).countP isWaiting + (isWaiting thread).toNat ∧
      system.q.nTotal = (before ++ after).countP isInside + (isInside thread).toNat ∧
      Busy thread ∧ (∀ other ∈ before ++ after, Busy other) ∧
      ((system.q.fAllOk = true ∧ (∀ check ∈ system.q.queue, run check = true) ∧ Sound run thread ∧
        ∀ other ∈ before ++ after, Sound run other) ↔
          ∀ check ∈ system.added, run check = true) := by
  obtain ⟨before, after, threads, set⟩ := exists_others here
  obtain ⟨todo, idle, total, busy, result, -, -⟩ := consistent
  rw [threads] at todo idle total busy result
  refine ⟨before, after, set, ?_, ?_, ?_, busy thread (by simp), ?_, ?_⟩
  · simp only [map_append, sum_append, map_cons, sum_cons] at todo ⊢
    omega
  · simp only [countP_append, countP_cons] at idle ⊢
    cases waits : isWaiting thread <;> simp [waits] at idle ⊢ <;> omega
  · simp only [countP_append, countP_cons] at total ⊢
    cases inside : isInside thread <;> simp [inside] at total ⊢ <;> omega
  · intro other mem
    apply busy other
    simp only [mem_append, mem_cons] at mem ⊢
    tauto
  · rw [← result]
    simp only [mem_append, mem_cons]
    constructor
    · rintro ⟨ok, queue, here, sound⟩
      refine ⟨ok, queue, fun other mem => ?_⟩
      rcases mem with mem | rfl | mem
      · exact sound other (Or.inl mem)
      · exact here
      · exact sound other (Or.inr mem)
    · rintro ⟨ok, queue, sound⟩
      exact ⟨ok, queue, sound _ (by simp), fun other mem => sound other (by tauto)⟩

theorem quiet_of_held (busy : Busy thread) (nothing : held thread = 0) :
    Sound run thread ∧ isWaiting thread = isInside thread := by
  cases thread with
  | outside => exact ⟨trivial, rfl⟩
  | waiting => exact ⟨trivial, rfl⟩
  | working executed left fOk =>
    simp only [held] at nothing
    simp only [Busy] at busy
    omega

theorem Locked.idle_of_done {others : List (LoopThread T)} (locked : Locked run q others added)
    (done : q.nTodo = 0) :
    (∀ other ∈ others, Sound run other) ∧ others.countP isWaiting = others.countP isInside := by
  have none : ∀ other ∈ others, held other = 0 := by
    intro other mem
    have todo := locked.todo
    have nothing : (others.map held).sum = 0 := by omega
    exact List.sum_eq_zero_iff_forall_eq_nat.mp nothing _ (List.mem_map_of_mem mem)
  have quiet : ∀ other ∈ others, Sound run other ∧ isWaiting other = isInside other := by
    intro other mem
    exact quiet_of_held (locked.busy other mem) (none other mem)
  exact ⟨fun other mem => (quiet other mem).1,
    countP_congr fun other mem => by rw [(quiet other mem).2]⟩

theorem takeWork_returns (empty : q.queue = []) (done : q.nTodo = 0) :
    q.takeWork true =
      ({ q with nTotal := q.nTotal - 1, fAllOk := true }, .outside, some q.fAllOk) := by
  unfold CCheckQueue.takeWork
  simp [empty, done]

theorem takeWork_waits {fMaster : Bool} (quit : q.fQuit = false) (empty : q.queue = [])
    (stays : ¬ (fMaster = true ∧ q.nTodo = 0)) :
    q.takeWork fMaster = ({ q with nIdle := q.nIdle + 1 }, .waiting, none) := by
  unfold CCheckQueue.takeWork
  rw [if_pos (by simp [empty]), if_neg (by simpa [quit] using stays)]

theorem takeWork_batch (fMaster : Bool) (filled : q.queue ≠ []) :
    ∃ rest batch, q.queue = rest ++ batch ∧ batch ≠ [] ∧
      q.takeWork fMaster =
        ({ q with queue := rest }, .working [] batch.reverse q.fAllOk, none) := by
  refine ⟨_, _, (take_append_drop (q.queue.length -
    max 1 (min q.nBatchSize (q.queue.length / (q.nTotal + q.nIdle + 1).toNat))) q.queue).symm,
    ?_, ?_⟩
  · have positive := length_pos_iff.mpr filled
    rw [← length_pos_iff, length_drop]
    have share := Nat.div_le_self q.queue.length (q.nTotal + q.nIdle + 1).toNat
    omega
  · unfold CCheckQueue.takeWork
    rw [if_neg (by simpa using filled)]

/-- The system after the thread leaves the critical section, and what it returns. -/
theorem Locked.takeWork (locked : Locked run q (before ++ after) added) (fMaster : Bool) :
    (Consistent run ⟨(q.takeWork fMaster).1, before ++ (q.takeWork fMaster).2.1 :: after,
        if (q.takeWork fMaster).2.2.isSome then [] else added⟩) ∧
      ∀ fRet, (q.takeWork fMaster).2.2 = some fRet → fMaster = true ∧
        (fRet = true ↔ ∀ check ∈ added, run check = true) ∧
        (q.takeWork fMaster).1.queue = [] ∧ (q.takeWork fMaster).1.isIdle = true := by
  obtain ⟨todo, idle, total, busy, result, pending, quit⟩ := id locked
  by_cases empty : q.queue = []
  · by_cases leaving : fMaster = true ∧ q.nTodo = 0
    · obtain ⟨rfl, done⟩ := leaving
      obtain ⟨sound, quiet⟩ := locked.idle_of_done done
      rw [takeWork_returns empty done]
      rw [empty] at todo result
      refine ⟨Consistent.of_parts ?_ ?_ ?_ trivial busy ?_ done.le quit, ?_⟩
      · simpa [held, empty] using todo
      · simpa [isWaiting] using idle
      · simp only [isInside, toNat_false]
        omega
      · constructor
        · simp
        · intro _
          exact ⟨rfl, by simp [empty], trivial, sound⟩
      · intro fRet returned
        cases returned
        refine ⟨rfl, ?_, empty, ?_⟩
        · rw [← result]
          simpa using fun _ => sound
        · have equal : q.nTotal - 1 = q.nIdle := by omega
          simp [CCheckQueue.isIdle, done, equal]
    · rw [takeWork_waits quit empty leaving]
      refine ⟨Consistent.of_parts ?_ ?_ ?_ trivial busy ?_ pending quit, ?_⟩
      · simpa [held] using todo
      · simpa [isWaiting] using idle
      · simpa [isInside] using total
      · rw [isSome_none, if_neg (by decide), ← result]
        simp [Sound]
      · intro fRet returned
        cases returned
  · obtain ⟨rest, batch, split, nonempty, taken⟩ := takeWork_batch fMaster empty
    rw [taken]
    rw [split] at todo result
    refine ⟨Consistent.of_parts ?_ ?_ ?_ ?_ busy ?_ pending quit, ?_⟩
    · simp only [held, length_append, length_nil, length_reverse] at todo ⊢
      omega
    · simpa [isWaiting] using idle
    · simpa [isInside] using total
    · simpa [Busy] using length_pos_iff.mpr nonempty
    · rw [isSome_none, if_neg (by decide), ← result]
      simp only [Sound, mem_reverse, forall_mem_append]
      tauto
    · intro fRet returned
      cases returned

/-- What the return of `Wait` in a step says. -/
structure Returned (run : T → Bool) (added : List T) (after : CheckSystem T) (fRet : Bool) :
    Prop where
  result : fRet = true ↔ ∀ check ∈ added, run check = true
  queue : after.q.queue = []
  batches : (after.threads.map held).sum = 0
  idle : after.q.isIdle = true

/-- A step keeps the system consistent, and where it ends `Wait`, the result is right. -/
structure Stepped (run : T → Bool) (added : List T) (after : CheckSystem T × Option Bool) :
    Prop where
  consistent : Consistent run after.1
  returned : ∀ fRet, after.2 = some fRet → Returned run added after.1 fRet

theorem leave_stepped (set : ∀ new, system.threads.set place new = before ++ new :: after)
    (locked : Locked run q (before ++ after) system.added) :
    Stepped run system.added (system.leave place (q.takeWork (place = 0))) := by
  obtain ⟨consistent, returns⟩ := locked.takeWork (place = 0)
  by_cases master : place = 0
  · unfold leave
    dsimp only
    rw [if_pos master, set]
    refine ⟨consistent, fun fRet returned => ?_⟩
    obtain ⟨-, result, queue, idle⟩ := returns fRet returned
    have todo := consistent.todo
    have quiet : (q.takeWork (place = 0)).1.nTodo = 0 := by
      unfold CCheckQueue.isIdle at idle
      simp only [and_eq_true, decide_eq_true_eq] at idle
      exact idle.1.2
    refine ⟨result, queue, ?_, idle⟩
    rw [quiet, queue] at todo
    simpa using todo.symm
  · have nothing : (q.takeWork (place = 0)).2.2 = none := by
      cases returned : (q.takeWork (place = 0)).2.2 with
      | none => rfl
      | some fRet => simpa [master] using (returns fRet returned).1
    rw [nothing] at consistent
    unfold leave
    dsimp only
    rw [if_neg master, set]
    refine ⟨consistent, fun fRet returned => ?_⟩
    cases returned

theorem add_consistent (consistent : Consistent run system) (vChecks : List T) :
    Consistent run
      { system with q := system.q.add vChecks, added := system.added ++ vChecks } := by
  obtain ⟨todo, idle, total, busy, result, pending, quit⟩ := consistent
  refine ⟨?_, idle, total, busy, ?_, ?_, quit⟩
  · simp only [CCheckQueue.add, length_append]
    omega
  · simp only [CCheckQueue.add, forall_mem_append]
    rw [← result]
    tauto
  · simp only [CCheckQueue.add, length_append]
    omega

theorem sound_execute (executed : List T) (check : T) (left : List T) (fOk : Bool) :
    Sound run (.working (executed ++ [check]) left (if fOk then run check else fOk)) ↔
      Sound run (.working executed (check :: left) fOk) := by
  cases fOk with
  | false => simp [Sound]
  | true => simp [Sound]

/-- Every step keeps the system consistent. -/
theorem step_stepped (consistent : Consistent run system) {input : CheckStep T}
    {after : CheckSystem T × Option Bool} (stepped : system.step run input = some after) :
    Stepped run system.added after := by
  cases input with
  | add vChecks =>
    rw [step] at stepped
    split at stepped
    · cases stepped
      refine ⟨add_consistent consistent vChecks, fun fRet returned => ?_⟩
      cases returned
    · cases stepped
  | enter place =>
    rw [step] at stepped
    split at stepped
    next here =>
      cases stepped
      obtain ⟨before, rest, set, todo, idle, total, -, busy, result⟩ := consistent.split here
      refine leave_stepped set ⟨?_, ?_, ?_, busy, ?_, consistent.pending, consistent.quit⟩
      · simpa [held] using todo
      · simpa [isWaiting] using idle
      · simpa [isInside] using total
      · simpa [Sound] using result
    · cases stepped
  | wake place =>
    rw [step] at stepped
    split at stepped
    next here =>
      cases stepped
      obtain ⟨before, rest, set, todo, idle, total, -, busy, result⟩ := consistent.split here
      refine leave_stepped set ⟨?_, ?_, ?_, busy, ?_, consistent.pending, consistent.quit⟩
      · simpa [held] using todo
      · dsimp only
        rw [idle]
        simp [isWaiting]
      · simpa [isInside] using total
      · simpa [Sound] using result
    · cases stepped
  | execute place =>
    rw [step] at stepped
    split at stepped
    next executed check left fOk here =>
      cases stepped
      obtain ⟨before, rest, set, todo, idle, total, -, busy, result⟩ := consistent.split here
      refine ⟨?_, fun fRet returned => ?_⟩
      · dsimp only
        rw [set]
        refine Consistent.of_parts ?_ ?_ ?_ ?_ busy ?_ consistent.pending consistent.quit
        · simp only [held, length_append, length_cons, length_nil] at todo ⊢
          omega
        · simpa [isWaiting] using idle
        · simpa [isInside] using total
        · simp only [Busy, length_append, length_singleton]
          omega
        · rw [sound_execute]
          exact result
      · cases returned
    · cases stepped
  | cleanUp place =>
    rw [step] at stepped
    split at stepped
    next executed fOk here =>
      cases stepped
      obtain ⟨before, rest, set, todo, idle, total, -, busy, result⟩ := consistent.split here
      have pending := consistent.pending
      simp only [held, length_nil] at todo
      refine leave_stepped set ⟨?_, ?_, ?_, busy, ?_, ?_, consistent.quit⟩
      · dsimp only
        omega
      · simpa [isWaiting] using idle
      · simpa [isInside] using total
      · rw [← result]
        simp only [and_eq_true, Sound]
        simp
        tauto
      · dsimp only
        omega
    · cases stepped

end Lock

/-- No check is pending, so every thread in `Loop` waits. -/
theorem Consistent.isIdle {run : T → Bool} {system : CheckSystem T}
    (consistent : Consistent run system) (none : system.added = []) :
    system.q.isIdle = true := by
  have todo := consistent.todo
  have pending := consistent.pending
  have result := consistent.result
  rw [none] at pending result
  have done : system.q.nTodo = 0 := Nat.le_zero.mp pending
  have okay := (result.mpr (by simp)).1
  have quiet : ∀ thread ∈ system.threads, isWaiting thread = isInside thread := by
    intro thread mem
    have nothing : (system.threads.map held).sum = 0 := by omega
    have zero : held thread = 0 :=
      List.sum_eq_zero_iff_forall_eq_nat.mp nothing _ (List.mem_map_of_mem mem)
    exact (@quiet_of_held T run thread (consistent.busy thread mem) zero).2
  have same : system.threads.countP isWaiting = system.threads.countP isInside :=
    countP_congr fun thread mem => by rw [quiet thread mem]
  have equal : system.q.nTotal = system.q.nIdle := by
    rw [consistent.idle, consistent.total, same]
  simp [CCheckQueue.isIdle, done, equal, okay]

theorem consistent_start (run : T → Bool) (nBatchSize workers : Nat) :
    Consistent run (start nBatchSize workers) := by
  have outside : ∀ thread ∈ (start nBatchSize workers : CheckSystem T).threads,
      thread = .outside := fun thread mem => eq_of_mem_replicate mem
  refine ⟨?_, ?_, ?_, ?_, ?_, le_rfl, rfl⟩
  · simp [start, held]
  · simp [start, countP_replicate, isWaiting]
  · simp [start, countP_replicate, isInside]
  · intro thread mem
    rw [outside thread mem]
    trivial
  · constructor
    · intro _
      simp [start]
    · intro _
      refine ⟨rfl, by simp [start], fun thread mem => ?_⟩
      rw [outside thread mem]
      trivial

theorem consistent_run {run : T → Bool} {system final : CheckSystem T}
    {steps : List (CheckStep T)} (ran : Runs.run (next run) system steps = some final)
    (consistent : Consistent run system) : Consistent run final := by
  have kept : ∀ system input after, Consistent run system → True →
      next run system input = some after → Consistent run after := by
    intro system input after holds _ stepped
    obtain ⟨result, happened, rfl⟩ := map_eq_some_iff.mp stepped
    exact (step_stepped holds happened).consistent
  exact (Runs.throughout_of_kept (fun _ holds => holds) kept consistent
    (Runs.Meets.trivial (next run) system steps)).final ran

/-! ## `Wait` returns -/

/-- The critical sections and checks that a thread has before it: those of its batch, and one to
clean up. -/
def ahead : LoopThread T → Nat
  | .working _ left _ => left.length + 1
  | _ => 0

/-- A bound on the steps that are left.  A check in the queue counts for a batch of its own. -/
def stepsLeft (system : CheckSystem T) : Nat :=
  3 * system.q.queue.length + (system.threads.map ahead).sum

/-- The master has called `Wait`, which has not returned. -/
def MasterInLoop (system : CheckSystem T) : Prop :=
  ∃ master, system.threads.head? = some master ∧ isInside master = true

/-- `Wait` returns in the step, or the step leaves fewer. -/
def Advances (before : CheckSystem T) (after : CheckSystem T × Option Bool) : Prop :=
  after.2.isSome = true ∨ after.1.stepsLeft < before.stepsLeft ∧ after.1.MasterInLoop

section Progress

variable {run : T → Bool} {system : CheckSystem T} {place : Nat} {thread : LoopThread T}

theorem sum_ahead_set (here : system.threads[place]? = some thread) (new : LoopThread T) :
    ((system.threads.set place new).map ahead).sum + ahead thread =
      (system.threads.map ahead).sum + ahead new := by
  obtain ⟨before, after, threads, set⟩ := exists_others here
  rw [set, threads]
  simp only [map_append, sum_append, map_cons, sum_cons]
  omega

theorem MasterInLoop.set (inLoop : system.MasterInLoop) {new : LoopThread T}
    (still : place = 0 → isInside new = true) {q : CCheckQueue T} {added : List T} :
    MasterInLoop ⟨q, system.threads.set place new, added⟩ := by
  obtain ⟨master, first, inside⟩ := inLoop
  obtain ⟨workers, threads⟩ := head?_eq_some_iff.mp first
  unfold MasterInLoop
  dsimp only
  rw [threads]
  cases place with
  | zero => exact ⟨new, rfl, still rfl⟩
  | succ place => exact ⟨master, rfl, inside⟩

theorem takeWork_stays (q : CCheckQueue T) (fMaster : Bool) :
    (q.takeWork fMaster).2.2.isSome = true ∨ isInside (q.takeWork fMaster).2.1 = true := by
  unfold CCheckQueue.takeWork
  split
  · split
    · exact .inl rfl
    · exact .inr rfl
  · exact .inr rfl

theorem takeWork_ahead (q : CCheckQueue T) (fMaster : Bool) :
    3 * (q.takeWork fMaster).1.queue.length + ahead (q.takeWork fMaster).2.1 ≤
        3 * q.queue.length ∧
      (q.queue ≠ [] → 3 * (q.takeWork fMaster).1.queue.length + ahead (q.takeWork fMaster).2.1 <
        3 * q.queue.length) := by
  by_cases empty : q.queue = []
  · refine ⟨?_, fun filled => absurd empty filled⟩
    unfold CCheckQueue.takeWork
    rw [if_pos (by simp [empty])]
    split <;> exact Nat.le_refl _
  · obtain ⟨rest, batch, split, nonempty, taken⟩ := takeWork_batch fMaster empty
    have positive := length_pos_iff.mpr nonempty
    have total := congrArg length split
    rw [length_append] at total
    rw [taken]
    simp only [ahead, length_reverse]
    omega

/-- A thread that leaves the critical section, having cleaned up or found work. -/
theorem leave_advances (here : system.threads[place]? = some thread)
    (inLoop : system.MasterInLoop) {q : CCheckQueue T} (same : q.queue = system.q.queue)
    (busy : 0 < ahead thread ∨ q.queue ≠ []) :
    system.Advances (system.leave place (q.takeWork (place = 0))) := by
  obtain ⟨bounded, fewer⟩ := takeWork_ahead q (place = 0)
  have replaced := sum_ahead_set here (q.takeWork (place = 0)).2.1
  have shorter : (system.leave place (q.takeWork (place = 0))).1.stepsLeft < system.stepsLeft := by
    unfold stepsLeft leave
    dsimp only
    rw [same] at bounded fewer busy
    rcases busy with busy | filled
    · omega
    · have less := fewer filled
      omega
  by_cases stays : place = 0 → isInside (q.takeWork (place = 0)).2.1 = true
  · exact .inr ⟨shorter, inLoop.set stays⟩
  · obtain ⟨master, outside⟩ := Classical.not_imp.mp stays
    refine .inl ?_
    unfold leave
    dsimp only
    rw [if_pos master]
    exact (takeWork_stays q (place = 0)).resolve_right outside

/-- No thread has a batch, so that all checks to do are in the queue. -/
theorem Consistent.todo_of_quiet (consistent : Consistent run system)
    (quiet : ∀ thread ∈ system.threads, ahead thread = 0) :
    system.q.nTodo = system.q.queue.length := by
  have nothing : (system.threads.map held).sum = 0 := by
    refine List.sum_eq_zero_iff_forall_eq_nat.mpr (forall_mem_map.mpr fun thread mem => ?_)
    have still := quiet thread mem
    cases thread with
    | outside => rfl
    | waiting => rfl
    | working executed left fOk => cases still
  rw [consistent.todo, nothing, Nat.add_zero]

/-- While the master is in `Loop`, some thread can take a step that advances: it works on its
batch, or else the master wakes, to take work or to return. -/
theorem Consistent.advances (consistent : Consistent run system) (inLoop : system.MasterInLoop) :
    ∃ input after, system.step run input = some after ∧ system.Advances after := by
  by_cases quiet : ∀ thread ∈ system.threads, ahead thread = 0
  · obtain ⟨master, first, inside⟩ := id inLoop
    have here : system.threads[0]? = some master := head?_eq_getElem? ▸ first
    have idle := quiet master (mem_of_getElem? here)
    cases master with
    | outside => cases inside
    | working executed left fOk => cases idle
    | waiting =>
      refine ⟨.wake 0, system.leave 0 (system.q.wake true), by simp only [step, here]; rfl, ?_⟩
      by_cases filled : system.q.queue = []
      · have done := consistent.todo_of_quiet quiet
        rw [filled] at done
        have returns := @takeWork_returns _ { system.q with nIdle := system.q.nIdle - 1 } filled done
        exact .inl (congrArg (fun result => result.2.2.isSome) returns)
      · exact @leave_advances _ _ 0 _ here inLoop { system.q with nIdle := system.q.nIdle - 1 } rfl
          (.inr filled)
  · push Not at quiet
    obtain ⟨thread, mem, busy⟩ := quiet
    obtain ⟨place, here⟩ := getElem?_of_mem mem
    cases thread with
    | outside => exact absurd rfl busy
    | waiting => exact absurd rfl busy
    | working executed left fOk =>
      cases left with
      | nil =>
        refine ⟨.cleanUp place, _, by simp only [step, here]; rfl, ?_⟩
        exact leave_advances here inLoop rfl (.inl (Nat.pos_of_ne_zero busy))
      | cons check left =>
        refine ⟨.execute place, _, by simp only [step, here]; rfl, .inr ⟨?_, inLoop.set fun _ => rfl⟩⟩
        have replaced := sum_ahead_set here
          (.working (executed ++ [check]) left (if fOk then run check else fOk))
        simp only [ahead, length_cons] at replaced
        unfold stepsLeft
        dsimp only
        omega

/-- From every consistent state with the master in `Loop`, some steps let `Wait` return. -/
theorem Consistent.wait_returns (consistent : Consistent run system)
    (inLoop : system.MasterInLoop) :
    ∃ steps last input after fRet, Runs.run (next run) system steps = some last ∧
      last.step run input = some (after, some fRet) := by
  induction left : system.stepsLeft using Nat.strongRecOn generalizing system with
  | ind count ih =>
    obtain ⟨input, after, stepped, returned | ⟨fewer, still⟩⟩ := consistent.advances inLoop
    · obtain ⟨fRet, result⟩ := isSome_iff_exists.mp returned
      exact ⟨[], system, input, after.1, fRet, rfl, by rw [stepped, ← result]⟩
    · obtain ⟨steps, last, final⟩ :=
        ih _ (left ▸ fewer) (step_stepped consistent stepped).consistent still rfl
      have first : next run system input = some after.1 :=
        congrArg (Option.map Prod.fst) stepped
      refine ⟨input :: steps, last, ?_⟩
      simpa only [Runs.run, first, bind_some] using final

end Progress

/-- After any interleaving of the critical sections of any number of workers with the calls of
the master, the counter of checks to do is exact and a queue without new checks is idle; where
`Wait` returns, it gives the result of all checks added, with none left; and while the master is
in `Wait`, some steps let it return. -/
theorem checkQueue_exact (run : T → Bool) {nBatchSize workers : Nat} {steps : List (CheckStep T)}
    {system : CheckSystem T}
    (ran : Runs.run (next run) (start nBatchSize workers) steps = some system) :
    system.q.nTodo = system.q.queue.length + (system.threads.map held).sum ∧
      (system.added = [] → system.q.isIdle = true) ∧
      (∀ input after fRet, system.step run input = some (after, some fRet) →
        (fRet = true ↔ ∀ check ∈ system.added, run check = true) ∧ after.q.queue = [] ∧
          (after.threads.map held).sum = 0 ∧ after.q.isIdle = true) ∧
      (system.MasterInLoop → ∃ steps last input after fRet,
        Runs.run (next run) system steps = some last ∧
          last.step run input = some (after, some fRet)) := by
  have consistent := consistent_run ran (consistent_start run nBatchSize workers)
  refine ⟨consistent.todo, consistent.isIdle, fun input after fRet stepped => ?_,
    consistent.wait_returns⟩
  obtain ⟨result, queue, batches, idle⟩ := (step_stepped consistent stepped).returned fRet rfl
  exact ⟨result, queue, batches, idle⟩

namespace Sample

/-- Two workers and three checks, one of which fails; the master holds the last batch. -/
def lastBatch : CheckSystem Bool where
  q := { nIdle := 2, nTotal := 3, fAllOk := false, nTodo := 1, nBatchSize := 1 }
  threads := [.working [true] [] true, .waiting, .waiting]
  added := [true, false, true]

def afterWait : CheckSystem Bool where
  q := { nIdle := 2, nTotal := 2, nBatchSize := 1 }
  threads := [.outside, .waiting, .waiting]

end Sample

theorem checkQueue_exact_two :
    (false = true ↔ ∀ check ∈ Sample.lastBatch.added, id check = true) ∧
      Sample.afterWait.q.queue = [] ∧ (Sample.afterWait.threads.map held).sum = 0 ∧
      Sample.afterWait.q.isIdle = true :=
  (@checkQueue_exact Bool id 1 2 [.enter 1, .add [true, false, true], .wake 1, .enter 2,
      .execute 1, .enter 0, .execute 2, .cleanUp 2, .execute 0, .cleanUp 1] Sample.lastBatch
      rfl).2.2.1 (.cleanUp 0) Sample.afterWait false rfl

end CheckSystem

end CentNode
