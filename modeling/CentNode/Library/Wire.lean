import Mathlib.Algebra.Group.Nat.Defs
import Mathlib.Logic.Basic

/-!
# Reading back what was written

A reader takes a value off the front of a stream of bytes, or fails.  Bytes
are read as a value, `Reads`, if the reader takes exactly them off any stream
that begins with them; the rules follow the shape of a reader, so that what a
writer writes piece by piece is read back piece by piece.
-/

namespace Wire

open List Option

abbrev Reader (α : Type) : Type := StateT (List UInt8) Option α

/-- The stream ends early, or what it holds is refused. -/
def fail {α : Type} : Reader α := fun _ => none

/-- The reader takes the bytes off a stream, whatever follows, and returns the value. -/
def Reads {α : Type} (read : Reader α) (bytes : List UInt8) (value : α) : Prop :=
  ∀ more, read.run (bytes ++ more) = some (value, more)

namespace Reads

variable {α β : Type} {read : Reader α} {bytes : List UInt8} {value : α}

theorem pure (value : α) : Reads (Pure.pure value) [] value := fun _ => rfl

theorem bind {next : α → Reader β} {rest : List UInt8} {result : β}
    (first : Reads read bytes value) (second : Reads (next value) rest result) :
    Reads (read >>= next) (bytes ++ rest) result := by
  intro more
  rw [StateT.run_bind, append_assoc, first]
  exact second more

theorem map (pack : α → β) (first : Reads read bytes value) :
    Reads (read >>= fun got => Pure.pure (pack got)) bytes (pack value) := by
  intro more
  rw [StateT.run_bind, first]
  rfl

theorem check (refused : α → Prop) [DecidablePred refused] (first : Reads read bytes value)
    (allowed : ¬ refused value) :
    Reads (read >>= fun got => if refused got then fail else Pure.pure got) bytes value := by
  intro more
  rw [StateT.run_bind, first, bind_eq_bind, bind_some, if_neg allowed]
  rfl

end Reads

theorem Reads.finish {α β : Type} {read : Reader α} {bytes : List UInt8} {value : α}
    {next : α → Reader β} {result : β} (first : Reads read bytes value)
    (second : Reads (next value) [] result) : Reads (read >>= next) bytes result := by
  rw [← append_nil bytes]
  exact first.bind second

/-- A computation that reads nothing, and may fail. -/
def ofOption {α : Type} (computed : Option α) : Reader α :=
  fun stream => computed.map fun value => (value, stream)

theorem reads_ofOption {α : Type} (value : α) : Reads (ofOption (some value)) [] value :=
  fun _ => rfl

/-! ## Bytes and integers -/

def byte : Reader UInt8 := fun stream =>
  match stream with
  | [] => none
  | first :: rest => some (first, rest)

theorem reads_byte (first : UInt8) : Reads byte [first] first := fun _ => rfl

/-- The `width` low bytes of a number, the least significant first. -/
def leBytes : Nat → Nat → List UInt8
  | 0, _ => []
  | width + 1, value => UInt8.ofNat value :: leBytes width (value / 256)

/-- A little-endian number of a fixed width. -/
def uint : Nat → Reader Nat
  | 0 => pure 0
  | width + 1 => do
      let low ← byte
      let high ← uint width
      pure (low.toNat + 256 * high)

theorem reads_uint {width value : Nat} (fits : value < 256 ^ width) :
    Reads (uint width) (leBytes width value) value := by
  induction width generalizing value with
  | zero =>
    obtain rfl : value = 0 := by simpa using fits
    exact Reads.pure 0
  | succ width ih =>
    have high : value / 256 < 256 ^ width := by
      rw [Nat.pow_succ] at fits
      exact Nat.div_lt_of_lt_mul (by omega)
    have whole : (UInt8.ofNat value).toNat + 256 * (value / 256) = value := by
      rw [UInt8.toNat_ofNat']
      omega
    have rest := (ih high).map fun high => (UInt8.ofNat value).toNat + 256 * high
    rw [whole] at rest
    exact Reads.bind (reads_byte (UInt8.ofNat value)) rest

/-! ## Sequences -/

/-- Read a number of values one after another. -/
def times {α : Type} (read : Reader α) : Nat → Reader (List α)
  | 0 => pure []
  | count + 1 => do
      let first ← read
      let rest ← times read count
      pure (first :: rest)

theorem reads_times {α : Type} {read : Reader α} {write : α → List UInt8} {values : List α}
    (each : ∀ value ∈ values, Reads read (write value) value) :
    Reads (times read values.length) (values.flatMap write) values := by
  induction values with
  | nil => exact Reads.pure []
  | cons first rest ih =>
    have others := ih fun value mem => each value (mem_cons_of_mem _ mem)
    rw [flatMap_cons]
    exact Reads.bind (each first mem_cons_self) (others.map fun rest => first :: rest)

/-! ## Loops -/

/-- A loop over an index whose body reads and changes a state. -/
def loop {State : Type} (body : Nat → State → Reader State) : Nat → Nat → State → Reader State
  | _, 0, state => pure state
  | index, count + 1, state => do
      let next ← body index state
      loop body (index + 1) count next

theorem reads_loop {α State : Type} {body : Nat → State → Reader State} {write : α → List UInt8}
    {Invariant : List α → State → Prop} {values : List α} {start : Nat} {state : State}
    (step : ∀ before value after state, values = before ++ value :: after → Invariant before state →
      ∃ next, Reads (body (start + before.length) state) (write value) next ∧
        Invariant (before ++ [value]) next)
    (initial : Invariant [] state) :
    ∃ final, Reads (loop body start values.length state) (values.flatMap write) final ∧
      Invariant values final := by
  induction values generalizing start state Invariant with
  | nil => exact ⟨state, Reads.pure state, initial⟩
  | cons first rest ih =>
    obtain ⟨next, reads, held⟩ := step [] first rest state rfl initial
    obtain ⟨final, others, ends⟩ := @ih (fun before => Invariant (first :: before)) (start + 1) next
      (fun before value after state split held => by
        have moved := step (first :: before) value after state (congrArg (List.cons first) split) held
        rwa [length_cons, Nat.add_comm before.length 1, ← Nat.add_assoc] at moved) held
    exact ⟨final, reads.bind others, ends⟩

/-! ## What a reader took -/

/-- Whatever the reader returns, it took bytes off the stream that are so
related to the value. -/
def Takes {α : Type} (read : Reader α) (Taken : List UInt8 → α → Prop) : Prop :=
  ∀ stream value rest, read.run stream = some (value, rest) →
    ∃ bytes, stream = bytes ++ rest ∧ Taken bytes value

namespace Takes

variable {α β : Type} {Taken : List UInt8 → α → Prop}

theorem pure {value : α} (taken : Taken [] value) : Takes (Pure.pure value) Taken := by
  intro stream got rest run
  cases run
  exact ⟨[], rfl, taken⟩

theorem fail : Takes Wire.fail Taken := by
  intro stream value rest run
  cases run

theorem mono {read : Reader α} {More : List UInt8 → α → Prop} (takes : Takes read Taken)
    (weaker : ∀ bytes value, Taken bytes value → More bytes value) : Takes read More := by
  intro stream value rest run
  obtain ⟨bytes, stream_eq, taken⟩ := takes stream value rest run
  exact ⟨bytes, stream_eq, weaker bytes value taken⟩

theorem bind {read : Reader α} {next : α → Reader β} {Both : List UInt8 → β → Prop}
    (first : Takes read Taken)
    (second : ∀ bytes got, Taken bytes got → Takes (next got) fun more => Both (bytes ++ more)) :
    Takes (read >>= next) Both := by
  intro stream value rest run
  rw [StateT.run_bind, bind_eq_bind, bind_eq_some_iff] at run
  obtain ⟨⟨got, middle⟩, ran, continued⟩ := run
  obtain ⟨bytes, stream_eq, taken⟩ := first stream got middle ran
  obtain ⟨more, middle_eq, both⟩ := second bytes got taken middle value rest continued
  exact ⟨bytes ++ more, by rw [stream_eq, middle_eq, append_assoc], both⟩

theorem ite {condition : Prop} [Decidable condition] {yes no : Reader α}
    (onYes : condition → Takes yes Taken) (onNo : ¬ condition → Takes no Taken) :
    Takes (if condition then yes else no) Taken := by
  split
  · next holds => exact onYes holds
  · next fails => exact onNo fails

end Takes

theorem takes_byte : Takes byte fun bytes first => bytes = [first] := by
  intro stream value rest run
  cases stream with
  | nil => cases run
  | cons first others =>
    cases run
    exact ⟨[value], rfl, rfl⟩

theorem takes_uint (width : Nat) :
    Takes (uint width) fun bytes value => bytes = leBytes width value ∧ value < 256 ^ width := by
  induction width with
  | zero => exact Takes.pure ⟨rfl, Nat.one_pos⟩
  | succ width ih =>
    refine takes_byte.bind fun _ low lowTaken => ih.bind fun _ high highTaken => Takes.pure ?_
    obtain ⟨rfl, high_lt⟩ := highTaken
    have low_lt := low.toNat_lt
    have low_eq : UInt8.ofNat (low.toNat + 256 * high) = low := by
      apply UInt8.toNat_inj.mp
      rw [UInt8.toNat_ofNat']
      omega
    have high_eq : (low.toNat + 256 * high) / 256 = high := by omega
    rw [lowTaken, leBytes, low_eq, high_eq, append_nil, Nat.pow_succ]
    exact ⟨rfl, by omega⟩

theorem takes_times {α : Type} {read : Reader α} {write : α → List UInt8} {Valid : α → Prop}
    (each : Takes read fun bytes value => bytes = write value ∧ Valid value) (count : Nat) :
    Takes (times read count) fun bytes values =>
      bytes = values.flatMap write ∧ values.length = count ∧ ∀ value ∈ values, Valid value := by
  induction count with
  | zero =>
    refine Takes.pure ⟨rfl, rfl, fun value member => ?_⟩
    cases member
  | succ count ih =>
    refine each.bind fun _ first firstTaken => ih.bind fun _ rest restTaken => Takes.pure ?_
    obtain ⟨rfl, firstValid⟩ := firstTaken
    obtain ⟨rfl, counted, restValid⟩ := restTaken
    refine ⟨by rw [append_nil, flatMap_cons], by rw [length_cons, counted], ?_⟩
    exact forall_mem_cons.mpr ⟨firstValid, restValid⟩

end Wire
