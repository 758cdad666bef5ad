import CentNode.Library.Wire
import Mathlib.Data.List.Basic

/-!
# Readers as the reads they ask for

A reading asks for a number of bytes at a time and goes on with what it gets.  It can
be run on a stream of bytes, and on anything else that hands out bytes in portions.
-/

namespace Wire

inductive Reading (α : Type) where
  | done (value : α)
  | fail
  | read (size : Nat) (next : List UInt8 → Reading α)

namespace Reading

variable {α β : Type}

def bind : Reading α → (α → Reading β) → Reading β
  | .done value, next => next value
  | .fail, _ => .fail
  | .read size more, next => .read size fun bytes => bind (more bytes) next

instance : Monad Reading where
  pure := .done
  bind := bind

/-- The little-endian number of the bytes. -/
def number : List UInt8 → Nat
  | [] => 0
  | low :: high => low.toNat + 256 * number high

def uint (width : Nat) : Reading Nat := .read width fun bytes => .done (number bytes)

def byte : Reading UInt8 := .read 1 fun bytes => .done (bytes.headD 0)

/-- Bytes in chunks of at most a size, for a number of chunks. -/
def chunks (most : Nat) : Nat → Nat → Reading (List UInt8)
  | 0, _ => .done []
  | count + 1, size =>
    if size = 0 then .done []
    else
      .read (min size most) fun bytes =>
        bind (chunks most count (size - min size most)) fun rest => .done (bytes ++ rest)

def times (reading : Reading α) : Nat → Reading (List α)
  | 0 => .done []
  | count + 1 =>
    bind reading fun first => bind (times reading count) fun rest => .done (first :: rest)

/-! ## On a stream -/

def onStream : Reading α → Reader α
  | .done value => fun stream => some (value, stream)
  | .fail => fun _ => none
  | .read size next => fun stream =>
    if stream.length < size then none else onStream (next (stream.take size)) (stream.drop size)

theorem onStream_read (size : Nat) (next : List UInt8 → Reading α) (stream : List UInt8) :
    (Reading.read size next).onStream stream =
      if stream.length < size then none
      else (next (stream.take size)).onStream (stream.drop size) := rfl

theorem onStream_bind (reading : Reading α) (next : α → Reading β) (stream : List UInt8) :
    (reading.bind next).onStream stream =
      (reading.onStream stream).bind fun got => (next got.1).onStream got.2 := by
  induction reading generalizing stream with
  | done value => rfl
  | fail => rfl
  | read size more ih =>
    rw [bind, onStream_read, onStream_read]
    split
    · rfl
    · exact ih (stream.take size) (stream.drop size)

/-- The reading does on a stream what a reader does. -/
def Implements (reading : Reading α) (reader : Reader α) : Prop :=
  ∀ stream, reading.onStream stream = reader.run stream

namespace Implements

theorem pure (value : α) : Implements (.done value) (Pure.pure value) := fun _ => rfl

theorem fail : Implements (.fail : Reading α) Wire.fail := fun _ => rfl

theorem bind {reading : Reading α} {reader : Reader α} {next : α → Reading β}
    {then_ : α → Reader β} (first : Implements reading reader)
    (second : ∀ value, Implements (next value) (then_ value)) :
    Implements (reading >>= next) (reader >>= then_) := by
  intro stream
  refine (onStream_bind reading next stream).trans ?_
  rw [first, StateT.run_bind]
  exact congrArg (Option.bind (reader.run stream)) (funext fun got => second got.1 got.2)

theorem ite {condition : Prop} [Decidable condition] {yes no : Reading α}
    {onYes onNo : Reader α} (first : condition → Implements yes onYes)
    (second : ¬ condition → Implements no onNo) :
    Implements (if condition then yes else no) (if condition then onYes else onNo) := by
  by_cases holds : condition
  · rw [if_pos holds, if_pos holds]
    exact first holds
  · rw [if_neg holds, if_neg holds]
    exact second holds

theorem times {reading : Reading α} {reader : Reader α} (each : Implements reading reader)
    (count : Nat) : Implements (reading.times count) (Wire.times reader count) := by
  induction count with
  | zero => exact pure []
  | succ count ih => exact each.bind fun first => ih.bind fun rest => pure (first :: rest)

end Implements

theorem run_uint (width : Nat) (stream : List UInt8) :
    (Wire.uint width).run stream =
      if stream.length < width then none
      else some (number (stream.take width), stream.drop width) := by
  induction width generalizing stream with
  | zero => rfl
  | succ width ih =>
    cases stream with
    | nil => rfl
    | cons low rest =>
      have step : (Wire.uint (width + 1)).run (low :: rest) =
          ((Wire.uint width).run rest).bind fun got => some (low.toNat + 256 * got.1, got.2) := rfl
      rw [step, ih, List.length_cons, List.take_succ_cons, List.drop_succ_cons, number]
      by_cases short : rest.length < width
      · rw [if_pos short, if_pos (Nat.succ_lt_succ short)]
        rfl
      · rw [if_neg short, if_neg fun less => short (Nat.lt_of_succ_lt_succ less)]
        rfl

theorem implements_uint (width : Nat) : Implements (uint width) (Wire.uint width) :=
  fun stream => (run_uint width stream).symm

theorem implements_byte : Implements byte Wire.byte := by
  intro stream
  cases stream with
  | nil => rfl
  | cons first rest => rfl

theorem run_times_byte (count : Nat) (stream : List UInt8) :
    (Wire.times Wire.byte count).run stream =
      if stream.length < count then none else some (stream.take count, stream.drop count) := by
  induction count generalizing stream with
  | zero => rfl
  | succ count ih =>
    cases stream with
    | nil => rfl
    | cons first rest =>
      have step : (Wire.times Wire.byte (count + 1)).run (first :: rest) =
          ((Wire.times Wire.byte count).run rest).bind fun got =>
            some (first :: got.1, got.2) := rfl
      rw [step, ih, List.length_cons, List.take_succ_cons, List.drop_succ_cons]
      by_cases short : rest.length < count
      · rw [if_pos short, if_pos (Nat.succ_lt_succ short)]
        rfl
      · rw [if_neg short, if_neg fun less => short (Nat.lt_of_succ_lt_succ less)]
        rfl

theorem onStream_chunks {most count size : Nat}
    (enough : size ≤ count * most) (stream : List UInt8) :
    (chunks most count size).onStream stream =
      if stream.length < size then none else some (stream.take size, stream.drop size) := by
  induction count generalizing size stream with
  | zero =>
    have nothing : size = 0 := by omega
    rw [nothing]
    rfl
  | succ count ih =>
    rw [chunks]
    by_cases nothing : size = 0
    · rw [if_pos nothing, nothing]
      rfl
    · rw [if_neg nothing, onStream_read]
      have left : size - min size most ≤ count * most := by
        rw [Nat.succ_mul] at enough
        omega
      by_cases short : stream.length < min size most
      · rw [if_pos short, if_pos (by omega)]
      · rw [if_neg short, onStream_bind, ih left, List.length_drop]
        by_cases shortToo : stream.length < size
        · rw [if_pos (by omega), if_pos shortToo]
          rfl
        · rw [if_neg (by omega), if_neg shortToo]
          have whole : min size most + (size - min size most) = size := by omega
          have front : stream.take (min size most + (size - min size most)) =
              stream.take (min size most) ++
                (stream.drop (min size most)).take (size - min size most) := List.take_add
          rw [whole] at front
          rw [Option.bind_some, List.drop_drop, whole, front]
          rfl

theorem implements_chunks {most count size : Nat} (enough : size ≤ count * most) :
    Implements (chunks most count size) (Wire.times Wire.byte size) :=
  fun stream => (onStream_chunks enough stream).trans (run_times_byte size stream).symm

/-! ## Large reads -/

/-- No read that a stream can serve is larger than a bound. -/
def Modest (bound : Nat) : Reading α → List UInt8 → Prop
  | .done _, _ => True
  | .fail, _ => True
  | .read size next, stream =>
    size ≤ stream.length → size ≤ bound ∧ Modest bound (next (stream.take size)) (stream.drop size)

theorem modest_of_length {bound : Nat} (reading : Reading α) {stream : List UInt8}
    (short : stream.length ≤ bound) : reading.Modest bound stream := by
  induction reading generalizing stream with
  | done value => trivial
  | fail => trivial
  | read size next ih =>
    intro served
    refine ⟨Nat.le_trans served short, ih _ ?_⟩
    rw [List.length_drop]
    omega

theorem modest_read {bound size : Nat} {next : List UInt8 → Reading α} {stream : List UInt8}
    (small : size ≤ bound)
    (rest : ∀ bytes, (next bytes).Modest bound (stream.drop size)) :
    (Reading.read size next).Modest bound stream :=
  fun _ => ⟨small, rest _⟩

end Reading

end Wire
