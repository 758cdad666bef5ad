import CentNode.Library.Outcome
import CentNode.Script.Opcodes

/-!
# The stack of the script interpreter

A script stops with an error, which the interpreter reports, or with a fault: an
exception, a failed assertion, or an access outside a vector that nothing
checks.  Stacks are lists with the top first.
-/

namespace CentNode

open List

abbrev Valtype : Type := List UInt8

/-- What a script must not be able to cause, `scriptnum_error` apart. -/
inductive Fault where
  /-- `scriptnum_error`. -/
  | scriptnum
  /-- `std::out_of_range`, thrown by `vector::at`. -/
  | outOfRange
  /-- The exception of `popstack`. -/
  | stackEmpty
  /-- An access without a check. -/
  | outOfBounds
  | assertion
  deriving DecidableEq, Repr

inductive Stop where
  | error (serror : ScriptError)
  | fault (fault : Fault)
  deriving DecidableEq, Repr

abbrev Eval : Type → Type := Except Stop

/-- A stop that is not the interpreter's own slip. -/
def Stop.Expected (stop : Stop) : Prop := ∀ fault, stop = .fault fault → fault = .scriptnum

/-- The program returns a value with `post`, or stops as it may. -/
abbrev Safe {α : Type} (run : Eval α) (post : α → Prop) : Prop :=
  Outcome.Meets run post Stop.Expected

theorem Stop.expected_error (serror : ScriptError) : (Stop.error serror).Expected := by
  intro fault isFault
  cases isFault

theorem Stop.expected_scriptnum : (Stop.fault .scriptnum).Expected := by
  intro fault isFault
  cases isFault
  rfl

/-- `if (!cond) return set_error(serror, ...)`. -/
def require (cond : Prop) [Decidable cond] (serror : ScriptError) : Eval Unit :=
  if cond then .ok () else .error (.error serror)

theorem require_meets (cond : Prop) [Decidable cond] {serror : ScriptError} {fails : Stop → Prop}
    (allowed : fails (.error serror)) :
    Outcome.Meets (require cond serror) (fun _ => cond) fails := by
  unfold require
  exact .ite (fun holds => .ok holds) fun _ => .error allowed

theorem require_safe (cond : Prop) [Decidable cond] (serror : ScriptError) :
    Safe (require cond serror) fun _ => cond :=
  require_meets cond (Stop.expected_error serror)

/-- A check made only under a flag. -/
def checkWhen (flag : Bool) (check : Eval Unit) : Eval Unit := if flag then check else .ok ()

theorem checkWhen_safe (flag : Bool) {check : Eval Unit} (checked : Safe check fun _ => True) :
    Safe (checkWhen flag check) fun _ => True := by
  unfold checkWhen
  exact .ite (fun _ => checked) fun _ => .ok trivial

theorem checkWhen_narrows {strict lax : Bool} {check : Eval Unit}
    (on : lax = true → strict = true) :
    Outcome.Narrows (checkWhen strict check) (checkWhen lax check) :=
  .switch on (.refl check)

def assertThat (cond : Prop) [Decidable cond] : Eval Unit :=
  if cond then .ok () else .error (.fault .assertion)

theorem assertThat_eq {cond : Prop} [Decidable cond] (holds : cond) : assertThat cond = .ok () :=
  if_pos holds

/-- `operator[]` of a vector of bytes. -/
def byteAt (vch : Valtype) (i : Nat) : Eval UInt8 :=
  match vch[i]? with
  | some byte => .ok byte
  | none => .error (.fault .outOfBounds)

variable {vch : Valtype} {i : Nat}

theorem byteAt_eq (inside : i < vch.length) : byteAt vch i = .ok vch[i] := by
  rw [byteAt, getElem?_eq_getElem inside]

theorem byteAt_safe (inside : i < vch.length) :
    Safe (byteAt vch i) fun byte => vch[i]? = some byte := by
  rw [byteAt_eq inside]
  exact .ok (getElem?_eq_getElem inside)

/-- The bytes from an index on, read through a pointer. -/
def bytesAt (vch : Valtype) (i count : Nat) : Eval (List UInt8) :=
  if i + count ≤ vch.length then .ok ((vch.drop i).take count) else .error (.fault .outOfBounds)

theorem bytesAt_eq {count : Nat} (inside : i + count ≤ vch.length) :
    bytesAt vch i count = .ok ((vch.drop i).take count) :=
  if_pos inside

/-- `CastToBool`: some byte is not zero, a sign bit at the end apart. -/
def castToBool (vch : Valtype) : Bool :=
  match vch with
  | [] => false
  | [last] => last != 0 && last != 0x80
  | byte :: rest => byte != 0 || castToBool rest

/-! ## Accesses to a stack -/

/-- `stacktop(-i)`. -/
def stackTop (stack : List Valtype) : Nat → Eval Valtype
  | 0 => .error (.fault .outOfRange)
  | i + 1 =>
    match stack[i]? with
    | some vch => .ok vch
    | none => .error (.fault .outOfRange)

def popStack : List Valtype → Eval (List Valtype)
  | [] => .error (.fault .stackEmpty)
  | _ :: rest => .ok rest

/-- `popstack`, several times. -/
def popStacks : Nat → List Valtype → Eval (List Valtype)
  | 0, stack => .ok stack
  | count + 1, stack => popStack stack >>= popStacks count

/-- `stack.erase(stack.end() - first, stack.end() - last)`. -/
def eraseRange (stack : List Valtype) (first last : Nat) : Eval (List Valtype) :=
  if last ≤ first ∧ first ≤ stack.length then .ok (stack.take last ++ stack.drop first)
  else .error (.fault .outOfBounds)

/-- `stack.insert(stack.end() - i, vch)`. -/
def insertAt (stack : List Valtype) (i : Nat) (vch : Valtype) : Eval (List Valtype) :=
  if i ≤ stack.length then .ok (stack.take i ++ vch :: stack.drop i)
  else .error (.fault .outOfBounds)

/-- `swap(stacktop(-i), stacktop(-j))`. -/
def swapTop (stack : List Valtype) (i j : Nat) : Eval (List Valtype) := do
  let first ← stackTop stack i
  let second ← stackTop stack j
  .ok ((stack.set (i - 1) second).set (j - 1) first)

def maxScriptElementSize : Nat := 520

/-- Every element of the stack has a size that a script may push. -/
def Fits (stack : List Valtype) : Prop := ∀ vch ∈ stack, vch.length ≤ maxScriptElementSize

namespace Fits

variable {stack : List Valtype} {vch : Valtype}

theorem nil : Fits [] := fun _ member => absurd member not_mem_nil

theorem push (small : vch.length ≤ maxScriptElementSize) (fits : Fits stack) :
    Fits (vch :: stack) := by
  intro other member
  rcases mem_cons.mp member with rfl | older
  · exact small
  · exact fits other older

theorem of_subset {other : List Valtype} (fits : Fits stack) (subset : other ⊆ stack) :
    Fits other :=
  fun vch member => fits vch (subset member)

end Fits

section Accesses

variable {stack : List Valtype}

theorem stackTop_eq {i : Nat} (deep : i < stack.length) : stackTop stack (i + 1) = .ok stack[i] := by
  rw [stackTop, getElem?_eq_getElem deep]

theorem stackTop_safe {i : Nat} (positive : 0 < i) (deep : i ≤ stack.length) :
    Safe (stackTop stack i) (· ∈ stack) := by
  cases i with
  | zero => exact absurd positive (Nat.lt_irrefl 0)
  | succ i =>
    rw [stackTop_eq deep]
    exact .ok (getElem_mem deep)

theorem popStack_safe (count : Nat) (deep : count + 1 ≤ stack.length) :
    Safe (popStack stack) fun rest => rest ⊆ stack ∧ count ≤ rest.length := by
  cases stack with
  | nil => exact absurd deep (by simp)
  | cons top rest => exact .ok ⟨subset_cons_self top rest, Nat.le_of_succ_le_succ deep⟩

theorem popStacks_safe {count : Nat} (deep : count ≤ stack.length) :
    Safe (popStacks count stack) fun rest => rest ⊆ stack ∧ rest.length + count = stack.length := by
  induction count generalizing stack with
  | zero => exact .ok ⟨List.Subset.refl stack, rfl⟩
  | succ count ih =>
    cases stack with
    | nil => exact absurd deep (by simp)
    | cons top rest =>
      refine (ih (Nat.le_of_succ_le_succ deep)).mono fun left kept => ⟨?_, ?_⟩
      · exact List.Subset.trans kept.1 (subset_cons_self top rest)
      · rw [length_cons]
        omega

theorem eraseRange_safe {first last : Nat} (ordered : last ≤ first) (deep : first ≤ stack.length) :
    Safe (eraseRange stack first last) (· ⊆ stack) := by
  rw [eraseRange, if_pos ⟨ordered, deep⟩]
  exact .ok (append_subset.mpr ⟨take_subset last stack, drop_subset first stack⟩)

theorem insertAt_safe {i : Nat} {vch : Valtype} (deep : i ≤ stack.length) (member : vch ∈ stack) :
    Safe (insertAt stack i vch) (· ⊆ stack) := by
  rw [insertAt, if_pos deep]
  refine .ok (append_subset.mpr ⟨take_subset i stack, ?_⟩)
  exact cons_subset.mpr ⟨member, drop_subset i stack⟩

theorem swapTop_safe {i j : Nat} (first : 0 < i ∧ i ≤ stack.length)
    (second : 0 < j ∧ j ≤ stack.length) :
    Safe (swapTop stack i j) fun swapped => swapped ⊆ stack ∧ swapped.length = stack.length := by
  unfold swapTop
  refine .bind (stackTop_safe first.1 first.2) fun upper upperMember => ?_
  refine .bind (stackTop_safe second.1 second.2) fun lower lowerMember => .ok ⟨?_, by simp⟩
  intro vch member
  rcases mem_or_eq_of_mem_set member with older | rfl
  · rcases mem_or_eq_of_mem_set older with oldest | rfl
    · exact oldest
    · exact lowerMember
  · exact upperMember

end Accesses

end CentNode
