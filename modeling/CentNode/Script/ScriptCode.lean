import CentNode.Script.Stack

/-!
# Reading and editing script code

`CScript::GetOp2` with every read checked, the push that `operator<<` appends
and `FindAndDelete`.
-/

namespace CentNode

namespace CScript

/-- Read bytes at an iterator and move it past them. -/
def readBytes (pc : CScript) (count : Nat) : Eval (List UInt8 × CScript) :=
  if count ≤ pc.length then .ok (pc.take count, pc.drop count) else .error (.fault .outOfBounds)

theorem readBytes_eq {pc : CScript} {count : Nat} (inside : count ≤ pc.length) :
    readBytes pc count = .ok (pc.take count, pc.drop count) :=
  if_pos inside

/-- The size of the operand of a push opcode, as `GetOp2` reads it. -/
def readSize (opcode : UInt8) (pc : CScript) : Eval (Option (Nat × CScript)) :=
  if opcode < opPushdata1 then .ok (some (opcode.toNat, pc))
  else if pc.length < sizeWidth opcode then .ok none
  else do
    let (bytes, pc) ← readBytes pc (sizeWidth opcode)
    .ok (some (bytes.foldr (fun byte high => byte.toNat + 256 * high) 0, pc))

def getOp2 (pc : CScript) : Eval (Option (UInt8 × List UInt8 × CScript)) :=
  if pc.length < 1 then .ok none
  else do
    let opcode ← byteAt pc 0
    let (_, pc) ← readBytes pc 1
    if opcode ≤ opPushdata4 then do
      let sized ← readSize opcode pc
      match sized with
      | none => .ok none
      | some (nSize, pc) =>
        if pc.length < nSize then .ok none
        else do
          let (vch, rest) ← readBytes pc nSize
          .ok (some (opcode, vch, rest))
    else .ok (some (opcode, [], pc))

variable (opcode : UInt8) (script b pc : CScript)

theorem readSize_eq :
    readSize opcode pc = .ok (operandSize opcode pc) := by
  unfold readSize operandSize
  split
  · rfl
  · split
    · rfl
    · next enough =>
        rw [readBytes_eq (Nat.le_of_not_lt enough)]
        rfl

/-- No read of `GetOp2` leaves the script. -/
theorem getOp2_eq : getOp2 pc = .ok (getOp pc) := by
  cases pc with
  | nil => rfl
  | cons opcode pc =>
    rw [getOp2, if_neg (by simp), byteAt_eq (by simp), readBytes_eq (by simp), getOp]
    simp only [List.getElem_cons_zero, List.drop_succ_cons, List.drop_zero]
    change (if opcode ≤ opPushdata4 then _ else _) = _
    split
    · rw [readSize_eq]
      cases sized : operandSize opcode pc with
      | none => rfl
      | some operand =>
        obtain ⟨nSize, after⟩ := operand
        change (if after.length < nSize then _ else _) = Except.ok (if _ then _ else _)
        split
        · rfl
        · next enough =>
            rw [readBytes_eq (Nat.le_of_not_lt enough)]
            rfl
    · rfl

/-- The bytes of an unsigned number of a fixed width, least significant first. -/
def sizeBytes (width nSize : Nat) : List UInt8 :=
  (List.range width).map fun i => UInt8.ofNat (nSize / 256 ^ i)

/-- `CScript(b)`: the push of a vector that `operator<<` appends. -/
def pushData (b : Valtype) : CScript :=
  if b.length < opPushdata1.toNat then UInt8.ofNat b.length :: b
  else if b.length ≤ 0xff then opPushdata1 :: (sizeBytes 1 b.length ++ b)
  else if b.length ≤ 0xffff then opPushdata2 :: (sizeBytes 2 b.length ++ b)
  else opPushdata4 :: (sizeBytes 4 b.length ++ b)

/-- The inner loop of `FindAndDelete`: erase `b` where the iterator stands. -/
def eraseHere (b pc : CScript) : Eval CScript :=
  if _found : b.length ≤ pc.length ∧ 0 < b.length then do
    let bytes ← bytesAt pc 0 b.length
    if bytes = b then eraseHere b (pc.drop b.length) else .ok pc
  else .ok pc
termination_by pc.length
decreasing_by
  rw [List.length_drop]
  omega

theorem eraseHere_safe :
    Safe (eraseHere b pc) fun left => left.length ≤ pc.length := by
  fun_induction eraseHere b pc with
  | case1 pc found ih =>
    rw [bytesAt_eq (by omega)]
    refine .ite (fun _ => ih.mono fun left shorter => ?_) fun _ => .ok (Nat.le_refl _)
    rw [List.length_drop] at shorter
    omega
  | case2 pc missing => exact .ok (Nat.le_refl _)

/-- The outer loop of `FindAndDelete`, which goes on where the next opcode starts. -/
def deleteFrom (b pc : CScript) : Eval CScript :=
  match _erased : eraseHere b pc with
  | .error stop => .error stop
  | .ok left =>
    match _read : getOp2 left with
    | .error stop => .error stop
    | .ok none => .ok left
    | .ok (some (_, _, rest)) => do
        let kept ← deleteFrom b rest
        .ok (left.take (left.length - rest.length) ++ kept)
termination_by pc.length
decreasing_by
  have shorter := (eraseHere_safe b pc).value _erased
  rw [getOp2_eq] at _read
  have advanced := getOp_length_lt (Except.ok.inj _read)
  omega

def findAndDelete (script b : CScript) : Eval CScript :=
  if b.isEmpty then .ok script else deleteFrom b script

theorem deleteFrom_safe : Safe (deleteFrom b pc) fun _ => True := by
  fun_induction deleteFrom b pc with
  | case1 pc stop erased => exact .error ((eraseHere_safe b pc).failure erased)
  | case2 pc left erased stop read =>
    rw [getOp2_eq] at read
    cases read
  | case3 pc left erased read => exact .ok trivial
  | case4 pc left erased opcode vch rest read ih => exact .bind ih fun kept _ => .ok trivial

theorem findAndDelete_safe : Safe (findAndDelete script b) fun _ => True := by
  unfold findAndDelete
  exact .ite (fun _ => .ok trivial) fun _ => deleteFrom_safe b script

end CScript

end CentNode
