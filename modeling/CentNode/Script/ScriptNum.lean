import CentNode.Script.Stack

/-!
# Numbers on the stack

`CScriptNum` of `script/script.h`: operands of four bytes at most, results kept
in an `int64_t`.
-/

namespace CentNode

structure CScriptNum where
  m_value : Int
  /-- `m_value` is an `int64_t`. -/
  int64 : -2 ^ 63 ≤ m_value ∧ m_value < 2 ^ 63
  deriving DecidableEq, Repr

namespace CScriptNum

/-- `CScriptNum(n)`; an overflow on the way wraps. -/
def ofInt (n : Int) : CScriptNum where
  m_value := toInt64 n
  int64 := by
    unfold toInt64
    omega

/-- `nMaxNumSize`. -/
def maxNumSize : Nat := 4

/-- The bytes of an unsigned number, least significant first. -/
def absBytes (absvalue : Nat) : List UInt8 :=
  if absvalue = 0 then [] else UInt8.ofNat absvalue :: absBytes (absvalue / 256)
termination_by absvalue

def serialize (value : Int) : Valtype :=
  if value = 0 then []
  else
    let neg := decide (value < 0)
    let result := absBytes value.natAbs
    let last := result.getLastD 0
    if last &&& 0x80 ≠ 0 then result ++ [if neg then 0x80 else 0]
    else if neg then result.dropLast ++ [last ||| 0x80]
    else result

def getvch (bn : CScriptNum) : Valtype := serialize bn.m_value

/-- The number that bytes stand for, least significant first. -/
def littleEndian (vch : List UInt8) : Nat := vch.foldr (fun byte high => byte.toNat + 256 * high) 0

/-- `set_vch`; the operand has `maxNumSize` bytes at most. -/
def setVch (vch : Valtype) : Int :=
  let result : Int := littleEndian vch
  if vch.getLastD 0 &&& 0x80 ≠ 0 then -(result - 0x80 * 2 ^ (8 * (vch.length - 1))) else result

/-- The check of the constructor that the encoding is minimal. -/
def checkMinimal (vch : Valtype) : Eval Unit :=
  if vch.length > 0 then do
    let back ← byteAt vch (vch.length - 1)
    if back &&& 0x7f = 0 then
      if vch.length ≤ 1 then .error (.fault .scriptnum)
      else do
        let second ← byteAt vch (vch.length - 2)
        if second &&& 0x80 = 0 then .error (.fault .scriptnum) else .ok ()
    else .ok ()
  else .ok ()

/-- `CScriptNum(vch, fRequireMinimal)`. -/
def decode (vch : Valtype) (fRequireMinimal : Bool) : Eval CScriptNum :=
  if vch.length > maxNumSize then .error (.fault .scriptnum)
  else do
    checkWhen fRequireMinimal (checkMinimal vch)
    .ok (ofInt (setVch vch))

def int64Max : Int := 2 ^ 63 - 1

def int64Min : Int := -2 ^ 63

/-- `operator+=`. -/
def addAssign (bn rhs : CScriptNum) : Eval CScriptNum := do
  assertThat (rhs.m_value = 0 ∨ (rhs.m_value > 0 ∧ bn.m_value ≤ int64Max - rhs.m_value) ∨
    (rhs.m_value < 0 ∧ bn.m_value ≥ int64Min - rhs.m_value))
  .ok (ofInt (bn.m_value + rhs.m_value))

/-- `operator-=`. -/
def subAssign (bn rhs : CScriptNum) : Eval CScriptNum := do
  assertThat (rhs.m_value = 0 ∨ (rhs.m_value > 0 ∧ bn.m_value ≥ int64Min + rhs.m_value) ∨
    (rhs.m_value < 0 ∧ bn.m_value ≤ int64Max + rhs.m_value))
  .ok (ofInt (bn.m_value - rhs.m_value))

/-- `operator-()`. -/
def neg (bn : CScriptNum) : Eval CScriptNum := do
  assertThat (bn.m_value ≠ int64Min)
  .ok (ofInt (-bn.m_value))

def add (bn1 bn2 : CScriptNum) : CScriptNum := ofInt (bn1.m_value + bn2.m_value)

def sub (bn1 bn2 : CScriptNum) : CScriptNum := ofInt (bn1.m_value - bn2.m_value)

/-- A truth value assigned to a number. -/
def ofBool (value : Bool) : CScriptNum := ofInt (if value then 1 else 0)

def getint (bn : CScriptNum) : Int :=
  if bn.m_value > 2 ^ 31 - 1 then 2 ^ 31 - 1
  else if bn.m_value < -2 ^ 31 then -2 ^ 31
  else bn.m_value

/-! ## Sizes -/

theorem absBytes_length_le {absvalue size : Nat} (small : absvalue < 256 ^ size) :
    (absBytes absvalue).length ≤ size := by
  induction size generalizing absvalue with
  | zero =>
    have none_left : absvalue = 0 := Nat.lt_one_iff.mp small
    rw [absBytes, if_pos none_left]
    exact Nat.le_refl 0
  | succ size ih =>
    rw [absBytes]
    split
    · exact Nat.zero_le _
    · have fewer : absvalue / 256 < 256 ^ size := by
        rw [Nat.div_lt_iff_lt_mul (by decide), ← Nat.pow_succ]
        exact small
      exact Nat.succ_le_succ (ih fewer)

theorem getvch_length_le (bn : CScriptNum) : bn.getvch.length ≤ 9 := by
  have bytes : (absBytes bn.m_value.natAbs).length ≤ 8 := by
    apply absBytes_length_le
    have range := bn.int64
    omega
  unfold getvch serialize
  split
  · exact Nat.zero_le _
  · simp only
    split
    · rw [List.length_append, List.length_singleton]
      omega
    · split
      · rw [List.length_append, List.length_dropLast, List.length_singleton]
        omega
      · omega

theorem littleEndian_lt (vch : List UInt8) : littleEndian vch < 256 ^ vch.length := by
  unfold littleEndian
  induction vch with
  | nil => decide
  | cons byte rest ih =>
    have byte_lt := byte.toNat_lt
    rw [List.foldr_cons, List.length_cons, Nat.pow_succ]
    omega

/-- An operand is far from the ends of an `int64_t`. -/
theorem setVch_range {vch : Valtype} (short : vch.length ≤ maxNumSize) :
    -2 ^ 32 ≤ setVch vch ∧ setVch vch ≤ 2 ^ 32 := by
  have value_lt := littleEndian_lt vch
  have bytes_le : 256 ^ vch.length ≤ 256 ^ 4 := Nat.pow_le_pow_right (by decide) short
  have top_le : 2 ^ (8 * (vch.length - 1)) ≤ 2 ^ 24 :=
    Nat.pow_le_pow_right (by decide) (by unfold maxNumSize at short; omega)
  have top_int : (2 : Int) ^ (8 * (vch.length - 1)) ≤ 2 ^ 24 := by exact_mod_cast top_le
  have top_pos : (0 : Int) ≤ 2 ^ (8 * (vch.length - 1)) := pow_nonneg (by decide) _
  unfold setVch
  simp only
  split <;> omega

/-- Numbers that come from an operand. -/
def IsOperand (bn : CScriptNum) : Prop := -2 ^ 32 ≤ bn.m_value ∧ bn.m_value ≤ 2 ^ 32

theorem checkMinimal_safe (vch : Valtype) : Safe (checkMinimal vch) fun _ => True := by
  unfold checkMinimal
  refine .ite (fun some_bytes => ?_) fun _ => .ok trivial
  refine .bind (byteAt_safe (by omega)) fun back _ => .ite (fun _ => ?_) fun _ => .ok trivial
  refine .ite (fun _ => .error Stop.expected_scriptnum) fun longer => ?_
  refine .bind (byteAt_safe (by omega)) fun second _ => .ite (fun _ => ?_) fun _ => .ok trivial
  exact .error Stop.expected_scriptnum

theorem decode_safe (vch : Valtype) (fRequireMinimal : Bool) :
    Safe (decode vch fRequireMinimal) IsOperand := by
  unfold decode
  refine .ite (fun _ => .error Stop.expected_scriptnum) fun short => ?_
  have range := setVch_range (Nat.le_of_not_lt short)
  refine .bind (checkWhen_safe fRequireMinimal (checkMinimal_safe vch)) fun _ _ => .ok ?_
  have unwrapped : (ofInt (setVch vch)).m_value = setVch vch :=
    toInt64_of_range (by omega) (by omega)
  rw [IsOperand, unwrapped]
  exact range

theorem addAssign_safe {bn rhs : CScriptNum} (operand : bn.IsOperand) (other : rhs.IsOperand) :
    Safe (addAssign bn rhs) fun _ => True := by
  unfold addAssign IsOperand at *
  rw [assertThat_eq (by unfold int64Max int64Min; omega)]
  exact .ok trivial

theorem subAssign_safe {bn rhs : CScriptNum} (operand : bn.IsOperand) (other : rhs.IsOperand) :
    Safe (subAssign bn rhs) fun _ => True := by
  unfold subAssign IsOperand at *
  rw [assertThat_eq (by unfold int64Max int64Min; omega)]
  exact .ok trivial

theorem neg_safe {bn : CScriptNum} (operand : bn.IsOperand) : Safe bn.neg fun _ => True := by
  unfold neg IsOperand at *
  rw [assertThat_eq (by unfold int64Min; omega)]
  exact .ok trivial

/-! ## A stricter encoding -/

theorem decode_narrows {strict lax : Bool} (vch : Valtype) (on : lax = true → strict = true) :
    Outcome.Narrows (decode vch strict) (decode vch lax) := by
  unfold decode
  exact .ite (fun _ => .refl _) fun _ => .bind (checkWhen_narrows on) fun _ => .refl _

end CScriptNum

end CentNode
