import CentNode.Script.ScriptCode

/-!
# The instructions of a script

`GetOp` reads one instruction off the front of a script, whatever follows it.  A script is
the instructions that `GetOp` reads one after another, and a tail that it does not read.
-/

namespace CentNode

namespace CScript

variable {first opcode : UInt8} {vch : List UInt8} {script pc rest : CScript}

theorem operandSize_append {nSize : Nat}
    (sized : operandSize opcode pc = some (nSize, rest)) :
    ∃ width, pc = width ++ rest ∧
      ∀ more, operandSize opcode (width ++ more) = some (nSize, more) := by
  unfold operandSize at sized
  split at sized
  case isTrue direct =>
    cases sized
    exact ⟨[], rfl, fun more => by simp [operandSize, direct]⟩
  case isFalse indirect =>
    split at sized
    case isTrue => cases sized
    case isFalse enough =>
      cases sized
      refine ⟨pc.take (sizeWidth opcode), (List.take_append_drop _ _).symm, fun more => ?_⟩
      have taken : (pc.take (sizeWidth opcode)).length = sizeWidth opcode :=
        List.length_take_of_le (Nat.le_of_not_lt enough)
      simp [operandSize, indirect, taken]

/-- What `GetOp` reads does not depend on what follows. -/
theorem getOp_append {opcode : UInt8} {vch : List UInt8}
    (read : getOp script = some (opcode, vch, rest)) :
    ∃ bytes, script = bytes ++ rest ∧
      ∀ more, getOp (bytes ++ more) = some (opcode, vch, more) := by
  cases script with
  | nil => cases read
  | cons first pc =>
    rw [getOp] at read
    split at read
    case isFalse plain =>
      cases read
      exact ⟨[opcode], rfl, fun more => by simp [getOp, plain]⟩
    case isTrue pushes =>
      split at read
      case h_1 => cases read
      case h_2 nSize after sized =>
        split at read
        case isTrue => cases read
        case isFalse enough =>
          cases read
          obtain ⟨width, rfl, again⟩ := operandSize_append sized
          refine ⟨opcode :: (width ++ after.take nSize), ?_, fun more => ?_⟩
          · simp
          · have taken : (after.take nSize).length = nSize :=
              List.length_take_of_le (Nat.le_of_not_lt enough)
            simp [getOp, pushes, again, taken]

theorem getOp_head (read : getOp (first :: pc) = some (opcode, vch, rest)) : opcode = first := by
  rw [getOp] at read
  split at read
  case isFalse => exact (Prod.mk.inj (Option.some.inj read)).1.symm
  case isTrue =>
    split at read
    case h_1 => cases read
    case h_2 =>
      split at read
      case isTrue => cases read
      case isFalse => exact (Prod.mk.inj (Option.some.inj read)).1.symm

end CScript

/-- One instruction: its bytes, and what `GetOp` reads where they stand. -/
structure Instruction where
  bytes : CScript
  opcode : UInt8
  vch : List UInt8
  reads : ∀ more, CScript.getOp (bytes ++ more) = some (opcode, vch, more)

namespace Instruction

theorem ext_bytes {first second : Instruction} (same : first.bytes = second.bytes) :
    first = second := by
  obtain ⟨bytes, opcode, vch, reads⟩ := first
  obtain ⟨_, opcode', vch', reads'⟩ := second
  cases same
  have read := (reads []).symm.trans (reads' [])
  cases read
  rfl

theorem bytes_ne_nil (instruction : Instruction) : instruction.bytes ≠ [] := by
  intro empty
  have read := instruction.reads []
  rw [empty] at read
  cases read

theorem eq_of_prefix {first second : Instruction} {script more : CScript}
    (here : script = first.bytes ++ more) (there : second.bytes <+: script) : second = first := by
  obtain ⟨rest, rfl⟩ := there
  have read := second.reads rest
  rw [here, first.reads more] at read
  simp only [Option.some.injEq, Prod.mk.injEq] at read
  obtain ⟨-, -, rfl⟩ := read
  exact ext_bytes (List.append_cancel_right here)

/-- The instruction that `GetOp` read. -/
def ofRead {script rest : CScript} {opcode : UInt8} {vch : List UInt8}
    (read : CScript.getOp script = some (opcode, vch, rest)) : Instruction where
  bytes := script.take (script.length - rest.length)
  opcode := opcode
  vch := vch
  reads := by
    obtain ⟨bytes, rfl, again⟩ := CScript.getOp_append read
    simpa using again

theorem ofRead_append {script rest : CScript} {opcode : UInt8} {vch : List UInt8}
    (read : CScript.getOp script = some (opcode, vch, rest)) :
    (ofRead read).bytes ++ rest = script := by
  obtain ⟨bytes, rfl, _⟩ := CScript.getOp_append read
  simp [ofRead]

end Instruction

/-- The bytes of a run of instructions. -/
def joinBytes (instructions : List Instruction) : CScript := instructions.flatMap Instruction.bytes

@[simp]
theorem joinBytes_nil : joinBytes [] = [] := rfl

@[simp]
theorem joinBytes_cons (instruction : Instruction) (rest : List Instruction) :
    joinBytes (instruction :: rest) = instruction.bytes ++ joinBytes rest := rfl

namespace CScript

/-- The instructions of a script, and the tail that `GetOp` does not read. -/
def parse (script : CScript) : List Instruction × CScript :=
  match read : getOp script with
  | none => ([], script)
  | some (_, _, rest) =>
    have := getOp_length_lt read
    let later := parse rest
    (Instruction.ofRead read :: later.1, later.2)
termination_by script.length

theorem parse_of_none {script : CScript} (ends : getOp script = none) :
    parse script = ([], script) := by
  unfold parse
  split
  case h_1 => rfl
  case h_2 read => cases ends.symm.trans read

theorem parse_append (instruction : Instruction) (more : CScript) :
    parse (instruction.bytes ++ more) = (instruction :: (parse more).1, (parse more).2) := by
  rw [parse]
  split
  case h_1 read => cases read.symm.trans (instruction.reads more)
  case h_2 opcode vch rest read =>
    have same := read.symm.trans (instruction.reads more)
    simp only [Option.some.injEq, Prod.mk.injEq] at same
    obtain ⟨-, -, rfl⟩ := same
    have whole := Instruction.ofRead_append read
    have this : Instruction.ofRead read = instruction :=
      Instruction.ext_bytes (List.append_cancel_right whole)
    simp [this]

theorem parse_join (script : CScript) : joinBytes (parse script).1 ++ (parse script).2 = script := by
  fun_induction parse script with
  | case1 script _ => simp
  | case2 script opcode vch rest read _ later ih =>
    simpa [later, ih] using Instruction.ofRead_append read

theorem parse_ends (script : CScript) : getOp (parse script).2 = none := by
  fun_induction parse script with
  | case1 script ends => exact ends
  | case2 script opcode vch rest read _ later ih => exact ih

/-! ## The push of a vector -/

theorem sizeBytes_length (width nSize : Nat) : (sizeBytes width nSize).length = width := by
  simp [sizeBytes]

theorem sizeBytes_value {width nSize : Nat} (fits : nSize < 256 ^ width) :
    (sizeBytes width nSize).foldr (fun byte high => byte.toNat + 256 * high) 0 = nSize := by
  induction width generalizing nSize with
  | zero =>
    have none : nSize = 0 := by simpa using fits
    simp [none, sizeBytes]
  | succ width ih =>
    have step : sizeBytes (width + 1) nSize =
        UInt8.ofNat nSize :: sizeBytes width (nSize / 256) := by
      simp [sizeBytes, List.range_succ_eq_map, Nat.div_div_eq_div_mul, Nat.pow_succ,
        Nat.mul_comm]
    have high : nSize / 256 < 256 ^ width := by
      rw [Nat.pow_succ] at fits
      omega
    rw [step, List.foldr_cons, ih high, UInt8.toNat_ofNat']
    omega

theorem getOp_sized {opcode : UInt8} {vch : List UInt8}
    (wide : opcode = opPushdata1 ∨ opcode = opPushdata2 ∨ opcode = opPushdata4)
    (fits : vch.length < 256 ^ sizeWidth opcode) (more : CScript) :
    getOp (opcode :: (sizeBytes (sizeWidth opcode) vch.length ++ vch) ++ more) =
      some (opcode, vch, more) := by
  have pushes : opcode ≤ opPushdata4 := by rcases wide with rfl | rfl | rfl <;> decide
  have indirect : ¬ opcode < opPushdata1 := by rcases wide with rfl | rfl | rfl <;> decide
  have length := sizeBytes_length (sizeWidth opcode) vch.length
  have enough : ¬ sizeWidth opcode + (vch.length + more.length) < sizeWidth opcode := by omega
  simp [getOp, pushes, operandSize, indirect, length, enough, sizeBytes_value fits]

theorem getOp_pushData {vch : Valtype} (small : vch.length < 2 ^ 32) (more : CScript) :
    ∃ opcode, opcode ≤ opPushdata4 ∧ getOp (pushData vch ++ more) = some (opcode, vch, more) := by
  unfold pushData
  split_ifs with direct one two
  · have below : vch.length < 76 := direct
    have value : (UInt8.ofNat vch.length).toNat = vch.length := by
      rw [UInt8.toNat_ofNat']
      omega
    have first : UInt8.ofNat vch.length < opPushdata1 := by
      rw [UInt8.lt_iff_toNat_lt, value]
      exact direct
    have pushes : UInt8.ofNat vch.length ≤ opPushdata4 := by
      rw [UInt8.le_iff_toNat_le, value]
      exact Nat.le_trans (Nat.le_of_lt direct) (by decide)
    refine ⟨_, pushes, ?_⟩
    simp [getOp, pushes, operandSize, first, value]
  · exact ⟨_, by decide, getOp_sized (.inl rfl) (Nat.lt_succ_of_le one) more⟩
  · exact ⟨_, by decide, getOp_sized (.inr (.inl rfl)) (Nat.lt_succ_of_le two) more⟩
  · exact ⟨_, by decide, getOp_sized (.inr (.inr rfl)) small more⟩

end CScript

end CentNode
