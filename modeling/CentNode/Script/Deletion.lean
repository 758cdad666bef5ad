import CentNode.Script.Instructions

/-!
# Deletion from script code

`FindAndDelete` with the number it returns.  Where it compares bytes an instruction starts,
so that deleting an instruction deletes it wherever it stands among the others and nothing
else.
-/

namespace CentNode

namespace CScript

/-- The inner loop of `FindAndDelete`, with `nFound`. -/
def eraseFound (b pc : CScript) (nFound : Int) : CScript × Int :=
  if b.length ≤ pc.length ∧ 0 < b.length ∧ pc.take b.length = b then
    eraseFound b (pc.drop b.length) (toInt32 (nFound + 1))
  else (pc, nFound)
termination_by pc.length
decreasing_by
  rw [List.length_drop]
  omega

section

variable (script b pc : CScript) (nFound : Int)

theorem eraseFound_le :
    (eraseFound b pc nFound).1.length ≤ pc.length := by
  fun_induction eraseFound b pc nFound with
  | case1 pc nFound _ ih => exact Nat.le_trans ih (by simp)
  | case2 pc nFound _ => exact Nat.le_refl _

/-- The outer loop of `FindAndDelete`, with `nFound`. -/
def deleteFound (b pc : CScript) (nFound : Int) : CScript × Int :=
  let erased := eraseFound b pc nFound
  match _read : getOp erased.1 with
  | none => erased
  | some (_, _, rest) =>
    let kept := deleteFound b rest erased.2
    (erased.1.take (erased.1.length - rest.length) ++ kept.1, kept.2)
termination_by pc.length
decreasing_by exact Nat.lt_of_lt_of_le (getOp_length_lt _read) (eraseFound_le b pc nFound)

/-- `FindAndDelete`: the script that it leaves, and the `int` that it returns. -/
def findAndDeleteFound (script b : CScript) : CScript × Int :=
  if b.isEmpty then (script, 0) else deleteFound b script 0

theorem eraseHere_eq :
    eraseHere b pc = .ok (eraseFound b pc nFound).1 := by
  fun_induction eraseFound b pc nFound with
  | case1 pc nFound found ih =>
    rw [eraseHere, dif_pos ⟨found.1, found.2.1⟩, bytesAt_eq (by omega)]
    change (if pc.take b.length = b then _ else _) = _
    rw [if_pos found.2.2]
    exact ih
  | case2 pc nFound missing =>
    rw [eraseHere]
    split
    case isTrue inside =>
      have differs : pc.take b.length ≠ b := fun same => missing ⟨inside.1, inside.2, same⟩
      rw [bytesAt_eq (by omega)]
      change (if pc.take b.length = b then _ else _) = _
      rw [if_neg differs]
    case isFalse => rfl

theorem deleteFrom_eq :
    deleteFrom b pc = .ok (deleteFound b pc nFound).1 := by
  fun_induction deleteFound b pc nFound with
  | case1 pc nFound erased ends =>
    rw [deleteFrom]
    split
    case h_1 stop failed => cases failed.symm.trans (eraseHere_eq b pc nFound)
    case h_2 left done =>
      obtain rfl : left = erased.1 := Except.ok.inj (done.symm.trans (eraseHere_eq b pc nFound))
      split
      case h_1 stop failed => cases failed.symm.trans (getOp2_eq _)
      case h_2 => rfl
      case h_3 read =>
        rw [getOp2_eq, ends] at read
        cases read
  | case2 pc nFound erased opcode vch rest read kept ih =>
    rw [deleteFrom]
    split
    case h_1 stop failed => cases failed.symm.trans (eraseHere_eq b pc nFound)
    case h_2 left done =>
      obtain rfl : left = erased.1 := Except.ok.inj (done.symm.trans (eraseHere_eq b pc nFound))
      split
      case h_1 stop failed => cases failed.symm.trans (getOp2_eq _)
      case h_2 ends =>
        rw [getOp2_eq, read] at ends
        cases ends
      case h_3 opcode' vch' rest' again =>
        rw [getOp2_eq, read] at again
        cases again
        rw [ih]
        rfl

/-- The script that the interpreter goes on with is the one that `FindAndDelete` leaves. -/
theorem findAndDelete_eq :
    findAndDelete script b = .ok (findAndDeleteFound script b).1 := by
  unfold findAndDelete findAndDeleteFound
  split
  · rfl
  · exact deleteFrom_eq b script 0

end

/-! ## Deleting an instruction -/

section

variable {count : Nat} {target instruction : Instruction} {tail b first second pc rest : CScript}
  {nFound mFound : Int}

theorem eraseFound_same (filled : b ≠ []) (more : CScript) (nFound : Int) :
    eraseFound b (b ++ more) nFound = eraseFound b more (toInt32 (nFound + 1)) := by
  have positive := List.length_pos_of_ne_nil filled
  rw [eraseFound, if_pos ⟨by simp, positive, by simp⟩, List.drop_left]

theorem eraseFound_absent (absent : ¬ b <+: pc) (nFound : Int) :
    eraseFound b pc nFound = (pc, nFound) := by
  rw [eraseFound, if_neg]
  rintro ⟨_, _, same⟩
  exact absent (List.prefix_iff_eq_take.mpr same.symm)

theorem eraseFound_other (other : instruction ≠ target)
    (more : CScript) (nFound : Int) :
    eraseFound target.bytes (instruction.bytes ++ more) nFound =
      (instruction.bytes ++ more, nFound) :=
  eraseFound_absent (fun here => other (Instruction.eq_of_prefix rfl here).symm) nFound

theorem eraseFound_tail (ends : getOp tail = none)
    (nFound : Int) : eraseFound target.bytes tail nFound = (tail, nFound) := by
  refine eraseFound_absent ?_ nFound
  rintro ⟨rest, rfl⟩
  cases ends.symm.trans (target.reads rest)

theorem deleteFound_of_read {opcode : UInt8}
    {vch : List UInt8} (here : eraseFound b pc nFound = (pc, nFound))
    (read : getOp pc = some (opcode, vch, rest)) :
    deleteFound b pc nFound =
      (pc.take (pc.length - rest.length) ++ (deleteFound b rest nFound).1,
        (deleteFound b rest nFound).2) := by
  rw [deleteFound]
  split
  case h_1 ends =>
    rw [here, read] at ends
    cases ends
  case h_2 opcode' vch' rest' again =>
    rw [here, read] at again
    cases again
    rw [here]

theorem deleteFound_of_end (here : eraseFound b pc nFound = (pc, nFound)) (ends : getOp pc = none) :
    deleteFound b pc nFound = (pc, nFound) := by
  rw [deleteFound]
  split
  case h_1 => exact here
  case h_2 read =>
    rw [here, ends] at read
    cases read

theorem deleteFound_congr (same : eraseFound b first nFound = eraseFound b second mFound) :
    deleteFound b first nFound = deleteFound b second mFound := by
  rw [deleteFound, deleteFound, same]

/-- `++nFound`, several times. -/
def foundAfter (count : Nat) (nFound : Int) : Int := (fun n => toInt32 (n + 1))^[count] nFound

theorem foundAfter_of_small (nonneg : 0 ≤ nFound)
    (small : nFound + count < 2 ^ 31) : foundAfter count nFound = nFound + count := by
  induction count generalizing nFound with
  | zero => simp [foundAfter]
  | succ count ih =>
    have next : toInt32 (nFound + 1) = nFound + 1 := toInt32_of_range (by omega) (by omega)
    have later := @ih (nFound + 1) (by omega) (by omega)
    unfold foundAfter at later ⊢
    rw [Function.iterate_succ_apply, next, later]
    omega

end

section

variable (target : Instruction) (instructions : List Instruction) {tail : CScript}
  (ends : getOp tail = none)

include target instructions ends

theorem deleteFound_join (nFound : Int) :
    deleteFound target.bytes (joinBytes instructions ++ tail) nFound =
      (joinBytes (instructions.filter fun other => other.bytes ≠ target.bytes) ++ tail,
        foundAfter (instructions.countP fun other => other.bytes = target.bytes) nFound) := by
  induction instructions generalizing nFound with
  | nil => exact deleteFound_of_end (eraseFound_tail ends nFound) ends
  | cons instruction rest ih =>
    rw [joinBytes_cons, List.append_assoc]
    by_cases same : instruction.bytes = target.bytes
    · rw [same, deleteFound_congr (eraseFound_same target.bytes_ne_nil _ nFound), ih]
      simp [same, foundAfter]
    · have other : instruction ≠ target := fun equal => same (congrArg Instruction.bytes equal)
      rw [deleteFound_of_read (eraseFound_other other _ nFound) (instruction.reads _), ih]
      simp [same, foundAfter]

theorem findAndDeleteFound_join :
    findAndDeleteFound (joinBytes instructions ++ tail) target.bytes =
      (joinBytes (instructions.filter fun other => other.bytes ≠ target.bytes) ++ tail,
        foundAfter (instructions.countP fun other => other.bytes = target.bytes) 0) := by
  have filled : target.bytes.isEmpty = false := by
    simpa using target.bytes_ne_nil
  rw [findAndDeleteFound, filled, if_neg Bool.false_ne_true, deleteFound_join target _ ends]

end

end CScript

/-- The push of a vector whose size the push can hold. -/
def Instruction.push (vch : Valtype) (small : vch.length < 2 ^ 32) : Instruction where
  bytes := CScript.pushData vch
  opcode := (CScript.pushData vch).headD 0
  vch := vch
  reads := by
    intro more
    obtain ⟨opcode, _, read⟩ := CScript.getOp_pushData small more
    have first : (CScript.pushData vch).headD 0 = opcode := by
      have filled : CScript.pushData vch ≠ [] := by
        unfold CScript.pushData
        split_ifs <;> simp
      obtain ⟨head, rest, shape⟩ := List.exists_cons_of_ne_nil filled
      rw [shape] at read ⊢
      exact (CScript.getOp_head read).symm
    rw [read, first]

namespace CScript

/-- What is left of a script without the instructions of given bytes. -/
def without (script b : CScript) : CScript :=
  joinBytes (script.parse.1.filter fun other => other.bytes ≠ b) ++ script.parse.2

/-- How many instructions of a script have given bytes. -/
def countInstructions (script b : CScript) : Nat :=
  script.parse.1.countP fun other => other.bytes = b

/-- `FindAndDelete` removes the instructions that push a vector, no more and no less, and
returns how many they are. -/
def DeletesExactly (script : CScript) (vch : Valtype) : Prop :=
  findAndDeleteFound script (pushData vch) =
      (script.without (pushData vch), (script.countInstructions (pushData vch) : Int)) ∧
    findAndDeleteFound (script.without (pushData vch)) (pushData vch) =
      (script.without (pushData vch), 0)

theorem findAndDeleteFound_without (target : Instruction) (script : CScript) :
    findAndDeleteFound (script.without target.bytes) target.bytes =
      (script.without target.bytes, 0) := by
  have none : (script.parse.1.filter fun other => other.bytes ≠ target.bytes).countP
      (fun other => other.bytes = target.bytes) = 0 := by
    simp [List.countP_eq_zero]
  unfold without
  rw [findAndDeleteFound_join target _ (parse_ends script), none, List.filter_filter]
  simp [foundAfter]

theorem lt_length_pushData (vch : Valtype) : vch.length < (pushData vch).length := by
  unfold pushData
  split_ifs
  all_goals
    simp only [List.length_cons, List.length_append]
    omega

theorem deleteFound_of_long {b pc : CScript} (long : pc.length < b.length) (nFound : Int) :
    deleteFound b pc nFound = (pc, nFound) := by
  have here := eraseFound_absent (fun found => Nat.not_le.mpr long found.length_le) nFound
  cases read : getOp pc with
  | none => exact deleteFound_of_end here read
  | some op =>
    obtain ⟨opcode, vch, rest⟩ := op
    have shorter := getOp_length_lt read
    rw [deleteFound_of_read here read, deleteFound_of_long (Nat.lt_trans shorter long)]
    obtain ⟨bytes, rfl, _⟩ := getOp_append read
    simp
termination_by pc.length

/-- The push of a longer vector is not found, nor is any instruction such a push. -/
theorem deletesExactly_of_long {script : CScript} {vch : Valtype}
    (long : script.length < (pushData vch).length) : script.DeletesExactly vch := by
  have filled : (pushData vch).isEmpty = false :=
    List.isEmpty_eq_false_iff.mpr (List.ne_nil_of_length_pos (Nat.zero_lt_of_lt long))
  have nothing : findAndDeleteFound script (pushData vch) = (script, 0) := by
    rw [findAndDeleteFound, filled, if_neg Bool.false_ne_true, deleteFound_of_long long]
  have differ : ∀ other ∈ script.parse.1, other.bytes ≠ pushData vch := by
    intro other member same
    have inside : other.bytes.length ≤ (joinBytes script.parse.1).length := by
      rw [joinBytes, List.flatMap_def]
      exact (List.infix_of_mem_flatten (List.mem_map_of_mem member)).length_le
    have joined := congrArg List.length (parse_join script)
    rw [List.length_append] at joined
    rw [same] at inside
    omega
  have kept : script.without (pushData vch) = script := by
    unfold without
    rw [List.filter_eq_self.mpr fun other member => decide_eq_true (differ other member),
      parse_join]
  have none : script.countInstructions (pushData vch) = 0 :=
    List.countP_eq_zero.mpr fun other member => by simpa using differ other member
  refine ⟨?_, ?_⟩
  · rw [nothing, kept, none]
    rfl
  · rw [kept]
    exact nothing

/-- The signature is dropped from the script code, and nothing else. -/
theorem findAndDelete_exact (script : CScript) (vch : Valtype) (sized : script.length < 2 ^ 32)
    (few : script.countInstructions (pushData vch) < 2 ^ 31) : script.DeletesExactly vch := by
  rcases Nat.lt_or_ge vch.length (2 ^ 32) with small | large
  case inr =>
    have longer := Nat.lt_of_le_of_lt large (lt_length_pushData vch)
    exact deletesExactly_of_long (Nat.lt_trans sized longer)
  have deleted := findAndDeleteFound_join (.push vch small) script.parse.1 (parse_ends script)
  rw [parse_join] at deleted
  refine ⟨deleted.trans (congrArg (Prod.mk _) ?_), findAndDeleteFound_without (.push vch small) script⟩
  have counted : foundAfter (script.countInstructions (pushData vch)) 0 =
      0 + script.countInstructions (pushData vch) :=
    foundAfter_of_small (Int.le_refl 0) (by omega)
  rw [Int.zero_add] at counted
  exact counted

/-- A signature pushed twice, in two ways: one of them is the push that is deleted. -/
theorem findAndDelete_exact_sample :
    CScript.DeletesExactly [2, 7, 8, 0xac, 0x4c, 2, 7, 8, 2, 7, 8, 5] [7, 8] :=
  findAndDelete_exact _ [7, 8] (by decide) (by decide +kernel)

theorem pushData_wraps {vch : Valtype} (long : vch.length = 2 ^ 32) :
    pushData vch = [opPushdata4, 0, 0, 0, 0] ++ vch := by
  have zeros : sizeBytes 4 (2 ^ 32) = [0, 0, 0, 0] := by decide
  unfold pushData
  rw [long, if_neg (by decide), if_neg (by decide), if_neg (by decide), zeros]
  rfl

theorem deletes_too_much {vch : Valtype} (long : vch.length = 2 ^ 32) :
    ¬ DeletesExactly (pushData vch) vch := by
  rintro ⟨deleted, _⟩
  have filled : pushData vch ≠ [] := by simp [pushData_wraps long]
  -- the comparison of bytes takes the script away as a whole
  have erased : eraseFound (pushData vch) (pushData vch) 0 = eraseFound (pushData vch) [] 1 := by
    simpa [toInt32] using eraseFound_same filled [] 0
  have nothing : eraseFound (pushData vch) [] 1 = ([], 1) := by
    rw [eraseFound, if_neg]
    rintro ⟨inside, positive, _⟩
    exact absurd positive (Nat.not_lt.mpr inside)
  have all : findAndDeleteFound (pushData vch) (pushData vch) = ([], 1) := by
    rw [findAndDeleteFound, if_neg (by simpa using filled), deleteFound_congr erased]
    exact deleteFound_of_end nothing rfl
  -- the instruction at the start is the push of nothing
  let first : Instruction := ⟨[opPushdata4, 0, 0, 0, 0], opPushdata4, [], fun more => rfl⟩
  have parsed : (pushData vch).parse = (first :: (parse vch).1, (parse vch).2) := by
    rw [pushData_wraps long]
    exact parse_append first vch
  have other : first.bytes ≠ pushData vch := by
    intro same
    have sizes := congrArg List.length same
    rw [pushData_wraps long, List.length_append, long] at sizes
    cases sizes
  have kept : ([] : CScript) = (pushData vch).without (pushData vch) :=
    (congrArg Prod.fst (all.symm.trans deleted))
  simp [without, parsed, other, first.bytes_ne_nil] at kept

theorem findAndDelete_long_push :
    ¬ DeletesExactly (pushData (List.replicate (2 ^ 32) 0)) (List.replicate (2 ^ 32) 0) :=
  deletes_too_much List.length_replicate

end CScript

end CentNode
