import Mathlib.Data.List.Basic

/-!
# Bits kept in bytes

A table of bits is a vector of bytes; the bit of an index is in the byte that the
index without its last three binary digits names.  `none` is an access outside
the vector.
-/

namespace BitTable

open List BitVec Option

/-- The byte in which only the bit of an index is set. -/
def mask (index : Nat) : UInt8 := 1 <<< UInt8.ofNat (index % 8)

def test (table : List UInt8) (index : Nat) : Option Bool :=
  (table[index / 8]?).map fun byte => byte &&& mask index ≠ 0

def set (table : List UInt8) (index : Nat) : Option (List UInt8) :=
  (table[index / 8]?).map fun byte => table.set (index / 8) (byte ||| mask index)

theorem mask_ne_zero (index : Nat) : mask index ≠ 0 := by
  have shifts : ∀ digit : Fin 8, (1 : UInt8) <<< UInt8.ofNat digit.val ≠ 0 := by decide
  exact shifts ⟨index % 8, Nat.mod_lt _ (by decide)⟩

theorem or_and_self (byte bit : UInt8) : (byte ||| bit) &&& bit = bit := by
  apply UInt8.toBitVec_inj.mp
  apply eq_of_getLsbD_eq
  intro place inside
  simp only [UInt8.toBitVec_and, UInt8.toBitVec_or, getLsbD_and, getLsbD_or]
  cases byte.toBitVec.getLsbD place <;> cases bit.toBitVec.getLsbD place <;> rfl

theorem or_and_ne_zero {byte bit : UInt8} (added : UInt8) (here : byte &&& bit ≠ 0) :
    (byte ||| added) &&& bit ≠ 0 := by
  intro gone
  apply here
  apply UInt8.toBitVec_inj.mp
  apply eq_of_getLsbD_eq
  intro place inside
  have digit := congrArg (fun byte : UInt8 => byte.toBitVec.getLsbD place) gone
  simp only [UInt8.toBitVec_and, UInt8.toBitVec_or, getLsbD_and, getLsbD_or,
    UInt8.toBitVec_ofNat, getLsbD_zero] at digit ⊢
  revert digit
  cases byte.toBitVec.getLsbD place <;> cases bit.toBitVec.getLsbD place <;> simp

variable {table : List UInt8} {index : Nat}

theorem test_isSome (inside : index < table.length * 8) : ∃ bit, test table index = some bit := by
  have byte : index / 8 < table.length := by omega
  exact ⟨_, by rw [test, List.getElem?_eq_getElem byte, map_some]⟩

theorem set_isSome (inside : index < table.length * 8) : ∃ next, set table index = some next := by
  have byte : index / 8 < table.length := by omega
  exact ⟨_, by rw [set, List.getElem?_eq_getElem byte, map_some]⟩

/-! ## What setting a bit keeps -/

/-- The tables have one length, and a bit that is set in the first is set in the second. -/
def Below (first second : List UInt8) : Prop :=
  first.length = second.length ∧
    ∀ index, test first index = some true → test second index = some true

theorem Below.refl (table : List UInt8) : Below table table := ⟨rfl, fun _ here => here⟩

theorem Below.trans {first second third : List UInt8} (below : Below first second)
    (above : Below second third) : Below first third :=
  ⟨below.1.trans above.1, fun index here => above.2 index (below.2 index here)⟩

theorem test_eq_true_iff :
    test table index = some true ↔ ∃ byte, table[index / 8]? = some byte ∧ byte &&& mask index ≠ 0 := by
  rw [test, map_eq_some_iff]
  exact exists_congr fun byte => and_congr_right fun _ => decide_eq_true_iff

theorem set_below {next : List UInt8} (done : set table index = some next) :
    Below table next := by
  obtain ⟨byte, here, rfl⟩ := map_eq_some_iff.mp done
  refine ⟨length_set.symm, fun other marked => ?_⟩
  obtain ⟨found, there, bit⟩ := test_eq_true_iff.mp marked
  by_cases same : index / 8 = other / 8
  · rw [← same] at there
    cases here.symm.trans there
    refine test_eq_true_iff.mpr ⟨byte ||| mask index, ?_, or_and_ne_zero _ bit⟩
    rw [← same]
    exact getElem?_set_self (List.getElem?_eq_some_iff.mp here).1
  · refine test_eq_true_iff.mpr ⟨found, ?_, bit⟩
    rw [getElem?_set_ne same]
    exact there

theorem test_set {next : List UInt8} (done : set table index = some next) :
    test next index = some true := by
  obtain ⟨byte, here, rfl⟩ := map_eq_some_iff.mp done
  refine test_eq_true_iff.mpr ⟨byte ||| mask index, ?_, ?_⟩
  · exact getElem?_set_self (List.getElem?_eq_some_iff.mp here).1
  · rw [or_and_self]
    exact mask_ne_zero index

/-! ## Setting and testing the bits of several indices -/

def setAll (table : List UInt8) (indices : List Nat) : Option (List UInt8) :=
  indices.foldlM set table

def testAll (table : List UInt8) : List Nat → Option Bool
  | [] => some true
  | index :: rest =>
    (test table index).bind fun bit => if bit then testAll table rest else some false

variable {indices : List Nat}

theorem testAll_isSome (inside : ∀ index ∈ indices, index < table.length * 8) :
    ∃ bit, testAll table indices = some bit := by
  induction indices with
  | nil => exact ⟨true, rfl⟩
  | cons index rest ih =>
    obtain ⟨bit, tested⟩ := test_isSome (inside index mem_cons_self)
    rw [testAll, tested, bind_some]
    cases bit with
    | false => exact ⟨false, rfl⟩
    | true => exact ih fun other later => inside other (mem_cons_of_mem _ later)

theorem testAll_eq_true :
    testAll table indices = some true ↔ ∀ index ∈ indices, test table index = some true := by
  induction indices with
  | nil => exact iff_of_true rfl fun _ impossible => absurd impossible not_mem_nil
  | cons index rest ih =>
    rw [forall_mem_cons, ← ih, testAll]
    cases test table index with
    | none => simp
    | some bit => cases bit <;> simp

theorem Below.testAll {first second : List UInt8} (below : Below first second)
    (all : BitTable.testAll first indices = some true) :
    BitTable.testAll second indices = some true :=
  testAll_eq_true.mpr fun index inside => below.2 index (testAll_eq_true.mp all index inside)

theorem setAll_spec (inside : ∀ index ∈ indices, index < table.length * 8) :
    ∃ next, setAll table indices = some next ∧ Below table next ∧
      testAll next indices = some true := by
  induction indices generalizing table with
  | nil => exact ⟨table, rfl, Below.refl table, rfl⟩
  | cons index rest ih =>
    obtain ⟨middle, done⟩ := set_isSome (inside index mem_cons_self)
    have below := set_below done
    obtain ⟨next, rested, above, all⟩ := @ih middle fun other later => by
      rw [← below.1]
      exact inside other (mem_cons_of_mem _ later)
    refine ⟨next, ?_, below.trans above, ?_⟩
    · rw [setAll, foldlM_cons, done]
      exact rested
    · rw [testAll_eq_true, forall_mem_cons]
      exact ⟨above.2 index (test_set done), testAll_eq_true.mp all⟩

end BitTable
