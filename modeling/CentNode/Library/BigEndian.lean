import Mathlib.Data.Nat.Digits.Lemmas

/-!
# Big-endian integers

Bytes, the most significant first, as a two's complement number.  Encodings of a number that
is not negative have a free first bit; the shortest one has no byte to spare.
-/

namespace BigEndian

/-- The number that bytes stand for, the most significant first. -/
def value (bytes : List UInt8) : Nat := Nat.ofDigits 256 (bytes.reverse.map UInt8.toNat)

variable {bytes : List UInt8} (first : UInt8) (rest : List UInt8)

theorem value_cons :
    value (first :: rest) = first.toNat * 256 ^ rest.length + value rest := by
  simp [value, Nat.ofDigits_append, Nat.mul_comm, Nat.add_comm]

theorem value_lt (bytes : List UInt8) : value bytes < 256 ^ bytes.length := by
  induction bytes with
  | nil => exact Nat.one_pos
  | cons first rest ih =>
    have byte : first.toNat + 1 ≤ 256 := first.toNat_lt
    calc
      value (first :: rest) = first.toNat * 256 ^ rest.length + value rest := value_cons first rest
      _ < first.toNat * 256 ^ rest.length + 256 ^ rest.length := Nat.add_lt_add_left ih _
      _ = (first.toNat + 1) * 256 ^ rest.length := (Nat.succ_mul _ _).symm
      _ ≤ 256 * 256 ^ rest.length := Nat.mul_le_mul_right _ byte
      _ = 256 ^ (first :: rest).length := by rw [List.length_cons, Nat.pow_succ, Nat.mul_comm]

/-- The bytes are not empty, and their first bit is not set. -/
def NonNegative (bytes : List UInt8) : Prop := ∃ first rest, bytes = first :: rest ∧ first < 0x80

/-- The bytes stand for a number that is not negative, and no fewer bytes do. -/
structure Shortest (bytes : List UInt8) : Prop where
  nonNegative : NonNegative bytes
  least : ∀ other, NonNegative other → value other = value bytes → bytes.length ≤ other.length

theorem NonNegative.value_lt (free : NonNegative bytes) :
    value bytes < 128 * 256 ^ (bytes.length - 1) := by
  obtain ⟨first, rest, rfl, low⟩ := free
  have half : first.toNat + 1 ≤ 128 := low
  calc
    value (first :: rest) = first.toNat * 256 ^ rest.length + value rest := value_cons first rest
    _ < first.toNat * 256 ^ rest.length + 256 ^ rest.length :=
        Nat.add_lt_add_left (BigEndian.value_lt rest) _
    _ = (first.toNat + 1) * 256 ^ rest.length := (Nat.succ_mul _ _).symm
    _ ≤ 128 * 256 ^ rest.length := Nat.mul_le_mul_right _ half

theorem NonNegative.length_gt (free : NonNegative bytes) {size : Nat}
    (large : 128 * 256 ^ size ≤ 256 * value bytes) : size < bytes.length := by
  have below := free.value_lt
  obtain ⟨first, rest, rfl, _⟩ := free
  by_contra few
  have powers : 256 * 256 ^ rest.length ≤ 256 ^ size := by
    rw [Nat.mul_comm, ← Nat.pow_succ]
    exact Nat.pow_le_pow_right (by decide) (Nat.le_of_not_lt few)
  rw [List.length_cons, Nat.add_sub_cancel] at below
  omega

/-- A byte is spared exactly if it is null and the byte after it has its first bit free. -/
theorem shortest_cons_iff :
    Shortest (first :: rest) ↔
      first < 0x80 ∧ (first = 0 → ∀ second ∈ rest.head?, ¬ second < 0x80) := by
  constructor
  · rintro ⟨⟨_, _, same, low⟩, least⟩
    cases same
    refine ⟨low, fun zero second atHead free => ?_⟩
    obtain ⟨tail, rfl⟩ := List.head?_eq_some_iff.mp atHead
    have same : value (second :: tail) = value (first :: second :: tail) := by
      rw [value_cons first, zero]
      simp
    exact Nat.not_succ_le_self _ (least (second :: tail) ⟨second, tail, rfl, free⟩ same)
  · rintro ⟨low, needed⟩
    refine ⟨⟨first, rest, rfl, low⟩, fun other free same => ?_⟩
    cases rest with
    | nil =>
      obtain ⟨_, _, rfl, _⟩ := free
      exact Nat.succ_le_succ (Nat.zero_le _)
    | cons second tail =>
      refine free.length_gt ?_
      rw [same, value_cons, List.length_cons]
      by_cases zero : first = 0
      · -- the second byte makes up for the first one
        have set : 128 ≤ second.toNat := Nat.le_of_not_lt (needed zero second rfl)
        have enough := Nat.mul_le_mul_right (256 ^ tail.length) set
        rw [value_cons second, Nat.pow_succ]
        omega
      · have one : 1 ≤ first.toNat :=
          Nat.pos_of_ne_zero fun none_ => zero (UInt8.toNat_inj.mp none_)
        have enough := Nat.mul_le_mul_right (256 ^ (tail.length + 1)) one
        omega

instance (bytes : List UInt8) : Decidable (Shortest bytes) :=
  match bytes with
  | [] => isFalse fun short => by
      obtain ⟨_, _, impossible, _⟩ := short.nonNegative
      cases impossible
  | first :: rest =>
    have : Decidable (∀ second ∈ rest.head?, ¬ second < 0x80) := rest.head?.decidableForallMem
    decidable_of_iff _ (shortest_cons_iff first rest).symm

end BigEndian
