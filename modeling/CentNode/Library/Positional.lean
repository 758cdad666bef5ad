import Mathlib.Data.Nat.Digits.Lemmas

/-!
# Positional numbers

Digits in a base, the most significant first, and their regrouping: digits of one width in
bits become digits of another one, and the bits in between are held as a number.
-/

namespace Positional

open List

/-- The number that digits stand for, the most significant first. -/
def value (base : Nat) (digits : List Nat) : Nat := Nat.ofDigits base digits.reverse

variable {base : Nat}

theorem value_append (front back : List Nat) : value base (front ++ back) =
    value base front * base ^ back.length + value base back := by
  rw [value, reverse_append, Nat.ofDigits_append, length_reverse, Nat.add_comm,
    Nat.mul_comm]
  rfl

theorem value_concat (digits : List Nat) (last : Nat) :
    value base (digits ++ [last]) = value base digits * base + last := by
  rw [value_append, length_singleton, Nat.pow_one]
  rfl

theorem value_inj (one : 1 < base) {first second : List Nat}
    (small : ∀ digit ∈ first, digit < base) (smallToo : ∀ digit ∈ second, digit < base)
    (length : first.length = second.length) (same : value base first = value base second) :
    first = second :=
  reverse_inj.mp <| Nat.ofDigits_inj_of_len_eq one (by simpa using length)
    (fun digit member => small digit (mem_reverse.mp member))
    (fun digit member => smallToo digit (mem_reverse.mp member)) same

/-! ## Regrouping -/

/-- From `bits` held bits that stand for `number`, digits of `width` bits are taken in and
digits of `group` bits are given out; no bit is lost. -/
structure Regroup (width group bits number : Nat) (taken given : List Nat)
    (bits' number' : Nat) : Prop where
  length : bits + width * taken.length = group * given.length + bits'
  value : number * 2 ^ (width * taken.length) + value (2 ^ width) taken =
    Positional.value (2 ^ group) given * 2 ^ bits' + number'
  held : number' < 2 ^ bits'
  small : ∀ digit ∈ given, digit < 2 ^ group

variable {width group bits number bits' number' bits'' number'' : Nat}

variable {taken given further later : List Nat}

theorem Regroup.nil (small : number < 2 ^ bits) :
    Regroup width group bits number [] [] bits number where
  length := Nat.add_comm ..
  value := by simp [Positional.value]
  held := small
  small := by simp

/-- One digit is taken, and what is given and held makes up the number with it. -/
theorem Regroup.single {digit : Nat} (length : bits + width = group * given.length + bits')
    (value : number * 2 ^ width + digit =
      Positional.value (2 ^ group) given * 2 ^ bits' + number') (held : number' < 2 ^ bits')
    (small : ∀ digit ∈ given, digit < 2 ^ group) :
    Regroup width group bits number [digit] given bits' number' where
  length := by rwa [length_singleton, Nat.mul_one]
  value := by
    rw [length_singleton, Nat.mul_one, ← value]
    simp [Positional.value]
  held := held
  small := small

theorem Regroup.append (first : Regroup width group bits number taken given bits' number')
    (second : Regroup width group bits' number' further later bits'' number'') :
    Regroup width group bits number (taken ++ further) (given ++ later) bits'' number'' where
  length := by
    have length := first.length
    have lengthToo := second.length
    rw [length_append, length_append, Nat.mul_add, Nat.mul_add]
    omega
  value := by
    have powers : 2 ^ bits' * 2 ^ (width * further.length) =
        2 ^ (group * later.length) * 2 ^ bits'' := by
      rw [← Nat.pow_add, ← Nat.pow_add, second.length]
    rw [value_append, value_append, length_append, Nat.mul_add, Nat.pow_add, ← Nat.pow_mul,
      ← Nat.pow_mul]
    calc
      number * (2 ^ (width * taken.length) * 2 ^ (width * further.length)) +
            (Positional.value (2 ^ width) taken * 2 ^ (width * further.length) +
              Positional.value (2 ^ width) further)
          = (number * 2 ^ (width * taken.length) + Positional.value (2 ^ width) taken) *
              2 ^ (width * further.length) + Positional.value (2 ^ width) further := by ring
      _ = Positional.value (2 ^ group) given * (2 ^ bits' * 2 ^ (width * further.length)) +
            (number' * 2 ^ (width * further.length) + Positional.value (2 ^ width) further) := by
          rw [first.value]
          ring
      _ = _ := by
          rw [powers, second.value]
          ring
  held := second.held
  small := fun digit member => (mem_append.mp member).elim (first.small digit) (second.small digit)

/-- What is given and held tells what is taken from the same digits. -/
theorem Regroup.unique (first : Regroup width group 0 0 taken given bits number)
    (second : Regroup width group 0 0 taken later bits' number') (few : bits < group)
    (fewToo : bits' < group) : given = later ∧ bits = bits' ∧ number = number' := by
  have positive : 0 < group := Nat.zero_lt_of_lt few
  have length := first.length.symm.trans second.length
  have count := congrArg (· / group) length
  have rest := congrArg (· % group) length
  simp only [Nat.mul_add_div positive, Nat.mul_add_mod, Nat.div_eq_of_lt few,
    Nat.div_eq_of_lt fewToo, Nat.mod_eq_of_lt few, Nat.mod_eq_of_lt fewToo] at count rest
  subst rest
  have value := first.value.symm.trans second.value
  rw [Nat.mul_comm, Nat.mul_comm _ (2 ^ bits)] at value
  have same := congrArg (· / 2 ^ bits) value
  have held := congrArg (· % 2 ^ bits) value
  simp only [Nat.mul_add_div (Nat.two_pow_pos bits), Nat.mul_add_mod,
    Nat.div_eq_of_lt first.held, Nat.div_eq_of_lt second.held, Nat.mod_eq_of_lt first.held,
    Nat.mod_eq_of_lt second.held, Nat.add_zero] at same held
  exact ⟨value_inj (Nat.one_lt_two_pow positive.ne') first.small second.small count same, rfl,
    held⟩

variable (small : ∀ digit ∈ taken, digit < 2 ^ width)

include small

/-- The digits that are given hold those that are taken, if no bit is held. -/
theorem Regroup.reverse (regroup : Regroup width group 0 0 taken given 0 number) :
    Regroup group width 0 0 given taken 0 0 where
  length := by
    have length := regroup.length
    omega
  value := by
    have value := regroup.value
    have held := regroup.held
    omega
  held := Nat.one_pos
  small := small

/-- A last digit takes the bits that are held, and zero bits after them. -/
theorem Regroup.reverse_last (regroup : Regroup width group 0 0 taken given bits number)
    (room : bits ≤ group) :
    Regroup group width 0 0 (given ++ [number * 2 ^ (group - bits)]) taken (group - bits) 0 where
  length := by
    have length := regroup.length
    rw [length_append, length_singleton, Nat.mul_add_one]
    omega
  value := by
    have value := regroup.value
    have whole : 2 ^ group = 2 ^ bits * 2 ^ (group - bits) := by
      rw [← Nat.pow_add, Nat.add_sub_cancel' room]
    rw [Nat.zero_mul, Nat.zero_add] at value ⊢
    rw [value, value_concat, Nat.add_mul, Nat.mul_assoc, ← whole, Nat.add_zero]
  held := Nat.two_pow_pos _
  small := small

/-- The digits tell the groups that hold them, with less than a group of zero bits. -/
theorem Regroup.unique_reverse (smallToo : ∀ digit ∈ further, digit < 2 ^ width)
    (first : Regroup width group 0 0 taken given bits 0)
    (second : Regroup width group 0 0 further given bits' 0) (few : bits < width)
    (fewToo : bits' < width) : taken = further := by
  have length := first.length
  have lengthToo := second.length
  have same : taken.length = further.length := by
    rcases Nat.lt_trichotomy taken.length further.length with less | same | more
    · have step := Nat.mul_le_mul_left width (Nat.succ_le_of_lt less)
      rw [Nat.mul_succ] at step
      omega
    · exact same
    · have step := Nat.mul_le_mul_left width (Nat.succ_le_of_lt more)
      rw [Nat.mul_succ] at step
      omega
  rw [same] at length
  obtain rfl : bits = bits' := by omega
  have value := first.value.trans second.value.symm
  rw [Nat.zero_mul, Nat.zero_mul, Nat.zero_add, Nat.zero_add] at value
  exact value_inj (Nat.one_lt_two_pow (Nat.ne_zero_of_lt few)) small smallToo same value

end Positional
