import Mathlib.Data.List.Basic

/-!
# Joined texts

What can be told of the parts of a text that was put together from them: the part
up to the first character of another kind, the parts between separators, and a
number from its digits.
-/

namespace Texts

open List

variable {α : Type}

theorem append_cut {kind : α → Prop} {front other back rest : List α}
    (same : front ++ back = other ++ rest)
    (fronts : ∀ c ∈ front, kind c) (others : ∀ c ∈ other, kind c)
    (stops : ∀ c ∈ back.head?, ¬ kind c) (ends : ∀ c ∈ rest.head?, ¬ kind c) :
    front = other ∧ back = rest := by
  induction front generalizing other with
  | nil =>
    cases other with
    | nil => exact ⟨rfl, same⟩
    | cons c later =>
      rw [nil_append] at same
      refine absurd (others c mem_cons_self) (stops c ?_)
      rw [same]
      rfl
  | cons c later ih =>
    cases other with
    | nil =>
      rw [nil_append] at same
      refine absurd (fronts c mem_cons_self) (ends c ?_)
      rw [← same]
      rfl
    | cons d further =>
      obtain ⟨rfl, tails⟩ := List.cons.inj same
      obtain ⟨rfl, backs⟩ := ih tails
        (fun e inside => fronts e (mem_cons_of_mem _ inside))
        (fun e inside => others e (mem_cons_of_mem _ inside))
      exact ⟨rfl, backs⟩

theorem separated_cut {separator : α} {front other back rest : List α}
    (same : front ++ separator :: back = other ++ separator :: rest)
    (fronts : separator ∉ front) (others : separator ∉ other) : front = other ∧ back = rest := by
  have parts := @append_cut α (fun c => c ≠ separator) _ _ _ _ same
    (fun c inside equal => fronts (equal ▸ inside)) (fun c inside equal => others (equal ▸ inside))
    (fun c first => by cases first; exact fun different => different rfl)
    (fun c first => by cases first; exact fun different => different rfl)
  exact ⟨parts.1, (List.cons.inj parts.2).2⟩

/-! ## Separators -/

/-- Texts with a separator between them. -/
def joined (separator : α) : List (List α) → List α
  | [] => []
  | [text] => text
  | text :: next :: rest => text ++ separator :: joined separator (next :: rest)

theorem mem_joined {separator c : α} {texts : List (List α)}
    (inside : c ∈ joined separator texts) : c = separator ∨ ∃ text ∈ texts, c ∈ text := by
  induction texts using joined.induct with
  | case1 => cases inside
  | case2 text => exact Or.inr ⟨text, mem_cons_self, inside⟩
  | case3 text next rest ih =>
    rw [joined, mem_append, mem_cons] at inside
    rcases inside with here | rfl | later
    · exact Or.inr ⟨text, mem_cons_self, here⟩
    · exact Or.inl rfl
    · rcases ih later with same | ⟨other, member, there⟩
      · exact Or.inl same
      · exact Or.inr ⟨other, mem_cons_of_mem _ member, there⟩

theorem joined_inj {separator : α} {first second : List (List α)}
    (same : joined separator first = joined separator second)
    (count : first.length = second.length)
    (plain : ∀ text ∈ first, separator ∉ text) (plainToo : ∀ text ∈ second, separator ∉ text) :
    first = second := by
  induction first using joined.induct generalizing second with
  | case1 => exact (length_eq_zero_iff.mp count.symm).symm
  | case2 text =>
    obtain ⟨other, rfl⟩ := length_eq_one_iff.mp count.symm
    exact congrArg (fun text => [text]) same
  | case3 text next rest ih =>
    match second, count with
    | other :: after :: more, count =>
      obtain ⟨rfl, tails⟩ := separated_cut same (plain text mem_cons_self)
        (plainToo other mem_cons_self)
      rw [ih tails (Nat.succ.inj count)
        (fun text inside => plain text (mem_cons_of_mem _ inside))
        (fun text inside => plainToo text (mem_cons_of_mem _ inside))]

/-! ## Digits -/

theorem digitChar_inj : ∀ m n : Fin 16, Nat.digitChar m = Nat.digitChar n → m = n := by decide

/-- A number is told from its digits, up to base 16. -/
theorem toDigits_inj {base m n : Nat} (two : 1 < base) (sixteen : base ≤ 16)
    (same : Nat.toDigits base m = Nat.toDigits base n) : m = n := by
  have digit : ∀ {c d : Nat}, c < base → d < base → Nat.digitChar c = Nat.digitChar d → c = d := by
    intro c d below belowToo equal
    exact congrArg Fin.val (digitChar_inj ⟨c, by omega⟩ ⟨d, by omega⟩ equal)
  have size : ∀ number : Nat, 0 < (Nat.toDigits base number).length :=
    fun _ => Nat.length_toDigits_pos
  induction m using Nat.strongRecOn generalizing n with
  | ind m ih =>
    by_cases small : m < base
    · rw [Nat.toDigits_of_lt_base small] at same
      by_cases smallToo : n < base
      · rw [Nat.toDigits_of_lt_base smallToo] at same
        exact digit small smallToo (List.cons.inj same).1
      · rw [Nat.toDigits_of_base_le two (Nat.le_of_not_lt smallToo)] at same
        have sizes := congrArg List.length same
        rw [length_append, length_singleton, length_singleton] at sizes
        have quotient := size (n / base)
        omega
    · rw [Nat.toDigits_of_base_le two (Nat.le_of_not_lt small)] at same
      by_cases smallToo : n < base
      · rw [Nat.toDigits_of_lt_base smallToo] at same
        have sizes := congrArg List.length same
        rw [length_append, length_singleton, length_singleton] at sizes
        have quotient := size (m / base)
        omega
      · rw [Nat.toDigits_of_base_le two (Nat.le_of_not_lt smallToo)] at same
        obtain ⟨fronts, lasts⟩ := append_inj' same rfl
        have quotients := ih (m / base) (Nat.div_lt_self (by omega) two) fronts
        have remainders := digit (Nat.mod_lt m (by omega)) (Nat.mod_lt n (by omega))
          (List.cons.inj lasts).1
        rw [← Nat.div_add_mod m base, ← Nat.div_add_mod n base, quotients, remainders]

theorem mem_toDigits {base n : Nat} (two : 1 < base) {c : Char}
    (inside : c ∈ Nat.toDigits base n) : ∃ digit, digit < base ∧ c = Nat.digitChar digit := by
  induction n using Nat.strongRecOn with
  | ind n ih =>
    rw [Nat.toDigits_eq_if two] at inside
    split at inside
    case isTrue small => exact ⟨n, small, mem_singleton.mp inside⟩
    case isFalse large =>
      rcases mem_append.mp inside with front | last
      · exact ih (n / base) (Nat.div_lt_self (by omega) two) front
      · exact ⟨n % base, Nat.mod_lt n (by omega), mem_singleton.mp last⟩

end Texts
