import CentNode.Primitives.Transaction
import Mathlib.Tactic.Ring

/-!
# The texts of amounts

`FormatMoney` and `ParseMoney` of `utilmoneystr.cpp`.
-/

namespace CentNode

open List Option

/-- `isspace` in the C locale. -/
def isspace (c : Char) : Bool := c.toNat = 32 || (9 ≤ c.toNat && c.toNat ≤ 13)

/-- The trimming loop, on the text from its end: `str[i]` is a zero and `str[i - 2]` a digit. -/
def trimZeros : List Char → List Char
  | last :: point :: digit :: front =>
    if last = '0' ∧ digit.isDigit then trimZeros (point :: digit :: front)
    else last :: point :: digit :: front
  | short => short

/-- `FormatMoney`, save for the least `int64_t`, which has no absolute value. -/
def formatMoney (n : Int) (fPlus : Bool) : List Char :=
  let quotient := n.natAbs / coin.toNat
  let remainder := Nat.toDigits 10 (n.natAbs % coin.toNat)
  let str := Nat.toDigits 10 quotient ++ '.' :: (List.replicate (8 - remainder.length) '0' ++ remainder)
  let str := (trimZeros str.reverse).reverse
  if n < 0 then '-' :: str else if fPlus ∧ 0 < n then '+' :: str else str

/-- The digits behind the point: the units, and the text they end before. -/
def parseUnits (nUnits nMult : Nat) : List Char → Nat × List Char
  | [] => (nUnits, [])
  | c :: p =>
    if c.isDigit ∧ 0 < nMult then parseUnits (nUnits + nMult * (c.toNat - '0'.toNat)) (nMult / 10) p
    else (nUnits, c :: p)

/-- The first loop of `ParseMoney`: `strWhole`, `nUnits` and the text where it ends. -/
def parseWhole (strWhole : List Char) : List Char → Option (List Char × Nat × List Char)
  | [] => some (strWhole, 0, [])
  | c :: p =>
    if c = '.' then some (strWhole, parseUnits 0 (cent * 10).toNat p)
    else if isspace c then some (strWhole, 0, c :: p)
    else if c.isDigit then parseWhole (strWhole ++ [c]) p
    else none

/-- `ParseMoney(const char*)` behind the leading white space, up to the NUL. -/
def parseTrimmed (p : List Char) : Option Int := do
  let (strWhole, nUnits, p) ← parseWhole [] p
  -- guard against 63 bit overflow
  if p.all isspace ∧ strWhole.length ≤ 10 ∧ nUnits ≤ coin.toNat then
    some (toInt64 (Nat.ofDigitChars 10 strWhole 0 * coin + nUnits))
  else none

/-- `ParseMoney(const string&)`, which hands over `str.c_str()`. -/
def parseMoney (str : List Char) : Option Int :=
  parseTrimmed ((str.takeWhile fun c => c ≠ Char.ofNat 0).dropWhile isspace)

/-- White space, at most ten digits, maybe a point with at most so many digits, white space. -/
structure Amount (places : Nat) where
  before : List Char
  whole : List Char
  pointed : Bool
  fraction : List Char
  after : List Char
  spaces : ∀ c ∈ before ++ after, isspace c = true
  digits : ∀ c ∈ whole ++ fraction, c.isDigit = true
  few : whole.length ≤ 10 ∧ fraction.length ≤ places
  bare : pointed = false → fraction = []

variable {places : Nat} (amount : Amount places)

def Amount.text : List Char :=
  amount.before ++ (amount.whole ++
    ((if amount.pointed then '.' :: amount.fraction else []) ++ amount.after))

/-- The digits behind the point, the last of `places` as one. -/
def Amount.units : Nat :=
  Nat.ofDigitChars 10 amount.fraction 0 * 10 ^ (places - amount.fraction.length)

def Amount.value : Nat := Nat.ofDigitChars 10 amount.whole 0 * 10 ^ 8 + amount.units

/-- The same text, with two more places. -/
def Amount.widen (amount : Amount 8) : Amount 10 where
  before := amount.before
  whole := amount.whole
  pointed := amount.pointed
  fraction := amount.fraction
  after := amount.after
  spaces := amount.spaces
  digits := amount.digits
  few := ⟨amount.few.1, amount.few.2.trans (by decide)⟩
  bare := amount.bare

theorem units_widen (amount : Amount 8) : amount.widen.units = amount.units * 100 := by
  have places : 10 - amount.fraction.length = 8 - amount.fraction.length + 2 := by
    have few := amount.few.2
    omega
  change _ * 10 ^ (10 - amount.fraction.length) = _
  rw [places, Nat.pow_add, ← Nat.mul_assoc]
  rfl

theorem value_widen (amount : Amount 8) :
    amount.widen.value = amount.value + amount.units * 99 := by
  rw [Amount.value, units_widen, Amount.value, Nat.add_assoc]
  congr 1
  omega

theorem ofDigitChars_lt {digits : List Char} (all : ∀ c ∈ digits, c.isDigit = true) (init : Nat) :
    Nat.ofDigitChars 10 digits init < (init + 1) * 10 ^ digits.length := by
  induction digits generalizing init with
  | nil => simp
  | cons c rest ih =>
    obtain ⟨here, others⟩ := forall_mem_cons.mp all
    have nine : c.toNat ≤ 57 := (Char.isDigit_iff_toNat.mp here).2
    rw [Nat.ofDigitChars_cons]
    calc
      _ < (10 * init + (c.toNat - '0'.toNat) + 1) * 10 ^ rest.length := ih others _
      _ ≤ ((init + 1) * 10) * 10 ^ rest.length := by
        apply Nat.mul_le_mul_right
        change 10 * init + (c.toNat - 48) + 1 ≤ _
        omega
      _ = _ := by rw [Nat.mul_assoc, length_cons, Nat.pow_succ, Nat.mul_comm 10]

theorem not_isspace {c : Char} (digit : c.isDigit = true) : ¬ isspace c = true := by
  have range := Char.isDigit_iff_toNat.mp digit
  change 48 ≤ c.toNat ∧ c.toNat ≤ 57 at range
  simp only [isspace, Bool.or_eq_true, Bool.and_eq_true, decide_eq_true_eq]
  omega

theorem parseUnits_append {fraction after : List Char} {count : Nat} (nUnits : Nat)
    (digits : ∀ c ∈ fraction, c.isDigit = true) (few : fraction.length ≤ count)
    (stop : fraction.length = count ∨ ∀ c ∈ after.head?, c.isDigit = false) :
    parseUnits nUnits (10 ^ count / 10) (fraction ++ after) =
      (nUnits + Nat.ofDigitChars 10 fraction 0 * 10 ^ (count - fraction.length), after) := by
  induction fraction generalizing nUnits count with
  | nil =>
    cases after with
    | nil => simp [parseUnits]
    | cons c after =>
      rw [nil_append, parseUnits, if_neg]
      · simp
      · rintro ⟨digit, more⟩
        rcases stop with none_ | plain
        · rw [← none_] at more
          cases more
        · rw [plain c rfl] at digit
          cases digit
  | cons c fraction ih =>
    obtain ⟨here, others⟩ := forall_mem_cons.mp digits
    cases count with
    | zero => cases few
    | succ count =>
      have mult : 10 ^ (count + 1) / 10 = 10 ^ count := by
        rw [Nat.pow_succ, Nat.mul_div_cancel _ (by decide)]
      have powers : 10 ^ count = 10 ^ fraction.length * 10 ^ (count - fraction.length) := by
        rw [← Nat.pow_add, Nat.add_sub_cancel' (Nat.le_of_succ_le_succ few)]
      have decimal : Nat.ofDigitChars 10 (c :: fraction) 0 =
          10 ^ fraction.length * (c.toNat - '0'.toNat) + Nat.ofDigitChars 10 fraction 0 := by
        rw [Nat.ofDigitChars_cons, Nat.ofDigitChars_eq_ofDigitChars_zero, Nat.mul_zero,
          Nat.zero_add]
      rw [cons_append, parseUnits, mult, if_pos ⟨here, Nat.pow_pos (by decide)⟩,
        ih _ others (Nat.le_of_succ_le_succ few) (stop.imp_left Nat.succ.inj), decimal,
        length_cons, Nat.add_sub_add_right, powers]
      congr 1
      ring

theorem parseWhole_append {whole : List Char} (digits : ∀ c ∈ whole, c.isDigit = true)
    (strWhole rest : List Char) :
    parseWhole strWhole (whole ++ rest) = parseWhole (strWhole ++ whole) rest := by
  induction whole generalizing strWhole with
  | nil => rw [nil_append, append_nil]
  | cons c whole ih =>
    obtain ⟨here, others⟩ := forall_mem_cons.mp digits
    have point : c ≠ '.' := by
      rintro rfl
      cases here
    rw [cons_append, parseWhole, if_neg point, if_neg (not_isspace here), if_pos here,
      ih others, append_assoc]
    rfl

/-- Behind the leading white space, the digits come before the white space that is left. -/
theorem dropWhile_text : ∃ rest, (∀ c ∈ rest, isspace c = true) ∧
    amount.text.dropWhile isspace = amount.whole ++
      ((if amount.pointed then '.' :: amount.fraction else []) ++ rest) := by
  obtain ⟨before, whole, pointed, fraction, after, spaces, digits, few, bare⟩ := amount
  obtain ⟨spacesBefore, spacesAfter⟩ := forall_mem_append.mp spaces
  rw [Amount.text, dropWhile_append_of_pos spacesBefore]
  cases whole with
  | cons c whole =>
    exact ⟨after, spacesAfter, dropWhile_cons_of_neg (not_isspace (digits c mem_cons_self))⟩
  | nil =>
    cases pointed with
    | true => exact ⟨after, spacesAfter, rfl⟩
    | false => exact ⟨[], forall_mem_nil _, dropWhile_eq_nil_iff.mpr spacesAfter⟩

/-- The first digit behind the point counts ten coins, so two places more than eight are read. -/
theorem parseTrimmed_text (amount : Amount 10) : parseTrimmed (amount.text.dropWhile isspace) =
    if amount.units ≤ coin.toNat then some (amount.value : Int) else none := by
  obtain ⟨rest, spaces, trimmed⟩ := dropWhile_text amount
  obtain ⟨digitsWhole, digitsFraction⟩ := forall_mem_append.mp amount.digits
  obtain ⟨few, fewToo⟩ := amount.few
  have stop : ∀ c ∈ rest.head?, c.isDigit = false := fun c first =>
    Bool.eq_false_iff.mpr fun digit => not_isspace digit (spaces c (mem_of_mem_head? first))
  have parsed : parseWhole amount.whole
      ((if amount.pointed then '.' :: amount.fraction else []) ++ rest) =
        some (amount.whole, amount.units, rest) := by
    cases pointed : amount.pointed with
    | true =>
      have read := parseUnits_append 0 digitsFraction fewToo (.inr stop)
      rw [Nat.zero_add] at read
      exact congrArg (fun parts => some (amount.whole, parts)) read
    | false =>
      rw [Amount.units, amount.bare pointed]
      cases rest with
      | nil => rfl
      | cons c rest =>
        have space := spaces c mem_cons_self
        have point : c ≠ '.' := by
          rintro rfl
          cases space
        change parseWhole amount.whole (c :: rest) = _
        rw [parseWhole, if_neg point, if_pos space]
        rfl
  have wholes : Nat.ofDigitChars 10 amount.whole 0 < 10 ^ 10 :=
    (ofDigitChars_lt digitsWhole 0).trans_le
      ((Nat.one_mul _).trans_le (Nat.pow_le_pow_right (by decide) few))
  rw [parseTrimmed, trimmed, parseWhole_append digitsWhole, nil_append, parsed]
  by_cases small : amount.units ≤ coin.toNat
  · have most : amount.units ≤ 100000000 := small
    rw [if_pos small]
    change (if _ then some (toInt64 (_ * 100000000 + _)) else none) = _
    rw [if_pos ⟨List.all_eq_true.mpr spaces, few, small⟩,
      toInt64_of_range (by omega) (by omega), Amount.value, Nat.cast_add, Nat.cast_mul]
    rfl
  · rw [if_neg small]
    exact if_neg fun all => small all.2.2

/-- A text is at most so many digits and a rest that no digit has to start. -/
theorem exists_digits (count : Nat) (p : List Char) : ∃ fraction after, p = fraction ++ after ∧
    (∀ c ∈ fraction, c.isDigit = true) ∧ fraction.length ≤ count ∧
    (fraction.length = count ∨ ∀ c ∈ after.head?, c.isDigit = false) := by
  induction count generalizing p with
  | zero => exact ⟨[], p, rfl, forall_mem_nil _, le_rfl, .inl rfl⟩
  | succ count ih =>
    cases p with
    | nil => exact ⟨[], [], rfl, forall_mem_nil _, Nat.zero_le _, .inr fun _ none_ => by cases none_⟩
    | cons c p =>
      cases digit : c.isDigit with
      | false =>
        refine ⟨[], c :: p, rfl, forall_mem_nil _, Nat.zero_le _, .inr ?_⟩
        rintro _ ⟨⟩
        exact digit
      | true =>
        obtain ⟨fraction, after, rfl, digits, few, stop⟩ := ih p
        exact ⟨c :: fraction, after, rfl, forall_mem_cons.mpr ⟨digit, digits⟩,
          Nat.succ_le_succ few, stop.imp_left (congrArg Nat.succ)⟩

/-- What is accepted is an amount with up to ten places. -/
theorem exists_amount {text : List Char} {value : Int}
    (parsed : parseTrimmed (text.dropWhile isspace) = some value) :
    ∃ amount : Amount 10, amount.text = text ∧ amount.units ≤ coin.toNat ∧
      (amount.value : Int) = value := by
  have found : ∃ amount : Amount 10, amount.text = text := by
    have whole : text = text.takeWhile isspace ++ text.dropWhile isspace :=
      takeWhile_append_dropWhile.symm
    have leading : ∀ c ∈ text.takeWhile isspace, isspace c = true :=
      fun c member => mem_takeWhile_imp member
    generalize text.takeWhile isspace = before at whole leading
    generalize text.dropWhile isspace = p at whole parsed
    obtain ⟨digits, rest, rfl, all, -, stop⟩ := exists_digits (p.length + 1) p
    rw [parseTrimmed, parseWhole_append all, nil_append] at parsed
    obtain ⟨⟨strWhole, nUnits, q⟩, run, result⟩ := bind_eq_some_iff.mp parsed
    obtain ⟨spaces, few, -⟩ := (ite_none_right_eq_some.mp result).1
    have ending : ∀ c ∈ before ++ q, isspace c = true :=
      forall_mem_append.mpr ⟨leading, List.all_eq_true.mp spaces⟩
    cases rest with
    | nil =>
      cases run
      exact ⟨⟨before, digits, false, [], [], ending, by simpa using all, ⟨few, by simp⟩, fun _ => rfl⟩,
        whole.symm⟩
    | cons c rest =>
      rw [parseWhole] at run
      split at run
      · next point =>
          obtain ⟨fraction, after, rfl, digitsToo, fewToo, stopToo⟩ := exists_digits 10 rest
          have units := parseUnits_append 0 digitsToo fewToo stopToo
          change some (digits, parseUnits 0 (10 ^ 10 / 10) _) = _ at run
          rw [units] at run
          cases run
          exact ⟨⟨before, digits, true, fraction, q, ending,
            forall_mem_append.mpr ⟨all, digitsToo⟩, ⟨few, fewToo⟩, fun none_ => by cases none_⟩,
            by rw [whole, point]; rfl⟩
      · split at run
        · cases run
          exact ⟨⟨before, digits, false, [], c :: rest, ending, by simpa using all,
            ⟨few, by simp⟩, fun _ => rfl⟩, whole.symm⟩
        · split at run
          · next digit =>
              rcases stop with all | plain
              · rw [length_append, length_cons] at all
                omega
              · rw [plain c rfl] at digit
                cases digit
          · cases run
  obtain ⟨amount, rfl⟩ := found
  rw [parseTrimmed_text, ite_none_right_eq_some, Option.some.injEq] at parsed
  exact ⟨amount, rfl, parsed⟩

theorem trimZeros_spec (text : List Char) :
    ∃ count, text = List.replicate count '0' ++ trimZeros text := by
  fun_induction trimZeros text with
  | case1 last point digit front zero ih =>
    obtain ⟨count, same⟩ := ih
    refine ⟨count + 1, ?_⟩
    rw [replicate_succ, cons_append, ← same, zero.1]
  | case2 => exact ⟨0, rfl⟩
  | case3 => exact ⟨0, rfl⟩

/-- The zeros that are trimmed stand behind the point. -/
theorem trimmed_eq (whole fraction : List Char) : ∃ left count,
    (trimZeros (whole ++ '.' :: fraction).reverse).reverse = whole ++ '.' :: left ∧
      fraction = left ++ List.replicate count '0' := by
  obtain ⟨count, same⟩ := trimZeros_spec (whole ++ '.' :: fraction).reverse
  have parts := congrArg List.reverse same
  rw [reverse_reverse, reverse_append, reverse_replicate,
    append_cons whole] at parts
  rw [append_cons whole]
  rcases append_eq_append_iff.mp parts with ⟨left, front, back⟩ | ⟨zeros, front, back⟩
  · exact ⟨left, count, by rw [front, append_assoc]; rfl, back⟩
  · rcases eq_nil_or_concat' zeros with rfl | ⟨init, last, rfl⟩
    · exact ⟨[], count, by simpa using front.symm, back.symm⟩
    · rw [← append_assoc] at front
      obtain rfl := (append_inj' front rfl).2 |> singleton_inj.mp
      have point : '.' ∈ replicate count '0' := by simp [back]
      cases eq_of_mem_replicate point

theorem exists_format {n : Int} (low : 0 ≤ n) (high : n < 10 ^ 18) :
    ∃ amount : Amount 8, amount.text = formatMoney n false ∧ (amount.value : Int) = n ∧
      amount.units < 10 ^ 8 := by
  obtain ⟨number, rfl⟩ := Int.eq_ofNat_of_zero_le low
  have large : number / 10 ^ 8 < 10 ^ 10 := by omega
  have small : number % 10 ^ 8 < 10 ^ 8 := Nat.mod_lt _ (by decide)
  have short := (Nat.length_toDigits_le_iff (by decide) (by decide)).mpr small
  have digits {m : Nat} : ∀ c ∈ Nat.toDigits 10 m, c.isDigit = true := fun c member =>
    Nat.isDigit_of_mem_toDigits (by decide) (by decide) member
  obtain ⟨left, count, trimmed, parts⟩ := trimmed_eq (Nat.toDigits 10 (number / 10 ^ 8))
    (replicate (8 - (Nat.toDigits 10 (number % 10 ^ 8)).length) '0' ++
      Nat.toDigits 10 (number % 10 ^ 8))
  have length := congrArg List.length parts
  have decimal := congrArg (Nat.ofDigitChars 10 · 0) parts
  rw [length_append, length_append, length_replicate, length_replicate]
    at length
  simp only [Nat.ofDigitChars_append, Nat.ofDigitChars_replicate_zero, Nat.mul_zero,
    Nat.ofDigitChars_ten_toDigits] at decimal
  have inside : ∀ c ∈ left, c.isDigit = true := by
    intro c member
    have listed := parts ▸ mem_append_left (replicate count '0') member
    rcases mem_append.mp listed with zero | digit
    · rw [eq_of_mem_replicate zero]
      rfl
    · exact digits c digit
  refine ⟨⟨[], Nat.toDigits 10 (number / 10 ^ 8), true, left, [], forall_mem_nil _,
    forall_mem_append.mpr ⟨digits, inside⟩,
    ⟨(Nat.length_toDigits_le_iff (by decide) (by decide)).mpr large, by omega⟩,
    fun none_ => by cases none_⟩, ?_, ?_⟩
  · rw [formatMoney, if_neg (by omega)]
    refine Eq.trans ?_ (trimmed.symm.trans (if_neg fun plus => Bool.false_ne_true plus.1).symm)
    exact congrArg (Nat.toDigits 10 (number / 10 ^ 8) ++ ·) (append_nil _)
  · have count_eq : 8 - left.length = count := by omega
    have units : Nat.ofDigitChars 10 left 0 * 10 ^ (8 - left.length) = number % 10 ^ 8 := by
      rw [count_eq, Nat.mul_comm, ← decimal]
    refine ⟨?_, units.trans_lt small⟩
    rw [Amount.value, Amount.units, Nat.ofDigitChars_ten_toDigits, units, Nat.div_add_mod']

theorem nul_notMem_text : Char.ofNat 0 ∉ amount.text := by
  intro nul
  have space : Char.ofNat 0 ∉ amount.before ++ amount.after := fun member =>
    absurd (amount.spaces _ member) (by decide)
  have digit : Char.ofNat 0 ∉ amount.whole ++ amount.fraction := fun member =>
    absurd (amount.digits _ member) (by decide)
  rw [mem_append, not_or] at space digit
  rw [Amount.text] at nul
  cases pointed : amount.pointed <;> simp [pointed, space, digit] at nul

theorem parseMoney_eq {text : List Char} (clean : Char.ofNat 0 ∉ text) :
    parseMoney text = parseTrimmed (text.dropWhile isspace) := by
  have whole : (text.takeWhile fun c => c ≠ Char.ofNat 0) = text :=
    takeWhile_eq_self_iff.mpr fun c member =>
      decide_eq_true fun nul => clean (nul ▸ member)
  rw [parseMoney, whole]

/-- An amount with at most eight places is read with its decimals a hundred times as large. -/
theorem parseMoney_text (amount : Amount 8) : parseMoney amount.text =
    if amount.units ≤ 1000000 then some ((amount.value + amount.units * 99 : Nat) : Int) else none := by
  have read := parseTrimmed_text amount.widen
  have bound : amount.units * 100 ≤ coin.toNat ↔ amount.units ≤ 1000000 := by
    change _ ≤ 100000000 ↔ _
    omega
  rw [units_widen, value_widen] at read
  simp only [bound] at read
  exact (parseMoney_eq (nul_notMem_text amount)).trans read

/-- The text of an amount is read back if it is a number of whole coins.  A text is accepted as
an amount with its value if its decimals are zero, or if it is none and the text up to a NUL is
none with two more places either, unless its decimals come to more than a coin. -/
theorem parseMoney_iff (n : Int) (text : List Char) :
    (0 ≤ n → n < 10 ^ 18 → (parseMoney (formatMoney n false) = some n ↔ coin ∣ n)) ∧
    ((∀ value, parseMoney text = some value ↔
        ∃ amount : Amount 8, amount.text = text ∧ (amount.value : Int) = value) ↔
      (∀ amount : Amount 8, amount.text = text → amount.units = 0) ∧
      ((¬ ∃ amount : Amount 8, amount.text = text) → ∀ amount : Amount 10,
        amount.text = (text.takeWhile fun c => c ≠ Char.ofNat 0) → coin.toNat < amount.units)) := by
  constructor
  · intro low high
    obtain ⟨amount, same, value, small⟩ := exists_format low high
    have whole : coin ∣ n ↔ amount.units = 0 := by
      rw [← value, Amount.value]
      change (100000000 : Int) ∣ _ ↔ _
      omega
    rw [← same, parseMoney_text, whole, ite_none_right_eq_some, Option.some.injEq, ← value,
      Int.natCast_inj]
    omega
  · constructor
    · intro grammar
      refine ⟨fun amount same => ?_, fun none_ amount same => ?_⟩
      · have read := (grammar amount.value).mpr ⟨amount, same, rfl⟩
        rw [← same, parseMoney_text, ite_none_right_eq_some, Option.some.injEq,
          Int.natCast_inj] at read
        omega
      · by_contra small
        have read := parseTrimmed_text amount
        rw [if_pos (Nat.not_lt.mp small), same] at read
        obtain ⟨other, there, -⟩ := (grammar _).mp read
        exact none_ ⟨other, there⟩
    · rintro ⟨zeros, others⟩ value
      have read {amount : Amount 8} (same : amount.text = text) :
          parseMoney text = some (amount.value : Int) := by
        rw [← same, parseMoney_text, zeros amount same, if_pos (Nat.zero_le _), Nat.zero_mul,
          Nat.add_zero]
      constructor
      · intro accepted
        obtain ⟨wide, same, small, -⟩ := exists_amount accepted
        by_cases inside : ∃ amount : Amount 8, amount.text = text
        · obtain ⟨amount, same⟩ := inside
          exact ⟨amount, same, Option.some.inj ((read same).symm.trans accepted)⟩
        · exact absurd (others inside wide same) (Nat.not_lt.mpr small)
      · rintro ⟨amount, same, rfl⟩
        exact read same

/-- The least amount is read back as a hundred times as much. -/
theorem decimals_misread : ¬ ∀ n : Int, 0 ≤ n → n < 10 ^ 18 →
    parseMoney (formatMoney n false) = some n := fun back =>
  absurd (back 1 (by decide) (by norm_num)) (by decide)

end CentNode
