import CentNode.Library.Positional
import Mathlib.Data.Nat.Bitwise

/-!
# Base64 and Base32

`EncodeBase64`, `DecodeBase64`, `EncodeBase32` and `DecodeBase32` of `utilstrencodings.cpp`.  The
encoders and the decoders go through modes, each of which holds some bits of what was read.
-/

namespace CentNode

open List Option

open Positional

/-! ## `EncodeBase32` -/

namespace Base32

def pbase32 : List Char :=
  ['a', 'b', 'c', 'd', 'e', 'f', 'g', 'h', 'i', 'j', 'k', 'l', 'm', 'n', 'o', 'p', 'q', 'r', 's',
    't', 'u', 'v', 'w', 'x', 'y', 'z', '2', '3', '4', '5', '6', '7']

def digit (n : Nat) : Char := pbase32.getD n '='

def nPadding (mode : Nat) : Nat := [0, 6, 4, 3, 1].getD mode 0

/-- What a byte leads to: the digits, the next mode and the bits left over. -/
structure Step where
  digits : List Char
  mode : Nat
  left : Nat

def step (mode left enc : Nat) : Step :=
  match mode with
  -- we have no bits
  | 0 => ⟨[digit (enc >>> 3)], 1, (enc &&& 7) <<< 2⟩
  -- we have three bits
  | 1 => ⟨[digit (left ||| enc >>> 6), digit (enc >>> 1 &&& 31)], 2, (enc &&& 1) <<< 4⟩
  -- we have one bit
  | 2 => ⟨[digit (left ||| enc >>> 4)], 3, (enc &&& 15) <<< 1⟩
  -- we have four bits
  | 3 => ⟨[digit (left ||| enc >>> 7), digit (enc >>> 2 &&& 31)], 4, (enc &&& 3) <<< 3⟩
  -- we have two bits
  | _ => ⟨[digit (left ||| enc >>> 5), digit (enc &&& 31)], 0, left⟩

def finish (mode left : Nat) : List Char :=
  if mode = 0 then [] else digit left :: List.replicate (nPadding mode) '='

/-- The loop over what is left of the bytes. -/
def encode (mode left : Nat) : List UInt8 → List Char
  | [] => finish mode left
  | enc :: rest =>
    let next := step mode left enc.toNat
    next.digits ++ encode next.mode next.left rest

end Base32

def encodeBase32 (bytes : List UInt8) : List Char := Base32.encode 0 0 bytes

/-! ## `EncodeBase64` -/

namespace Base64

def pbase64 : List Char :=
  ['A', 'B', 'C', 'D', 'E', 'F', 'G', 'H', 'I', 'J', 'K', 'L', 'M', 'N', 'O', 'P', 'Q', 'R', 'S',
    'T', 'U', 'V', 'W', 'X', 'Y', 'Z', 'a', 'b', 'c', 'd', 'e', 'f', 'g', 'h', 'i', 'j', 'k', 'l',
    'm', 'n', 'o', 'p', 'q', 'r', 's', 't', 'u', 'v', 'w', 'x', 'y', 'z', '0', '1', '2', '3', '4',
    '5', '6', '7', '8', '9', '+', '/']

def digit (n : Nat) : Char := pbase64.getD n '='

def step (mode left enc : Nat) : Base32.Step :=
  match mode with
  -- we have no bits
  | 0 => ⟨[digit (enc >>> 2)], 1, (enc &&& 3) <<< 4⟩
  -- we have two bits
  | 1 => ⟨[digit (left ||| enc >>> 4)], 2, (enc &&& 15) <<< 2⟩
  -- we have four bits
  | _ => ⟨[digit (left ||| enc >>> 6), digit (enc &&& 63)], 0, left⟩

def finish (mode left : Nat) : List Char :=
  if mode = 0 then [] else digit left :: '=' :: if mode = 1 then ['='] else []

/-- The loop over what is left of the bytes. -/
def encode (mode left : Nat) : List UInt8 → List Char
  | [] => finish mode left
  | enc :: rest =>
    let next := step mode left enc.toNat
    next.digits ++ encode next.mode next.left rest

end Base64

def encodeBase64 (bytes : List UInt8) : List Char := Base64.encode 0 0 bytes

/-! ## The decoders -/

/-- The loop of a decoder: the bytes, the last mode, the bits left over and the text from the
first character on that the table does not have. -/
def decodeLoop (table : Char → Option Nat) (step : (mode left dec : Nat) → List Nat × Nat × Nat)
    (mode left : Nat) : List Char → List UInt8 × Nat × Nat × List Char
  | [] => ([], mode, left, [])
  | c :: p =>
    match table c with
    | none => ([], mode, left, c :: p)
    | some dec =>
      let next := step mode left dec
      let last := decodeLoop table step next.2.1 next.2.2 p
      (next.1.map UInt8.ofNat ++ last.1, last.2)

/-- `p[0]` to `p[n - 1]` are `'='` and the table does not have `p[n]`, which at the end of the
text is its NUL. -/
def paddedBy (table : Char → Option Nat) : Nat → List Char → Bool
  | 0, p => (p.head?.bind table).isNone
  | _ + 1, [] => false
  | n + 1, c :: p => c = '=' && paddedBy table n p

namespace Base64

/-- `decode64_table`, with `none` for -1. -/
def decode64_table (c : Char) : Option Nat := pbase64.idxOf? c

/-- What a character leads to: what is pushed, the next mode and the bits left over. -/
def decodeStep (mode left dec : Nat) : List Nat × Nat × Nat :=
  match mode with
  -- we have no bits and get 6
  | 0 => ([], 1, dec)
  -- we have 6 bits and keep 4
  | 1 => ([left <<< 2 ||| dec >>> 4], 2, dec &&& 15)
  -- we have 4 bits and get 6, we keep 2
  | 2 => ([left <<< 4 ||| dec >>> 2], 3, dec &&& 3)
  -- we have 2 bits and get 6
  | _ => ([left <<< 6 ||| dec], 0, left)

/-- What `*pfInvalid` is set to. -/
def invalid (mode left : Nat) (p : List Char) : Bool :=
  match mode with
  | 0 => false
  | 1 => true
  | 2 => left ≠ 0 || !paddedBy decode64_table 2 p
  | _ => left ≠ 0 || !paddedBy decode64_table 1 p

end Base64

namespace Base32

/-- `decode32_table`, with `none` for -1: both cases of a letter stand for it. -/
def decode32_table (c : Char) : Option Nat := pbase32.idxOf? c.toLower

/-- What a character leads to: what is pushed, the next mode and the bits left over. -/
def decodeStep (mode left dec : Nat) : List Nat × Nat × Nat :=
  match mode with
  -- we have no bits and get 5
  | 0 => ([], 1, dec)
  -- we have 5 bits and keep 2
  | 1 => ([left <<< 3 ||| dec >>> 2], 2, dec &&& 3)
  -- we have 2 bits and keep 7
  | 2 => ([], 3, left <<< 5 ||| dec)
  -- we have 7 bits and keep 4
  | 3 => ([left <<< 1 ||| dec >>> 4], 4, dec &&& 15)
  -- we have 4 bits, and keep 1
  | 4 => ([left <<< 4 ||| dec >>> 1], 5, dec &&& 1)
  -- we have 1 bit, and keep 6
  | 5 => ([], 6, left <<< 5 ||| dec)
  -- we have 6 bits, and keep 3
  | 6 => ([left <<< 2 ||| dec >>> 3], 7, dec &&& 7)
  -- we have 3 bits, and keep 0
  | _ => ([left <<< 5 ||| dec], 0, left)

/-- What `*pfInvalid` is set to. -/
def invalid (mode left : Nat) (p : List Char) : Bool :=
  match mode with
  | 0 => false
  | 2 => left ≠ 0 || !paddedBy decode32_table 6 p
  | 4 => left ≠ 0 || !paddedBy decode32_table 4 p
  | 5 => left ≠ 0 || !paddedBy decode32_table 3 p
  | 1 | 3 | 6 => true
  | _ => left ≠ 0 || !paddedBy decode32_table 1 p

end Base32

/-- `DecodeBase64`: the bytes, and `*pfInvalid`. -/
def decodeBase64 (p : List Char) : List UInt8 × Bool :=
  let (vchRet, mode, left, p) := decodeLoop Base64.decode64_table Base64.decodeStep 0 0 p
  (vchRet, Base64.invalid mode left p)

/-- `DecodeBase32`: the bytes, and `*pfInvalid`. -/
def decodeBase32 (p : List Char) : List UInt8 × Bool :=
  let (vchRet, mode, left, p) := decodeLoop Base32.decode32_table Base32.decodeStep 0 0 p
  (vchRet, Base32.invalid mode left p)

/-! ## Bits that a step holds -/

theorem and_mask (n : Nat) : n &&& 1 = n % 2 ∧ n &&& 3 = n % 4 ∧ n &&& 7 = n % 8 ∧
    n &&& 15 = n % 16 ∧ n &&& 31 = n % 32 ∧ n &&& 63 = n % 64 :=
  ⟨Nat.and_two_pow_sub_one_eq_mod n 1, Nat.and_two_pow_sub_one_eq_mod n 2,
    Nat.and_two_pow_sub_one_eq_mod n 3, Nat.and_two_pow_sub_one_eq_mod n 4,
    Nat.and_two_pow_sub_one_eq_mod n 5, Nat.and_two_pow_sub_one_eq_mod n 6⟩

theorem or_eq (high : Nat) {low width : Nat} (small : low < 2 ^ width) :
    high <<< width ||| low = high <<< width + low :=
  (Nat.shiftLeft_add_eq_or_of_lt small high).symm

theorem value_pair (base first second : Nat) :
    value base [first, second] = first * base + second := by
  simp [value, Nat.ofDigits_cons, Nat.mul_comm, Nat.add_comm]

theorem value_single (base digit : Nat) : value base [digit] = digit := by simp [value]

theorem value_nil (base : Nat) : value base [] = 0 := rfl

/-- An encoder and a decoder of digits of `group` bits.  A mode of the encoder holds `held` bits
at the top of the next digit, one of the decoder `pending` bits, and `equals` tells how many
`'='` stand for some bits of padding.  `last` is the last mode of the encoder. -/
structure Codec where
  group : Nat
  digit : Nat → Char
  table : Char → Option Nat
  /-- The characters that are told apart by the table. -/
  plain : Char → Prop
  encode : (mode left : Nat) → List UInt8 → List Char
  decodeStep : (mode left dec : Nat) → List Nat × Nat × Nat
  invalid : (mode left : Nat) → List Char → Bool
  held : Nat → Nat
  pending : Nat → Nat
  equals : Nat → Option Nat
  last : Nat
  few : group < 8
  start : held 0 = 0 ∧ pending 0 = 0
  pending_lt : ∀ mode, pending mode < 8
  table_digit : ∀ n < 2 ^ group, table (digit n) = some n
  digit_table : ∀ {c n}, plain c → table c = some n → n < 2 ^ group ∧ digit n = c
  table_padding : table '=' = none
  encode_nil : ∀ mode ≤ last, ∀ left, held mode ≤ group ∧ ∃ n,
    equals (if held mode = 0 then 0 else group - held mode) = some n ∧ encode mode left [] =
      (if held mode = 0 then [] else [digit left]) ++ List.replicate n '='
  encode_cons : ∀ {mode left number} enc rest, number < 2 ^ held mode →
    (held mode ≠ 0 → left = number <<< (group - held mode)) → ∃ numbers mode' left',
      encode mode left (enc :: rest) = numbers.map digit ++ encode mode' left' rest ∧
      mode' ≤ last ∧ Regroup 8 group (held mode) number [enc.toNat] numbers (held mode')
        (enc.toNat % 2 ^ held mode') ∧
      (held mode' ≠ 0 → left' = (enc.toNat % 2 ^ held mode') <<< (group - held mode'))
  decode_step : ∀ {mode left dec}, (if pending mode = 0 then 0 else left) < 2 ^ pending mode →
    dec < 2 ^ group → Regroup group 8 (pending mode) (if pending mode = 0 then 0 else left) [dec]
      (decodeStep mode left dec).1 (pending (decodeStep mode left dec).2.1)
      (if pending (decodeStep mode left dec).2.1 = 0 then 0 else (decodeStep mode left dec).2.2)
  equals_few : ∀ {bits n}, equals bits = some n → bits < group
  invalid_iff : ∀ mode left {p}, paddedBy table 0 p = true → (invalid mode left p = false ↔
    ∃ n, equals (pending mode) = some n ∧ (if pending mode = 0 then 0 else left) = 0 ∧
      paddedBy table n p = true)

namespace Base64

/-- The digits of a step as numbers. -/
def numbers (mode left enc : Nat) : List Nat :=
  match mode with
  | 0 => [enc >>> 2]
  | 1 => [left ||| enc >>> 4]
  | _ => [left ||| enc >>> 6, enc &&& 63]

def held (mode : Nat) : Nat :=
  match mode with
  | 0 => 0
  | 1 => 2
  | _ => 4

theorem step_regroups {mode left number enc : Nat} (byte : enc < 256)
    (small : number < 2 ^ held mode) (aligned : held mode ≠ 0 → left = number <<< (6 - held mode)) :
    Regroup 8 6 (held mode) number [enc] (numbers mode left enc)
      (held (step mode left enc).mode) (enc % 2 ^ held (step mode left enc).mode) ∧
    (held (step mode left enc).mode ≠ 0 → (step mode left enc).left =
      (enc % 2 ^ held (step mode left enc).mode) <<< (6 - held (step mode left enc).mode)) := by
  match mode with
  | 0 | 1 | _ + 2 =>
    simp only [held] at small aligned
    refine ⟨.single rfl ?_ (Nat.mod_lt _ (Nat.two_pow_pos _)) ?_, ?_⟩
    all_goals
      simp (disch := omega) [held, numbers, step, value_pair, value_single, and_mask, aligned,
        or_eq] <;> omega

/-- The bits that a mode of the decoder holds. -/
def pending (mode : Nat) : Nat :=
  match mode with
  | 0 => 0
  | 1 => 6
  | 2 => 4
  | _ => 2

theorem decodeStep_regroups {mode left dec : Nat}
    (small : (if pending mode = 0 then 0 else left) < 2 ^ pending mode) (digit : dec < 64) :
    Regroup 6 8 (pending mode) (if pending mode = 0 then 0 else left) [dec]
      (decodeStep mode left dec).1 (pending (decodeStep mode left dec).2.1)
      (if pending (decodeStep mode left dec).2.1 = 0 then 0
        else (decodeStep mode left dec).2.2) := by
  match mode with
  | 0 | 1 | 2 | _ + 3 =>
    simp only [pending] at small
    refine .single rfl ?_ ?_ ?_
    all_goals
      simp (disch := omega) [pending, decodeStep, value_single, value_nil, and_mask, or_eq]
        at small ⊢ <;> omega

end Base64

namespace Base32

def numbers (mode left enc : Nat) : List Nat :=
  match mode with
  | 0 => [enc >>> 3]
  | 1 => [left ||| enc >>> 6, enc >>> 1 &&& 31]
  | 2 => [left ||| enc >>> 4]
  | 3 => [left ||| enc >>> 7, enc >>> 2 &&& 31]
  | _ => [left ||| enc >>> 5, enc &&& 31]

def held (mode : Nat) : Nat :=
  match mode with
  | 0 => 0
  | 1 => 3
  | 2 => 1
  | 3 => 4
  | _ => 2

theorem step_regroups {mode left number enc : Nat} (byte : enc < 256)
    (small : number < 2 ^ held mode) (aligned : held mode ≠ 0 → left = number <<< (5 - held mode)) :
    Regroup 8 5 (held mode) number [enc] (numbers mode left enc)
      (held (step mode left enc).mode) (enc % 2 ^ held (step mode left enc).mode) ∧
    (held (step mode left enc).mode ≠ 0 → (step mode left enc).left =
      (enc % 2 ^ held (step mode left enc).mode) <<< (5 - held (step mode left enc).mode)) := by
  match mode with
  | 0 | 1 | 2 | 3 | _ + 4 =>
    simp only [held] at small aligned
    refine ⟨.single rfl ?_ (Nat.mod_lt _ (Nat.two_pow_pos _)) ?_, ?_⟩
    all_goals
      simp (disch := omega) [held, numbers, step, value_pair, value_single, and_mask, aligned,
        or_eq] <;> omega

def pending (mode : Nat) : Nat :=
  match mode with
  | 0 => 0
  | 1 => 5
  | 2 => 2
  | 3 => 7
  | 4 => 4
  | 5 => 1
  | 6 => 6
  | _ => 3

theorem decodeStep_regroups {mode left dec : Nat}
    (small : (if pending mode = 0 then 0 else left) < 2 ^ pending mode) (digit : dec < 32) :
    Regroup 5 8 (pending mode) (if pending mode = 0 then 0 else left) [dec]
      (decodeStep mode left dec).1 (pending (decodeStep mode left dec).2.1)
      (if pending (decodeStep mode left dec).2.1 = 0 then 0
        else (decodeStep mode left dec).2.2) := by
  match mode with
  | 0 | 1 | 2 | 3 | 4 | 5 | 6 | _ + 7 =>
    simp only [pending] at small
    refine .single rfl ?_ ?_ ?_
    all_goals
      simp (disch := omega) [pending, decodeStep, value_single, value_nil, and_mask, or_eq]
        at small ⊢ <;> omega

end Base32

namespace Codec

variable (c : Codec)

/-- What the bits left over stand for. -/
def number (mode left : Nat) : Nat := if c.pending mode = 0 then 0 else left

theorem number_start : c.number 0 0 < 2 ^ c.pending 0 := (ite_self 0).trans_lt (Nat.two_pow_pos _)

def decode (p : List Char) : List UInt8 × Bool :=
  let (vchRet, mode, left, p) := decodeLoop c.table c.decodeStep 0 0 p
  (vchRet, c.invalid mode left p)

theorem encode_regroups (bytes : List UInt8) {mode left number : Nat} (known : mode ≤ c.last)
    (small : number < 2 ^ c.held mode)
    (aligned : c.held mode ≠ 0 → left = number <<< (c.group - c.held mode)) :
    ∃ numbers mode' left' number', c.encode mode left bytes =
        numbers.map c.digit ++ c.encode mode' left' [] ∧ mode' ≤ c.last ∧
      Regroup 8 c.group (c.held mode) number (bytes.map UInt8.toNat) numbers (c.held mode')
        number' ∧
      (c.held mode' ≠ 0 → left' = number' <<< (c.group - c.held mode')) := by
  induction bytes generalizing mode left number with
  | nil => exact ⟨[], mode, left, number, rfl, known, .nil small, aligned⟩
  | cons enc rest ih =>
    obtain ⟨digits, next, kept, given, knownNext, step, alignedNext⟩ :=
      c.encode_cons enc rest small aligned
    obtain ⟨further, mode', left', number', later, knownLast, steps, alignedLast⟩ :=
      ih knownNext step.held alignedNext
    refine ⟨digits ++ further, mode', left', number', ?_, knownLast, step.append steps,
      alignedLast⟩
    rw [given, later, map_append, append_assoc]

theorem encode_holds (bytes : List UInt8) : ∃ digits bits n,
    c.encode 0 0 bytes = digits.map c.digit ++ List.replicate n '=' ∧
    Regroup c.group 8 0 0 digits (bytes.map UInt8.toNat) bits 0 ∧
    (∀ digit ∈ digits, digit < 2 ^ c.group) ∧ c.equals bits = some n := by
  have start := c.start.1
  have small : 0 < 2 ^ c.held 0 := Nat.two_pow_pos _
  have aligned : c.held 0 ≠ 0 → 0 = 0 <<< (c.group - c.held 0) := fun some => absurd start some
  obtain ⟨digits, mode, left, number, given, known, run, aligned⟩ :=
    c.encode_regroups bytes (Nat.zero_le _) small aligned
  obtain ⟨room, n, padding, last⟩ := c.encode_nil mode known left
  have small : ∀ byte ∈ bytes.map UInt8.toNat, byte < 2 ^ 8 := by
    intro byte member
    obtain ⟨byte, _, rfl⟩ := List.mem_map.mp member
    exact byte.toNat_lt
  rw [start] at run
  rw [last] at given
  by_cases whole : c.held mode = 0
  · rw [whole] at run
    rw [if_pos whole] at given padding
    exact ⟨digits, 0, n, given, run.reverse small, run.small, padding⟩
  · have back := run.reverse_last small room
    rw [if_neg whole] at given padding
    rw [aligned whole, Nat.shiftLeft_eq] at given
    refine ⟨_, _, n, ?_, back, ?_, padding⟩
    · rw [given, map_append, append_assoc]
      rfl
    · intro digit member
      rcases mem_append.mp member with member | last
      · exact run.small digit member
      · rw [mem_singleton.mp last]
        calc
          number * 2 ^ (c.group - c.held mode) < 2 ^ c.held mode * 2 ^ (c.group - c.held mode) :=
            Nat.mul_lt_mul_of_pos_right run.held (Nat.two_pow_pos _)
          _ = 2 ^ c.group := by rw [← Nat.pow_add, Nat.add_sub_cancel' room]

variable {rest : List Char} (stops : paddedBy c.table 0 rest = true)

include stops

theorem decodeLoop_regroups {front : List Char} {digits : List Nat}
    (read : front.map c.table = digits.map some) (small : ∀ digit ∈ digits, digit < 2 ^ c.group)
    {mode left : Nat} (held : c.number mode left < 2 ^ c.pending mode) :
    ∃ bytes mode' left',
      decodeLoop c.table c.decodeStep mode left (front ++ rest) = (bytes, mode', left', rest) ∧
      Regroup c.group 8 (c.pending mode) (c.number mode left) digits (bytes.map UInt8.toNat)
        (c.pending mode') (c.number mode' left') := by
  induction front generalizing digits mode left with
  | nil =>
    obtain rfl := map_eq_nil_iff.mp read.symm
    refine ⟨[], mode, left, ?_, .nil held⟩
    cases rest with
    | nil => rfl
    | cons stop tail =>
      have unknown : c.table stop = none := isNone_iff_eq_none.mp stops
      rw [nil_append, decodeLoop, unknown]
  | cons first front ih =>
    cases digits with
    | nil => cases read
    | cons dec digits =>
      obtain ⟨known, others⟩ := List.cons.inj read
      obtain ⟨here, further⟩ := forall_mem_cons.mp small
      have step := c.decode_step held here
      obtain ⟨bytes, mode', left', ran, steps⟩ := ih others further step.held
      have pushed : ((c.decodeStep mode left dec).1.map UInt8.ofNat).map UInt8.toNat =
          (c.decodeStep mode left dec).1 := by
        rw [List.map_map, map_congr_left (g := id), List.map_id]
        exact fun byte member => UInt8.toNat_ofNat_of_lt' (step.small byte member)
      refine ⟨(c.decodeStep mode left dec).1.map UInt8.ofNat ++ bytes, mode', left', ?_, ?_⟩
      · rw [cons_append, decodeLoop, known]
        simp only [ran]
      · rw [map_append, pushed]
        exact step.append steps

theorem paddedBy_replicate (n : Nat) : paddedBy c.table n (List.replicate n '=' ++ rest) = true := by
  induction n with
  | zero => exact stops
  | succ n ih =>
    rw [replicate_succ, cons_append, paddedBy, ih]
    rfl

theorem stops_replicate (n : Nat) : paddedBy c.table 0 (List.replicate n '=' ++ rest) = true := by
  cases n with
  | zero => exact stops
  | succ n => exact isNone_iff_eq_none.mpr c.table_padding

/-- Whatever follows an encoding is not read, if it starts with no digit. -/
theorem decode_encode_append (bytes : List UInt8) :
    c.decode (c.encode 0 0 bytes ++ rest) = (bytes, false) := by
  have start := c.start.2
  obtain ⟨digits, bits, n, given, holds, small, padding⟩ := c.encode_holds bytes
  have read : (digits.map c.digit).map c.table = digits.map some := by
    rw [List.map_map]
    exact map_congr_left fun digit member => c.table_digit digit (small digit member)
  obtain ⟨out, mode, left, ran, run⟩ :=
    c.decodeLoop_regroups (c.stops_replicate stops n) read small c.number_start
  rw [start, number, ite_self] at run
  obtain ⟨same, pending, zero⟩ :=
    run.unique holds (c.pending_lt mode) ((c.equals_few padding).trans c.few)
  have equal : out = bytes := map_injective_iff.mpr (fun _ _ => UInt8.toNat_inj.mp) same
  rw [decode, given, append_assoc, ran, equal, Prod.mk.injEq]
  exact ⟨rfl, (c.invalid_iff mode left (c.stops_replicate stops n)).mpr
    ⟨n, pending ▸ padding, zero, c.paddedBy_replicate stops n⟩⟩

omit stops

theorem decode_encode (bytes : List UInt8) : c.decode (c.encode 0 0 bytes) = (bytes, false) := by
  rw [← append_nil (c.encode 0 0 bytes)]
  exact c.decode_encode_append rfl bytes

/-- A text is some digits and a rest that starts with none. -/
theorem exists_split (s : List Char) : ∃ (front : List Char) (digits : List Nat)
    (rest : List Char), s = front ++ rest ∧ front.map c.table = digits.map some ∧
      paddedBy c.table 0 rest = true := by
  induction s with
  | nil => exact ⟨[], [], [], rfl, rfl, rfl⟩
  | cons first s ih =>
    cases known : c.table first with
    | none => exact ⟨[], [], first :: s, rfl, rfl, isNone_iff_eq_none.mpr known⟩
    | some digit =>
      obtain ⟨front, digits, rest, rfl, read, stops⟩ := ih
      exact ⟨first :: front, digit :: digits, rest, rfl, congrArg₂ List.cons known read, stops⟩

theorem eq_of_paddedBy {n : Nat} {p : List Char} (padded : paddedBy c.table n p = true) :
    ∃ tail, p = List.replicate n '=' ++ tail ∧ paddedBy c.table 0 tail = true := by
  induction n generalizing p with
  | zero => exact ⟨p, rfl, padded⟩
  | succ n ih =>
    cases p with
    | nil => cases padded
    | cons first p =>
      rw [paddedBy, Bool.and_eq_true, decide_eq_true_eq] at padded
      obtain ⟨tail, rfl, stops⟩ := ih padded.2
      exact ⟨tail, by rw [padded.1]; rfl, stops⟩

/-- What is decoded without the flag is an encoding, and what follows it starts with no digit. -/
theorem eq_encode_append {s : List Char} (plain : ∀ ch ∈ s, c.plain ch)
    (valid : (c.decode s).2 = false) :
    ∃ tail, s = c.encode 0 0 (c.decode s).1 ++ tail ∧ paddedBy c.table 0 tail = true := by
  obtain ⟨front, digits, rest, rfl, read, stops⟩ := c.exists_split s
  have known : (∀ digit ∈ digits, digit < 2 ^ c.group) ∧ digits.map c.digit = front := by
    have inside : ∀ ch ∈ front, c.plain ch := fun ch member => plain ch (mem_append_left _ member)
    clear plain valid
    induction front generalizing digits with
    | nil =>
      obtain rfl := map_eq_nil_iff.mp read.symm
      exact ⟨forall_mem_nil _, rfl⟩
    | cons first front ih =>
      cases digits with
      | nil => cases read
      | cons digit digits =>
        obtain ⟨here, others⟩ := List.cons.inj read
        obtain ⟨plainHere, plainOthers⟩ := forall_mem_cons.mp inside
        obtain ⟨small, same⟩ := c.digit_table plainHere here
        obtain ⟨smallOthers, sameOthers⟩ := ih digits others plainOthers
        exact ⟨forall_mem_cons.mpr ⟨small, smallOthers⟩, congrArg₂ List.cons same sameOthers⟩
  obtain ⟨small, rfl⟩ := known
  obtain ⟨bytes, mode, left, ran, run⟩ := c.decodeLoop_regroups stops read small c.number_start
  have result : c.decode (digits.map c.digit ++ rest) = (bytes, c.invalid mode left rest) := by
    rw [decode, ran]
  rw [result] at valid ⊢
  obtain ⟨n, padding, zero, padded⟩ := (c.invalid_iff mode left stops).mp valid
  obtain ⟨tail, rfl, last⟩ := c.eq_of_paddedBy padded
  obtain ⟨others, bits, count, given, holds, smallToo, paddingToo⟩ := c.encode_holds bytes
  change c.number mode left = 0 at zero
  rw [c.start.2, number, ite_self, zero] at run
  have same := run.unique_reverse small smallToo holds (c.equals_few padding)
    (c.equals_few paddingToo)
  subst same
  have pads : c.pending mode = bits := by
    have length := run.length
    have lengthToo := holds.length
    omega
  rw [pads, paddingToo] at padding
  refine ⟨tail, ?_, last⟩
  rw [given, Option.some.inj padding, append_assoc]

/-- Decoding is strict save for what follows an encoding and starts with no digit. -/
theorem strict_iff {s : List Char} (plain : ∀ ch ∈ s, c.plain ch) :
    ((c.decode s).2 = false → c.encode 0 0 (c.decode s).1 = s) ↔
      ¬ ∃ bytes first tail, s = c.encode 0 0 bytes ++ first :: tail ∧ c.table first = none := by
  constructor
  · rintro strict ⟨bytes, first, tail, rfl, unknown⟩
    have stops : paddedBy c.table 0 (first :: tail) = true := isNone_iff_eq_none.mpr unknown
    rw [c.decode_encode_append stops bytes] at strict
    exact absurd (self_eq_append_right.mp (strict rfl)) (cons_ne_nil _ _)
  · intro clean valid
    obtain ⟨tail, same, stops⟩ := c.eq_encode_append plain valid
    cases tail with
    | nil => rw [append_nil] at same; exact same.symm
    | cons first tail => exact absurd ⟨_, first, tail, same, isNone_iff_eq_none.mp stops⟩ clean

end Codec

/-! ## The two codecs -/

theorem getD_of_idxOf? {digits : List Char} {ch : Char} {n : Nat}
    (found : digits.idxOf? ch = some n) : n < digits.length ∧ digits.getD n '=' = ch := by
  obtain ⟨inside, same, -⟩ := idxOf?_eq_some_iff.mp found
  exact ⟨inside, by rw [getD_eq_getElem _ _ inside, same]⟩

def base64 : Codec where
  group := 6
  digit := Base64.digit
  table := Base64.decode64_table
  plain := fun _ => True
  encode := Base64.encode
  decodeStep := Base64.decodeStep
  invalid := Base64.invalid
  held := Base64.held
  pending := Base64.pending
  equals := fun bits => [some 0, none, some 1, none, some 2].getD bits none
  few := by decide
  start := ⟨rfl, rfl⟩
  pending_lt := fun mode => by
    unfold Base64.pending
    split <;> decide
  table_digit := by decide
  digit_table := fun _ known => getD_of_idxOf? known
  table_padding := by decide
  last := 2
  encode_nil := fun mode known left => by
    match mode with
    | 0 | 1 | 2 => exact ⟨by decide, _, rfl, rfl⟩
  encode_cons := by
    intro mode left number enc rest small aligned
    obtain ⟨step, alignedNext⟩ := Base64.step_regroups enc.toNat_lt small aligned
    refine ⟨_, _, _, ?_, ?_, step, alignedNext⟩
    all_goals
      match mode with
      | 0 | 1 | _ + 2 => first | rfl | exact Nat.le_of_ble_eq_true rfl
  decode_step := Base64.decodeStep_regroups
  equals_few := by
    intro bits n padding
    match bits with
    | 0 | 1 | 2 | 3 | 4 => decide
    | _ + 5 => cases padding
  invalid_iff := by
    intro mode left p stops
    match mode with
    | 0 | 1 | 2 | _ + 3 => simp [Base64.invalid, Base64.pending, stops]

def base32 : Codec where
  group := 5
  digit := Base32.digit
  table := Base32.decode32_table
  plain := fun ch => ch.isUpper = false
  encode := Base32.encode
  decodeStep := Base32.decodeStep
  invalid := Base32.invalid
  held := Base32.held
  pending := Base32.pending
  equals := fun bits => [some 0, some 3, some 6, some 1, some 4].getD bits none
  few := by decide
  start := ⟨rfl, rfl⟩
  pending_lt := fun mode => by
    unfold Base32.pending
    split <;> decide
  table_digit := by decide
  digit_table := by
    intro ch n plain known
    have same : ch.toLower = ch := dif_neg (of_decide_eq_false plain)
    rw [Base32.decode32_table, same] at known
    exact getD_of_idxOf? known
  table_padding := by decide
  last := 4
  encode_nil := fun mode known left => by
    match mode with
    | 0 | 1 | 2 | 3 | 4 => exact ⟨by decide, _, rfl, rfl⟩
  encode_cons := by
    intro mode left number enc rest small aligned
    obtain ⟨step, alignedNext⟩ := Base32.step_regroups enc.toNat_lt small aligned
    refine ⟨_, _, _, ?_, ?_, step, alignedNext⟩
    all_goals
      match mode with
      | 0 | 1 | 2 | 3 | _ + 4 => first | rfl | exact Nat.le_of_ble_eq_true rfl
  decode_step := Base32.decodeStep_regroups
  equals_few := by
    intro bits n padding
    match bits with
    | 0 | 1 | 2 | 3 | 4 => decide
    | _ + 5 => cases padding
  invalid_iff := by
    intro mode left p stops
    match mode with
    | 0 | 1 | 2 | 3 | 4 | 5 | 6 | _ + 7 => simp [Base32.invalid, Base32.pending, stops]

theorem encodeBase32_inj {bytes others : List UInt8}
    (same : encodeBase32 bytes = encodeBase32 others) : bytes = others := by
  have first := base32.decode_encode bytes
  have second := base32.decode_encode others
  change base32.decode (encodeBase32 _) = _ at first second
  rw [same, second] at first
  exact (congrArg Prod.fst first).symm

theorem mem_encodeBase32 {bytes : List UInt8} {ch : Char} (inside : ch ∈ encodeBase32 bytes) :
    ch ∈ '=' :: Base32.pbase32 := by
  obtain ⟨digits, _, n, given, -, small, -⟩ := base32.encode_holds bytes
  change encodeBase32 bytes = _ at given
  rw [given, mem_append] at inside
  rcases inside with inside | padding
  · obtain ⟨digit, member, rfl⟩ := List.mem_map.mp inside
    have inside : digit < Base32.pbase32.length := small digit member
    change Base32.pbase32.getD digit '=' ∈ _
    rw [getD_eq_getElem _ _ inside]
    exact mem_cons_of_mem _ (getElem_mem inside)
  · exact mem_cons.mpr (.inl (eq_of_mem_replicate padding))

/-- Decoding an encoding gives the bytes.  What is accepted is an encoding, save that the text
may go on behind it with anything that starts with no digit. -/
theorem decoding_strict_iff (bytes : List UInt8) (s : List Char) :
    (decodeBase64 (encodeBase64 bytes) = (bytes, false) ∧
      decodeBase32 (encodeBase32 bytes) = (bytes, false)) ∧
    (((decodeBase64 s).2 = false → encodeBase64 (decodeBase64 s).1 = s) ↔
      ¬ ∃ bytes c tail, s = encodeBase64 bytes ++ c :: tail ∧ Base64.decode64_table c = none) ∧
    ((∀ c ∈ s, c.isUpper = false) →
      (((decodeBase32 s).2 = false → encodeBase32 (decodeBase32 s).1 = s) ↔
        ¬ ∃ bytes c tail, s = encodeBase32 bytes ++ c :: tail ∧ Base32.decode32_table c = none)) :=
  ⟨⟨base64.decode_encode bytes, base32.decode_encode bytes⟩,
    base64.strict_iff fun _ _ => trivial, base32.strict_iff⟩

theorem trailing_accepted : ¬ ∀ s : List Char, Char.ofNat 0 ∉ s → (decodeBase64 s).2 = false →
    encodeBase64 (decodeBase64 s).1 = s := fun strict =>
  absurd (strict ['!'] (by decide) (by decide)) (by decide)

end CentNode
