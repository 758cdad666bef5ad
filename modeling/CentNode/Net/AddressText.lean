import CentNode.Library.Texts
import CentNode.Net.NetAddr
import CentNode.Primitives.BaseEncodings

/-!
# The texts of addresses

`ToStringIP`, `ToStringPort` and `ToStringIPPort` of `netbase.cpp`.  What `getnameinfo` of the
operating system says of an address is a parameter.
-/

namespace CentNode

open List

/-! ## Hosts and ports -/

namespace CNetAddr

/-- The four numbers of an IPv4 address, the format `%u.%u.%u.%u`. -/
def dotted (addr : CNetAddr) : List Char :=
  Texts.joined '.' ([3, 2, 1, 0].map fun n => Nat.toDigits 10 (addr.getByte n).toNat)

/-- The eight groups of an address, the format `%x:%x:%x:%x:%x:%x:%x:%x`. -/
def groups (addr : CNetAddr) : List Char :=
  Texts.joined ':' ([15, 13, 11, 9, 7, 5, 3, 1].map fun n =>
    Nat.toDigits 16 ((addr.getByte n).toNat <<< 8 ||| (addr.getByte (n - 1)).toNat))

def dotOnion : List Char := ['.', 'o', 'n', 'i', 'o', 'n']

/-- `ToStringIP`, with what `getnameinfo` gives for a numeric host. -/
def toStringIP (getnameinfo : CNetAddr → Option (List Char)) (addr : CNetAddr) : List Char :=
  if addr.isTor then encodeBase32 (addr.ip.drop 6) ++ dotOnion
  else
    match getnameinfo addr with
    | some name => name
    | none => if addr.isIPv4 then addr.dotted else addr.groups

end CNetAddr

namespace CService

def toStringPort (service : CService) : List Char := Nat.toDigits 10 service.port.toNat

def toStringIPPort (getnameinfo : CNetAddr → Option (List Char)) (service : CService) :
    List Char :=
  if service.isIPv4 || service.isTor then
    service.toStringIP getnameinfo ++ ':' :: service.toStringPort
  else '[' :: (service.toStringIP getnameinfo ++ ']' :: ':' :: service.toStringPort)

end CService

/-- What `getnameinfo` says with `NI_NUMERICHOST`: the four numbers of an IPv4 address,
and for another a text without brackets that denotes this address only. -/
structure NumericHost (getnameinfo : CNetAddr → Option (List Char)) : Prop where
  ipv4 : ∀ addr name, addr.isIPv4 = true → getnameinfo addr = some name → name = addr.dotted
  bracket : ∀ addr name, addr.isIPv4 = false → getnameinfo addr = some name → ']' ∉ name
  denotes : ∀ addr other name, addr.isIPv4 = false → other.isIPv4 = false →
    getnameinfo addr = some name → (getnameinfo other = some name ∨ name = other.groups) →
      addr = other

namespace CNetAddr

variable {addr : CNetAddr}

theorem ext_getByte {other : CNetAddr} (same : ∀ n < 16, addr.getByte n = other.getByte n) :
    addr = other := by
  obtain ⟨ip, size⟩ := addr
  obtain ⟨ipToo, sizeToo⟩ := other
  congr 1
  refine ext_getElem (size.trans sizeToo.symm) fun place inside insideToo => ?_
  have here := same (15 - place) (by omega)
  have back : 15 - (15 - place) = place := by omega
  rw [getByte, getByte, back, getD_eq_getElem?_getD, getD_eq_getElem?_getD,
    getElem?_eq_getElem inside, getElem?_eq_getElem insideToo] at here
  exact here

/-! ## Numbers in the texts -/

variable {c : Char}

theorem not_mem_digits {base : Nat} (two : 1 < base) (sixteen : base ≤ 16)
    (other : ∀ digit : Fin 16, c ≠ Nat.digitChar digit) (n : Nat) : c ∉ Nat.toDigits base n := by
  intro inside
  obtain ⟨digit, below, same⟩ := Texts.mem_toDigits two inside
  exact other ⟨digit, by omega⟩ same

theorem not_mem_dotted (dot : c ≠ '.') (other : ∀ digit : Fin 16, c ≠ Nat.digitChar digit)
    (addr : CNetAddr) : c ∉ addr.dotted := by
  intro inside
  rcases Texts.mem_joined inside with here | ⟨text, member, there⟩
  · exact dot here
  · obtain ⟨n, _, rfl⟩ := mem_map.mp member
    exact not_mem_digits (by decide) (by decide) other _ there

theorem not_mem_groups (colon : c ≠ ':') (other : ∀ digit : Fin 16, c ≠ Nat.digitChar digit)
    (addr : CNetAddr) : c ∉ addr.groups := by
  intro inside
  rcases Texts.mem_joined inside with here | ⟨text, member, there⟩
  · exact colon here
  · obtain ⟨n, _, rfl⟩ := mem_map.mp member
    exact not_mem_digits (by decide) (by decide) other _ there

theorem dotted_inj {other : CNetAddr} (same : addr.dotted = other.dotted) :
    ∀ n < 4, addr.getByte n = other.getByte n := by
  have plain : ∀ addr : CNetAddr, ∀ text ∈ [3, 2, 1, 0].map fun n =>
      Nat.toDigits 10 (addr.getByte n).toNat, '.' ∉ text := by
    intro addr text inside
    obtain ⟨n, _, rfl⟩ := mem_map.mp inside
    exact not_mem_digits (by decide) (by decide) (by decide) _
  have texts := Texts.joined_inj same rfl (plain addr) (plain other)
  have numbers : ∀ n ∈ [3, 2, 1, 0], Nat.toDigits 10 (addr.getByte n).toNat =
      Nat.toDigits 10 (other.getByte n).toNat := map_inj_left.mp texts
  intro n small
  have listed : n ∈ [3, 2, 1, 0] := by
    simp only [mem_cons, not_mem_nil, or_false]
    omega
  exact UInt8.toNat_inj.mp (Texts.toDigits_inj (by decide) (by decide) (numbers n listed))

theorem groups_inj {other : CNetAddr} (same : addr.groups = other.groups) : addr = other := by
  have plain : ∀ addr : CNetAddr, ∀ text ∈ [15, 13, 11, 9, 7, 5, 3, 1].map fun n =>
      Nat.toDigits 16 ((addr.getByte n).toNat <<< 8 ||| (addr.getByte (n - 1)).toNat),
      ':' ∉ text := by
    intro addr text inside
    obtain ⟨n, _, rfl⟩ := mem_map.mp inside
    exact not_mem_digits (by decide) (by decide) (by decide) _
  have texts := Texts.joined_inj same rfl (plain addr) (plain other)
  have numbers : ∀ n ∈ [15, 13, 11, 9, 7, 5, 3, 1],
      Nat.toDigits 16 ((addr.getByte n).toNat <<< 8 ||| (addr.getByte (n - 1)).toNat) =
        Nat.toDigits 16 ((other.getByte n).toNat <<< 8 ||| (other.getByte (n - 1)).toNat) :=
    map_inj_left.mp texts
  have pair : ∀ high low : UInt8,
      high.toNat <<< 8 ||| low.toNat = high.toNat * 2 ^ 8 + low.toNat := by
    intro high low
    rw [← Nat.shiftLeft_add_eq_or_of_lt low.toNat_lt, Nat.shiftLeft_eq]
  have bytes : ∀ n ∈ [15, 13, 11, 9, 7, 5, 3, 1],
      addr.getByte n = other.getByte n ∧ addr.getByte (n - 1) = other.getByte (n - 1) := by
    intro n listed
    have equal := Texts.toDigits_inj (by decide) (by decide) (numbers n listed)
    rw [pair, pair] at equal
    have low := (addr.getByte (n - 1)).toNat_lt
    have lowToo := (other.getByte (n - 1)).toNat_lt
    exact ⟨UInt8.toNat_inj.mp (by omega), UInt8.toNat_inj.mp (by omega)⟩
  apply ext_getByte
  intro n small
  have listed : 2 * (n / 2) + 1 ∈ [15, 13, 11, 9, 7, 5, 3, 1] := by
    simp only [mem_cons, not_mem_nil, or_false]
    omega
  obtain ⟨high, low⟩ := bytes _ listed
  rcases Nat.mod_two_eq_zero_or_one n with even | odd
  · rwa [show 2 * (n / 2) + 1 - 1 = n by omega] at low
  · rwa [show 2 * (n / 2) + 1 = n by omega] at high

/-! ## Hosts -/

theorem front_eq_of_isIPv4 (ipv4 : addr.isIPv4 = true) : addr.ip.take 12 = pchIPv4 := by
  rw [isIPv4, bytesAt, drop_zero] at ipv4
  exact of_decide_eq_true ipv4

theorem front_eq_of_isTor (tor : addr.isTor = true) : addr.ip.take 6 = pchOnionCat := by
  rw [isTor, bytesAt, drop_zero] at tor
  exact of_decide_eq_true tor

theorem not_isTor_of_isIPv4 (ipv4 : addr.isIPv4 = true) : addr.isTor = false := by
  refine Bool.not_eq_true _ |>.mp fun tor => ?_
  have front : (addr.ip.take 12).take 6 = pchIPv4.take 6 :=
    congrArg (List.take 6) (front_eq_of_isIPv4 ipv4)
  have short : (addr.ip.take 12).take 6 = addr.ip.take 6 := take_take
  rw [short, front_eq_of_isTor tor] at front
  exact absurd front (by decide)

theorem eq_of_ip {other : CNetAddr} (same : addr.ip = other.ip) : addr = other := by
  obtain ⟨ip, size⟩ := addr
  obtain ⟨ipToo, sizeToo⟩ := other
  dsimp only at same
  subst same
  rfl

theorem toStringIP_tor (getnameinfo : CNetAddr → Option (List Char)) (tor : addr.isTor = true) :
    addr.toStringIP getnameinfo = encodeBase32 (addr.ip.drop 6) ++ dotOnion := if_pos tor

theorem tor_inj {other : CNetAddr} (tor : addr.isTor = true) (torToo : other.isTor = true)
    (same : encodeBase32 (addr.ip.drop 6) = encodeBase32 (other.ip.drop 6)) : addr = other := by
  have backs := encodeBase32_inj same
  apply eq_of_ip
  rw [← take_append_drop 6 addr.ip, ← take_append_drop 6 other.ip, backs,
    front_eq_of_isTor tor, front_eq_of_isTor torToo]

theorem ipv4_inj {other : CNetAddr} (ipv4 : addr.isIPv4 = true) (ipv4Too : other.isIPv4 = true)
    (same : addr.dotted = other.dotted) : addr = other := by
  have backs := dotted_inj same
  apply ext_getByte
  intro n small
  by_cases low : n < 4
  · exact backs n low
  · have fronts : ∀ addr : CNetAddr, addr.isIPv4 = true →
        addr.getByte n = pchIPv4.getD (15 - n) 0 := by
      intro addr ipv4
      rw [← front_eq_of_isIPv4 ipv4, getByte, getD_eq_getElem?_getD,
        getD_eq_getElem?_getD, getElem?_take_of_lt (by omega)]
    rw [fronts addr ipv4, fronts other ipv4Too]

section

variable {getnameinfo : CNetAddr → Option (List Char)}

variable {addr : CNetAddr}

theorem toStringIP_ipv4 (numeric : NumericHost getnameinfo) (ipv4 : addr.isIPv4 = true) :
    addr.toStringIP getnameinfo = addr.dotted := by
  rw [toStringIP, not_isTor_of_isIPv4 ipv4, if_neg Bool.false_ne_true]
  cases name : getnameinfo addr with
  | none => exact if_pos ipv4
  | some text => exact numeric.ipv4 addr text ipv4 name

theorem toStringIP_ipv6 (ipv4 : addr.isIPv4 = false) (tor : addr.isTor = false) :
    addr.toStringIP getnameinfo = (getnameinfo addr).getD addr.groups := by
  rw [toStringIP, tor, if_neg Bool.false_ne_true]
  cases getnameinfo addr with
  | none => rw [ipv4, if_neg Bool.false_ne_true, Option.getD_none]
  | some text => rfl

theorem not_mem_tor {c : Char} (digit : c ∉ '=' :: Base32.pbase32) (suffix : c ∉ dotOnion)
    (tor : addr.isTor = true) : c ∉ addr.toStringIP getnameinfo := by
  rw [toStringIP_tor getnameinfo tor, mem_append, not_or]
  exact ⟨fun inside => digit (mem_encodeBase32 inside), suffix⟩

section

variable (numeric : NumericHost getnameinfo)

include numeric

theorem not_mem_plain (plain : (addr.isIPv4 || addr.isTor) = true) :
    ':' ∉ addr.toStringIP getnameinfo ∧ '[' ∉ addr.toStringIP getnameinfo := by
  rcases (Bool.or_eq_true _ _).mp plain with ipv4 | tor
  · rw [toStringIP_ipv4 numeric ipv4]
    exact ⟨not_mem_dotted (by decide) (by decide) addr, not_mem_dotted (by decide) (by decide) addr⟩
  · exact ⟨not_mem_tor (by decide) (by decide) tor, not_mem_tor (by decide) (by decide) tor⟩ 

theorem plain_inj {other : CNetAddr}
    (plain : (addr.isIPv4 || addr.isTor) = true) (plainToo : (other.isIPv4 || other.isTor) = true)
    (same : addr.toStringIP getnameinfo = other.toStringIP getnameinfo) : addr = other := by
  -- the suffix of a Tor address has a letter that no IPv4 address has
  have apart : ∀ ipv4Addr torAddr : CNetAddr, ipv4Addr.isIPv4 = true → torAddr.isTor = true →
      ipv4Addr.toStringIP getnameinfo ≠ torAddr.toStringIP getnameinfo := by
    intro ipv4Addr torAddr ipv4 tor equal
    rw [toStringIP_ipv4 numeric ipv4, toStringIP_tor getnameinfo tor] at equal
    have letter : 'o' ∉ ipv4Addr.dotted := not_mem_dotted (by decide) (by decide) ipv4Addr
    rw [equal] at letter
    exact letter (mem_append_right _ (by decide))
  rcases (Bool.or_eq_true _ _).mp plain with ipv4 | tor
  · rcases (Bool.or_eq_true _ _).mp plainToo with ipv4Too | torToo
    · rw [toStringIP_ipv4 numeric ipv4, toStringIP_ipv4 numeric ipv4Too] at same
      exact ipv4_inj ipv4 ipv4Too same
    · exact absurd same (apart addr other ipv4 torToo)
  · rcases (Bool.or_eq_true _ _).mp plainToo with ipv4Too | torToo
    · exact absurd same.symm (apart other addr ipv4Too tor)
    · rw [toStringIP_tor getnameinfo tor, toStringIP_tor getnameinfo torToo] at same
      exact tor_inj tor torToo (append_cancel_right same)

theorem not_mem_bracketed (ipv4 : addr.isIPv4 = false)
    (tor : addr.isTor = false) :
    ']' ∉ addr.toStringIP getnameinfo := by
  rw [toStringIP_ipv6 ipv4 tor]
  cases name : getnameinfo addr with
  | none => exact not_mem_groups (by decide) (by decide) addr
  | some text => exact numeric.bracket addr text ipv4 name 

theorem bracketed_inj {other : CNetAddr}
    (ipv4 : addr.isIPv4 = false) (tor : addr.isTor = false) (ipv4Too : other.isIPv4 = false)
    (torToo : other.isTor = false)
    (same : addr.toStringIP getnameinfo = other.toStringIP getnameinfo) : addr = other := by
  rw [toStringIP_ipv6 ipv4 tor, toStringIP_ipv6 ipv4Too torToo] at same
  cases name : getnameinfo addr with
  | none =>
    cases nameToo : getnameinfo other with
    | none =>
      rw [name, nameToo] at same
      exact groups_inj same
    | some text =>
      rw [name, nameToo] at same
      exact (numeric.denotes other addr text ipv4Too ipv4 nameToo (Or.inr same.symm)).symm
  | some text =>
    cases nameToo : getnameinfo other with
    | none =>
      rw [name, nameToo] at same
      exact numeric.denotes addr other text ipv4 ipv4Too name (Or.inr same)
    | some another =>
      rw [name, nameToo] at same
      have equal : text = another := same
      rw [← equal] at nameToo
      exact numeric.denotes addr other text ipv4 ipv4Too name (Or.inl nameToo)

end

end

end CNetAddr

open CNetAddr

/-- The text of a service tells the address, and the text of the port goes to the next
character that a text has after it. -/
theorem CService.toStringIPPort_cut {getnameinfo : CNetAddr → Option (List Char)}
    (numeric : NumericHost getnameinfo) {first second : CService} {back rest : List Char}
    (same : first.toStringIPPort getnameinfo ++ back = second.toStringIPPort getnameinfo ++ rest) :
    first.toCNetAddr = second.toCNetAddr ∧
      first.toStringPort ++ back = second.toStringPort ++ rest := by
  have apart : ∀ host after text : List Char, '[' ∉ host →
      host ++ ':' :: after ≠ '[' :: text := by
    intro host after text plain equal
    cases host with
    | nil => cases equal
    | cons c more =>
      obtain ⟨rfl, _⟩ := List.cons.inj equal
      exact plain mem_cons_self
  unfold CService.toStringIPPort at same
  split at same
  case isTrue plain =>
    have host := not_mem_plain numeric plain
    split at same
    case isTrue plainToo =>
      have hostToo := not_mem_plain numeric plainToo
      rw [append_assoc, append_assoc] at same
      obtain ⟨hosts, ports⟩ := Texts.separated_cut same host.1 hostToo.1
      exact ⟨plain_inj numeric plain plainToo hosts, ports⟩
    case isFalse bracketed =>
      rw [append_assoc] at same
      exact absurd same (apart _ _ _ host.2)
  case isFalse bracketed =>
    split at same
    case isTrue plainToo =>
      have hostToo := not_mem_plain numeric plainToo
      rw [append_assoc] at same
      exact absurd same.symm (apart _ _ _ hostToo.2)
    case isFalse bracketedToo =>
      obtain ⟨ipv4, tor⟩ := Bool.or_eq_false_iff.mp (Bool.not_eq_true _ |>.mp bracketed)
      obtain ⟨ipv4Too, torToo⟩ := Bool.or_eq_false_iff.mp (Bool.not_eq_true _ |>.mp bracketedToo)
      have inner := (List.cons.inj same).2
      rw [append_eq, append_eq, append_assoc, append_assoc] at inner
      obtain ⟨hosts, ports⟩ := Texts.separated_cut inner
        (not_mem_bracketed numeric ipv4 tor)
        (not_mem_bracketed numeric ipv4Too torToo)
      exact ⟨bracketed_inj numeric ipv4 tor ipv4Too torToo hosts,
        (List.cons.inj ports).2⟩

theorem numericHost_forms :
    NumericHost fun addr => some (if addr.isIPv4 then addr.dotted else addr.groups) where
  ipv4 := fun addr name ipv4 said => by
    rw [if_pos ipv4] at said
    exact (Option.some.inj said).symm
  bracket := fun addr name ipv4 said => by
    rw [ipv4, if_neg Bool.false_ne_true] at said
    rw [← Option.some.inj said]
    exact not_mem_groups (by decide) (by decide) addr
  denotes := fun addr other name ipv4 ipv4Too said either => by
    rw [ipv4, if_neg Bool.false_ne_true] at said
    rw [ipv4Too, if_neg Bool.false_ne_true] at either
    refine groups_inj ((Option.some.inj said).trans ?_)
    exact either.elim (fun same => (Option.some.inj same).symm) id

end CentNode
