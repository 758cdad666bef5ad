import CentNode.Masternode.Collateral
import CentNode.Masternode.SporkSignature
import CentNode.Net.AddressText

/-!
# What a signed announcement binds

`Sign` and `CheckAndUpdate` of `CMasternodeBroadcast` join the address, the time,
the two keys and the version with nothing between them, and leave the collateral
outpoint out.  `CMasternodePing` signs its outpoint.
-/

namespace CentNode

namespace CPubKey

/-- `GetLen`: the length of a key with a first byte. -/
def getLen (chHeader : UInt8) : Nat :=
  if chHeader = 2 || chHeader = 3 then 33
  else if chHeader = 4 || chHeader = 6 || chHeader = 7 then 65
  else 0

/-- `IsValid`: the first byte gives the length. -/
def IsValid (key : CPubKey) : Prop :=
  ∃ chHeader ∈ key.head?, getLen chHeader ≠ 0 ∧ key.length = getLen chHeader

/-- The bytes of a key in a `std::string`. -/
def text (key : CPubKey) : List Char := key.map Char.ofUInt8

variable {key other : CPubKey}

theorem text_inj (same : key.text = other.text) : key = other := by
  refine List.map_injective_iff.mpr (fun byte byteToo equal => ?_) same
  have codes : byte.toUInt32 = byteToo.toUInt32 := congrArg Char.val equal
  have numbers : byte.toNat = byteToo.toNat := by
    rw [← UInt8.toNat_toUInt32, ← UInt8.toNat_toUInt32, codes]
  exact UInt8.toNat_inj.mp numbers

/-- A character of a decimal number. -/
def Decimal (c : Char) : Prop := c.isDigit = true ∨ c = '-'

theorem mem_of_getLen_ne_zero {chHeader : UInt8} (some : getLen chHeader ≠ 0) :
    chHeader ∈ [2, 3, 4, 6, 7] := by
  unfold getLen at some
  simp only [List.mem_cons, List.not_mem_nil, or_false]
  split at some
  case isTrue short =>
    simp only [Bool.or_eq_true, decide_eq_true_eq] at short
    exact short.elim Or.inl fun three => Or.inr (Or.inl three)
  case isFalse =>
    split at some
    case isTrue long =>
      simp only [Bool.or_eq_true, decide_eq_true_eq, or_assoc] at long
      exact Or.inr (Or.inr long)
    case isFalse => exact absurd rfl some

theorem IsValid.cons (valid : key.IsValid) :
    ∃ chHeader tail, key = chHeader :: tail ∧ chHeader ∈ [2, 3, 4, 6, 7] ∧
      key.length = getLen chHeader := by
  obtain ⟨chHeader, first, some, size⟩ := valid
  cases key with
  | nil => cases first
  | cons byte tail =>
    cases first
    exact ⟨chHeader, tail, rfl, mem_of_getLen_ne_zero some, size⟩

theorem IsValid.head (valid : key.IsValid) (rest : List Char) :
    ∀ c ∈ (key.text ++ rest).head?, ¬ Decimal c := by
  obtain ⟨chHeader, tail, rfl, listed, _⟩ := valid.cons
  intro c head
  cases head
  have headers : ∀ byte ∈ [2, 3, 4, 6, 7], ¬ Decimal (Char.ofUInt8 byte) := by
    unfold Decimal
    decide +kernel
  exact headers chHeader listed

theorem IsValid.cut (valid : key.IsValid) (validToo : other.IsValid)
    {back rest : List Char} (same : key.text ++ back = other.text ++ rest) :
    key = other ∧ back = rest := by
  obtain ⟨chHeader, tail, rfl, _, size⟩ := valid.cons
  obtain ⟨otherHeader, tailToo, rfl, _, sizeToo⟩ := validToo.cons
  have heads : text [chHeader] = text [otherHeader] :=
    congrArg (fun c => [c]) (List.cons.inj same).1
  cases text_inj heads
  have sizes : (text (chHeader :: tail)).length = (text (chHeader :: tailToo)).length := by
    rw [text, text, List.length_map, List.length_map, size, sizeToo]
  obtain ⟨keys, backs⟩ := List.append_inj same sizes
  exact ⟨text_inj keys, backs⟩

end CPubKey

theorem decimal_of_mem_toDigits {n : Nat} {c : Char} (inside : c ∈ Nat.toDigits 10 n) :
    CPubKey.Decimal c :=
  Or.inl (Nat.isDigit_of_mem_toDigits (by decide) (by decide) inside)

theorem decimal_of_mem_lexicalCast {n : Int} {c : Char} (inside : c ∈ lexicalCast n) :
    CPubKey.Decimal c := by
  unfold lexicalCast at inside
  split at inside
  · rcases List.mem_cons.mp inside with rfl | digit
    · exact Or.inr rfl
    · exact decimal_of_mem_toDigits digit
  · exact decimal_of_mem_toDigits inside

namespace CMasternodeBroadcast

/-- The address and port that `addr` holds. -/
def service (mnb : CMasternodeBroadcast) : CService :=
  match readService mnb.addr with
  | some (service, _) => service
  | none => CService.init

/-- `strMessage` of `Sign` and `CheckAndUpdate`. -/
def strMessage (getnameinfo : CNetAddr → Option (List Char)) (mnb : CMasternodeBroadcast) :
    List Char :=
  mnb.service.toStringIPPort getnameinfo ++ (lexicalCast mnb.sigTime ++
    (mnb.pubKeyCollateralAddress.text ++ (mnb.pubKeyMasternode.text ++
      lexicalCast mnb.protocolVersion)))

/-- The broadcasts announce the same collateral output on the same terms. -/
structure SameTerms (first second : CMasternodeBroadcast) : Prop where
  prevout : first.vin.prevout = second.vin.prevout
  addr : first.addr = second.addr
  sigTime : first.sigTime = second.sigTime
  pubKeyCollateralAddress : first.pubKeyCollateralAddress = second.pubKeyCollateralAddress
  pubKeyMasternode : first.pubKeyMasternode = second.pubKeyMasternode
  protocolVersion : first.protocolVersion = second.protocolVersion

end CMasternodeBroadcast

/-- A broadcast with valid keys; its address is the address and the port in a stream. -/
structure Announcement extends CMasternodeBroadcast where
  addressed : addr = writeService toCMasternodeBroadcast.service
  collateralValid : pubKeyCollateralAddress.IsValid
  masternodeValid : pubKeyMasternode.IsValid

namespace Announcement

section

variable {getnameinfo : CNetAddr → Option (List Char)} {first second : Announcement}

/-- What equal texts have in common. -/
theorem parts_of_same_text (numeric : NumericHost getnameinfo)
    (same : first.strMessage getnameinfo = second.strMessage getnameinfo) :
    first.service.toCNetAddr = second.service.toCNetAddr ∧
      first.service.toStringPort ++ lexicalCast first.sigTime =
        second.service.toStringPort ++ lexicalCast second.sigTime ∧
      first.pubKeyCollateralAddress = second.pubKeyCollateralAddress ∧
      first.pubKeyMasternode = second.pubKeyMasternode ∧
      first.protocolVersion = second.protocolVersion := by
  have decimals : ∀ announcement : Announcement,
      ∀ c ∈ announcement.service.toStringPort ++ lexicalCast announcement.sigTime,
        CPubKey.Decimal c := by
    intro announcement c inside
    exact (List.mem_append.mp inside).elim decimal_of_mem_toDigits decimal_of_mem_lexicalCast
  obtain ⟨hosts, after⟩ := CService.toStringIPPort_cut numeric same
  have regrouped : ∀ announcement : Announcement, ∀ keys : List Char,
      announcement.service.toStringPort ++ (lexicalCast announcement.sigTime ++ keys) =
        announcement.service.toStringPort ++ lexicalCast announcement.sigTime ++ keys :=
    fun _ _ => (List.append_assoc _ _ _).symm
  rw [regrouped, regrouped] at after
  obtain ⟨numbers, keys⟩ := Texts.append_cut after (decimals first) (decimals second)
    (first.collateralValid.head _) (second.collateralValid.head _)
  obtain ⟨collateral, keys⟩ := first.collateralValid.cut second.collateralValid keys
  obtain ⟨masternode, version⟩ := first.masternodeValid.cut second.masternodeValid keys
  exact ⟨hosts, numbers, collateral, masternode, lexicalCast_inj version⟩

/-- Two announcements with equal texts have the same terms exactly if they name the same
collateral outpoint and the texts of their ports have the same length. -/
theorem same_terms_iff_of_same_text (numeric : NumericHost getnameinfo)
    (same : first.strMessage getnameinfo = second.strMessage getnameinfo) :
    first.SameTerms second.toCMasternodeBroadcast ↔
      first.vin.prevout = second.vin.prevout ∧
        first.service.toStringPort.length = second.service.toStringPort.length := by
  obtain ⟨hosts, numbers, collateral, masternode, version⟩ := parts_of_same_text numeric same
  constructor
  · intro terms
    have services : first.service = second.service := by
      unfold CMasternodeBroadcast.service
      rw [terms.addr]
    exact ⟨terms.prevout, by rw [services]⟩
  · rintro ⟨prevout, width⟩
    obtain ⟨ports, times⟩ := List.append_inj numbers width
    have services : first.service = second.service := by
      have port : first.service.port = second.service.port :=
        BitVec.toNat_inj.mp (toDigits_inj ports)
      revert hosts port
      generalize first.service = service
      generalize second.service = other
      rintro hosts port
      obtain ⟨addr, number⟩ := service
      obtain ⟨addrToo, numberToo⟩ := other
      dsimp only at hosts port
      rw [hosts, port]
    exact
      { prevout := prevout
        addr := by rw [first.addressed, second.addressed, services]
        sigTime := lexicalCast_inj times
        pubKeyCollateralAddress := collateral
        pubKeyMasternode := masternode
        protocolVersion := version }

end

namespace Replay

/-- A compressed key. -/
def key : CPubKey := 2 :: List.replicate 32 1

theorem key_valid : key.IsValid := ⟨2, rfl, by decide, by decide⟩

def address : CService where
  ip := CNetAddr.pchIPv4 ++ [1, 2, 3, 4]
  size := rfl
  port := 9822

/-- An announcement of an output of a transaction that pays to the key. -/
def announcement (n : Nat) (sig : List UInt8) : Announcement where
  vin := { prevout := ⟨7, n⟩ }
  addr := writeService address
  pubKeyCollateralAddress := key
  pubKeyMasternode := key
  sig := sig
  sigTime := 5000
  protocolVersion := 70100
  addressed := rfl
  collateralValid := key_valid
  masternodeValid := key_valid

def getnameinfo (addr : CNetAddr) : Option (List Char) :=
  some (if addr.isIPv4 then addr.dotted else addr.groups)

/-- The key has signed the text of the first output and nothing else. -/
def context : MnContext :=
  { CollateralSample.context with
    getID := fun pubkey => ⟨List.replicate 20 (pubkey.getD 1 0), List.length_replicate⟩
    broadcastSigned := fun mnb =>
      mnb.sig = [1] && mnb.strMessage getnameinfo = (announcement 0 [1]).strMessage getnameinfo }

end Replay

theorem same_terms_iff_of_resigned :
    NumericHost Replay.getnameinfo ∧
      (Replay.announcement 0 [1]).strMessage Replay.getnameinfo =
        (Replay.announcement 0 [2]).strMessage Replay.getnameinfo ∧
      ((Replay.announcement 0 [1]).SameTerms (Replay.announcement 0 [2]).toCMasternodeBroadcast ↔
        (Replay.announcement 0 [1]).vin.prevout = (Replay.announcement 0 [2]).vin.prevout ∧
          (Replay.announcement 0 [1]).service.toStringPort.length =
            (Replay.announcement 0 [2]).service.toStringPort.length) :=
  ⟨numericHost_forms, rfl, @same_terms_iff_of_same_text Replay.getnameinfo
    (Replay.announcement 0 [1]) (Replay.announcement 0 [2]) numericHost_forms rfl⟩

/-- The signature for the first output gets another output of the transaction into the
list of masternodes. -/
theorem signature_replayed :
    (Replay.announcement 0 [1]).strMessage Replay.getnameinfo =
        (Replay.announcement 1 [1]).strMessage Replay.getnameinfo ∧
      ¬ (Replay.announcement 0 [1]).SameTerms
        (Replay.announcement 1 [1]).toCMasternodeBroadcast ∧
      ((Replay.context.processMnb {} (Replay.announcement 1 [1]).toCMasternodeBroadcast).map
        fun outcome => outcome.state.man.vMasternodes) =
          some [(Replay.announcement 1 [1]).toMasternode] := by
  refine ⟨rfl, fun terms => ?_, by decide +kernel⟩
  have outputs : (0 : Nat) = 1 := congrArg COutPoint.n terms.prevout
  cases outputs

end Announcement

end CentNode
