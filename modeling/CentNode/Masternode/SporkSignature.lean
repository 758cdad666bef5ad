import CentNode.Library.Texts
import CentNode.Masternode.Sporks

/-!
# What a spork signature stands for

`Sign` and `CheckSignature` join the decimal texts of the three fields of a
spork with nothing between them.  The text of one spork can be cut in another
place, and then its signature is good for another value and time.
-/

namespace CentNode

/-- `boost::lexical_cast<std::string>` of an integer. -/
def lexicalCast (n : Int) : List Char :=
  if n < 0 then '-' :: Nat.toDigits 10 n.natAbs else Nat.toDigits 10 n.natAbs

theorem toDigits_inj {m n : Nat} (same : Nat.toDigits 10 m = Nat.toDigits 10 n) : m = n :=
  Texts.toDigits_inj (by decide) (by decide) same

theorem minus_cons_ne_toDigits (m n : Nat) : '-' :: Nat.toDigits 10 m ≠ Nat.toDigits 10 n := by
  intro same
  have member : '-' ∈ Nat.toDigits 10 n := by
    rw [← same]
    exact List.mem_cons_self
  exact absurd (Nat.isDigit_of_mem_toDigits (by decide) (by decide) member) (by decide)

theorem lexicalCast_inj {m n : Int} (same : lexicalCast m = lexicalCast n) : m = n := by
  unfold lexicalCast at same
  split at same
  case isTrue below =>
    split at same
    case isTrue belowToo =>
      have digits := toDigits_inj (List.cons.inj same).2
      omega
    case isFalse => exact absurd same (minus_cons_ne_toDigits _ _)
  case isFalse above =>
    split at same
    case isTrue => exact absurd same.symm (minus_cons_ne_toDigits _ _)
    case isFalse aboveToo =>
      have digits := toDigits_inj same
      omega

namespace CSporkMessage

/-- `strMessage` of `Sign` and `CheckSignature`. -/
def strMessage (spork : CSporkMessage) : List Char :=
  lexicalCast spork.nSporkID ++ lexicalCast spork.nValue ++ lexicalCast spork.nTimeSigned

/-- `CheckSignature`, with `VerifyMessage` for the spork key of the network. -/
def checkSignature (verifyMessage : List UInt8 → List Char → Bool) (spork : CSporkMessage) : Bool :=
  verifyMessage spork.vchSig spork.strMessage

/-- The two messages set the same spork to the same value at the same time. -/
def SameSetting (first second : CSporkMessage) : Prop :=
  first.nSporkID = second.nSporkID ∧ first.nValue = second.nValue ∧
    first.nTimeSigned = second.nTimeSigned

/-- The ids have texts of one length, and so have the times. -/
def SameWidths (first second : CSporkMessage) : Prop :=
  (lexicalCast first.nSporkID).length = (lexicalCast second.nSporkID).length ∧
    (lexicalCast first.nTimeSigned).length = (lexicalCast second.nTimeSigned).length

instance (first second : CSporkMessage) : Decidable (first.SameSetting second) :=
  inferInstanceAs (Decidable (_ ∧ _))

/-- Two messages whose signed texts are equal have the same contents exactly if
the texts of their ids and of their times have the same lengths. -/
theorem same_text_binds_iff {first second : CSporkMessage}
    (same : first.strMessage = second.strMessage) :
    first.SameSetting second ↔ first.SameWidths second := by
  constructor
  · rintro ⟨id_eq, -, time_eq⟩
    unfold SameWidths
    rw [id_eq, time_eq]
    exact ⟨rfl, rfl⟩
  · rintro ⟨idWidth, timeWidth⟩
    obtain ⟨front, time_eq⟩ := List.append_inj' same timeWidth
    obtain ⟨id_eq, value_eq⟩ := List.append_inj front idWidth
    exact ⟨lexicalCast_inj id_eq, lexicalCast_inj value_eq, lexicalCast_inj time_eq⟩

namespace Recut

def setting : CSporkMessage where
  vchSig := [1]
  nSporkID := 10008
  nValue := 15
  nTimeSigned := 1700000000

/-- The same signature with the last digit of the value moved to the time. -/
def recut : CSporkMessage := { setting with nValue := 1, nTimeSigned := 51700000000 }

/-- A key that has signed the text of the setting and nothing else. -/
def verifyMessage (vchSig : List UInt8) (text : List Char) : Bool :=
  vchSig = [1] && text = setting.strMessage

def keys : SporkKeys where
  getHash := fun spork => BitVec.ofInt 256 spork.nTimeSigned
  checkSignature := checkSignature verifyMessage
  sign := fun _ => none

end Recut

theorem same_text_binds_setting :
    Recut.setting.strMessage = { Recut.setting with vchSig := [] }.strMessage ∧
      (Recut.setting.SameSetting { Recut.setting with vchSig := [] } ↔
        Recut.setting.SameWidths { Recut.setting with vchSig := [] }) :=
  ⟨rfl, same_text_binds_iff rfl⟩

/-- The signature of one setting activates another one, with a later time. -/
theorem setting_replayed :
    Recut.setting.strMessage = Recut.recut.strMessage ∧
      ¬ Recut.setting.SameSetting Recut.recut ∧
        ((({} : SporkState).processSpork Recut.keys true Recut.setting).processSpork Recut.keys
          true Recut.recut).mapSporksActive.lookup 10008 = some Recut.recut := by
  decide

end CSporkMessage

end CentNode
