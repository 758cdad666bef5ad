import CentNode.Masternode.SwiftTX
import CentNode.Script.Instructions

/-!
# Normal payment scripts

`CScript::IsNormalPaymentScript` counts instructions and does not look at the third one.  The
message `ix` takes a transaction whose outputs it calls normal, or which are unspendable.
-/

namespace CentNode

namespace CScript

/-- Where the iterator stands after `GetOp` failed. -/
def failedOp : CScript → CScript
  | [] => []
  | opcode :: pc =>
    match operandSize opcode pc with
    | none => pc
    | some (_, pc) => pc

/-- `GetOp` with its result ignored: the opcode and the iterator that it leaves. -/
def nextOp (pc : CScript) : UInt8 × CScript :=
  match getOp pc with
  | none => (opInvalidopcode, failedOp pc)
  | some (opcode, _, rest) => (opcode, rest)

theorem failedOp_length_lt {pc : CScript} (some_bytes : pc ≠ []) :
    (failedOp pc).length < pc.length := by
  cases pc with
  | nil => exact absurd rfl some_bytes
  | cons opcode pc =>
    rw [failedOp]
    split
    case h_1 => simp
    case h_2 nSize rest sized => exact Nat.lt_succ_of_le (operandSize_le sized)

theorem nextOp_length_lt {pc : CScript} (some_bytes : pc ≠ []) :
    (nextOp pc).2.length < pc.length := by
  unfold nextOp
  split
  case h_1 => exact failedOp_length_lt some_bytes
  case h_2 read => exact getOp_length_lt read

/-- The loop of `IsNormalPaymentScript` from an iterator on. -/
def normalFrom (i : Nat) (pc : CScript) : Bool :=
  if _some_bytes : pc = [] then true
  else
    let next := nextOp pc
    if i = 0 ∧ next.1 ≠ opDup then false
    else if i = 1 ∧ next.1 ≠ opHash160 then false
    else if i = 3 ∧ next.1 ≠ opEqualverify then false
    else if i = 4 ∧ next.1 ≠ opChecksig then false
    else if i = 5 then false
    else normalFrom (i + 1) next.2
termination_by pc.length
decreasing_by exact nextOp_length_lt _some_bytes

def isNormalPaymentScript (script : CScript) : Bool :=
  if script.length ≠ 25 then false else normalFrom 0 script

/-- `OP_DUP OP_HASH160`, a direct push of 20 bytes, `OP_EQUALVERIFY OP_CHECKSIG`. -/
def PaysToKeyHash (script : CScript) : Prop :=
  ∃ keyHash : List UInt8, keyHash.length = 20 ∧
    script = [opDup, opHash160, 0x14] ++ keyHash ++ [opEqualverify, opChecksig]

/-- A third instruction that leaves nothing of the script, or `OP_EQUALVERIFY` alone, or
pushes with a size of its own before `OP_EQUALVERIFY OP_CHECKSIG`. -/
inductive LooseThird : UInt8 → CScript → Prop
  | nothing (opcode : UInt8) : LooseThird opcode []
  | equalverify (opcode : UInt8) : LooseThird opcode [opEqualverify]
  | sized (opcode : UInt8) (sizes : opPushdata1 ≤ opcode) :
      LooseThird opcode [opEqualverify, opChecksig]

/-- 25 bytes that start like a payment to a key hash and have such a third instruction. -/
def Loose (script : CScript) : Prop :=
  script.length = 25 ∧ ∃ pc opcode vch rest, script = opDup :: opHash160 :: pc ∧
    getOp pc = some (opcode, vch, rest) ∧ LooseThird opcode rest

/-! ## The instructions that are looked at -/

variable {opcode : UInt8}

theorem nextOp_eq_iff (plain : opPushdata4 < opcode) (valid : opcode < 0xff) (pc rest : CScript) :
    nextOp pc = (opcode, rest) ↔ pc = opcode :: rest := by
  have noPush : ¬ opcode ≤ opPushdata4 := UInt8.not_le.mpr plain
  constructor
  · intro read
    unfold nextOp at read
    split at read
    case h_1 =>
      cases read
      exact absurd valid (by decide)
    case h_2 opcode' vch rest' there =>
      cases read
      cases pc with
      | nil => cases there
      | cons first pc =>
        obtain rfl := getOp_head there
        simp only [getOp, noPush, if_false] at there
        cases there
        rfl
  · rintro rfl
    simp [nextOp, getOp, noPush]

theorem normalFrom_nil (i : Nat) : normalFrom i [] = true := by
  rw [normalFrom]
  rfl

theorem normalFrom_expects {i : Nat} (plain : opPushdata4 < opcode) (valid : opcode < 0xff)
    (looks : ∀ pc, pc ≠ [] → normalFrom i pc =
      if (nextOp pc).1 ≠ opcode then false else normalFrom (i + 1) (nextOp pc).2) (pc : CScript) :
    normalFrom i pc = true ↔
      pc = [] ∨ ∃ rest, pc = opcode :: rest ∧ normalFrom (i + 1) rest = true := by
  by_cases empty : pc = []
  · subst empty
    simp [normalFrom_nil]
  · rw [looks pc empty]
    constructor
    · intro normal
      split at normal
      case isTrue => cases normal
      case isFalse same =>
        have read : nextOp pc = (opcode, (nextOp pc).2) := Prod.ext (not_not.mp same) rfl
        exact .inr ⟨_, (nextOp_eq_iff plain valid _ _).mp read, normal⟩
    · rintro (ended | ⟨rest, rfl, normal⟩)
      · exact absurd ended empty
      · rw [(nextOp_eq_iff plain valid (opcode :: rest) rest).mpr rfl]
        simpa using normal

variable (pc : CScript)

theorem normalFrom_zero : normalFrom 0 pc = true ↔
    pc = [] ∨ ∃ rest, pc = opDup :: rest ∧ normalFrom 1 rest = true := by
  refine normalFrom_expects (by decide) (by decide) (fun pc some_bytes => ?_) pc
  rw [normalFrom]
  simp [some_bytes]

theorem normalFrom_one : normalFrom 1 pc = true ↔
    pc = [] ∨ ∃ rest, pc = opHash160 :: rest ∧ normalFrom 2 rest = true := by
  refine normalFrom_expects (by decide) (by decide) (fun pc some_bytes => ?_) pc
  rw [normalFrom]
  simp [some_bytes]

theorem normalFrom_two {pc : CScript} (some_bytes : pc ≠ []) :
    normalFrom 2 pc = normalFrom 3 (nextOp pc).2 := by
  rw [normalFrom]
  simp [some_bytes]

theorem normalFrom_three : normalFrom 3 pc = true ↔
    pc = [] ∨ ∃ rest, pc = opEqualverify :: rest ∧ normalFrom 4 rest = true := by
  refine normalFrom_expects (by decide) (by decide) (fun pc some_bytes => ?_) pc
  rw [normalFrom]
  simp [some_bytes]

theorem normalFrom_four : normalFrom 4 pc = true ↔
    pc = [] ∨ ∃ rest, pc = opChecksig :: rest ∧ normalFrom 5 rest = true := by
  refine normalFrom_expects (by decide) (by decide) (fun pc some_bytes => ?_) pc
  rw [normalFrom]
  simp [some_bytes]

theorem normalFrom_five : normalFrom 5 pc = true ↔ pc = [] := by
  rw [normalFrom]
  split
  case isTrue empty => simp [empty]
  case isFalse some_bytes => simp [some_bytes]

theorem normalFrom_three_iff : normalFrom 3 pc = true ↔
    pc = [] ∨ pc = [opEqualverify] ∨ pc = [opEqualverify, opChecksig] := by
  simp only [normalFrom_three, normalFrom_four, normalFrom_five]
  constructor
  · rintro (rfl | ⟨rest, rfl, rfl | ⟨last, rfl, rfl⟩⟩) <;> simp
  · rintro (rfl | rfl | rfl) <;> simp

theorem isNormalPaymentScript_iff (script : CScript) :
    script.isNormalPaymentScript = true ↔ script.length = 25 ∧
      ∃ pc, script = opDup :: opHash160 :: pc ∧ normalFrom 3 (nextOp pc).2 = true := by
  unfold isNormalPaymentScript
  split
  case isTrue other => exact ⟨fun impossible => (nomatch impossible), fun holds => absurd holds.1 other⟩
  case isFalse sized =>
    have length := not_not.mp sized
    rw [normalFrom_zero]
    constructor
    · rintro (rfl | ⟨rest, rfl, normal⟩)
      · cases length
      rcases (normalFrom_one rest).mp normal with rfl | ⟨pc, rfl, later⟩
      · cases length
      have some_bytes : pc ≠ [] := by
        rintro rfl
        cases length
      exact ⟨length, pc, rfl, (normalFrom_two some_bytes).symm.trans later⟩
    · rintro ⟨_, pc, rfl, normal⟩
      have some_bytes : pc ≠ [] := by
        rintro rfl
        cases length
      have second := (normalFrom_two some_bytes).trans normal
      exact .inr ⟨_, rfl, (normalFrom_one _).mpr (.inr ⟨pc, rfl, second⟩)⟩

/-! ## The sizes of the third instruction -/

theorem failedOp_length : pc.length ≤ (failedOp pc).length + 5 := by
  cases pc with
  | nil => simp
  | cons opcode pc =>
    have width : sizeWidth opcode ≤ 4 := by
      unfold sizeWidth
      split_ifs <;> omega
    rw [failedOp]
    split
    case h_1 => simp
    case h_2 nSize rest sized =>
      unfold operandSize at sized
      split_ifs at sized
      all_goals
        cases sized
        simp
      all_goals omega

variable {rest : CScript} {vch : List UInt8}

theorem direct_push {pc : CScript} (read : getOp pc = some (opcode, vch, rest))
    (direct : opcode < opPushdata1) :
    pc = opcode :: (vch ++ rest) ∧ vch.length = opcode.toNat := by
  cases pc with
  | nil => cases read
  | cons first pc =>
    obtain rfl := getOp_head read
    have pushes : opcode ≤ opPushdata4 := UInt8.le_of_lt (UInt8.lt_trans direct (by decide))
    simp only [getOp, pushes, if_true, operandSize, direct] at read
    split at read
    case isTrue => cases read
    case isFalse enough =>
      cases read
      simp [List.take_append_drop]
      omega

theorem paysToKeyHash_iff {script pc : CScript} (length : script.length = 25)
    (shape : script = opDup :: opHash160 :: pc) (read : getOp pc = some (opcode, vch, rest)) :
    script.PaysToKeyHash ↔ opcode = 0x14 ∧ rest = [opEqualverify, opChecksig] := by
  subst shape
  constructor
  · rintro ⟨keyHash, sized, shape⟩
    have third : pc = 0x14 :: (keyHash ++ [opEqualverify, opChecksig]) := by simpa using shape
    have here : getOp pc = some (0x14, keyHash, [opEqualverify, opChecksig]) := by
      rw [third]
      simp [getOp, operandSize, sized, opPushdata4, opPushdata1]
    rw [here] at read
    cases read
    exact ⟨rfl, rfl⟩
  · rintro ⟨rfl, rfl⟩
    obtain ⟨third, sized⟩ := direct_push read (by decide)
    exact ⟨vch, sized, by simp [third]⟩

theorem normal_third {pc : CScript} (length : pc.length = 23)
    (read : getOp pc = some (opcode, vch, rest)) :
    normalFrom 3 rest = true ↔
      LooseThird opcode rest ∨ (opcode = 0x14 ∧ rest = [opEqualverify, opChecksig]) := by
  rw [normalFrom_three_iff]
  constructor
  · rintro (rfl | rfl | rfl)
    · exact .inl (.nothing opcode)
    · exact .inl (.equalverify opcode)
    · by_cases direct : opcode < opPushdata1
      · obtain ⟨rfl, sized⟩ := direct_push read direct
        have value : opcode.toNat = 20 := by
          simp at length
          omega
        exact .inr ⟨UInt8.toNat_inj.mp value, rfl⟩
      · exact .inl (.sized opcode (UInt8.not_lt.mp direct))
  · rintro (loose | ⟨_, rfl⟩)
    · cases loose with
      | nothing => exact .inl rfl
      | equalverify => exact .inr (.inl rfl)
      | sized => exact .inr (.inr rfl)
    · exact .inr (.inr rfl)

/-- A script is called a normal payment exactly if it pays to a key hash or is loose. -/
theorem isNormalPaymentScript_eq (script : CScript) :
    script.isNormalPaymentScript = true ↔ script.PaysToKeyHash ∨ script.Loose := by
  rw [isNormalPaymentScript_iff]
  constructor
  · rintro ⟨length, pc, rfl, normal⟩
    have left : pc.length = 23 := by simpa using length
    unfold nextOp at normal
    split at normal
    case h_1 =>
      have long := failedOp_length pc
      have short : (failedOp pc).length ≤ 2 := by
        rcases (normalFrom_three_iff (failedOp pc)).mp normal with ends | ends | ends <;>
          simp [ends]
      omega
    case h_2 opcode vch rest read =>
      rcases (normal_third left read).mp normal with loose | direct
      · exact .inr ⟨length, pc, opcode, vch, rest, rfl, read, loose⟩
      · exact .inl ((paysToKeyHash_iff length rfl read).mpr direct)
  · rintro (⟨keyHash, sized, rfl⟩ | ⟨length, pc, opcode, vch, rest, rfl, read, loose⟩)
    · have here : getOp (0x14 :: (keyHash ++ [opEqualverify, opChecksig])) =
          some (0x14, keyHash, [opEqualverify, opChecksig]) := by
        simp [getOp, operandSize, sized, opPushdata4, opPushdata1]
      refine ⟨by simp [sized], 0x14 :: (keyHash ++ [opEqualverify, opChecksig]), by simp, ?_⟩
      simp only [nextOp, here]
      exact (normalFrom_three_iff _).mpr (.inr (.inr rfl))
    · refine ⟨length, pc, rfl, ?_⟩
      have next : nextOp pc = (opcode, rest) := by simp [nextOp, read]
      rw [next]
      exact (normal_third (by simpa using length) read).mpr (.inl loose)

theorem Loose.not_paysToKeyHash {script : CScript} (loose : script.Loose) :
    ¬ script.PaysToKeyHash := by
  obtain ⟨length, pc, opcode, vch, rest, shape, read, third⟩ := loose
  rw [paysToKeyHash_iff length shape read]
  rintro ⟨rfl, rfl⟩
  cases third with
  | sized sizes => exact absurd sizes (by decide)

end CScript

/-- What `ix` asks of the outputs. -/
def CTransaction.scriptsNormal (tx : CTransaction) : Bool :=
  tx.vout.all fun o => o.scriptPubKey.isNormalPaymentScript || o.scriptPubKey.isUnspendable

/-- Every output pays to a key hash or is unspendable. -/
def CTransaction.PaysNormally (tx : CTransaction) : Prop :=
  ∀ o ∈ tx.vout, o.scriptPubKey.PaysToKeyHash ∨ o.scriptPubKey.isUnspendable = true

/-- The message `ix` is not turned away at once, given what its outputs are. -/
def SwiftState.admits (state : SwiftState) (context : IxContext) (tx : CTransaction) : Bool :=
  !state.ignores { context with scriptsNormal := tx.scriptsNormal } tx

theorem SwiftState.scriptsNormal_of_admits {state : SwiftState} {context : IxContext}
    {tx : CTransaction} (admitted : state.admits context tx = true) : tx.scriptsNormal = true := by
  by_contra abnormal
  simp [admits, ignores, abnormal] at admitted

/-- A node that is synced and has seen nothing yet. -/
def IxContext.ready : IxContext where
  active := true
  isIXTXValid := true
  scriptsNormal := true
  getInputAge := fun _ => 100
  tipHeight := 1000
  now := 0
  acceptToMemoryPool := true

theorem SwiftState.admits_ready {tx : CTransaction} (normal : tx.scriptsNormal = true) :
    SwiftState.admits {} IxContext.ready tx = true := by
  simp [admits, ignores, normal, IxContext.ready]

theorem CScript.Loose.not_isUnspendable {script : CScript} (loose : script.Loose) :
    script.isUnspendable = false := by
  obtain ⟨_, pc, _, _, _, rfl, _⟩ := loose
  rfl

/-- The outputs of every admitted transaction are as they should be exactly if none is loose,
or another one keeps the transaction out. -/
theorem admitted_paysNormally_iff (tx : CTransaction) :
    (∀ state context, SwiftState.admits state context tx = true → tx.PaysNormally) ↔
      (∀ o ∈ tx.vout, ¬ o.scriptPubKey.Loose) ∨
        ∃ o ∈ tx.vout, ¬ o.scriptPubKey.PaysToKeyHash ∧ ¬ o.scriptPubKey.Loose ∧
          o.scriptPubKey.isUnspendable = false := by
  have normal_iff : tx.scriptsNormal = true ↔ ∀ o ∈ tx.vout,
      (o.scriptPubKey.PaysToKeyHash ∨ o.scriptPubKey.Loose) ∨
        o.scriptPubKey.isUnspendable = true := by
    simp [CTransaction.scriptsNormal, CScript.isNormalPaymentScript_eq]
  constructor
  · intro pays
    by_contra fails
    simp only [not_or, not_forall, not_not, not_exists, not_and] at fails
    obtain ⟨⟨o, member, loose⟩, others⟩ := fails
    have normal : tx.scriptsNormal = true := normal_iff.mpr fun other there => by
      by_cases keyHash : other.scriptPubKey.PaysToKeyHash
      · exact .inl (.inl keyHash)
      by_cases slack : other.scriptPubKey.Loose
      · exact .inl (.inr slack)
      · exact .inr (Bool.eq_true_of_not_eq_false (others other there keyHash slack))
    rcases pays _ _ (SwiftState.admits_ready normal) o member with keyHash | unspendable
    · exact loose.not_paysToKeyHash keyHash
    · exact absurd unspendable (by simp [loose.not_isUnspendable])
  · intro condition state context admitted
    have normal := normal_iff.mp (SwiftState.scriptsNormal_of_admits admitted)
    rcases condition with tight | ⟨other, there, noKeyHash, tight, spendable⟩
    · intro o member
      rcases normal o member with (keyHash | loose) | unspendable
      · exact .inl keyHash
      · exact absurd loose (tight o member)
      · exact .inr unspendable
    · rcases normal other there with (keyHash | loose) | unspendable
      · exact absurd keyHash noKeyHash
      · exact absurd loose tight
      · exact absurd unspendable (by simp [spendable])

/-- Scripts that are called normal payments pay to a key hash, loose ones apart, and so do
the outputs that `ix` lets pass. -/
theorem normalPayment_exact_iff (script : CScript) (tx : CTransaction) :
    ((script.isNormalPaymentScript = true ↔ script.PaysToKeyHash) ↔ ¬ script.Loose) ∧
      ((∀ state context, SwiftState.admits state context tx = true → tx.PaysNormally) ↔
        (∀ o ∈ tx.vout, ¬ o.scriptPubKey.Loose) ∨
          ∃ o ∈ tx.vout, ¬ o.scriptPubKey.PaysToKeyHash ∧ ¬ o.scriptPubKey.Loose ∧
            o.scriptPubKey.isUnspendable = false) := by
  refine ⟨?_, admitted_paysNormally_iff tx⟩
  rw [CScript.isNormalPaymentScript_eq]
  constructor
  · intro same loose
    exact loose.not_paysToKeyHash (same.mp (.inr loose))
  · intro tight
    exact or_iff_left tight

/-- The third instruction pushes 22 bytes and ends the script. -/
def longPush : CScript := [opDup, opHash160, 0x16] ++ List.replicate 22 7

theorem longPush_loose : longPush.Loose :=
  ⟨rfl, _, 0x16, List.replicate 22 7, [], rfl, rfl, .nothing _⟩

theorem normalPayment_longPush :
    ¬ (longPush.isNormalPaymentScript = true ↔ longPush.PaysToKeyHash) ∧
      SwiftState.admits {} IxContext.ready { hash := 1, vin := [], vout := [⟨5, longPush⟩] } = true := by
  refine ⟨fun same => ?_, by decide +kernel⟩
  exact longPush_loose.not_paysToKeyHash (same.mp (by decide +kernel))

end CentNode
