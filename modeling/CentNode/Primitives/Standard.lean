import CentNode.Primitives.Transaction

/-!
# Standard scripts

`CScript::GetOp2` of `script/script.h` and `Solver` of `script/standard.cpp`,
with the reads of vectors by index kept apart from the answers.
-/

namespace CentNode

open List Option

/-! ## Opcodes -/

def opPushdata1 : UInt8 := 0x4c

def opPushdata2 : UInt8 := 0x4d

def opPushdata4 : UInt8 := 0x4e

def opN1 : UInt8 := 0x51

def opN16 : UInt8 := 0x60

def opReturn : UInt8 := 0x6a

def opDup : UInt8 := 0x76

def opEqual : UInt8 := 0x87

def opEqualverify : UInt8 := 0x88

def opHash160 : UInt8 := 0xa9

def opChecksig : UInt8 := 0xac

def opCheckmultisig : UInt8 := 0xae

/-- Template matching opcodes, which stand for operands. -/
def opSmallinteger : UInt8 := 0xfa

def opPubkeys : UInt8 := 0xfb

def opPubkeyhash : UInt8 := 0xfd

def opPubkey : UInt8 := 0xfe

def opInvalidopcode : UInt8 := 0xff

namespace CScript

/-- How many bytes give the size of the operand of a push opcode. -/
def sizeWidth (opcode : UInt8) : Nat :=
  if opcode = opPushdata1 then 1 else if opcode = opPushdata2 then 2 else 4

/-- The size of an immediate operand and the script after it. -/
def operandSize (opcode : UInt8) (pc : CScript) : Option (Nat × CScript) :=
  if opcode < opPushdata1 then some (opcode.toNat, pc)
  else if pc.length < sizeWidth opcode then none
  else
    -- `memcpy` into an unsigned int, least significant byte first
    some ((pc.take (sizeWidth opcode)).foldr (fun byte high => byte.toNat + 256 * high) 0,
      pc.drop (sizeWidth opcode))

/-- `GetOp2`: the opcode, its operand and the script after it. -/
def getOp : CScript → Option (UInt8 × List UInt8 × CScript)
  | [] => none
  | opcode :: pc =>
    if opcode ≤ opPushdata4 then
      match operandSize opcode pc with
      | none => none
      | some (nSize, pc) =>
        if pc.length < nSize then none else some (opcode, pc.take nSize, pc.drop nSize)
    else some (opcode, [], pc)

theorem operandSize_le {opcode : UInt8} {pc rest : CScript} {nSize : Nat}
    (sized : operandSize opcode pc = some (nSize, rest)) : rest.length ≤ pc.length := by
  unfold operandSize at sized
  split at sized
  · cases sized
    exact Nat.le_refl _
  · split at sized
    · cases sized
    · cases sized
      exact length_drop ▸ Nat.sub_le _ _

theorem getOp_length_lt {script rest : CScript} {opcode : UInt8} {vch : List UInt8}
    (read : getOp script = some (opcode, vch, rest)) : rest.length < script.length := by
  cases script with
  | nil => cases read
  | cons first pc =>
    rw [getOp] at read
    split at read
    · split at read
      · cases read
      · next nSize after sized =>
          split at read
          · cases read
          · cases read
            have shorter := operandSize_le sized
            rw [length_drop, length_cons]
            omega
    · cases read
      exact Nat.lt_succ_self _

/-- `IsPushOnly` from an iterator on. -/
def isPushOnly (pc : CScript) : Bool :=
  if pc.isEmpty then true
  else
    match read : getOp pc with
    | none => false
    | some (opcode, _, rest) =>
      have := getOp_length_lt read
      if opcode > opN16 then false else isPushOnly rest
termination_by pc.length

def isPayToScriptHash (script : CScript) : Bool :=
  decide (script.length = 23) && script[0]? == some opHash160 && script[1]? == some 0x14 &&
    script[22]? == some opEqual

end CScript

/-! ## Templates -/

inductive Txnouttype where
  | nonstandard
  | pubkey
  | pubkeyhash
  | scripthash
  | multisig
  | nullData
  deriving DecidableEq, Repr

/-- `mTemplates`, in the order of the types. -/
def mTemplates : List (Txnouttype × CScript) :=
  [(.pubkey, [opPubkey, opChecksig]),
    (.pubkeyhash, [opDup, opHash160, opPubkeyhash, opEqualverify, opChecksig]),
    (.multisig, [opSmallinteger, opPubkeys, opSmallinteger, opCheckmultisig])]

def decodeOPN (opcode : UInt8) : UInt8 := if opcode = 0 then 0 else opcode - (opN1 - 1)

/-- One opcode of a template against one of the script; the solutions grow by an operand. -/
def matchOp (opcode2 opcode1 : UInt8) (vch1 : List UInt8) (vSolutions : List (List UInt8)) :
    Option (List (List UInt8)) :=
  if opcode2 = opPubkey then
    if vch1.length < 33 ∨ vch1.length > 65 then none else some (vSolutions ++ [vch1])
  else if opcode2 = opPubkeyhash then if vch1.length ≠ 20 then none else some (vSolutions ++ [vch1])
  else if opcode2 = opSmallinteger then
    if opcode1 = 0 ∨ (opN1 ≤ opcode1 ∧ opcode1 ≤ opN16) then
      some (vSolutions ++ [[decodeOPN opcode1]])
    else none
  else if opcode1 ≠ opcode2 ∨ vch1 ≠ [] then none
  else some vSolutions

/-- The loop for `OP_PUBKEYS`: operands of the size of a key, up to the first other one. -/
def takePubkeys (opcode1 : UInt8) (vch1 : List UInt8) (pc1 : CScript)
    (vSolutions : List (List UInt8)) : UInt8 × List UInt8 × CScript × List (List UInt8) :=
  if 33 ≤ vch1.length ∧ vch1.length ≤ 65 then
    match read : CScript.getOp pc1 with
    | none => (opInvalidopcode, [], pc1, vSolutions ++ [vch1])
    | some (opcode, vch, rest) =>
      have := CScript.getOp_length_lt read
      takePubkeys opcode vch rest (vSolutions ++ [vch1])
  else (opcode1, vch1, pc1, vSolutions)
termination_by pc1.length

/-- A script against a template; `none` where the comparison breaks off.  The templates
have no operands of their own, so that their opcodes are their bytes. -/
def matchTemplate : CScript → CScript → List (List UInt8) → Option (List (List UInt8))
  | [], script1, vSolutions => if script1.isEmpty then some vSolutions else none
  | opcode2 :: rest2, script1, vSolutions =>
    match CScript.getOp script1 with
    | none => none
    | some (opcode1, vch1, pc1) =>
      if opcode2 = opPubkeys then
        let after := takePubkeys opcode1 vch1 pc1 vSolutions
        match rest2 with
        | [] => none
        | next2 :: later2 =>
          match matchOp next2 after.1 after.2.1 after.2.2.2 with
          | none => none
          | some grown => matchTemplate later2 after.2.2.1 grown
      else
        match matchOp opcode2 opcode1 vch1 vSolutions with
        | none => none
        | some grown => matchTemplate rest2 pc1 grown

/-- What `Solver` returns and writes. -/
structure Solved where
  found : Bool
  typeRet : Txnouttype
  vSolutions : List (List UInt8)
  deriving DecidableEq, Repr

/-- The additional checks for `TX_MULTISIG`, which read the first byte of the first and of
the last solution; `none` where there is none. -/
def multisigValid (vSolutions : List (List UInt8)) : Option Bool := do
  let front ← vSolutions.head?
  let back ← vSolutions.getLast?
  let m ← front[0]?
  let n ← back[0]?
  return !(decide (m < 1) || decide (n < 1) || decide (m > n) ||
    decide ((vSolutions.length : Int) - 2 ≠ n.toNat))

def scanTemplates (script1 : CScript) : List (Txnouttype × CScript) → Option Solved
  | [] => some ⟨false, .nonstandard, []⟩
  | (type, template) :: rest =>
    match matchTemplate template script1 [] with
    | none => scanTemplates script1 rest
    | some vSolutions =>
      if type = .multisig then (multisigValid vSolutions).map fun valid => ⟨valid, type, vSolutions⟩
      else some ⟨true, type, vSolutions⟩

/-- `Solver`; `none` where a vector is read outside its bounds. -/
def solver (scriptPubKey : CScript) : Option Solved :=
  if scriptPubKey.isPayToScriptHash then some ⟨true, .scripthash, [(scriptPubKey.drop 2).take 20]⟩
  else if scriptPubKey.head? = some opReturn && CScript.isPushOnly scriptPubKey.tail then
    some ⟨true, .nullData, []⟩
  else scanTemplates scriptPubKey mTemplates

/-! ## The solutions -/

/-- Opcodes of a template that push a solution. -/
def isOperand (opcode2 : UInt8) : Bool :=
  opcode2 = opPubkey || opcode2 = opPubkeyhash || opcode2 = opSmallinteger

/-- Solutions that can be read at their first byte. -/
def Readable (vSolutions : List (List UInt8)) : Prop := ∀ vch ∈ vSolutions, vch ≠ []

variable {vSolutions : List (List UInt8)}

theorem Readable.append {vch : List UInt8} (readable : Readable vSolutions) (filled : vch ≠ []) :
    Readable (vSolutions ++ [vch]) := by
  intro other member
  rcases mem_append.mp member with old | new
  · exact readable other old
  · rw [mem_singleton.mp new]
    exact filled

variable {opcode2 opcode1 : UInt8} {vch1 : List UInt8} {result : List (List UInt8)}

theorem matchOp_cases (matched : matchOp opcode2 opcode1 vch1 vSolutions = some result) :
    (∃ vch, vch ≠ [] ∧ result = vSolutions ++ [vch]) ∨
      (isOperand opcode2 = false ∧ result = vSolutions) := by
  unfold matchOp at matched
  split at matched
  · split at matched
    · cases matched
    · next sized =>
        cases matched
        exact Or.inl ⟨vch1, by rintro rfl; exact sized (Or.inl (by decide)), rfl⟩
  · split at matched
    · split at matched
      · cases matched
      · next sized =>
          cases matched
          exact Or.inl ⟨vch1, by rintro rfl; exact sized (by decide), rfl⟩
    · split at matched
      · split at matched
        · cases matched
          exact Or.inl ⟨_, cons_ne_nil _ _, rfl⟩
        · cases matched
      · next notKey notHash notNumber =>
          split at matched
          · cases matched
          · cases matched
            exact Or.inr ⟨by simp [isOperand, notKey, notHash, notNumber], rfl⟩

theorem takePubkeys_readable (opcode1 : UInt8) (vch1 : List UInt8) (pc1 : CScript)
    (vSolutions : List (List UInt8)) (readable : Readable vSolutions) :
    Readable (takePubkeys opcode1 vch1 pc1 vSolutions).2.2.2 ∧
      vSolutions.length ≤ (takePubkeys opcode1 vch1 pc1 vSolutions).2.2.2.length := by
  fun_induction takePubkeys opcode1 vch1 pc1 vSolutions with
  | case1 opcode1 vch1 pc1 vSolutions sized _ =>
    refine ⟨readable.append ?_, by simp⟩
    rintro rfl
    exact absurd sized.1 (by decide)
  | case2 opcode1 vch1 pc1 vSolutions sized opcode vch rest _ _ ih =>
    obtain ⟨keeps, grows⟩ := ih (readable.append (by rintro rfl; exact absurd sized.1 (by decide)))
    exact ⟨keeps, Nat.le_trans (by simp) grows⟩
  | case3 => exact ⟨readable, Nat.le_refl _⟩

theorem readable_after_matchOp {rest2 : CScript} {grown : List (List UInt8)}
    (readable : Readable vSolutions)
    (matched : matchOp opcode2 opcode1 vch1 vSolutions = some grown)
    (later : Readable grown → Readable result ∧ grown.length ≤ result.length ∧
      (rest2.any isOperand = true → result ≠ [])) :
    Readable result ∧ vSolutions.length ≤ result.length ∧
      ((opcode2 :: rest2).any isOperand = true → result ≠ []) := by
  rcases matchOp_cases matched with ⟨vch, filled, rfl⟩ | ⟨plain, rfl⟩
  · obtain ⟨keeps, grows, _⟩ := later (readable.append filled)
    rw [length_append, length_singleton] at grows
    refine ⟨keeps, by omega, ?_⟩
    rintro - rfl
    exact absurd grows (by simp)
  · obtain ⟨keeps, grows, operands⟩ := later readable
    refine ⟨keeps, grows, fun some_operand => operands ?_⟩
    rw [any_cons, plain, Bool.false_or] at some_operand
    exact some_operand

variable {script1 : CScript}

theorem matchTemplate_readable {template : CScript} (readable : Readable vSolutions)
    (matched : matchTemplate template script1 vSolutions = some result) :
    Readable result ∧ vSolutions.length ≤ result.length ∧
      (template.any isOperand = true → result ≠ []) := by
  fun_induction matchTemplate template script1 vSolutions with
  | case1 script1 vSolutions _ =>
    cases matched
    exact ⟨readable, Nat.le_refl _, fun impossible => (nomatch impossible)⟩
  | case2 => cases matched
  | case3 => cases matched
  | case4 => cases matched
  | case5 => cases matched
  | case6 script1 vSolutions opcode1 vch1 pc1 _ after next2 later2 grown here ih =>
    obtain ⟨keeps, grows⟩ := takePubkeys_readable opcode1 vch1 pc1 vSolutions readable
    obtain ⟨readableResult, longer, operands⟩ :=
      readable_after_matchOp keeps here fun more => ih more matched
    exact ⟨readableResult, Nat.le_trans grows longer, operands⟩
  | case7 => cases matched
  | case8 opcode2 rest2 script1 vSolutions opcode1 vch1 pc1 _ _ grown here ih =>
    exact readable_after_matchOp readable here fun more => ih more matched

/-- The reads of `TX_MULTISIG` are inside the solutions. -/
theorem multisigValid_isSome (readable : Readable vSolutions) (filled : vSolutions ≠ []) :
    (multisigValid vSolutions).isSome = true := by
  obtain ⟨front, rest, shape⟩ := exists_cons_of_ne_nil filled
  have last := getLast?_eq_some_getLast filled
  have frontFilled : front ≠ [] := readable front (by rw [shape]; exact mem_cons_self)
  have backFilled := readable _ (getLast_mem filled)
  have firstByte : ∀ vch : List UInt8, vch ≠ [] → ∃ byte, vch[0]? = some byte := by
    intro vch nonempty
    obtain ⟨byte, _, rfl⟩ := exists_cons_of_ne_nil nonempty
    exact ⟨byte, rfl⟩
  obtain ⟨m, frontByte⟩ := firstByte _ frontFilled
  obtain ⟨n, backByte⟩ := firstByte _ backFilled
  have head : vSolutions.head? = some front := by rw [shape]; rfl
  simp [multisigValid, head, last, frontByte, backByte]

theorem scanTemplates_spec {templates : List (Txnouttype × CScript)}
    (operands : ∀ template ∈ templates, template.2.any isOperand = true) :
    ∃ solved, scanTemplates script1 templates = some solved ∧
      (solved.found = true → solved.vSolutions ≠ []) := by
  induction templates with
  | nil => exact ⟨_, rfl, fun impossible => (nomatch impossible)⟩
  | cons head rest ih =>
    obtain ⟨type, template⟩ := head
    rw [scanTemplates]
    cases matched : matchTemplate template script1 [] with
    | none => exact ih fun other member => operands other (mem_cons_of_mem _ member)
    | some vSolutions =>
      have empty : Readable [] := fun vch impossible => (nomatch impossible)
      obtain ⟨readable, _, filled⟩ := matchTemplate_readable empty matched
      have nonempty := filled (operands _ mem_cons_self)
      dsimp only
      split
      · obtain ⟨valid, checked⟩ := isSome_iff_exists.mp (multisigValid_isSome readable nonempty)
        rw [checked]
        exact ⟨_, rfl, fun _ => nonempty⟩
      · exact ⟨_, rfl, fun _ => nonempty⟩

/-- `Solver` reads no vector outside its bounds, and for a key or a hash of a key there is
a solution. -/
theorem solver_spec (scriptPubKey : CScript) :
    ∃ solved, solver scriptPubKey = some solved ∧
      (solved.found = true → solved.typeRet ≠ .nullData → solved.vSolutions ≠ []) := by
  unfold solver
  split
  · exact ⟨_, rfl, fun _ _ => cons_ne_nil _ _⟩
  · split
    · exact ⟨_, rfl, fun _ other => absurd rfl other⟩
    · obtain ⟨solved, scanned, filled⟩ :
          ∃ solved, scanTemplates scriptPubKey mTemplates = some solved ∧
            (solved.found = true → solved.vSolutions ≠ []) :=
        scanTemplates_spec (by decide)
      exact ⟨solved, scanned, fun found _ => filled found⟩

/-! `Solver` returns one solution for each operand of the template that matches.  For a key it
has the size of a key, for the hash of a key that of a hash. -/

/-- What a template asks of the operand at one of its opcodes. -/
structure FitsOperand (opcode2 : UInt8) (vch : List UInt8) : Prop where
  pubkey : opcode2 = opPubkey → 33 ≤ vch.length ∧ vch.length ≤ 65
  pubkeyhash : opcode2 = opPubkeyhash → vch.length = 20

theorem matchOp_fits (matched : matchOp opcode2 opcode1 vch1 vSolutions = some result) :
    (∃ vch, isOperand opcode2 = true ∧ result = vSolutions ++ [vch] ∧ FitsOperand opcode2 vch) ∨
      (isOperand opcode2 = false ∧ result = vSolutions) := by
  unfold matchOp at matched
  by_cases key : opcode2 = opPubkey
  · rw [if_pos key] at matched
    split at matched
    · cases matched
    · next sized =>
        cases matched
        refine .inl ⟨vch1, by rw [key]; rfl, rfl, fun _ => by omega, fun hash => ?_⟩
        exact absurd (key.symm.trans hash) (by decide)
  rw [if_neg key] at matched
  by_cases hash : opcode2 = opPubkeyhash
  · rw [if_pos hash] at matched
    split at matched
    · cases matched
    · next sized =>
        cases matched
        exact .inl ⟨vch1, by rw [hash]; rfl, rfl, fun other => absurd other key,
          fun _ => Decidable.not_not.mp sized⟩
  rw [if_neg hash] at matched
  by_cases number : opcode2 = opSmallinteger
  · rw [if_pos number] at matched
    split at matched
    · cases matched
      exact .inl ⟨_, by rw [number]; rfl, rfl, fun other => absurd other key,
        fun other => absurd other hash⟩
    · cases matched
  rw [if_neg number] at matched
  split at matched
  · cases matched
  · cases matched
    refine .inr ⟨?_, rfl⟩
    unfold isOperand
    rw [decide_eq_false key, decide_eq_false hash, decide_eq_false number]
    rfl

/-- A template of single operands gives a solution for each of them, in order. -/
theorem matchTemplate_fits {template : CScript} (single : opPubkeys ∉ template)
    (matched : matchTemplate template script1 vSolutions = some result) :
    ∃ solutions, result = vSolutions ++ solutions ∧
      List.Forall₂ FitsOperand (template.filter isOperand) solutions := by
  induction template generalizing script1 vSolutions with
  | nil =>
    rw [matchTemplate] at matched
    split at matched
    · cases matched
      exact ⟨[], (append_nil _).symm, .nil⟩
    · cases matched
  | cons opcode2 rest2 ih =>
    have other : opcode2 ≠ opPubkeys := fun same => single (same ▸ mem_cons_self)
    rw [matchTemplate] at matched
    split at matched
    · cases matched
    · rw [if_neg other] at matched
      split at matched
      · cases matched
      · next grown here =>
          obtain ⟨solutions, result_eq, fits⟩ :=
            ih (fun member => single (mem_cons_of_mem _ member)) matched
          rcases matchOp_fits here with ⟨vch, operand, rfl, fit⟩ | ⟨plain, rfl⟩
          · refine ⟨vch :: solutions, ?_, ?_⟩
            · rw [result_eq, append_assoc]
              rfl
            · rw [filter_cons_of_pos operand]
              exact .cons fit fits
          · refine ⟨solutions, result_eq, ?_⟩
            rw [filter_cons_of_neg (by rw [plain]; exact Bool.false_ne_true)]
            exact fits

/-- The types with one operand and the opcode that stands for it. -/
inductive SingleOperand : Txnouttype → UInt8 → Prop
  | pubkey : SingleOperand .pubkey opPubkey
  | pubkeyhash : SingleOperand .pubkeyhash opPubkeyhash

/-- The solution of a script that pays to a key, or to the hash of one. -/
theorem solver_fits {scriptPubKey : CScript} {solved : Solved}
    (ran : solver scriptPubKey = some solved) (found : solved.found = true)
    (type : SingleOperand solved.typeRet opcode2) :
    ∃ vch, solved.vSolutions = [vch] ∧ FitsOperand opcode2 vch := by
  -- a template of one operand
  have one : ∀ {template : CScript} {vSolutions : List (List UInt8)}, opPubkeys ∉ template →
      template.filter isOperand = [opcode2] →
        matchTemplate template scriptPubKey [] = some vSolutions →
          ∃ vch, vSolutions = [vch] ∧ FitsOperand opcode2 vch := by
    intro template vSolutions single operand matched
    obtain ⟨solutions, rfl, fits⟩ := matchTemplate_fits single matched
    rw [operand] at fits
    cases fits with
    | cons fit nothing =>
      cases nothing
      exact ⟨_, rfl, fit⟩
  unfold solver at ran
  split at ran
  · cases ran
    cases type
  split at ran
  · cases ran
    cases type
  unfold mTemplates at ran
  rw [scanTemplates] at ran
  split at ran
  · rw [scanTemplates] at ran
    split at ran
    · rw [scanTemplates] at ran
      split at ran
      · rw [scanTemplates] at ran
        cases ran
        cases found
      · rw [if_pos rfl] at ran
        obtain ⟨_, _, rfl⟩ := map_eq_some_iff.mp ran
        cases type
    · next matched =>
        rw [if_neg (by decide)] at ran
        cases ran
        cases type
        exact one (by decide) (by decide) matched
  · next matched =>
      rw [if_neg (by decide)] at ran
      cases ran
      cases type
      exact one (by decide) (by decide) matched

end CentNode
