import CentNode.Script.Instructions

/-!
# The forms of standard scripts

`Solver` finds a type and solutions for exactly the scripts that parse as one of five
forms.  A script has at most one of them.
-/

namespace CentNode

open List Option

/-! ## Parsing -/

/-- `GetOp` reads these opcodes and operands one after another, up to another script. -/
def ReadsAs : CScript → List (UInt8 × List UInt8) → CScript → Prop
  | script, [], rest => script = rest
  | script, (opcode, vch) :: later, rest =>
    ∃ next, CScript.getOp script = some (opcode, vch, next) ∧ ReadsAs next later rest

/-- A script is these opcodes and operands. -/
def ParsesAs (script : CScript) (parts : List (UInt8 × List UInt8)) : Prop :=
  ReadsAs script parts []

variable {script rest : CScript} {first second : List (UInt8 × List UInt8)}

theorem ReadsAs.append {middle : CScript} (before : ReadsAs script first middle)
    (after : ReadsAs middle second rest) : ReadsAs script (first ++ second) rest := by
  induction first generalizing script with
  | nil =>
    cases before
    exact after
  | cons part later ih =>
    obtain ⟨next, read, more⟩ := before
    exact ⟨next, read, ih more⟩

theorem ReadsAs.split (reads : ReadsAs script (first ++ second) rest) :
    ∃ middle, ReadsAs script first middle ∧ ReadsAs middle second rest := by
  induction first generalizing script with
  | nil => exact ⟨script, rfl, reads⟩
  | cons part later ih =>
    obtain ⟨next, read, more⟩ := reads
    obtain ⟨middle, before, after⟩ := ih more
    exact ⟨middle, ⟨next, read, before⟩, after⟩

namespace CScript

variable {script rest : CScript} {opcode : UInt8} {vch : List UInt8}

theorem getOp_head? (read : getOp script = some (opcode, vch, rest)) :
    script.head? = some opcode := by
  cases script with
  | nil => cases read
  | cons first pc => simp [getOp_head read]

theorem getOp_plain (plain : opPushdata4 < opcode) :
    getOp script = some (opcode, vch, rest) ↔ script = opcode :: rest ∧ vch = [] := by
  have notPush : ¬ opcode ≤ opPushdata4 := UInt8.not_le.mpr plain
  constructor
  · intro read
    cases script with
    | nil => cases read
    | cons first pc =>
      cases getOp_head read
      simp only [getOp, notPush, if_false, Option.some.injEq, Prod.mk.injEq, true_and] at read
      obtain ⟨rfl, rfl⟩ := read
      exact ⟨rfl, rfl⟩
  · rintro ⟨rfl, rfl⟩
    simp [getOp, notPush]

theorem getOp_operand (read : getOp script = some (opcode, vch, rest)) (filled : vch ≠ []) :
    opcode ≤ opPushdata4 ∧ opcode ≠ 0 := by
  constructor
  · by_contra plain
    exact filled ((getOp_plain (UInt8.not_le.mp plain)).mp read).2
  · rintro rfl
    cases script with
    | nil => cases read
    | cons first pc =>
      cases getOp_head read
      have shape : getOp ((0 : UInt8) :: pc) = some (0, [], pc) := by
        simp [getOp, operandSize, opPushdata1, opPushdata4]
      rw [shape] at read
      cases read
      exact filled rfl

/-- `IsPushOnly` holds of the scripts that parse as pushes. -/
theorem isPushOnly_iff :
    isPushOnly script = true ↔
      ∃ parts, ParsesAs script parts ∧ ∀ part ∈ parts, part.1 ≤ opN16 := by
  constructor
  · intro pushes
    fun_induction isPushOnly script with
    | case1 script empty => exact ⟨[], List.isEmpty_iff.mp empty, by simp⟩
    | case2 => cases pushes
    | case3 => cases pushes
    | case4 script _ opcode vch rest read _ low ih =>
      obtain ⟨parts, parsed, small⟩ := ih pushes
      exact ⟨(opcode, vch) :: parts, ⟨rest, read, parsed⟩,
        forall_mem_cons.mpr ⟨UInt8.not_lt.mp low, small⟩⟩
  · rintro ⟨parts, parsed, small⟩
    induction parts generalizing script with
    | nil =>
      cases parsed
      simp [isPushOnly]
    | cons part later ih =>
      obtain ⟨next, read, more⟩ := parsed
      have low : ¬ part.1 > opN16 := UInt8.not_lt.mpr (small part mem_cons_self)
      have after := ih more fun other member => small other (mem_cons_of_mem _ member)
      have filled : script.isEmpty = false := by
        cases script with
        | nil => cases read
        | cons => rfl
      unfold isPushOnly
      rw [filled, if_neg Bool.false_ne_true]
      split
      case h_1 unread => cases unread.symm.trans read
      case h_2 read' =>
        cases read'.symm.trans read
        rw [if_neg low]
        exact after

theorem isPayToScriptHash_iff :
    script.isPayToScriptHash = true ↔
      ∃ hash, hash.length = 20 ∧ script = opHash160 :: 0x14 :: (hash ++ [opEqual]) := by
  constructor
  · intro isHash
    simp only [isPayToScriptHash, Bool.and_eq_true, decide_eq_true_eq, beq_iff_eq] at isHash
    obtain ⟨⟨⟨sized, first⟩, second⟩, last⟩ := isHash
    match script, sized with
    | a :: b :: rest, sized =>
      cases first
      cases second
      have length : rest.length = 21 := by simpa using sized
      refine ⟨rest.take 20, by simp [length], ?_⟩
      have final : rest.drop 20 = [opEqual] := by
        have ends : rest[20]? = some opEqual := last
        have short : (rest.drop 20).length = 1 := by simp [length]
        obtain ⟨byte, shape⟩ := length_eq_one_iff.mp short
        have read : (rest.drop 20)[0]? = some opEqual := by simpa using ends
        rw [shape] at read ⊢
        simpa using read
      rw [← final, take_append_drop]
  · rintro ⟨hash, sized, rfl⟩
    simp [isPayToScriptHash, sized]

end CScript

open CScript

/-! ## The forms -/

/-- `EncodeOP_N`; `none` where the assertion fails. -/
def encodeOPN (n : Int) : Option UInt8 :=
  if 0 ≤ n ∧ n ≤ 16 then if n = 0 then some 0 else some (opN1 + UInt8.ofNat n.toNat - 1)
  else none

/-- The size of a public key, as the templates ask for it. -/
def KeySized (vch : List UInt8) : Prop := 33 ≤ vch.length ∧ vch.length ≤ 65

instance (vch : List UInt8) : Decidable (KeySized vch) := inferInstanceAs (Decidable (_ ∧ _))

/-- The forms of a standard script, with the type and the solutions of each. -/
inductive StandardForm : CScript → Txnouttype → List (List UInt8) → Prop
  | pubkey {script : CScript} {push : UInt8} {key : List UInt8} :
      KeySized key → ParsesAs script [(push, key), (opChecksig, [])] →
        StandardForm script .pubkey [key]
  | pubkeyhash {script : CScript} {push : UInt8} {hash : List UInt8} :
      hash.length = 20 →
        ParsesAs script [(opDup, []), (opHash160, []), (push, hash), (opEqualverify, []),
          (opChecksig, [])] →
          StandardForm script .pubkeyhash [hash]
  | scripthash {hash : List UInt8} :
      hash.length = 20 → StandardForm (opHash160 :: 0x14 :: (hash ++ [opEqual])) .scripthash [hash]
  | multisig {script : CScript} {m n : Nat} {opM opN : UInt8}
      {pushes : List (UInt8 × List UInt8)} :
      1 ≤ m → m ≤ n → n ≤ 16 → encodeOPN m = some opM → encodeOPN n = some opN →
        pushes.length = n → (∀ push ∈ pushes, KeySized push.2) →
          ParsesAs script
            ((opM, []) :: (pushes ++ [(opN, []), (opCheckmultisig, [])])) →
            StandardForm script .multisig
              ([UInt8.ofNat m] :: (pushes.map Prod.snd ++ [[UInt8.ofNat n]]))
  | nullData {data : CScript} {parts : List (UInt8 × List UInt8)} :
      ParsesAs data parts → (∀ part ∈ parts, part.1 ≤ opN16) →
        StandardForm (opReturn :: data) .nullData []

/-! ## One template -/

variable {opcode1 : UInt8} {vch1 : List UInt8} {vSolutions grown : List (List UInt8)}

theorem matchOp_pubkey :
    matchOp opPubkey opcode1 vch1 vSolutions = some grown ↔
      KeySized vch1 ∧ vSolutions ++ [vch1] = grown := by
  simp [matchOp, KeySized]

theorem matchOp_pubkeyhash :
    matchOp opPubkeyhash opcode1 vch1 vSolutions = some grown ↔
      vch1.length = 20 ∧ vSolutions ++ [vch1] = grown := by
  have other : opPubkeyhash ≠ opPubkey := by decide
  simp [matchOp, other]

theorem matchOp_smallinteger :
    matchOp opSmallinteger opcode1 vch1 vSolutions = some grown ↔
      (opcode1 = 0 ∨ (opN1 ≤ opcode1 ∧ opcode1 ≤ opN16)) ∧
        vSolutions ++ [[decodeOPN opcode1]] = grown := by
  have notKey : opSmallinteger ≠ opPubkey := by decide
  have notHash : opSmallinteger ≠ opPubkeyhash := by decide
  simp [matchOp, notKey, notHash]

theorem matchOp_same {opcode2 : UInt8} (plain : isOperand opcode2 = false) :
    matchOp opcode2 opcode1 vch1 vSolutions = some grown ↔
      opcode1 = opcode2 ∧ vch1 = [] ∧ vSolutions = grown := by
  simp only [isOperand, Bool.or_eq_false_iff, decide_eq_false_iff_not] at plain
  simp [matchOp, plain, and_assoc]

variable {result : List (List UInt8)}

theorem matchTemplate_nil :
    matchTemplate [] script vSolutions = some result ↔ script = [] ∧ vSolutions = result := by
  simp [matchTemplate]

theorem matchTemplate_cons {opcode2 : UInt8} {rest2 : CScript} (single : opcode2 ≠ opPubkeys) :
    matchTemplate (opcode2 :: rest2) script vSolutions = some result ↔
      ∃ opcode1 vch1 next grown, getOp script = some (opcode1, vch1, next) ∧
        matchOp opcode2 opcode1 vch1 vSolutions = some grown ∧
          matchTemplate rest2 next grown = some result := by
  rw [matchTemplate]
  cases read : getOp script with
  | none => simp
  | some part =>
    obtain ⟨opcode1, vch1, next⟩ := part
    cases here : matchOp opcode2 opcode1 vch1 vSolutions with
    | none => simp [single, here]
    | some grown => simp [single, here]

theorem matchTemplate_pubkey :
    matchTemplate [opPubkey, opChecksig] script [] = some result ↔
      ∃ push key, KeySized key ∧ ParsesAs script [(push, key), (opChecksig, [])] ∧
        [key] = result := by
  have plain : isOperand opChecksig = false := by decide
  simp only [matchTemplate_cons (show opPubkey ≠ opPubkeys by decide),
    matchTemplate_cons (show opChecksig ≠ opPubkeys by decide), matchOp_pubkey,
    matchOp_same plain, matchTemplate_nil, ParsesAs, ReadsAs]
  constructor
  · rintro ⟨push, key, next, _, read, ⟨sized, rfl⟩, _, _, _, _, last, ⟨rfl, rfl, rfl⟩, rfl, rfl⟩
    exact ⟨push, key, sized, ⟨next, read, _, last, rfl⟩, rfl⟩
  · rintro ⟨push, key, sized, ⟨next, read, _, last, rfl⟩, rfl⟩
    exact ⟨push, key, next, _, read, ⟨sized, rfl⟩, _, _, _, _, last, ⟨rfl, rfl, rfl⟩, rfl, rfl⟩

theorem matchTemplate_pubkeyhash :
    matchTemplate [opDup, opHash160, opPubkeyhash, opEqualverify, opChecksig] script [] =
        some result ↔
      ∃ push hash, hash.length = 20 ∧
        ParsesAs script [(opDup, []), (opHash160, []), (push, hash), (opEqualverify, []),
          (opChecksig, [])] ∧ [hash] = result := by
  have dup : isOperand opDup = false := by decide
  have hash160 : isOperand opHash160 = false := by decide
  have equalverify : isOperand opEqualverify = false := by decide
  have checksig : isOperand opChecksig = false := by decide
  simp only [matchTemplate_cons (show opDup ≠ opPubkeys by decide),
    matchTemplate_cons (show opHash160 ≠ opPubkeys by decide),
    matchTemplate_cons (show opPubkeyhash ≠ opPubkeys by decide),
    matchTemplate_cons (show opEqualverify ≠ opPubkeys by decide),
    matchTemplate_cons (show opChecksig ≠ opPubkeys by decide), matchOp_pubkeyhash,
    matchOp_same dup, matchOp_same hash160, matchOp_same equalverify, matchOp_same checksig,
    matchTemplate_nil, ParsesAs, ReadsAs]
  constructor
  · rintro ⟨_, _, a, _, first, ⟨rfl, rfl, rfl⟩, _, _, b, _, second, ⟨rfl, rfl, rfl⟩, push, hash, c,
      _, third, ⟨sized, rfl⟩, _, _, d, _, fourth, ⟨rfl, rfl, rfl⟩, _, _, _, _, fifth,
      ⟨rfl, rfl, rfl⟩, rfl, rfl⟩
    exact ⟨push, hash, sized, ⟨a, first, b, second, c, third, d, fourth, _, fifth, rfl⟩, rfl⟩
  · rintro ⟨push, hash, sized, ⟨a, first, b, second, c, third, d, fourth, _, fifth, rfl⟩, rfl⟩
    exact ⟨_, _, a, _, first, ⟨rfl, rfl, rfl⟩, _, _, b, _, second, ⟨rfl, rfl, rfl⟩, push, hash, c,
      _, third, ⟨sized, rfl⟩, _, _, d, _, fourth, ⟨rfl, rfl, rfl⟩, _, _, _, _, fifth,
      ⟨rfl, rfl, rfl⟩, rfl, rfl⟩

/-! ## The template of several keys -/

/-- The loop for the keys reads pushes of keys, and then the first other instruction, if
there is one. -/
theorem takePubkeys_reads {opcode1 : UInt8} {vch1 : List UInt8} {pc1 script : CScript}
    {vSolutions : List (List UInt8)}
    (read : getOp script = some (opcode1, vch1, pc1)) :
    ∃ pushes, (∀ push ∈ pushes, KeySized push.2) ∧
      (takePubkeys opcode1 vch1 pc1 vSolutions).2.2.2 = vSolutions ++ pushes.map Prod.snd ∧
        ((takePubkeys opcode1 vch1 pc1 vSolutions).1 = opInvalidopcode ∨
          ∃ middle, ReadsAs script pushes middle ∧
            getOp middle = some ((takePubkeys opcode1 vch1 pc1 vSolutions).1,
              (takePubkeys opcode1 vch1 pc1 vSolutions).2.1,
              (takePubkeys opcode1 vch1 pc1 vSolutions).2.2.1)) := by
  fun_induction takePubkeys opcode1 vch1 pc1 vSolutions generalizing script with
  | case1 opcode1 vch1 pc1 vSolutions sized _ =>
    exact ⟨[(opcode1, vch1)], forall_mem_singleton.mpr sized, by simp, .inl rfl⟩
  | case2 opcode1 vch1 pc1 vSolutions sized opcode vch rest later _ ih =>
    obtain ⟨pushes, keys, grown, ends⟩ := ih later
    refine ⟨(opcode1, vch1) :: pushes, forall_mem_cons.mpr ⟨sized, keys⟩, ?_, ?_⟩
    · simpa using grown
    · rcases ends with invalid | ⟨middle, reads, last⟩
      · exact .inl invalid
      · exact .inr ⟨middle, ⟨pc1, read, reads⟩, last⟩
  | case3 opcode1 vch1 pc1 vSolutions _ => exact ⟨[], by simp, by simp, .inr ⟨script, rfl, read⟩⟩

/-- Pushes of keys in front of another instruction are all read. -/
theorem takePubkeys_all {pushes : List (UInt8 × List UInt8)} {script middle after : CScript}
    {opcode : UInt8} {vch : List UInt8} {vSolutions : List (List UInt8)}
    (keys : ∀ push ∈ pushes, KeySized push.2) (reads : ReadsAs script pushes middle)
    (last : getOp middle = some (opcode, vch, after)) (other : ¬ KeySized vch) :
    ∃ opcode1 vch1 pc1, getOp script = some (opcode1, vch1, pc1) ∧
      takePubkeys opcode1 vch1 pc1 vSolutions =
        (opcode, vch, after, vSolutions ++ pushes.map Prod.snd) := by
  induction pushes generalizing script vSolutions with
  | nil =>
    cases reads
    have large : ¬ (33 ≤ vch.length ∧ vch.length ≤ 65) := other
    refine ⟨opcode, vch, after, last, ?_⟩
    rw [takePubkeys, if_neg large]
    simp
  | cons push rest ih =>
    obtain ⟨next, read, more⟩ := reads
    have sized : 33 ≤ push.2.length ∧ push.2.length ≤ 65 := keys push mem_cons_self
    obtain ⟨opcode1, vch1, pc1, later, taken⟩ := @ih next (vSolutions ++ [push.2])
      (fun member inside => keys member (mem_cons_of_mem _ inside)) more
    refine ⟨push.1, push.2, next, read, ?_⟩
    rw [takePubkeys, if_pos sized]
    split
    case h_1 unread => cases unread.symm.trans later
    case h_2 read' =>
      cases read'.symm.trans later
      simpa using taken

/-- The opcodes of the numbers from 0 to 16. -/
def IsSmallInteger (opcode : UInt8) : Prop := opcode = 0 ∨ (opN1 ≤ opcode ∧ opcode ≤ opN16)

variable {opcode : UInt8}

theorem getOp_smallInteger (small : IsSmallInteger opcode) {vch : List UInt8}
    (read : getOp script = some (opcode, vch, rest)) : vch = [] := by
  by_contra filled
  obtain ⟨low, nonzero⟩ := getOp_operand read filled
  rcases small with zero | ⟨high, _⟩
  · exact nonzero zero
  · exact absurd (UInt8.le_trans high low) (by decide)

theorem matchTemplate_pubkeys {next2 : UInt8} {later2 : CScript} :
    matchTemplate (opPubkeys :: next2 :: later2) script vSolutions = some result ↔
      ∃ opcode1 vch1 pc1 grown, getOp script = some (opcode1, vch1, pc1) ∧
        matchOp next2 (takePubkeys opcode1 vch1 pc1 vSolutions).1
            (takePubkeys opcode1 vch1 pc1 vSolutions).2.1
            (takePubkeys opcode1 vch1 pc1 vSolutions).2.2.2 = some grown ∧
          matchTemplate later2 (takePubkeys opcode1 vch1 pc1 vSolutions).2.2.1 grown =
            some result := by
  rw [matchTemplate]
  cases read : getOp script with
  | none => simp
  | some part =>
    obtain ⟨opcode1, vch1, pc1⟩ := part
    cases here : matchOp next2 (takePubkeys opcode1 vch1 pc1 vSolutions).1
      (takePubkeys opcode1 vch1 pc1 vSolutions).2.1
      (takePubkeys opcode1 vch1 pc1 vSolutions).2.2.2 with
    | none => simp [here]
    | some grown => simp [here]

theorem matchTemplate_multisig :
    matchTemplate [opSmallinteger, opPubkeys, opSmallinteger, opCheckmultisig] script [] =
        some result ↔
      ∃ opM opN pushes, IsSmallInteger opM ∧ IsSmallInteger opN ∧
        (∀ push ∈ pushes, KeySized push.2) ∧
          ParsesAs script ((opM, []) :: (pushes ++ [(opN, []), (opCheckmultisig, [])])) ∧
            [decodeOPN opM] :: (pushes.map Prod.snd ++ [[decodeOPN opN]]) = result := by
  have plain : isOperand opCheckmultisig = false := by decide
  simp only [matchTemplate_cons (show opSmallinteger ≠ opPubkeys by decide),
    matchTemplate_cons (show opCheckmultisig ≠ opPubkeys by decide), matchTemplate_pubkeys,
    matchOp_smallinteger, matchOp_same plain, matchTemplate_nil]
  constructor
  · rintro ⟨opM, vchM, next, _, first, ⟨smallM, rfl⟩, opcode1, vch1, pc1, _, second,
      ⟨smallN, rfl⟩, _, _, _, _, last, ⟨rfl, rfl, rfl⟩, rfl, rfl⟩
    obtain rfl : vchM = [] := getOp_smallInteger smallM first
    obtain ⟨pushes, keys, grown, ends⟩ := @takePubkeys_reads opcode1 vch1 pc1 next
      ([] ++ [[decodeOPN opM]]) second
    rcases ends with invalid | ⟨middle, reads, third⟩
    · -- the script ended inside the keys
      rw [invalid] at smallN
      exact absurd smallN (by decide)
    · refine ⟨opM, _, pushes, smallM, smallN, keys, ⟨next, first, reads.append ?_⟩, ?_⟩
      · rw [getOp_smallInteger smallN third] at third
        exact ⟨_, third, _, last, rfl⟩
      · rw [grown]
        simp
  · rintro ⟨opM, opN, pushes, smallM, smallN, keys, ⟨next, first, parsed⟩, rfl⟩
    obtain ⟨middle, reads, after, third, _, last, rfl⟩ := parsed.split
    obtain ⟨opcode1, vch1, pc1, second, taken⟩ := @takePubkeys_all pushes next middle after opN []
      ([] ++ [[decodeOPN opM]]) keys reads third (by decide)
    refine ⟨opM, [], next, _, first, ⟨smallM, rfl⟩, opcode1, vch1, pc1,
      [decodeOPN opM] :: (pushes.map Prod.snd ++ [[decodeOPN opN]]), second, ?_⟩
    rw [taken]
    exact ⟨⟨smallN, by simp⟩, _, _, _, _, last, ⟨rfl, rfl, rfl⟩, rfl, rfl⟩

theorem encodeOPN_decodeOPN (small : IsSmallInteger opcode) :
    encodeOPN (decodeOPN opcode).toNat = some opcode ∧ (decodeOPN opcode).toNat ≤ 16 := by
  rcases small with rfl | ⟨low, high⟩
  · decide
  · have above : 81 ≤ opcode.toNat := UInt8.le_iff_toNat_le.mp low
    have below : opcode.toNat ≤ 96 := UInt8.le_iff_toNat_le.mp high
    have all : ∀ n : Fin 97, 81 ≤ n.val →
        encodeOPN (decodeOPN (UInt8.ofNat n.val)).toNat = some (UInt8.ofNat n.val) ∧
          (decodeOPN (UInt8.ofNat n.val)).toNat ≤ 16 := by decide
    simpa using all ⟨opcode.toNat, Nat.lt_succ_of_le below⟩ above

theorem decodeOPN_encodeOPN {n : Nat} (small : n ≤ 16) (encoded : encodeOPN n = some opcode) :
    IsSmallInteger opcode ∧ decodeOPN opcode = UInt8.ofNat n ∧
      (1 ≤ n → opN1 ≤ opcode ∧ opcode ≤ opN16) := by
  have all : ∀ n : Fin 17, ∃ opcode, encodeOPN n.val = some opcode ∧
      (opcode = 0 ∨ (opN1 ≤ opcode ∧ opcode ≤ opN16)) ∧
        decodeOPN opcode = UInt8.ofNat n.val ∧
          (1 ≤ n.val → opN1 ≤ opcode ∧ opcode ≤ opN16) := by decide
  obtain ⟨other, encoded', rest⟩ := all ⟨n, Nat.lt_succ_of_le small⟩
  cases encoded.symm.trans encoded'
  exact rest

theorem multisigValid_eq (m n : UInt8) (keys : List (List UInt8)) :
    multisigValid ([m] :: (keys ++ [[n]])) = some true ↔
      1 ≤ m ∧ 1 ≤ n ∧ m ≤ n ∧ keys.length = n.toNat := by
  have back : ([m] :: (keys ++ [[n]])).getLast? = some [n] := by
    rw [← cons_append, getLast?_append]
    rfl
  have count : ((([m] :: (keys ++ [[n]])).length : Int) - 2 = n.toNat) ↔
      keys.length = n.toNat := by
    rw [length_cons, length_append, length_singleton]
    omega
  simp only [multisigValid, head?_cons, back, bind_eq_bind, bind_some,
    getElem?_cons_zero, Option.pure_def, Option.some.injEq, Bool.not_eq_true',
    Bool.or_eq_false_iff, decide_eq_false_iff_not, UInt8.not_lt, gt_iff_lt, ne_eq, not_not, count,
    and_assoc]

variable {solutions : List (List UInt8)}

/-- The solutions of a match with several keys pass the checks for the form only. -/
theorem multisig_form_iff :
    (matchTemplate [opSmallinteger, opPubkeys, opSmallinteger, opCheckmultisig] script [] =
        some solutions ∧ multisigValid solutions = some true) ↔
      StandardForm script .multisig solutions := by
  constructor
  · rintro ⟨matched, valid⟩
    obtain ⟨opM, opN, pushes, smallM, smallN, keys, parsed, rfl⟩ :=
      matchTemplate_multisig.mp matched
    obtain ⟨positive, _, ordered, counted⟩ := (multisigValid_eq _ _ _).mp valid
    obtain ⟨encodedM, _⟩ := encodeOPN_decodeOPN smallM
    obtain ⟨encodedN, atMost⟩ := encodeOPN_decodeOPN smallN
    have form := StandardForm.multisig (UInt8.le_iff_toNat_le.mp positive)
      (UInt8.le_iff_toNat_le.mp ordered) atMost encodedM encodedN (by simpa using counted) keys
      parsed
    simpa using form
  · intro form
    cases form with
    | @multisig _ m n opM opN pushes positive ordered atMost encodedM encodedN counted keys
        parsed =>
        have smallM : m ≤ 16 := Nat.le_trans ordered atMost
        obtain ⟨opcodeM, decodedM, _⟩ := decodeOPN_encodeOPN smallM encodedM
        obtain ⟨opcodeN, decodedN, _⟩ := decodeOPN_encodeOPN atMost encodedN
        refine ⟨matchTemplate_multisig.mpr ⟨opM, opN, pushes, opcodeM, opcodeN, keys, parsed, ?_⟩,
          (multisigValid_eq _ _ _).mpr ?_⟩
        · rw [decodedM, decodedN]
        · have valueM : (UInt8.ofNat m).toNat = m := by simp; omega
          have valueN : (UInt8.ofNat n).toNat = n := by simp; omega
          refine ⟨?_, ?_, ?_, ?_⟩
          · rw [UInt8.le_iff_toNat_le, valueM]
            exact positive
          · rw [UInt8.le_iff_toNat_le, valueN]
            exact Nat.le_trans positive ordered
          · rw [UInt8.le_iff_toNat_le, valueM, valueN]
            exact ordered
          · rw [length_map, valueN]
            exact counted

/-! ## The first opcode -/

/-- The first opcode of a script of a type. -/
def OpensWith : Txnouttype → UInt8 → Prop
  | .nonstandard, _ => False
  | .pubkey, opcode => opcode ≤ opPushdata4
  | .pubkeyhash, opcode => opcode = opDup
  | .scripthash, opcode => opcode = opHash160
  | .multisig, opcode => opN1 ≤ opcode ∧ opcode ≤ opN16
  | .nullData, opcode => opcode = opReturn

theorem OpensWith.unique {first second : Txnouttype} (opens : OpensWith first opcode)
    (opens' : OpensWith second opcode) : first = second := by
  cases first <;> cases second <;> simp only [OpensWith, UInt8.le_iff_toNat_le] at * <;>
    first
    | rfl
    | (subst opcode; revert opens'; decide)
    | (subst opcode; revert opens; decide)
    | (exact absurd (Nat.le_trans opens'.1 opens) (by decide))
    | (exact absurd (Nat.le_trans opens.1 opens') (by decide))

theorem StandardForm.opens {type : Txnouttype} (form : StandardForm script type solutions) :
    ∃ opcode, script.head? = some opcode ∧ OpensWith type opcode := by
  cases form with
  | @pubkey _ push key sized parsed =>
    obtain ⟨_, read, _⟩ := parsed
    have filled : key ≠ [] := by
      rintro rfl
      exact absurd sized (by decide)
    exact ⟨push, getOp_head? read, (getOp_operand read filled).1⟩
  | pubkeyhash _ parsed =>
    obtain ⟨_, read, _⟩ := parsed
    exact ⟨opDup, getOp_head? read, rfl⟩
  | scripthash => exact ⟨opHash160, rfl, rfl⟩
  | @multisig _ m n opM opN pushes positive ordered atMost encodedM _ _ _ parsed =>
    obtain ⟨_, read, _⟩ := parsed
    obtain ⟨_, _, range⟩ := decodeOPN_encodeOPN (Nat.le_trans ordered atMost) encodedM
    exact ⟨opM, getOp_head? read, range positive⟩
  | nullData => exact ⟨opReturn, rfl, rfl⟩

theorem StandardForm.type_unique {first second : Txnouttype} {solutions' : List (List UInt8)}
    (form : StandardForm script first solutions) (form' : StandardForm script second solutions') :
    first = second := by
  obtain ⟨opcode, head, opens⟩ := form.opens
  obtain ⟨opcode', head', opens'⟩ := form'.opens
  cases head.symm.trans head'
  exact opens.unique opens'

/-! ## Soundness and completeness of the solver -/

theorem solver_sound {type : Txnouttype} (solved : solver script = some ⟨true, type, solutions⟩) :
    StandardForm script type solutions := by
  unfold solver at solved
  split at solved
  case isTrue isHash =>
    obtain ⟨hash, sized, rfl⟩ := isPayToScriptHash_iff.mp isHash
    have taken : ((opHash160 :: 0x14 :: (hash ++ [opEqual])).drop 2).take 20 = hash := by
      simp [← sized]
    rw [taken] at solved
    cases solved
    exact .scripthash sized
  split at solved
  case isTrue isData =>
    obtain ⟨head, pushes⟩ := Bool.and_eq_true_iff.mp isData
    obtain ⟨data, rfl⟩ := head?_eq_some_iff.mp (of_decide_eq_true head)
    obtain ⟨parts, parsed, low⟩ := isPushOnly_iff.mp pushes
    cases solved
    exact .nullData parsed low
  -- the templates, in the order of the types
  simp only [mTemplates, scanTemplates] at solved
  split at solved
  case h_2 matched =>
    cases solved
    obtain ⟨push, key, sized, parsed, rfl⟩ := matchTemplate_pubkey.mp matched
    exact .pubkey sized parsed
  split at solved
  case h_2 matched =>
    cases solved
    obtain ⟨push, hash, sized, parsed, rfl⟩ := matchTemplate_pubkeyhash.mp matched
    exact .pubkeyhash sized parsed
  split at solved
  case h_1 => cases solved
  case h_2 matched =>
    rw [if_pos trivial] at solved
    obtain ⟨valid, checked, same⟩ := map_eq_some_iff.mp solved
    cases same
    exact multisig_form_iff.mp ⟨matched, checked⟩

namespace StandardForm

variable {script : CScript} {type : Txnouttype} {solutions : List (List UInt8)}

section

variable (form : StandardForm script type solutions)

include form

theorem not_payToScriptHash (other : type ≠ .scripthash) : script.isPayToScriptHash = false := by
  by_contra isHash
  obtain ⟨hash, sized, rfl⟩ :=
    isPayToScriptHash_iff.mp (Bool.eq_true_of_not_eq_false isHash)
  exact other (form.type_unique (.scripthash sized))

theorem not_nullData (other : type ≠ .nullData) :
    (script.head? = some opReturn && isPushOnly script.tail) = false := by
  by_contra isData
  obtain ⟨head, pushes⟩ := Bool.and_eq_true_iff.mp (Bool.eq_true_of_not_eq_false isData)
  obtain ⟨data, rfl⟩ := head?_eq_some_iff.mp (of_decide_eq_true head)
  obtain ⟨parts, parsed, low⟩ := isPushOnly_iff.mp pushes
  exact other (form.type_unique (.nullData parsed low))

theorem not_pubkey (other : type ≠ .pubkey) :
    matchTemplate [opPubkey, opChecksig] script [] = none := by
  rw [eq_none_iff_forall_ne_some]
  intro result matched
  obtain ⟨push, key, sized, parsed, rfl⟩ := matchTemplate_pubkey.mp matched
  exact other (form.type_unique (.pubkey sized parsed))

theorem not_pubkeyhash (other : type ≠ .pubkeyhash) :
    matchTemplate [opDup, opHash160, opPubkeyhash, opEqualverify, opChecksig] script [] =
      none := by
  rw [eq_none_iff_forall_ne_some]
  intro result matched
  obtain ⟨push, hash, sized, parsed, rfl⟩ := matchTemplate_pubkeyhash.mp matched
  exact other (form.type_unique (.pubkeyhash sized parsed))

/-- Each form is found, since it fails the tests that come before its own. -/
theorem solved :
    solver script = some ⟨true, type, solutions⟩ := by
  unfold solver
  cases form with
  | @scripthash hash sized =>
    have isHash := isPayToScriptHash_iff.mpr ⟨hash, sized, rfl⟩
    have taken : ((opHash160 :: 0x14 :: (hash ++ [opEqual])).drop 2).take 20 = hash := by
      simp [← sized]
    rw [if_pos isHash, taken]
  | @nullData data parts parsed low =>
    have form := StandardForm.nullData parsed low
    have pushes : isPushOnly data = true := isPushOnly_iff.mpr ⟨_, parsed, low⟩
    simp [form.not_payToScriptHash (by decide), pushes]
  | @pubkey _ push key sized parsed =>
    have form := StandardForm.pubkey sized parsed
    have matched := matchTemplate_pubkey.mpr ⟨push, key, sized, parsed, rfl⟩
    simp [form.not_payToScriptHash (by decide), form.not_nullData (by decide), mTemplates,
      scanTemplates, matched]
  | @pubkeyhash _ push hash sized parsed =>
    have form := StandardForm.pubkeyhash sized parsed
    have matched := matchTemplate_pubkeyhash.mpr ⟨push, hash, sized, parsed, rfl⟩
    simp [form.not_payToScriptHash (by decide), form.not_nullData (by decide),
      form.not_pubkey (by decide), mTemplates, scanTemplates, matched]
  | multisig positive ordered atMost encodedM encodedN counted keys parsed =>
    have form := StandardForm.multisig positive ordered atMost encodedM encodedN counted keys
      parsed
    obtain ⟨matched, valid⟩ := multisig_form_iff.mpr form
    simp [form.not_payToScriptHash (by decide), form.not_nullData (by decide),
      form.not_pubkey (by decide), form.not_pubkeyhash (by decide), mTemplates,
      scanTemplates, matched, valid]

end

end StandardForm

end CentNode
