import CentNode.Masternode.Broadcasts
import CentNode.Validation.ReceivedBlock

/-!
# Signed blocks and their check

`SignBlock` signs with the key that the staked output pays to, and `CheckBlockSignature`
checks with the same solution.  For the hash of a key the check makes a public key of the
hash itself, which is none.
-/

namespace CentNode

open Option List

/-- What a node signs with: the hash of a key, the curve, and the keys of a wallet. -/
structure KeyStore (CKey : Type) where
  /-- `Hash160`. -/
  hash160 : List UInt8 → CKeyID
  getPubKey : CKey → CPubKey
  fValid : CKey → Bool
  /-- `secp256k1_ecdsa_sign`, with nonces until one succeeds. -/
  ecdsaSign : CKey → Uint256 → List UInt8
  getKey : CKeyID → Option CKey

/-- How `SignBlock` ends without a signature: by a read outside the bounds, by the exception
of `base_uint`, or with `false`. -/
inductive SigningFault where
  | outOfBounds
  | uintError
  | signFailed
  deriving DecidableEq, Repr

/-- A vector that is read by index. -/
def inBounds {α : Type} (element : Option α) : Except SigningFault α :=
  match element with
  | none => .error .outOfBounds
  | some value => .ok value

/-- `CKeyID(uint160(vch))`. -/
def keyIDOfBytes (vch : List UInt8) : Except SigningFault CKeyID :=
  if sized : vch.length = 20 then .ok ⟨vch, sized⟩ else .error .uintError

namespace KeyStore

variable {CKey : Type} (store : KeyStore CKey)

/-- `CPubKey(vch).GetID()`; a key that is not valid has no bytes. -/
def getID (vch : List UInt8) : CKeyID := store.hash160 (if pubKeyValid vch then vch else [])

/-- `CKey::Sign` with the key for an identifier, if there is one. -/
def signWith (keyID : CKeyID) (hash : Uint256) : Except SigningFault (List UInt8) :=
  match store.getKey keyID with
  | none => .error .signFailed
  | some key => if store.fValid key then .ok (store.ecdsaSign key hash) else .error .signFailed

/-- The outputs of the first transaction of a block of the proof of work, up to the first
one that pays to a key. -/
def signWork (hash : Uint256) : List CTxOut → Except SigningFault (List UInt8)
  | [] => .error .signFailed
  | txout :: rest => do
      let solved ← inBounds (solver txout.scriptPubKey)
      if solved.found = true ∧ solved.typeRet = .pubkey then
        let keyID ← keyIDOfBytes (← inBounds solved.vSolutions[0]?)
        store.signWith keyID hash
      else signWork hash rest

/-- The second output of the coinstake. -/
def signStake (hash : Uint256) (txout : CTxOut) : Except SigningFault (List UInt8) := do
  let solved ← inBounds (solver txout.scriptPubKey)
  if solved.found = false then .error .signFailed
  else if solved.typeRet = .pubkeyhash then
    let keyID ← keyIDOfBytes (← inBounds solved.vSolutions[0]?)
    store.signWith keyID hash
  else if solved.typeRet = .pubkey then
    let vchPubKey ← inBounds solved.vSolutions[0]?
    store.signWith (store.getID vchPubKey) hash
  else .error .signFailed

/-- `CBlock::SignBlock`: the signed block where it returns `true`. -/
def signBlock (block : CBlock) : Except SigningFault CBlock := do
  if block.isProofOfStake = false then
    let coinbase ← inBounds block.vtx[0]?
    let vchBlockSig ← store.signWork block.hash coinbase.vout
    return { block with vchBlockSig := vchBlockSig }
  else
    let coinstake ← inBounds block.vtx[1]?
    let txout ← inBounds coinstake.vout[1]?
    let vchBlockSig ← store.signStake block.hash txout
    return { block with vchBlockSig := vchBlockSig }

/-- A valid key is at hand. -/
def CanSign (keyID : CKeyID) : Prop := ∃ key, store.getKey keyID = some key ∧ store.fValid key = true

theorem signWith_ok_iff {keyID : CKeyID} {hash : Uint256} {vchSig : List UInt8} :
    store.signWith keyID hash = .ok vchSig ↔ ∃ key, store.getKey keyID = some key ∧
      store.fValid key = true ∧ store.ecdsaSign key hash = vchSig := by
  unfold signWith
  cases found : store.getKey keyID with
  | none => exact ⟨fun failed => (nomatch failed), fun ⟨_, known, _⟩ => (nomatch known)⟩
  | some key =>
    dsimp only
    split
    · next valid =>
        constructor
        · intro signed
          cases signed
          exact ⟨key, rfl, valid, rfl⟩
        · rintro ⟨_, same, _, rfl⟩
          cases same
          rfl
    · next invalid =>
        constructor
        · intro failed
          cases failed
        · rintro ⟨_, same, valid, _⟩
          cases same
          exact absurd valid invalid

theorem signWork_ne_ok (hash : Uint256) (vout : List CTxOut) (vchSig : List UInt8) :
    store.signWork hash vout ≠ .ok vchSig := by
  induction vout with
  | nil =>
    intro impossible
    cases impossible
  | cons txout rest ih =>
    intro signed
    obtain ⟨solved, ran, _⟩ := solver_spec txout.scriptPubKey
    rw [signWork, ran] at signed
    by_cases key : solved.found = true ∧ solved.typeRet = .pubkey
    · obtain ⟨vch, solutions, fits⟩ := solver_fits ran key.1 (key.2 ▸ SingleOperand.pubkey)
      have sized := fits.pubkey rfl
      have thrown : keyIDOfBytes vch = .error .uintError := dif_neg (by omega)
      change (if _ then _ else _) = _ at signed
      rw [if_pos key, solutions] at signed
      change keyIDOfBytes vch >>= _ = _ at signed
      rw [thrown] at signed
      cases signed
    · change (if _ then _ else _) = _ at signed
      rw [if_neg key] at signed
      exact ih signed

/-! ## The staked output -/

/-- The script that a block of the proof of stake is signed for, solved. -/
def stakeSolved (block : CBlock) : Option Solved := do
  let coinstake ← block.vtx[1]?
  let txout ← coinstake.vout[1]?
  solver txout.scriptPubKey

/-- Scripts for which a block is signed and the signature then not accepted: the hash of a
key at hand, and a key that is not valid. -/
inductive Unverifiable : Solved → Prop
  | keyHash (keyID : CKeyID) (known : store.CanSign keyID) :
      Unverifiable ⟨true, .pubkeyhash, [keyID.val]⟩
  | badKey (vch : List UInt8) (bad : pubKeyValid vch = false) (known : store.CanSign (store.getID vch)) :
      Unverifiable ⟨true, .pubkey, [vch]⟩

/-- A signature made with a private key verifies under its public key. -/
structure Signs (verify : List UInt8 → Uint256 → List UInt8 → Bool) : Prop where
  verifies : ∀ key hash, store.fValid key = true →
    verify (store.getPubKey key) hash (store.ecdsaSign key hash) = true
  filled : ∀ key hash, store.ecdsaSign key hash ≠ []

/-- The key that is kept for the identifier of a public key is its private key. -/
structure Keeps : Prop where
  own : ∀ vchPubKey key, pubKeyValid vchPubKey = true →
    store.getKey (store.hash160 vchPubKey) = some key → store.getPubKey key = vchPubKey

variable {store}

section

variable {receiver : ReceivingNode} {keyID : CKeyID} {hash : Uint256} {block : CBlock}

theorem canSign_iff :
    store.CanSign keyID ↔ ∃ vchSig, store.signWith keyID hash = .ok vchSig := by
  constructor
  · rintro ⟨key, known, valid⟩
    exact ⟨_, (store.signWith_ok_iff).mpr ⟨key, known, valid, rfl⟩⟩
  · rintro ⟨_, signed⟩
    obtain ⟨key, known, valid, _⟩ := (store.signWith_ok_iff).mp signed
    exact ⟨key, known, valid⟩

/-- What is signed, once the script is solved. -/
def signSolved (store : KeyStore CKey) (hash : Uint256) (solved : Solved) :
    Except SigningFault (List UInt8) :=
  if solved.found = false then .error .signFailed
  else if solved.typeRet = .pubkeyhash then do
    let keyID ← keyIDOfBytes (← inBounds solved.vSolutions[0]?)
    store.signWith keyID hash
  else if solved.typeRet = .pubkey then do
    let vchPubKey ← inBounds solved.vSolutions[0]?
    store.signWith (store.getID vchPubKey) hash
  else .error .signFailed

theorem exists_stakeSolved (staked : block.isProofOfStake = true) :
    ∃ (txout : CTxOut) (solved : Solved), solver txout.scriptPubKey = some solved ∧
      stakeSolved block = some solved ∧
      store.signBlock block = (store.signSolved block.hash solved).map fun vchBlockSig =>
        { block with vchBlockSig := vchBlockSig } := by
  obtain ⟨coinstake, _, txout, second, _, _, output⟩ := ReceivingNode.proofOfStake_shape staked
  obtain ⟨solved, ran, _⟩ := solver_spec txout.scriptPubKey
  refine ⟨txout, solved, ran, ?_, ?_⟩
  · rw [stakeSolved, second, bind_eq_bind, bind_some, output]
    exact ran
  · rw [signBlock, staked, if_neg (by decide), second]
    change (inBounds coinstake.vout[1]? >>= _) = _
    rw [output]
    change (store.signStake block.hash txout >>= _) = _
    rw [signStake, ran]
    change (store.signSolved block.hash solved >>= _) = _
    cases store.signSolved block.hash solved with
    | error fault => rfl
    | ok vchBlockSig => rfl

/-- The check of a signed block, once the script is solved. -/
theorem checkBlockSignature_staked {solved : Solved}
    (staked : block.isProofOfStake = true) (solved_eq : stakeSolved block = some solved)
    (vchBlockSig : List UInt8) :
    receiver.checkBlockSignature { block with vchBlockSig := vchBlockSig } =
      if solved.found = true then
        if solved.typeRet = .pubkey ∨ solved.typeRet = .pubkeyhash then
          solved.vSolutions[0]?.map fun vchPubKey =>
            pubKeyValid vchPubKey && !vchBlockSig.isEmpty &&
              receiver.verify vchPubKey block.hash vchBlockSig
        else some false
      else some false := by
  have work : ({ block with vchBlockSig := vchBlockSig } : CBlock).isProofOfWork = false := by
    change (!block.isProofOfStake) = false
    rw [staked]
    rfl
  rw [ReceivingNode.checkBlockSignature, work, if_neg Bool.false_ne_true]
  change (block.vtx[1]?.bind _) = _
  unfold stakeSolved at solved_eq
  rw [bind_eq_bind] at solved_eq
  obtain ⟨coinstake, second, rest⟩ := bind_eq_some_iff.mp solved_eq
  rw [bind_eq_bind] at rest
  obtain ⟨txout, output, ran⟩ := bind_eq_some_iff.mp rest
  rw [second, bind_some]
  change (coinstake.vout[1]?.bind _) = _
  rw [output, bind_some]
  change ((solver txout.scriptPubKey).bind _) = _
  rw [ran, bind_some]
  split
  · split
    · cases solved.vSolutions[0]? with
      | none => rfl
      | some vch => rfl
    · rfl
  · rfl

theorem accepted_iff {check : CBlock → Option Bool} {accepts : Prop}
    (checked : ∀ vchSig, store.signWith keyID hash = .ok vchSig →
      (check { block with vchBlockSig := vchSig } = some true ↔ accepts)) :
    (∀ signed, ((store.signWith keyID hash).map fun vchBlockSig =>
        { block with vchBlockSig := vchBlockSig }) = .ok signed → check signed = some true) ↔
      (store.CanSign keyID → accepts) := by
  rw [@canSign_iff _ store keyID hash]
  constructor
  · rintro accepted ⟨vchSig, signed⟩
    refine (checked vchSig signed).mp (accepted _ ?_)
    rw [signed]
    rfl
  · intro accepts_ block' signed
    cases ran : store.signWith keyID hash with
    | error fault =>
      rw [ran] at signed
      cases signed
    | ok vchSig =>
      rw [ran] at signed
      cases signed
      exact (checked vchSig ran).mpr (accepts_ ⟨vchSig, ran⟩)

end

variable {vch : List UInt8}

theorem pubKeyValid_eq_false (sized : vch.length = 20) : pubKeyValid vch = false := by
  unfold pubKeyValid
  split
  · rfl
  · next chHeader rest =>
      refine decide_eq_false ?_
      rintro ⟨_, same⟩
      rw [sized] at same
      unfold pubKeyLength at same
      split at same
      · cases same
      · split at same <;> cases same

/-- The signed block is accepted, whatever the signature of the solved script is. -/
def SignedAccepted (store : KeyStore CKey) (receiver : ReceivingNode) (block : CBlock)
    (solved : Solved) : Prop :=
  ∀ signed, ((store.signSolved block.hash solved).map fun vchBlockSig =>
    { block with vchBlockSig := vchBlockSig }) = .ok signed →
      receiver.checkBlockSignature signed = some true

variable {receiver : ReceivingNode} {block signed : CBlock} {solved : Solved}

theorem signedAccepted_keyHash (staked : block.isProofOfStake = true)
    (solved_eq : stakeSolved block = some ⟨true, .pubkeyhash, [vch]⟩) (sized : vch.length = 20) :
    store.SignedAccepted receiver block ⟨true, .pubkeyhash, [vch]⟩ ↔
      ¬ store.Unverifiable ⟨true, .pubkeyhash, [vch]⟩ := by
  have signing : store.signSolved block.hash ⟨true, .pubkeyhash, [vch]⟩ =
      store.signWith ⟨vch, sized⟩ block.hash := by
    rw [signSolved, if_neg (show ¬ true = false by decide), if_pos rfl]
    change (keyIDOfBytes vch >>= _) = _
    rw [keyIDOfBytes, dif_pos sized]
    rfl
  rw [SignedAccepted, signing, @accepted_iff _ _ _ _ _ _ False]
  · constructor
    · intro none_ unverifiable
      generalize solution : [vch] = solutions at unverifiable
      cases unverifiable with
      | keyHash keyID known =>
        cases solution
        exact none_ known
    · exact fun verifiable known => verifiable (.keyHash ⟨vch, sized⟩ known)
  · intro vchSig _
    rw [checkBlockSignature_staked staked solved_eq, if_pos rfl, if_pos (.inr rfl)]
    change some (pubKeyValid vch && _ && _) = some true ↔ False
    rw [pubKeyValid_eq_false sized]
    exact ⟨fun impossible => (nomatch impossible), False.elim⟩

theorem signedAccepted_key (signs : store.Signs receiver.verify)
    (keeps : store.Keeps) {block : CBlock} (staked : block.isProofOfStake = true)
    (solved_eq : stakeSolved block = some ⟨true, .pubkey, [vch]⟩) :
    store.SignedAccepted receiver block ⟨true, .pubkey, [vch]⟩ ↔
      ¬ store.Unverifiable ⟨true, .pubkey, [vch]⟩ := by
  have signing : store.signSolved block.hash ⟨true, .pubkey, [vch]⟩ =
      store.signWith (store.getID vch) block.hash := by
    rw [signSolved, if_neg (show ¬ true = false by decide),
      if_neg (show ¬ Txnouttype.pubkey = .pubkeyhash by decide), if_pos rfl]
    rfl
  rw [SignedAccepted, signing, @accepted_iff _ _ _ _ _ _ (pubKeyValid vch = true)]
  · constructor
    · intro valid unverifiable
      generalize solution : [vch] = solutions at unverifiable
      cases unverifiable with
      | badKey other bad known =>
        cases solution
        rw [valid known] at bad
        cases bad
    · intro verifiable known
      by_contra bad
      exact verifiable (.badKey vch (Bool.eq_false_of_not_eq_true bad) known)
  · intro vchSig signed
    rw [checkBlockSignature_staked staked solved_eq, if_pos rfl, if_pos (.inl rfl)]
    change some (pubKeyValid vch && _ && _) = some true ↔ _
    obtain ⟨signer, known, valid, rfl⟩ := (store.signWith_ok_iff).mp signed
    constructor
    · intro accepted
      have all := Option.some.inj accepted
      rw [Bool.and_eq_true, Bool.and_eq_true] at all
      exact all.1.1
    · intro usable
      -- the key that signs belongs to the key of the script
      rw [getID, if_pos usable] at known
      have verified := signs.verifies signer block.hash valid
      rw [keeps.own vch signer usable known] at verified
      have full : (store.ecdsaSign signer block.hash).isEmpty = false := by
        rw [isEmpty_eq_false_iff]
        exact signs.filled signer block.hash
      rw [usable, full, verified]
      rfl

theorem signedAccepted_other
    (other : solved.found = true → solved.typeRet ≠ .pubkeyhash ∧ solved.typeRet ≠ .pubkey) :
    store.SignedAccepted receiver block solved ↔ ¬ store.Unverifiable solved := by
  have failed : store.signSolved block.hash solved = .error .signFailed := by
    unfold signSolved
    split
    · rfl
    · next found =>
        obtain ⟨notHash, notKey⟩ := other (Bool.eq_true_of_not_eq_false found)
        rw [if_neg notHash, if_neg notKey]
  constructor
  · rintro - unverifiable
    cases unverifiable with
    | keyHash => exact (other rfl).1 rfl
    | badKey => exact (other rfl).2 rfl
  · intro _ signed ran
    rw [failed] at ran
    cases ran

theorem signBlock_work (work : block.isProofOfStake = false) :
    store.signBlock block ≠ .ok signed := by
  intro ran
  rw [signBlock, work, if_pos rfl] at ran
  cases first : block.vtx[0]? with
  | none =>
    rw [first] at ran
    cases ran
  | some coinbase =>
    rw [first] at ran
    change (store.signWork block.hash coinbase.vout >>= _) = _ at ran
    cases worked : store.signWork block.hash coinbase.vout with
    | error fault =>
      rw [worked] at ran
      cases ran
    | ok vchSig => exact absurd worked (store.signWork_ne_ok _ _ _)

/-- What `SignBlock` signs is accepted by `CheckBlockSignature`, but for the hash of a key and
for a key that is not valid. -/
theorem signed_accepted_iff {receiver : ReceivingNode} (signs : store.Signs receiver.verify)
    (keeps : store.Keeps) (block : CBlock) :
    (∀ signed, store.signBlock block = .ok signed →
        receiver.checkBlockSignature signed = some true) ↔
      ∀ solved, block.isProofOfStake = true → stakeSolved block = some solved →
        ¬ store.Unverifiable solved := by
  cases staked : block.isProofOfStake with
  | false =>
    exact ⟨fun _ _ impossible => (nomatch impossible),
      fun _ signed ran => absurd ran (signBlock_work staked)⟩
  | true =>
    obtain ⟨txout, solved, ran, solved_eq, signBlock_eq⟩ := @exists_stakeSolved _ store _ staked
    have agrees : store.SignedAccepted receiver block solved ↔ ¬ store.Unverifiable solved := by
      obtain ⟨found, typeRet, vSolutions⟩ := solved
      by_cases known : found = true ∧ (typeRet = .pubkeyhash ∨ typeRet = .pubkey)
      · obtain ⟨rfl, rfl | rfl⟩ := known
        · obtain ⟨vch, solutions, fits⟩ := solver_fits ran rfl SingleOperand.pubkeyhash
          cases solutions
          exact signedAccepted_keyHash staked solved_eq (fits.pubkeyhash rfl)
        · obtain ⟨vch, solutions, _⟩ := solver_fits ran rfl SingleOperand.pubkey
          cases solutions
          exact signedAccepted_key signs keeps staked solved_eq
      · exact signedAccepted_other fun found_eq => not_or.mp (not_and.mp known found_eq)
    rw [signBlock_eq, solved_eq]
    refine Iff.trans agrees ⟨fun one other _ same => ?_, fun all => all solved rfl rfl⟩
    cases same
    exact one

end KeyStore

namespace Sample

/-- The public key of the private key one. -/
def generator : CPubKey :=
  [0x02, 0x79, 0xbe, 0x66, 0x7e, 0xf9, 0xdc, 0xbb, 0xac, 0x55, 0xa0, 0x62, 0x95, 0xce, 0x87,
    0x0b, 0x07, 0x02, 0x9b, 0xfc, 0xdb, 0x2d, 0xce, 0x28, 0xd9, 0x59, 0xf2, 0x81, 0x5b, 0x16,
    0xf8, 0x17, 0x98]

def generatorID : CKeyID :=
  ⟨[0x75, 0x1e, 0x76, 0xe8, 0x19, 0x91, 0x96, 0xd4, 0x54, 0x94, 0x1c, 0x45, 0xd1, 0xb3, 0xa3,
     0x23, 0xf1, 0x43, 0x3b, 0xd6],
    by decide⟩

/-- A signature by that key of the hash seven. -/
def sevenSig : List UInt8 :=
  [0x30, 0x44, 0x02, 0x20, 0x45, 0x0e, 0xc9, 0xdc, 0x04, 0xc3, 0xd7, 0x5b, 0x2c, 0xde, 0x1c,
    0x1f, 0x4e, 0x55, 0xf6, 0xbd, 0xc2, 0x74, 0xb9, 0x63, 0x7b, 0xaf, 0xd1, 0xba, 0x59, 0x97,
    0xe8, 0x8b, 0xa1, 0xcb, 0xaa, 0x7e, 0x02, 0x20, 0x37, 0x6f, 0x4e, 0x0a, 0x77, 0x2d, 0xb8,
    0x57, 0x81, 0xce, 0x58, 0xe4, 0x8a, 0x75, 0x8d, 0x41, 0x34, 0x5e, 0x20, 0xc5, 0x8f, 0x5b,
    0x55, 0x8e, 0x03, 0xbe, 0xa3, 0x05, 0x2f, 0x2f, 0x5e, 0x74]

/-- A wallet with that key. -/
def generatorStore : KeyStore Unit where
  hash160 := fun vch => if vch = generator then generatorID else ⟨List.replicate 20 0, by decide⟩
  getPubKey := fun _ => generator
  fValid := fun _ => true
  ecdsaSign := fun _ _ => sevenSig
  getKey := fun keyID => if keyID = generatorID then some () else none

def signingReceiver : ReceivingNode :=
  { receiver false with
    verify := fun vchPubKey _ vchSig => decide (vchPubKey = generator ∧ vchSig = sevenSig) }

/-- A block of the proof of stake whose stake pays to a script. -/
def stakedBlock (scriptPubKey : CScript) : CBlock :=
  { hash := 7
    hashPrevBlock := 0
    vtx := [coinbase,
      { hash := 24
        vin := [{ prevout := ⟨10, 0⟩ }]
        vout := [⟨0, []⟩, ⟨100, scriptPubKey⟩] }] }

theorem generatorStore_signs : generatorStore.Signs signingReceiver.verify where
  verifies := fun _ _ _ => by
    change decide (generator = generator ∧ sevenSig = sevenSig) = true
    exact decide_eq_true ⟨rfl, rfl⟩
  filled := fun _ _ => cons_ne_nil _ _

theorem generatorStore_keeps : generatorStore.Keeps where
  own := by
    intro vchPubKey _ _ known
    by_contra other
    have zero : generatorStore.hash160 vchPubKey = ⟨replicate 20 0, by decide⟩ :=
      if_neg fun same => other same.symm
    have unknown : generatorStore.getKey ⟨replicate 20 0, by decide⟩ = none := by decide
    rw [zero, unknown] at known
    cases known

end Sample

open Sample

namespace KeyStore

theorem ok_of_toOption {ε α : Type} {result : Except ε α} {value : α}
    (found : result.toOption = some value) : result = .ok value := by
  cases result with
  | error fault => cases found
  | ok other => exact congrArg Except.ok (Option.some.inj found)

/-- A block that pays its stake to the key at hand is signed and accepted. -/
theorem key_block_accepted :
    ∃ signed, Sample.generatorStore.signBlock
        (Sample.stakedBlock ([33] ++ Sample.generator ++ [opChecksig])) = .ok signed ∧
      Sample.signingReceiver.checkBlockSignature signed = some true := by
  have accepted := (signed_accepted_iff generatorStore_signs generatorStore_keeps
    (stakedBlock ([33] ++ generator ++ [opChecksig]))).mpr (by
      intro solved _ solved_eq unverifiable
      have shape : stakeSolved (stakedBlock ([33] ++ generator ++ [opChecksig])) =
          some ⟨true, .pubkey, [generator]⟩ := by decide +kernel
      rw [shape] at solved_eq
      cases solved_eq
      generalize solution : [generator] = solutions at unverifiable
      cases unverifiable with
      | badKey vch bad known =>
        cases solution
        exact absurd bad (by decide))
  have signed : generatorStore.signBlock
      (stakedBlock ([33] ++ generator ++ [opChecksig])) =
        .ok { stakedBlock ([33] ++ generator ++ [opChecksig]) with
          vchBlockSig := sevenSig } := ok_of_toOption (by decide +kernel)
  exact ⟨_, signed, accepted _ signed⟩

/-- A block that pays its stake to the hash of the key at hand is signed and not accepted. -/
theorem keyHash_block_refused :
    Sample.generatorStore.Signs Sample.signingReceiver.verify ∧ Sample.generatorStore.Keeps ∧
      ∃ signed, Sample.generatorStore.signBlock
          (Sample.stakedBlock (getScriptForDestination Sample.generatorID)) = .ok signed ∧
        Sample.signingReceiver.checkBlockSignature signed = some false :=
  ⟨generatorStore_signs, generatorStore_keeps,
    { stakedBlock (getScriptForDestination generatorID) with
      vchBlockSig := sevenSig },
    ok_of_toOption (by decide +kernel), by decide +kernel⟩

end KeyStore

end CentNode
