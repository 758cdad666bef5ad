import CentNode.Staking.KernelCheck
import CentNode.Validation.InputChecks

/-!
# The checks of a received block

`ProcessNewBlock` puts a block through `CheckBlock`, `CheckBlockSignature` and,
in `AcceptBlock`, `CheckWork` with `CheckProofOfStake`.  Each read of a vector
by index is kept apart from the answer of the function, so that a read outside
the bounds is an outcome of its own.
-/

namespace CentNode

open Option List

/-- `CPubKey::GetLen`. -/
def pubKeyLength (chHeader : UInt8) : Nat :=
  if chHeader = 2 ∨ chHeader = 3 then 33
  else if chHeader = 4 ∨ chHeader = 6 ∨ chHeader = 7 then 65
  else 0

/-- `CPubKey::IsValid` on a key made from bytes. -/
def pubKeyValid (vch : List UInt8) : Bool :=
  match vch with
  | [] => false
  | chHeader :: _ => decide (pubKeyLength chHeader ≠ 0 ∧ pubKeyLength chHeader = vch.length)

/-- A node that receives blocks: what the checks of the work read beyond the node of
block validation. -/
structure ReceivingNode where
  node : Node
  /-- `CPubKey::Verify`. -/
  verify : List UInt8 → Uint256 → List UInt8 → Bool
  /-- `GetTransaction`: the transaction and the hash of its block. -/
  getTransaction : Uint256 → Option (CTransaction × Uint256)
  /-- `VerifyScript` with the standard flags. -/
  verifyStandard : CTransaction → Nat → CScript → Bool
  readBlockFromDisk : CBlockIndex → Option CBlock
  getNextWorkRequired : CBlockIndex → CBlock → Nat
  /-- The comparison of difficulties before the fork, in floating point. -/
  bitsClose : Nat → Nat → Bool
  stakeHash : StakeHash
  stakeIndex : BlockMap
  vChain : List StakeIndex

/-- How far the checks of a block get: a vector is read outside its bounds, a check ends
the processing, or all checks pass. -/
inductive Verdict where
  | outOfBounds
  | stopped
  | passed
  deriving DecidableEq, Repr

/-- The verdict of a check that answers, or that reads outside the bounds. -/
def Verdict.ofCheck (answer : Option Bool) (next : Verdict) : Verdict :=
  match answer with
  | none => .outOfBounds
  | some false => .stopped
  | some true => next

namespace ReceivingNode

/-- `CBlock::CheckBlockSignature`; `none` for a read outside the bounds. -/
def checkBlockSignature (receiver : ReceivingNode) (block : CBlock) : Option Bool :=
  if block.isProofOfWork then some block.vchBlockSig.isEmpty
  else do
    let coinstake ← block.vtx[1]?
    let txout ← coinstake.vout[1]?
    let solved ← solver txout.scriptPubKey
    if solved.found then
      if solved.typeRet = .pubkey ∨ solved.typeRet = .pubkeyhash then
        let vchPubKey ← solved.vSolutions[0]?
        return pubKeyValid vchPubKey && !block.vchBlockSig.isEmpty &&
          receiver.verify vchPubKey block.hash block.vchBlockSig
      else return false
    else return false

/-- `CheckProofOfStake`, after the previous transaction is found. -/
def checkStakedOutput (receiver : ReceivingNode) (block : CBlock) (tx : CTransaction) (txin : CTxIn)
    (txPrev : CTransaction) (hashBlock : Uint256) : Option Bool := do
  let txout ← txPrev.vout[txin.prevout.n]?
  if receiver.verifyStandard tx 0 txout.scriptPubKey then
    match (receiver.node.mapBlockIndex hashBlock).bind receiver.readBlockFromDisk with
    | none => return false
    | some blockprev =>
      let kernel : StakeKernel := ⟨block.nBits, blockprev, txPrev, txin.prevout, block.nTime⟩
      let result ← checkStakeKernelHash receiver.stakeHash receiver.stakeIndex receiver.vChain
        kernel 0 true
      return result.ok
  else return false

/-- `CheckProofOfStake`; `none` for a read outside the bounds. -/
def checkProofOfStake (receiver : ReceivingNode) (block : CBlock) : Option Bool := do
  let tx ← block.vtx[1]?
  if tx.isCoinStake then
    let txin ← tx.vin[0]?
    match receiver.getTransaction txin.prevout.hash with
    | none => return false
    | some (txPrev, hashBlock) => receiver.checkStakedOutput block tx txin txPrev hashBlock
  else return false

/-- `CheckWork`; `none` for a read outside the bounds. -/
def checkWork (receiver : ReceivingNode) (block : CBlock) (pindexPrev : CBlockIndex) :
    Option Bool :=
  let nBitsRequired := receiver.getNextWorkRequired pindexPrev block
  if block.isProofOfWork = true ∧
      (pindexPrev.nHeight + 1 : Int) ≤ receiver.node.params.lastPowBlock then
    some (receiver.bitsClose block.nBits nBitsRequired)
  else if block.nBits ≠ nBitsRequired then some false
  else if block.isProofOfStake then receiver.checkProofOfStake block
  else some true

/-- The part of `AcceptBlock` up to `CheckWork`.  A parent that failed ends it, also when
it is reconsidered for being a checkpoint. -/
def acceptBlock (receiver : ReceivingNode) (block : CBlock) : Verdict :=
  if block.hash = receiver.node.params.hashGenesisBlock then .passed
  else
    match receiver.node.mapBlockIndex block.hashPrevBlock with
    | none => .stopped
    | some pindexPrev =>
      if pindexPrev.nStatus.failed then .stopped
      else .ofCheck (receiver.checkWork block pindexPrev) .passed

/-- `CheckBlock` read a vector outside its bounds: its only exits by assertion. -/
def checkedOutside (checked : Checked Unit) : Bool :=
  match checked with
  | .error .assertion => true
  | _ => false

/-- `ProcessNewBlock` up to the end of the checks; `fromPeer` is `pfrom != NULL`. -/
def processNewBlock (receiver : ReceivingNode) (block : CBlock) (fromPeer : Bool) : Verdict :=
  let checked := checkBlock receiver.node block true
  if checkedOutside checked then .outOfBounds
  else
    .ofCheck (receiver.checkBlockSignature block) <|
      if block.hash ≠ receiver.node.params.hashGenesisBlock ∧ fromPeer = true ∧
          receiver.node.mapBlockIndex block.hashPrevBlock = none then .stopped
      else
        match checked with
        | .error _ => .stopped
        | .ok () => receiver.acceptBlock block

end ReceivingNode

/-! ## Reads of `CheckBlock` -/

/-- A single transaction where the payee of a proof-of-stake block is looked for: the block
passes the tests before, and the node is synced beyond the proof-of-work phase. -/
structure PayeeReadOutside (node : Node) (block : CBlock) : Prop where
  single : block.vtx.length = 1
  coinbase : block.vtx.head?.any CTransaction.isCoinBase = true
  header : node.prim.checkProofOfWork block.hash block.nBits = true
  time : (block.nTime : Int) ≤ node.adjustedTime + 7200
  merkle : node.prim.buildMerkleTree block.vtx = (block.hashMerkleRoot, false)
  size : node.prim.blockSize block ≤ maxBlockSize
  download : node.isInitialBlockDownload = false
  synced : node.masternodeSynced = true
  height : ∃ tip, node.tip = some tip ∧ node.heightOf tip block ≠ 0 ∧
    node.params.lastPowBlock < node.heightOf tip block

section Assertion

variable {α β : Type}

theorem bind_eq_assertion {first : Checked α} {second : α → Checked β} :
    (first >>= second) = .error .assertion ↔
      first = .error .assertion ∨ ∃ value, first = .ok value ∧ second value = .error .assertion := by
  cases first with
  | error failure =>
    refine ⟨fun same => Or.inl ?_, fun either => ?_⟩
    · cases same
      rfl
    · rcases either with same | ⟨_, impossible, _⟩
      · cases same
        rfl
      · cases impossible
  | ok value =>
    refine ⟨fun same => Or.inr ⟨value, rfl, same⟩, fun either => ?_⟩
    rcases either with impossible | ⟨_, same, followed⟩
    · cases impossible
    · cases same
      exact followed

theorem ite_dos_eq_assertion {condition : Prop} [Decidable condition] {level : Nat}
    {code : Option RejectCode} {reason : String} {corruption : Bool} {rest : Checked α} :
    (if condition then .error (.dos level code reason corruption) else rest) =
      .error .assertion ↔ ¬ condition ∧ rest = .error .assertion := by
  by_cases holds : condition
  · rw [if_pos holds]
    exact ⟨fun impossible => (nomatch impossible), fun both => absurd holds both.1⟩
  · rw [if_neg holds]
    exact ⟨fun same => ⟨holds, same⟩, fun both => both.2⟩

theorem ite_reject_eq_assertion {condition : Prop} [Decidable condition] {level : Nat}
    {reason : String} {rest : Checked α} :
    (if condition then reject level reason else rest) = .error .assertion ↔
      ¬ condition ∧ rest = .error .assertion :=
  ite_dos_eq_assertion

theorem foldlM_ne_assertion {step : β → α → Checked β}
    (never : ∀ state entry, step state entry ≠ .error .assertion) (entries : List α) (state : β) :
    entries.foldlM step state ≠ .error .assertion := by
  induction entries generalizing state with
  | nil => exact fun impossible => (nomatch impossible)
  | cons entry rest ih =>
    rw [foldlM_cons, Ne, bind_eq_assertion]
    rintro (here | ⟨next, _, later⟩)
    · exact never state entry here
    · exact ih next later

theorem forM_ne_assertion {check : α → Checked Unit}
    (never : ∀ entry, check entry ≠ .error .assertion) (entries : List α) :
    entries.forM check ≠ .error .assertion := by
  induction entries with
  | nil => exact fun impossible => (nomatch impossible)
  | cons entry rest ih =>
    change ¬ (check entry >>= fun _ => rest.forM check) = .error .assertion
    rw [bind_eq_assertion]
    rintro (here | ⟨_, _, later⟩)
    · exact never entry here
    · exact ih later

end Assertion

section

variable (node : Node) (params : CChainParams) (tx : CTransaction) (block : CBlock)

theorem checkOutput_ne_assertion (nValueOut : Int)
    (txout : CTxOut) : checkOutput params tx nValueOut txout ≠ .error .assertion := by
  unfold checkOutput
  rw [Ne, ite_dos_eq_assertion, ite_reject_eq_assertion, ite_reject_eq_assertion,
    ite_reject_eq_assertion]
  rintro ⟨_, _, _, _, impossible⟩
  cases impossible

theorem checkTransaction_ne_assertion :
    checkTransaction node tx ≠ .error .assertion := by
  unfold checkTransaction
  rw [Ne, ite_reject_eq_assertion, ite_reject_eq_assertion, ite_reject_eq_assertion]
  rintro ⟨_, _, _, rest⟩
  split at rest
  · next failure summed =>
      cases rest
      exact foldlM_ne_assertion (checkOutput_ne_assertion node.params tx) tx.vout 0 summed
  · rw [ite_reject_eq_assertion] at rest
    obtain ⟨_, rest⟩ := rest
    split at rest
    · rw [ite_reject_eq_assertion] at rest
      cases rest.2
    · rw [ite_reject_eq_assertion] at rest
      cases rest.2

theorem checkStakeShape_ne_assertion :
    checkStakeShape block ≠ .error .assertion := by
  unfold checkStakeShape
  split
  · next staked =>
      split
      · rw [Ne, ite_dos_eq_assertion, ite_dos_eq_assertion, ite_dos_eq_assertion]
        rintro ⟨_, _, _, impossible⟩
        cases impossible
      · next short =>
          -- a proof-of-stake block has a second transaction
          exfalso
          unfold CBlock.isProofOfStake at staked
          split at staked
          · next shape => exact short _ _ _ shape
          · cases staked
  · intro impossible
    cases impossible

theorem checkLocks_ne_assertion :
    checkLocks node block ≠ .error .assertion := by
  unfold checkLocks
  rw [Ne, ite_reject_eq_assertion]
  rintro ⟨_, impossible⟩
  cases impossible

/-- The payee check reads outside the bounds exactly when it is made beyond the
proof-of-work phase on a block without a second transaction. -/
theorem checkPayee_assertion_iff {node : Node} {block : CBlock} (filled : block.vtx ≠ []) :
    checkPayee node block = .error .assertion ↔
      block.vtx.length = 1 ∧ node.isInitialBlockDownload = false ∧ node.masternodeSynced = true ∧
        ∃ tip, node.tip = some tip ∧ node.heightOf tip block ≠ 0 ∧
          node.params.lastPowBlock < node.heightOf tip block := by
  have positive := length_pos_of_ne_nil filled
  unfold checkPayee
  cases active : node.tip with
  | none =>
    exact ⟨fun impossible => (nomatch impossible),
      fun ⟨_, _, _, _, impossible, _⟩ => (nomatch impossible)⟩
  | some pindexPrev =>
    dsimp only
    have read : isBlockPayeeValid node block (node.heightOf pindexPrev block) = none ↔
        block.vtx.length = 1 ∧ node.masternodeSynced = true ∧
          node.params.lastPowBlock < node.heightOf pindexPrev block := by
      unfold isBlockPayeeValid
      cases synced : node.masternodeSynced with
      | false => simp
      | true =>
        rw [Bool.not_true, if_neg Bool.false_ne_true, map_eq_none_iff]
        by_cases above : node.heightOf pindexPrev block > node.params.lastPowBlock
        · rw [if_pos above, List.getElem?_eq_none_iff]
          constructor
          · exact fun short => ⟨by omega, rfl, above⟩
          · exact fun single => Nat.le_of_eq single.1
        · rw [if_neg above, List.getElem?_eq_none_iff]
          constructor
          · intro empty
            omega
          · exact fun single => absurd single.2.2 above
    by_cases made : node.heightOf pindexPrev block ≠ 0 ∧ node.isInitialBlockDownload = false
    · rw [if_pos made]
      constructor
      · intro outside
        split at outside
        · next unread =>
            obtain ⟨single, synced, above⟩ := read.mp unread
            exact ⟨single, made.2, synced, pindexPrev, rfl, made.1, above⟩
        · cases outside
        · cases outside
      · rintro ⟨single, _, synced, tip, same, _, above⟩
        cases same
        rw [read.mpr ⟨single, synced, above⟩]
    · rw [if_neg made]
      constructor
      · intro impossible
        cases impossible
      · rintro ⟨_, download, _, tip, same, nonzero, _⟩
        cases same
        exact absurd ⟨nonzero, download⟩ made

/-- The tests of `CheckBlock` that come before the payee. -/
def testsBeforePayee (node : Node) (block : CBlock) : Prop :=
  ¬ (block.isProofOfWork && !node.prim.checkProofOfWork block.hash block.nBits) = true ∧
    ¬ (block.nTime : Int) > node.adjustedTime + futureDrift block ∧
    ¬ (true && decide (block.hashMerkleRoot ≠ (node.prim.buildMerkleTree block.vtx).1)) = true ∧
    ¬ (true && (node.prim.buildMerkleTree block.vtx).2) = true ∧
    ¬ (block.vtx.isEmpty || decide (block.vtx.length > maxBlockSize) ||
      decide (node.prim.blockSize block > maxBlockSize)) = true ∧
    ¬ (!block.vtx.head?.any CTransaction.isCoinBase) = true ∧
    ¬ block.vtx.tail.any CTransaction.isCoinBase = true ∧
    checkStakeShape block = .ok () ∧ checkLocks node block = .ok ()

/-- `CheckBlock` leaves through an assertion only in the payee check. -/
theorem checkBlock_assertion_of_payee :
    checkBlock node block true = .error .assertion ↔
      testsBeforePayee node block ∧ checkPayee node block = .error .assertion := by
  unfold checkBlock testsBeforePayee
  rw [ite_dos_eq_assertion, ite_reject_eq_assertion, ite_dos_eq_assertion, ite_dos_eq_assertion,
    ite_reject_eq_assertion, ite_reject_eq_assertion, ite_reject_eq_assertion]
  simp only [and_assoc]
  refine and_congr_right fun _ => and_congr_right fun _ => and_congr_right fun _ =>
    and_congr_right fun _ => and_congr_right fun _ => and_congr_right fun _ =>
    and_congr_right fun _ => ?_
  rw [bind_eq_assertion]
  constructor
  · rintro (shape | ⟨_, shaped, rest⟩)
    · exact absurd shape (checkStakeShape_ne_assertion block)
    · rcases bind_eq_assertion.mp rest with locks | ⟨_, unlocked, rest⟩
      · exact absurd locks (checkLocks_ne_assertion node block)
      · refine ⟨shaped, unlocked, ?_⟩
        rcases bind_eq_assertion.mp rest with payee | ⟨_, _, rest⟩
        · exact payee
        · rcases bind_eq_assertion.mp rest with txs | ⟨_, _, rest⟩
          · exact absurd txs (forM_ne_assertion (checkTransaction_ne_assertion node) block.vtx)
          · exact nomatch (ite_dos_eq_assertion.mp rest).2
  · rintro ⟨shaped, unlocked, payee⟩
    exact Or.inr ⟨(), shaped, bind_eq_assertion.mpr (Or.inr ⟨(), unlocked,
      bind_eq_assertion.mpr (Or.inl payee)⟩)⟩

/-- For a block of one transaction the tests before the payee are those of the header, the
time, the merkle root, the size and the coinbase. -/
theorem testsBeforePayee_single {node : Node} {block : CBlock} (single : block.vtx.length = 1) :
    testsBeforePayee node block ↔
      block.vtx.head?.any CTransaction.isCoinBase = true ∧
        node.prim.checkProofOfWork block.hash block.nBits = true ∧
        (block.nTime : Int) ≤ node.adjustedTime + 7200 ∧
        node.prim.buildMerkleTree block.vtx = (block.hashMerkleRoot, false) ∧
        node.prim.blockSize block ≤ maxBlockSize := by
  obtain ⟨coinbase, shape⟩ := length_eq_one_iff.mp single
  have staked : block.isProofOfStake = false := by rw [CBlock.isProofOfStake, shape]
  have worked : block.isProofOfWork = true := by rw [CBlock.isProofOfWork, staked]; rfl
  have drift : futureDrift block = 7200 := by rw [futureDrift, staked]; rfl
  have shaped : checkStakeShape block = .ok () := by rw [checkStakeShape, staked]; rfl
  have unlocked : coinbase.isCoinBase = true → checkLocks node block = .ok () := by
    intro isBase
    have free : block.vtx.any (conflictsWithLock node.mapLockedInputs) = false := by
      rw [shape, any_cons, any_nil, conflictsWithLock, isBase]
      rfl
    rw [checkLocks, free, Bool.and_false]
    rfl
  have root : node.prim.buildMerkleTree block.vtx = (block.hashMerkleRoot, false) ↔
      block.hashMerkleRoot = (node.prim.buildMerkleTree block.vtx).1 ∧
        (node.prim.buildMerkleTree block.vtx).2 = false := by
    rw [Prod.ext_iff]
    exact ⟨fun both => ⟨both.1.symm, both.2⟩, fun both => ⟨both.1.symm, both.2⟩⟩
  have small : ¬ 1 > maxBlockSize := by decide
  unfold testsBeforePayee
  rw [root, worked, drift, single]
  simp only [shaped, shape, isEmpty_cons, head?_cons, any_some, tail_cons,
    any_nil, Bool.true_and, Bool.not_eq_true', Bool.not_eq_false, Bool.false_or,
    Bool.or_eq_true, decide_eq_true_eq, small, false_or, not_lt, gt_iff_lt, ne_eq,
    Bool.not_eq_true, decide_not, Bool.false_eq_true, not_false_iff, true_and]
  tauto

theorem checkBlock_assertion_iff :
    checkBlock node block true = .error .assertion ↔ PayeeReadOutside node block := by
  rw [checkBlock_assertion_of_payee]
  constructor
  · rintro ⟨tests, outside⟩
    have filled : block.vtx ≠ [] := by
      intro empty
      exact tests.2.2.2.2.1 (by rw [empty]; rfl)
    obtain ⟨single, download, synced, height⟩ := (checkPayee_assertion_iff filled).mp outside
    obtain ⟨coinbase, header, time, merkle, size⟩ := (testsBeforePayee_single single).mp tests
    exact ⟨single, coinbase, header, time, merkle, size, download, synced, height⟩
  · intro read
    have filled : block.vtx ≠ [] := by
      intro empty
      have single := read.single
      rw [empty] at single
      cases single
    exact ⟨(testsBeforePayee_single read.single).mpr
        ⟨read.coinbase, read.header, read.time, read.merkle, read.size⟩,
      (checkPayee_assertion_iff filled).mpr
        ⟨read.single, read.download, read.synced, read.height⟩⟩

end

/-! ## Reads of the stake checks -/

namespace ReceivingNode

/-- The kernel of the block names an output that the previous transaction does not have. -/
def StakedOutputMissing (receiver : ReceivingNode) (block : CBlock) : Prop :=
  ∃ coinstake txin txPrev hashBlock, block.vtx[1]? = some coinstake ∧
    coinstake.vin[0]? = some txin ∧
    receiver.getTransaction txin.prevout.hash = some (txPrev, hashBlock) ∧
    txPrev.vout.length ≤ txin.prevout.n

/-- The stake of the block is checked and its output does not exist. -/
structure StakeReadOutside (receiver : ReceivingNode) (block : CBlock) : Prop where
  accepted : checkBlock receiver.node block true = .ok ()
  signed : receiver.checkBlockSignature block = some true
  other : block.hash ≠ receiver.node.params.hashGenesisBlock
  parent : ∃ pindexPrev, receiver.node.mapBlockIndex block.hashPrevBlock = some pindexPrev ∧
    pindexPrev.nStatus.failed = false ∧
    block.nBits = receiver.getNextWorkRequired pindexPrev block
  staked : block.isProofOfStake = true
  missing : receiver.StakedOutputMissing block

theorem proofOfStake_shape {block : CBlock} (staked : block.isProofOfStake = true) :
    ∃ coinstake txin txout, block.vtx[1]? = some coinstake ∧ coinstake.isCoinStake = true ∧
      coinstake.vin[0]? = some txin ∧ coinstake.vout[1]? = some txout := by
  unfold CBlock.isProofOfStake at staked
  split at staked
  · next first coinstake rest shape =>
      have isStake := staked
      unfold CTransaction.isCoinStake at staked
      split at staked
      · next txin inputs empty txout outputs vin vout =>
          refine ⟨coinstake, txin, txout, ?_, isStake, ?_, ?_⟩
          · rw [shape]
            rfl
          · rw [vin]
            rfl
          · rw [vout]
            rfl
      · cases staked
  · cases staked

/-- `CheckBlockSignature` never reads outside the bounds. -/
theorem checkBlockSignature_isSome (receiver : ReceivingNode) (block : CBlock) :
    ∃ answer, receiver.checkBlockSignature block = some answer := by
  unfold checkBlockSignature
  by_cases worked : block.isProofOfWork = true
  · rw [if_pos worked]
    exact ⟨_, rfl⟩
  · rw [if_neg worked]
    have staked : block.isProofOfStake = true := by
      rw [CBlock.isProofOfWork, Bool.not_eq_true', Bool.not_eq_false] at worked
      exact worked
    obtain ⟨coinstake, _, txout, second, _, _, output⟩ := proofOfStake_shape staked
    obtain ⟨solved, found, filled⟩ := solver_spec txout.scriptPubKey
    rw [second, bind_eq_bind, bind_some, output, bind_eq_bind,
      bind_some, found, bind_eq_bind, bind_some]
    split
    · next matched =>
        split
        · next keyed =>
            have keyType : solved.typeRet ≠ .nullData := by
              rintro null
              rw [null] at keyed
              rcases keyed with impossible | impossible <;> cases impossible
            obtain ⟨vchPubKey, later, shape⟩ := exists_cons_of_ne_nil (filled matched keyType)
            rw [shape]
            exact ⟨_, rfl⟩
        · exact ⟨_, rfl⟩
    · exact ⟨_, rfl⟩

section

variable {receiver : ReceivingNode} {block : CBlock}

theorem checkStakedOutput_none_iff {tx txPrev : CTransaction} {txin : CTxIn} {hashBlock : Uint256} :
    receiver.checkStakedOutput block tx txin txPrev hashBlock = none ↔
      txPrev.vout.length ≤ txin.prevout.n := by
  unfold checkStakedOutput
  cases read : txPrev.vout[txin.prevout.n]? with
  | none => exact ⟨fun _ => List.getElem?_eq_none_iff.mp read, fun _ => rfl⟩
  | some txout =>
    have inside : ¬ txPrev.vout.length ≤ txin.prevout.n := by
      rw [← List.getElem?_eq_none_iff, read]
      exact fun impossible => (nomatch impossible)
    refine ⟨fun outside => absurd outside ?_, fun outside => absurd outside inside⟩
    -- the kernel check reads the same output once more
    rw [bind_eq_bind, bind_some]
    split
    · split
      · exact fun impossible => (nomatch impossible)
      · simp [checkStakeKernelHash, read]
    · exact fun impossible => (nomatch impossible)

theorem checkProofOfStake_none_iff (staked : block.isProofOfStake = true) :
    receiver.checkProofOfStake block = none ↔ receiver.StakedOutputMissing block := by
  obtain ⟨coinstake, txin, _, second, isStake, input, _⟩ := proofOfStake_shape staked
  unfold checkProofOfStake StakedOutputMissing
  rw [second, bind_eq_bind, bind_some, if_pos isStake, input, bind_eq_bind,
    bind_some]
  cases found : receiver.getTransaction txin.prevout.hash with
  | none =>
    refine ⟨fun impossible => (nomatch impossible), ?_⟩
    rintro ⟨_, _, _, _, same, sameInput, impossible, _⟩
    cases same
    cases input.symm.trans sameInput
    cases found.symm.trans impossible
  | some previous =>
    obtain ⟨txPrev, hashBlock⟩ := previous
    dsimp only
    rw [checkStakedOutput_none_iff]
    constructor
    · exact fun outside => ⟨coinstake, txin, txPrev, hashBlock, rfl, input, found, outside⟩
    · rintro ⟨_, _, _, _, same, sameInput, sameTx, outside⟩
      cases same
      cases input.symm.trans sameInput
      cases found.symm.trans sameTx
      exact outside

theorem checkWork_none_iff {pindexPrev : CBlockIndex} :
    receiver.checkWork block pindexPrev = none ↔
      block.nBits = receiver.getNextWorkRequired pindexPrev block ∧
        block.isProofOfStake = true ∧ receiver.StakedOutputMissing block := by
  unfold checkWork
  dsimp only
  cases staked : block.isProofOfStake with
  | false =>
    have never : ¬ (false = true) := Bool.false_ne_true
    split
    · exact ⟨fun impossible => (nomatch impossible), fun all => absurd all.2.1 never⟩
    · split
      · exact ⟨fun impossible => (nomatch impossible), fun all => absurd all.2.1 never⟩
      · exact ⟨fun impossible => (nomatch impossible), fun all => absurd all.2.1 never⟩
  | true =>
    have worked : block.isProofOfWork = false := by rw [CBlock.isProofOfWork, staked]; rfl
    rw [worked, if_neg (fun both => Bool.false_ne_true both.1)]
    split
    · next wrong => exact ⟨fun impossible => (nomatch impossible), fun all => absurd all.1 wrong⟩
    · next right =>
        rw [if_pos rfl, checkProofOfStake_none_iff staked]
        exact ⟨fun missing => ⟨not_not.mp right, rfl, missing⟩, fun all => all.2.2⟩

end

theorem ofCheck_outOfBounds_iff {answer : Option Bool} {next : Verdict} :
    Verdict.ofCheck answer next = .outOfBounds ↔
      answer = none ∨ answer = some true ∧ next = .outOfBounds := by
  cases answer with
  | none => exact ⟨fun _ => Or.inl rfl, fun _ => rfl⟩
  | some passed => cases passed <;> simp [Verdict.ofCheck]

variable {receiver : ReceivingNode} {block : CBlock} {fromPeer : Bool}

theorem acceptBlock_outOfBounds_iff :
    receiver.acceptBlock block = .outOfBounds ↔
      block.hash ≠ receiver.node.params.hashGenesisBlock ∧
        ∃ pindexPrev, receiver.node.mapBlockIndex block.hashPrevBlock = some pindexPrev ∧
          pindexPrev.nStatus.failed = false ∧ receiver.checkWork block pindexPrev = none := by
  unfold acceptBlock
  by_cases genesis : block.hash = receiver.node.params.hashGenesisBlock
  · rw [if_pos genesis]
    exact ⟨fun impossible => (nomatch impossible), fun all => absurd genesis all.1⟩
  · rw [if_neg genesis]
    cases known : receiver.node.mapBlockIndex block.hashPrevBlock with
    | none =>
      exact ⟨fun impossible => (nomatch impossible),
        fun ⟨_, _, impossible, _⟩ => (nomatch impossible)⟩
    | some pindexPrev =>
      dsimp only
      cases failed : pindexPrev.nStatus.failed with
      | true =>
        refine ⟨fun impossible => (nomatch impossible), ?_⟩
        rintro ⟨_, _, same, sound, _⟩
        cases same
        cases failed.symm.trans sound
      | false =>
        rw [if_neg Bool.false_ne_true, ofCheck_outOfBounds_iff]
        constructor
        · rintro (outside | ⟨_, impossible⟩)
          · exact ⟨genesis, pindexPrev, rfl, failed, outside⟩
          · cases impossible
        · rintro ⟨_, _, same, _, outside⟩
          cases same
          exact Or.inl outside

theorem acceptBlock_outside_iff (accepted : checkBlock receiver.node block true = .ok ())
    (signed : receiver.checkBlockSignature block = some true) :
    receiver.acceptBlock block = .outOfBounds ↔ receiver.StakeReadOutside block := by
  rw [acceptBlock_outOfBounds_iff]
  constructor
  · rintro ⟨other, pindexPrev, known, sound, outside⟩
    obtain ⟨bits, staked, missing⟩ := checkWork_none_iff.mp outside
    exact ⟨accepted, signed, other, ⟨pindexPrev, known, sound, bits⟩, staked, missing⟩
  · intro read
    obtain ⟨pindexPrev, known, sound, bits⟩ := read.parent
    exact ⟨read.other, pindexPrev, known, sound,
      checkWork_none_iff.mpr ⟨bits, read.staked, read.missing⟩⟩

theorem checkedOutside_iff {checked : Checked Unit} :
    checkedOutside checked = true ↔ checked = .error .assertion := by
  unfold checkedOutside
  split
  · exact ⟨fun _ => rfl, fun _ => rfl⟩
  · next other => exact ⟨fun impossible => (nomatch impossible), fun same => absurd same other⟩

theorem processNewBlock_outOfBounds_iff :
    receiver.processNewBlock block fromPeer = .outOfBounds ↔
      PayeeReadOutside receiver.node block ∨ receiver.StakeReadOutside block := by
  unfold processNewBlock
  dsimp only
  rw [← checkBlock_assertion_iff, ← checkedOutside_iff]
  by_cases outside : checkedOutside (checkBlock receiver.node block true) = true
  · rw [if_pos outside]
    exact ⟨fun _ => Or.inl outside, fun _ => rfl⟩
  · rw [if_neg outside, ofCheck_outOfBounds_iff, or_iff_right outside]
    obtain ⟨answer, answered⟩ := receiver.checkBlockSignature_isSome block
    constructor
    · rintro (unread | ⟨signed, later⟩)
      · cases answered.symm.trans unread
      · split at later
        · cases later
        · split at later
          · cases later
          · next accepted => exact (acceptBlock_outside_iff accepted signed).mp later
    · intro read
      refine Or.inr ⟨read.signed, ?_⟩
      obtain ⟨pindexPrev, known, _⟩ := read.parent
      rw [if_neg (fun all => by cases known.symm.trans all.2.2), read.accepted]
      exact (acceptBlock_outside_iff read.accepted read.signed).mpr read

/-- The checks of a received block stay inside the bounds of the vectors exactly when
neither the payee nor the staked output is looked for where there is none. -/
theorem received_block_in_bounds_iff (receiver : ReceivingNode) (block : CBlock)
    (fromPeer : Bool) :
    receiver.processNewBlock block fromPeer ≠ .outOfBounds ↔
      ¬ PayeeReadOutside receiver.node block ∧ ¬ receiver.StakeReadOutside block := by
  rw [Ne, processNewBlock_outOfBounds_iff, not_or]

end ReceivingNode

namespace Sample

/-- A node that knows one transaction, with one output. -/
def receiver (synced : Bool) : ReceivingNode where
  node := { node true 4999 with masternodeSynced := synced }
  verify := fun _ _ _ => true
  getTransaction := fun txid =>
    if txid = 10 then some ({ hash := 10, vin := [], vout := [⟨100, [3]⟩] }, 1) else none
  verifyStandard := fun _ _ _ => true
  readBlockFromDisk := fun _ => none
  getNextWorkRequired := fun _ _ => 0
  bitsClose := fun _ _ => true
  stakeHash := fun _ _ _ _ _ => 0
  stakeIndex := ∅
  vChain := []

/-- Stakes the eighth output of the known transaction and pays to a public key. -/
def phantomStake : CTransaction :=
  { hash := 24
    vin := [{ prevout := ⟨10, 7⟩ }]
    vout := [⟨0, []⟩, ⟨100, [33] ++ List.replicate 33 2 ++ [opChecksig]⟩] }

end Sample

namespace ReceivingNode

/-- A synced node looks for the coinstake of a block with a coinbase only, and any node
for the eighth output of a transaction with one. -/
theorem received_block_out_of_bounds :
    (Sample.receiver true).processNewBlock (Sample.block [Sample.coinbase]) true = .outOfBounds ∧
      (Sample.receiver false).processNewBlock
        { Sample.block [Sample.coinbase, Sample.phantomStake] with vchBlockSig := [1] } true =
          .outOfBounds := by
  decide

end ReceivingNode

end CentNode
