import CentNode.Validation.ReceivedBlock

/-!
# Permanent marks and the state of the node

`ConnectTip` marks a block for good when `ConnectBlock` finds it invalid and not
possibly corrupted.  The checks are split into those that read only the block,
its chain and the coins, and four that read what the node happens to know: its
clock, its SwiftTX locks, and the payments it expects.
-/

namespace CentNode

open List Bool

/-! ## What differs between nodes -/

/-- What validation reads of a node besides the block tree. -/
structure LocalView where
  adjustedTime : Int := 0
  isInitialBlockDownload : Bool := false
  masternodeSynced : Bool := false
  sporkActive : Spork → Bool := fun _ => false
  mapFinalizedBudgets : FinalizedBudgets := ∅
  countEnabled : Nat := 0
  masternodePaymentValid : CTransaction → Int → Bool := fun _ _ => true
  mapLockedInputs : StdMap COutPoint Uint256 := ∅
  nScriptCheckThreads : Nat := 0
  fTxIndex : Bool := false

/-- The node with the same block tree in another local state. -/
def Node.within (node : Node) (seen : LocalView) : Node :=
  { node with
    prim := { node.prim with masternodePaymentValid := seen.masternodePaymentValid }
    adjustedTime := seen.adjustedTime
    isInitialBlockDownload := seen.isInitialBlockDownload
    masternodeSynced := seen.masternodeSynced
    sporkActive := seen.sporkActive
    mapFinalizedBudgets := seen.mapFinalizedBudgets
    countEnabled := seen.countEnabled
    mapLockedInputs := seen.mapLockedInputs
    nScriptCheckThreads := seen.nScriptCheckThreads
    fTxIndex := seen.fTxIndex }

/-- The local state that the node is in. -/
def Node.localView (node : Node) : LocalView where
  adjustedTime := node.adjustedTime
  isInitialBlockDownload := node.isInitialBlockDownload
  masternodeSynced := node.masternodeSynced
  sporkActive := node.sporkActive
  mapFinalizedBudgets := node.mapFinalizedBudgets
  countEnabled := node.countEnabled
  masternodePaymentValid := node.prim.masternodePaymentValid
  mapLockedInputs := node.mapLockedInputs
  nScriptCheckThreads := node.nScriptCheckThreads
  fTxIndex := node.fTxIndex

section

variable (node : Node) (seen : LocalView)

@[simp]
theorem Node.within_mapBlockIndex :
    (node.within seen).mapBlockIndex = node.mapBlockIndex :=
  rfl

@[simp]
theorem Node.within_params :
    (node.within seen).params = node.params :=
  rfl

@[simp]
theorem Node.within_getLegacySigOpCount :
    (node.within seen).prim.getLegacySigOpCount = node.prim.getLegacySigOpCount :=
  rfl

@[simp]
theorem Node.within_addP2SHSigOps :
    addP2SHSigOps (node.within seen) = addP2SHSigOps node :=
  rfl

/-- `InvalidBlockFound`, which `ConnectTip` calls when `ConnectBlock` finds the
block invalid, sets `BLOCK_FAILED_VALID` unless the block may be corrupted. -/
def connectTipMarks (outcome : Checked Connected) : Bool :=
  match outcome with
  | .error (.dos _ _ _ corruption) => !corruption
  | _ => false

/-- A block that `ConnectTip` is called on: a child of the tip, with its entry,
its ancestors and the coins at the tip. -/
structure TipBlock (node : Node) where
  block : CBlock
  pindex : CBlockIndex
  ancestors : List CBlockIndex
  view : FlatCoins
  tip : node.tip = ancestors.head?
  child : ∀ pprev ∈ ancestors.head?,
    block.hashPrevBlock = pprev.getBlockHash ∧ pindex.nHeight = pprev.nHeight + 1
  genesis : block.hash = node.params.hashGenesisBlock → ancestors = []

end

variable {node : Node}

/-- The state of a node when it connects the block.  A block is only connected
as already checked when `CheckBlock` passed it earlier. -/
structure NodeState (target : TipBlock node) where
  seen : LocalView
  disk : DiskWrites := {}
  mapStakeSpent : StakeSpent := ∅
  nStatus : BlockStatus := {}
  undoData : CBlockUndo := {}
  fAlreadyChecked : Bool := false
  checked : fAlreadyChecked = true → ∃ earlier tip mapBlockIndex,
    checkBlock { node.within earlier with tip := tip, mapBlockIndex := mapBlockIndex }
      target.block true = .ok ()

namespace NodeState

variable {target : TipBlock node} (state : NodeState target)

/-- The entry of the block, as this node has it. -/
def pindex : CBlockIndex :=
  { target.pindex with nStatus := state.nStatus, undoData := state.undoData }

/-- The call of `ConnectBlock` in `ConnectTip`. -/
def connect : Checked Connected :=
  connectBlock (node.within state.seen) state.disk target.block state.pindex target.ancestors
    target.view state.mapStakeSpent false state.fAlreadyChecked

/-- `ConnectBlock` returns true. -/
def Accepts : Prop := ∃ connected, state.connect = .ok connected

/-- `ConnectTip` marks the entry of the block. -/
def marksFailed : Bool := connectTipMarks state.connect

end NodeState

/-! ## Checks that read only the block -/

/-- The checks of `CheckBlock` that give the same answer on every node. -/
structure ContextFree (node : Node) (block : CBlock) : Prop where
  work : (block.isProofOfWork && !node.prim.checkProofOfWork block.hash block.nBits) = false
  root : block.hashMerkleRoot = (node.prim.buildMerkleTree block.vtx).1
  unmutated : (node.prim.buildMerkleTree block.vtx).2 = false
  size : (block.vtx.isEmpty || block.vtx.length > maxBlockSize ||
    node.prim.blockSize block > maxBlockSize) = false
  coinbase : block.vtx.head?.any CTransaction.isCoinBase = true
  single : block.vtx.tail.any CTransaction.isCoinBase = false
  stake : checkStakeShape block = .ok ()
  transactions : block.vtx.forM (checkTransaction node) = .ok ()
  sigOps : (block.vtx.map node.prim.getLegacySigOpCount).sum ≤ maxBlockSigOps

/-- The checks of `CheckBlock` that read the clock, the locks and the payments. -/
structure LocalChecks (node : Node) (block : CBlock) : Prop where
  time : (block.nTime : Int) ≤ node.adjustedTime + futureDrift block
  locks : checkLocks node block = .ok ()
  payee : checkPayee node block = .ok ()

section CheckBlock

variable {block : CBlock}

/-- What is left of `CheckBlock` for a block that passes the first group. -/
theorem ContextFree.checkBlock_eq (rules : ContextFree node block) :
    checkBlock node block true =
      if (block.nTime : Int) > node.adjustedTime + futureDrift block then reject 0 "time-too-new"
      else checkLocks node block >>= fun _ => checkPayee node block := by
  have root : (true && decide (block.hashMerkleRoot ≠
      (node.prim.buildMerkleTree block.vtx).1)) = false := by
    rw [Bool.true_and, decide_eq_false_iff_not, ne_eq, Classical.not_not]
    exact rules.root
  unfold checkBlock
  rw [rules.work, if_neg Bool.false_ne_true]
  refine if_congr Iff.rfl rfl ?_
  rw [root, if_neg Bool.false_ne_true, Bool.true_and, rules.unmutated,
    if_neg Bool.false_ne_true, rules.size, if_neg Bool.false_ne_true, rules.coinbase, Bool.not_true,
    if_neg Bool.false_ne_true, rules.single, if_neg Bool.false_ne_true, rules.stake,
    rules.transactions]
  simp only [gt_iff_lt, not_lt.mpr rules.sigOps, if_false]
  exact congrArg (checkLocks node block >>= ·) (funext fun _ => bind_pure (checkPayee node block))

theorem ContextFree.checkBlock_ok_iff (rules : ContextFree node block) :
    checkBlock node block true = .ok () ↔ LocalChecks node block := by
  rw [rules.checkBlock_eq]
  by_cases late : (block.nTime : Int) > node.adjustedTime + futureDrift block
  · rw [if_pos late]
    exact ⟨fun impossible => absurd impossible reject_ne_ok,
      fun checks => absurd checks.time (not_le.mpr late)⟩
  · rw [if_neg late, Checked.bind_ok]
    constructor
    · rintro ⟨_, locks, payee⟩
      exact ⟨not_lt.mp late, locks, payee⟩
    · intro checks
      exact ⟨(), checks.locks, checks.payee⟩

theorem contextFree_of_ok (passed : checkBlock node block true = .ok ()) :
    ContextFree node block := by
  unfold checkBlock at passed
  split at passed
  · cases passed
  next work =>
  split at passed
  · cases passed
  split at passed
  · cases passed
  next root =>
  split at passed
  · cases passed
  next unmutated =>
  split at passed
  · cases passed
  next size =>
  split at passed
  · cases passed
  next coinbase =>
  split at passed
  · cases passed
  next single =>
  obtain ⟨_, stake, passed⟩ := Checked.bind_ok.mp passed
  obtain ⟨_, _, passed⟩ := Checked.bind_ok.mp passed
  obtain ⟨_, _, passed⟩ := Checked.bind_ok.mp passed
  obtain ⟨_, transactions, passed⟩ := Checked.bind_ok.mp passed
  split at passed
  · cases passed
  next sigOps =>
  exact
    { work := by simpa only [not_eq_true] using work
      root := by simpa using root
      unmutated := by simpa using unmutated
      size := by simpa only [not_eq_true] using size
      coinbase := by simpa using coinbase
      single := by simpa only [not_eq_true] using single
      stake := stake
      transactions := transactions
      sigOps := not_lt.mp sigOps }

theorem ContextFree.checkBlock_rejects (rules : ContextFree node block)
    (inside : checkPayee node block ≠ .error .assertion) :
    checkBlock node block true = .ok () ∨
      ∃ reason, checkBlock node block true = reject 0 reason := by
  rw [rules.checkBlock_eq]
  split
  · exact Or.inr ⟨_, rfl⟩
  unfold checkLocks
  split
  · exact Or.inr ⟨_, rfl⟩
  change checkPayee node block = _ ∨ ∃ reason, checkPayee node block = _
  unfold checkPayee at inside ⊢
  split
  · exact Or.inl rfl
  next pindexPrev active =>
  rw [active] at inside
  dsimp only at inside ⊢
  split
  · next made =>
      rw [if_pos made] at inside
      split
      · next outside =>
          rw [outside] at inside
          exact absurd rfl inside
      · exact Or.inl rfl
      · exact Or.inr ⟨_, rfl⟩
  · exact Or.inl rfl

end CheckBlock

theorem ContextFree.within {block : CBlock} (seen other : LocalView)
    {tip : Option CBlockIndex} {mapBlockIndex : Uint256 → Option CBlockIndex}
    (rules : ContextFree { node.within seen with tip := tip, mapBlockIndex := mapBlockIndex } block) :
    ContextFree (node.within other) block :=
  ⟨rules.work, rules.root, rules.unmutated, rules.size, rules.coinbase, rules.single, rules.stake,
    rules.transactions, rules.sigOps⟩

/-! ## The loop over the transactions in another local state -/

/-- All deferred checks pass. -/
def ScriptsPass (node : Node) (checks : List CScriptCheck) : Prop :=
  ∀ check ∈ checks, check.passes node.prim = true

section Loop

variable (seen other : LocalView) {rules : BlockRules} {tx : CTransaction}

variable {checks : List CScriptCheck}

theorem forM_runCheck_ok {prim : Primitives} (passed : ∀ check ∈ checks, check.passes prim = true) :
    checks.forM (runCheck prim) = .ok () := by
  induction checks with
  | nil => rfl
  | cons first rest ih =>
    rw [forM_eq_forM, forM_cons, runCheck, if_pos (passed first mem_cons_self)]
    exact ih fun check later => passed check (mem_cons_of_mem first later)

variable {deferred : List CScriptCheck}

theorem verifyScripts_within {fScriptChecks : Bool}
    (verified : verifyScripts (node.within seen) fScriptChecks checks = .ok deferred)
    (passed : ScriptsPass node deferred) :
    ∃ deferredToo, verifyScripts (node.within other) fScriptChecks checks = .ok deferredToo ∧
      ScriptsPass node deferredToo := by
  cases fScriptChecks with
  | false => exact ⟨[], rfl, by simp [ScriptsPass]⟩
  | true =>
    have all : ScriptsPass (node.within seen) checks := verifyScripts_ok verified passed
    unfold verifyScripts
    rw [Bool.not_true, if_neg Bool.false_ne_true]
    split
    · exact ⟨checks, rfl, all⟩
    · have ran : checks.forM (runCheck (node.within other).prim) = .ok () := forM_runCheck_ok all
      rw [ran]
      exact ⟨[], rfl, by simp [ScriptsPass]⟩

theorem checkInputs_within {view : FlatCoins} {fScriptChecks : Bool} {flags : ScriptFlags}
    (ran : checkInputs (node.within seen) tx view fScriptChecks flags = .ok deferred)
    (passed : ScriptsPass node deferred) :
    ∃ deferredToo, checkInputs (node.within other) tx view fScriptChecks flags = .ok deferredToo ∧
      ScriptsPass node deferredToo := by
  unfold checkInputs at ran ⊢
  rw [Node.within_mapBlockIndex] at ran ⊢
  cases best : node.mapBlockIndex view.bestBlock with
  | none =>
    rw [best] at ran
    cases ran
  | some pindexPrev =>
    rw [best] at ran
    dsimp only at ran ⊢
    split at ran
    · next asked =>
        rw [if_pos asked]
        split at ran
        · cases ran
        · next present =>
            rw [if_neg present]
            obtain ⟨nValueIn, summed, ran⟩ := Checked.bind_ok.mp ran
            obtain ⟨done, fee, verified⟩ := Checked.bind_ok.mp ran
            obtain ⟨deferredToo, verifiedToo, passedToo⟩ :=
              verifyScripts_within seen other verified passed
            exact ⟨deferredToo, Checked.bind_ok.mpr ⟨nValueIn, summed,
              Checked.bind_ok.mpr ⟨done, fee, verifiedToo⟩⟩, passedToo⟩
    · next skipped =>
        rw [if_neg skipped]
        exact ⟨[], rfl, by simp [ScriptsPass]⟩

theorem addP2SHSigOps_vChecks (state : ConnectState) (vChecks : List CScriptCheck) :
    addP2SHSigOps node rules tx { state with vChecks := vChecks } =
      addP2SHSigOps node rules tx state :=
  rfl

variable {state : ConnectState} {vChecks : List CScriptCheck}

variable {first : Bool} {txs : List CTransaction} {next final checked : ConnectState}

theorem connectInputs_within (ran : connectInputs (node.within seen) rules tx state = .ok checked)
    (passed : ScriptsPass node checked.vChecks) (passedToo : ScriptsPass node vChecks) :
    ∃ vChecksToo, connectInputs (node.within other) rules tx { state with vChecks := vChecks } =
        .ok { checked with vChecks := vChecksToo } ∧ ScriptsPass node vChecksToo := by
  unfold connectInputs at ran ⊢
  rw [Node.within_addP2SHSigOps] at ran ⊢
  rw [addP2SHSigOps_vChecks]
  dsimp only
  split at ran
  · cases ran
  next present =>
  rw [if_neg present]
  split at ran
  · cases ran
  next few =>
  rw [if_neg few]
  cases valueIn : state.view.getValueIn tx with
  | none =>
    rw [valueIn] at ran
    cases ran
  | some nIn =>
    rw [valueIn] at ran
    dsimp only at ran ⊢
    obtain ⟨nFees, added, ran⟩ := Checked.bind_ok.mp ran
    obtain ⟨deferred, inputs, done⟩ := Checked.bind_ok.mp ran
    cases done
    obtain ⟨deferredToo, inputsToo, passedThere⟩ := checkInputs_within seen other inputs
      fun check member => passed check (mem_append_right _ member)
    refine ⟨vChecks ++ deferredToo, ?_, ?_⟩
    · exact Checked.bind_ok.mpr ⟨nFees, added,
        Checked.bind_ok.mpr ⟨deferredToo, inputsToo, rfl⟩⟩
    · intro check member
      rcases mem_append.mp member with before | here
      · exact passedToo check before
      · exact passedThere check here

theorem checkTx_within (ran : checkTx (node.within seen) rules tx state = .ok checked)
    (passed : ScriptsPass node checked.vChecks) (passedToo : ScriptsPass node vChecks) :
    ∃ vChecksToo, checkTx (node.within other) rules tx { state with vChecks := vChecks } =
        .ok { checked with vChecks := vChecksToo } ∧ ScriptsPass node vChecksToo := by
  unfold checkTx at ran ⊢
  dsimp only at ran ⊢
  rw [Node.within_getLegacySigOpCount] at ran ⊢
  split at ran
  · cases ran
  next few =>
  rw [if_neg few]
  split at ran
  · next coinbase =>
      cases ran
      rw [if_pos coinbase]
      exact ⟨vChecks, rfl, passedToo⟩
  · next spends =>
      rw [if_neg spends]
      exact connectInputs_within seen other ran passed passedToo

theorem connectTx_within (ran : connectTx (node.within seen) rules first tx state = .ok next)
    (passed : ScriptsPass node next.vChecks) (passedToo : ScriptsPass node vChecks) :
    ∃ vChecksToo, connectTx (node.within other) rules first tx { state with vChecks := vChecks } =
        .ok { next with vChecks := vChecksToo } ∧ ScriptsPass node vChecksToo := by
  obtain ⟨checked, here, applied⟩ := Checked.bind_ok.mp ran
  unfold applyTx at applied
  split at applied
  · cases applied
  next nOut value =>
  split at applied
  · cases applied
  next updated coins =>
  cases applied
  obtain ⟨vChecksToo, hereToo, passes⟩ := checkTx_within seen other here passed passedToo
  refine ⟨vChecksToo, Checked.bind_ok.mpr ⟨_, hereToo, ?_⟩, passes⟩
  unfold applyTx
  rw [value]
  dsimp only
  rw [coins]

theorem connectTxs_within (looped : connectTxs (node.within seen) rules first txs state = .ok final)
    (passed : ScriptsPass node final.vChecks) (passedToo : ScriptsPass node vChecks) :
    ∃ vChecksToo, connectTxs (node.within other) rules first txs { state with vChecks := vChecks } =
        .ok { final with vChecks := vChecksToo } ∧ ScriptsPass node vChecksToo := by
  induction txs generalizing first state vChecks with
  | nil =>
    cases looped
    exact ⟨vChecks, rfl, passedToo⟩
  | cons tx rest ih =>
    unfold connectTxs at looped ⊢
    split at looped
    · cases looped
    next next stepped =>
    have grows := connectTxs_vChecks_grow looped
    obtain ⟨vChecksNext, steppedToo, passes⟩ := connectTx_within seen other stepped
      (fun check member => passed check (grows.subset member)) passedToo
    rw [steppedToo]
    exact ih looped passes

end Loop

/-! ## The verdicts of two nodes -/

/-- The loop over the transactions of the block. -/
def TipBlock.loop (target : TipBlock node) (connecting : Node) : Checked ConnectState :=
  connectTxs connecting (blockRules node target.block target.pindex target.ancestors) true
    target.block.vtx { view := target.view }

/-- The block keeps the rules that read only the block, its chain and the coins. -/
structure TipBlock.ChainValid (target : TipBlock node) : Prop where
  contextFree : ContextFree node target.block
  onParent : hashPrevBlock target.ancestors = target.view.bestBlock
  connects : target.block.hash ≠ node.params.hashGenesisBlock →
    ∃ pprev final, target.ancestors.head? = some pprev ∧
      connectPreliminary node target.block target.pindex target.view = .ok () ∧
        target.loop node = .ok final ∧ ScriptsPass node final.vChecks

namespace NodeState

variable {target : TipBlock node}

def AmountPasses (state : NodeState target) : Prop :=
  ∀ pprev final, target.ancestors.head? = some pprev →
    target.loop (node.within state.seen) = .ok final →
      isBlockValueValid (node.within state.seen) target.block
        (expectedMint node pprev pprev target.block final.nFees)
        (recordMint target.pindex pprev final).nMint = true

/-- The block passes the checks that read the clock, the locks, the payee and
the amount.  The amount is reached if the index is written. -/
structure LocalPasses (state : NodeState target) : Prop where
  checks : state.fAlreadyChecked = false → LocalChecks (node.within state.seen) target.block
  amount : target.block.hash ≠ node.params.hashGenesisBlock →
    state.disk.writeBlockIndex = true → state.AmountPasses

/-- The first part of `ConnectBlock` passes. -/
def Rechecked (state : NodeState target) : Prop :=
  state.fAlreadyChecked = false → checkBlock (node.within state.seen) target.block true = .ok ()

/-- The end of `ConnectBlock` after the loop. -/
def finish (state : NodeState target) (pprev : CBlockIndex) (final : ConnectState) :
    Checked Connected :=
  finishConnect (node.within state.seen) state.disk target.block state.pindex pprev
    state.mapStakeSpent false final

theorem contextFree_of_rechecked {state : NodeState target} (passed : state.Rechecked) :
    ContextFree node target.block := by
  cases again : state.fAlreadyChecked with
  | false => exact (contextFree_of_ok (passed again)).within state.seen node.localView
  | true =>
    obtain ⟨earlier, tip, mapBlockIndex, checked⟩ := state.checked again
    exact (contextFree_of_ok checked).within earlier node.localView

theorem loop_within (seen other : LocalView) {final : ConnectState}
    (looped : target.loop (node.within seen) = .ok final)
    (passed : ScriptsPass node final.vChecks) :
    ∃ finalToo, target.loop (node.within other) = .ok finalToo ∧ ScriptsPass node finalToo.vChecks := by
  have nothing : ScriptsPass node [] := by simp [ScriptsPass]
  obtain ⟨vChecks, loopedToo, passedToo⟩ := connectTxs_within seen other looped passed nothing
  exact ⟨_, loopedToo, passedToo⟩

variable (state : NodeState target)

/-- `ConnectBlock` on a block that keeps the rules of the chain, after `CheckBlock`. -/
theorem connect_of_chainValid (valid : target.ChainValid) (passed : state.Rechecked) :
    (target.block.hash = node.params.hashGenesisBlock ∧ state.Accepts) ∨
      (target.block.hash ≠ node.params.hashGenesisBlock ∧
        ∃ pprev final, target.ancestors.head? = some pprev ∧
          target.loop (node.within state.seen) = .ok final ∧ ScriptsPass node final.vChecks ∧
            state.connect = state.finish pprev final) := by
  have first : (if state.fAlreadyChecked then .ok ()
      else checkBlock (node.within state.seen) target.block (!false)) = .ok () := by
    cases again : state.fAlreadyChecked with
    | false => exact passed again
    | true => rfl
  by_cases genesis : target.block.hash = node.params.hashGenesisBlock
  · refine Or.inl ⟨genesis, ?_⟩
    unfold Accepts connect connectBlock
    rw [first]
    dsimp only
    rw [if_pos valid.onParent, Node.within_params, if_pos genesis]
    exact ⟨_, rfl⟩
  · obtain ⟨pprev, finalThere, parent, preliminary, looped, scripts⟩ := valid.connects genesis
    obtain ⟨final, here, passes⟩ := loop_within node.localView state.seen looped scripts
    refine Or.inr ⟨genesis, pprev, final, parent, here, passes, ?_⟩
    have preliminaryHere : connectPreliminary (node.within state.seen) target.block state.pindex
        target.view = .ok () := preliminary
    have loopedHere : connectTxs (node.within state.seen)
        (blockRules (node.within state.seen) target.block state.pindex target.ancestors) true
        target.block.vtx { view := target.view } = .ok final := here
    unfold connect connectBlock
    rw [first]
    dsimp only
    rw [if_pos valid.onParent, Node.within_params, if_neg genesis, preliminaryHere]
    dsimp only
    rw [loopedHere]
    dsimp only
    rw [parent]
    rfl

theorem chainValid_of_accepts {state : NodeState target} (accepts : state.Accepts) :
    target.ChainValid := by
  obtain ⟨connected, done⟩ := accepts
  unfold connect connectBlock at done
  split at done
  · cases done
  next first =>
  have passed : state.Rechecked := by
    intro again
    rw [again, if_neg Bool.false_ne_true] at first
    exact first
  by_cases onParent : hashPrevBlock target.ancestors = target.view.bestBlock
  swap
  · rw [if_neg onParent] at done
    cases done
  refine ⟨contextFree_of_rechecked passed, onParent, fun genesis => ?_⟩
  rw [if_pos onParent, Node.within_params, if_neg genesis] at done
  split at done
  · cases done
  next preliminary =>
  split at done
  · cases done
  next final looped =>
  split at done
  · cases done
  next pprev parent =>
  have finished := finished_of_ok done
  obtain ⟨finalToo, loopedToo, passedToo⟩ :=
    loop_within state.seen node.localView looped finished.scripts
  exact ⟨pprev, finalToo, parent, preliminary, loopedToo, passedToo⟩

/-- A node only marks a block at the end of `ConnectBlock` for its amount. -/
theorem marks_finish_iff {pprev : CBlockIndex} {final : ConnectState}
    (parent : target.ancestors.head? = some pprev) (passes : ScriptsPass node final.vChecks) :
    connectTipMarks (state.finish pprev final) = true ↔
      state.disk.writeBlockIndex = true ∧
        isBlockValueValid (node.within state.seen) target.block
          (expectedMint node pprev pprev target.block final.nFees)
          (recordMint target.pindex pprev final).nMint = false := by
  have tip : (node.within state.seen).tip = some pprev := target.tip.trans parent
  have scripts : final.vChecks.all (·.passes (node.within state.seen).prim) = true :=
    all_eq_true.mpr passes
  unfold finish finishConnect
  rw [tip]
  dsimp only
  cases state.disk.writeBlockIndex with
  | false => exact ⟨fun impossible => (nomatch impossible), fun both => (nomatch both.1)⟩
  | true =>
    rw [Bool.not_true, if_neg Bool.false_ne_true]
    change connectTipMarks (if (!isBlockValueValid (node.within state.seen) target.block
      (expectedMint node pprev pprev target.block final.nFees)
      (recordMint target.pindex pprev final).nMint) = true then _ else _) = true ↔ _
    cases isBlockValueValid (node.within state.seen) target.block
      (expectedMint node pprev pprev target.block final.nFees)
      (recordMint target.pindex pprev final).nMint with
    | false => exact ⟨fun _ => ⟨rfl, rfl⟩, fun _ => rfl⟩
    | true =>
      rw [Bool.not_true, if_neg Bool.false_ne_true, scripts, Bool.not_true,
        if_neg Bool.false_ne_true, if_neg Bool.false_ne_true]
      refine iff_of_false ?_ (fun both => nomatch both.2)
      rw [not_eq_true]
      -- what is left writes to the disk
      unfold recordUndo
      split
      · next failure failed =>
          split at failed
          · split at failed
            · split at failed
              · cases failed
                rfl
              · split at failed
                · cases failed
                  rfl
                · cases failed
            · cases failed
          · cases failed
      · split
        · rfl
        · rfl

theorem checkPayee_inside (valid : target.ChainValid) :
    checkPayee (node.within state.seen) target.block ≠ .error .assertion := by
  have filled : target.block.vtx ≠ [] := by
    intro empty
    have coinbase := valid.contextFree.coinbase
    rw [empty] at coinbase
    cases coinbase
  intro outside
  obtain ⟨single, _, _, tip, active, _, above⟩ := (checkPayee_assertion_iff filled).mp outside
  have parent : target.ancestors.head? = some tip := target.tip.symm.trans active
  have notGenesis : target.block.hash ≠ node.params.hashGenesisBlock := by
    intro genesis
    rw [target.genesis genesis] at parent
    cases parent
  obtain ⟨_, _, _, preliminary, _⟩ := valid.connects notGenesis
  obtain ⟨onTip, height⟩ := target.child tip parent
  obtain ⟨coinbase, shape⟩ := length_eq_one_iff.mp single
  have worked : target.block.isProofOfWork = true := by
    rw [CBlock.isProofOfWork, CBlock.isProofOfStake, shape]
    rfl
  have late : (target.pindex.nHeight : Int) > node.params.lastPowBlock := by
    rw [Node.heightOf, if_pos onTip.symm, Node.within_params] at above
    rw [height]
    push_cast
    exact above
  unfold connectPreliminary at preliminary
  rw [if_neg (fun early => absurd early.1 (not_le.mpr late)), if_pos ⟨late, worked⟩] at preliminary
  cases preliminary

/-- A node marks a block that keeps the rules of the chain exactly if one of
its local checks fails. -/
theorem marksFailed_iff (valid : target.ChainValid) :
    state.marksFailed = true ↔ ¬ state.LocalPasses := by
  have free : ContextFree (node.within state.seen) target.block :=
    valid.contextFree.within node.localView state.seen
  by_cases passed : state.Rechecked
  · have checks : state.fAlreadyChecked = false →
        LocalChecks (node.within state.seen) target.block :=
      fun again => free.checkBlock_ok_iff.mp (passed again)
    rcases state.connect_of_chainValid valid passed with
      ⟨genesis, connected, done⟩ | ⟨genesis, pprev, final, parent, looped, passes, done⟩
    · unfold marksFailed
      rw [done]
      exact iff_of_false Bool.false_ne_true (Classical.not_not.mpr ⟨checks, fun other => absurd genesis other⟩)
    · unfold marksFailed
      rw [done, state.marks_finish_iff parent passes]
      constructor
      · rintro ⟨written, refused⟩ passesHere
        have valued := passesHere.amount genesis written pprev final parent looped
        cases refused.symm.trans valued
      · intro fails
        by_contra unmarked
        refine fails ⟨checks, fun _ written other finalToo parentToo loopedToo => ?_⟩
        cases parent.symm.trans parentToo
        cases looped.symm.trans loopedToo
        by_contra refused
        exact unmarked ⟨written, by simpa only [not_eq_true] using refused⟩
  · unfold Rechecked at passed
    push Not at passed
    obtain ⟨again, refused⟩ := passed
    refine iff_of_true ?_ fun passesHere =>
      refused (free.checkBlock_ok_iff.mpr (passesHere.checks again))
    rcases free.checkBlock_rejects (state.checkPayee_inside valid) with done | ⟨reason, done⟩
    · exact absurd done refused
    · unfold marksFailed connect connectBlock
      rw [again, if_neg Bool.false_ne_true, Bool.not_false, done]
      rfl

/-! ## The node that rejects nothing of its own accord -/

/-- A finalized budget of one payment and one vote. -/
def budgetAt (nHeight : Int) : CFinalizedBudget where
  strBudgetName := "main"
  nBlockStart := nHeight
  vecBudgetPayments := [{}]
  mapVotes := AList.singleton 1
    { vin := { prevout := COutPoint.null }, nBudgetHash := 1, nTime := 0
      nTime_range := isInt64_zero }

theorem isBudgetPaymentBlock_budgetAt (nHeight : Int) :
    FinalizedBudgets.isBudgetPaymentBlock (AList.singleton 1 (budgetAt nHeight)) 0 nHeight = true := by
  have covers : (budgetAt nHeight).covers nHeight = true := by
    unfold CFinalizedBudget.covers CFinalizedBudget.getBlockEnd CFinalizedBudget.getBlockStart
    simp [budgetAt]
  have counted : FinalizedBudgets.highestCount (AList.singleton 1 (budgetAt nHeight)) (-1) nHeight =
      1 := by
    change (if (1 : Int) > -1 ∧ (budgetAt nHeight).covers nHeight = true then 1 else -1) = 1
    rw [if_pos ⟨by decide, covers⟩]
  unfold FinalizedBudgets.isBudgetPaymentBlock
  rw [counted]
  rfl

/-- A synced node whose clock shows the time of the block, that expects a budget
payment in it and enforces none. -/
def lenient (target : TipBlock node) : NodeState target where
  seen :=
    { adjustedTime := target.block.nTime
      isInitialBlockDownload := true
      masternodeSynced := true
      sporkActive := fun spork => spork = .enableSuperblocks
      mapFinalizedBudgets := AList.singleton 1 (budgetAt target.pindex.nHeight) }
  checked := fun impossible => absurd impossible Bool.false_ne_true

theorem lenient_checks (target : TipBlock node) :
    LocalChecks (node.within (lenient target).seen) target.block where
  time := by
    have drift : 0 ≤ futureDrift target.block := by
      unfold futureDrift
      split <;> decide
    exact Int.le_add_of_nonneg_right drift
  locks := rfl
  payee := by
    unfold checkPayee
    split
    · rfl
    · exact if_neg fun made => absurd (show true = false from made.2) (by decide)

theorem lenient_value (target : TipBlock node) {pprev : CBlockIndex}
    (parent : target.ancestors.head? = some pprev) (nExpectedValue nMinted : Int) :
    isBlockValueValid (node.within (lenient target).seen) target.block nExpectedValue nMinted =
      true := by
  have tip : (node.within (lenient target).seen).tip = some pprev := target.tip.trans parent
  obtain ⟨onTip, height⟩ := target.child pprev parent
  have height_eq : (node.within (lenient target).seen).heightOf pprev target.block =
      target.pindex.nHeight := by
    rw [Node.heightOf, if_pos onTip.symm, height]
    push_cast
    rfl
  have budget : (node.within (lenient target).seen).mapFinalizedBudgets.isBudgetPaymentBlock
      ((node.within (lenient target).seen).countEnabled : Int) target.pindex.nHeight = true :=
    isBudgetPaymentBlock_budgetAt target.pindex.nHeight
  unfold isBlockValueValid
  rw [tip]
  dsimp only
  rw [height_eq, budget]
  rfl

theorem lenient_accepts (valid : target.ChainValid) : (lenient target).Accepts := by
  have free : ContextFree (node.within (lenient target).seen) target.block :=
    valid.contextFree.within node.localView (lenient target).seen
  have passed : (lenient target).Rechecked := fun _ =>
    free.checkBlock_ok_iff.mpr (lenient_checks target)
  rcases (lenient target).connect_of_chainValid valid passed with
    ⟨_, accepts⟩ | ⟨_, pprev, final, parent, _, passes, done⟩
  · exact accepts
  · have tip : (node.within (lenient target).seen).tip = some pprev := target.tip.trans parent
    have scripts : final.vChecks.all (·.passes (node.within (lenient target).seen).prim) = true :=
      all_eq_true.mpr passes
    unfold Accepts
    rw [done]
    unfold finish finishConnect
    rw [tip]
    dsimp only
    rw [lenient_value target parent, scripts]
    exact ⟨_, rfl⟩

end NodeState

/-! ## When a permanent mark depends on the chain only -/

/-- A node that marks a block marks what every node with the same block tree
rejects, exactly if the block breaks a rule of the chain or passes the clock,
the locks, the payee and the amount of this node. -/
theorem mark_is_shared_iff {target : TipBlock node} (state : NodeState target) :
    (state.marksFailed = true → ∀ other : NodeState target, ¬ other.Accepts) ↔
      (target.ChainValid → state.LocalPasses) := by
  constructor
  · intro shared valid
    by_contra fails
    exact shared ((state.marksFailed_iff valid).mpr fails) (NodeState.lenient target)
      (NodeState.lenient_accepts valid)
  · intro passes marked other accepts
    have valid := NodeState.chainValid_of_accepts accepts
    exact (state.marksFailed_iff valid).mp marked (passes valid)

namespace Sample

/-- A proof-of-stake block on height 4999. -/
def staked : TipBlock (Sample.node true 4999) where
  block := block [coinbase, coinstake]
  pindex := { phashBlock := some 2, nHeight := 5000 }
  ancestors := [parent 4999]
  view := view
  tip := rfl
  child := by
    intro pprev same
    cases same
    decide
  genesis := fun same => absurd same (by decide)

/-- A synced node whose votes pay someone else in this block. -/
def voting : NodeState staked where
  seen :=
    { masternodeSynced := true
      sporkActive := fun spork => spork = .masternodePaymentEnforcement
      masternodePaymentValid := fun _ _ => false }
  checked := fun impossible => absurd impossible Bool.false_ne_true

/-- A node that is not synced. -/
def behind : NodeState staked where
  seen := {}
  checked := fun impossible => absurd impossible Bool.false_ne_true

end Sample

/-- The payment votes of one node mark a block that another accepts. -/
theorem votes_mark_accepted_block :
    Sample.voting.marksFailed = true ∧ Sample.behind.Accepts := by
  refine ⟨by decide, ?_⟩
  exact ⟨_, rfl⟩

end CentNode
