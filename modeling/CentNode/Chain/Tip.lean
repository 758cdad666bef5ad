import CentNode.Library.Runs
import CentNode.Validation.InputChecks

/-!
# Moving the tip of the active chain

`ConnectTip` and `DisconnectTip` of `main.cpp` apply a block to `pcoinsTip`,
flush the state to disk and then move the tip.  Between the last two steps the
coins are those of a block that is not the tip, and a failed flush returns there.
-/

namespace CentNode

/-- How `FlushStateToDisk` ends: with nothing to do or everything written, with
a failure before the coins are written, or with a failure of the coins database,
which drops the cached coins and leaves those of the database. -/
inductive FlushOutcome where
  | done
  | failed (failure : Failure)
  | coinsFailed (database : Uint256 → CCoins)

/-- `FlushStateToDisk` on `pcoinsTip`. -/
def flushStateToDisk (pcoinsTip : FlatCoins) : FlushOutcome → Checked Unit × FlatCoins
  | .done => (.ok (), pcoinsTip)
  | .failed failure => (.error failure, pcoinsTip)
  | .coinsFailed database =>
    (.error (.abort "Failed to write to coin database"), { pcoinsTip with coins := database })

/-- The active chain, the tip first, with the coins and the spent outpoints. -/
structure ChainState where
  active : List CBlockIndex
  pcoinsTip : FlatCoins
  mapStakeSpent : StakeSpent := ∅

/-- A call of `ConnectTip` or `DisconnectTip`, with what the node and its disk do
during it; a block that cannot be read is `none`. -/
inductive TipCall where
  | connect (node : Node) (disk : DiskWrites) (pindexNew : CBlockIndex) (block : Option CBlock)
      (fAlreadyChecked : Bool) (flush : FlushOutcome)
  | disconnect (block : Option CBlock) (undoReadable : Bool) (flush : FlushOutcome)

namespace ChainState

/-- What both functions do after a block was applied: flush, and move the tip. -/
def flushAndUpdateTip (state : ChainState) (view : FlatCoins) (mapStakeSpent : StakeSpent)
    (flush : FlushOutcome) (active : List CBlockIndex) : Checked Unit × ChainState :=
  let flushed := flushStateToDisk view flush
  match flushed.1 with
  | .error failure =>
    (.error failure, { state with pcoinsTip := flushed.2, mapStakeSpent := mapStakeSpent })
  | .ok () => (.ok (), ⟨active, flushed.2, mapStakeSpent⟩)

/-- `ConnectTip`; `none` is a failed assertion.  The new entry is a child of the
tip, as the assertion at the top of the function demands. -/
def connectTip (state : ChainState) (node : Node) (disk : DiskWrites) (pindexNew : CBlockIndex)
    (block : Option CBlock) (fAlreadyChecked : Bool) (flush : FlushOutcome) :
    Option (Checked Unit × ChainState) :=
  match block with
  | none => some (.error (.abort "Failed to read block"), state)
  | some block =>
    match connectBlock { node with tip := state.active.head? } disk block pindexNew state.active
        state.pcoinsTip state.mapStakeSpent false fAlreadyChecked with
    | .error .assertion => none
    | .error failure => some (.error failure, state)
    | .ok connected =>
      some (state.flushAndUpdateTip connected.view connected.mapStakeSpent flush
        (connected.pindex :: state.active))

/-- `DisconnectTip`; without undo data, as for the genesis block, it fails before
it looks at the parent.  A failed `DisconnectBlock` drops its view, and leaves the spent
outpoints as it left them. -/
def disconnectTip (state : ChainState) (block : Option CBlock) (undoReadable : Bool)
    (flush : FlushOutcome) : Option (Checked Unit × ChainState) :=
  match state.active with
  | [] => none
  | pindexDelete :: rest =>
    match block with
    | none => some (.error (.abort "Failed to read block"), state)
    | some block =>
      match rest with
      | [] =>
        if pindexDelete.getBlockHash = state.pcoinsTip.bestBlock ∧ pindexDelete.getUndo = none
        then some (.error (.error "DisconnectBlock() : no undo data available"), state)
        else none
      | pprev :: _ =>
        let erased := spentAfterDisconnect undoReadable block pindexDelete state.mapStakeSpent
        match disconnectBlock undoReadable block pindexDelete pprev state.pcoinsTip
            state.mapStakeSpent with
        | .error .assertion => none
        | .error failure => some (.error failure, { state with mapStakeSpent := erased })
        | .ok undone =>
          if undone.fClean then
            some (state.flushAndUpdateTip undone.view undone.mapStakeSpent flush rest)
          else
            some (.error (.error "DisconnectTip() : DisconnectBlock failed"),
              { state with mapStakeSpent := erased })

def call (state : ChainState) : TipCall → Option (Checked Unit × ChainState)
  | .connect node disk pindexNew block fAlreadyChecked flush =>
    state.connectTip node disk pindexNew block fAlreadyChecked flush
  | .disconnect block undoReadable flush => state.disconnectTip block undoReadable flush

def step (state : ChainState) (input : TipCall) : Option ChainState := (state.call input).map (·.2)

/-- `pcoinsTip->GetBestBlock()` is the hash of `chainActive.Tip()`. -/
def Agrees (state : ChainState) : Prop := state.pcoinsTip.bestBlock = hashPrevBlock state.active

/-- Different blocks have different hashes: a child has not that of its parent. -/
def Admitted (state : ChainState) : TipCall → Prop
  | .connect _ _ pindexNew _ _ _ => pindexNew.getBlockHash ≠ hashPrevBlock state.active
  | .disconnect _ _ _ => True

structure Invariant (state : ChainState) : Prop where
  adjacent : state.active.IsChain fun child parent => child.getBlockHash ≠ parent.getBlockHash

/-- The block of the call is applied to the coins. -/
def applies (state : ChainState) : TipCall → Bool
  | .connect node disk pindexNew (some block) fAlreadyChecked _ =>
    (connectBlock { node with tip := state.active.head? } disk block pindexNew state.active
      state.pcoinsTip state.mapStakeSpent false fAlreadyChecked).isOk
  | .disconnect (some block) undoReadable _ =>
    match state.active with
    | pindexDelete :: pprev :: _ =>
      match disconnectBlock undoReadable block pindexDelete pprev state.pcoinsTip
          state.mapStakeSpent with
      | .ok undone => undone.fClean
      | .error _ => false
    | _ => false
  | _ => false

/-- The state is flushed without failure after the block of the call was applied. -/
def FlushHolds (state : ChainState) : TipCall → Prop
  | .connect node disk pindexNew block fAlreadyChecked flush =>
    state.applies (.connect node disk pindexNew block fAlreadyChecked flush) = true → flush = .done
  | .disconnect block undoReadable flush =>
    state.applies (.disconnect block undoReadable flush) = true → flush = .done

/-! ## One call -/

variable {state : ChainState} {flush : FlushOutcome}

theorem applies_connect_iff {node : Node} {disk : DiskWrites} {pindexNew : CBlockIndex}
    {block : CBlock} {fAlreadyChecked : Bool} :
    state.applies (.connect node disk pindexNew (some block) fAlreadyChecked flush) = true ↔
      ∃ connected, connectBlock { node with tip := state.active.head? } disk block pindexNew
        state.active state.pcoinsTip state.mapStakeSpent false fAlreadyChecked = .ok connected := by
  unfold applies
  dsimp only
  generalize connectBlock { node with tip := state.active.head? } disk block pindexNew
    state.active state.pcoinsTip state.mapStakeSpent false fAlreadyChecked = outcome
  cases outcome with
  | error failure =>
    exact ⟨fun impossible => (nomatch impossible), fun ⟨_, impossible⟩ => (nomatch impossible)⟩
  | ok connected => exact ⟨fun _ => ⟨connected, rfl⟩, fun _ => rfl⟩

theorem undoFor_of_applies {block : Option CBlock} {undoReadable : Bool}
    (applied : state.applies (.disconnect block undoReadable flush) = true) :
    ∃ read pindexDelete pprev rest, block = some read ∧
      state.active = pindexDelete :: pprev :: rest ∧
        (undoFor undoReadable read pindexDelete).isSome = true := by
  obtain ⟨active, pcoinsTip, mapStakeSpent⟩ := state
  cases block with
  | none => cases applied
  | some block =>
    match active with
    | [] => cases applied
    | [genesis] => cases applied
    | pindexDelete :: pprev :: rest =>
      refine ⟨block, pindexDelete, pprev, rest, rfl, rfl, ?_⟩
      unfold applies at applied
      dsimp only at applied
      split at applied
      · next undone ok =>
          obtain ⟨blockUndo, found, _⟩ := undoFor_of_disconnectBlock ok
          exact Option.isSome_of_mem found
      · cases applied

/-- What a call does: it leaves the chain and its coins alone, or it applies a block,
flushes and moves the tip. -/
inductive CallEffect (state : ChainState) (input : TipCall) : Prop where
  | refused (idle : state.applies input = false)
      (same : ∀ result, state.call input = some result →
        result.2.active = state.active ∧ result.2.pcoinsTip = state.pcoinsTip)
  | moved (view : FlatCoins) (mapStakeSpent : StakeSpent) (flush : FlushOutcome)
      (active : List CBlockIndex)
      (called : state.call input = some (state.flushAndUpdateTip view mapStakeSpent flush active))
      (onTop : view.bestBlock = hashPrevBlock active)
      (holds_iff : state.FlushHolds input ↔ flush = .done)
      (chain : (∃ pindex, active = pindex :: state.active ∧
          (state.Admitted input → pindex.getBlockHash ≠ hashPrevBlock state.active)) ∨
        ∃ pindex, state.active = pindex :: active ∧ active ≠ [])

theorem connect_effect (state : ChainState) (node : Node) (disk : DiskWrites)
    (pindexNew : CBlockIndex) (block : Option CBlock) (fAlreadyChecked : Bool)
    (flush : FlushOutcome) :
    CallEffect state (.connect node disk pindexNew block fAlreadyChecked flush) := by
  cases block with
  | none =>
    refine .refused rfl fun result called => ?_
    cases called
    exact ⟨rfl, rfl⟩
  | some block =>
    cases connected : connectBlock { node with tip := state.active.head? } disk block pindexNew
        state.active state.pcoinsTip state.mapStakeSpent false fAlreadyChecked with
    | error failure =>
      refine .refused (by simp [applies, connected, Except.isOk, Except.toBool]) ?_
      intro result called
      simp only [call, connectTip, connected] at called
      cases failure <;> cases called <;> exact ⟨rfl, rfl⟩
    | ok applied =>
      obtain ⟨best, hash_eq⟩ := connectBlock_bestBlock connected
      refine .moved applied.view applied.mapStakeSpent flush (applied.pindex :: state.active)
        ?_ ?_ ?_ (Or.inl ⟨applied.pindex, rfl, fun admitted => ?_⟩)
      · simp only [call, connectTip, connected]
      · rw [best, ← hash_eq]
        rfl
      · simp [FlushHolds, applies, connected, Except.isOk, Except.toBool]
      · rw [hash_eq]
        exact admitted

theorem disconnect_effect (state : ChainState) (block : Option CBlock) (undoReadable : Bool)
    (flush : FlushOutcome) : CallEffect state (.disconnect block undoReadable flush) := by
  obtain ⟨active, pcoinsTip, mapStakeSpent⟩ := state
  cases block with
  | none =>
    refine .refused rfl fun result called => ?_
    cases active with
    | nil => cases called
    | cons _ _ =>
      cases called
      exact ⟨rfl, rfl⟩
  | some block =>
    match active with
    | [] =>
      refine .refused rfl fun result called => ?_
      cases called
    | [genesis] =>
      refine .refused rfl fun result called => ?_
      simp only [call, disconnectTip] at called
      split at called
      · cases called
        exact ⟨rfl, rfl⟩
      · cases called
    | pindexDelete :: pprev :: rest =>
      cases undoing : disconnectBlock undoReadable block pindexDelete pprev pcoinsTip
          mapStakeSpent with
      | error failure =>
        refine .refused (by simp [applies, undoing]) fun result called => ?_
        simp only [call, disconnectTip, undoing] at called
        cases failure <;> cases called <;> exact ⟨rfl, rfl⟩
      | ok undone =>
        cases clean : undone.fClean with
        | false =>
          refine .refused (by simp [applies, undoing, clean]) fun result called => ?_
          simp only [call, disconnectTip, undoing, clean, Bool.false_eq_true, if_false]
            at called
          cases called
          exact ⟨rfl, rfl⟩
        | true =>
          refine .moved undone.view undone.mapStakeSpent flush (pprev :: rest) ?_
            (disconnectBlock_bestBlock undoing) ?_
            (Or.inr ⟨pindexDelete, rfl, List.cons_ne_nil _ _⟩)
          · simp only [call, disconnectTip, undoing, clean, if_true]
          · simp [FlushHolds, applies, undoing, clean]

theorem callEffect (state : ChainState) (input : TipCall) : CallEffect state input := by
  cases input with
  | connect node disk pindexNew block fAlreadyChecked flush =>
    exact connect_effect state node disk pindexNew block fAlreadyChecked flush
  | disconnect block undoReadable flush => exact disconnect_effect state block undoReadable flush

variable {input : TipCall}

theorem flushHolds_of_idle (idle : state.applies input = false) : state.FlushHolds input := by
  cases input with
  | connect node disk pindexNew block fAlreadyChecked flush =>
    intro applied
    rw [idle] at applied
    cases applied
  | disconnect block undoReadable flush =>
    intro applied
    rw [idle] at applied
    cases applied

variable {active : List CBlockIndex}

theorem flushAndUpdateTip_agrees {view : FlatCoins} {mapStakeSpent : StakeSpent}
    (onTop : view.bestBlock = hashPrevBlock active)
    (differs : hashPrevBlock active ≠ hashPrevBlock state.active) :
    Agrees (state.flushAndUpdateTip view mapStakeSpent flush active).2 ↔ flush = .done := by
  cases flush with
  | done => exact iff_of_true onTop rfl
  | failed failure =>
    refine iff_of_false (fun agrees => ?_) fun impossible => (nomatch impossible)
    exact differs (onTop.symm.trans agrees)
  | coinsFailed database =>
    refine iff_of_false (fun agrees => ?_) fun impossible => (nomatch impossible)
    exact differs (onTop.symm.trans agrees)

theorem flushAndUpdateTip_active (state : ChainState) (view : FlatCoins)
    (mapStakeSpent : StakeSpent) (flush : FlushOutcome) (active : List CBlockIndex) :
    (state.flushAndUpdateTip view mapStakeSpent flush active).2.active = active ∨
      (state.flushAndUpdateTip view mapStakeSpent flush active).2.active = state.active := by
  cases flush with
  | done => exact Or.inl rfl
  | failed failure => exact Or.inr rfl
  | coinsFailed database => exact Or.inr rfl

theorem tips_differ (inv : Invariant state) (admitted : state.Admitted input)
    (chain : (∃ pindex, active = pindex :: state.active ∧
        (state.Admitted input → pindex.getBlockHash ≠ hashPrevBlock state.active)) ∨
      ∃ pindex, state.active = pindex :: active ∧ active ≠ []) :
    hashPrevBlock active ≠ hashPrevBlock state.active ∧
      active.IsChain fun child parent => child.getBlockHash ≠ parent.getBlockHash := by
  have adjacent := inv.adjacent
  rcases chain with ⟨pindex, rfl, differs⟩ | ⟨pindex, active_eq, nonempty⟩
  · refine ⟨differs admitted, ?_⟩
    cases below : state.active with
    | nil => exact List.IsChain.singleton _
    | cons parent rest =>
      rw [below] at adjacent
      refine List.isChain_cons_cons.mpr ⟨?_, adjacent⟩
      have apart := differs admitted
      rw [below] at apart
      exact apart
  · rw [active_eq] at adjacent ⊢
    cases active with
    | nil => exact absurd rfl nonempty
    | cons parent rest =>
      obtain ⟨apart, below⟩ := List.isChain_cons_cons.mp adjacent
      exact ⟨Ne.symm apart, below⟩

section

variable {next : ChainState} (inv : Invariant state) (admitted : state.Admitted input)

include inv admitted

theorem step_invariant (stepped : state.step input = some next) :
    Invariant next := by
  obtain ⟨result, called, rfl⟩ := Option.map_eq_some_iff.mp stepped
  cases callEffect state input with
  | refused idle same =>
    refine ⟨?_⟩
    rw [(same result called).1]
    exact inv.adjacent
  | moved view mapStakeSpent flush active calledToo onTop holds_iff chain =>
    cases called.symm.trans calledToo
    refine ⟨?_⟩
    rcases flushAndUpdateTip_active state view mapStakeSpent flush active with new | old
    · rw [new]
      exact (tips_differ inv admitted chain).2
    · rw [old]
      exact inv.adjacent

theorem step_agrees_iff (agrees : Agrees state)
    (stepped : state.step input = some next) : Agrees next ↔ state.FlushHolds input := by
  obtain ⟨result, called, rfl⟩ := Option.map_eq_some_iff.mp stepped
  cases callEffect state input with
  | refused idle same =>
    obtain ⟨active_eq, coins_eq⟩ := same result called
    refine iff_of_true ?_ (flushHolds_of_idle idle)
    rw [Agrees, active_eq, coins_eq]
    exact agrees
  | moved view mapStakeSpent flush active calledToo onTop holds_iff chain =>
    cases called.symm.trans calledToo
    rw [holds_iff]
    exact flushAndUpdateTip_agrees onTop (tips_differ inv admitted chain).1

end

theorem flushHolds_of_stuck (stuck : state.step input = none) : state.FlushHolds input := by
  cases callEffect state input with
  | refused idle same => exact flushHolds_of_idle idle
  | moved view mapStakeSpent flush active called onTop holds_iff chain =>
    rw [step, called] at stuck
    cases stuck

/-! ## Whole runs -/

/-- The coins agree with the tip in every state of a run exactly if no flush
after an applied block fails. -/
theorem coins_agree_with_tip (start : ChainState) (calls : List TipCall)
    (inv : Invariant start) (agrees : Agrees start)
    (admitted : Runs.Meets step Admitted start calls) :
    Runs.Throughout step Agrees start calls ↔ Runs.Meets step FlushHolds start calls :=
  Runs.throughout_iff_meets (fun _ _ _ kept ok _ stepped _ => step_invariant kept ok stepped)
    (fun _ _ _ kept ok before stepped => step_agrees_iff kept ok before stepped)
    (fun _ _ stuck => flushHolds_of_stuck stuck) inv agrees admitted

/-- The tip at height 4999, and a call that connects a block with a stake to it. -/
def sampleStart : ChainState where
  active := [Sample.parent 4999]
  pcoinsTip := Sample.view

def sampleConnect (flush : FlushOutcome) : TipCall :=
  .connect (Sample.node true 4999) {} (Sample.context true 4999).pindex
    (some (Sample.block [Sample.coinbase, Sample.coinstake])) false flush

theorem coins_agree_with_tip_sample :
    Runs.Throughout step Agrees sampleStart
      [sampleConnect .done, .disconnect none true .done] := by
  refine (coins_agree_with_tip sampleStart _ ⟨List.IsChain.singleton _⟩ rfl ?_).mpr ?_
  · exact Runs.Meets.cons (show (2 : Uint256) ≠ 1 by decide) rfl (Runs.Meets.cons trivial rfl trivial)
  · exact Runs.Meets.cons (fun _ => rfl) rfl (Runs.Meets.cons (fun _ => rfl) rfl trivial)

/-- The disk fails after the block was applied: the coins are those of block 2
and the tip is still block 1. -/
theorem coins_ahead_of_tip :
    ∃ result next, sampleStart.call (sampleConnect (.failed (.error "out of disk space"))) =
        some (result, next) ∧
      result = .error (.error "out of disk space") ∧ Agrees sampleStart ∧
        next.pcoinsTip.bestBlock = 2 ∧ hashPrevBlock next.active = 1 ∧ ¬ Agrees next := by
  refine ⟨_, _, rfl, rfl, rfl, rfl, rfl, fun agrees => ?_⟩
  have impossible : (2 : Uint256) = 1 := agrees
  exact absurd impossible (by decide)

end ChainState

end CentNode
