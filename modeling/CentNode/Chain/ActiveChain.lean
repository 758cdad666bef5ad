import CentNode.Chain.Tip

/-!
# The blocks of the active chain

The index entries of the active chain together with the blocks they stand for.
A connected block is put on top of the chain; what is disconnected is the block
that was connected last, as the block files hold it.
-/

namespace CentNode

open ChainState

/-- The active chain with the blocks of its entries, the tip first. -/
structure ActiveChain where
  chain : ChainState
  blocks : List CBlock

namespace ActiveChain

def entries (state : ActiveChain) : List (CBlockIndex × CBlock) :=
  state.chain.active.zip state.blocks

def height (state : ActiveChain) : Int :=
  match state.chain.active with
  | [] => -1
  | tip :: _ => tip.nHeight

def moveBlocks (blocks : List CBlock) : TipCall → List CBlock
  | .connect _ _ _ (some block) _ _ => block :: blocks
  | .connect _ _ _ none _ _ => blocks
  | .disconnect _ _ _ => blocks.tail

/-- One call; `none` is a failed assertion. -/
def step (state : ActiveChain) (input : TipCall) : Option ActiveChain :=
  (state.chain.call input).map fun result =>
    { chain := result.2
      blocks := match result.1 with
        | .ok () => moveBlocks state.blocks input
        | .error _ => state.blocks }

/-- What the caller and the block files do: the rules of the network stay the same, the new
entry is right above the tip, the genesis block spends nothing, and reading the tip gives
the block that was connected. -/
def Admitted (params : CChainParams) (state : ActiveChain) : TipCall → Prop
  | .connect node _ pindexNew block _ _ =>
    node.params = params ∧ (pindexNew.nHeight : Int) = state.height + 1 ∧
      ∀ read, block = some read → read.hash = params.hashGenesisBlock → read.spentOutpoints = []
  | .disconnect block _ _ => ∀ read, block = some read → state.blocks.head? = some read

/-- The entries have blocks, with their heights in order, and what has no parent spends
nothing. -/
structure WellFormed (state : ActiveChain) : Prop where
  sameLength : state.chain.active.length = state.blocks.length
  heights : state.chain.active.IsChain fun child parent => child.nHeight = parent.nHeight + 1
  bottom : ∀ entry ∈ state.entries, entry.1.nHeight = 0 → entry.2.spentOutpoints = []

/-! ## One call -/

inductive Effect (state : ActiveChain) : TipCall → ActiveChain → Prop where
  | connected {node : Node} {disk : DiskWrites} {pindexNew : CBlockIndex} {block : CBlock}
      {fAlreadyChecked : Bool} {result : Connected}
      (ok : connectBlock { node with tip := state.chain.active.head? } disk block pindexNew
        state.chain.active state.chain.pcoinsTip state.chain.mapStakeSpent false fAlreadyChecked =
          .ok result) :
      Effect state (.connect node disk pindexNew (some block) fAlreadyChecked .done)
        ⟨⟨result.pindex :: state.chain.active, result.view, result.mapStakeSpent⟩,
          block :: state.blocks⟩
  | disconnected {block : CBlock} {undoReadable : Bool} {pindexDelete pprev : CBlockIndex}
      {rest : List CBlockIndex} {undone : Disconnected}
      (tip : state.chain.active = pindexDelete :: pprev :: rest)
      (ok : disconnectBlock undoReadable block pindexDelete pprev state.chain.pcoinsTip
        state.chain.mapStakeSpent = .ok undone)
      (clean : undone.fClean = true) :
      Effect state (.disconnect (some block) undoReadable .done)
        ⟨⟨pprev :: rest, undone.view, undone.mapStakeSpent⟩, state.blocks.tail⟩
  | refused {input : TipCall} (idle : state.chain.applies input = false) : Effect state input state
  | erased {block : CBlock} {undoReadable : Bool} {flush : FlushOutcome}
      {pindexDelete pprev : CBlockIndex} {rest : List CBlockIndex}
      (tip : state.chain.active = pindexDelete :: pprev :: rest)
      (idle : state.chain.applies (.disconnect (some block) undoReadable flush) = false) :
      Effect state (.disconnect (some block) undoReadable flush)
        ⟨⟨state.chain.active, state.chain.pcoinsTip,
          spentAfterDisconnect undoReadable block pindexDelete state.chain.mapStakeSpent⟩,
            state.blocks⟩
  | stopped {input : TipCall} {next : ActiveChain} (failed : ¬ state.chain.FlushHolds input) :
      Effect state input next

variable {state next : ActiveChain}

theorem connect_step {node : Node} {disk : DiskWrites} {pindexNew : CBlockIndex}
    {block : Option CBlock} {fAlreadyChecked : Bool} {flush : FlushOutcome}
    (stepped : state.step (.connect node disk pindexNew block fAlreadyChecked flush) = some next) :
    Effect state (.connect node disk pindexNew block fAlreadyChecked flush) next := by
  obtain ⟨result, called, rfl⟩ := Option.map_eq_some_iff.mp stepped
  cases block with
  | none =>
    cases called
    exact .refused rfl
  | some block =>
    cases connected : connectBlock { node with tip := state.chain.active.head? } disk block
        pindexNew state.chain.active state.chain.pcoinsTip state.chain.mapStakeSpent false
        fAlreadyChecked with
    | error failure =>
      have idle : state.chain.applies
          (.connect node disk pindexNew (some block) fAlreadyChecked flush) = false := by
        simp [applies, connected, Except.isOk, Except.toBool]
      simp only [call, connectTip, connected] at called
      cases failure <;> cases called <;> exact .refused idle
    | ok applied =>
      simp only [call, connectTip, connected] at called
      cases called
      cases flush with
      | done => exact .connected connected
      | failed failure =>
        refine .stopped fun holds => ?_
        have impossible := holds (applies_connect_iff.mpr ⟨applied, connected⟩)
        cases impossible
      | coinsFailed database =>
        refine .stopped fun holds => ?_
        have impossible := holds (applies_connect_iff.mpr ⟨applied, connected⟩)
        cases impossible

theorem disconnect_step {block : Option CBlock} {undoReadable : Bool} {flush : FlushOutcome}
    (stepped : state.step (.disconnect block undoReadable flush) = some next) :
    Effect state (.disconnect block undoReadable flush) next := by
  obtain ⟨result, called, rfl⟩ := Option.map_eq_some_iff.mp stepped
  obtain ⟨⟨active, pcoinsTip, mapStakeSpent⟩, blocks⟩ := state
  cases block with
  | none =>
    cases active with
    | nil => cases called
    | cons _ _ =>
      cases called
      exact .refused rfl
  | some block =>
    match active with
    | [] => cases called
    | [genesis] =>
      simp only [call, disconnectTip] at called
      split at called
      · cases called
        exact .refused rfl
      · cases called
    | pindexDelete :: pprev :: rest =>
      cases undoing : disconnectBlock undoReadable block pindexDelete pprev pcoinsTip
          mapStakeSpent with
      | error failure =>
        have idle : applies ⟨pindexDelete :: pprev :: rest, pcoinsTip,
            mapStakeSpent⟩ (.disconnect (some block) undoReadable flush) = false := by
          simp [applies, undoing]
        simp only [call, disconnectTip, undoing] at called
        cases failure <;> cases called <;> exact .erased rfl idle
      | ok undone =>
        cases clean : undone.fClean with
        | false =>
          have idle : applies ⟨pindexDelete :: pprev :: rest, pcoinsTip,
              mapStakeSpent⟩ (.disconnect (some block) undoReadable flush) = false := by
            simp [applies, undoing, clean]
          simp only [call, disconnectTip, undoing, clean,
            Bool.false_eq_true, if_false] at called
          cases called
          exact .erased rfl idle
        | true =>
          have applied : applies ⟨pindexDelete :: pprev :: rest, pcoinsTip,
              mapStakeSpent⟩ (.disconnect (some block) undoReadable flush) = true := by
            simp [applies, undoing, clean]
          simp only [call, disconnectTip, undoing, clean,
            if_true] at called
          cases called
          cases flush with
          | done => exact .disconnected rfl undoing clean
          | failed failure =>
            refine .stopped fun holds => ?_
            have impossible := holds applied
            cases impossible
          | coinsFailed database =>
            refine .stopped fun holds => ?_
            have impossible := holds applied
            cases impossible

theorem step_effect {input : TipCall} (stepped : state.step input = some next) :
    Effect state input next := by
  cases input with
  | connect => exact connect_step stepped
  | disconnect => exact disconnect_step stepped

/-! ## The shape of the chain -/

section Shape

variable {params : CChainParams} {state : ActiveChain}

theorem WellFormed.height_at (formed : state.WellFormed) {i : Nat} {entry : CBlockIndex × CBlock}
    (found : state.entries[i]? = some entry) : (entry.1.nHeight : Int) + i = state.height := by
  have inActive : state.chain.active[i]? = some entry.1 := (List.getElem?_zip_eq_some.mp found).1
  have fall : ∀ (active : List CBlockIndex) (tip : CBlockIndex) (j : Nat) (pindex : CBlockIndex),
      (tip :: active).IsChain (fun child parent => child.nHeight = parent.nHeight + 1) →
        (tip :: active)[j]? = some pindex → pindex.nHeight + j = tip.nHeight := by
    intro active
    induction active with
    | nil =>
      intro tip j pindex _ at_j
      cases j with
      | zero =>
        cases at_j
        rfl
      | succ j => cases at_j
    | cons second rest ih =>
      intro tip j pindex chained at_j
      obtain ⟨edge, below⟩ := List.isChain_cons_cons.mp chained
      cases j with
      | zero =>
        cases at_j
        rfl
      | succ j =>
        have lower := ih second j pindex below at_j
        omega
  have heights := formed.heights
  unfold height
  cases active : state.chain.active with
  | nil =>
    rw [active] at inActive
    cases inActive
  | cons tip rest =>
    rw [active] at inActive heights
    have level := fall rest tip i entry.1 heights inActive
    dsimp only
    omega

variable {block : CBlock}

/-- A connected block is put on the chain at the next height. -/
theorem WellFormed.connected {node : Node} {disk : DiskWrites} {pindexNew : CBlockIndex}
    {fAlreadyChecked : Bool} {flush : FlushOutcome} {result : Connected}
    (formed : state.WellFormed) (admitted : state.Admitted params
      (.connect node disk pindexNew (some block) fAlreadyChecked flush))
    (ok : connectBlock { node with tip := state.chain.active.head? } disk block pindexNew
      state.chain.active state.chain.pcoinsTip state.chain.mapStakeSpent false fAlreadyChecked =
        .ok result) :
    WellFormed ⟨⟨result.pindex :: state.chain.active, result.view, result.mapStakeSpent⟩,
      block :: state.blocks⟩ := by
  obtain ⟨same, above, genesis⟩ := admitted
  have kept := connectBlock_height ok
  refine ⟨congrArg Nat.succ formed.sameLength, ?_, ?_⟩
  · have heights := formed.heights
    unfold height at above
    cases active : state.chain.active with
    | nil => exact List.IsChain.singleton _
    | cons tip rest =>
      rw [active] at heights above
      dsimp only at above
      exact List.isChain_cons_cons.mpr ⟨by omega, heights⟩
  · intro entry member lowest
    rcases List.mem_cons.mp member with rfl | below
    · rcases connectBlock_cases ok with ⟨isGenesis, _⟩ | ⟨_, pprev, last, steps⟩
      · exact genesis block rfl (isGenesis.trans (congrArg CChainParams.hashGenesisBlock same))
      · -- any other block has a parent, so that it is above height zero
        have parent := steps.parent
        unfold height at above
        cases active : state.chain.active with
        | nil =>
          rw [active] at parent
          cases parent
        | cons tip rest =>
          rw [active] at above
          dsimp only at lowest above
          omega
    · exact formed.bottom entry below lowest

variable {rest : List CBlockIndex}

theorem entries_of_tip {pindexDelete : CBlockIndex}
    (tip : state.chain.active = pindexDelete :: rest) (read : state.blocks.head? = some block) :
    state.entries = (pindexDelete, block) :: rest.zip state.blocks.tail := by
  obtain ⟨tail, blocks_eq⟩ := List.head?_eq_some_iff.mp read
  rw [entries, tip, blocks_eq]
  rfl

theorem WellFormed.disconnected (formed : state.WellFormed) {pindexDelete : CBlockIndex}
    {view : FlatCoins} {mapStakeSpent : StakeSpent}
    (tip : state.chain.active = pindexDelete :: rest) (read : state.blocks.head? = some block) :
    WellFormed ⟨⟨rest, view, mapStakeSpent⟩, state.blocks.tail⟩ := by
  have sameLength := formed.sameLength
  have heights := formed.heights
  rw [tip] at sameLength heights
  refine ⟨?_, heights.of_cons, fun entry member => formed.bottom entry ?_⟩
  · show rest.length = state.blocks.tail.length
    rw [List.length_tail, ← sameLength, List.length_cons, Nat.add_sub_cancel]
  · rw [entries_of_tip tip read]
    exact List.mem_cons_of_mem _ member

end Shape

end ActiveChain

end CentNode
