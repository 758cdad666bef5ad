import CentNode.Chain.ActiveChain
import CentNode.Validation.UndoExactness

/-!
# The outpoints spent by recent blocks

`ConnectBlock` enters the outpoints of a block into `mapStakeSpent` and deletes
those of blocks more than `MaxReorganizationDepth` below it; `DisconnectBlock`
erases the outpoints of the block.  What was deleted does not come back: after a
reorganisation that goes down by more than one block, the lowest of the last
`MaxReorganizationDepth` blocks are missing until the chain has grown again.
-/

namespace CentNode

open List Option StdMap

/-! ## Erasing the outpoints of a block -/

theorem lookup_foldr_erase (mapStakeSpent : StakeSpent) (outs : List COutPoint)
    (other : COutPoint) :
    (outs.foldr (fun out erased => erased.erase out) mapStakeSpent).lookup other =
      if other ∈ outs then none else mapStakeSpent.lookup other := by
  induction outs with
  | nil => simp
  | cons out rest ih =>
    rw [foldr_cons, lookup_erase_ite, ih]
    by_cases same : other = out
    · simp [same]
    · simp [same]

/-- A loop that comes to its end erased what the transactions spend. -/
theorem lookup_eraseSpent {txs : List (CTransaction × Option CTxUndo)}
    {mapStakeSpent erased : StakeSpent}
    (ended : eraseSpent txs mapStakeSpent = (erased, true)) (out : COutPoint) :
    erased.lookup out =
      if out ∈ (txs.map Prod.fst).flatMap CTransaction.spends then none
      else mapStakeSpent.lookup out := by
  induction txs generalizing erased with
  | nil =>
    cases ended
    simp
  | cons head rest ih =>
    obtain ⟨tx, txundo⟩ := head
    simp only [eraseSpent] at ended
    cases below : eraseSpent rest mapStakeSpent with
    | mk later reached =>
      rw [below] at ended
      cases reached with
      | false => cases ended
      | true =>
        have lookup_later := ih below
        rw [map_cons, flatMap_cons]
        by_cases coinbase : tx.isCoinBase = true
        · simp only [coinbase, Bool.not_true, Bool.false_or, if_true] at ended
          cases ended
          have nothing : tx.spends = [] := if_pos coinbase
          rw [lookup_later, nothing, nil_append]
        · dsimp only at ended
          rw [if_neg (by simpa using coinbase)] at ended
          cases txundo with
          | none => cases ended
          | some txundo =>
            dsimp only at ended
            by_cases lengths : txundo.vprevout.length = tx.vin.length
            · rw [if_neg (not_not.mpr lengths)] at ended
              cases ended
              have inputs : tx.spends = tx.prevouts := if_neg coinbase
              rw [lookup_foldr_erase, lookup_later, inputs]
              by_cases here : out ∈ tx.prevouts
              · rw [if_pos here, if_pos (mem_append_left _ here)]
              · simp only [mem_append, here, false_or, if_false]
            · rw [if_pos lengths] at ended
              cases ended

theorem lookup_disconnected {readable : Bool} {block : CBlock} {pindex pprev : CBlockIndex}
    {view : FlatCoins} {mapStakeSpent : StakeSpent} {undone : Disconnected}
    (ran : disconnectBlock readable block pindex pprev view mapStakeSpent = .ok undone)
    (out : COutPoint) :
    undone.mapStakeSpent.lookup out =
      if out ∈ block.spentOutpoints then none else mapStakeSpent.lookup out := by
  obtain ⟨blockUndo, found, ended⟩ := undoFor_of_disconnectBlock ran
  have sizes := of_decide_eq_true (filter_eq_some_iff.mp found).2
  rw [lookup_eraseSpent ended, map_fst_zip, spentOutpoints_eq]
  rw [length_cons, length_map]
  exact Nat.le_of_eq sizes.symm

/-! ## The last blocks -/

/-- The active chain, and the height down to which nothing was deleted as too old. -/
structure StakeRun where
  state : ActiveChain
  oldest : Int

namespace StakeRun

def mapStakeSpent (run : StakeRun) : StakeSpent := run.state.chain.mapStakeSpent

/-- Connecting a block deletes what is too old, even when the tip does not move then. -/
def oldestAfter (params : CChainParams) (run : StakeRun) : TipCall → Int
  | .connect node disk pindexNew (some block) fAlreadyChecked flush =>
    if run.state.chain.applies (.connect node disk pindexNew (some block) fAlreadyChecked flush) =
        true ∧ block.hash ≠ params.hashGenesisBlock then
      max run.oldest (pindexNew.nHeight - params.maxReorganizationDepth)
    else run.oldest
  | _ => run.oldest

def step (params : CChainParams) (run : StakeRun) (input : TipCall) : Option StakeRun :=
  (run.state.step input).map fun next => ⟨next, run.oldestAfter params input⟩

/-- The map has the outpoints spent in the last `MaxReorganizationDepth` blocks, with their
heights, and none that the active chain does not spend. -/
structure Recorded (params : CChainParams) (run : StakeRun) : Prop where
  recent : ∀ entry ∈ run.state.entries.take params.maxReorganizationDepth.toNat,
    ∀ out ∈ entry.2.spentOutpoints, run.mapStakeSpent.lookup out = some (entry.1.nHeight : Int)
  onChain : ∀ out height, run.mapStakeSpent.lookup out = some height →
    ∃ entry ∈ run.state.entries, out ∈ entry.2.spentOutpoints

/-- No outpoint is spent in two blocks of the active chain. -/
def SpentOnce (run : StakeRun) : Prop :=
  run.state.entries.Pairwise fun upper lower =>
    ∀ out ∈ upper.2.spentOutpoints, out ∉ lower.2.spentOutpoints

/-- The map has all outpoints of the blocks in which nothing was deleted, and these are at
least the last `MaxReorganizationDepth` ones. -/
structure RecordedFrom (params : CChainParams) (run : StakeRun) : Prop where
  kept : ∀ entry ∈ run.state.entries, run.oldest ≤ entry.1.nHeight →
    ∀ out ∈ entry.2.spentOutpoints, run.mapStakeSpent.lookup out = some (entry.1.nHeight : Int)
  onChain : ∀ out height, run.mapStakeSpent.lookup out = some height →
    ∃ entry ∈ run.state.entries, out ∈ entry.2.spentOutpoints
  covers : run.oldest ≤ max 1 (run.state.height - params.maxReorganizationDepth + 1)

def Admitted (params : CChainParams) (run : StakeRun) (input : TipCall) : Prop :=
  run.state.Admitted params input

/-- A connected block is flushed, and spends nothing that the active chain spends.  A block
that `DisconnectBlock` begins to undo is disconnected and flushed, and nothing was deleted
from the block that gets among the last ones by it. -/
def KeepsWindow (params : CChainParams) (run : StakeRun) : TipCall → Prop
  | .connect node disk pindexNew (some block) fAlreadyChecked flush =>
    run.state.chain.applies (.connect node disk pindexNew (some block) fAlreadyChecked flush) =
        true →
      flush = .done ∧
        ∀ entry ∈ run.state.entries, ∀ out ∈ block.spentOutpoints, out ∉ entry.2.spentOutpoints
  | .disconnect (some block) undoReadable flush =>
    ∀ pindexDelete pprev rest, run.state.chain.active = pindexDelete :: pprev :: rest →
      (undoFor undoReadable block pindexDelete).isSome = true →
        run.state.chain.applies (.disconnect (some block) undoReadable flush) = true ∧
          flush = .done ∧ run.oldest ≤ max 1 (pindexDelete.nHeight - params.maxReorganizationDepth)
  | _ => True

/-! ## What the map holds -/

section Window

variable {params : CChainParams} {run : StakeRun}

theorem RecordedFrom.recorded (formed : run.state.WellFormed)
    (holds : run.RecordedFrom params) : run.Recorded params := by
  refine ⟨fun entry member out spent => ?_, holds.onChain⟩
  obtain ⟨i, found⟩ := mem_iff_getElem?.mp member
  rw [getElem?_take] at found
  split at found
  swap
  · cases found
  next inside =>
  have level := formed.height_at found
  have inEntries := mem_of_getElem? found
  have covers := holds.covers
  by_cases bottom : entry.1.nHeight = 0
  · rw [formed.bottom entry inEntries bottom] at spent
    cases spent
  · refine holds.kept entry inEntries ?_ out spent
    omega

theorem recordedFrom_of_recorded {state : ActiveChain} (formed : state.WellFormed) {oldest : Int}
    (positive : 0 ≤ params.maxReorganizationDepth)
    (start : oldest = state.height - params.maxReorganizationDepth + 1)
    (recorded : Recorded params ⟨state, oldest⟩) : RecordedFrom params ⟨state, oldest⟩ := by
  subst start
  refine ⟨fun entry member above out spent => recorded.recent entry ?_ out spent,
    recorded.onChain, Int.le_max_right _ _⟩
  obtain ⟨i, found⟩ := mem_iff_getElem?.mp member
  have level := formed.height_at found
  refine mem_iff_getElem?.mpr ⟨i, ?_⟩
  rw [getElem?_take_of_lt, found]
  dsimp only at above
  omega

/-- The spent outpoints after `ConnectBlock`, where the block spends nothing that is in the
map. -/
theorem lookup_connected {mapStakeSpent : StakeSpent} {block : CBlock} {nHeight oldest : Int}
    (fresh : ∀ out ∈ block.spentOutpoints, mapStakeSpent.lookup out = none)
    (recent : oldest ≤ nHeight) (out : COutPoint) (height : Int) :
    ((mapStakeSpent.add block nHeight).deleteOld oldest).lookup out = some height ↔
      (out ∈ block.spentOutpoints ∧ height = nHeight) ∨
        (mapStakeSpent.lookup out = some height ∧ oldest ≤ height) := by
  rw [StakeSpent.deleteOld, lookup_keep_eq_some, StakeSpent.add, lookup_insertAll,
    decide_eq_true_eq]
  by_cases spent : out ∈ block.spentOutpoints
  · rw [if_pos ⟨spent, fresh out spent⟩, fresh out spent]
    constructor
    · rintro ⟨found, _⟩
      cases found
      exact Or.inl ⟨spent, rfl⟩
    · rintro (⟨_, rfl⟩ | ⟨impossible, _⟩)
      · exact ⟨rfl, recent⟩
      · cases impossible
  · rw [if_neg fun both => spent both.1]
    constructor
    · exact Or.inr
    · rintro (⟨member, _⟩ | old)
      · exact absurd member spent
      · exact old

end Window

/-! ## One call -/

/-- What every call keeps. -/
structure Kept (params : CChainParams) (run : StakeRun) : Prop where
  formed : run.state.WellFormed
  once : run.SpentOnce
  recorded : run.RecordedFrom params

section Call

variable {params : CChainParams} {run : StakeRun}

theorem RecordedFrom.fresh (holds : run.RecordedFrom params) {block : CBlock}
    (new : ∀ entry ∈ run.state.entries, ∀ out ∈ block.spentOutpoints,
      out ∉ entry.2.spentOutpoints) :
    ∀ out ∈ block.spentOutpoints, run.mapStakeSpent.lookup out = none := by
  intro out spent
  rw [eq_none_iff_forall_ne_some]
  intro height found
  obtain ⟨entry, member, before⟩ := holds.onChain out height found
  exact new entry member out spent before

theorem Kept.connected (positive : 0 ≤ params.maxReorganizationDepth) (kept : run.Kept params)
    {node : Node} {disk : DiskWrites} {pindexNew : CBlockIndex} {block : CBlock}
    {fAlreadyChecked : Bool} {result : Connected}
    (admitted : run.Admitted params (.connect node disk pindexNew (some block) fAlreadyChecked .done))
    (keeps : run.KeepsWindow params
      (.connect node disk pindexNew (some block) fAlreadyChecked .done))
    (ok : connectBlock { node with tip := run.state.chain.active.head? } disk block pindexNew
      run.state.chain.active run.state.chain.pcoinsTip run.state.chain.mapStakeSpent false
        fAlreadyChecked = .ok result) :
    Kept params ⟨⟨⟨result.pindex :: run.state.chain.active, result.view, result.mapStakeSpent⟩,
      block :: run.state.blocks⟩,
        run.oldestAfter params (.connect node disk pindexNew (some block) fAlreadyChecked .done)⟩ := by
  have applied : run.state.chain.applies
      (.connect node disk pindexNew (some block) fAlreadyChecked .done) = true :=
    ChainState.applies_connect_iff.mpr ⟨result, ok⟩
  obtain ⟨_, new⟩ := keeps applied
  obtain ⟨same, above, genesis⟩ := id admitted
  have height_eq := connectBlock_height ok
  have covers := kept.recorded.covers
  have fresh := kept.recorded.fresh new
  refine ⟨kept.formed.connected admitted ok, pairwise_cons.mpr ⟨?_, kept.once⟩, ?_⟩
  · exact fun entry member out spent => new entry member out spent
  rcases connectBlock_cases ok with ⟨isGenesis, rfl⟩ | ⟨other, pprev, last, steps⟩
  · -- the genesis block spends nothing, and nothing is deleted for it
    have isGenesis : block.hash = params.hashGenesisBlock :=
      isGenesis.trans (congrArg CChainParams.hashGenesisBlock same)
    have nothing := genesis block rfl isGenesis
    have oldest_eq : run.oldestAfter params
        (.connect node disk pindexNew (some block) fAlreadyChecked .done) = run.oldest :=
      if_neg fun both => both.2 isGenesis
    rw [oldest_eq]
    refine ⟨fun entry member recent out spent => ?_, fun out height found => ?_, ?_⟩
    · rcases mem_cons.mp member with rfl | below
      · rw [nothing] at spent
        cases spent
      · exact kept.recorded.kept entry below recent out spent
    · obtain ⟨entry, below, spent⟩ := kept.recorded.onChain out height found
      exact ⟨entry, mem_cons_of_mem _ below, spent⟩
    · show run.oldest ≤ max 1 ((pindexNew.nHeight : Int) - params.maxReorganizationDepth + 1)
      omega
  · have other : block.hash ≠ params.hashGenesisBlock := by
      rw [← same]
      exact other
    have oldest_eq : run.oldestAfter params
        (.connect node disk pindexNew (some block) fAlreadyChecked .done) =
          max run.oldest (pindexNew.nHeight - params.maxReorganizationDepth) :=
      if_pos ⟨applied, other⟩
    have spent_eq : result.mapStakeSpent = (run.mapStakeSpent.add block pindexNew.nHeight).deleteOld
        (pindexNew.nHeight - params.maxReorganizationDepth) := by
      rw [← same]
      exact steps.finished.spent_eq
    have keptNew : (pindexNew.nHeight : Int) - params.maxReorganizationDepth ≤ pindexNew.nHeight := by
      omega
    have lookup_eq := lookup_connected fresh keptNew
    rw [oldest_eq]
    refine ⟨fun entry member recent out spent => ?_, fun out height found => ?_, ?_⟩
    · show result.mapStakeSpent.lookup out = _
      rw [spent_eq, lookup_eq]
      rcases mem_cons.mp member with rfl | below
      · exact Or.inl ⟨spent, congrArg Nat.cast height_eq⟩
      · dsimp only at recent
        exact Or.inr ⟨kept.recorded.kept entry below (by omega) out spent, by omega⟩
    · replace found : result.mapStakeSpent.lookup out = some height := found
      rw [spent_eq, lookup_eq] at found
      rcases found with ⟨spent, _⟩ | ⟨before, _⟩
      · exact ⟨_, mem_cons_self, spent⟩
      · obtain ⟨entry, below, spent⟩ := kept.recorded.onChain out height before
        exact ⟨entry, mem_cons_of_mem _ below, spent⟩
    · show max run.oldest (pindexNew.nHeight - params.maxReorganizationDepth) ≤
        max 1 ((result.pindex.nHeight : Int) - params.maxReorganizationDepth + 1)
      omega

theorem Kept.disconnected (kept : run.Kept params) {block : CBlock} {undoReadable : Bool}
    {pindexDelete pprev : CBlockIndex} {rest : List CBlockIndex} {undone : Disconnected}
    (tip : run.state.chain.active = pindexDelete :: pprev :: rest)
    (read : run.state.blocks.head? = some block)
    (room : run.oldest ≤ max 1 (pindexDelete.nHeight - params.maxReorganizationDepth))
    (ok : disconnectBlock undoReadable block pindexDelete pprev run.state.chain.pcoinsTip
      run.state.chain.mapStakeSpent = .ok undone) :
    Kept params ⟨⟨⟨pprev :: rest, undone.view, undone.mapStakeSpent⟩, run.state.blocks.tail⟩,
      run.oldest⟩ := by
  have once := kept.once
  have onChain := kept.recorded.onChain
  have lower := kept.recorded.kept
  have heights := kept.formed.heights
  rw [SpentOnce, ActiveChain.entries_of_tip tip read, pairwise_cons] at once
  rw [ActiveChain.entries_of_tip tip read] at onChain lower
  rw [tip] at heights
  have edge := (isChain_cons_cons.mp heights).1
  refine ⟨kept.formed.disconnected tip read, once.2, ?_, ?_, ?_⟩
  · intro entry member recent out spent
    show undone.mapStakeSpent.lookup out = _
    have elsewhere : out ∉ block.spentOutpoints := fun here => once.1 entry member out here spent
    rw [lookup_disconnected ok, if_neg elsewhere]
    exact lower entry (mem_cons_of_mem _ member) recent out spent
  · intro out height found
    replace found : undone.mapStakeSpent.lookup out = some height := found
    rw [lookup_disconnected ok] at found
    split at found
    · cases found
    next elsewhere =>
    obtain ⟨entry, member, spent⟩ := onChain out height found
    rcases mem_cons.mp member with rfl | below
    · exact absurd spent elsewhere
    · exact ⟨entry, below, spent⟩
  · show run.oldest ≤ max 1 ((pprev.nHeight : Int) - params.maxReorganizationDepth + 1)
    omega

theorem kept_step (positive : 0 ≤ params.maxReorganizationDepth) {next : StakeRun}
    {input : TipCall} (kept : run.Kept params) (admitted : run.Admitted params input)
    (keeps : run.KeepsWindow params input) (stepped : run.step params input = some next) :
    next.Kept params := by
  obtain ⟨state, moved, rfl⟩ := map_eq_some_iff.mp stepped
  cases ActiveChain.step_effect moved with
  | connected ok => exact kept.connected positive admitted keeps ok
  | disconnected tip ok clean =>
    obtain ⟨blockUndo, found, _⟩ := undoFor_of_disconnectBlock ok
    obtain ⟨_, _, room⟩ := keeps _ _ _ tip (isSome_of_mem found)
    exact kept.disconnected tip (admitted _ rfl) room ok
  | refused idle =>
    have oldest_eq : run.oldestAfter params input = run.oldest := by
      cases input with
      | disconnect => rfl
      | connect node disk pindexNew block fAlreadyChecked flush =>
        cases block with
        | none => rfl
        | some block =>
          refine if_neg fun both => ?_
          rw [idle] at both
          cases both.1
    rw [oldest_eq]
    exact kept
  | @erased block undoReadable flush pindexDelete pprev rest tip idle =>
    have unread : undoFor undoReadable block pindexDelete = none := by
      rw [← not_isSome_iff_eq_none]
      intro found
      have applied := (keeps pindexDelete pprev rest tip found).1
      rw [idle] at applied
      cases applied
    rw [spentAfterDisconnect, unread]
    exact kept
  | stopped failed =>
    refine absurd ?_ failed
    cases input with
    | connect node disk pindexNew block fAlreadyChecked flush =>
      intro applied
      cases block with
      | none => cases applied
      | some block => exact (keeps applied).1
    | disconnect block undoReadable flush =>
      intro applied
      obtain ⟨read, pindexDelete, pprev, rest, rfl, tip, found⟩ :=
        ChainState.undoFor_of_applies applied
      exact (keeps pindexDelete pprev rest tip found).2.1

end Call

/-! ## Whole runs -/

/-- From a state in which it holds, the map records the spent outpoints of the last blocks in
every state of a run whose calls keep the window. -/
theorem recorded_throughout {params : CChainParams}
    (positive : 0 ≤ params.maxReorganizationDepth) {start : StakeRun} {calls : List TipCall}
    (formed : start.state.WellFormed) (once : start.SpentOnce)
    (holds : start.RecordedFrom params)
    (admitted : Runs.Meets (step params) (Admitted params) start calls)
    (keeps : Runs.Meets (step params) (KeepsWindow params) start calls) :
    Runs.Throughout (step params) (Recorded params) start calls := by
  have begins : start.Kept params := ⟨formed, once, holds⟩
  refine Runs.throughout_of_kept (fun run kept => ?_) ?_ begins (admitted.and keeps)
  · exact kept.recorded.recorded kept.formed
  · rintro run input next kept ⟨allowed, keeping⟩ stepped
    exact kept_step positive kept allowed keeping stepped

/-- The block with a stake at height 5000. -/
def stakeBlock : CBlock := Sample.block [Sample.coinbase, Sample.coinstake]

/-- A tip at height 4999 below which nothing is spent. -/
def quietStart : StakeRun where
  state := ⟨ChainState.sampleStart, [{ hash := 1, hashPrevBlock := 0, vtx := [] }]⟩
  oldest := 4900

theorem recorded_throughout_quiet :
    Runs.Throughout (step mainParams) (Recorded mainParams) quietStart
      [ChainState.sampleConnect .done, .disconnect (some stakeBlock) true .done] := by
  have formed : quietStart.state.WellFormed := ⟨rfl, List.IsChain.singleton _, by decide⟩
  have recorded : quietStart.Recorded mainParams :=
    ⟨by decide, fun out height impossible => (nomatch impossible)⟩
  refine recorded_throughout (by decide) formed (pairwise_singleton _ _)
    (recordedFrom_of_recorded formed (by decide) rfl recorded) ?_ ?_
  · refine Runs.Meets.cons ⟨rfl, rfl, ?_⟩ rfl (Runs.Meets.cons ?_ rfl trivial)
    · rintro read same
      cases same
      decide
    · rintro read same
      cases same
      rfl
  · refine Runs.Meets.cons ?_ rfl (Runs.Meets.cons ?_ rfl trivial)
    · intro _
      exact ⟨rfl, by decide⟩
    · rintro pindexDelete pprev rest tip _
      cases tip
      exact ⟨rfl, rfl, by decide⟩

/-- A coinbase at height 4999, and a spending transaction at height 4899. -/
def tipCoinbase : CTransaction := { Sample.coinbase with hash := 30 }

def earlySpend : CTransaction := { hash := 31, vin := [{ prevout := ⟨12, 0⟩ }], vout := [⟨1, [1]⟩] }

/-- The tip at height 4999 and a hundred blocks below it, of which the lowest spends. -/
def deepStart : StakeRun where
  state :=
    { chain :=
        { active := { phashBlock := some 1, nHeight := 4999, nStatus := { haveUndo := true } } ::
            (List.range 100).map fun i =>
              { phashBlock := some (BitVec.ofNat 256 (1000 + i)), nHeight := 4998 - i }
          pcoinsTip :=
            { Sample.view with
              coins := Function.update Sample.view.coins 30 (CCoins.fromTx tipCoinbase 4999) }
          mapStakeSpent := (∅ : StakeSpent).insert ⟨12, 0⟩ 4899 }
      blocks := { hash := 1, hashPrevBlock := 1000, vtx := [tipCoinbase] } ::
        (List.replicate 99 { hash := 0, hashPrevBlock := 0, vtx := [] } ++
          [{ hash := 1099, hashPrevBlock := 0, vtx := [earlySpend] }]) }
  oldest := 4899

/-- The block at height 5000 is connected, and two blocks are disconnected. -/
def deepCalls : List TipCall :=
  [ChainState.sampleConnect .done, .disconnect (some stakeBlock) true .done,
    .disconnect (some { hash := 1, hashPrevBlock := 1000, vtx := [tipCoinbase] }) true .done]

/-- A reorganisation of two blocks: the outpoint spent at height 4899 was deleted, and is
spent in the last hundred blocks again. -/
theorem deep_reorganisation_forgets :
    deepStart.state.WellFormed ∧ deepStart.Recorded mainParams ∧
      Runs.Meets (step mainParams) (Admitted mainParams) deepStart deepCalls ∧
        ∃ final, Runs.run (step mainParams) deepStart deepCalls = some final ∧
          ¬ final.Recorded mainParams := by
  refine ⟨⟨rfl, by decide +kernel, by decide +kernel⟩, ⟨by decide +kernel, ?_⟩, ?_, ?_⟩
  · intro out height found
    have lookup_eq := lookup_insert_ite (⟨12, 0⟩ : COutPoint) out (4899 : Int) ∅
    rw [show deepStart.mapStakeSpent.lookup out = _ from lookup_eq] at found
    split at found
    · next same =>
        refine ⟨({ phashBlock := some 1099, nHeight := 4899 },
          { hash := 1099, hashPrevBlock := 0, vtx := [earlySpend] }), by decide +kernel, ?_⟩
        rw [same]
        decide
    · cases found
  · refine Runs.Meets.cons ⟨rfl, rfl, ?_⟩ rfl (Runs.Meets.cons ?_ rfl (Runs.Meets.cons ?_ rfl trivial))
    · rintro read same
      cases same
      decide
    · rintro read same
      cases same
      rfl
    · rintro read same
      cases same
      rfl
  · refine ⟨_, rfl, fun recorded => ?_⟩
    have missing := recorded.recent ({ phashBlock := some 1099, nHeight := 4899 },
      { hash := 1099, hashPrevBlock := 0, vtx := [earlySpend] }) (by decide +kernel) ⟨12, 0⟩ (by decide)
    exact absurd missing (by decide +kernel)

end StakeRun

end CentNode
