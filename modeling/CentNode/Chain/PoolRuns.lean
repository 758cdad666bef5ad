import CentNode.Chain.SoundCoins

/-!
# The memory pool along the chain

Transactions come into the pool, and every call of `ConnectTip` and
`DisconnectTip` that moves the tip takes out what the coins no longer support.
In every state of such a run the pool is consistent with itself and with the
coins of the tip.
-/

namespace CentNode

open Option List ChainState SupplyRun

open FlatCoins

namespace TxPool

/-- A transaction of the pool spends an output of another. -/
def Parent (pool : TxPool) (parent child : Uint256) : Prop :=
  (∃ entry, pool.Holds parent entry) ∧
    ∃ entry, pool.Holds child entry ∧ ∃ out ∈ entry.tx.prevouts, out.hash = parent

/-- What `check` demands of the pool, apart from `CheckInputs`. -/
structure Consistent (pool : TxPool) (pcoins : FlatCoins) : Prop where
  keyed : ∀ id entry, pool.Holds id entry → entry.tx.hash = id
  /-- `mapNextTx` maps exactly the inputs of the transactions. -/
  next_iff : ∀ out point, pool.mapNextTx.lookup out = some point ↔
    ∃ entry, pool.Holds point.ptx entry ∧ entry.tx.prevouts[point.n]? = some out
  spentOnce : ∀ id entry other otherEntry, pool.Holds id entry → pool.Holds other otherEntry →
    ∀ (i j : Nat) (out : COutPoint), entry.tx.prevouts[i]? = some out →
      otherEntry.tx.prevouts[j]? = some out → id = other ∧ i = j
  /-- An input is an output of a transaction of the pool, or unspent in the coins. -/
  sourced : ∀ id entry, pool.Holds id entry → ∀ out ∈ entry.tx.prevouts,
    match pool.mapTx.lookup out.hash with
    | some parent => ∃ txout, parent.tx.vout[out.n]? = some txout ∧ txout.isNull = false
    | none => pcoins.Unspent out
  acyclic : ∀ id, ¬ Relation.TransGen pool.Parent id id
  total : pool.totalTxSize = pool.mapTx.sumOf (·.nTxSize)

theorem not_below_itself {α : Type} {below : α → α → Prop} {a : α} (ends : Acc below a) :
    ¬ below a a := by
  induction ends with
  | intro a _ ih => exact fun self => ih a self self

theorem Rooted.consistent {txOf : Uint256 → CTransaction} {pool : TxPool} {pcoins : FlatCoins}
    (rooted : pool.Rooted txOf pcoins.Unspent) : pool.Consistent pcoins where
  keyed := rooted.indexed.keyed
  next_iff := rooted.indexed.next_iff
  spentOnce _ _ _ _ held heldToo _ _ _ here there :=
    rooted.indexed.spent_once held heldToo here there
  sourced id entry held out member := by
    split
    · next parent found =>
        obtain ⟨txout, there⟩ := isSome_iff_exists.mp (rooted.real id entry held out member)
        rw [← rooted.faithful out.hash parent found]
        exact ⟨txout, (filter_eq_some_iff.mp there).1, (spendableAt_not_null there).1⟩
    · next missing =>
        refine (rooted.sourced id entry held out member).resolve_right fun ⟨parent, inPool⟩ => ?_
        rw [Holds, missing] at inPool
        cases inPool
  acyclic id cycle := by
    have spends : ∀ parent child, pool.Parent parent child → SpendsFrom txOf parent child := by
      rintro parent child ⟨_, entry, held, out, member, same⟩
      refine ⟨out, ?_, same⟩
      rw [rooted.faithful child entry held, CTransaction.spends,
        if_neg (by simp [rooted.loose child entry held])]
      exact member
    have cycleBelow : Relation.TransGen (SpendsFrom txOf) id id :=
      Relation.TransGen.mono spends id id cycle
    obtain ⟨_, _, _, entry, held, _⟩ := Relation.TransGen.tail'_iff.mp cycle
    exact not_below_itself (rooted.grounded id entry held).transGen cycleBelow
  total := rooted.indexed.total

end TxPool

/-- The active chain with the undo data written so far, and the pool. -/
structure PoolRun where
  chain : SupplyRun
  pool : TxPool

/-- A transaction that is offered to the pool, a call of `ConnectTip` or `DisconnectTip`, or
`clear`; the pool is not kept over a restart either. -/
inductive PoolCall where
  | accept (context : PoolContext) (policy : RelayPolicy) (options : AcceptOptions)
      (tx : CTransaction)
  | tip (call : TipCall) (context : PoolContext) (policy : RelayPolicy)
  | clear

namespace PoolRun

def pcoinsTip (run : PoolRun) : FlatCoins := run.chain.state.chain.pcoinsTip

/-- What `ConnectTip` and `DisconnectTip` do to the pool once the coins are flushed. -/
def movePool (run : PoolRun) (pcoinsTip : FlatCoins) (context : PoolContext)
    (policy : RelayPolicy) : TipCall → TxPool
  | .connect _ _ _ (some block) _ _ => run.pool.removeForBlock block.vtx
  | .disconnect (some block) _ _ =>
    match run.chain.state.chain.active with
    | [] => run.pool
    | pindexDelete :: _ =>
      run.pool.afterDisconnect { context with pcoinsTip := pcoinsTip } policy block.vtx
        pindexDelete.nHeight
  | _ => run.pool

/-- One call; `none` is a failed assertion. -/
def step (run : PoolRun) : PoolCall → Option PoolRun
  | .accept context policy options tx =>
    some { run with
      pool := match run.pool.acceptToMemoryPool { context with pcoinsTip := run.pcoinsTip } policy
          options tx with
        | .ok accepted => accepted
        | .error _ => run.pool }
  | .tip call context policy =>
    (run.chain.state.chain.call call).bind fun result =>
      (run.chain.step call).map fun chain =>
        { chain := chain
          pool := match result.1 with
            | .ok () => run.movePool chain.state.chain.pcoinsTip context policy call
            | .error _ => run.pool }
  | .clear => some { run with pool := {} }

/-- What the callers and the block files do.  Ids identify transactions, the genesis block is
connected only once, what is disconnected is the block of the tip, and the undo data of an
entry are those that were written when its block was connected before. -/
def Admitted (params : CChainParams) (txOf : Uint256 → CTransaction) (run : PoolRun) :
    PoolCall → Prop
  | .accept _ _ _ tx => txOf tx.hash = tx
  | .tip (.connect node _ pindexNew (some block) fAlreadyChecked _) _ _ =>
    node.params = params ∧ block.hash ≠ params.hashGenesisBlock ∧
      (fAlreadyChecked = true → checkBlock node block true = .ok ()) ∧
        (∀ undo, pindexNew.getUndo = some undo → (block, undo) ∈ run.chain.written) ∧
          ∀ tx ∈ block.vtx, txOf tx.hash = tx
  | .tip (.disconnect block _ _) _ _ =>
    ∀ read, block = some read → run.chain.state.blocks.head? = some read
  | _ => True

/-- A call of `ConnectTip` or `DisconnectTip` gets past `FlushStateToDisk`. -/
def FlushHolds (run : PoolRun) : PoolCall → Prop
  | .tip call _ _ => run.chain.FlushHolds call
  | _ => True

/-- The genesis block alone, no coins, and an empty pool. -/
structure AtGenesis (params : CChainParams) (run : PoolRun) : Prop where
  chain : run.chain.AtGenesis params
  pool : run.pool = {}

/-! ## The chain -/

/-- The blocks of the chain with what their undoing needs. -/
inductive Stacked (txOf : Uint256 → CTransaction) : List CBlockIndex → List CBlock → Prop where
  | genesis {pindex : CBlockIndex} {block : CBlock} (noUndo : pindex.getUndo = none) :
      Stacked txOf [pindex] [block]
  | connected {pindex : CBlockIndex} {below : List CBlockIndex} {block : CBlock}
      {blocks : List CBlock}
      (coinbase : ∃ coinbase rest, block.vtx = coinbase :: rest ∧ coinbase.isCoinBase = true)
      (faithful : ∀ tx ∈ block.vtx, txOf tx.hash = tx)
      (grounded : ∀ tx ∈ block.vtx, Grounded txOf tx.hash)
      (fits : ∀ undo, pindex.getUndo = some undo → SupplyRun.BlockUndoFits txOf block undo)
      (rest : Stacked txOf below blocks) : Stacked txOf (pindex :: below) (block :: blocks)

/-- What every call keeps of the chain. -/
structure SoundChain (txOf : Uint256 → CTransaction) (run : SupplyRun) : Prop where
  stacked : Stacked txOf run.state.chain.active run.state.blocks
  sound : run.state.chain.pcoinsTip.Sound txOf
  written : ∀ pair ∈ run.written, SupplyRun.BlockUndoFits txOf pair.1 pair.2

section Chain

variable {params : CChainParams} {txOf : Uint256 → CTransaction} {run : SupplyRun}

theorem Stacked.tipUndo_fits {state : ActiveChain}
    (stacked : Stacked txOf state.chain.active state.blocks) :
    ∀ pair ∈ tipUndo state, SupplyRun.BlockUndoFits txOf pair.1 pair.2 := by
  obtain ⟨⟨active, pcoinsTip, mapStakeSpent⟩, blocks⟩ := state
  intro pair member
  cases stacked with
  | genesis noUndo =>
    simp only [tipUndo, ActiveChain.entries, zip_cons_cons, noUndo,
      map_none, toList_none] at member
    cases member
  | connected coinbase faithful grounded fits rest =>
    simp only [tipUndo, ActiveChain.entries, zip_cons_cons] at member
    obtain ⟨undo, found, rfl⟩ := map_eq_some_iff.mp (mem_toList.mp member)
    exact fits undo found

theorem SoundChain.recordTip {state : ActiveChain} {written : List (CBlock × CBlockUndo)}
    (kept : SoundChain txOf ⟨state, written⟩) :
    SoundChain txOf ⟨state, tipUndo state ++ written⟩ := by
  refine ⟨kept.stacked, kept.sound, fun pair member => ?_⟩
  rcases mem_append.mp member with tip | before
  · exact kept.stacked.tipUndo_fits pair tip
  · exact kept.written pair before

/-- What connecting a block did to the coins. -/
structure ConnectedCoins (txOf : Uint256 → CTransaction) (before after : FlatCoins)
    (vtx : List CTransaction) : Prop where
  stays : ∀ out, before.Unspent out → after.Unspent out ∨ out ∈ vtx.flatMap CTransaction.spends
  created : ∀ earlier tx later, vtx = earlier ++ tx :: later → ∀ out, out.hash = tx.hash →
    (spendableAt txOf out).isSome = true →
      after.Unspent out ∨ out ∈ later.flatMap CTransaction.spends

theorem SoundChain.connected (kept : SoundChain txOf run) {node : Node} {disk : DiskWrites}
    {pindexNew : CBlockIndex} {block : CBlock} {fAlreadyChecked : Bool} {result : Connected}
    (other : block.hash ≠ node.params.hashGenesisBlock)
    (checkedBefore : fAlreadyChecked = true → checkBlock node block true = .ok ())
    (undoWritten : ∀ undo, pindexNew.getUndo = some undo → (block, undo) ∈ run.written)
    (faithful : ∀ tx ∈ block.vtx, txOf tx.hash = tx)
    (ok : connectBlock { node with tip := run.state.chain.active.head? } disk block pindexNew
      run.state.chain.active run.state.chain.pcoinsTip run.state.chain.mapStakeSpent false
        fAlreadyChecked = .ok result) :
    SoundChain txOf
        ⟨⟨⟨result.pindex :: run.state.chain.active, result.view, result.mapStakeSpent⟩,
          block :: run.state.blocks⟩, run.written⟩ ∧
      ConnectedCoins txOf run.state.chain.pcoinsTip result.view block.vtx := by
  have shape : BlockShape block := by
    cases fAlreadyChecked with
    | true => exact blockShape_of_checkBlock (checkedBefore rfl)
    | false =>
      rw [connectBlock] at ok
      split at ok
      · cases ok
      · next checked => exact blockShape_of_checkBlock checked
  rcases connectBlock_cases ok with ⟨genesis, _⟩ | ⟨_, pprev, state, steps⟩
  · exact absurd genesis other
  obtain ⟨undos, applied, collected⟩ := connectTxs_applies steps.looped
  rw [nil_append, if_pos rfl] at collected
  have ran := (coinsAfter_eq_applyTxs pindexNew.nHeight run.state.chain.pcoinsTip block.vtx).trans
    (congrArg (Option.map Prod.fst) applied)
  obtain ⟨sound, fits, grounded⟩ := applyTxs_sound applied kept.sound faithful
  obtain ⟨coinbase, rest, vtx_eq, isCoinbase, _⟩ := shape.coinbaseFirst
  have coins_eq : result.view.coins = state.view.coins := by
    rw [steps.finished.view_eq]
    rfl
  have unspent_iff : ∀ out, result.view.Unspent out ↔ state.view.Unspent out := fun out => by
    rw [FlatCoins.Unspent, coins_eq, FlatCoins.Unspent]
  have soundAfter : result.view.Sound txOf := by
    refine ⟨fun txid n txout found => ?_, fun id left => ?_⟩
    · rw [coins_eq] at found
      exact sound.traced txid n txout found
    · rw [coins_eq] at left
      exact sound.grounded id left
  refine ⟨⟨.connected ⟨coinbase, rest, vtx_eq, isCoinbase⟩ faithful grounded ?_ kept.stacked,
    soundAfter, kept.written⟩, ⟨fun out unspent => ?_, fun earlier tx later split out same real => ?_⟩⟩
  · intro undo found
    rcases getUndo_recorded steps.finished.recorded found with rfl | before
    · rw [SupplyRun.BlockUndoFits, collected]
      rw [vtx_eq] at fits ⊢
      cases fits with
      | cons _ later => exact later
    · exact kept.written (block, undo) (undoWritten undo before)
  · rw [unspent_iff]
    exact unspent_or_spent ran kept.sound.traced faithful unspent
  · rw [unspent_iff]
    exact created_or_spent ran faithful split same real

theorem SoundChain.disconnected (kept : SoundChain txOf run) {block : CBlock}
    {undoReadable : Bool} {pindexDelete pprev : CBlockIndex} {rest : List CBlockIndex}
    {undone : Disconnected} (tip : run.state.chain.active = pindexDelete :: pprev :: rest)
    (read : run.state.blocks.head? = some block)
    (ok : disconnectBlock undoReadable block pindexDelete pprev run.state.chain.pcoinsTip
      run.state.chain.mapStakeSpent = .ok undone) (clean : undone.fClean = true) :
    SoundChain txOf
        ⟨⟨⟨pprev :: rest, undone.view, undone.mapStakeSpent⟩, run.state.blocks.tail⟩,
          run.written⟩ ∧
      (∀ tx ∈ block.vtx, txOf tx.hash = tx) ∧
        ∀ out, run.state.chain.pcoinsTip.Unspent out →
          undone.view.Unspent out ∨ out.hash ∈ block.txids := by
  obtain ⟨blocks, blocks_eq⟩ := head?_eq_some_iff.mp read
  have stacked := kept.stacked
  rw [tip, blocks_eq] at stacked
  cases stacked with
  | connected coinbase faithful grounded fits below =>
    obtain ⟨first, others, vtx_eq, isCoinbase⟩ := coinbase
    obtain ⟨sound, stays⟩ := disconnectBlock_sound ok clean kept.sound vtx_eq isCoinbase
      (fun stored found => by
        have matching := fits stored found
        rw [SupplyRun.BlockUndoFits, vtx_eq] at matching
        exact matching) faithful grounded
    refine ⟨⟨?_, sound, kept.written⟩, faithful, fun out unspent => ?_⟩
    · show Stacked txOf (pprev :: rest) run.state.blocks.tail
      rw [blocks_eq]
      exact below
    · by_cases created : out.hash ∈ block.txids
      · exact Or.inr created
      · exact Or.inl (stays out created unspent)

end Chain

/-! ## One call -/

section Call

variable {params : CChainParams} {txOf : Uint256 → CTransaction} {run next : PoolRun}
  {state : ChainState} {input : TipCall} {result : Checked Unit × ChainState}

/-- A call of `ConnectTip` or `DisconnectTip` that returns true has applied a block. -/
theorem applies_of_ok (called : state.call input = some result) (ok : result.1 = .ok ()) :
    state.applies input = true := by
  cases input with
  | connect node disk pindexNew block fAlreadyChecked flush =>
    cases block with
    | none =>
      cases called
      cases ok
    | some block =>
      cases connected : connectBlock { node with tip := state.active.head? } disk block
          pindexNew state.active state.pcoinsTip state.mapStakeSpent false fAlreadyChecked with
      | error failure =>
        simp only [ChainState.call, connectTip, connected] at called
        cases failure <;> cases called <;> cases ok
      | ok applied => exact applies_connect_iff.mpr ⟨applied, connected⟩
  | disconnect block undoReadable flush =>
    obtain ⟨active, pcoinsTip, mapStakeSpent⟩ := state
    obtain _ | ⟨pindexDelete, parents⟩ := active
    · cases block <;> cases called
    obtain _ | block := block
    · cases called
      cases ok
    cases parents with
    | nil =>
      simp only [ChainState.call, disconnectTip] at called
      split at called
      · cases called
        cases ok
      · cases called
    | cons pprev rest =>
      cases undoing : disconnectBlock undoReadable block pindexDelete pprev pcoinsTip
          mapStakeSpent with
      | error failure =>
        simp only [ChainState.call, disconnectTip, undoing] at called
        cases failure <;> cases called <;> cases ok
      | ok undone =>
        simp only [ChainState.call, disconnectTip, undoing] at called
        split at called
        · next clean => simp [applies, undoing, clean]
        · cases called
          cases ok

variable {block : CBlock}

theorem applies_disconnect {undoReadable : Bool} {flush : FlushOutcome}
    {pindexDelete pprev : CBlockIndex} {rest : List CBlockIndex} {undone : Disconnected}
    (tip : state.active = pindexDelete :: pprev :: rest)
    (ok : disconnectBlock undoReadable block pindexDelete pprev state.pcoinsTip
      state.mapStakeSpent = .ok undone) (clean : undone.fClean = true) :
    state.applies (.disconnect (some block) undoReadable flush) = true := by
  simp only [applies, tip, ok, clean]

theorem ok_of_applies (called : state.call input = some result)
    (applied : state.applies input = true) (flushed : state.FlushHolds input) :
    result.1 = .ok () := by
  cases callEffect state input with
  | refused idle same =>
    rw [idle] at applied
    cases applied
  | moved view mapStakeSpent flush active calledToo onTop holds_iff chain =>
    cases holds_iff.mp flushed
    cases called.symm.trans calledToo
    rfl

theorem pool_of_idle {moved : TxPool} (called : state.call input = some result)
    (idle : state.applies input = false) :
    (match result.1 with
      | .ok () => moved
      | .error _ => run.pool) = run.pool := by
  cases outcome : result.1 with
  | error failure => rfl
  | ok _ =>
    have applied := applies_of_ok called outcome
    rw [idle] at applied
    cases applied

theorem pool_of_applies {moved : TxPool} (called : state.call input = some result)
    (applied : state.applies input = true) (flushed : state.FlushHolds input) :
    (match result.1 with
      | .ok () => moved
      | .error _ => run.pool) = moved := by
  rw [ok_of_applies called applied flushed]

/-- What every call keeps. -/
structure Kept (txOf : Uint256 → CTransaction) (run : PoolRun) : Prop where
  chain : SoundChain txOf run.chain
  rooted : run.pool.Rooted txOf run.pcoinsTip.Unspent

theorem Kept.accept (kept : run.Kept txOf) {context : PoolContext} {policy : RelayPolicy}
    {options : AcceptOptions} {tx : CTransaction} (faithful : txOf tx.hash = tx)
    (stepped : run.step (.accept context policy options tx) = some next) : next.Kept txOf := by
  cases stepped
  refine ⟨kept.chain, ?_⟩
  dsimp only
  split
  · next accepted passed =>
      exact (kept.rooted.accepted kept.chain.sound (fun _ unspent => unspent) faithful passed).1
  · exact kept.rooted

theorem Kept.connect (kept : run.Kept txOf) {chain : SupplyRun} (after : SoundChain txOf chain)
    (coins : ConnectedCoins txOf run.pcoinsTip chain.state.chain.pcoinsTip block.vtx) :
    Kept txOf ⟨chain, run.pool.removeForBlock block.vtx⟩ := by
  refine ⟨after, TxPool.Rooted.removeForBlock ?_ coins.created⟩
  exact kept.rooted.reroot fun _ _ _ out _ unspent => Or.inl (coins.stays out unspent)

theorem Kept.disconnect (kept : run.Kept txOf) {chain : SupplyRun} (after : SoundChain txOf chain)
    (faithful : ∀ tx ∈ block.vtx, txOf tx.hash = tx) (coins : ∀ out, run.pcoinsTip.Unspent out →
      chain.state.chain.pcoinsTip.Unspent out ∨ out.hash ∈ block.txids) (context : PoolContext)
    (policy : RelayPolicy) (nHeight : Int) :
    Kept txOf ⟨chain, run.pool.afterDisconnect
      { context with pcoinsTip := chain.state.chain.pcoinsTip } policy block.vtx nHeight⟩ := by
  refine ⟨after, TxPool.Rooted.afterDisconnect ?_ faithful after.sound fun _ unspent => unspent⟩
  exact kept.rooted.reroot fun _ _ _ out _ unspent => Or.inl (coins out unspent)

theorem Kept.tip (kept : run.Kept txOf) {call : TipCall} {context : PoolContext}
    {policy : RelayPolicy} (admitted : run.Admitted params txOf (.tip call context policy))
    (flushed : run.chain.FlushHolds call)
    (stepped : run.step (.tip call context policy) = some next) : next.Kept txOf := by
  obtain ⟨result, called, rest⟩ := bind_eq_some_iff.mp stepped
  obtain ⟨chain, moved, rfl⟩ := map_eq_some_iff.mp rest
  obtain ⟨state, movedState, rfl⟩ := map_eq_some_iff.mp moved
  have stays : ∀ {mapStakeSpent : StakeSpent}, run.chain.state.chain.applies call = false →
      state = ⟨⟨run.chain.state.chain.active, run.chain.state.chain.pcoinsTip, mapStakeSpent⟩,
        run.chain.state.blocks⟩ → Kept txOf ⟨⟨state, tipUndo state ++ run.chain.written⟩,
          run.pool⟩ := by
    rintro mapStakeSpent _ rfl
    refine ⟨SoundChain.recordTip ?_, kept.rooted⟩
    exact ⟨kept.chain.stacked, kept.chain.sound, kept.chain.written⟩
  cases ActiveChain.step_effect movedState with
  | connected ok =>
    obtain ⟨rfl, other, checkedBefore, undoWritten, faithful⟩ := admitted
    obtain ⟨after, coins⟩ := kept.chain.connected other checkedBefore undoWritten faithful ok
    rw [pool_of_applies called (applies_connect_iff.mpr ⟨_, ok⟩) flushed]
    exact kept.connect after.recordTip coins
  | disconnected tip ok clean =>
    obtain ⟨after, faithful, coins⟩ := kept.chain.disconnected tip (admitted _ rfl) ok clean
    rw [pool_of_applies called (applies_disconnect tip ok clean) flushed]
    simp only [movePool, tip]
    exact kept.disconnect after.recordTip faithful coins context policy _
  | refused idle =>
    rw [pool_of_idle called idle]
    exact stays idle rfl
  | erased tip idle =>
    rw [pool_of_idle called idle]
    exact stays idle rfl
  | stopped failed => exact absurd flushed failed

theorem kept_step {call : PoolCall} (kept : run.Kept txOf)
    (admitted : run.Admitted params txOf call) (flushed : run.FlushHolds call)
    (stepped : run.step call = some next) : next.Kept txOf := by
  cases call with
  | accept context policy options tx => exact kept.accept admitted stepped
  | tip call context policy => exact kept.tip admitted flushed stepped
  | clear =>
    cases stepped
    exact ⟨kept.chain, TxPool.rooted_empty txOf _⟩

end Call

/-! ## Whole runs -/

end PoolRun

end CentNode
