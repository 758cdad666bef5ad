import CentNode.Validation.UndoExactness

/-!
# Stakes that are spent already

`AcceptBlock` refuses a proof-of-stake block whose stake is spent on the branch
it extends.  It looks at the coins of the active tip, at the recently spent
outpoints with their heights, and at the blocks of the fork.
-/

namespace CentNode

open List Option StdMap

/-- An entry of the block index with the block it stands for; `readable` tells
whether `ReadBlockFromDisk` gives the block. -/
structure IndexedBlock where
  nHeight : Nat
  block : CBlock
  readable : Bool := true
  deriving DecidableEq, Repr

/-- A transaction of the block spends the outpoint. -/
def IndexedBlock.Spends (entry : IndexedBlock) (out : COutPoint) : Prop :=
  out ∈ entry.block.vtx.flatMap CTransaction.spends

def activeContains (vChain : List IndexedBlock) (entry : IndexedBlock) : Bool :=
  vChain[entry.nHeight]? = some entry

/-- The recently spent outpoints let the stake pass: each input was spent, and
not below the parent. -/
def spentAbove (mapStakeSpent : StakeSpent) (pindexPrev : IndexedBlock) (coinstake : CTransaction) :
    Bool :=
  coinstake.vin.all fun txin =>
    match mapStakeSpent.lookup txin.prevout with
    | none => false
    | some height => !decide (height < pindexPrev.nHeight)

/-- The block, as far as it can be read, has an input of the stake. -/
def sharesInput (entry : IndexedBlock) (coinstake : CTransaction) : Bool :=
  entry.readable && entry.block.vtx.any fun tx => tx.vin.any fun txin =>
    coinstake.vin.any fun stakeIn => stakeIn.prevout = txin.prevout

/-- The walk from the parent down to the active chain. -/
def walkFork (vChain : List IndexedBlock) (coinstake : CTransaction) : List IndexedBlock → Bool
  | [] => true
  | last :: rest =>
    if activeContains vChain last then true
    else if sharesInput last coinstake then false
    else walkFork vChain coinstake rest

/-- The stake part of `AcceptBlock`; the branch starts with `pindexPrev`. -/
def checkStakeInputs (vChain : List IndexedBlock) (pcoinsTip : FlatCoins)
    (mapStakeSpent : StakeSpent) (branch : List IndexedBlock) (coinstake : CTransaction) : Bool :=
  match branch with
  | [] => false
  | pindexPrev :: _ =>
    (pcoinsTip.haveInputs coinstake || spentAbove mapStakeSpent pindexPrev coinstake) &&
      (activeContains vChain pindexPrev || walkFork vChain coinstake branch)

/-- How `AcceptBlock` ends. -/
inductive AcceptOutcome where
  | refused
  | alreadyHave
  | stored
  deriving DecidableEq, Repr

/-- `AcceptBlock`, with the checks of header and block before the stake, the
entry's `BLOCK_HAVE_DATA` and the writing to disk after it as they turn out. -/
def acceptBlock (headerOk haveData blockOk written : Bool) (vChain : List IndexedBlock)
    (pcoinsTip : FlatCoins) (mapStakeSpent : StakeSpent) (branch : List IndexedBlock)
    (block : CBlock) : AcceptOutcome :=
  if !headerOk then .refused
  else if haveData then .alreadyHave
  else if !blockOk then .refused
  else
    match block.isProofOfStake, block.vtx with
    | true, _ :: coinstake :: _ =>
      if checkStakeInputs vChain pcoinsTip mapStakeSpent branch coinstake && written then .stored
      else .refused
    | _, _ => if written then .stored else .refused

/-! ## The active chain and its coins -/

def applyBlocks : FlatCoins → List IndexedBlock → Option FlatCoins
  | view, [] => some view
  | view, entry :: rest =>
    (applyTxs entry.nHeight view entry.block.vtx).bind fun applied => applyBlocks applied.1 rest

/-- No coins at all; the transactions of the genesis block are not connected. -/
def emptyCoins : FlatCoins := ⟨fun _ => CCoins.cleared, 0⟩

def chainTxs (entries : List IndexedBlock) : List CTransaction :=
  entries.flatMap fun entry => entry.block.vtx

/-- The active chain with the coins and the spent outpoints it leads to. -/
structure StakeState where
  genesis : IndexedBlock
  connected : List IndexedBlock
  pcoinsTip : FlatCoins
  mapStakeSpent : StakeSpent
  depth : Nat
  heights : ∀ (i : Nat) (entry : IndexedBlock), (genesis :: connected)[i]? = some entry →
    entry.nHeight = i
  genesisSpends : ∀ out, ¬ genesis.Spends out
  applied : ∃ view, applyBlocks emptyCoins connected = some view ∧ view.coins = pcoinsTip.coins
  distinct : ((chainTxs connected).map CTransaction.hash).Nodup
  recorded : ∀ (out : COutPoint) (height : Int), mapStakeSpent.lookup out = some height ↔
    ∃ (n : Nat) (entry : IndexedBlock), height = n ∧ connected.length ≤ n + depth ∧
      (genesis :: connected)[n]? = some entry ∧ entry.Spends out

namespace StakeState

def vChain (state : StakeState) : List IndexedBlock := state.genesis :: state.connected

end StakeState

/-- The branch that a block extends: the entries off the active chain, the
parent first, and the height at which they leave it. -/
structure Branch (state : StakeState) where
  fork : List IndexedBlock
  forkHeight : Nat
  forkHeight_lt : forkHeight < state.vChain.length
  offActive : ∀ entry ∈ fork, activeContains state.vChain entry = false
  above : ∀ entry ∈ fork, forkHeight < entry.nHeight

/-- The parent and its ancestors down to the genesis block. -/
def Branch.entries {state : StakeState} (branch : Branch state) : List IndexedBlock :=
  branch.fork ++ (state.vChain.take (branch.forkHeight + 1)).reverse

/-- No block of the branch spends an input of the stake. -/
def StakeUnspent {state : StakeState} (branch : Branch state) (coinstake : CTransaction) : Prop :=
  ∀ entry ∈ branch.entries, ∀ out ∈ coinstake.prevouts, ¬ entry.Spends out

/-- Where the check is blind: the parent itself, when it is on the active
chain, and blocks of the fork that cannot be read. -/
def BlindSpotsUnspent {state : StakeState} (branch : Branch state) (coinstake : CTransaction) :
    Prop :=
  (branch.fork = [] → ∀ entry : IndexedBlock, state.vChain[branch.forkHeight]? = some entry →
    ∀ out ∈ coinstake.prevouts, ¬ entry.Spends out) ∧
  ∀ entry ∈ branch.fork, entry.readable = false → ∀ out ∈ coinstake.prevouts, ¬ entry.Spends out

/-! ## Outputs are spent once -/

variable {now : FlatCoins} {done txs : List CTransaction} {result : FlatCoins × List CTxUndo}
  {out : COutPoint}

/-- Whatever was spent is not spent again. -/
theorem not_spent_again {view : FlatCoins} {nHeight : Int} (history : History view done now)
    (applied : applyTxs nHeight now txs = some result)
    (absent : ∀ tx ∈ txs, (view.coins tx.hash).isPruned = true)
    (distinct : (txs.map CTransaction.hash ++ done.map CTransaction.hash).Nodup)
    (before : ∃ tx ∈ done, out ∈ tx.spends) : out ∉ txs.flatMap CTransaction.spends := by
  induction txs generalizing done now result with
  | nil => simp
  | cons tx rest ih =>
    obtain ⟨middle, next, vprevout, undos, step, followed, _⟩ := applyTxs_cons applied
    obtain ⟨new, distinctRest⟩ := nodup_cons.mp distinct
    obtain ⟨earlier, member, spent⟩ := before
    rw [flatMap_cons, mem_append, not_or]
    refine ⟨fun again => ?_, ?_⟩
    · have gone := (history.spent earlier member out spent).1
      rw [step.spent.present out again] at gone
      cases gone
    · have newHash : tx.hash ∉ done.map CTransaction.hash := fun repeated =>
        new (mem_append_right _ repeated)
      refine ih (history.step step (absent tx mem_cons_self) newHash) followed
        (fun other later => absent other (mem_cons_of_mem tx later)) ?_
        ⟨earlier, mem_cons_of_mem tx member, spent⟩
      rw [map_cons, nodup_middle]
      exact nodup_cons.mpr ⟨new, distinctRest⟩

theorem history_after {view : FlatCoins} {nHeight : Int} (history : History view done now)
    (applied : applyTxs nHeight now txs = some result)
    (absent : ∀ tx ∈ txs, (view.coins tx.hash).isPruned = true)
    (distinct : (txs.map CTransaction.hash ++ done.map CTransaction.hash).Nodup) :
    History view (txs.reverse ++ done) result.1 := by
  induction txs generalizing done now result with
  | nil =>
    cases applied
    exact history
  | cons tx rest ih =>
    obtain ⟨middle, next, vprevout, undos, step, followed, _⟩ := applyTxs_cons applied
    obtain ⟨new, distinctRest⟩ := nodup_cons.mp distinct
    have newHash : tx.hash ∉ done.map CTransaction.hash := fun repeated =>
      new (mem_append_right _ repeated)
    have later := ih (history.step step (absent tx mem_cons_self) newHash) followed
      (fun other member => absent other (mem_cons_of_mem tx member)) (by
        rw [map_cons, nodup_middle]
        exact nodup_cons.mpr ⟨new, distinctRest⟩)
    rw [reverse_cons, append_assoc, singleton_append]
    exact later

theorem History.start : History emptyCoins [] emptyCoins :=
  ⟨fun _ left => Or.inl left, fun _ impossible => by cases impossible⟩

theorem applyBlocks_append (view : FlatCoins) (below above : List IndexedBlock) :
    applyBlocks view (below ++ above) =
      (applyBlocks view below).bind fun middle => applyBlocks middle above := by
  induction below generalizing view with
  | nil => rfl
  | cons entry rest ih =>
    rw [cons_append, applyBlocks, applyBlocks, bind_assoc]
    exact congrArg _ (funext fun applied => ih applied.1)

theorem chainTxs_cons (entry : IndexedBlock) (rest : List IndexedBlock) :
    chainTxs (entry :: rest) = entry.block.vtx ++ chainTxs rest :=
  flatMap_cons

theorem chainTxs_append (below above : List IndexedBlock) :
    chainTxs (below ++ above) = chainTxs below ++ chainTxs above :=
  flatMap_append

theorem history_of_blocks {final : FlatCoins} {entries : List IndexedBlock}
    (history : History emptyCoins done now) (applied : applyBlocks now entries = some final)
    (distinct : ((chainTxs entries).map CTransaction.hash ++ done.map CTransaction.hash).Nodup) :
    ∃ all, History emptyCoins all final ∧
      (∀ tx, tx ∈ all ↔ tx ∈ chainTxs entries ∨ tx ∈ done) ∧
        (all.map CTransaction.hash).Perm
          ((chainTxs entries).map CTransaction.hash ++ done.map CTransaction.hash) := by
  induction entries generalizing now done with
  | nil =>
    cases applied
    exact ⟨done, history, fun tx => by simp [chainTxs], by simp [chainTxs]⟩
  | cons entry rest ih =>
    obtain ⟨first, here, followed⟩ := bind_eq_some_iff.mp applied
    rw [chainTxs_cons, map_append] at distinct
    have reorder : ((chainTxs rest).map CTransaction.hash ++
        (entry.block.vtx.reverse ++ done).map CTransaction.hash).Perm
          (entry.block.vtx.map CTransaction.hash ++ (chainTxs rest).map CTransaction.hash ++
            done.map CTransaction.hash) := by
      rw [map_append, map_reverse, ← append_assoc]
      refine List.Perm.append_right _ ?_
      exact (perm_append_comm).trans
        ((reverse_perm _).append_right _)
    have later := history_after history here (fun _ _ => rfl) (by
      refine distinct.sublist ?_
      rw [append_assoc]
      exact (List.Sublist.refl _).append (sublist_append_right _ _))
    obtain ⟨all, whole, member_iff, perm⟩ := ih later followed (reorder.nodup_iff.mpr distinct)
    refine ⟨all, whole, fun tx => ?_, ?_⟩
    · rw [member_iff, chainTxs_cons]
      simp only [mem_append, mem_reverse]
      tauto
    · rw [chainTxs_cons, map_append]
      exact perm.trans reorder

variable {entry : IndexedBlock}

/-- A block of a chain spends nothing that a block below it spent. -/
theorem not_spent_above {below above : List IndexedBlock} {view : FlatCoins}
    (applied : applyBlocks emptyCoins (below ++ entry :: above) = some view)
    (distinct : ((chainTxs (below ++ entry :: above)).map CTransaction.hash).Nodup)
    {earlier : IndexedBlock} (member : earlier ∈ below) (spends : earlier.Spends out) :
    ¬ entry.Spends out := by
  rw [applyBlocks_append] at applied
  obtain ⟨middle, applied_below, applied_rest⟩ := bind_eq_some_iff.mp applied
  obtain ⟨result, applied_entry, _⟩ := bind_eq_some_iff.mp applied_rest
  rw [chainTxs_append, chainTxs_cons, map_append, map_append] at distinct
  obtain ⟨all, history, member_iff, perm⟩ := history_of_blocks History.start applied_below (by
    simpa using (nodup_append.mp distinct).1)
  obtain ⟨tx, txMember, spent⟩ := mem_flatMap.mp spends
  have done : tx ∈ all := (member_iff tx).mpr (Or.inl (mem_flatMap.mpr ⟨earlier, member, txMember⟩))
  refine not_spent_again history applied_entry (fun _ _ => rfl) ?_ ⟨tx, done, spent⟩
  -- the ids of this block and those below it are a part of all ids of the chain
  have parts : (entry.block.vtx.map CTransaction.hash ++ all.map CTransaction.hash).Perm
      ((chainTxs below).map CTransaction.hash ++ entry.block.vtx.map CTransaction.hash) := by
    refine (List.Perm.append_left _ perm).trans ?_
    simpa using perm_append_comm
  rw [parts.nodup_iff]
  refine distinct.sublist ?_
  rw [← append_assoc]
  exact sublist_append_left _ _

namespace StakeState

variable (state : StakeState)

theorem not_spent_of_available {out : COutPoint}
    (available : (state.pcoinsTip.coins out.hash).isAvailable out.n = true) {entry : IndexedBlock}
    (member : entry ∈ state.vChain) : ¬ entry.Spends out := by
  intro spends
  rcases mem_cons.mp member with rfl | later
  · exact state.genesisSpends out spends
  obtain ⟨view, applied, coins_eq⟩ := state.applied
  obtain ⟨all, history, member_iff, _⟩ := history_of_blocks History.start applied (by
    simpa using state.distinct)
  obtain ⟨tx, txMember, spent⟩ := mem_flatMap.mp spends
  have done : tx ∈ all := (member_iff tx).mpr (Or.inl (mem_flatMap.mpr ⟨entry, later, txMember⟩))
  have gone := (history.spent tx done out spent).1
  rw [coins_eq, available] at gone
  cases gone

theorem not_spent_twice {out : COutPoint} {i j : Nat} {first second : IndexedBlock}
    (firstAt : state.vChain[i]? = some first) (secondAt : state.vChain[j]? = some second)
    (firstSpends : first.Spends out) (lt : i < j) : ¬ second.Spends out := by
  cases i with
  | zero =>
    cases firstAt
    exact absurd firstSpends (state.genesisSpends out)
  | succ i =>
    obtain ⟨j, rfl⟩ : ∃ k, j = k + 1 := ⟨j - 1, by omega⟩
    replace firstAt : state.connected[i]? = some first := firstAt
    replace secondAt : state.connected[j]? = some second := secondAt
    obtain ⟨inside, rfl⟩ := List.getElem?_eq_some_iff.mp secondAt
    have chain_eq : state.connected =
        state.connected.take j ++ state.connected[j] :: state.connected.drop (j + 1) := by
      rw [getElem_cons_drop, take_append_drop]
    obtain ⟨view, applied, _⟩ := state.applied
    have distinct := state.distinct
    rw [chain_eq] at applied distinct
    refine not_spent_above applied distinct (mem_iff_getElem?.mpr ⟨i, ?_⟩) firstSpends
    rw [getElem?_take_of_lt (by omega), firstAt]

theorem spent_once {out : COutPoint} {i j : Nat} {first second : IndexedBlock}
    (firstAt : state.vChain[i]? = some first) (secondAt : state.vChain[j]? = some second)
    (firstSpends : first.Spends out) (secondSpends : second.Spends out) : i = j := by
  rcases Nat.lt_trichotomy i j with lt | eq | gt
  · exact absurd secondSpends (state.not_spent_twice firstAt secondAt firstSpends lt)
  · exact eq
  · exact absurd firstSpends (state.not_spent_twice secondAt firstAt secondSpends gt)

end StakeState

/-! ## Connecting a block -/

theorem spendInputs_setBestBlock (view : FlatCoins) (hash : Uint256) (prevouts : List COutPoint) :
    spendInputs (view.setBestBlock hash) prevouts =
      (spendInputs view prevouts).map fun spent => (spent.1.setBestBlock hash, spent.2) := by
  induction prevouts generalizing view with
  | nil => rfl
  | cons prevout rest ih =>
    have first : spendInput (view.setBestBlock hash) prevout =
        (spendInput view prevout).map fun spent => (spent.1.setBestBlock hash, spent.2) := by
      simp only [spendInput, Option.map_map]
      rfl
    rw [spendInputs, spendInputs, first]
    cases spendInput view prevout with
    | none => rfl
    | some spent =>
      simp only [map_some, bind_some, ih, Option.map_map]
      rfl

theorem applyTxs_setBestBlock (nHeight : Int) (view : FlatCoins) (hash : Uint256)
    (txs : List CTransaction) :
    applyTxs nHeight (view.setBestBlock hash) txs =
      (applyTxs nHeight view txs).map fun applied => (applied.1.setBestBlock hash, applied.2) := by
  induction txs generalizing view with
  | nil => rfl
  | cons tx rest ih =>
    have first : updateCoins tx (view.setBestBlock hash) nHeight =
        (updateCoins tx view nHeight).map fun spent => (spent.1.setBestBlock hash, spent.2) := by
      rw [updateCoins, updateCoins]
      split
      · rfl
      · rw [spendInputs_setBestBlock, Option.map_map, Option.map_map]
        rfl
    rw [applyTxs, applyTxs, first]
    cases updateCoins tx view nHeight with
    | none => rfl
    | some spent =>
      simp only [map_some, bind_some, ih, Option.map_map]
      rfl

theorem spends_iff_spentOutpoints : entry.Spends out ↔ out ∈ entry.block.spentOutpoints := by
  simp only [IndexedBlock.Spends, CBlock.spentOutpoints, mem_flatMap, mem_filter,
    CTransaction.spends]
  constructor
  · rintro ⟨tx, member, spent⟩
    split at spent
    case isTrue => cases spent
    case isFalse spending => exact ⟨tx, ⟨member, by simpa using spending⟩, spent⟩
  · rintro ⟨tx, ⟨member, spending⟩, spent⟩
    refine ⟨tx, member, ?_⟩
    rw [if_neg (by simpa using spending)]
    exact spent

namespace StakeState

structure Applies (state : StakeState) (entry : IndexedBlock) (view : FlatCoins) : Prop where
  height_eq : entry.nHeight = state.vChain.length
  applied : ∃ undos, applyTxs entry.nHeight state.pcoinsTip entry.block.vtx = some (view, undos)
  distinct : ((chainTxs (state.connected ++ [entry])).map CTransaction.hash).Nodup

variable {state : StakeState} {entry : IndexedBlock} {view : FlatCoins}

theorem Applies.applyBlocks_eq (applies : Applies state entry view) :
    ∃ final, applyBlocks emptyCoins (state.connected ++ [entry]) = some final ∧
      final.coins = view.coins := by
  obtain ⟨before, reached, coins_eq⟩ := state.applied
  obtain ⟨undos, applied⟩ := applies.applied
  have same : before = state.pcoinsTip.setBestBlock before.bestBlock := by
    rw [FlatCoins.setBestBlock, ← coins_eq]
  refine ⟨view.setBestBlock before.bestBlock, ?_, rfl⟩
  rw [applyBlocks_append, reached, bind_some, applyBlocks, same, applyTxs_setBestBlock,
    applied]
  rfl

/-- The spent outpoints after `ConnectBlock`. -/
def spentAfter (state : StakeState) (entry : IndexedBlock) : StakeSpent :=
  (state.mapStakeSpent.add entry.block entry.nHeight).deleteOld (entry.nHeight - state.depth)

/-- No outpoint of the new block was recorded already, so that `insert` takes
effect. -/
theorem Applies.lookup_add (applies : Applies state entry view) (out : COutPoint) (height : Int) :
    (state.mapStakeSpent.add entry.block entry.nHeight).lookup out = some height ↔
      state.mapStakeSpent.lookup out = some height ∨ entry.Spends out ∧ height = entry.nHeight := by
  rw [StakeSpent.add, lookup_insertAll]
  by_cases spends : entry.Spends out
  · have unrecorded : state.mapStakeSpent.lookup out = none := by
      rw [eq_none_iff_forall_ne_some]
      intro old found
      obtain ⟨n, earlier, _, _, earlierAt, earlierSpends⟩ := (state.recorded out old).mp found
      obtain ⟨final, applied, _⟩ := applies.applyBlocks_eq
      rcases mem_cons.mp (mem_of_getElem? earlierAt) with rfl | below
      · exact state.genesisSpends out earlierSpends
      · exact not_spent_above applied applies.distinct below earlierSpends spends
    rw [if_pos ⟨spends_iff_spentOutpoints.mp spends, unrecorded⟩, unrecorded]
    simp [spends, eq_comm]
  · rw [if_neg (fun both => spends (spends_iff_spentOutpoints.mpr both.1))]
    simp [spends]

theorem vChain_append (state : StakeState) (entry spender : IndexedBlock) (n : Nat) :
    (state.genesis :: (state.connected ++ [entry]))[n]? = some spender ↔
      state.vChain[n]? = some spender ∨ n = state.connected.length + 1 ∧ spender = entry := by
  rw [← cons_append, getElem?_append]
  split
  case isTrue inside =>
    have differs : n ≠ state.connected.length + 1 := by
      rw [length_cons] at inside
      omega
    simp [differs, vChain]
  case isFalse beyond =>
    rw [length_cons] at beyond
    have none_here : state.vChain[n]? = none := by
      rw [List.getElem?_eq_none_iff, vChain, length_cons]
      omega
    rw [none_here, length_cons, getElem?_singleton]
    split
    · simp [show n = state.connected.length + 1 by omega, eq_comm]
    · simp [show n ≠ state.connected.length + 1 by omega]

theorem Applies.recorded (applies : Applies state entry view) (out : COutPoint) (height : Int) :
    (state.spentAfter entry).lookup out = some height ↔
      ∃ (n : Nat) (spender : IndexedBlock), height = n ∧
        (state.connected ++ [entry]).length ≤ n + state.depth ∧
          (state.genesis :: (state.connected ++ [entry]))[n]? = some spender ∧
            spender.Spends out := by
  have height_eq : entry.nHeight = state.connected.length + 1 := applies.height_eq
  rw [spentAfter, StakeSpent.deleteOld, lookup_keep_eq_some, applies.lookup_add,
    decide_eq_true_eq, state.recorded, length_append, length_singleton]
  constructor
  · rintro ⟨⟨n, spender, rfl, _, found, spends⟩ | ⟨spends, rfl⟩, recent⟩
    · exact ⟨n, spender, rfl, by omega, (state.vChain_append ..).mpr (Or.inl found), spends⟩
    · exact ⟨entry.nHeight, entry, rfl, by omega,
        (state.vChain_append ..).mpr (Or.inr ⟨height_eq, rfl⟩), spends⟩
  · rintro ⟨n, spender, rfl, recent, found, spends⟩
    refine ⟨?_, by omega⟩
    rcases (state.vChain_append ..).mp found with old | ⟨rfl, rfl⟩
    · exact Or.inl ⟨n, spender, rfl, by omega, old, spends⟩
    · exact Or.inr ⟨spends, by rw [height_eq]⟩

/-- `ConnectBlock` on the active tip. -/
def connect (state : StakeState) (entry : IndexedBlock) (view : FlatCoins)
    (applies : Applies state entry view) : StakeState where
  genesis := state.genesis
  connected := state.connected ++ [entry]
  pcoinsTip := view.setBestBlock entry.block.hash
  mapStakeSpent := state.spentAfter entry
  depth := state.depth
  heights := by
    intro i other found
    rcases (state.vChain_append ..).mp found with old | ⟨rfl, rfl⟩
    · exact state.heights i other old
    · exact applies.height_eq
  genesisSpends := state.genesisSpends
  applied := applies.applyBlocks_eq
  distinct := applies.distinct
  recorded := applies.recorded

/-- A chain of the genesis block alone. -/
def start (genesis : IndexedBlock) (depth : Nat) (zero : genesis.nHeight = 0)
    (spendsNothing : ∀ out, ¬ genesis.Spends out) : StakeState where
  genesis := genesis
  connected := []
  pcoinsTip := emptyCoins
  mapStakeSpent := ∅
  depth := depth
  heights := by
    intro i entry found
    cases i with
    | zero =>
      cases found
      exact zero
    | succ i => cases found
  genesisSpends := spendsNothing
  applied := ⟨emptyCoins, rfl, rfl⟩
  distinct := List.nodup_nil
  recorded := by
    intro out height
    rw [AList.lookup_empty]
    constructor
    · exact fun impossible => by cases impossible
    · rintro ⟨n, entry, _, _, found, spends⟩
      have only : entry = genesis := by
        cases n with
        | zero => exact (Option.some.inj found).symm
        | succ n => cases found
      exact absurd (only ▸ spends) (spendsNothing out)

end StakeState

/-! ## What the check sees -/

variable {coinstake : CTransaction}

theorem walkFork_unshared {vChain fork rest : List IndexedBlock}
    (offActive : ∀ entry ∈ fork, activeContains vChain entry = false)
    (walked : walkFork vChain coinstake (fork ++ rest) = true) :
    ∀ entry ∈ fork, sharesInput entry coinstake = false := by
  induction fork with
  | nil => exact fun entry impossible => by cases impossible
  | cons last below ih =>
    have off : ¬ activeContains vChain last = true := by
      simp [offActive last mem_cons_self]
    rw [cons_append, walkFork, if_neg off] at walked
    have unshared : ¬ sharesInput last coinstake = true := by
      intro shared
      rw [if_pos shared] at walked
      cases walked
    rw [if_neg unshared] at walked
    intro entry member
    rcases mem_cons.mp member with rfl | later
    · exact Bool.eq_false_iff.mpr unshared
    · exact ih (fun other inside => offActive other (mem_cons_of_mem last inside)) walked
        entry later

theorem not_spends_of_unshared (readable : entry.readable = true)
    (unshared : sharesInput entry coinstake = false) (member : out ∈ coinstake.prevouts) :
    ¬ entry.Spends out := by
  intro spends
  obtain ⟨tx, txMember, spent⟩ := mem_flatMap.mp spends
  have among : out ∈ tx.prevouts := by
    rw [CTransaction.spends] at spent
    split at spent
    · cases spent
    · exact spent
  obtain ⟨txin, inTx, rfl⟩ := List.mem_map.mp among
  obtain ⟨stakeIn, inStake, same⟩ := List.mem_map.mp member
  have shared : sharesInput entry coinstake = true := by
    rw [sharesInput, readable, Bool.true_and]
    refine List.any_eq_true.mpr ⟨tx, txMember, List.any_eq_true.mpr ⟨txin, inTx, ?_⟩⟩
    exact List.any_eq_true.mpr ⟨stakeIn, inStake, decide_eq_true same⟩
  rw [shared] at unshared
  cases unshared

theorem height_of_spentAbove {mapStakeSpent : StakeSpent} {pindexPrev : IndexedBlock}
    (above : spentAbove mapStakeSpent pindexPrev coinstake = true)
    (member : out ∈ coinstake.prevouts) :
    ∃ height : Int, mapStakeSpent.lookup out = some height ∧ pindexPrev.nHeight ≤ height := by
  obtain ⟨txin, inStake, rfl⟩ := List.mem_map.mp member
  have passed := List.all_eq_true.mp above txin inStake
  cases found : mapStakeSpent.lookup txin.prevout with
  | none => simp [found] at passed
  | some height =>
    refine ⟨height, rfl, ?_⟩
    simpa [found] using passed

theorem isCoinBase_of_isCoinStake {tx : CTransaction} (stake : tx.isCoinStake = true) :
    tx.isCoinBase = false := by
  rw [CTransaction.isCoinStake] at stake
  rw [CTransaction.isCoinBase]
  split
  case h_1 input only =>
    split at stake
    case h_1 first _ second _ vin_eq _ =>
      cases only.symm.trans vin_eq
      cases null : input.prevout.isNull with
      | false => rfl
      | true => simp [null] at stake
    case h_2 => cases stake
  case h_2 => rfl

theorem checkStakeInputs_of_stored {headerOk haveData blockOk written : Bool}
    {vChain : List IndexedBlock} {pcoinsTip : FlatCoins} {mapStakeSpent : StakeSpent}
    {branch : List IndexedBlock} {block : CBlock} {coinbase : CTransaction}
    {others : List CTransaction} (vtx_eq : block.vtx = coinbase :: coinstake :: others)
    (stake : coinstake.isCoinStake = true)
    (stored : acceptBlock headerOk haveData blockOk written vChain pcoinsTip mapStakeSpent branch
      block = .stored) :
    checkStakeInputs vChain pcoinsTip mapStakeSpent branch coinstake = true := by
  have proof_of_stake : block.isProofOfStake = true := by
    rw [CBlock.isProofOfStake, vtx_eq]
    exact stake
  rw [acceptBlock, proof_of_stake, vtx_eq] at stored
  cases checked : checkStakeInputs vChain pcoinsTip mapStakeSpent branch coinstake with
  | true => rfl
  | false =>
    simp only [checked, Bool.false_and] at stored
    cases headerOk <;> cases haveData <;> cases blockOk <;> cases stored

namespace Branch

variable {state : StakeState} (branch : Branch state) {coinstake : CTransaction}

variable {entry : IndexedBlock}

theorem mem_entries_iff :
    entry ∈ branch.entries ↔
      entry ∈ branch.fork ∨ ∃ i ≤ branch.forkHeight, state.vChain[i]? = some entry := by
  rw [entries, mem_append, mem_reverse, mem_take_iff_getElem]
  constructor
  · rintro (inFork | ⟨i, inside, rfl⟩)
    · exact Or.inl inFork
    · exact Or.inr ⟨i, by omega, getElem?_eq_getElem (by omega)⟩
  · rintro (inFork | ⟨i, le, found⟩)
    · exact Or.inl inFork
    · obtain ⟨inside, rfl⟩ := List.getElem?_eq_some_iff.mp found
      exact Or.inr ⟨i, by omega, rfl⟩

theorem entries_of_fork_nil (nil : branch.fork = []) :
    ∃ pindexPrev below, branch.entries = pindexPrev :: below ∧
      state.vChain[branch.forkHeight]? = some pindexPrev ∧
        pindexPrev.nHeight = branch.forkHeight := by
  obtain ⟨pindexPrev, found⟩ : ∃ entry, state.vChain[branch.forkHeight]? = some entry :=
    ⟨_, getElem?_eq_getElem branch.forkHeight_lt⟩
  refine ⟨pindexPrev, (state.vChain.take branch.forkHeight).reverse, ?_, found,
    state.heights _ _ found⟩
  rw [entries, nil, take_add_one, found, reverse_append]
  rfl

variable {below : List IndexedBlock}

theorem entries_of_fork_cons {parent : IndexedBlock} (cons : branch.fork = parent :: below) :
    branch.entries = parent :: (below ++ (state.vChain.take (branch.forkHeight + 1)).reverse) ∧
      branch.forkHeight < parent.nHeight := by
  refine ⟨by rw [entries, cons, cons_append], branch.above parent ?_⟩
  rw [cons]
  exact mem_cons_self

variable {pindexPrev : IndexedBlock} {out : COutPoint}

section

variable (entries_eq : branch.entries = pindexPrev :: below)

include entries_eq

theorem spent_by_parent (passed : spentAbove state.mapStakeSpent pindexPrev coinstake = true)
    (member : out ∈ coinstake.prevouts) {i : Nat} (le : i ≤ branch.forkHeight)
    (found : state.vChain[i]? = some entry) (spends : entry.Spends out) :
    branch.fork = [] ∧ i = branch.forkHeight := by
  obtain ⟨height, recorded, high⟩ := height_of_spentAbove passed member
  obtain ⟨n, spender, rfl, _, spenderAt, spenderSpends⟩ := (state.recorded out height).mp recorded
  have same : i = n := state.spent_once found spenderAt spends spenderSpends
  cases fork_eq : branch.fork with
  | nil =>
    obtain ⟨parent, lower, parent_eq, _, parentHeight⟩ := branch.entries_of_fork_nil fork_eq
    cases entries_eq.symm.trans parent_eq
    exact ⟨rfl, by omega⟩
  | cons parent lower =>
    obtain ⟨parent_eq, parentHeight⟩ := branch.entries_of_fork_cons fork_eq
    cases entries_eq.symm.trans parent_eq
    omega

theorem active_unspent
    (stake : coinstake.isCoinStake = true) (passed : (state.pcoinsTip.haveInputs coinstake ||
      spentAbove state.mapStakeSpent pindexPrev coinstake) = true)
    (blind : BlindSpotsUnspent branch coinstake) {i : Nat} (le : i ≤ branch.forkHeight)
    (found : state.vChain[i]? = some entry) (member : out ∈ coinstake.prevouts) :
    ¬ entry.Spends out := by
  rcases Bool.or_eq_true _ _ |>.mp passed with available | recorded
  · obtain ⟨txin, inStake, rfl⟩ := List.mem_map.mp member
    exact state.not_spent_of_available
      (FlatCoins.available_of_haveInputs available (isCoinBase_of_isCoinStake stake) inStake)
      (mem_of_getElem? found)
  · intro spends
    obtain ⟨nil, rfl⟩ := branch.spent_by_parent entries_eq recorded member le found spends
    exact blind.1 nil entry found out member spends

theorem fork_unspent (walked : (activeContains state.vChain pindexPrev ||
      walkFork state.vChain coinstake branch.entries) = true)
    (blind : BlindSpotsUnspent branch coinstake) (inFork : entry ∈ branch.fork)
    (member : out ∈ coinstake.prevouts) : ¬ entry.Spends out := by
  cases readable : entry.readable with
  | false => exact blind.2 entry inFork readable out member
  | true =>
    cases fork_eq : branch.fork with
    | nil => simp [fork_eq] at inFork
    | cons parent lower =>
      have off : activeContains state.vChain parent = false :=
        branch.offActive parent (by simp [fork_eq])
      cases entries_eq.symm.trans (branch.entries_of_fork_cons fork_eq).1
      rw [off, Bool.false_or] at walked
      exact not_spends_of_unshared readable
        (walkFork_unshared branch.offActive walked entry inFork) member

end

end Branch

/-- A stored proof-of-stake block spends nothing that its branch has spent,
exactly if the blind spots of the check hold nothing of it. -/
theorem acceptBlock_stake_unspent_iff {headerOk haveData blockOk written : Bool}
    (state : StakeState) (branch : Branch state) {block : CBlock}
    {coinbase coinstake : CTransaction} {others : List CTransaction}
    (vtx_eq : block.vtx = coinbase :: coinstake :: others)
    (stake : coinstake.isCoinStake = true)
    (stored : acceptBlock headerOk haveData blockOk written state.vChain state.pcoinsTip
      state.mapStakeSpent branch.entries block = .stored) :
    StakeUnspent branch coinstake ↔ BlindSpotsUnspent branch coinstake := by
  constructor
  · intro unspent
    refine ⟨fun _ entry found => unspent entry ?_, fun entry inFork _ => unspent entry ?_⟩
    · exact branch.mem_entries_iff.mpr (Or.inr ⟨branch.forkHeight, le_rfl, found⟩)
    · exact branch.mem_entries_iff.mpr (Or.inl inFork)
  · intro blind entry member out outMember
    have checked := checkStakeInputs_of_stored vtx_eq stake stored
    cases entries_eq : branch.entries with
    | nil => simp [entries_eq, checkStakeInputs] at checked
    | cons pindexPrev below =>
      rw [entries_eq, checkStakeInputs, Bool.and_eq_true, ← entries_eq] at checked
      rcases branch.mem_entries_iff.mp member with inFork | ⟨i, le, found⟩
      · exact branch.fork_unspent entries_eq checked.2 blind inFork outMember
      · exact branch.active_unspent entries_eq stake checked.1 blind le found outMember

namespace DoubleStake

/-- A transaction that spends the first output of transaction 10. -/
def stakeTx (hash : Uint256) : CTransaction :=
  { hash := hash, vin := [{ prevout := ⟨10, 0⟩ }], vout := [⟨0, []⟩, ⟨100, [1]⟩] }

def baseTx (hash : Uint256) (nValue : Int) : CTransaction :=
  { hash := hash, vin := [{ prevout := COutPoint.null, scriptSig := [0, 0] }],
    vout := [⟨nValue, []⟩] }

def genesis : IndexedBlock := ⟨0, { hash := 1, hashPrevBlock := 0, vtx := [] }, true⟩

def earned : IndexedBlock := ⟨1, { hash := 2, hashPrevBlock := 1, vtx := [baseTx 10 100] }, true⟩

def staked : IndexedBlock :=
  ⟨2, { hash := 3, hashPrevBlock := 2, vtx := [baseTx 11 0, stakeTx 12] }, true⟩

/-- Stakes the output once more. -/
def again : CBlock := { hash := 4, hashPrevBlock := 3, vtx := [baseTx 13 0, stakeTx 14] }

def started : StakeState := StakeState.start genesis 100 rfl (by simp [IndexedBlock.Spends, genesis])

def coinsAbove (view : FlatCoins) (entry : IndexedBlock) : FlatCoins :=
  ((applyTxs entry.nHeight view entry.block.vtx).map Prod.fst).getD view

def one : StakeState := started.connect earned (coinsAbove started.pcoinsTip earned)
  ⟨rfl, ⟨_, rfl⟩, by decide⟩

/-- The output is made at height 1 and staked at height 2. -/
def state : StakeState := one.connect staked (coinsAbove one.pcoinsTip staked)
  ⟨rfl, ⟨_, rfl⟩, by decide⟩

/-- The active chain up to a height, as a branch without a fork. -/
def upTo (height : Nat) (inside : height < 3) : Branch state where
  fork := []
  forkHeight := height
  forkHeight_lt := inside
  offActive := fun _ impossible => by cases impossible
  above := fun _ impossible => by cases impossible

end DoubleStake

open DoubleStake

/-- A block on top of height 1 may stake the output that only height 2 spends. -/
theorem acceptBlock_stake_unspent_below_tip :
    StakeUnspent (DoubleStake.upTo 1 (by decide)) (DoubleStake.stakeTx 14) := by
  have stored : acceptBlock true false true true state.vChain
      state.pcoinsTip state.mapStakeSpent
      (upTo 1 (by decide)).entries again = .stored := by decide
  refine (acceptBlock_stake_unspent_iff state (upTo 1 (by decide)) rfl rfl
    stored).mpr ⟨fun _ entry found => ?_, ?_⟩
  · cases found
    exact fun out _ => not_mem_nil
  · exact fun _ impossible => by cases impossible

/-- A block on top of the tip is stored although the tip has spent its stake. -/
theorem double_stake_stored :
    acceptBlock true false true true DoubleStake.state.vChain DoubleStake.state.pcoinsTip
        DoubleStake.state.mapStakeSpent (DoubleStake.upTo 2 (by decide)).entries
        DoubleStake.again = .stored ∧
      DoubleStake.again.isProofOfStake = true ∧
        ¬ StakeUnspent (DoubleStake.upTo 2 (by decide)) (DoubleStake.stakeTx 14) := by
  refine ⟨by decide, by decide, fun unspent => ?_⟩
  exact unspent staked mem_cons_self ⟨10, 0⟩ mem_cons_self
    mem_cons_self

end CentNode
