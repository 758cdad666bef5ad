import CentNode.Chain.MoneySupply

/-!
# Chains of mints

On a synced node a block with a coinbase alone is connected as long as it mints
what `GetBlockValue` allows.  A chain of such blocks takes the supply of the
test network past its bound, twenty coins at a time, and the supply of the main
network to where a proof-of-stake block can make coins that no check counts.
-/

namespace CentNode

open List Option

namespace SupplyRun

/-! ## The blocks -/

/-- The hash of block `k` of the chain. -/
def mintHash (params : CChainParams) (k : Nat) : Uint256 :=
  if k = 0 then params.hashGenesisBlock else BitVec.ofNat 256 k

/-- The id of the coinbase of block `k + 1`. -/
def mintId (k : Nat) : Uint256 := BitVec.ofNat 256 (1000 + k)

def mintNode (params : CChainParams) (tip : Option CBlockIndex) : Node :=
  { Sample.node true 0 with params := params, masternodeSynced := true, tip := tip }

def mintIndex (hash : Uint256) (nHeight : Nat) : CBlockIndex :=
  { phashBlock := some hash, nHeight := nHeight }

/-- A synced node connects block `k + 1`. -/
def mintCall (params : CChainParams) (nValue : Int) (k : Nat) : TipCall :=
  .connect (mintNode params none) {} (mintIndex (mintHash params (k + 1)) (k + 1))
    (some (mintBlock (mintHash params (k + 1)) (mintHash params k) (mintId k) nValue)) false .done

def mints (params : CChainParams) (nValue : Int) (n : Nat) : List TipCall :=
  (range n).map (mintCall params nValue)

/-- What the coinbase of block `k + 1` leaves in the coins. -/
def mintCoins (nValue : Int) (k : Nat) : CCoins :=
  { fCoinBase := true, vout := [⟨nValue, [1]⟩], nHeight := (k + 1 : Nat), nVersion := 1 }

/-- The loop of `ConnectBlock` after the coinbase. -/
def mintState (view : FlatCoins) (tip : CBlockIndex) (txid : Uint256) (nValue : Int) :
    ConnectState where
  view := addOutputs view (mintTx nValue txid) (tip.nHeight + 1 : Nat)
  nValueOut := nValue
  nSigOps := 1

section Mints

variable {params : CChainParams} {nValue : Int} {k : Nat} {run : SupplyRun} {tip : CBlockIndex}
  (hash hashPrevBlock txid : Uint256) (view : FlatCoins) (below : List CBlockIndex)
  (mapStakeSpent : StakeSpent)

theorem moneyRange_bounds (range : params.moneyRange nValue = true) :
    0 ≤ nValue ∧ nValue ≤ params.maxMoneyOut := by
  simpa [CChainParams.moneyRange] using range

theorem toInt64_moneyRange (range : params.moneyRange nValue = true) :
    toInt64 nValue = nValue := by
  have bounds := moneyRange_bounds range
  have fits := params.maxMoneyOut_lt
  exact toInt64_of_range (by omega) (by omega)

theorem mintId_ne {i j : Nat} (small : i < 2 ^ 64) (smallToo : j < 2 ^ 64) (differ : i ≠ j) :
    mintId i ≠ mintId j := by
  intro same
  have numbers := congrArg BitVec.toNat same
  simp only [mintId, BitVec.toNat_ofNat] at numbers
  omega

theorem mintHash_ne (far : 2 ^ 64 ≤ params.hashGenesisBlock.toNat) (small : k + 1 < 2 ^ 64) :
    mintHash params (k + 1) ≠ params.hashGenesisBlock := by
  intro same
  have numbers := congrArg BitVec.toNat same
  simp only [mintHash, Nat.succ_ne_zero, if_false, BitVec.toNat_ofNat] at numbers
  omega

theorem addOutputs_mintTx (low : 0 ≤ nValue) (other : Uint256) :
    (addOutputs view (mintTx nValue txid) (k + 1 : Nat)).coins other =
      if other = txid then mintCoins nValue k else view.coins other := by
  have notNull : CTxOut.isNull ⟨nValue, [1]⟩ = false := by
    simp [CTxOut.isNull]
    omega
  have trimmed : rdropWhile CTxOut.isNull [⟨nValue, [1]⟩] = [⟨nValue, [1]⟩] := by
    rw [rdropWhile_singleton, notNull]
    rfl
  have cleaned : (CCoins.fromTx (mintTx nValue txid) (k + 1 : Nat)).cleanup =
      mintCoins nValue k := by
    rw [CCoins.fromTx, CCoins.clearUnspendable, CCoins.cleanup_cleanup, CCoins.cleanup]
    exact congrArg (fun vout => { mintCoins nValue k with vout := vout }) trimmed
  rw [addOutputs, FlatCoins.modifyCoins_coins, cleaned]
  rfl

/-! ## One block -/

theorem checkTransaction_mintTx (range : params.moneyRange nValue = true)
    (tip : Option CBlockIndex) :
    checkTransaction (mintNode params tip) (mintTx nValue txid) = .ok () := by
  have bounds := moneyRange_bounds range
  have counted : (mintTx nValue txid).vout.foldlM (checkOutput params (mintTx nValue txid)) 0 =
      .ok nValue := by
    change checkOutput params (mintTx nValue txid) 0 ⟨nValue, [1]⟩ >>= pure = _
    have isCoinBase : (mintTx nValue txid).isCoinBase = true := rfl
    rw [checkOutput, isCoinBase, if_neg (by simp), if_neg (by simpa using bounds.1),
      if_neg (by simpa using bounds.2), Int.zero_add, toInt64_moneyRange range, range]
    rfl
  rw [checkTransaction]
  simp only [mintNode, counted]
  rfl

theorem checkBlock_mintBlock (range : params.moneyRange nValue = true)
    (child : tip.getBlockHash = hashPrevBlock)
    (work : (tip.nHeight : Int) + 1 ≤ params.lastPowBlock) :
    checkBlock (mintNode params (some tip)) (mintBlock hash hashPrevBlock txid nValue) true =
      .ok () := by
  have payee : checkPayee (mintNode params (some tip))
      (mintBlock hash hashPrevBlock txid nValue) = .ok () := by
    have height : (mintNode params (some tip)).heightOf tip
        (mintBlock hash hashPrevBlock txid nValue) = tip.nHeight + 1 := if_pos child
    have early : ¬ (tip.nHeight : Int) + 1 > (mintNode params (some tip)).params.lastPowBlock :=
      not_lt.mpr work
    have valid : isBlockPayeeValid (mintNode params (some tip))
        (mintBlock hash hashPrevBlock txid nValue) (tip.nHeight + 1) = some true := by
      rw [isBlockPayeeValid, if_neg (by simp [mintNode]), if_neg early]
      rfl
    have above : (tip.nHeight : Int) + 1 ≠ 0 ∧
        (mintNode params (some tip)).isInitialBlockDownload = false := ⟨by omega, rfl⟩
    have ownTip : (mintNode params (some tip)).tip = some tip := rfl
    unfold checkPayee
    simp only [ownTip, height, valid, if_pos above]
  have transactions : (mintBlock hash hashPrevBlock txid nValue).vtx.forM
      (checkTransaction (mintNode params (some tip))) = .ok () := by
    change checkTransaction _ (mintTx nValue txid) >>= _ = _
    rw [checkTransaction_mintTx txid range]
    rfl
  unfold checkBlock
  rw [payee, transactions]
  rfl

theorem connectTxs_mintBlock (range : params.moneyRange nValue = true) (rules : BlockRules)
    (height : rules.nHeight = (tip.nHeight + 1 : Nat)) :
    connectTxs (mintNode params (some tip)) rules true
        (mintBlock hash hashPrevBlock txid nValue).vtx { view := view } =
      .ok (mintState view tip txid nValue) := by
  have bounds := moneyRange_bounds range
  have exact_value := toInt64_moneyRange range
  have out : (mintTx nValue txid).getValueOut = some nValue := by
    change (CTransaction.addValueOut 0 ⟨nValue, [1]⟩).bind some = _
    rw [CTransaction.addValueOut, Int.zero_add, exact_value, if_neg (by simpa using bounds.1),
      if_neg (by simpa using bounds.1)]
    rfl
  have applied : applyTx rules true (mintTx nValue txid) { view := view, nSigOps := 1 } =
      .ok (mintState view tip txid nValue) := by
    simp only [applyTx, out, Int.zero_add, exact_value, height]
    rfl
  have stepped : connectTx (mintNode params (some tip)) rules true (mintTx nValue txid)
      { view := view } = _ := applied
  change connectTxs _ _ _ [mintTx nValue txid] _ = _
  rw [connectTxs, stepped]
  rfl

theorem finishConnect_mintBlock (range : params.moneyRange nValue = true)
    (low : 0 ≤ tip.nMoneySupply) (sum : tip.nMoneySupply + nValue < 2 ^ 63)
    (allowed : nValue ≤ toInt64 (getBlockValue params tip tip.nHeight)) :
    ∃ result, finishConnect (mintNode params (some tip)) {}
        (mintBlock hash hashPrevBlock txid nValue) (mintIndex hash (tip.nHeight + 1)) tip
          mapStakeSpent false (mintState view tip txid nValue) = .ok result ∧
      result.pindex.getBlockHash = hash ∧ result.pindex.nHeight = tip.nHeight + 1 ∧
        result.pindex.nMoneySupply = tip.nMoneySupply + nValue ∧
          result.view = (mintState view tip txid nValue).view.setBestBlock hash := by
  have bounds := moneyRange_bounds range
  have total : toInt64 (tip.nMoneySupply + nValue - 0) = tip.nMoneySupply + nValue := by
    rw [Int.sub_zero, toInt64_of_range (by omega) sum]
  have mint : toInt64 (tip.nMoneySupply + nValue - tip.nMoneySupply + 0) = nValue := by
    rw [Int.add_zero, add_sub_cancel_left, toInt64_moneyRange range]
  have valid : isBlockValueValid (mintNode params (some tip))
      (mintBlock hash hashPrevBlock txid nValue) (expectedMint (mintNode params (some tip)) tip tip
        (mintBlock hash hashPrevBlock txid nValue) 0) nValue = true := by
    change decide (nValue ≤ toInt64 (getBlockValue params tip tip.nHeight + 0)) = true
    rw [Int.add_zero]
    exact decide_eq_true allowed
  have minted : recordMint (mintIndex hash (tip.nHeight + 1)) tip
      (mintState view tip txid nValue) = { mintIndex hash (tip.nHeight + 1) with
        nMoneySupply := tip.nMoneySupply + nValue, nMint := nValue } := by
    simp only [recordMint, mintState, total, mint]
  have ownTip : (mintNode params (some tip)).tip = some tip := rfl
  have noFees : (mintState view tip txid nValue).nFees = 0 := rfl
  have noChecks : (mintState view tip txid nValue).vChecks = [] := rfl
  simp only [finishConnect, minted, ownTip, noFees, noChecks, valid, all_nil, Bool.not_true,
    Bool.false_eq_true, if_false]
  exact ⟨_, rfl, rfl, rfl, rfl, rfl⟩

theorem connectBlock_mintBlock (range : params.moneyRange nValue = true)
    (other : hash ≠ params.hashGenesisBlock) (child : tip.getBlockHash = hashPrevBlock)
    (best : view.bestBlock = hashPrevBlock)
    (work : (tip.nHeight : Int) + 1 ≤ params.lastPowBlock)
    (low : 0 ≤ tip.nMoneySupply) (sum : tip.nMoneySupply + nValue < 2 ^ 63)
    (allowed : nValue ≤ toInt64 (getBlockValue params tip tip.nHeight)) :
    ∃ result, connectBlock (mintNode params (some tip)) {}
        (mintBlock hash hashPrevBlock txid nValue) (mintIndex hash (tip.nHeight + 1))
          (tip :: below) view mapStakeSpent false false = .ok result ∧
      result.pindex.getBlockHash = hash ∧ result.pindex.nHeight = tip.nHeight + 1 ∧
        result.pindex.nMoneySupply = tip.nMoneySupply + nValue ∧
          result.view = (mintState view tip txid nValue).view.setBestBlock hash := by
  obtain ⟨result, finished, effects⟩ := finishConnect_mintBlock hash hashPrevBlock txid view
    mapStakeSpent range low sum allowed
  refine ⟨result, ?_, effects⟩
  have preliminary : connectPreliminary (mintNode params (some tip))
      (mintBlock hash hashPrevBlock txid nValue) (mintIndex hash (tip.nHeight + 1)) view =
        .ok () := by
    have early : ¬ ((tip.nHeight + 1 : Nat) : Int) > params.lastPowBlock := by omega
    rw [connectPreliminary, if_neg (fun staked => Bool.false_ne_true staked.2),
      if_neg (fun late => early late.1),
      if_neg (fun unknown => some_ne_none hash unknown.1)]
  have parent : CentNode.hashPrevBlock (tip :: below) = view.bestBlock := child.trans best.symm
  have looped := connectTxs_mintBlock hash hashPrevBlock txid view range
    (blockRules (mintNode params (some tip)) (mintBlock hash hashPrevBlock txid nValue)
      (mintIndex hash (tip.nHeight + 1)) (tip :: below)) rfl
  have notGenesis : (mintBlock hash hashPrevBlock txid nValue).hash ≠
      (mintNode params (some tip)).params.hashGenesisBlock := other
  unfold connectBlock
  simp only [Bool.not_false, checkBlock_mintBlock hash hashPrevBlock txid range child work]
  rw [if_neg Bool.false_ne_true]
  simp only [if_pos parent, if_neg notGenesis, preliminary, looped]
  exact finished

/-! ## The chain -/

/-- The chain after `k` mints. -/
structure Minted (params : CChainParams) (nValue : Int) (k : Nat) (run : SupplyRun) : Prop where
  tip : ∃ tip below, run.state.chain.active = tip :: below ∧
    tip.getBlockHash = mintHash params k ∧ tip.nHeight = k ∧ tip.nMoneySupply = k * nValue
  best : run.state.chain.pcoinsTip.bestBlock = mintHash params k
  coins : ∀ j < k, run.state.chain.pcoinsTip.coins (mintId j) = mintCoins nValue j
  ids : ∀ txid ∈ chainTxids params run.state.blocks, ∃ j < k, txid = mintId j
  distinct : (chainTxids params run.state.blocks).Nodup

/-- What the mint of block `k + 1` asks for. -/
structure Mintable (params : CChainParams) (txOf : Uint256 → CTransaction) (nValue : Int)
    (k : Nat) : Prop where
  work : (k : Int) + 1 ≤ params.lastPowBlock
  small : k + 1 < 2 ^ 64
  sum : (k + 1) * nValue < 2 ^ 63
  allowed : ∀ tip : CBlockIndex, tip.nMoneySupply = k * nValue →
    nValue ≤ toInt64 (getBlockValue params tip k)
  named : txOf (mintId k) = mintTx nValue (mintId k)

variable {txOf : Uint256 → CTransaction}

theorem Minted.connects (minted : run.Minted params nValue k)
    (far : 2 ^ 64 ≤ params.hashGenesisBlock.toNat) (range : params.moneyRange nValue = true)
    (mintable : Mintable params txOf nValue k) :
    run.Admitted params txOf (mintCall params nValue k) ∧
      ∃ next, run.step (mintCall params nValue k) = some next ∧
        next.Minted params nValue (k + 1) := by
  obtain ⟨⟨tip, below, active, hash, height, supply⟩, best, coins, ids, distinct⟩ := minted
  obtain ⟨work, small, sum, allowed, named⟩ := mintable
  have bounds := moneyRange_bounds range
  have other := mintHash_ne far small
  subst height
  have nonneg : 0 ≤ tip.nMoneySupply := by
    rw [supply]
    exact Int.mul_nonneg (by omega) bounds.1
  have nextSupply : tip.nMoneySupply + nValue = (tip.nHeight + 1) * nValue := by
    rw [supply, Int.add_mul, Int.one_mul]
  obtain ⟨result, ok, pindexHash, pindexHeight, pindexSupply, view_eq⟩ :=
    connectBlock_mintBlock (mintHash params (tip.nHeight + 1)) (mintHash params tip.nHeight)
      (mintId tip.nHeight) run.state.chain.pcoinsTip below run.state.chain.mapStakeSpent range other
        hash best work nonneg (by omega) (allowed tip supply)
  have tipNode : { mintNode params none with tip := run.state.chain.active.head? } =
      mintNode params (some tip) := by
    rw [active]
    rfl
  have fresh : mintId tip.nHeight ∉ chainTxids params run.state.blocks := by
    intro inside
    obtain ⟨j, earlier, same⟩ := ids _ inside
    exact mintId_ne (by omega) (by omega) (by omega) same
  refine ⟨admitted_newBlock rfl rfl ?_ other ?_ (nodup_cons.mpr ⟨fresh, distinct⟩), ?_⟩
  · simp only [ActiveChain.height, active]
    rfl
  · intro tx member
    cases mem_singleton.mp member
    exact named
  · obtain ⟨written, called⟩ : ∃ written, run.step (mintCall params nValue tip.nHeight) =
        some ⟨⟨⟨result.pindex :: run.state.chain.active, result.view, result.mapStakeSpent⟩,
          mintBlock (mintHash params (tip.nHeight + 1)) (mintHash params tip.nHeight)
            (mintId tip.nHeight) nValue :: run.state.blocks⟩, written⟩ := by
      simp only [step, ActiveChain.step, mintCall, ChainState.call, ChainState.connectTip, tipNode]
      rw [active, ok]
      exact ⟨_, rfl⟩
    refine ⟨_, called, ⟨_, _, rfl, pindexHash, pindexHeight, ?_⟩, ?_, ?_, ?_, ?_⟩
    · rw [pindexSupply, nextSupply]
      push_cast
      rfl
    · change result.view.bestBlock = _
      rw [view_eq]
      rfl
    · intro j earlier
      change result.view.coins (mintId j) = _
      rw [view_eq]
      change (mintState _ _ _ _).view.coins _ = _
      rw [mintState, addOutputs_mintTx _ _ bounds.1]
      by_cases last : j = tip.nHeight
      · rw [last, if_pos rfl]
      · rw [if_neg (mintId_ne (by omega) (by omega) last), coins j (by omega)]
    · intro txid inside
      rw [chainTxids_cons other] at inside
      rcases mem_append.mp inside with here | before
      · exact ⟨tip.nHeight, by omega, mem_singleton.mp here⟩
      · obtain ⟨j, earlier, same⟩ := ids txid before
        exact ⟨j, by omega, same⟩
    · rw [chainTxids_cons other]
      exact nodup_cons.mpr ⟨fresh, distinct⟩

/-- `n` mints, one on top of the other. -/
theorem mints_run {start : SupplyRun} {n : Nat} (begins : start.Minted params nValue 0)
    (far : 2 ^ 64 ≤ params.hashGenesisBlock.toNat) (range : params.moneyRange nValue = true)
    (mintable : ∀ k < n, Mintable params txOf nValue k) :
    ∃ final, Runs.run step start (mints params nValue n) = some final ∧
      final.Minted params nValue n ∧
        Runs.Meets step (Admitted params txOf) start (mints params nValue n) := by
  induction n with
  | zero => exact ⟨start, rfl, begins, trivial⟩
  | succ k ih =>
    obtain ⟨middle, ran, minted, admitted⟩ := ih fun j before => mintable j (by omega)
    obtain ⟨here, final, stepped, kept⟩ := minted.connects far range (mintable k (by omega))
    have longer : mints params nValue (k + 1) =
        mints params nValue k ++ [mintCall params nValue k] := by
      rw [mints, range_succ, map_append]
      rfl
    rw [longer]
    refine ⟨final, ?_, kept, admitted.append ran (.cons here stepped trivial)⟩
    rw [Runs.run_append, ran]
    exact congrArg (Option.bind · some) stepped

theorem flushHolds_mints (start : SupplyRun) (n : Nat) :
    Runs.Meets step FlushHolds start (mints params nValue n) := by
  refine Runs.Meets.of_mem (fun input member run => ?_) start
  obtain ⟨k, _, rfl⟩ := List.mem_map.mp member
  exact fun _ => rfl

theorem genesisOf_minted (params : CChainParams) (nValue : Int) :
    (genesisOf params).Minted params nValue 0 := by
  have none : chainTxids params (genesisOf params).state.blocks = [] := by
    rw [chainTxids, connectedBlocks, genesisOf, filter_cons_of_neg (by simp), filter_nil]
    rfl
  refine ⟨⟨_, _, rfl, rfl, rfl, ?_⟩, rfl, fun j impossible => absurd impossible (by omega), ?_, ?_⟩
  · exact (Int.zero_mul nValue).symm
  · rw [none]
    intro txid impossible
    cases impossible
  · rw [none]
    exact nodup_nil

/-! ## The fixed value of the test network -/

/-- On the test network a synced node takes twenty coins a block, whatever the supply is. -/
theorem twentyCoins_beyond_bound {n : Nat} (testnet : params.networkID = .testnet)
    (lastPowBlock : params.lastPowBlock = 50000000)
    (maxMoneyOut : params.maxMoneyOut = 50000000 * coin)
    (far : 2 ^ 64 ≤ params.hashGenesisBlock.toNat) (many : 2500000 < n) (work : n ≤ 50000000) :
    ∃ final, Runs.run step (genesisOf params) (mints params (20 * coin) n) = some final ∧
      Runs.Meets step (Admitted params (mintTx (20 * coin))) (genesisOf params)
        (mints params (20 * coin) n) ∧
        Runs.Meets step FlushHolds (genesisOf params) (mints params (20 * coin) n) ∧
          ¬ final.WithinBound params := by
  have mintable : ∀ k < n, Mintable params (mintTx (20 * coin)) (20 * coin) k := by
    intro k before
    refine ⟨by omega, by omega, by rw [coin]; omega, fun tip supply => ?_, rfl⟩
    rw [getBlockValue]
    split
    · decide
    · next notFixed =>
      have first : k = 0 := by
        by_contra later
        exact notFixed ⟨testnet, by omega, by omega⟩
      subst first
      rw [supply, maxMoneyOut]
      decide
  have inRange : params.moneyRange (20 * coin) = true := by
    rw [CChainParams.moneyRange, maxMoneyOut]
    decide
  obtain ⟨final, ran, minted, admitted⟩ :=
    mints_run (genesisOf_minted params (20 * coin)) far inRange mintable
  refine ⟨final, ran, admitted, flushHolds_mints (genesisOf params) n, fun within => ?_⟩
  obtain ⟨tip, below, active, _, _, supply⟩ := minted.tip
  obtain ⟨_, _, high⟩ := within tip (by rw [active]; rfl)
  rw [supply, maxMoneyOut, coin] at high
  omega

end Mints

/-! ## A proof-of-stake block below the height of the checks -/

def stake : CTransaction :=
  { hash := 21, vin := [{ prevout := ⟨mintId 0, 0⟩ }], vout := [⟨0, []⟩, ⟨coin, [1]⟩] }

/-- Takes in one coin and gives out fifty million. -/
def payment : CTransaction :=
  { hash := 22, vin := [{ prevout := ⟨mintId 1, 0⟩ }], vout := [⟨50000000 * coin, [1]⟩] }

def stakeBlock : CBlock :=
  { hash := 201, hashPrevBlock := 200, vtx := [Sample.coinbase, stake, payment] }

def stakeNode (tip : Option CBlockIndex) : Node :=
  { mintNode mainParams tip with
    mapBlockIndex := fun hash => if hash = 200 then some (mintIndex 200 200) else none }

def stakeCall : TipCall :=
  .connect (stakeNode none) {} (mintIndex 201 201) (some stakeBlock) false .done

/-- The transactions of the run by their ids. -/
def stakeTx (txid : Uint256) : CTransaction :=
  if txid = 20 then Sample.coinbase else if txid = 21 then stake
  else if txid = 22 then payment else mintTx coin txid

section Stake

variable {tip : CBlockIndex} {view : FlatCoins} {mapStakeSpent : StakeSpent}

theorem mintId_ne_small {k : Nat} (before : k < 200) {txid : Uint256} (small : txid.toNat < 1000) :
    mintId k ≠ txid := by
  rintro rfl
  simp only [mintId, BitVec.toNat_ofNat] at small
  omega

theorem capSubsidy_of_room {maxMoneyOut nMoneySupply nSubsidy : Int} (limit : maxMoneyOut < 2 ^ 63)
    (supply : 0 ≤ nMoneySupply) (subsidy : 0 ≤ nSubsidy)
    (room : nMoneySupply + nSubsidy < maxMoneyOut) :
    capSubsidy maxMoneyOut nMoneySupply nSubsidy = nSubsidy := by
  rw [capSubsidy, if_neg (by omega)]
  rw [toInt64_of_range (by omega) (by omega), if_neg (by omega)]

theorem mintable_main {k : Nat} (before : k < 200) : Mintable mainParams stakeTx coin k := by
  refine ⟨?_, by omega, by rw [coin]; omega, fun tip supply => ?_, ?_⟩
  · change (k : Int) + 1 ≤ 200
    omega
  · have subsidy : coin ≤ blockSubsidy k ∧ blockSubsidy k ≤ 200000 * coin := by
      rw [blockSubsidy]
      split
      · decide
      · rw [if_pos ⟨by omega, by omega⟩]
        decide
    have room : k * coin + blockSubsidy k < mainParams.maxMoneyOut := by
      change k * coin + blockSubsidy k < 50000000 * coin
      rw [coin] at *
      omega
    rw [coin] at *
    rw [getBlockValue, if_neg (fun fixed => absurd fixed.1 (by decide)), supply, capSubsidy_of_room
      mainParams.maxMoneyOut_lt (by omega) (by omega) room, toInt64_of_range (by omega) (by omega)]
    exact subsidy.1
  · rw [stakeTx, if_neg (mintId_ne_small before (by decide)),
      if_neg (mintId_ne_small before (by decide)), if_neg (mintId_ne_small before (by decide))]

theorem connectTxs_stakeBlock (top : Option CBlockIndex) (rules : BlockRules) (height : rules.nHeight = 201)
    (unchecked : rules.fScriptChecks = false) (noP2SH : rules.flags.p2sh = false)
    (best : view.bestBlock = 200) (first : view.coins (mintId 0) = mintCoins coin 0)
    (second : view.coins (mintId 1) = mintCoins coin 1) :
    ∃ state, connectTxs (stakeNode top) rules true stakeBlock.vtx { view := view } =
        .ok state ∧
      state.nFees = coin - 50000000 * coin ∧ state.nValueOut = coin + 50000000 * coin ∧
        state.nValueIn = 2 * coin ∧ state.vChecks = [] := by
  have view_eq : view = ⟨Function.update (Function.update view.coins (mintId 1)
      (mintCoins coin 1)) (mintId 0) (mintCoins coin 0), 200⟩ := by
    rw [← first, ← second, Function.update_eq_self, Function.update_eq_self, ← best]
  obtain ⟨nHeight, fScriptChecks, p2sh, dersig⟩ := rules
  dsimp only at height unchecked noP2SH
  subst height unchecked noP2SH
  rw [view_eq]
  exact ⟨_, rfl, rfl, rfl, rfl, rfl⟩

theorem checkBlock_stakeBlock (hash : tip.getBlockHash = 200) (height : tip.nHeight = 200) :
    checkBlock (stakeNode (some tip)) stakeBlock true = .ok () := by
  have child : tip.getBlockHash = stakeBlock.hashPrevBlock := hash
  have above : (stakeNode (some tip)).heightOf tip stakeBlock = 201 := by
    rw [Node.heightOf, if_pos child, height]
    rfl
  have ownTip : (stakeNode (some tip)).tip = some tip := rfl
  have payee : checkPayee (stakeNode (some tip)) stakeBlock = .ok () := by
    unfold checkPayee
    simp only [above, ownTip]
    rfl
  have transactions : stakeBlock.vtx.forM (checkTransaction (stakeNode (some tip))) = .ok () := by
    have coinbase : checkTransaction (stakeNode (some tip)) Sample.coinbase = .ok () := rfl
    have staked : checkTransaction (stakeNode (some tip)) stake = .ok () := rfl
    have paid : checkTransaction (stakeNode (some tip)) payment = .ok () := rfl
    change checkTransaction _ _ >>= (fun _ => checkTransaction _ _ >>= fun _ =>
      checkTransaction _ _ >>= fun _ => _) = _
    rw [coinbase, staked, paid]
    rfl
  unfold checkBlock
  rw [payee, transactions]
  rfl

/-- The fees of the payment are negative: nothing seems to be minted. -/
theorem finishConnect_stakeBlock {state : ConnectState} (height : tip.nHeight = 200)
    (supply : tip.nMoneySupply = 200 * coin) (fees : state.nFees = coin - 50000000 * coin)
    (out : state.nValueOut = coin + 50000000 * coin) (taken : state.nValueIn = 2 * coin)
    (noChecks : state.vChecks = []) :
    ∃ result, finishConnect (stakeNode (some tip)) {} stakeBlock (mintIndex 201 201) tip
        mapStakeSpent false state = .ok result ∧
      result.pindex.nMoneySupply = 199 * coin + 50000000 * coin := by
  have minted : recordMint (mintIndex 201 201) tip state = { mintIndex 201 201 with
      nMoneySupply := 199 * coin + 50000000 * coin, nMint := 0 } := by
    simp only [recordMint, supply, fees, out, taken]
    rfl
  have allowed : getBlockValue mainParams tip tip.nHeight = coin := by
    rw [getBlockValue, supply, height]
    rfl
  have expected : expectedMint (stakeNode (some tip)) tip tip stakeBlock
      (coin - 50000000 * coin) = coin := by
    rw [expectedMint, if_neg (show ¬ stakeBlock.isProofOfWork = true from Bool.false_ne_true)]
    exact allowed
  have valid : isBlockValueValid (stakeNode (some tip)) stakeBlock coin 0 = true := rfl
  have ownTip : (stakeNode (some tip)).tip = some tip := rfl
  simp only [finishConnect, minted, ownTip, fees, noChecks, expected, valid, all_nil,
    Bool.not_true, Bool.false_eq_true, if_false]
  exact ⟨_, rfl, rfl⟩

theorem connectBlock_stakeBlock (below : List CBlockIndex) (mapStakeSpent : StakeSpent)
    (hash : tip.getBlockHash = 200) (height : tip.nHeight = 200) (supply : tip.nMoneySupply = 200 * coin)
    (best : view.bestBlock = 200) (first : view.coins (mintId 0) = mintCoins coin 0)
    (second : view.coins (mintId 1) = mintCoins coin 1) :
    ∃ result, connectBlock (stakeNode (some tip)) {} stakeBlock (mintIndex 201 201)
        (tip :: below) view mapStakeSpent false false = .ok result ∧
      result.pindex.nMoneySupply = 199 * coin + 50000000 * coin := by
  obtain ⟨state, looped, fees, out, taken, noChecks⟩ := connectTxs_stakeBlock (some tip)
    (blockRules (stakeNode (some tip)) stakeBlock (mintIndex 201 201) (tip :: below)) rfl rfl rfl
      best first second
  obtain ⟨result, finished, ends⟩ := finishConnect_stakeBlock height supply fees out taken noChecks
  refine ⟨result, ?_, ends⟩
  have parent : hashPrevBlock (tip :: below) = view.bestBlock := hash.trans best.symm
  have preliminary : connectPreliminary (stakeNode (some tip)) stakeBlock (mintIndex 201 201)
      view = .ok () := rfl
  have notGenesis : stakeBlock.hash ≠ (stakeNode (some tip)).params.hashGenesisBlock :=
    show (201 : Uint256) ≠ mainParams.hashGenesisBlock by decide
  unfold connectBlock
  simp only [Bool.not_false, checkBlock_stakeBlock hash height]
  rw [if_neg Bool.false_ne_true]
  simp only [if_pos parent, if_neg notGenesis, preliminary, looped]
  exact finished

end Stake

/-- Two hundred mints of a coin each, and a proof-of-stake block whose payment gives out more
than it takes in: the value of every block was compared, and the supply is past the bound. -/
theorem payment_beyond_bound :
    ∃ final, Runs.run step genesisRun (mints mainParams coin 200 ++ [stakeCall]) = some final ∧
      Runs.Meets step (Admitted mainParams stakeTx) genesisRun
        (mints mainParams coin 200 ++ [stakeCall]) ∧
        Runs.Meets step FlushHolds genesisRun (mints mainParams coin 200 ++ [stakeCall]) ∧
          ¬ final.WithinBound mainParams := by
  obtain ⟨middle, ran, minted, admitted⟩ :=
    mints_run (genesisOf_minted mainParams coin) (by decide) (by decide)
      fun k before => mintable_main before
  obtain ⟨tip, below, active, hash, height, supply⟩ := minted.tip
  obtain ⟨result, ok, ends⟩ := connectBlock_stakeBlock below middle.state.chain.mapStakeSpent hash
    height supply minted.best (minted.coins 0 (by omega)) (minted.coins 1 (by omega))
  have tipNode : { stakeNode none with tip := middle.state.chain.active.head? } =
      stakeNode (some tip) := by
    rw [active]
    rfl
  obtain ⟨final, stepped, top⟩ : ∃ final, middle.step stakeCall = some final ∧
      final.state.chain.active.head? = some result.pindex := by
    simp only [step, ActiveChain.step, stakeCall, ChainState.call, ChainState.connectTip, tipNode]
    rw [active, ok]
    exact ⟨_, rfl, rfl⟩
  have allowed : middle.Admitted mainParams stakeTx stakeCall := by
    have small : ∀ txid ∈ stakeBlock.txids, txid.toNat < 1000 := by
      simp [CBlock.txids, stakeBlock, Sample.coinbase, stake, payment]
    refine admitted_newBlock rfl rfl ?_ (by decide) (by decide)
      (nodup_append.mpr ⟨by decide, minted.distinct, ?_⟩)
    · simp only [ActiveChain.height, active, height]
      rfl
    · rintro txid here other there rfl
      obtain ⟨k, before, same⟩ := minted.ids _ there
      exact mintId_ne_small before (small txid here) same.symm
  refine ⟨final, ?_, admitted.append ran (.cons allowed stepped trivial),
    (flushHolds_mints genesisRun 200).append ran (.cons (fun _ => rfl) stepped trivial), ?_⟩
  · rw [Runs.run_append, show Runs.run step genesisRun _ = _ from ran]
    exact congrArg (Option.bind · some) stepped
  · intro within
    obtain ⟨_, _, high⟩ := within result.pindex top
    rw [ends] at high
    exact absurd high (by decide)

end SupplyRun

end CentNode
