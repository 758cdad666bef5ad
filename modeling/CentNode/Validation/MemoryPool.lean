import CentNode.Validation.CoinValue

/-!
# Loose transactions and the memory pool

`AcceptableInputs`, `GetInputAge`, `GetTransaction` and `AcceptToMemoryPool` of `main.cpp`, and
`CTxMemPool` of `txmempool.cpp` with its entries, the positions of their inputs and the sum of
their sizes.  Fee rates and the rules for standard transactions are parameters; they only
refuse.
-/

namespace CentNode

/-- `CTxMemPool`: its transactions by their ids, and the outpoints they spend. -/
structure CTxMemPool where
  mapTx : StdMap Uint256 CTransaction := ∅
  mapNextTx : StdMap COutPoint Uint256 := ∅

/-- `MEMPOOL_HEIGHT`, the height that a transaction of the pool is given. -/
def mempoolHeight : Int := 0x7FFFFFFF

def maxTxSigOps : Nat := maxBlockSigOps / 5

/-- What loose transactions are checked against. -/
structure PoolContext where
  node : Node
  pcoinsTip : FlatCoins
  mempool : CTxMemPool := {}
  /-- The fee pays for the relay of the transaction, or its priority does. -/
  relayed : CTransaction → Int → Bool
  chainActive : Int → Option CBlockIndex
  /-- What the index and the block files hold under an id, with the hash of the block. -/
  readTxIndex : Uint256 → Option (CTransaction × Uint256) := fun _ => none
  readBlockFromDisk : CBlockIndex → Option CBlock
  /-- `nHeight` is an `int`. -/
  tipHeight_lt : ∀ tip, node.tip = some tip → tip.nHeight < 2 ^ 31

/-- `HaveCoins` of a cache. -/
def FlatCoins.haveCoins (view : FlatCoins) (txid : Uint256) : Bool := !(view.coins txid).isPruned

namespace PoolContext

variable (context : PoolContext)

/-- `CCoinsViewMemPool` on top of the coins of the chain. -/
def view : FlatCoins :=
  { context.pcoinsTip with
    coins := fun txid =>
      match context.mempool.mapTx.lookup txid with
      | some tx => CCoins.fromTx tx mempoolHeight
      | none => context.pcoinsTip.coins txid }

/-- The checks of `AcceptableInputs` against fees, signature operations and values. -/
def acceptableValue (tx : CTransaction) : Checked Unit :=
  match context.view.getValueIn tx with
  | none => .error .assertion
  | some nValueIn =>
    if context.node.prim.getLegacySigOpCount tx +
        context.node.prim.getP2SHSigOpCount tx context.view.getOutputFor > maxTxSigOps then
      .error (.dos 0 (some .nonstandard) "bad-txns-too-many-sigops" false)
    else
      match tx.getValueOut with
      | none => .error (.exception "CTransaction::GetValueOut() : value out of range")
      | some nValueOut =>
        if !context.relayed tx (nValueIn - nValueOut) then
          .error (.dos 0 (some .insufficientFee) "insufficient priority" false)
        else
          checkInputs context.node tx context.view false ScriptFlags.standard
            >>= fun _ => .ok ()

/-- `AcceptableInputs`, called without limits on free transactions and on fees. -/
def acceptableInputs (tx : CTransaction) : Checked Unit :=
  checkTransaction context.node tx >>= fun _ =>
    if tx.isCoinBase then reject 100 "coinbase"
    else if (context.mempool.mapTx.lookup tx.hash).isSome then .error (.dos 0 none "" false)
    else if conflictsWithLock context.node.mapLockedInputs tx then reject 0 "tx-lock-conflict"
    else if tx.prevouts.any fun prevout => (context.mempool.mapNextTx.lookup prevout).isSome then
      .error (.dos 0 none "" false)
    else if context.view.haveCoins tx.hash then .error (.dos 0 none "" false)
    else if tx.prevouts.any fun prevout => !context.view.haveCoins prevout.hash then
      .error (.dos 0 none "" false)
    else if !context.view.haveInputs tx then
      .error (.dos 0 (some .duplicate) "bad-txns-inputs-spent" false)
    else context.acceptableValue tx

/-- `GetInputAge`; `none` is the missing tip. -/
def getInputAge (vin : CTxIn) : Option Int :=
  let coins := context.view.coins vin.prevout.hash
  if (context.mempool.mapTx.lookup vin.prevout.hash).isNone && coins.isPruned then some (-1)
  else if coins.nHeight < 0 then some 0
  else context.node.tip.map fun tip => tip.nHeight + 1 - coins.nHeight

/-- `GetTransaction` with `fAllowSlow`, and the hash of the block where it was
found; a transaction of the pool leaves the zero that the caller passes. -/
def getTransaction (hash : Uint256) : Option (CTransaction × Uint256) :=
  match context.mempool.mapTx.lookup hash with
  | some tx => some (tx, 0)
  | none =>
    if context.node.fTxIndex then context.readTxIndex hash
    else if (context.pcoinsTip.coins hash).nHeight > 0 then do
      let pindexSlow ← context.chainActive (context.pcoinsTip.coins hash).nHeight
      let block ← context.readBlockFromDisk pindexSlow
      let tx ← block.vtx.find? fun tx => tx.hash = hash
      pure (tx, pindexSlow.getBlockHash)
    else none

/-! ## What an accepted input is -/

variable {context} {tx : CTransaction}

theorem unspent_of_acceptable (passed : context.acceptableInputs tx = .ok ()) :
    tx.isCoinBase = false ∧ context.view.haveInputs tx = true ∧
      ∀ txin ∈ tx.vin, context.mempool.mapNextTx.lookup txin.prevout = none := by
  obtain ⟨_, _, passed⟩ := Checked.bind_ok.mp passed
  split at passed
  · cases passed
  next loose =>
  split at passed
  · cases passed
  split at passed
  · cases passed
  split at passed
  · cases passed
  next free =>
  split at passed
  · cases passed
  split at passed
  · cases passed
  split at passed
  · cases passed
  next there =>
  refine ⟨by simpa using loose, by simpa using there, fun txin member => ?_⟩
  simp only [CTransaction.prevouts, List.any_map, List.any_eq_true, Function.comp_apply,
    not_exists, not_and, Bool.not_eq_true, Option.isSome_eq_false_iff,
    Option.isNone_iff_eq_none] at free
  exact free txin member

theorem not_pooled_of_age {vin : CTxIn} {age : Int} (aged : context.getInputAge vin = some age)
    (deep : 1 < age) : context.mempool.mapTx.lookup vin.prevout.hash = none := by
  cases pooled : context.mempool.mapTx.lookup vin.prevout.hash with
  | none => rfl
  | some tx =>
    have coins_eq : context.view.coins vin.prevout.hash = CCoins.fromTx tx mempoolHeight := by
      simp only [view, pooled]
    have height_eq : (CCoins.fromTx tx mempoolHeight).nHeight = mempoolHeight := rfl
    rw [getInputAge, coins_eq, pooled] at aged
    simp only [Option.isNone_some, Bool.false_and, Bool.false_eq_true, if_false, height_eq]
      at aged
    rw [if_neg (by decide)] at aged
    obtain ⟨tip, tip_eq, age_eq⟩ := Option.map_eq_some_iff.mp aged
    have small := context.tipHeight_lt tip tip_eq
    unfold mempoolHeight at age_eq
    omega

theorem view_coins_of_not_pooled {txid : Uint256}
    (missing : context.mempool.mapTx.lookup txid = none) :
    context.view.coins txid = context.pcoinsTip.coins txid := by
  simp only [view, missing]

end PoolContext

structure CTxMemPoolEntry where
  tx : CTransaction
  nTxSize : Nat
  nFee : Int := 0
  deriving DecidableEq, Repr

/-- `CInPoint`; the pointer leads into the entry with this id. -/
structure CInPoint where
  ptx : Uint256
  n : Nat
  deriving DecidableEq, Repr

/-- `CTxMemPool`, with all that `check` looks at. -/
structure TxPool where
  mapTx : StdMap Uint256 CTxMemPoolEntry := ∅
  mapNextTx : StdMap COutPoint CInPoint := ∅
  totalTxSize : Nat := 0

namespace TxPool

/-- What the checks of loose transactions read of the pool. -/
def summary (pool : TxPool) : CTxMemPool where
  mapTx := pool.mapTx.image (·.tx)
  mapNextTx := pool.mapNextTx.image (·.ptx)

def addUnchecked (pool : TxPool) (hash : Uint256) (entry : CTxMemPoolEntry) : TxPool where
  mapTx := pool.mapTx.insert hash entry
  mapNextTx :=
    entry.tx.prevouts.zipIdx.foldl
      (fun mapNextTx input => mapNextTx.insert input.1 ⟨hash, input.2⟩) pool.mapNextTx
  totalTxSize := pool.totalTxSize + entry.nTxSize

/-- The transactions of the pool that spend outputs of a transaction, output by output. -/
def spendersOf (pool : TxPool) (hash : Uint256) (tx : CTransaction) : List Uint256 :=
  (List.range tx.vout.length).filterMap fun i => (pool.mapNextTx.lookup ⟨hash, i⟩).map (·.ptx)

/-- Take one entry out. -/
def erase (pool : TxPool) (hash : Uint256) (entry : CTxMemPoolEntry) : TxPool where
  mapTx := pool.mapTx.erase hash
  mapNextTx := pool.mapNextTx.eraseAll entry.tx.prevouts
  totalTxSize := pool.totalTxSize - entry.nTxSize

theorem erase_size_lt {pool : TxPool} {hash : Uint256} {entry : CTxMemPoolEntry}
    (found : pool.mapTx.lookup hash = some entry) :
    (pool.erase hash entry).mapTx.keys.length < pool.mapTx.keys.length := by
  have member : hash ∈ pool.mapTx.keys := AList.mem_keys.mp (StdMap.mem_of_lookup found)
  rw [erase, AList.keys_erase, List.length_erase_of_mem member]
  exact Nat.sub_lt (List.length_pos_of_mem member) Nat.one_pos

/-- The loop of `remove` over `txToRemove`. -/
def removeLoop (fRecursive : Bool) (pool : TxPool) : List Uint256 → TxPool
  | [] => pool
  | hash :: txToRemove =>
    match _found : pool.mapTx.lookup hash with
    | none => removeLoop fRecursive pool txToRemove
    | some entry =>
      removeLoop fRecursive (pool.erase hash entry)
        (txToRemove ++ if fRecursive then pool.spendersOf hash entry.tx else [])
termination_by txToRemove => (pool.mapTx.keys.length, txToRemove.length)
decreasing_by
  · exact Prod.Lex.right _ (Nat.lt_succ_self _)
  · exact Prod.Lex.left _ _ (erase_size_lt _found)

/-- `remove`; a transaction that is not in the pool still has children there. -/
def remove (pool : TxPool) (origTx : CTransaction) (fRecursive : Bool) : TxPool :=
  pool.removeLoop fRecursive
    (origTx.hash ::
      if fRecursive && (pool.mapTx.lookup origTx.hash).isNone then
        pool.spendersOf origTx.hash origTx
      else [])

/-- One input of the loop of `removeConflicts`. -/
def removeConflict (tx : CTransaction) (pool : TxPool) (prevout : COutPoint) : TxPool :=
  match pool.mapNextTx.lookup prevout with
  | none => pool
  | some inPoint =>
    match pool.mapTx.lookup inPoint.ptx with
    | none => pool
    | some entry => if entry.tx.hash ≠ tx.hash then pool.remove entry.tx true else pool

def removeConflicts (pool : TxPool) (tx : CTransaction) : TxPool :=
  tx.prevouts.foldl (removeConflict tx) pool

def removeForBlock (pool : TxPool) (vtx : List CTransaction) : TxPool :=
  vtx.foldl (fun pool tx => (pool.remove tx false).removeConflicts tx) pool

/-- A transaction with an input from the chain that is missing, or immature at a height. -/
def spendsImmature (pool : TxPool) (params : CChainParams) (pcoins : FlatCoins)
    (nMemPoolHeight : Int) (tx : CTransaction) : Bool :=
  tx.prevouts.any fun prevout =>
    let coins := pcoins.coins prevout.hash
    (pool.mapTx.lookup prevout.hash).isNone &&
      (coins.isPruned || ((coins.fCoinBase || coins.fCoinStake) &&
        -- the height is unsigned, and so is the difference
        decide ((nMemPoolHeight - coins.nHeight) % 2 ^ 32 < params.coinbaseMaturity)))

def removeCoinbaseSpends (pool : TxPool) (params : CChainParams) (pcoins : FlatCoins)
    (nMemPoolHeight : Int) : TxPool :=
  let transactionsToRemove :=
    (pool.mapTx.entries.map fun entry => entry.2.tx).filter
      (pool.spendsImmature params pcoins nMemPoolHeight)
  transactionsToRemove.foldl (fun pool tx => pool.remove tx true) pool

end TxPool

/-! ## `AcceptToMemoryPool` -/

/-- What the node relays: standard transactions, and fees against rates, priorities and
the limiter of free transactions. -/
structure RelayPolicy where
  requireStandard : Bool
  isStandardTx : CTransaction → Bool
  areInputsStandard : CTransaction → (CTxIn → Option CTxOut) → Bool
  /-- `GetMinRelayFee`. -/
  minRelayFee : CTransaction → Nat → Int
  /-- `::minRelayTxFee.GetFee`. -/
  relayFee : Nat → Int
  relayPriority : Bool := true
  /-- `AllowFree` of the priority of a transaction. -/
  allowFree : CTransaction → Bool
  rateLimited : CTransaction → Bool

structure AcceptOptions where
  fLimitFree : Bool := false
  fRejectInsaneFee : Bool := false
  ignoreFees : Bool := false
  deriving DecidableEq, Repr

/-- How `AcceptToMemoryPool` returns false. -/
inductive AcceptStop where
  | refused (failure : Failure)
  /-- `AcceptToMemoryPool: : BUG! PLEASE REPORT THIS! ConnectInputs failed against MANDATORY
  but not STANDARD flags`. -/
  | bug (failure : Failure)
  deriving DecidableEq, Repr

namespace TxPool

def checkRelayFee (policy : RelayPolicy) (options : AcceptOptions) (tx : CTransaction)
    (nFees : Int) (nSize : Nat) : Checked Unit :=
  if !options.ignoreFees && options.fLimitFree && nFees < policy.minRelayFee tx nSize then
    .error (.dos 0 (some .insufficientFee) "insufficient fee" false)
  else if !options.ignoreFees && policy.relayPriority && nFees < policy.relayFee nSize &&
      !policy.allowFree tx then
    .error (.dos 0 (some .insufficientFee) "insufficient priority" false)
  else if !options.ignoreFees && options.fLimitFree && nFees < policy.relayFee nSize &&
      policy.rateLimited tx then
    .error (.dos 0 (some .insufficientFee) "rate limited free transaction" false)
  else if options.fRejectInsaneFee && nFees > policy.relayFee nSize * 10000 then
    .error (.error "AcceptToMemoryPool: : insane fees")
  else .ok ()

/-- `CheckInputs` as a loose transaction is checked: its scripts are verified at once. -/
def checkInputsNow (node : Node) (tx : CTransaction) (view : FlatCoins) (flags : ScriptFlags) :
    Checked Unit :=
  checkInputs { node with nScriptCheckThreads := 0 } tx view true flags >>= fun _ => .ok ()

def checkLoose (pool : TxPool) (node : Node) (policy : RelayPolicy) (tx : CTransaction) :
    Checked Unit :=
  checkTransaction node tx >>= fun _ =>
    if tx.isCoinBase then reject 100 "coinbase"
    else if tx.isCoinStake then reject 100 "coinstake"
    else if policy.requireStandard && !policy.isStandardTx tx then
      .error (.dos 0 (some .nonstandard) "" false)
    else if (pool.mapTx.lookup tx.hash).isSome then .error (.dos 0 none "" false)
    else if conflictsWithLock node.mapLockedInputs tx then reject 0 "tx-lock-conflict"
    else if tx.prevouts.any fun prevout => (pool.mapNextTx.lookup prevout).isSome then
      .error (.dos 0 none "" false)
    else .ok ()

/-- The checks of the inputs, their standard and the fees; the fee of the transaction. -/
def checkSpending (node : Node) (policy : RelayPolicy) (options : AcceptOptions)
    (view : FlatCoins) (tx : CTransaction) : Checked Int :=
  if view.haveCoins tx.hash then .error (.dos 0 none "" false)
  else if tx.prevouts.any fun prevout => !view.haveCoins prevout.hash then
    .error (.dos 0 none "" false)
  else if !view.haveInputs tx then .error (.dos 0 (some .duplicate) "bad-txns-inputs-spent" false)
  else
    match view.getValueIn tx with
    | none => .error .assertion
    | some nValueIn =>
      if policy.requireStandard && !policy.areInputsStandard tx view.getOutputFor then
        .error (.error "AcceptToMemoryPool: : nonstandard transaction input")
      else if node.prim.getLegacySigOpCount tx +
          node.prim.getP2SHSigOpCount tx view.getOutputFor > maxTxSigOps then
        .error (.dos 0 (some .nonstandard) "bad-txns-too-many-sigops" false)
      else
        match tx.getValueOut with
        | none => .error (.exception "CTransaction::GetValueOut() : value out of range")
        | some nValueOut =>
          let nFees := toInt64 (nValueIn - nValueOut)
          checkRelayFee policy options tx nFees (node.prim.txSize tx) >>= fun _ => .ok nFees

/-- The scripts are verified with the standard flags, and again with the mandatory ones. -/
def checkScripts (node : Node) (view : FlatCoins) (tx : CTransaction) : Except AcceptStop Unit :=
  (checkInputsNow node tx view ScriptFlags.standard).mapError .refused >>= fun _ =>
    (checkInputsNow node tx view ScriptFlags.mandatory).mapError .bug

/-- `AcceptToMemoryPool`; the pool with the transaction, where it returns true. -/
def acceptToMemoryPool (pool : TxPool) (context : PoolContext) (policy : RelayPolicy)
    (options : AcceptOptions) (tx : CTransaction) : Except AcceptStop TxPool :=
  let view := { context with mempool := pool.summary : PoolContext }.view
  (pool.checkLoose context.node policy tx).mapError .refused >>= fun _ =>
    (checkSpending context.node policy options view tx).mapError .refused >>= fun nFees =>
      checkScripts context.node view tx >>= fun _ =>
        .ok (pool.addUnchecked tx.hash
          { tx := tx, nTxSize := context.node.prim.txSize tx, nFee := nFees })

/-- What `DisconnectTip` does with a transaction of the block; errors are ignored. -/
def resurrect (context : PoolContext) (policy : RelayPolicy) (pool : TxPool) (tx : CTransaction) :
    TxPool :=
  if tx.isCoinBase || tx.isCoinStake then pool.remove tx true
  else
    match pool.acceptToMemoryPool context policy {} tx with
    | .ok accepted => accepted
    | .error _ => pool.remove tx true

/-- The part of `DisconnectTip` on the pool, after the coins were flushed. -/
def afterDisconnect (pool : TxPool) (context : PoolContext) (policy : RelayPolicy)
    (vtx : List CTransaction) (nHeight : Int) : TxPool :=
  (vtx.foldl (resurrect context policy) pool).removeCoinbaseSpends context.node.params
    context.pcoinsTip nHeight

end TxPool

end CentNode
