import CentNode.Chain.BlockIndex
import CentNode.Coins.FlatCoins
import CentNode.Masternode.BudgetManager
import CentNode.Script.Opcodes

/-!
# The node around block validation

The globals that block validation reads, and the functions it calls that look
inside scripts, hashes and the wire format.  Results are stated for every node.
-/

namespace CentNode

/-- Functions over script code, hashes and serialized sizes. -/
structure Primitives where
  /-- `VerifyScript` on an input, given the script of the output it spends. -/
  verifyScript : CTransaction → Nat → CScript → ScriptFlags → Bool
  getLegacySigOpCount : CTransaction → Nat
  getP2SHSigOpCount : CTransaction → (CTxIn → Option CTxOut) → Nat
  checkProofOfWork : Uint256 → Nat → Bool
  /-- `BuildMerkleTree`, and whether the tree is mutated. -/
  buildMerkleTree : List CTransaction → Uint256 × Bool
  blockSize : CBlock → Nat
  txSize : CTransaction → Nat
  /-- `CMasternodePayments::IsTransactionValid`. -/
  masternodePaymentValid : CTransaction → Int → Bool

/-- Whether the disk takes what `ConnectBlock` writes. -/
structure DiskWrites where
  writeBlockIndex : Bool := true
  findUndoPos : Bool := true
  writeUndo : Bool := true
  writeTxIndex : Bool := true
  deriving DecidableEq, Repr

structure Node where
  params : CChainParams
  prim : Primitives
  /-- `chainActive.Tip()`. -/
  tip : Option CBlockIndex
  mapBlockIndex : Uint256 → Option CBlockIndex
  nScriptCheckThreads : Nat := 0
  fTxIndex : Bool := false
  adjustedTime : Int := 0
  isInitialBlockDownload : Bool := false
  masternodeSynced : Bool := false
  sporkActive : Spork → Bool := fun _ => false
  mapFinalizedBudgets : FinalizedBudgets := ∅
  /-- `mnodeman.CountEnabled`. -/
  countEnabled : Nat := 0
  /-- `mapLockedInputs`. -/
  mapLockedInputs : StdMap COutPoint Uint256 := ∅

/-- The height of a block as the payment checks compute it: one above the tip
or above the parent, and zero when the parent is not known. -/
def Node.heightOf (node : Node) (pindexPrev : CBlockIndex) (block : CBlock) : Int :=
  if pindexPrev.getBlockHash = block.hashPrevBlock then pindexPrev.nHeight + 1
  else
    match node.mapBlockIndex block.hashPrevBlock with
    | some parent => parent.nHeight + 1
    | none => 0

/-! ## The value of a block -/

/-- The subsidy table of `GetBlockValue`. -/
def blockSubsidy (nHeight : Int) : Int :=
  if nHeight = 0 then 200000 * coin
  else if 1 ≤ nHeight ∧ nHeight ≤ 140159 then coin
  else if 140160 ≤ nHeight ∧ nHeight ≤ 280319 then coin / 2
  else if 280320 ≤ nHeight ∧ nHeight ≤ 420479 then coin / 4
  else if 420480 ≤ nHeight ∧ nHeight ≤ 560639 then coin / 8
  else if 560640 ≤ nHeight ∧ nHeight ≤ 700799 then 6250000
  else if 700800 ≤ nHeight ∧ nHeight ≤ 840959 then 3125000
  else if 840960 ≤ nHeight ∧ nHeight ≤ 981119 then 1562500
  else if 981120 ≤ nHeight ∧ nHeight ≤ 1121279 then coin / 128
  else if 1121280 ≤ nHeight ∧ nHeight ≤ 50000000 then 390625
  else 195312

/-- The subsidy left when the money supply is bounded. -/
def capSubsidy (maxMoneyOut nMoneySupply nSubsidy : Int) : Int :=
  let capped :=
    if toInt64 (nMoneySupply + nSubsidy) ≥ maxMoneyOut then toInt64 (maxMoneyOut - nMoneySupply)
    else nSubsidy
  if nMoneySupply ≥ maxMoneyOut then 0 else capped

/-- `GetBlockValue`; it reads the money supply at the active tip. -/
def getBlockValue (params : CChainParams) (tip : CBlockIndex) (nHeight : Int) : Int :=
  if params.networkID = .testnet ∧ nHeight < params.lastPowBlock ∧ nHeight > 0 then 20 * coin
  else capSubsidy params.maxMoneyOut tip.nMoneySupply (blockSubsidy nHeight)

def isBlockValueValid (node : Node) (block : CBlock) (nExpectedValue nMinted : Int) : Bool :=
  match node.tip with
  | none => true
  | some pindexPrev =>
    let nHeight := node.heightOf pindexPrev block
    if !node.masternodeSynced then
      -- there is no budget data to use to check anything
      if nHeight % getBudgetPaymentCycleBlocks node.params < 100 then true
      else nMinted ≤ nExpectedValue
    else if !node.sporkActive .enableSuperblocks then nMinted ≤ nExpectedValue
    else if node.mapFinalizedBudgets.isBudgetPaymentBlock node.countEnabled nHeight then true
    else nMinted ≤ nExpectedValue

/-- `IsBlockPayeeValid`; `none` where the coinstake it asks for is not there. -/
def isBlockPayeeValid (node : Node) (block : CBlock) (nBlockHeight : Int) : Option Bool :=
  if !node.masternodeSynced then some true
  else
    (if nBlockHeight > node.params.lastPowBlock then block.vtx[1]? else block.vtx[0]?).map
      fun txNew =>
        if node.sporkActive .enableSuperblocks &&
            node.mapFinalizedBudgets.isBudgetPaymentBlock node.countEnabled nBlockHeight then
          node.mapFinalizedBudgets.isTransactionValid node.countEnabled txNew nBlockHeight ||
            !node.sporkActive .masternodeBudgetEnforcement
        else
          node.prim.masternodePaymentValid txNew nBlockHeight ||
            !node.sporkActive .masternodePaymentEnforcement

/-! `CheckTransaction` and `CheckBlock` of `main.cpp` do not depend on the coins. -/

def maxBlockSize : Nat := 2000000

def maxBlockSigOps : Nat := maxBlockSize / 50

/-- One output of the value loop of `CheckTransaction`. -/
def checkOutput (params : CChainParams) (tx : CTransaction) (nValueOut : Int) (txout : CTxOut) :
    Checked Int :=
  if txout.isEmpty && !tx.isCoinBase && !tx.isCoinStake then .error (.dos 100 none "" false)
  else if txout.nValue < 0 then reject 100 "bad-txns-vout-negative"
  else if txout.nValue > params.maxMoneyOut then reject 100 "bad-txns-vout-toolarge"
  else if !params.moneyRange (toInt64 (nValueOut + txout.nValue)) then
    reject 100 "bad-txns-txouttotal-toolarge"
  else .ok (toInt64 (nValueOut + txout.nValue))

def checkTransaction (node : Node) (tx : CTransaction) : Checked Unit :=
  if tx.vin.isEmpty then reject 10 "bad-txns-vin-empty"
  else if tx.vout.isEmpty then reject 10 "bad-txns-vout-empty"
  else if node.prim.txSize tx > maxBlockSize then reject 100 "bad-txns-oversize"
  else
    match tx.vout.foldlM (checkOutput node.params tx) 0 with
    | .error failure => .error failure
    | .ok _ =>
      if ¬ tx.prevouts.Nodup then reject 100 "bad-txns-inputs-duplicate"
      else if tx.isCoinBase then
        if tx.vin.any fun txin => txin.scriptSig.length < 2 || txin.scriptSig.length > 150 then
          reject 100 "bad-cb-length"
        else .ok ()
      else if tx.prevouts.any COutPoint.isNull then reject 10 "bad-txns-prevout-null"
      else .ok ()

/-- The shape `CheckBlock` asks of a proof-of-stake block. -/
def checkStakeShape (block : CBlock) : Checked Unit :=
  if block.isProofOfStake then
    match block.vtx with
    | coinbase :: coinstake :: rest =>
      if !(coinbase.vout.length = 1 && coinbase.vout.all CTxOut.isEmpty) then
        .error (.dos 100 none "" false)
      else if !coinstake.isCoinStake then .error (.dos 100 none "" false)
      else if rest.any CTransaction.isCoinStake then .error (.dos 100 none "" false)
      else .ok ()
    | _ => .error .assertion
  else .ok ()

def conflictsWithLock (mapLockedInputs : StdMap COutPoint Uint256) (tx : CTransaction) : Bool :=
  !tx.isCoinBase && tx.prevouts.any fun prevout =>
    match mapLockedInputs.lookup prevout with
    | some txHash => txHash ≠ tx.hash
    | none => false

/-- The SwiftTX scanning of `CheckBlock`. -/
def checkLocks (node : Node) (block : CBlock) : Checked Unit :=
  if node.sporkActive .swiftTXBlockFiltering &&
      block.vtx.any (conflictsWithLock node.mapLockedInputs) then
    reject 0 "conflicting-tx-ix"
  else .ok ()

/-- The masternode and budget payment part of `CheckBlock`. -/
def checkPayee (node : Node) (block : CBlock) : Checked Unit :=
  match node.tip with
  | none => .ok ()
  | some pindexPrev =>
    let nHeight := node.heightOf pindexPrev block
    if nHeight ≠ 0 ∧ node.isInitialBlockDownload = false then
      match isBlockPayeeValid node block nHeight with
      | none => .error .assertion
      | some true => .ok ()
      | some false => reject 0 "bad-cb-payee"
    else .ok ()

/-- How far in the future the time of a block may be. -/
def futureDrift (block : CBlock) : Int := if block.isProofOfStake then 180 else 7200

def checkBlock (node : Node) (block : CBlock) (fCheckMerkleRoot : Bool) : Checked Unit :=
  if block.isProofOfWork && !node.prim.checkProofOfWork block.hash block.nBits then
    .error (.dos 100 (some .invalid) "bad-header" true)
  else if (block.nTime : Int) > node.adjustedTime + futureDrift block then reject 0 "time-too-new"
  else if fCheckMerkleRoot && block.hashMerkleRoot ≠ (node.prim.buildMerkleTree block.vtx).1 then
    .error (.dos 100 (some .invalid) "bad-txnmrklroot" true)
  else if fCheckMerkleRoot && (node.prim.buildMerkleTree block.vtx).2 then
    .error (.dos 100 (some .invalid) "bad-txns-duplicate" true)
  else if block.vtx.isEmpty || block.vtx.length > maxBlockSize ||
      node.prim.blockSize block > maxBlockSize then
    reject 100 "bad-blk-length"
  else if !block.vtx.head?.any CTransaction.isCoinBase then reject 100 "bad-cb-missing"
  else if block.vtx.tail.any CTransaction.isCoinBase then reject 100 "bad-cb-multiple"
  else
    checkStakeShape block >>= fun _ => checkLocks node block >>= fun _ =>
      checkPayee node block >>= fun _ => block.vtx.forM (checkTransaction node) >>= fun _ =>
        if (block.vtx.map node.prim.getLegacySigOpCount).sum > maxBlockSigOps then
          .error (.dos 100 (some .invalid) "bad-blk-sigops" true)
        else .ok ()

end CentNode
