import CentNode.Masternode.Broadcasts
import CentNode.Masternode.SwiftTX
import CentNode.Mining.BlockTemplate

/-!
# The coins of the wallet

`CWalletTx`, `COutput` and `CWallet::AvailableCoins`.  The wallet holds the transactions that
touch it, each with the place in a block that it was last given, and asks the node how deep
that block is.  A pointer into `mapWallet` is the transaction it points to: the map has one for
each hash.
-/

namespace CentNode

open List StdMap

inductive IsMineType where
  | no
  | watchOnly
  | multisig
  | spendable
  deriving DecidableEq, Repr

inductive AvailableCoinsType where
  | allCoins
  | onlyNot10000IfMn
  | only10000
  | stakableCoins
  deriving DecidableEq, Repr

/-- `CWalletTx`.  `debit` is `GetDebit(ISMINE_ALL)`, which is kept once it was asked for. -/
structure CWalletTx extends CTransaction where
  hashBlock : Uint256 := 0
  vMerkleBranch : List Uint256 := []
  nIndex : Int := -1
  fMerkleVerified : Bool := false
  debit : Int := 0
  deriving DecidableEq, Repr

/-- `IsFromMe(ISMINE_ALL)`. -/
def CWalletTx.isFromMe (wtx : CWalletTx) : Bool := decide (0 < wtx.debit)

/-- An output of a wallet transaction: `pair<const CWalletTx*, unsigned int>`. -/
abbrev Coin : Type := CWalletTx × Nat

/-- `vout[n].nValue`. -/
def Coin.value (coin : Coin) : Int := (coin.1.vout.getD coin.2 CTxOut.null).nValue

/-- The outpoint that spends it. -/
def Coin.outpoint (coin : Coin) : COutPoint := ⟨coin.1.hash, coin.2⟩

structure COutput where
  tx : CWalletTx
  i : Nat
  nDepth : Int
  fSpendable : Bool
  deriving DecidableEq, Repr

namespace COutput

def coin (out : COutput) : Coin := (out.tx, out.i)

def value (out : COutput) : Int := out.coin.value

theorem value_eq {out : COutput} {txout : CTxOut} (found : out.tx.vout[out.i]? = some txout) :
    out.value = txout.nValue := by
  unfold value coin Coin.value
  rw [getD_eq_getElem?_getD, found]
  rfl

end COutput

/-- An entry of `mapBlockIndex` that `chainActive` contains. -/
structure ActiveEntry where
  nHeight : Int
  hashMerkleRoot : Uint256
  deriving DecidableEq, Repr

/-- What the wallet asks the node. -/
structure WalletNode where
  params : CChainParams
  /-- `Hash` of two hashes. -/
  hashPair : Uint256 → Uint256 → Uint256
  /-- `mapBlockIndex`, less the entries that are not in `chainActive`. -/
  activeEntry : Uint256 → Option ActiveEntry
  /-- `chainActive.Height()`. -/
  height : Int
  /-- `GetAdjustedTime()`. -/
  adjustedTime : Int
  mempool : TxPool
  mapTxLocks : StdMap Uint256 CTransactionLock
  /-- `fLargeWorkForkFound || fLargeWorkInvalidChainFound`. -/
  fLargeWorkFork : Bool
  /-- `IsSporkActive(SPORK_2_SWIFTTX)`. -/
  swiftTXActive : Bool
  fEnableSwiftTX : Bool
  nSwiftTXDepth : Int
  fMasterNode : Bool
  bSpendZeroConfChange : Bool

namespace WalletNode

variable (node : WalletNode)

/-- `IsFinalTx` with its defaults: a height or a time of zero stands for the present one. -/
def isFinalTx (tx : CTransaction) (nBlockHeight nBlockTime : Int) : Bool :=
  CentNode.isFinalTx tx (if nBlockHeight = 0 then node.height else nBlockHeight)
    (if nBlockTime = 0 then node.adjustedTime else nBlockTime)

def checkFinalTx (tx : CTransaction) : Bool := node.isFinalTx tx (node.height + 1) node.adjustedTime

/-- One level of `CheckMerkleBranch`. -/
def climb (reached : Uint256 × Int) (sibling : Uint256) : Uint256 × Int :=
  (if reached.2 % 2 = 1 then node.hashPair sibling reached.1 else node.hashPair reached.1 sibling,
    reached.2 / 2)

def checkMerkleBranch (hash : Uint256) (vMerkleBranch : List Uint256) (nIndex : Int) : Uint256 :=
  if nIndex = -1 then 0 else (vMerkleBranch.foldl node.climb (hash, nIndex)).1

def getDepthInMainChainInternal (wtx : CWalletTx) : Int :=
  if wtx.hashBlock = 0 ∨ wtx.nIndex = -1 then 0
  else
    match node.activeEntry wtx.hashBlock with
    | none => 0
    | some pindex =>
      if !wtx.fMerkleVerified &&
          node.checkMerkleBranch wtx.hash wtx.vMerkleBranch wtx.nIndex ≠ pindex.hashMerkleRoot
      then 0
      else node.height - pindex.nHeight + 1

def getTransactionLockSignatures (wtx : CWalletTx) : Int :=
  if node.fLargeWorkFork then -2
  else if !node.swiftTXActive then -3
  else if !node.fEnableSwiftTX then -1
  else ((node.mapTxLocks.lookup wtx.hash).map CTransactionLock.countSignatures).getD (-1)

def inMempool (wtx : CWalletTx) : Bool := (node.mempool.mapTx.lookup wtx.hash).isSome

/-- `GetDepthInMainChain`: a transaction with enough lock votes counts as deeper. -/
def getDepthInMainChain (wtx : CWalletTx) (enableIX : Bool) : Int :=
  let nResult := node.getDepthInMainChainInternal wtx
  if nResult = 0 && !node.inMempool wtx then -1
  else if enableIX && nResult < 6 &&
      node.getTransactionLockSignatures wtx ≥ swiftTXSignaturesRequired then
    node.nSwiftTXDepth + nResult
  else nResult

def getBlocksToMaturity (wtx : CWalletTx) : Int :=
  if wtx.isCoinBase || wtx.isCoinStake then
    max 0 (node.params.coinbaseMaturity + 1 - node.getDepthInMainChain wtx true)
  else 0

end WalletNode

/-- `CWallet`, as far as it picks coins.  A multimap and a set of outpoints are lists.  A wallet
transaction is entered, and loaded, under its hash. -/
structure CWallet where
  /-- `::IsMine`, on the keys and scripts of the wallet. -/
  isMine : CScript → IsMineType
  mapWallet : StdMap Uint256 CWalletTx
  mapTxSpends : List (COutPoint × Uint256) := []
  setLockedCoins : List COutPoint := []
  keyed : ∀ hash wtx, mapWallet.lookup hash = some wtx → wtx.hash = hash

/-- `CCoinControl`, without what only the dialogs read.  `destChange` is the script of the change
address; `none` is `CNoDestination`. -/
structure CCoinControl where
  destChange : Option CScript := none
  fSplitBlock : Bool := false
  nSplitBlock : Int := 1
  fAllowOtherInputs : Bool := false
  setSelected : List COutPoint := []

namespace CCoinControl

def hasSelected (coinControl : CCoinControl) : Bool := !coinControl.setSelected.isEmpty

def isSelected (coinControl : CCoinControl) (output : COutPoint) : Bool :=
  coinControl.setSelected.contains output

end CCoinControl

namespace CWallet

variable (wallet : CWallet) (node : WalletNode)

/-- `IsSpent`: a spender that conflicts with the chain or the pool does not count. -/
def isSpent (outpoint : COutPoint) : Bool :=
  wallet.mapTxSpends.any fun spend =>
    spend.1 = outpoint &&
      match wallet.mapWallet.lookup spend.2 with
      | none => false
      | some wtx => decide (0 ≤ node.getDepthInMainChain wtx true)

def isLockedCoin (outpoint : COutPoint) : Bool := wallet.setLockedCoins.contains outpoint

/-- The input of a transaction of ours that `IsTrusted` asks for. -/
def ownInput (txin : CTxIn) : Bool :=
  match wallet.mapWallet.lookup txin.prevout.hash with
  | none => false
  | some parent =>
    wallet.isMine (parent.vout.getD txin.prevout.n CTxOut.null).scriptPubKey = .spendable

def isTrusted (wtx : CWalletTx) : Bool :=
  let nDepth := node.getDepthInMainChain wtx true
  if !node.isFinalTx wtx.toCTransaction 0 0 then false
  else if 1 ≤ nDepth then true
  else if nDepth < 0 then false
  else if !node.bSpendZeroConfChange || !wtx.isFromMe then false
  else wtx.vin.all wallet.ownInput

/-- The arguments of `AvailableCoins`; the pointer `coinControl` may be null. -/
structure CoinRequest where
  fOnlyConfirmed : Bool := true
  coinControl : Option CCoinControl := none
  fIncludeZeroValue : Bool := false
  nCoinType : AvailableCoinsType := .allCoins
  fUseIX : Bool := false

/-- The checks of `AvailableCoins` on a transaction. -/
def transactionAvailable (request : CoinRequest) (wtx : CWalletTx) : Bool :=
  let nDepth := node.getDepthInMainChain wtx false
  if !node.checkFinalTx wtx.toCTransaction then false
  else if request.fOnlyConfirmed && !wallet.isTrusted node wtx then false
  else if (wtx.isCoinBase || wtx.isCoinStake) && node.getBlocksToMaturity wtx > 0 then false
  else if request.fUseIX && nDepth < 6 then false
  else if nDepth = 0 && !node.inMempool wtx then false
  else true

/-- `found`, the test of the coin type.  The second condition has no `else` before it, so that
it sets `found` again for every type. -/
def coinTypeFound (nCoinType : AvailableCoinsType) (nValue : Int) : Bool := Id.run do
  let mut found := false
  if nCoinType = .onlyNot10000IfMn then
    found := !(node.fMasterNode && nValue = masternodeCollateral * CentNode.coin)
  if nCoinType = .only10000 then found := nValue = masternodeCollateral * CentNode.coin
  else
    found := true
  return found

/-- Coin control with a selection leaves out the rest, unless it allows other inputs. -/
def controlAllows (coinControl : Option CCoinControl) (outpoint : COutPoint) : Bool :=
  match coinControl with
  | none => true
  | some coinControl =>
    !(coinControl.hasSelected && !coinControl.fAllowOtherInputs && !coinControl.isSelected outpoint)

def outputAvailable (request : CoinRequest) (wtxid : Uint256) (i : Nat) (txout : CTxOut) : Bool :=
  let mine := wallet.isMine txout.scriptPubKey
  if !coinTypeFound node request.nCoinType txout.nValue then false
  else if wallet.isSpent node ⟨wtxid, i⟩ then false
  else if mine = .no then false
  else if mine = .watchOnly then false
  else if wallet.isLockedCoin ⟨wtxid, i⟩ && request.nCoinType ≠ .only10000 then false
  else if txout.nValue ≤ 0 && !request.fIncludeZeroValue then false
  else controlAllows request.coinControl ⟨wtxid, i⟩

def isSpendable (txout : CTxOut) : Bool :=
  let mine := wallet.isMine txout.scriptPubKey
  mine = .spendable || mine = .multisig

def availableOutputs (request : CoinRequest) (wtxid : Uint256) (wtx : CWalletTx) : List COutput :=
  if wallet.transactionAvailable node request wtx then
    wtx.vout.zipIdx.filterMap fun output =>
      if wallet.outputAvailable node request wtxid output.2 output.1 then
        some ⟨wtx, output.2, node.getDepthInMainChain wtx false, wallet.isSpendable output.1⟩
      else none
  else []

def availableCoins (request : CoinRequest) : List COutput :=
  (@StdMap.inOrder _ _ Uint256.compareOrder wallet.mapWallet).flatMap fun entry =>
    wallet.availableOutputs node request entry.1 entry.2

/-! ## What is available -/

variable {wallet node} {request : CoinRequest}

variable {wtxid : Uint256} {wtx : CWalletTx} {out : COutput}

theorem transactionAvailable_iff :
    wallet.transactionAvailable node request wtx = true ↔
      node.checkFinalTx wtx.toCTransaction = true ∧
      (request.fOnlyConfirmed = true → wallet.isTrusted node wtx = true) ∧
      ((wtx.isCoinBase || wtx.isCoinStake) = true → node.getBlocksToMaturity wtx ≤ 0) ∧
      (request.fUseIX = true → 6 ≤ node.getDepthInMainChain wtx false) ∧
      (node.getDepthInMainChain wtx false = 0 → node.inMempool wtx = true) := by
  unfold transactionAvailable
  cases node.checkFinalTx wtx.toCTransaction <;> cases request.fOnlyConfirmed <;>
    cases wallet.isTrusted node wtx <;> cases (wtx.isCoinBase || wtx.isCoinStake) <;>
    cases request.fUseIX <;> cases node.inMempool wtx <;> simp

theorem outputAvailable_iff {i : Nat} {txout : CTxOut} :
    wallet.outputAvailable node request wtxid i txout = true ↔
      coinTypeFound node request.nCoinType txout.nValue = true ∧
      wallet.isSpent node ⟨wtxid, i⟩ = false ∧
      (wallet.isMine txout.scriptPubKey = .multisig ∨
        wallet.isMine txout.scriptPubKey = .spendable) ∧
      (wallet.isLockedCoin ⟨wtxid, i⟩ = true → request.nCoinType = .only10000) ∧
      (txout.nValue ≤ 0 → request.fIncludeZeroValue = true) ∧
      controlAllows request.coinControl ⟨wtxid, i⟩ = true := by
  unfold outputAvailable
  cases coinTypeFound node request.nCoinType txout.nValue <;>
    cases wallet.isSpent node ⟨wtxid, i⟩ <;> cases wallet.isMine txout.scriptPubKey <;>
    cases wallet.isLockedCoin ⟨wtxid, i⟩ <;> cases request.fIncludeZeroValue <;> simp

theorem mem_availableOutputs :
    out ∈ wallet.availableOutputs node request wtxid wtx ↔
      wallet.transactionAvailable node request wtx = true ∧
        ∃ txout, wtx.vout[out.i]? = some txout ∧
          wallet.outputAvailable node request wtxid out.i txout = true ∧
          out = ⟨wtx, out.i, node.getDepthInMainChain wtx false, wallet.isSpendable txout⟩ := by
  unfold availableOutputs
  cases checked : wallet.transactionAvailable node request wtx with
  | false => simp
  | true =>
    simp only [if_true, mem_filterMap, true_and]
    constructor
    · rintro ⟨⟨txout, i⟩, member, taken⟩
      split at taken
      case isFalse => exact absurd taken (by simp)
      case isTrue allowed =>
        obtain rfl := Option.some.inj taken
        exact ⟨txout, mk_mem_zipIdx_iff_getElem?.mp member, allowed, rfl⟩
    · rintro ⟨txout, found, allowed, shape⟩
      exact ⟨(txout, out.i), mk_mem_zipIdx_iff_getElem?.mpr found,
        (if_pos allowed).trans (congrArg some shape.symm)⟩

theorem mem_availableCoins :
    out ∈ wallet.availableCoins node request ↔
      ∃ wtxid, wallet.mapWallet.lookup wtxid = some out.tx ∧
        wallet.transactionAvailable node request out.tx = true ∧
        ∃ txout, out.tx.vout[out.i]? = some txout ∧
          wallet.outputAvailable node request wtxid out.i txout = true ∧
          out = ⟨out.tx, out.i, node.getDepthInMainChain out.tx false,
            wallet.isSpendable txout⟩ := by
  unfold availableCoins
  rw [mem_flatMap]
  constructor
  · rintro ⟨⟨wtxid, wtx⟩, listed, member⟩
    obtain ⟨checked, txout, found, allowed, shape⟩ := mem_availableOutputs.mp member
    obtain rfl : out.tx = wtx := congrArg COutput.tx shape
    exact ⟨wtxid, (@mem_inOrder _ _ _ Uint256.compareOrder _ _ _).mp listed, checked,
      txout, found, allowed, shape⟩
  · rintro ⟨wtxid, listed, checked, txout, found, allowed, shape⟩
    exact ⟨⟨wtxid, out.tx⟩, (@mem_inOrder _ _ _ Uint256.compareOrder _ _ _).mpr listed,
      mem_availableOutputs.mpr ⟨checked, txout, found, allowed, shape⟩⟩

theorem availableOutputs_distinct (wtxid : Uint256) (wtx : CWalletTx) :
    ((wallet.availableOutputs node request wtxid wtx).map COutput.coin).Nodup := by
  unfold availableOutputs
  split
  case isFalse => exact nodup_nil
  case isTrue =>
    have indices := pairwise_map.mp (nodup_zipIdx_map_snd wtx.vout)
    rw [List.Nodup, pairwise_map, pairwise_filterMap]
    refine indices.imp ?_
    intro first second differ out taken other found same
    split_ifs at taken found
    obtain rfl := Option.some.inj taken
    obtain rfl := Option.some.inj found
    exact differ (Prod.mk.inj same).2

theorem availableCoins_distinct :
    ((wallet.availableCoins node request).map COutput.coin).Nodup := by
  unfold availableCoins
  rw [map_flatMap, nodup_flatMap]
  refine ⟨fun entry _ => availableOutputs_distinct entry.1 entry.2, ?_⟩
  have keys := pairwise_map.mp
    (@nodup_inOrder _ _ Uint256.compareOrder wallet.mapWallet)
  refine keys.imp_of_mem ?_
  intro first second listed others differ coin taken found
  obtain ⟨out, member, rfl⟩ := mem_map.mp taken
  obtain ⟨other, within, same⟩ := mem_map.mp found
  obtain ⟨_, _, _, _, shape⟩ := mem_availableOutputs.mp member
  obtain ⟨_, _, _, _, form⟩ := mem_availableOutputs.mp within
  have hash := wallet.keyed first.1 first.2
    ((@mem_inOrder _ _ _ Uint256.compareOrder _ _ _).mp listed)
  have others_hash := wallet.keyed second.1 second.2
    ((@mem_inOrder _ _ _ Uint256.compareOrder _ _ _).mp others)
  have own : out.tx = first.2 := congrArg COutput.tx shape
  have foreign : other.tx = second.2 := congrArg COutput.tx form
  have tx_eq : other.tx = out.tx := (Prod.mk.inj same).1
  exact differ (by rw [← hash, ← others_hash, ← own, ← foreign, tx_eq])

theorem availableCoins_positive (excluded : request.fIncludeZeroValue = false) :
    ∀ out ∈ wallet.availableCoins node request, 0 < out.value := by
  intro out member
  obtain ⟨wtxid, _, _, txout, found, allowed, _⟩ := mem_availableCoins.mp member
  obtain ⟨_, _, _, _, worthless, _⟩ := outputAvailable_iff.mp allowed
  rw [COutput.value_eq found]
  by_contra low
  exact absurd (worthless (not_lt.mp low)) (by simp [excluded])

end CWallet

end CentNode
