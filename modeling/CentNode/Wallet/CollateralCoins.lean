import CentNode.Wallet.CreateTransaction

/-!
# Collateral among the coins

A masternode asks for its coins with `ONLY_NOT10000IFMN`, which is to leave out what is worth
exactly the collateral.  The test of that type is made and then overwritten, so that a
collateral output is left out only when one of the other rules leaves it out.
-/

namespace CentNode

open CWallet

def collateralValue : Int := masternodeCollateral * coin

section

variable (wallet : CWallet) (node : WalletNode)

/-- The collateral is kept: it is not available where it is to be left out, nor spent by a
transaction created so unless coin control selects it, and asking for it gives nothing else. -/
structure CollateralKept : Prop where
  available : ∀ request : CWallet.CoinRequest, request.nCoinType = .onlyNot10000IfMn →
    ∀ out ∈ wallet.availableCoins node request, out.value ≠ collateralValue
  created : ∀ {Priority : Type} (context : SendContext Priority) (request : SendRequest)
    (fuel : Nat) (created : Created), request.coinType = .onlyNot10000IfMn →
    createTransaction context wallet node request fuel = some (.ok created) →
    ∀ coin ∈ created.setCoins, coin.value = collateralValue →
      ∃ coinControl, request.coinControl = some coinControl ∧
        coinControl.isSelected coin.outpoint = true
  only : ∀ request : CWallet.CoinRequest, request.nCoinType = .only10000 →
    ∀ out ∈ wallet.availableCoins node request, out.value = collateralValue

/-- The rules other than the coin type let the output through: it is final and mature, unspent,
ours to spend and not locked.  Whether the pool has it is not asked: outside the chain and the
pool the depth is -1, and the rule is for a depth of zero. -/
structure Exposed (wtxid : Uint256) (wtx : CWalletTx) (i : Nat) (txout : CTxOut) : Prop where
  final : node.checkFinalTx wtx.toCTransaction = true
  mature : (wtx.isCoinBase || wtx.isCoinStake) = true → node.getBlocksToMaturity wtx ≤ 0
  unspent : wallet.isSpent node ⟨wtxid, i⟩ = false
  ours : wallet.isMine txout.scriptPubKey = .multisig ∨
    wallet.isMine txout.scriptPubKey = .spendable
  unlocked : wallet.isLockedCoin ⟨wtxid, i⟩ = false

/-- No collateral output of the wallet is left to the coin type. -/
def CollateralCovered : Prop :=
  ∀ wtxid wtx, wallet.mapWallet.lookup wtxid = some wtx →
    ∀ i txout, wtx.vout[i]? = some txout → txout.nValue = collateralValue →
      ¬ Exposed wallet node wtxid wtx i txout

/-- The widest request of the type: unconfirmed coins too, and no coin control. -/
def widestRequest : CWallet.CoinRequest where
  fOnlyConfirmed := false
  nCoinType := .onlyNot10000IfMn

variable {wallet node} {request : CWallet.CoinRequest} {nCoinType : AvailableCoinsType}
  {nValue : Int}

theorem inMempool_of_depth {wtx : CWalletTx} (unburied : node.getDepthInMainChain wtx false = 0) :
    node.inMempool wtx = true := by
  unfold WalletNode.getDepthInMainChain at unburied
  by_contra absent
  rw [Bool.not_eq_true] at absent
  by_cases outside : node.getDepthInMainChainInternal wtx = 0
  · simp [outside, absent] at unburied
  · simp [outside] at unburied

theorem coinTypeFound_eq :
    coinTypeFound node nCoinType nValue =
      if nCoinType = .only10000 then decide (nValue = collateralValue) else true := by
  unfold coinTypeFound collateralValue
  cases nCoinType <;> simp

/-- What is available without `ONLY_10000` passes the other rules. -/
theorem exposed_of_available (other : request.nCoinType ≠ .only10000) {wtxid : Uint256}
    {wtx : CWalletTx} {i : Nat} {txout : CTxOut}
    (checked : wallet.transactionAvailable node request wtx = true)
    (allowed : wallet.outputAvailable node request wtxid i txout = true) :
    Exposed wallet node wtxid wtx i txout := by
  obtain ⟨final, _, mature, _⟩ := transactionAvailable_iff.mp checked
  obtain ⟨_, unspent, ours, unlocked, _⟩ := outputAvailable_iff.mp allowed
  exact ⟨final, mature, unspent, ours, Bool.eq_false_iff.mpr fun held =>
    other (unlocked held)⟩

theorem available_of_exposed {wtxid : Uint256} {wtx : CWalletTx} {i : Nat} {txout : CTxOut}
    (listed : wallet.mapWallet.lookup wtxid = some wtx) (found : wtx.vout[i]? = some txout)
    (positive : 0 < txout.nValue) (exposed : Exposed wallet node wtxid wtx i txout) :
    ⟨wtx, i, node.getDepthInMainChain wtx false, wallet.isSpendable txout⟩ ∈
      wallet.availableCoins node widestRequest := by
  refine mem_availableCoins.mpr ⟨wtxid, listed, ?_, txout, found, ?_, rfl⟩
  · refine transactionAvailable_iff.mpr ⟨exposed.final, ?_, exposed.mature, ?_,
      inMempool_of_depth⟩
    · exact fun impossible => absurd impossible Bool.false_ne_true
    · exact fun impossible => absurd impossible Bool.false_ne_true
  · refine outputAvailable_iff.mpr ⟨?_, exposed.unspent, exposed.ours, ?_, ?_, rfl⟩
    · rw [coinTypeFound_eq]
      rfl
    · intro held
      exact absurd held (by simp [exposed.unlocked])
    · intro low
      omega

theorem collateralValue_pos : 0 < collateralValue := by decide

theorem available_ne_collateral (covered : CollateralCovered wallet node)
    (other : request.nCoinType ≠ .only10000) :
    ∀ out ∈ wallet.availableCoins node request, out.value ≠ collateralValue := by
  intro out member worth
  obtain ⟨wtxid, listed, checked, txout, found, allowed, _⟩ := mem_availableCoins.mp member
  rw [COutput.value_eq found] at worth
  exact covered wtxid out.tx listed out.i txout found worth
    (exposed_of_available other checked allowed)

/-- `ONLY_10000` gives outputs of exactly the collateral. -/
theorem available_only10000 (only : request.nCoinType = .only10000) :
    ∀ out ∈ wallet.availableCoins node request, out.value = collateralValue := by
  intro out member
  obtain ⟨wtxid, _, _, txout, found, allowed, _⟩ := mem_availableCoins.mp member
  have type := (outputAvailable_iff.mp allowed).1
  rw [coinTypeFound_eq, if_pos only] at type
  rw [COutput.value_eq found]
  exact of_decide_eq_true type

/-- The collateral is kept exactly when each collateral output of the wallet is not final, not
mature, spent, not ours to spend or locked. -/
theorem collateralKept_iff (wallet : CWallet) (node : WalletNode) :
    CollateralKept wallet node ↔ CollateralCovered wallet node := by
  constructor
  · intro kept wtxid wtx listed i txout found worth exposed
    have positive : 0 < txout.nValue := worth ▸ collateralValue_pos
    have member := available_of_exposed listed found positive exposed
    exact kept.available widestRequest rfl _ member ((COutput.value_eq found).trans worth)
  · intro covered
    refine ⟨?_, ?_, fun request only => available_only10000 only⟩
    · intro request type
      exact available_ne_collateral covered (by simp [type])
    · intro Priority context request fuel created type run coin member worth
      obtain ⟨out, available, rfl⟩ := (created_available run).2 coin member
      exact absurd worth (available_ne_collateral covered (by simp [selectRequest, type])
        out available)

end

namespace WalletSample

/-- The same transaction with an output of exactly the collateral. -/
def collateralTx : CWalletTx := { wtx with vout := [⟨collateralValue, []⟩] }

def masternode : WalletNode := { node with fMasterNode := true }

end WalletSample

open WalletSample

/-- A masternode with one collateral output, which is available for spending. -/
theorem collateralTx_available :
    WalletSample.masternode.fMasterNode = true ∧
      (WalletSample.walletOf WalletSample.collateralTx).availableCoins WalletSample.masternode
          { nCoinType := .onlyNot10000IfMn } = [⟨collateralTx, 0, 21, true⟩] ∧
      ¬ CollateralKept (walletOf collateralTx)
        masternode := by
  have listed : (walletOf collateralTx).availableCoins
      masternode { nCoinType := .onlyNot10000IfMn } =
        [⟨collateralTx, 0, 21, true⟩] := by decide +kernel
  refine ⟨rfl, listed, fun kept => ?_⟩
  have different := kept.available { nCoinType := .onlyNot10000IfMn } rfl
    ⟨collateralTx, 0, 21, true⟩ (by rw [listed]; exact List.mem_singleton_self _)
  exact different (by decide +kernel)

end CentNode
