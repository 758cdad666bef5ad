import CentNode.Coins.Coins

/-!
# The flat coins view

What a stack of caches stands for: one record for each transaction id and one
best block.  Validation reads and changes the coins through this view; an
absent record is an empty one.
-/

namespace CentNode

structure FlatCoins where
  coins : Uint256 → CCoins
  bestBlock : Uint256

namespace FlatCoins

/-- A modifier trims what it leaves behind. -/
def modifyCoins (view : FlatCoins) (txid : Uint256) (change : CCoins → CCoins) : FlatCoins :=
  { view with coins := Function.update view.coins txid (change (view.coins txid)).cleanup }

def setBestBlock (view : FlatCoins) (hash : Uint256) : FlatCoins := { view with bestBlock := hash }

def haveInputs (view : FlatCoins) (tx : CTransaction) : Bool :=
  tx.isCoinBase || tx.vin.all fun txin => (view.coins txin.prevout.hash).isAvailable txin.prevout.n

/-- `GetOutputFor`; `none` is the failed assertion on a missing output. -/
def getOutputFor (view : FlatCoins) (txin : CTxIn) : Option CTxOut :=
  let coins := view.coins txin.prevout.hash
  if coins.isAvailable txin.prevout.n then coins.vout[txin.prevout.n]? else none

/-- One input of the loop of `GetValueIn`. -/
def addValueIn (view : FlatCoins) (nResult : Int) (txin : CTxIn) : Option Int :=
  (view.getOutputFor txin).map fun txout => toInt64 (nResult + txout.nValue)

def getValueIn (view : FlatCoins) (tx : CTransaction) : Option Int :=
  if tx.isCoinBase then some 0 else tx.vin.foldlM (addValueIn view) 0

variable (view : FlatCoins) (txid other : Uint256) (change : CCoins → CCoins)

theorem modifyCoins_coins :
    (view.modifyCoins txid change).coins other =
      if other = txid then (change (view.coins txid)).cleanup else view.coins other := by
  simp only [modifyCoins, Function.update_apply]

theorem modifyCoins_self :
    (view.modifyCoins txid change).coins txid = (change (view.coins txid)).cleanup := by
  rw [modifyCoins_coins, if_pos rfl]

theorem modifyCoins_of_ne {txid other : Uint256} (change : CCoins → CCoins)
    (differs : other ≠ txid) : (view.modifyCoins txid change).coins other = view.coins other := by
  rw [modifyCoins_coins, if_neg differs]

theorem available_of_haveInputs {view : FlatCoins} {tx : CTransaction}
    (have_inputs : view.haveInputs tx = true) (spends : tx.isCoinBase = false) {txin : CTxIn}
    (member : txin ∈ tx.vin) :
    (view.coins txin.prevout.hash).isAvailable txin.prevout.n = true := by
  rw [haveInputs, spends, Bool.false_or, List.all_eq_true] at have_inputs
  exact have_inputs txin member

end FlatCoins

end CentNode
