import CentNode.Wallet.CoinSelection

/-!
# Creating a transaction

`CWallet::SelectCoins` and `CWallet::CreateTransaction`.  A pass of the loop makes the outputs
of the payees, picks coins for them and for the fee of the pass, adds the change or folds it
into the fee, signs, and asks whether the fee is enough for the size; when it is not, the next
pass starts with the fee that is.
-/

namespace CentNode

/-- The most that `ParseMoney` accepts: ten digits before the point. -/
def parseMoneyMax : Int := 10 ^ 18

def maxStandardTxSize : Nat := 100000

def maxFreeTransactionCreateSize : Nat := 10000

/-- `CFeeRate::GetFee`; the product and the division are unsigned. -/
def getFee (nSatoshisPerK : Int) (nSize : Nat) : Int :=
  let nFee := toInt64 (nSatoshisPerK * nSize % 2 ^ 64 / 1000)
  if nFee = 0 ∧ nSatoshisPerK > 0 then nSatoshisPerK else nFee

def CTxOut.isDust (minRelayTxFee : Int) (out : CTxOut) : Bool :=
  out.nValue < toInt64 (3 * getFee minRelayTxFee (out.serializeSize + 148))

/-- The fee settings; a rate is given in satoshis for a thousand bytes.  Those that an amount on
the command line sets are bounded by what is accepted there. -/
structure FeePolicy (Priority : Type) where
  minRelayTxFee : Int
  minTxFee : Int
  payTxFee : Int
  maxTxFee : Int
  fPayAtLeastCustomFee : Bool
  fSendFreeTransactions : Bool
  /-- `mempool.estimateFee(nTxConfirmTarget)`. -/
  estimateFee : Int
  /-- `mempool.estimatePriority(nTxConfirmTarget)`. -/
  estimatePriority : Priority
  minRelayTxFee_range : 0 ≤ minRelayTxFee ∧ minRelayTxFee ≤ parseMoneyMax
  maxTxFee_range : 0 ≤ maxTxFee ∧ maxTxFee ≤ parseMoneyMax

/-- The first part of `CWallet::GetMinimumFee`: the fee set by the user, an estimate, or the
fixed rate. -/
def FeePolicy.wantedFee {Priority : Type} (policy : FeePolicy Priority) (nTxBytes : Nat) : Int :=
  let custom := getFee policy.payTxFee nTxBytes
  let atLeast :=
    if policy.fPayAtLeastCustomFee && custom > 0 && custom < policy.payTxFee then policy.payTxFee
    else custom
  let estimated := if atLeast = 0 then getFee policy.estimateFee nTxBytes else atLeast
  if estimated = 0 then getFee policy.minTxFee nTxBytes else estimated

/-- `CWallet::GetMinimumFee`: no less than the relay fee, but always within the maximum. -/
def FeePolicy.getMinimumFee {Priority : Type} (policy : FeePolicy Priority) (nTxBytes : Nat) :
    Int :=
  let relayFee := getFee policy.minRelayTxFee nTxBytes
  let nFeeNeeded :=
    if policy.wantedFee nTxBytes < relayFee then relayFee else policy.wantedFee nTxBytes
  if nFeeNeeded > policy.maxTxFee then policy.maxTxFee else nFeeNeeded

/-- What `CreateTransaction` takes from the keys, the pool and chance. -/
structure SendContext (Priority : Type) where
  policy : FeePolicy Priority
  arith : PriorityArith Priority
  /-- `GetHash` of inputs and outputs. -/
  getHash : List CTxIn → List CTxOut → Uint256
  /-- `SignSignature`: the script it gives to the input of a number, which spends an output of
  the transaction. -/
  signSignature : CWalletTx → List CTxIn → List CTxOut → Nat → Option CScript
  /-- The script of the reserved key, in each pass. -/
  reservedScript : Nat → CScript
  /-- `GetRandInt(vout.size() + 1)`, in each pass. -/
  changePosition : Nat → (size : Nat) → Fin (size + 1)
  /-- The choices of each pass in the calls of `SelectCoinsMinConf`. -/
  choices : Nat → Nat → Choices

/-- The arguments of `CreateTransaction`. -/
structure SendRequest where
  vecSend : List (CScript × Int)
  coinControl : Option CCoinControl := none
  coinType : AvailableCoinsType := .allCoins
  useIX : Bool := false
  nFeePay : Int := 0

/-- What a call leaves behind: `wtxNew` with the selected coins, `nFeeRet` and the place at which
the change stands among the outputs. -/
structure Created where
  wtxNew : CTransaction
  setCoins : List Coin
  nFeeRet : Int
  nChangePos : Option Nat
  deriving DecidableEq, Repr

/-- The outputs other than the change. -/
def Created.payeeOutputs (created : Created) : List CTxOut :=
  match created.nChangePos with
  | none => created.wtxNew.vout
  | some position => created.wtxNew.vout.eraseIdx position

namespace CWallet

variable (wallet : CWallet) (node : WalletNode)

/-- What `AvailableCoins` is asked for by `SelectCoins`. -/
def selectRequest (coinControl : Option CCoinControl) (coinType : AvailableCoinsType)
    (useIX : Bool) : CoinRequest where
  coinControl := coinControl
  nCoinType := coinType
  fUseIX := useIX

/-- `coinControl && coinControl->HasSelected()`. -/
def takesSelected : Option CCoinControl → Bool
  | none => false
  | some coinControl => coinControl.hasSelected

/-- `SelectCoins`, with `none` for `false`.  Under coin control every spendable coin that is
available is taken. -/
def selectCoins (choices : Nat → Choices) (nTargetValue : Int)
    (coinControl : Option CCoinControl) (coinType : AvailableCoinsType) (useIX : Bool) :
    Option Selected :=
  let vCoins := wallet.availableCoins node (selectRequest coinControl coinType useIX)
  if takesSelected coinControl then
    let selected := Selected.ofCoins
      ((vCoins.filter COutput.fSpendable).map fun out => (out.value, out.coin))
    if selected.nValueRet ≥ nTargetValue then some selected else none
  else
    match selectCoinsMinConf (choices 0) nTargetValue 1 6 vCoins with
    | some selected => some selected
    | none =>
      match selectCoinsMinConf (choices 1) nTargetValue 1 1 vCoins with
      | some selected => some selected
      | none =>
        if node.bSpendZeroConfChange then selectCoinsMinConf (choices 2) nTargetValue 0 1 vCoins
        else none

end CWallet

/-- The amounts of the payees are added up; a negative total so far stops the loop. -/
def addAmount (nValue : Int) (send : CScript × Int) : Except String Int :=
  if nValue < 0 then .error "Transaction amounts must be positive"
  else .ok (toInt64 (nValue + send.2))

def addAmounts (vecSend : List (CScript × Int)) : Except String Int :=
  (vecSend.foldlM addAmount 0).bind fun nValue =>
    if vecSend.isEmpty || nValue < 0 then .error "Transaction amounts must be positive"
    else .ok nValue

def payeeOutput (minRelayTxFee : Int) (send : CScript × Int) : Except String CTxOut :=
  let txout : CTxOut := ⟨send.2, send.1⟩
  if txout.isDust minRelayTxFee then .error "Transaction amount too small" else .ok txout

/-- The outputs among which the splitter divides an amount; the last has the remainder. -/
def splitOutputs (nSplitBlock : Int) (send : CScript × Int) : List CTxOut :=
  (List.range nSplitBlock.toNat).map fun (i : Nat) =>
    if (i : Int) = nSplitBlock - 1 then
      ⟨toInt64 (send.2.tdiv nSplitBlock + send.2.tmod nSplitBlock), send.1⟩
    else ⟨send.2.tdiv nSplitBlock, send.1⟩

def payeesOutputs (minRelayTxFee : Int) (coinControl : Option CCoinControl)
    (vecSend : List (CScript × Int)) : Except String (List CTxOut) :=
  match coinControl with
  | none => .ok (vecSend.flatMap (splitOutputs 1))
  | some coinControl =>
    if !coinControl.fSplitBlock then vecSend.mapM (payeeOutput minRelayTxFee)
    else .ok (vecSend.flatMap (splitOutputs coinControl.nSplitBlock))

/-- The text when `SelectCoins` fails. -/
def selectFailure (coinType : AvailableCoinsType) (useIX : Bool) : String :=
  let strFailReason :=
    match coinType with
    | .allCoins => "Insufficient funds."
    | .onlyNot10000IfMn =>
      "Unable to locate enough funds for this transaction that are not equal 10000 CENT."
    | _ => ""
  if useIX then
    strFailReason ++ " " ++ "SwiftTX requires inputs with at least 6 confirmations, " ++
      "you might need to wait a few minutes and try again."
  else strFailReason

/-- The outputs of a pass once the change is dealt with, its place and the fee. -/
structure Changed where
  vout : List CTxOut
  nChangePos : Option Nat := none
  nFeeRet : Int
  deriving DecidableEq, Repr

/-- How a pass ends: with the loop left, or with the fee for the next pass. -/
inductive PassResult where
  | done (created : Created)
  | again (nFeeRet : Int)
  deriving DecidableEq, Repr

section

variable {Priority : Type} (context : SendContext Priority) (wallet : CWallet)
  (node : WalletNode) (request : SendRequest)

/-- The script that the change goes to. -/
def changeScript (nPass : Nat) : CScript :=
  match request.coinControl with
  | none => context.reservedScript nPass
  | some coinControl => coinControl.destChange.getD (context.reservedScript nPass)

/-- The change: nothing, dust for the fee, or an output at a random place. -/
def addChange (nPass : Nat) (vout : List CTxOut) (nChange nFeeRet : Int) : Changed :=
  if nChange > 0 then
    let newTxOut : CTxOut := ⟨nChange, changeScript context request nPass⟩
    if newTxOut.isDust context.policy.minRelayTxFee then
      { vout := vout, nFeeRet := toInt64 (nFeeRet + nChange) }
    else
      let position := (context.changePosition nPass vout.length).val
      { vout := vout.insertIdx position newTxOut, nChangePos := some position, nFeeRet := nFeeRet }
  else { vout := vout, nFeeRet := nFeeRet }

/-- The inputs are signed one after the other. -/
def signInputs (vout : List CTxOut) : Nat → List Coin → List CTxIn → Except String (List CTxIn)
  | _, [], vin => .ok vin
  | nIn, coin :: rest, vin =>
    match context.signSignature coin.1 vin vout nIn with
    | none => .error "Signing transaction failed"
    | some scriptSig =>
      signInputs vout (nIn + 1) rest
        (vin.modify nIn fun txin => { txin with scriptSig := scriptSig })

/-- `dPriority`, the values of the coins weighed with the age they will have. -/
def coinsPriority (setCoins : List Coin) : Priority :=
  setCoins.foldl
    (fun dPriority coin =>
      let age := node.getDepthInMainChain coin.1 true
      context.arith.add dPriority
        (context.arith.weigh coin.value (if age ≠ 0 then age + 1 else age)))
    context.arith.zero

def computePriority (tx : CTransaction) (dPriorityInputs : Priority) (nBytes : Nat) : Priority :=
  let nTxSize := calculateModifiedSize tx nBytes
  if nTxSize = 0 then context.arith.zero else context.arith.div dPriorityInputs nTxSize

/-- The transaction may go without a fee. -/
def completesFree (dPriority : Priority) (nBytes : Nat) : Bool :=
  let dPriorityNeeded := context.policy.estimatePriority
  let needed := context.arith.lt context.arith.zero dPriorityNeeded
  context.policy.fSendFreeTransactions && decide (nBytes ≤ maxFreeTransactionCreateSize) &&
    ((!needed && context.arith.allowFree dPriority) ||
      (needed && !context.arith.lt dPriority dPriorityNeeded))

/-- The end of a pass: is the fee enough? -/
def finishPass (nFeePay : Int) (created : Created) : Except String PassResult :=
  let nBytes := created.wtxNew.serializeSize
  let dPriority := computePriority context created.wtxNew
    (coinsPriority context node created.setCoins) nBytes
  if nBytes ≥ maxStandardTxSize then .error "Transaction too large"
  else if completesFree context dPriority nBytes then .ok (.done created)
  else
    let nFeeNeeded := max nFeePay (context.policy.getMinimumFee nBytes)
    if nFeeNeeded < getFee context.policy.minRelayTxFee nBytes then
      .error "Transaction too large for fee policy"
    else if created.nFeeRet ≥ nFeeNeeded then .ok (.done created)
    else .ok (.again nFeeNeeded)

/-- The change of a pass: what the coins are worth beyond the amounts and the fee. -/
def passChanged (nPass : Nat) (vout : List CTxOut) (nValueIn nValue nFeeRet : Int) : Changed :=
  addChange context request nPass vout (toInt64 (toInt64 (nValueIn - nValue) - nFeeRet)) nFeeRet

/-- `wtxNew`, once the inputs are signed. -/
def passCreated (setCoins : List Coin) (vin : List CTxIn) (changed : Changed) : Created where
  wtxNew := { hash := context.getHash vin changed.vout, vin := vin, vout := changed.vout }
  setCoins := setCoins
  nFeeRet := changed.nFeeRet
  nChangePos := changed.nChangePos

/-- One pass of the loop. -/
def createPass (nFeePay nValue : Int) (nPass : Nat) (nFeeRet : Int) : Except String PassResult := do
  let vout ← payeesOutputs context.policy.minRelayTxFee request.coinControl request.vecSend
  let nTotalValue := toInt64 (nValue + nFeeRet)
  match wallet.selectCoins node (context.choices nPass) nTotalValue request.coinControl
      request.coinType request.useIX with
  | none => .error (selectFailure request.coinType request.useIX)
  | some selected =>
    let changed := passChanged context request nPass vout selected.nValueRet nValue nFeeRet
    let vin ← signInputs context changed.vout 0 selected.setCoinsRet
      (selected.setCoinsRet.map fun coin => { prevout := coin.outpoint })
    finishPass context node nFeePay (passCreated context selected.setCoinsRet vin changed)

/-- The loop; `none` when it is not left within a number of passes. -/
def createLoop (nFeePay nValue : Int) : Nat → Nat → Int → Option (Except String Created)
  | 0, _, _ => none
  | fuel + 1, nPass, nFeeRet =>
    match createPass context wallet node request nFeePay nValue nPass nFeeRet with
    | .error strFailReason => some (.error strFailReason)
    | .ok (.done created) => some (.ok created)
    | .ok (.again nFeeNeeded) => createLoop nFeePay nValue fuel (nPass + 1) nFeeNeeded

/-- `nFeePay`, at least `CENT` for a transaction that asks for a lock. -/
def SendRequest.feePay (request : SendRequest) : Int :=
  if request.useIX && request.nFeePay < cent then cent else request.nFeePay

/-- The fee of the first pass. -/
def SendRequest.firstFee (request : SendRequest) : Int :=
  if request.feePay > 0 then request.feePay else 0

def createTransaction (fuel : Nat) : Option (Except String Created) :=
  match addAmounts request.vecSend with
  | .error strFailReason => some (.error strFailReason)
  | .ok nValue =>
    createLoop context wallet node request request.feePay nValue fuel 0 request.firstFee

end

/-! ## What is selected -/

namespace CWallet

variable {wallet : CWallet} {node : WalletNode} {coinControl : Option CCoinControl}
  {coinType : AvailableCoinsType} {useIX : Bool} {nTargetValue : Int}

/-- The coins that `SelectCoins` may pick are worth no more than there can be money. -/
def Funds (wallet : CWallet) (node : WalletNode) (coinControl : Option CCoinControl)
    (coinType : AvailableCoinsType) (useIX : Bool) : Prop :=
  ((wallet.availableCoins node (selectRequest coinControl coinType useIX)).map COutput.value).sum ≤
    mainParams.maxMoneyOut

/-- A selection: distinct coins with their value.  It reaches the target, as long as the target
plus `CENT` is in range. -/
structure Selection (nTargetValue : Int) (selected : Selected) : Prop where
  distinct : selected.setCoinsRet.Nodup
  value : selected.nValueRet = (selected.setCoinsRet.map Coin.value).sum
  nonneg : 0 ≤ selected.nValueRet
  inMoney : selected.nValueRet ≤ mainParams.maxMoneyOut
  enough : nTargetValue + cent < 2 ^ 63 → nTargetValue ≤ selected.nValueRet

theorem selection_of_held {request : CoinRequest} {allowed : COutput → Bool}
    (spendable : Spendable (wallet.availableCoins node request)) {coins : List ValuedCoin}
    (held : coins.Subperm (coinsWhere allowed (wallet.availableCoins node request)))
    (enough : nTargetValue + cent < 2 ^ 63 → nTargetValue ≤ (Selected.ofCoins coins).nValueRet) :
    Selection nTargetValue (Selected.ofCoins coins) := by
  obtain ⟨_, distinct, value, worth⟩ := spendable.ofCoins_held held
  have payable := (spendable.payable allowed).subperm held
  exact ⟨distinct, value, worth ▸ payable.sum_nonneg, worth ▸ payable.total, enough⟩

variable {selected : Selected}

theorem selection_of_minConf {request : CoinRequest} {choices : Choices}
    {nConfMine nConfTheirs : Int} (spendable : Spendable (wallet.availableCoins node request))
    (range : -2 ^ 63 ≤ nTargetValue)
    (run : selectCoinsMinConf choices nTargetValue nConfMine nConfTheirs
      (wallet.availableCoins node request) = some selected) :
    Selection nTargetValue selected := by
  obtain ⟨coins, rfl, picked⟩ := selectCoinsMinConf_picked range run
  refine selection_of_held spendable picked.subperm fun small => ?_
  rw [(spendable.ofCoins_held picked.subperm).2.2.2]
  exact picked.enough (spendable.payable _) small

variable {choices : Nat → Choices}

/-- A call of `SelectCoins` that succeeds has taken what is available under coin control, or one
call of `SelectCoinsMinConf` has succeeded. -/
theorem selectCoins_cases
    (run : wallet.selectCoins node choices nTargetValue coinControl coinType useIX =
      some selected) :
    (∃ allowed, selected = Selected.ofCoins (coinsWhere allowed
        (wallet.availableCoins node (selectRequest coinControl coinType useIX))) ∧
        nTargetValue ≤ selected.nValueRet) ∨
      ∃ call nConfMine nConfTheirs,
        selectCoinsMinConf (choices call) nTargetValue nConfMine nConfTheirs
          (wallet.availableCoins node (selectRequest coinControl coinType useIX)) =
            some selected := by
  unfold selectCoins at run
  dsimp only at run
  split at run
  case isTrue =>
    split_ifs at run with enough
    obtain rfl := Option.some.inj run
    exact Or.inl ⟨_, rfl, enough⟩
  case isFalse =>
    split at run
    case h_1 first found =>
      obtain rfl := Option.some.inj run
      exact Or.inr ⟨0, 1, 6, found⟩
    case h_2 =>
      split at run
      case h_1 second found =>
        obtain rfl := Option.some.inj run
        exact Or.inr ⟨1, 1, 1, found⟩
      case h_2 =>
        split_ifs at run
        exact Or.inr ⟨2, 0, 1, run⟩

/-- What `SelectCoins` returns. -/
theorem selectCoins_selection (funds : Funds wallet node coinControl coinType useIX)
    (range : -2 ^ 63 ≤ nTargetValue)
    (run : wallet.selectCoins node choices nTargetValue coinControl coinType useIX =
      some selected) : Selection nTargetValue selected := by
  have spendable :
      Spendable (wallet.availableCoins node (selectRequest coinControl coinType useIX)) :=
    ⟨availableCoins_distinct, availableCoins_positive rfl, funds⟩
  rcases selectCoins_cases run with ⟨allowed, rfl, enough⟩ | ⟨call, nConfMine, nConfTheirs, found⟩
  · exact selection_of_held spendable (List.Subperm.refl _) fun _ => enough
  · exact selection_of_minConf spendable range found

theorem selectCoins_available (range : -2 ^ 63 ≤ nTargetValue)
    (run : wallet.selectCoins node choices nTargetValue coinControl coinType useIX =
      some selected) :
    ∀ coin ∈ selected.setCoinsRet,
      ∃ out ∈ wallet.availableCoins node (selectRequest coinControl coinType useIX),
        out.coin = coin := by
  have held : ∃ allowed coins, selected = Selected.ofCoins coins ∧
      coins.Subperm (coinsWhere allowed
        (wallet.availableCoins node (selectRequest coinControl coinType useIX))) := by
    rcases selectCoins_cases run with ⟨allowed, made, _⟩ | ⟨call, nConfMine, nConfTheirs, found⟩
    · exact ⟨allowed, _, made, List.Subperm.refl _⟩
    · obtain ⟨coins, made, picked⟩ := selectCoinsMinConf_picked range found
      exact ⟨_, coins, made, picked.subperm⟩
  obtain ⟨allowed, coins, rfl, within⟩ := held
  intro coin member
  obtain ⟨valued, listed, rfl⟩ := List.mem_map.mp (Selected.mem_ofCoins member)
  obtain ⟨out, found, _, rfl⟩ := mem_coinsWhere.mp (within.subset listed)
  exact ⟨out, found, rfl⟩

end CWallet

/-! ## A pass -/

section

variable {Priority : Type} {context : SendContext Priority} {wallet : CWallet}
  {node : WalletNode} {request : SendRequest} {nFeePay nValue nFeeRet : Int} {nPass : Nat}

theorem signInputs_prevouts {vout : List CTxOut} {coins : List Coin} {nIn : Nat}
    {vin signed : List CTxIn} (run : signInputs context vout nIn coins vin = .ok signed) :
    signed.map CTxIn.prevout = vin.map CTxIn.prevout := by
  induction coins generalizing nIn vin with
  | nil =>
    obtain rfl := Except.ok.inj run
    rfl
  | cons coin rest ih =>
    unfold signInputs at run
    split at run
    case h_1 => exact absurd run (by simp)
    case h_2 scriptSig _ =>
      rw [ih run]
      refine List.ext_getElem? fun i => ?_
      rw [List.getElem?_map, List.getElem?_map, List.getElem?_modify]
      cases vin[i]? with
      | none => rfl
      | some txin =>
        by_cases here : nIn = i
        · simp [here]
        · simp [here]

/-- A pass that ends well has made the outputs, selected coins and signed. -/
theorem createPass_cases {result : PassResult}
    (run : createPass context wallet node request nFeePay nValue nPass nFeeRet = .ok result) :
    ∃ vout selected vin,
      payeesOutputs context.policy.minRelayTxFee request.coinControl request.vecSend = .ok vout ∧
      wallet.selectCoins node (context.choices nPass) (toInt64 (nValue + nFeeRet))
        request.coinControl request.coinType request.useIX = some selected ∧
      vin.map CTxIn.prevout = selected.setCoinsRet.map Coin.outpoint ∧
      finishPass context node nFeePay (passCreated context selected.setCoinsRet vin
        (passChanged context request nPass vout selected.nValueRet nValue nFeeRet)) =
          .ok result := by
  unfold createPass at run
  cases outputs : payeesOutputs context.policy.minRelayTxFee request.coinControl
      request.vecSend with
  | error strFailReason =>
    rw [outputs] at run
    exact absurd run (by simp [bind, Except.bind])
  | ok vout =>
    rw [outputs] at run
    simp only [bind, Except.bind] at run
    split at run
    case h_1 => exact absurd run (by simp)
    case h_2 selected found =>
      split at run
      case h_1 => exact absurd run (by simp)
      case h_2 vin signed =>
        refine ⟨vout, selected, vin, rfl, found, ?_, run⟩
        rw [signInputs_prevouts signed, List.map_map]
        rfl

variable {created : Created}

theorem finishPass_cases {result : PassResult}
    (run : finishPass context node nFeePay created = .ok result) :
    result = .done created ∨
      ∃ nBytes, result = .again (max nFeePay (context.policy.getMinimumFee nBytes)) := by
  unfold finishPass at run
  dsimp only at run
  split_ifs at run
  · exact Or.inl (Except.ok.inj run).symm
  · exact Or.inl (Except.ok.inj run).symm
  · exact Or.inr ⟨_, (Except.ok.inj run).symm⟩

theorem createLoop_last (Holds : Int → Prop) (again : ∀ nPass nFeeRet nFeeNeeded, Holds nFeeRet →
      createPass context wallet node request nFeePay nValue nPass nFeeRet =
        .ok (.again nFeeNeeded) → Holds nFeeNeeded) {fuel : Nat} (holds : Holds nFeeRet)
    (run : createLoop context wallet node request nFeePay nValue fuel nPass nFeeRet =
      some (.ok created)) :
    ∃ nPass nFeeRet, Holds nFeeRet ∧
      createPass context wallet node request nFeePay nValue nPass nFeeRet =
        .ok (.done created) := by
  induction fuel generalizing nPass nFeeRet with
  | zero => exact absurd run (by simp [createLoop])
  | succ fuel ih =>
    unfold createLoop at run
    split at run
    case h_1 => exact absurd run (by simp)
    case h_2 last ended =>
      obtain rfl := Except.ok.inj (Option.some.inj run)
      exact ⟨nPass, nFeeRet, holds, ended⟩
    case h_3 nFeeNeeded next => exact ih (again nPass nFeeRet nFeeNeeded holds next) run

theorem createPass_done
    (run : createPass context wallet node request nFeePay nValue nPass nFeeRet =
      .ok (.done created)) :
    ∃ vout selected vin,
      payeesOutputs context.policy.minRelayTxFee request.coinControl request.vecSend = .ok vout ∧
      wallet.selectCoins node (context.choices nPass) (toInt64 (nValue + nFeeRet))
        request.coinControl request.coinType request.useIX = some selected ∧
      vin.map CTxIn.prevout = selected.setCoinsRet.map Coin.outpoint ∧
      created = passCreated context selected.setCoinsRet vin
        (passChanged context request nPass vout selected.nValueRet nValue nFeeRet) := by
  obtain ⟨vout, selected, vin, outputs, found, inputs, finished⟩ := createPass_cases run
  refine ⟨vout, selected, vin, outputs, found, inputs, ?_⟩
  rcases finishPass_cases finished with done | ⟨nBytes, impossible⟩
  · exact PassResult.done.inj done
  · exact absurd impossible (by simp)

theorem created_available {fuel : Nat}
    (run : createTransaction context wallet node request fuel = some (.ok created)) :
    created.wtxNew.prevouts = created.setCoins.map Coin.outpoint ∧
      ∀ coin ∈ created.setCoins, ∃ out ∈ wallet.availableCoins node
        (CWallet.selectRequest request.coinControl request.coinType request.useIX),
        out.coin = coin := by
  unfold createTransaction at run
  split at run
  case h_1 => exact absurd run (by simp)
  case h_2 nValue _ =>
    obtain ⟨nPass, nFeeRet, _, pass⟩ :=
      createLoop_last (fun _ => True) (fun _ _ _ _ _ => trivial) trivial run
    obtain ⟨vout, selected, vin, _, found, inputs, rfl⟩ := createPass_done pass
    exact ⟨inputs, CWallet.selectCoins_available (by unfold toInt64; omega) found⟩

end

end CentNode
