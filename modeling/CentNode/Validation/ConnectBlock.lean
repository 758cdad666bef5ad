import CentNode.Library.Trim
import CentNode.Validation.Node

/-!
# Connecting and disconnecting a block

`UpdateCoins`, `CheckInputs`, `ConnectBlock` and `DisconnectBlock` of `main.cpp`.  An index
entry comes with the list of its ancestors, the parent first.
-/

namespace CentNode

/-! ## Updating the coins -/

def spendInput (view : FlatCoins) (prevout : COutPoint) : Option (FlatCoins × CTxInUndo) :=
  ((view.coins prevout.hash).spend prevout).map fun spent =>
    (view.modifyCoins prevout.hash fun _ => spent.1, spent.2)

/-- Spend outputs one by one; the undo records follow the order of the inputs. -/
def spendInputs : FlatCoins → List COutPoint → Option (FlatCoins × List CTxInUndo)
  | view, [] => some (view, [])
  | view, prevout :: rest =>
    (spendInput view prevout).bind fun first =>
      (spendInputs first.1 rest).map fun others => (others.1, first.2 :: others.2)

def addOutputs (view : FlatCoins) (tx : CTransaction) (nHeight : Int) : FlatCoins :=
  view.modifyCoins tx.hash fun _ => CCoins.fromTx tx nHeight

/-- `UpdateCoins`; `none` is the failed assertion on `Spend`. -/
def updateCoins (tx : CTransaction) (inputs : FlatCoins) (nHeight : Int) :
    Option (FlatCoins × CTxUndo) :=
  if tx.isCoinBase then some (addOutputs inputs tx nHeight, {})
  else
    (spendInputs inputs tx.prevouts).map fun spent =>
      (addOutputs spent.1 tx nHeight, { vprevout := spent.2 })

/-! ## Checking the inputs of a transaction -/

structure CScriptCheck where
  scriptPubKey : CScript
  ptxTo : CTransaction
  nIn : Nat
  nFlags : ScriptFlags
  deriving DecidableEq, Repr

/-- `CScriptCheck::operator()`. -/
def CScriptCheck.passes (check : CScriptCheck) (prim : Primitives) : Bool :=
  prim.verifyScript check.ptxTo check.nIn check.scriptPubKey check.nFlags

def checkInputsHeight : Nat := 270000

/-- One input of the first loop of `CheckInputs`: maturity and value. -/
def checkInput (params : CChainParams) (inputs : FlatCoins) (nSpendHeight : Int)
    (nValueIn : Int) (txin : CTxIn) : Checked Int :=
  let coins := inputs.coins txin.prevout.hash
  if (coins.fCoinBase || coins.fCoinStake) &&
      nSpendHeight - coins.nHeight < params.coinbaseMaturity then
    reject 0 "bad-txns-premature-spend-of-coinbase"
  else
    match coins.vout[txin.prevout.n]? with
    | none => .error .assertion
    | some txout =>
      if !params.moneyRange txout.nValue || !params.moneyRange (toInt64 (nValueIn + txout.nValue))
      then reject 100 "bad-txns-inputvalues-outofrange"
      else .ok (toInt64 (nValueIn + txout.nValue))

/-- The part of `CheckInputs` on the fee of a transaction. -/
def checkFee (params : CChainParams) (pindexPrev : CBlockIndex) (tx : CTransaction)
    (nValueIn : Int) : Checked Unit :=
  if tx.isCoinStake then .ok ()
  else
    match tx.getValueOut with
    | none => .error (.exception "GetValueOut() : value out of range")
    | some nValueOut =>
      if nValueIn < nValueOut ∧ pindexPrev.nHeight ≥ checkInputsHeight then
        reject 100 "bad-txns-in-belowout"
      else if toInt64 (nValueIn - nValueOut) < 0 ∧ pindexPrev.nHeight ≥ checkInputsHeight then
        reject 100 "bad-txns-fee-negative"
      else if params.moneyRange (toInt64 (nValueIn - nValueOut)) = false ∧
          pindexPrev.nHeight ≥ checkInputsHeight then
        reject 100 "bad-txns-fee-outofrange"
      else .ok ()

def scriptChecks (tx : CTransaction) (inputs : FlatCoins) (flags : ScriptFlags) :
    List CScriptCheck :=
  tx.vin.zipIdx.map fun entry =>
    { scriptPubKey :=
        match (inputs.coins entry.1.prevout.hash).vout[entry.1.prevout.n]? with
        | some txout => txout.scriptPubKey
        | none => []
      ptxTo := tx
      nIn := entry.2
      nFlags := flags }

/-- A script check made at once, when there are no check threads. -/
def runCheck (prim : Primitives) (check : CScriptCheck) : Checked Unit :=
  if check.passes prim then .ok ()
  else if check.nFlags.hasStandardNotMandatory &&
      { check with nFlags := check.nFlags.withoutStandardNotMandatory : CScriptCheck }.passes prim
  then .error (.dos 0 (some .nonstandard) "non-mandatory-script-verify-flag" false)
  else reject 100 "mandatory-script-verify-flag-failed"

/-- The second loop of `CheckInputs`: verify the scripts, or leave them to the threads. -/
def verifyScripts (node : Node) (fScriptChecks : Bool) (checks : List CScriptCheck) :
    Checked (List CScriptCheck) :=
  if !fScriptChecks then .ok []
  else if node.nScriptCheckThreads ≠ 0 then .ok checks
  else checks.forM (runCheck node.prim) >>= fun _ => .ok []

/-- `CheckInputs`; it returns the checks it leaves to the threads. -/
def checkInputs (node : Node) (tx : CTransaction) (inputs : FlatCoins) (fScriptChecks : Bool)
    (flags : ScriptFlags) : Checked (List CScriptCheck) :=
  match node.mapBlockIndex inputs.bestBlock with
  | none => .error .assertion
  | some pindexPrev =>
    if !tx.isCoinBase && decide (pindexPrev.nHeight ≥ checkInputsHeight) then
      if !inputs.haveInputs tx then .error (.dos 0 none "" false)
      else
        tx.vin.foldlM (checkInput node.params inputs (pindexPrev.nHeight + 1)) 0 >>= fun nValueIn =>
          checkFee node.params pindexPrev tx nValueIn >>= fun _ =>
            verifyScripts node fScriptChecks (scriptChecks tx inputs flags)
    else .ok []

/-! ## The loop over the transactions -/

/-- What stays the same over the transactions of a block. -/
structure BlockRules where
  nHeight : Int
  fScriptChecks : Bool
  flags : ScriptFlags

structure ConnectState where
  view : FlatCoins
  nFees : Int := 0
  nSigOps : Nat := 0
  nValueOut : Int := 0
  nValueIn : Int := 0
  vtxundo : List CTxUndo := []
  vChecks : List CScriptCheck := []

/-- The signature operations with those of pay-to-script-hash inputs. -/
def addP2SHSigOps (node : Node) (rules : BlockRules) (tx : CTransaction) (state : ConnectState) :
    Nat :=
  if rules.flags.p2sh then state.nSigOps + node.prim.getP2SHSigOpCount tx state.view.getOutputFor
  else state.nSigOps

/-- The fees with those of a transaction; a coinstake has none. -/
def addFees (tx : CTransaction) (nIn nFees : Int) : Checked Int :=
  if tx.isCoinStake then .ok nFees
  else
    match tx.getValueOut with
    | none => .error (.exception "GetValueOut() : value out of range")
    | some nOut => .ok (toInt64 (nFees + toInt64 (nIn - nOut)))

/-- The part of the loop that coinbases skip. -/
def connectInputs (node : Node) (rules : BlockRules) (tx : CTransaction) (state : ConnectState) :
    Checked ConnectState :=
  if !state.view.haveInputs tx then reject 100 "bad-txns-inputs-missingorspent"
  else if rules.flags.p2sh && addP2SHSigOps node rules tx state > maxBlockSigOps then
    reject 100 "bad-blk-sigops"
  else
    match state.view.getValueIn tx with
    | none => .error .assertion
    | some nIn =>
      addFees tx nIn state.nFees >>= fun nFees =>
        checkInputs node tx state.view rules.fScriptChecks rules.flags >>= fun vChecks =>
          .ok { state with
                nSigOps := addP2SHSigOps node rules tx state
                nFees := nFees
                nValueIn := toInt64 (state.nValueIn + nIn)
                vChecks := state.vChecks ++ vChecks }

/-- The end of one iteration: value out, coins and undo data. -/
def applyTx (rules : BlockRules) (first : Bool) (tx : CTransaction) (state : ConnectState) :
    Checked ConnectState :=
  match tx.getValueOut with
  | none => .error (.exception "GetValueOut() : value out of range")
  | some nOut =>
    match updateCoins tx state.view rules.nHeight with
    | none => .error .assertion
    | some updated =>
      .ok { state with
            view := updated.1
            nValueOut := toInt64 (state.nValueOut + nOut)
            vtxundo := if first then state.vtxundo else state.vtxundo ++ [updated.2] }

/-- The checks of one iteration of the loop of `ConnectBlock`. -/
def checkTx (node : Node) (rules : BlockRules) (tx : CTransaction) (state : ConnectState) :
    Checked ConnectState :=
  let counted := { state with nSigOps := state.nSigOps + node.prim.getLegacySigOpCount tx }
  if counted.nSigOps > maxBlockSigOps then reject 100 "bad-blk-sigops"
  else if tx.isCoinBase then .ok counted
  else connectInputs node rules tx counted

/-- One iteration of the loop of `ConnectBlock`. -/
def connectTx (node : Node) (rules : BlockRules) (first : Bool) (tx : CTransaction)
    (state : ConnectState) : Checked ConnectState :=
  checkTx node rules tx state >>= applyTx rules first tx

def connectTxs (node : Node) (rules : BlockRules) :
    Bool → List CTransaction → ConnectState → Checked ConnectState
  | _, [], state => .ok state
  | first, tx :: rest, state =>
    match connectTx node rules first tx state with
    | .error failure => .error failure
    | .ok next => connectTxs node rules false rest next

/-! ## The spent outpoints of recent blocks -/

abbrev StakeSpent : Type := StdMap COutPoint Int

/-- The outpoints a block spends, coinbases apart. -/
def CBlock.spentOutpoints (block : CBlock) : List COutPoint :=
  (block.vtx.filter fun tx => !tx.isCoinBase).flatMap CTransaction.prevouts

/-- Add the outpoints of a block; an old entry stays. -/
def StakeSpent.add (mapStakeSpent : StakeSpent) (block : CBlock) (nHeight : Int) : StakeSpent :=
  mapStakeSpent.insertAll block.spentOutpoints nHeight

/-- Delete the entries that are too old to be reorganized. -/
def StakeSpent.deleteOld (mapStakeSpent : StakeSpent) (oldest : Int) : StakeSpent :=
  mapStakeSpent.keep fun _ height => decide (oldest ≤ height)

/-! ## `ConnectBlock` -/

structure Connected where
  view : FlatCoins
  pindex : CBlockIndex
  mapStakeSpent : StakeSpent

def blockRules (node : Node) (block : CBlock) (pindex : CBlockIndex)
    (ancestors : List CBlockIndex) : BlockRules where
  nHeight := pindex.nHeight
  fScriptChecks := pindex.nHeight ≥ node.params.totalBlocksEstimate
  flags :=
    { p2sh := pindex.nTime ≥ 1333238400
      dersig := block.nVersion ≥ 3 &&
        CBlockIndex.isSuperMajority node.params.toCheckBlockUpgradeMajority 3 ancestors
          node.params.enforceBlockUpgradeMajority }

/-- What `ConnectBlock` refuses before it looks at the transactions. -/
def connectPreliminary (node : Node) (block : CBlock) (pindex : CBlockIndex) (view : FlatCoins) :
    Checked Unit :=
  if pindex.nHeight ≤ node.params.lastPowBlock ∧ block.isProofOfStake = true then
    reject 100 "PoS-early"
  else if pindex.nHeight > node.params.lastPowBlock ∧ block.isProofOfWork = true then
    reject 100 "PoW-ended"
  -- BIP30 is enforced on the entry of `CreateNewBlock` only
  else if pindex.phashBlock = none ∧
      (block.vtx.any fun tx => !(view.coins tx.hash).isPruned) = true then
    reject 100 "bad-txns-BIP30"
  else .ok ()

/-- Write the undo data and raise the validity of the entry. -/
def recordUndo (disk : DiskWrites) (pindex : CBlockIndex) (blockundo : CBlockUndo) :
    Checked CBlockIndex :=
  if pindex.getUndo = none ∨ pindex.isValid .scripts = false then
    if pindex.getUndo = none then
      if !disk.findUndoPos then .error (.error "ConnectBlock() : FindUndoPos failed")
      else if !disk.writeUndo then .error (.abort "Failed to write undo data")
      else
        .ok (CBlockIndex.raiseValidity
          { pindex with
            undoData := blockundo
            nStatus := { pindex.nStatus with haveUndo := true } } .scripts)
    else .ok (pindex.raiseValidity .scripts)
  else .ok pindex

def recordMint (pindex pprev : CBlockIndex) (state : ConnectState) : CBlockIndex :=
  let nMoneySupply := toInt64 (pprev.nMoneySupply + state.nValueOut - state.nValueIn)
  { pindex with
    nMoneySupply := nMoneySupply
    nMint := toInt64 (nMoneySupply - pprev.nMoneySupply + state.nFees) }

/-- What a block may mint: proof of work gets the fees, proof of stake destroys them. -/
def expectedMint (node : Node) (tip pprev : CBlockIndex) (block : CBlock) (nFees : Int) :
    Int :=
  let nBlockValue := getBlockValue node.params tip pprev.nHeight
  if block.isProofOfWork then toInt64 (nBlockValue + nFees) else nBlockValue

/-- The end of `ConnectBlock`, after the loop: money supply, mint, script
checks, undo data and the map of spent outpoints. -/
def finishConnect (node : Node) (disk : DiskWrites) (block : CBlock) (pindex pprev : CBlockIndex)
    (mapStakeSpent : StakeSpent) (fJustCheck : Bool) (state : ConnectState) : Checked Connected :=
  let minted := recordMint pindex pprev state
  if !disk.writeBlockIndex then .error (.error "Connect() : WriteBlockIndex for pindex failed")
  else
    match node.tip with
    | none => .error .assertion
    | some tip =>
      if !isBlockValueValid node block (expectedMint node tip pprev block state.nFees) minted.nMint
      then reject 100 "bad-cb-amount"
      else if !state.vChecks.all (·.passes node.prim) then .error (.dos 100 none "" false)
      else if fJustCheck then .ok ⟨state.view, minted, mapStakeSpent⟩
      else
        match recordUndo disk minted { vtxundo := state.vtxundo } with
        | .error failure => .error failure
        | .ok recorded =>
          if node.fTxIndex && !disk.writeTxIndex then
            .error (.abort "Failed to write transaction index")
          else
            .ok { view := state.view.setBestBlock pindex.getBlockHash
                  pindex := recorded
                  mapStakeSpent :=
                    (mapStakeSpent.add block pindex.nHeight).deleteOld
                      (pindex.nHeight - node.params.maxReorganizationDepth) }

/-- The hash of the parent, zero where there is none. -/
def hashPrevBlock : List CBlockIndex → Uint256
  | [] => 0
  | pprev :: _ => pprev.getBlockHash

def connectBlock (node : Node) (disk : DiskWrites) (block : CBlock) (pindex : CBlockIndex)
    (ancestors : List CBlockIndex) (view : FlatCoins) (mapStakeSpent : StakeSpent)
    (fJustCheck fAlreadyChecked : Bool) : Checked Connected :=
  match if fAlreadyChecked then .ok () else checkBlock node block (!fJustCheck) with
  | .error failure => .error failure
  | .ok () =>
    if hashPrevBlock ancestors = view.bestBlock then
      if block.hash = node.params.hashGenesisBlock then
        .ok ⟨view.setBestBlock pindex.getBlockHash, pindex, mapStakeSpent⟩
      else
        match connectPreliminary node block pindex view with
        | .error failure => .error failure
        | .ok () =>
          match connectTxs node (blockRules node block pindex ancestors) true block.vtx
              { view := view } with
          | .error failure => .error failure
          | .ok state =>
            match ancestors.head? with
            | none => .error .assertion
            | some pprev =>
              finishConnect node disk block pindex pprev mapStakeSpent fJustCheck state
    else .error .assertion

/-! `DisconnectBlock` undoes the transactions in reverse order, each time the outputs first
and then the inputs. -/

structure Disconnected where
  view : FlatCoins
  fClean : Bool
  mapStakeSpent : StakeSpent

/-- Remove the outputs of a transaction, and whether they were those of the block. -/
def removeOutputs (view : FlatCoins) (tx : CTransaction) (nHeight : Int) : FlatCoins × Bool :=
  let outs := (view.coins tx.hash).clearUnspendable
  let outsBlock := CCoins.fromTx tx nHeight
  -- the serialization of coins does not keep negative versions
  let outs := if outsBlock.nVersion < 0 then { outs with nVersion := outsBlock.nVersion } else outs
  (view.modifyCoins tx.hash fun _ => CCoins.cleared, outs.same outsBlock)

/-- The record that an output is put back into: new metadata when undo data
contain a height, the record at hand otherwise. -/
def undoBase (coins : CCoins) (undo : CTxInUndo) : CCoins :=
  if undo.nHeight ≠ 0 then
    { CCoins.cleared with
      fCoinBase := undo.fCoinBase
      nHeight := undo.nHeight
      nVersion := undo.nVersion }
  else coins

/-- `vout[n] = txout`, after `vout` was made long enough. -/
def putOutput (vout : List CTxOut) (n : Nat) (txout : CTxOut) : List CTxOut :=
  Trim.putBack CTxOut.null vout n txout

/-- Put a spent output back, and whether it was missing as it should be. -/
def restoreInput (view : FlatCoins) (out : COutPoint) (undo : CTxInUndo) : FlatCoins × Bool :=
  let coins := view.coins out.hash
  let base := undoBase coins undo
  (view.modifyCoins out.hash fun _ => { base with vout := putOutput base.vout out.n undo.txout },
    (if undo.nHeight ≠ 0 then coins.isPruned else !coins.isPruned) && !base.isAvailable out.n)

def restoreInputs : List COutPoint → List CTxInUndo → Disconnected → Disconnected
  | out :: outs, undo :: undos, state =>
    let later := restoreInputs outs undos state
    let restored := restoreInput later.view out undo
    { view := restored.1
      fClean := later.fClean && restored.2
      mapStakeSpent := later.mapStakeSpent.erase out }
  | _, _, state => state

/-- One iteration of the loop of `DisconnectBlock`; the first transaction has no undo data. -/
def disconnectTx (nHeight : Int) (tx : CTransaction) (txundo : Option CTxUndo)
    (state : Disconnected) : Checked Disconnected :=
  let removed := removeOutputs state.view tx nHeight
  let state := { state with view := removed.1, fClean := state.fClean && removed.2 }
  if tx.isCoinBase then .ok state
  else
    match txundo with
    | none => .error .assertion
    | some txundo =>
      if txundo.vprevout.length ≠ tx.vin.length then
        .error (.error "DisconnectBlock() : transaction and undo data inconsistent")
      else .ok (restoreInputs tx.prevouts txundo.vprevout state)

def disconnectTxs (nHeight : Int) :
    List (CTransaction × Option CTxUndo) → Disconnected → Checked Disconnected
  | [], state => .ok state
  | (tx, txundo) :: rest, state =>
    disconnectTxs nHeight rest state >>= disconnectTx nHeight tx txundo

/-- The spent outpoints after that loop, and whether it came to its end.  The map is not
part of the view: what is erased before the loop stops stays erased. -/
def eraseSpent : List (CTransaction × Option CTxUndo) → StakeSpent → StakeSpent × Bool
  | [], mapStakeSpent => (mapStakeSpent, true)
  | (tx, txundo) :: rest, mapStakeSpent =>
    let later := eraseSpent rest mapStakeSpent
    if !later.2 || tx.isCoinBase then later
    else
      match txundo with
      | none => (later.1, false)
      | some txundo =>
        if txundo.vprevout.length ≠ tx.vin.length then (later.1, false)
        else (tx.prevouts.foldr (fun out erased => erased.erase out) later.1, true)

/-- `DisconnectBlock`; `readable` tells whether the undo file can be read. -/
def disconnectBlock (readable : Bool) (block : CBlock) (pindex pprev : CBlockIndex)
    (view : FlatCoins) (mapStakeSpent : StakeSpent) : Checked Disconnected :=
  if pindex.getBlockHash = view.bestBlock then
    match pindex.getUndo with
    | none => .error (.error "DisconnectBlock() : no undo data available")
    | some stored =>
      match if readable then stored.readBack else none with
      | none => .error (.error "DisconnectBlock() : failure reading undo data")
      | some blockUndo =>
        if blockUndo.vtxundo.length + 1 ≠ block.vtx.length then
          .error (.error "DisconnectBlock() : block and undo data inconsistent")
        else
          (disconnectTxs pindex.nHeight (block.vtx.zip (none :: blockUndo.vtxundo.map some))
            ⟨view, true, mapStakeSpent⟩).map fun state =>
              { state with view := state.view.setBestBlock pprev.getBlockHash }
  else .error .assertion

/-- The undo data with which `DisconnectBlock` enters its loop. -/
def undoFor (readable : Bool) (block : CBlock) (pindex : CBlockIndex) : Option CBlockUndo :=
  (pindex.getUndo.bind fun stored => if readable then stored.readBack else none).filter
    fun blockUndo => blockUndo.vtxundo.length + 1 = block.vtx.length

/-- `mapStakeSpent` after `DisconnectBlock` returned, with whatever result. -/
def spentAfterDisconnect (readable : Bool) (block : CBlock) (pindex : CBlockIndex)
    (mapStakeSpent : StakeSpent) : StakeSpent :=
  match undoFor readable block pindex with
  | none => mapStakeSpent
  | some blockUndo =>
    (eraseSpent (block.vtx.zip (none :: blockUndo.vtxundo.map some)) mapStakeSpent).1

/-! ## The spent outpoints -/

theorem restoreInputs_spent {outs : List COutPoint} {undos : List CTxInUndo}
    (sameLength : undos.length = outs.length) (state : Disconnected) :
    (restoreInputs outs undos state).mapStakeSpent =
      outs.foldr (fun out erased => erased.erase out) state.mapStakeSpent := by
  induction outs generalizing undos with
  | nil => cases undos <;> rfl
  | cons out rest ih =>
    cases undos with
    | nil => cases sameLength
    | cons undo later => rw [restoreInputs, List.foldr_cons, ← ih (Nat.succ.inj sameLength)]

theorem eraseSpent_of_disconnectTxs {nHeight : Int} {txs : List (CTransaction × Option CTxUndo)}
    {state final : Disconnected} (looped : disconnectTxs nHeight txs state = .ok final) :
    eraseSpent txs state.mapStakeSpent = (final.mapStakeSpent, true) := by
  induction txs generalizing final with
  | nil =>
    cases looped
    rfl
  | cons head rest ih =>
    obtain ⟨tx, txundo⟩ := head
    rw [disconnectTxs] at looped
    cases before : disconnectTxs nHeight rest state with
    | error failure =>
      rw [before] at looped
      cases looped
    | ok middle =>
      rw [before] at looped
      replace looped : disconnectTx nHeight tx txundo middle = .ok final := looped
      simp only [eraseSpent, ih before]
      unfold disconnectTx at looped
      by_cases coinbase : tx.isCoinBase = true
      · simp only [coinbase, if_true] at looped
        cases looped
        simp [coinbase]
      · dsimp only at looped
        rw [if_neg coinbase] at looped
        cases txundo with
        | none => cases looped
        | some txundo =>
          dsimp only at looped
          by_cases lengths : txundo.vprevout.length = tx.vin.length
          · rw [if_neg (not_not.mpr lengths)] at looped
            cases looped
            have sameLength : txundo.vprevout.length = tx.prevouts.length := by
              rw [CTransaction.prevouts, List.length_map, lengths]
            simp [coinbase, lengths, restoreInputs_spent sameLength]
          · rw [if_pos lengths] at looped
            cases looped

structure DisconnectSteps (readable : Bool) (block : CBlock) (pindex pprev : CBlockIndex)
    (view : FlatCoins) (mapStakeSpent : StakeSpent) (undone : Disconnected)
    (stored blockUndo : CBlockUndo) (final : Disconnected) : Prop where
  undo : pindex.getUndo = some stored
  read : (if readable then stored.readBack else none) = some blockUndo
  sizes : blockUndo.vtxundo.length + 1 = block.vtx.length
  looped : disconnectTxs pindex.nHeight (block.vtx.zip (none :: blockUndo.vtxundo.map some))
    ⟨view, true, mapStakeSpent⟩ = .ok final
  undone_eq : undone = { final with view := final.view.setBestBlock pprev.getBlockHash }

variable {readable : Bool} {block : CBlock} {pindex pprev : CBlockIndex} {view : FlatCoins}
  {mapStakeSpent : StakeSpent} {undone : Disconnected}

section

variable (ran : disconnectBlock readable block pindex pprev view mapStakeSpent = .ok undone)

include ran

theorem disconnectSteps_of_ok :
    ∃ stored blockUndo final, DisconnectSteps readable block pindex pprev view mapStakeSpent undone
      stored blockUndo final := by
  unfold disconnectBlock at ran
  by_cases onTip : pindex.getBlockHash = view.bestBlock
  swap
  · rw [if_neg onTip] at ran
    cases ran
  rw [if_pos onTip] at ran
  cases stored : pindex.getUndo with
  | none =>
    rw [stored] at ran
    cases ran
  | some undo =>
    rw [stored] at ran
    dsimp only at ran
    split at ran
    · cases ran
    next blockUndo read =>
    split at ran
    · cases ran
    next sizes =>
    cases looped : disconnectTxs pindex.nHeight
        (block.vtx.zip (none :: blockUndo.vtxundo.map some)) ⟨view, true, mapStakeSpent⟩ with
    | error failure =>
      rw [looped] at ran
      cases ran
    | ok final =>
      rw [looped] at ran
      cases ran
      exact ⟨undo, blockUndo, final, stored, read, not_not.mp sizes, looped, rfl⟩

theorem undoFor_of_disconnectBlock :
    ∃ blockUndo, undoFor readable block pindex = some blockUndo ∧
      eraseSpent (block.vtx.zip (none :: blockUndo.vtxundo.map some)) mapStakeSpent =
        (undone.mapStakeSpent, true) := by
  obtain ⟨stored, blockUndo, final, steps⟩ := disconnectSteps_of_ok ran
  refine ⟨blockUndo, ?_, ?_⟩
  · rw [undoFor, steps.undo, Option.bind_some, steps.read, Option.filter_some,
      if_pos (decide_eq_true steps.sizes)]
  · rw [steps.undone_eq]
    exact eraseSpent_of_disconnectTxs steps.looped

theorem disconnectBlock_bestBlock :
    undone.view.bestBlock = pprev.getBlockHash := by
  obtain ⟨stored, blockUndo, final, steps⟩ := disconnectSteps_of_ok ran
  rw [steps.undone_eq]
  rfl

end

end CentNode
