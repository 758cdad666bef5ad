import CentNode.Masternode.MasternodeList
import CentNode.Validation.MemoryPool

/-!
# Masternode broadcasts

The message `mnb` of `CMasternodeMan::ProcessMessage` with the functions of
`masternode.cpp` and `masternode-helpers.cpp` that it goes through.  `none` is
a null pointer that the source follows.
-/

namespace CentNode

/-- `MASTERNODE_COLLATERAL`, in coins. -/
def masternodeCollateral : Int := 200

def masternodeMinConfirmations : Int := 3

def masternodeMinMnbSeconds : Int := 15 * 60

def masternodeMinMnpSeconds : Int := 30 * 60

abbrev CKeyID : Type := { bytes : List UInt8 // bytes.length = 20 }

def getScriptForDestination (keyID : CKeyID) : CScript :=
  [opDup, opHash160, 20] ++ keyID.val ++ [opEqualverify, opChecksig]

/-- `CMasternodeBroadcast`, as it is read from a message. -/
structure CMasternodeBroadcast where
  vin : CTxIn
  addr : List UInt8 := []
  pubKeyCollateralAddress : CPubKey
  pubKeyMasternode : CPubKey
  sig : List UInt8 := []
  sigTime : Int
  protocolVersion : Int
  lastPing : CMasternodePing := {}
  deriving DecidableEq, Repr

/-- `CMasternode(mnb)`. -/
def CMasternodeBroadcast.toMasternode (mnb : CMasternodeBroadcast) : CMasternode where
  vin := mnb.vin
  addr := mnb.addr
  pubKeyCollateralAddress := mnb.pubKeyCollateralAddress
  pubKeyMasternode := mnb.pubKeyMasternode
  sig := mnb.sig
  sigTime := mnb.sigTime
  protocolVersion := mnb.protocolVersion
  lastPing := mnb.lastPing

def CMasternode.pinged (ping : CMasternodePing) (mn : CMasternode) : CMasternode :=
  { mn with lastPing := ping }

/-- What `UpdateFromNewBroadcast` takes over before it looks at the ping. -/
def CMasternodeBroadcast.renew (mnb : CMasternodeBroadcast) (mn : CMasternode) : CMasternode :=
  { mn with
    pubKeyMasternode := mnb.pubKeyMasternode
    pubKeyCollateralAddress := mnb.pubKeyCollateralAddress
    sigTime := mnb.sigTime
    sig := mnb.sig
    protocolVersion := mnb.protocolVersion
    addr := mnb.addr
    lastTimeChecked := 0 }

/-- What the messages of masternodes take from the rest of the node. -/
structure MnContext where
  pool : PoolContext
  fLiteMode : Bool := false
  blockchainSynced : Bool := true
  shutdownRequested : Bool := false
  getTime : Int
  /-- `TRY_LOCK` of `cs_main` while this input is looked at. -/
  lockMain : CTxIn → Bool := fun _ => true
  /-- `masternodeSigner.collateralPubKey`. -/
  collateralPubKey : CScript
  /-- The hash of a transaction with these inputs and outputs. -/
  hashOf : List CTxIn → List CTxOut → Uint256
  /-- `CPubKey::GetID`. -/
  getID : CPubKey → CKeyID
  /-- `VerifyMessage` by the collateral key, of the address, the time, the keys and the version. -/
  broadcastSigned : CMasternodeBroadcast → Bool
  /-- `VerifyMessage` of a ping by a masternode key. -/
  pingSigned : CPubKey → CMasternodePing → Bool
  /-- `CMasternodeBroadcast::GetHash`, of the time and the collateral key. -/
  broadcastHash : Int → CPubKey → Uint256
  /-- `GetMinMasternodePaymentsProto`. -/
  minPaymentsProto : Int
  fMasterNode : Bool := false
  /-- `activeMasternode`: its input and key. -/
  activeVin : CTxIn := { prevout := COutPoint.null }
  activePubKey : CPubKey := []

/-- The list of masternodes and the broadcasts seen. -/
structure MnState where
  man : CMasternodeMan := {}
  mapSeenMasternodeBroadcast : StdMap Uint256 CMasternodeBroadcast := ∅

namespace MnContext

variable (context : MnContext)

def adjustedTime : Int := context.pool.node.adjustedTime

def height : Int :=
  match context.pool.node.tip with
  | none => -1
  | some tip => tip.nHeight

/-- The transaction that spends a collateral, with an output a hundredth of a coin smaller. -/
def collateralTx (vin : CTxIn) : CTransaction :=
  let vout : List CTxOut := [⟨masternodeCollateral * coin - coin / 100, context.collateralPubKey⟩]
  { hash := context.hashOf [vin] vout, vin := [vin], vout := vout }

def checkContext : CheckContext where
  shutdownRequested := context.shutdownRequested
  getTime := context.getTime
  getAdjustedTime := context.adjustedTime
  lockMain := context.lockMain
  acceptableInputs := fun vin =>
    match context.pool.acceptableInputs (context.collateralTx vin) with
    | .ok _ => true
    | .error _ => false

/-- An output of the collateral amount that pays to the hash of a key. -/
def isCollateral (pubkey : CPubKey) (out : CTxOut) : Bool :=
  out.nValue = masternodeCollateral * coin &&
    out.scriptPubKey = getScriptForDestination (context.getID pubkey)

def isVinAssociatedWithPubkey (vin : CTxIn) (pubkey : CPubKey) : Bool :=
  match context.pool.getTransaction vin.prevout.hash with
  | none => false
  | some (txVin, _) => txVin.vout.any (context.isCollateral pubkey)

/-- The last checks of a ping and what it changes, when its masternode is found. -/
def acceptPing (state : MnState) (pmn : CMasternode) (ping : CMasternodePing) : Bool × MnState :=
  if !context.pingSigned pmn.pubKeyMasternode ping then (false, state)
  else
    match context.pool.node.mapBlockIndex ping.blockHash with
    | none => (false, state)
    | some pindex =>
      if pindex.nHeight < context.height - 24 then (false, state)
      else
        let hash := context.broadcastHash pmn.sigTime pmn.pubKeyCollateralAddress
        (((pmn.pinged ping).check context.checkContext true).isEnabled,
          { man := state.man.updateAt ping.vin
              (fun mn => (mn.pinged ping).check context.checkContext true)
              (fun mn => CMasternode.check_vin _ (mn.pinged ping) true)
            mapSeenMasternodeBroadcast :=
              match state.mapSeenMasternodeBroadcast.lookup hash with
              | none => state.mapSeenMasternodeBroadcast
              | some mnb =>
                state.mapSeenMasternodeBroadcast.insert hash { mnb with lastPing := ping } })

def checkAndUpdatePing (state : MnState) (ping : CMasternodePing) (fRequireEnabled : Bool) :
    Bool × MnState :=
  if ping.sigTime > context.adjustedTime + 60 * 60 then (false, state)
  else if ping.sigTime ≤ context.adjustedTime - 60 * 60 then (false, state)
  else
    match state.man.find ping.vin with
    | none => (false, state)
    | some pmn =>
      if pmn.protocolVersion < context.minPaymentsProto then (false, state)
      else if fRequireEnabled && !pmn.isEnabled then (false, state)
      else if pmn.isPingedWithin (masternodeMinMnpSeconds - 60) ping.sigTime then (false, state)
      else context.acceptPing state pmn ping

def broadcastPing (state : MnState) (mnb : CMasternodeBroadcast) : Bool × MnState :=
  if mnb.lastPing.same {} then (true, state)
  else context.checkAndUpdatePing state mnb.lastPing false

/-- The ping that comes with a broadcast is taken over when it passes. -/
def takePing (state : MnState) (mnb : CMasternodeBroadcast) : MnState :=
  let ping := context.broadcastPing state mnb
  if ping.1 then
    { ping.2 with
      man := ping.2.man.updateAt mnb.vin (CMasternode.pinged mnb.lastPing) (fun _ => rfl) }
  else ping.2

/-- `CMasternode::UpdateFromNewBroadcast` on the masternode with the input of the broadcast. -/
def updateFromNewBroadcast (state : MnState) (pmn : CMasternode) (mnb : CMasternodeBroadcast) :
    Bool × MnState :=
  if mnb.sigTime > pmn.sigTime then
    (true, context.takePing
      { state with man := state.man.updateAt mnb.vin mnb.renew (fun _ => rfl) } mnb)
  else (false, state)

/-- `CMasternodeBroadcast::CheckAndUpdate`: whether it passed, the penalty, and
the list after it. -/
def checkAndUpdate (state : MnState) (mnb : CMasternodeBroadcast) : Bool × Int × MnState :=
  if mnb.sigTime > context.adjustedTime + 60 * 60 then (false, 1, state)
  else if mnb.protocolVersion < context.minPaymentsProto then (false, 0, state)
  else if (getScriptForDestination (context.getID mnb.pubKeyCollateralAddress)).length ≠ 25 then
    (false, 100, state)
  else if (getScriptForDestination (context.getID mnb.pubKeyMasternode)).length ≠ 25 then
    (false, 100, state)
  else if !mnb.vin.scriptSig.isEmpty then (false, 0, state)
  else if !context.broadcastSigned mnb then (false, 100, state)
  else
    match state.man.find mnb.vin with
    | none => (true, 0, state)
    | some pmn =>
      if pmn.sigTime > mnb.sigTime then (false, 0, state)
      else if !pmn.isEnabled then (true, 0, state)
      else if pmn.pubKeyCollateralAddress = mnb.pubKeyCollateralAddress &&
          !pmn.isBroadcastedWithin context.adjustedTime masternodeMinMnbSeconds then
        let updated := context.updateFromNewBroadcast state pmn mnb
        (true, 0,
          if updated.1 then
            { updated.2 with
              man := updated.2.man.updateAt mnb.vin
                (fun mn => mn.check context.checkContext false)
                (fun mn => CMasternode.check_vin _ mn false) }
          else updated.2)
      else (true, 0, state)

end MnContext

/-- What a broadcast leads to: the penalty of the peer, the list, and the
masternode that `Add` appended. -/
structure MnOutcome where
  nDoS : Int := 0
  state : MnState
  added : Option CMasternode := none

namespace MnContext

variable (context : MnContext)

def remember (state : MnState) (mnb : CMasternodeBroadcast) : MnState :=
  { state with
    mapSeenMasternodeBroadcast := state.mapSeenMasternodeBroadcast.insert
      (context.broadcastHash mnb.sigTime mnb.pubKeyCollateralAddress) mnb }

/-- Let the broadcast be checked again later. -/
def forget (state : MnState) (mnb : CMasternodeBroadcast) : MnState :=
  { state with
    mapSeenMasternodeBroadcast := state.mapSeenMasternodeBroadcast.erase
      (context.broadcastHash mnb.sigTime mnb.pubKeyCollateralAddress) }

/-- The signature is older than the block that confirmed the collateral; `none`
when that block is not on the active chain. -/
def signedTooEarly (mnb : CMasternodeBroadcast) : Option Bool :=
  let hashBlock := ((context.pool.getTransaction mnb.vin.prevout.hash).map (·.2)).getD 0
  match context.pool.node.mapBlockIndex hashBlock with
  | none => some false
  | some pMNIndex =>
    (context.pool.chainActive (pMNIndex.nHeight + masternodeMinConfirmations - 1)).map
      fun pConfIndex => (pConfIndex.nTime : Int) > mnb.sigTime

/-- The part of `CheckInputsAndAdd` below the inputs. -/
def addMasternode (state : MnState) (mnb : CMasternodeBroadcast) : Option MnOutcome := do
  let age ← context.pool.getInputAge mnb.vin
  if age < masternodeMinConfirmations then pure { state := context.forget state mnb }
  else
    let early ← context.signedTooEarly mnb
    if early then pure { state := state }
    else
      let mn := mnb.toMasternode
      pure
        { state := { state with man := state.man.add mn }
          added := if state.man.adds mn then some mn else none }

/-- `CMasternodeBroadcast::CheckInputsAndAdd` after the search of the list. -/
def checkInputsAndAddNew (state : MnState) (mnb : CMasternodeBroadcast) : Option MnOutcome :=
  if !context.lockMain mnb.vin then some { state := context.forget state mnb }
  else
    match context.pool.acceptableInputs (context.collateralTx mnb.vin) with
    | .error (.dos level _ _ _) => some { nDoS := level, state := state }
    | .error .assertion => none
    | .error _ => some { state := state }
    | .ok _ => context.addMasternode state mnb

def checkInputsAndAdd (state : MnState) (mnb : CMasternodeBroadcast) : Option MnOutcome :=
  if context.fMasterNode && mnb.vin.prevout = context.activeVin.prevout &&
      mnb.pubKeyMasternode = context.activePubKey then
    some { state := state }
  else
    match state.man.find mnb.vin with
    | none => context.checkInputsAndAddNew state mnb
    | some pmn =>
      if pmn.isEnabled then some { state := state }
      else context.checkInputsAndAddNew { state with man := state.man.remove pmn.vin } mnb

/-- `CMasternodeMan::ProcessMessage` on `mnb`. -/
def processMnb (state : MnState) (mnb : CMasternodeBroadcast) : Option MnOutcome :=
  let hash := context.broadcastHash mnb.sigTime mnb.pubKeyCollateralAddress
  if context.fLiteMode || !context.blockchainSynced then some { state := state }
  else if (state.mapSeenMasternodeBroadcast.lookup hash).isSome then some { state := state }
  else
    let result := context.checkAndUpdate (context.remember state mnb) mnb
    if !result.1 then some { nDoS := result.2.1, state := result.2.2 }
    else if !context.isVinAssociatedWithPubkey mnb.vin mnb.pubKeyCollateralAddress then
      some { nDoS := 33, state := result.2.2 }
    else context.checkInputsAndAdd result.2.2 mnb

end MnContext

end CentNode
