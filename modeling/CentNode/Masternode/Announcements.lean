import CentNode.Masternode.Collateral

/-!
# Announcements dropped as already seen

`ProcessMessage` records a broadcast before it looks at it, under the hash of
its signing time and its collateral key, and takes the record back on some of
the paths that reject it.  A broadcast that would be added is dropped exactly if
its hash is recorded.
-/

namespace CentNode

namespace MnContext

variable {context : MnContext} {state : MnState} {mnb : CMasternodeBroadcast}

/-- The broadcast is the node's own, of the masternode it already runs. -/
def isOwn (context : MnContext) (mnb : CMasternodeBroadcast) : Bool :=
  context.fMasterNode && mnb.vin.prevout = context.activeVin.prevout &&
    mnb.pubKeyMasternode = context.activePubKey

/-- The checks of `CheckInputsAndAdd` below the search of the list. -/
structure InputsPass (context : MnContext) (mnb : CMasternodeBroadcast) : Prop where
  locked : context.lockMain mnb.vin = true
  acceptable : context.pool.acceptableInputs (context.collateralTx mnb.vin) = .ok ()
  confirmed : ∃ age, context.pool.getInputAge mnb.vin = some age ∧ masternodeMinConfirmations ≤ age
  signedLater : context.signedTooEarly mnb = some false

/-- On a synced node, a broadcast of a masternode that is not in the list
passes the three checks of `ProcessMessage`. -/
structure Announces (context : MnContext) (state : MnState) (mnb : CMasternodeBroadcast) :
    Prop where
  synced : (context.fLiteMode || !context.blockchainSynced) = false
  missing : state.man.find mnb.vin = none
  checked : (context.checkAndUpdate state mnb).1 = true
  associated : context.isVinAssociatedWithPubkey mnb.vin mnb.pubKeyCollateralAddress = true
  inputs : context.isOwn mnb = true ∨ context.InputsPass mnb

/-- The broadcast is processed and its masternode is in the list afterwards. -/
def Lists (context : MnContext) (state : MnState) (mnb : CMasternodeBroadcast) : Prop :=
  ∃ outcome, context.processMnb state mnb = some outcome ∧
    (outcome.state.man.find mnb.vin).isSome = true

def recorded (context : MnContext) (state : MnState) (mnb : CMasternodeBroadcast) : Bool :=
  (state.mapSeenMasternodeBroadcast.lookup
    (context.broadcastHash mnb.sigTime mnb.pubKeyCollateralAddress)).isSome

/-- For a masternode that is not in the list, `CheckAndUpdate` changes nothing. -/
theorem checkAndUpdate_missing (missing : state.man.find mnb.vin = none)
    (checked : (context.checkAndUpdate state mnb).1 = true) :
    context.checkAndUpdate (context.remember state mnb) mnb =
      (true, 0, context.remember state mnb) := by
  have missingToo : (context.remember state mnb).man.find mnb.vin = none := missing
  unfold checkAndUpdate at checked ⊢
  -- none of the six refusals looks at the state
  iterate 6
    split at checked
    · cases checked
    rename_i passed
    rw [if_neg passed]
    clear passed
  rw [missingToo]

theorem find_add {man : CMasternodeMan} (missing : man.find mnb.vin = none) :
    ((man.add mnb.toMasternode).find mnb.vin).isSome = true := by
  have adds : man.adds mnb.toMasternode = true := by
    have missingToo : man.find mnb.toMasternode.vin = none := missing
    rw [CMasternodeMan.adds, missingToo]
    rfl
  have listed : mnb.toMasternode ∈ (man.add mnb.toMasternode).vMasternodes := by
    rw [CMasternodeMan.add, dif_pos adds]
    exact List.mem_append_right _ List.mem_cons_self
  have found : (man.add mnb.toMasternode).find mnb.vin = some mnb.toMasternode :=
    CMasternodeMan.find_eq_some_iff.mpr ⟨listed, rfl⟩
  rw [found]
  rfl

theorem checkInputsAndAddNew_missing (missing : state.man.find mnb.vin = none)
    (inputs : context.InputsPass mnb) :
    ∃ outcome, context.checkInputsAndAddNew state mnb = some outcome ∧
      (outcome.state.man.find mnb.vin).isSome = true := by
  obtain ⟨age, aged, old⟩ := inputs.confirmed
  unfold checkInputsAndAddNew
  rw [inputs.locked, Bool.not_true, if_neg (by decide), inputs.acceptable]
  dsimp only
  unfold addMasternode
  rw [aged, Option.bind_eq_bind, Option.bind_some, if_neg (Int.not_lt.mpr old),
    inputs.signedLater, Option.bind_eq_bind, Option.bind_some, if_neg (by decide)]
  exact ⟨_, rfl, find_add missing⟩

/-- A masternode that is not in the list is in it after `CheckInputsAndAdd`,
unless it is the node's own. -/
theorem checkInputsAndAdd_lists_iff (missing : state.man.find mnb.vin = none)
    (inputs : context.isOwn mnb = true ∨ context.InputsPass mnb) :
    (∃ outcome, context.checkInputsAndAdd state mnb = some outcome ∧
      (outcome.state.man.find mnb.vin).isSome = true) ↔ context.isOwn mnb = false := by
  have asked : context.checkInputsAndAdd state mnb =
      if context.isOwn mnb then some { state := state }
      else context.checkInputsAndAddNew state mnb := by
    unfold checkInputsAndAdd
    rw [missing]
    rfl
  rw [asked]
  cases own : context.isOwn mnb with
  | true =>
    rw [if_pos rfl]
    refine iff_of_false ?_ (by decide)
    rintro ⟨outcome, done, listed⟩
    cases done
    rw [missing] at listed
    cases listed
  | false =>
    rw [if_neg (by decide)]
    rcases inputs with isOwn | pass
    · cases own.symm.trans isOwn
    · exact iff_of_true (checkInputsAndAddNew_missing missing pass) rfl

theorem lists_iff (announces : context.Announces state mnb) :
    context.Lists state mnb ↔ context.recorded state mnb = false ∧ context.isOwn mnb = false := by
  unfold Lists processMnb
  dsimp only
  rw [announces.synced, if_neg (by decide)]
  change (∃ outcome, (if context.recorded state mnb then _ else _) = some outcome ∧ _) ↔ _
  cases context.recorded state mnb with
  | true =>
    rw [if_pos rfl]
    refine iff_of_false ?_ (fun both => by cases both.1)
    rintro ⟨outcome, done, listed⟩
    cases done
    rw [announces.missing] at listed
    cases listed
  | false =>
    have missing : (context.remember state mnb).man.find mnb.vin = none := announces.missing
    rw [if_neg (by decide), checkAndUpdate_missing announces.missing announces.checked]
    dsimp only
    rw [Bool.not_true, if_neg (by decide), announces.associated, Bool.not_true,
      if_neg (by decide)]
    rw [checkInputsAndAdd_lists_iff missing announces.inputs]
    exact (and_iff_right rfl).symm

end MnContext

/-! ## Runs -/

namespace MnRun

/-- A valid announcement of a masternode that is not in the list gets it into the list. -/
def NotSuppressed (run : MnRun) : MnInput → Prop
  | .mnb context mnb => context.Announces run.state mnb → context.Lists run.state mnb
  | .elsewhere _ => True

/-- A valid announcement is not the node's own, and no broadcast with its
signing time and collateral key is recorded. -/
def Unrecorded (run : MnRun) : MnInput → Prop
  | .mnb context mnb =>
    context.Announces run.state mnb →
      context.recorded run.state mnb = false ∧ context.isOwn mnb = false
  | .elsewhere _ => True

/-- In a run of broadcasts no valid announcement is suppressed exactly if each
of them meets no record of its signing time and collateral key and is not the
node's own. -/
theorem notSuppressed_iff (start : MnRun) (inputs : List MnInput) :
    Runs.Meets step NotSuppressed start inputs ↔ Runs.Meets step Unrecorded start inputs := by
  apply Runs.meets_congr
  intro run input
  cases input with
  | mnb context mnb => exact forall_congr' fun announces => MnContext.lists_iff announces
  | elsewhere state => exact Iff.rfl

end MnRun

/-! ## A forged broadcast before the genuine one -/

namespace CollateralSample

/-- Only the genuine broadcast is signed. -/
def strict : MnContext := { context with broadcastSigned := fun mnb => mnb.sig = [1] }

def forged : CMasternodeBroadcast := broadcast 0

def genuine : CMasternodeBroadcast := { broadcast 0 with sig := [1] }

theorem genuine_inputs : strict.InputsPass genuine :=
  ⟨by decide +kernel, by decide +kernel, ⟨_, rfl, by decide +kernel⟩, by decide +kernel⟩

end CollateralSample

open CollateralSample in
/-- The forged broadcast is rejected, and keeps the genuine one out. -/
theorem MnRun.forged_suppresses :
    ((MnRun.step {} (.mnb strict forged)).map fun run => run.state.man.vMasternodes) = some [] ∧
      ¬ Runs.Meets MnRun.step MnRun.NotSuppressed {} [.mnb strict forged, .mnb strict genuine] := by
  have rejected : MnRun.step {} (.mnb strict forged) =
      some { state := strict.remember {} forged, additions := [] } := by rfl
  refine ⟨congrArg (Option.map fun run : MnRun => run.state.man.vMasternodes) rejected, ?_⟩
  intro along
  have announces : strict.Announces (strict.remember {} forged) genuine :=
    ⟨rfl, by decide +kernel, by decide +kernel, by decide +kernel, Or.inr genuine_inputs⟩
  obtain ⟨outcome, done, listed⟩ := (along.2 _ rejected).1 announces
  have dropped : strict.processMnb (strict.remember {} forged) genuine =
      some { state := strict.remember {} forged } := by rfl
  cases dropped.symm.trans done
  revert listed
  decide +kernel

end CentNode
