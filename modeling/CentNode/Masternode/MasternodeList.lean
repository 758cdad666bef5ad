import CentNode.Primitives.Transaction
import Mathlib.Data.List.Nodup

/-!
# The list of masternodes

`CMasternode` and `CMasternodePing` of `masternode.h`, and the list that
`CMasternodeMan` keeps: no two of its masternodes have the same collateral
outpoint.
-/

namespace CentNode

/-- `CPubKey`, as its bytes. -/
abbrev CPubKey : Type := List UInt8

/-- `CMasternode::state`. -/
inductive MasternodeState where
  | preEnabled
  | enabled
  | expired
  | outpointSpent
  | remove
  | watchdogExpired
  | poseBan
  | vinSpent
  | posError
  deriving DecidableEq, Repr

def masternodeCheckSeconds : Int := 30

def masternodeExpirationSeconds : Int := 120 * 60

def masternodeRemovalSeconds : Int := 135 * 60

structure CMasternodePing where
  vin : CTxIn := { prevout := COutPoint.null }
  blockHash : Uint256 := 0
  sigTime : Int := 0
  vchSig : List UInt8 := []
  deriving DecidableEq, Repr

/-- `operator==` leaves the time and the signature aside. -/
def CMasternodePing.same (left right : CMasternodePing) : Bool :=
  left.vin = right.vin && left.blockHash = right.blockHash

structure CMasternode where
  vin : CTxIn
  addr : List UInt8 := []
  pubKeyCollateralAddress : CPubKey := []
  pubKeyMasternode : CPubKey := []
  sig : List UInt8 := []
  activeState : MasternodeState := .enabled
  sigTime : Int
  unitTest : Bool := false
  protocolVersion : Int
  lastPing : CMasternodePing := {}
  lastTimeChecked : Int := 0
  deriving DecidableEq, Repr

/-- What the check of a masternode takes from the rest of the node. -/
structure CheckContext where
  shutdownRequested : Bool := false
  getTime : Int
  getAdjustedTime : Int
  /-- `TRY_LOCK` of `cs_main`, in the check of the masternode with this input. -/
  lockMain : CTxIn → Bool := fun _ => true
  /-- `AcceptableInputs` on a transaction that spends this input. -/
  acceptableInputs : CTxIn → Bool

namespace CMasternode

def isEnabled (mn : CMasternode) : Bool := mn.activeState = .enabled

def isBroadcastedWithin (mn : CMasternode) (adjustedTime seconds : Int) : Bool :=
  toInt64 (adjustedTime - mn.sigTime) < seconds

def isPingedWithin (mn : CMasternode) (seconds now : Int) : Bool :=
  !mn.lastPing.same {} && decide (toInt64 (now - mn.lastPing.sigTime) < seconds)

def check (context : CheckContext) (mn : CMasternode) (forceCheck : Bool) : CMasternode :=
  if context.shutdownRequested then mn
  else if !forceCheck && decide (context.getTime - mn.lastTimeChecked < masternodeCheckSeconds) then
    mn
  else
    let checked := { mn with lastTimeChecked := context.getTime }
    -- once spent, stop doing the checks
    if mn.activeState = .vinSpent then checked
    else if !mn.isPingedWithin masternodeRemovalSeconds context.getAdjustedTime then
      { checked with activeState := .remove }
    else if !mn.isPingedWithin masternodeExpirationSeconds context.getAdjustedTime then
      { checked with activeState := .expired }
    else if !mn.unitTest && !context.lockMain mn.vin then checked
    else if !mn.unitTest && !context.acceptableInputs mn.vin then
      { checked with activeState := .vinSpent }
    else { checked with activeState := .enabled }

variable (context : CheckContext) (mn : CMasternode) (forceCheck : Bool)

theorem check_shape :
    ∃ state time, mn.check context forceCheck =
      { mn with activeState := state, lastTimeChecked := time } := by
  unfold check
  split
  · exact ⟨mn.activeState, mn.lastTimeChecked, rfl⟩
  split
  · exact ⟨mn.activeState, mn.lastTimeChecked, rfl⟩
  dsimp only
  split
  · exact ⟨mn.activeState, context.getTime, rfl⟩
  split
  · exact ⟨.remove, context.getTime, rfl⟩
  split
  · exact ⟨.expired, context.getTime, rfl⟩
  split
  · exact ⟨mn.activeState, context.getTime, rfl⟩
  split
  · exact ⟨.vinSpent, context.getTime, rfl⟩
  · exact ⟨.enabled, context.getTime, rfl⟩

@[simp]
theorem check_vin : (mn.check context forceCheck).vin = mn.vin := by
  obtain ⟨state, time, shape⟩ := mn.check_shape context forceCheck
  rw [shape]

@[simp]
theorem check_protocolVersion :
    (mn.check context forceCheck).protocolVersion = mn.protocolVersion := by
  obtain ⟨state, time, shape⟩ := mn.check_shape context forceCheck
  rw [shape]

theorem check_of_recent {context : CheckContext} {mn : CMasternode}
    (recent : context.getTime - mn.lastTimeChecked < masternodeCheckSeconds) :
    mn.check context false = mn := by
  unfold check
  split
  · rfl
  · rw [if_pos (by simpa using recent)]

theorem check_check : (mn.check context false).check context false = mn.check context false := by
  by_cases off : context.shutdownRequested = true
  · unfold check
    rw [if_pos off, if_pos off]
  · by_cases recent : context.getTime - mn.lastTimeChecked < masternodeCheckSeconds
    · rw [check_of_recent recent, check_of_recent recent]
    · apply check_of_recent
      have checked : (mn.check context false).lastTimeChecked = context.getTime := by
        unfold check
        rw [if_neg off, if_neg (by simpa using recent)]
        dsimp only
        repeat' split
        all_goals rfl
      rw [checked, Int.sub_self]
      decide

end CMasternode

/-- The part of `CMasternodeMan` that holds the list. -/
structure CMasternodeMan where
  vMasternodes : List CMasternode := []
  /-- `Add` takes no masternode whose outpoint is listed. -/
  distinct : (vMasternodes.map (·.vin.prevout)).Nodup := by simp

namespace CMasternodeMan

def find (man : CMasternodeMan) (vin : CTxIn) : Option CMasternode :=
  man.vMasternodes.find? fun mn => mn.vin.prevout = vin.prevout

theorem find_eq_some_iff {man : CMasternodeMan} {vin : CTxIn} {mn : CMasternode} :
    man.find vin = some mn ↔ mn ∈ man.vMasternodes ∧ mn.vin.prevout = vin.prevout := by
  constructor
  · intro found
    exact ⟨List.mem_of_find?_eq_some found, by simpa using List.find?_some found⟩
  · rintro ⟨member, named⟩
    cases found : man.find vin with
    | none =>
      have missing := List.find?_eq_none.mp found mn member
      simp [named] at missing
    | some other =>
      have named_other : other.vin.prevout = vin.prevout := by simpa using List.find?_some found
      rw [List.inj_on_of_nodup_map man.distinct (List.mem_of_find?_eq_some found) member
        (named_other.trans named.symm)]

theorem find_eq_none_iff {man : CMasternodeMan} {vin : CTxIn} :
    man.find vin = none ↔ ∀ mn ∈ man.vMasternodes, mn.vin.prevout ≠ vin.prevout := by
  rw [find, List.find?_eq_none]
  simp

theorem map_prevout {masternodes : List CMasternode} {change : CMasternode → CMasternode}
    (keeps : ∀ mn, (change mn).vin = mn.vin) :
    (masternodes.map change).map (·.vin.prevout) = masternodes.map (·.vin.prevout) := by
  rw [List.map_map]
  exact List.map_congr_left fun mn _ => congrArg CTxIn.prevout (keeps mn)

/-- The list with every masternode changed in place; the collaterals stay. -/
def modify (man : CMasternodeMan) (change : CMasternode → CMasternode)
    (keeps : ∀ mn, (change mn).vin = mn.vin) : CMasternodeMan where
  vMasternodes := man.vMasternodes.map change
  distinct := (map_prevout keeps).symm ▸ man.distinct

/-- The masternode with this input changed in place. -/
def updateAt (man : CMasternodeMan) (vin : CTxIn) (change : CMasternode → CMasternode)
    (keeps : ∀ mn, (change mn).vin = mn.vin) : CMasternodeMan :=
  man.modify (fun mn => if mn.vin.prevout = vin.prevout then change mn else mn) fun mn => by
    split
    · exact keeps mn
    · rfl

/-- `Add` appends the masternode. -/
def adds (man : CMasternodeMan) (mn : CMasternode) : Bool :=
  mn.isEnabled && (man.find mn.vin).isNone

def add (man : CMasternodeMan) (mn : CMasternode) : CMasternodeMan :=
  if new : man.adds mn = true then
    { vMasternodes := man.vMasternodes ++ [mn]
      distinct := by
        rw [adds, Bool.and_eq_true, Option.isNone_iff_eq_none, find_eq_none_iff] at new
        rw [List.map_append, List.nodup_append]
        refine ⟨man.distinct, List.nodup_singleton _, ?_⟩
        intro prevout listed other single same
        obtain ⟨old, member, rfl⟩ := List.mem_map.mp listed
        exact new.2 old member (same.trans (List.mem_singleton.mp single)) }
  else man

def remove (man : CMasternodeMan) (vin : CTxIn) : CMasternodeMan where
  vMasternodes := man.vMasternodes.eraseP fun mn => mn.vin = vin
  distinct := man.distinct.sublist (List.eraseP_sublist.map _)

end CMasternodeMan

end CentNode
