import CentNode.Masternode.Collateral
import CentNode.Net.NetAddr

/-!
# The sweep of the masternode manager

`CMasternodeMan::CheckAndRemove`: the masternodes that are removed from the
list, and what is removed with them and for its age from the maps of the
manager and from the counts that `masternodeSync` keeps of the broadcasts.
-/

namespace CentNode

open List Option AList

/-- An element of `mapSeenMasternodeBroadcast`. -/
abbrev BroadcastEntry : Type := Sigma fun _ : Uint256 => CMasternodeBroadcast

namespace MnContext

def getHash (context : MnContext) (mnb : CMasternodeBroadcast) : Uint256 :=
  context.broadcastHash mnb.sigTime mnb.pubKeyCollateralAddress

/-- A masternode that the sweep removes from the list. -/
def removes (context : MnContext) (forceExpiredRemoval : Bool) (mn : CMasternode) : Bool :=
  mn.activeState = .remove || mn.activeState = .vinSpent ||
    (forceExpiredRemoval && mn.activeState = .expired) ||
    mn.protocolVersion < context.minPaymentsProto

/-- A ping that is too old to be kept. -/
def outdated (context : MnContext) (ping : CMasternodePing) : Bool :=
  ping.sigTime < context.getTime - masternodeRemovalSeconds * 2

end MnContext

/-- The broadcasts seen, each under its hash, and the counts that `masternodeSync`
keeps under the hashes. -/
structure SeenBroadcasts (context : MnContext) where
  mapSeenMasternodeBroadcast : StdMap Uint256 CMasternodeBroadcast := ∅
  mapSeenSyncMNB : StdMap Uint256 Int := ∅
  keyed : ∀ hash mnb, mapSeenMasternodeBroadcast.lookup hash = some mnb →
    context.getHash mnb = hash := by intro _ _ found; cases found

namespace SeenBroadcasts

variable {context : MnContext}

/-- The broadcasts as an iterator meets them. -/
def inOrder (seen : SeenBroadcasts context) : List BroadcastEntry :=
  @StdMap.inOrder _ _ Uint256.compareOrder seen.mapSeenMasternodeBroadcast

def eraseBroadcast (hash : Uint256) (seen : SeenBroadcasts context) : SeenBroadcasts context where
  mapSeenMasternodeBroadcast := seen.mapSeenMasternodeBroadcast.erase hash
  mapSeenSyncMNB := seen.mapSeenSyncMNB
  keyed := by
    intro other mnb found
    rw [StdMap.lookup_erase_ite] at found
    split at found
    · cases found
    · exact seen.keyed other mnb found

def eraseSync (hash : Uint256) (seen : SeenBroadcasts context) : SeenBroadcasts context :=
  { seen with mapSeenSyncMNB := seen.mapSeenSyncMNB.erase hash }

/-- The loop that erases the broadcasts of a removed masternode, over what is
left of the map. -/
def eraseFrom (vin : CTxIn) : List BroadcastEntry → SeenBroadcasts context → SeenBroadcasts context
  | [], seen => seen
  | ⟨hash, mnb⟩ :: rest, seen =>
    if mnb.vin = vin then eraseFrom vin rest ((seen.eraseSync hash).eraseBroadcast hash)
    else eraseFrom vin rest seen

/-- The loop that erases the outdated broadcasts, over what is left of the map.
The iterator has moved on when the count is erased: `none` where it is the end. -/
def eraseOutdated : List BroadcastEntry → SeenBroadcasts context → Option (SeenBroadcasts context)
  | [], seen => some seen
  | ⟨hash, mnb⟩ :: rest, seen =>
    if context.outdated mnb.lastPing then
      match rest.head? with
      | none => none
      | some next =>
        eraseOutdated rest ((seen.eraseBroadcast hash).eraseSync (context.getHash next.2))
    else eraseOutdated rest seen

end SeenBroadcasts

/-- The masternode manager, and the counts of `masternodeSync`. -/
structure ManagerState (context : MnContext) where
  man : CMasternodeMan := {}
  seen : SeenBroadcasts context := {}
  mapSeenMasternodePing : StdMap Uint256 CMasternodePing := ∅
  mAskedUsForMasternodeList : StdMap CNetAddr Int := ∅
  mWeAskedForMasternodeList : StdMap CNetAddr Int := ∅
  mWeAskedForMasternodeListEntry : StdMap COutPoint Int := ∅

namespace ManagerState

variable {context : MnContext} (forceExpiredRemoval : Bool)

theorem check_keeps_vin (context : MnContext) (mn : CMasternode) :
    (mn.check context.checkContext false).vin = mn.vin :=
  CMasternode.check_vin context.checkContext mn false

/-- The list after `Check`. -/
def checked (state : ManagerState context) : CMasternodeMan :=
  state.man.modify (fun mn => mn.check context.checkContext false) (check_keeps_vin context)

def removed (state : ManagerState context) : List CMasternode :=
  state.checked.vMasternodes.filter (context.removes forceExpiredRemoval)

/-- What is erased with a masternode. -/
def eraseWith (state : ManagerState context) (mn : CMasternode) : ManagerState context :=
  { state with
    seen := state.seen.eraseFrom mn.vin state.seen.inOrder
    mWeAskedForMasternodeListEntry :=
      state.mWeAskedForMasternodeListEntry.keep fun prevout _ => prevout ≠ mn.vin.prevout }

/-- The state after the loop over the masternodes. -/
def removing (state : ManagerState context) : ManagerState context :=
  (state.removed forceExpiredRemoval).foldl eraseWith
    { state with
      man :=
        { vMasternodes :=
            state.checked.vMasternodes.filter fun mn => !context.removes forceExpiredRemoval mn
          distinct := state.checked.distinct.sublist (List.filter_sublist.map _) } }

/-- `CheckAndRemove`; `none` where it dereferences the end of a map. -/
def checkAndRemove (state : ManagerState context) : Option (ManagerState context) :=
  let removing := state.removing forceExpiredRemoval
  let recent := fun time : Int => !decide (time < context.getTime)
  (removing.seen.eraseOutdated removing.seen.inOrder).map fun seen =>
    { removing with
      seen := seen
      mAskedUsForMasternodeList := removing.mAskedUsForMasternodeList.keep fun _ => recent
      mWeAskedForMasternodeList := removing.mWeAskedForMasternodeList.keep fun _ => recent
      mWeAskedForMasternodeListEntry := removing.mWeAskedForMasternodeListEntry.keep fun _ => recent
      mapSeenMasternodePing :=
        removing.mapSeenMasternodePing.keep fun _ ping => !context.outdated ping }

/-! ## What the sweep is for -/

/-- The broadcast has the input of a masternode that is removed. -/
def fromRemoved (state : ManagerState context) (mnb : CMasternodeBroadcast) : Bool :=
  (state.removed forceExpiredRemoval).any fun mn => mnb.vin = mn.vin

/-- The broadcasts of removed masternodes and the outdated ones are gone, and the
counts of these and of no others. -/
structure Swept (state after : ManagerState context) : Prop where
  broadcasts : ∀ hash mnb,
    after.seen.mapSeenMasternodeBroadcast.lookup hash = some mnb ↔
      state.seen.mapSeenMasternodeBroadcast.lookup hash = some mnb ∧
        state.fromRemoved forceExpiredRemoval mnb = false ∧
        context.outdated mnb.lastPing = false
  counts : StdMap.Without
    (fun hash => (state.seen.mapSeenMasternodeBroadcast.lookup hash).isSome ∧
      after.seen.mapSeenMasternodeBroadcast.lookup hash = none)
    state.seen.mapSeenSyncMNB after.seen.mapSeenSyncMNB

/-- The broadcasts that are not of removed masternodes, in the order of their hashes. -/
def others (state : ManagerState context) : List BroadcastEntry :=
  state.seen.inOrder.filter fun entry => !state.fromRemoved forceExpiredRemoval entry.2

end ManagerState

/-- The last broadcast is not outdated, and one that is counted is outdated when
and only when the broadcast before it is. -/
def MnContext.InStep (context : MnContext) (counts : StdMap Uint256 Int) :
    (before : Bool) → List BroadcastEntry → Prop
  | before, [] => before = false
  | before, entry :: rest =>
    ((counts.lookup entry.1).isSome → context.outdated entry.2.lastPing = before) ∧
      context.InStep counts (context.outdated entry.2.lastPing) rest

namespace SeenBroadcasts

open StdMap

variable {context : MnContext}

variable {seen : SeenBroadcasts context} {hash : Uint256}

theorem mem_inOrder_iff {mnb : CMasternodeBroadcast} :
    (⟨hash, mnb⟩ : BroadcastEntry) ∈ seen.inOrder ↔
      seen.mapSeenMasternodeBroadcast.lookup hash = some mnb :=
  @StdMap.mem_inOrder _ _ _ Uint256.compareOrder _ _ _

/-! ## The broadcasts of removed masternodes -/

/-- A step that erases the same hashes from both maps. -/
structure Erases (erased : Uint256 → Prop) (seen left : SeenBroadcasts context) : Prop where
  broadcasts : Without erased seen.mapSeenMasternodeBroadcast left.mapSeenMasternodeBroadcast
  counts : Without erased seen.mapSeenSyncMNB left.mapSeenSyncMNB

variable {left : SeenBroadcasts context}

theorem Erases.trans {first second : Uint256 → Prop} {middle : SeenBroadcasts context}
    (before : Erases first seen middle) (after : Erases second middle left) :
    Erases (fun hash => first hash ∨ second hash) seen left :=
  ⟨before.broadcasts.trans after.broadcasts, before.counts.trans after.counts⟩

theorem Erases.congr {first second : Uint256 → Prop} (erases : Erases first seen left)
    (same : ∀ hash, first hash ↔ second hash) : Erases second seen left :=
  ⟨erases.broadcasts.congr same, erases.counts.congr same⟩

theorem eraseFrom_erases (vin : CTxIn) (entries : List BroadcastEntry)
    (seen : SeenBroadcasts context) :
    Erases (fun hash => ∃ mnb, (⟨hash, mnb⟩ : BroadcastEntry) ∈ entries ∧ mnb.vin = vin) seen
      (seen.eraseFrom vin entries) := by
  induction entries generalizing seen with
  | nil =>
    refine Erases.congr ⟨without_none _, without_none _⟩ fun hash => iff_of_false id ?_
    rintro ⟨mnb, inside, _⟩
    cases inside
  | cons entry rest ih =>
    obtain ⟨head, first⟩ := entry
    rw [eraseFrom]
    split
    case isTrue same =>
      have here : Erases (fun hash => hash = head) seen
          ((seen.eraseSync head).eraseBroadcast head) :=
        ⟨without_erase head _, without_erase head _⟩
      refine (here.trans (ih _)).congr fun hash => ⟨?_, ?_⟩
      · rintro (rfl | ⟨mnb, inside, named⟩)
        · exact ⟨first, mem_cons_self, same⟩
        · exact ⟨mnb, mem_cons_of_mem _ inside, named⟩
      · rintro ⟨mnb, inside, named⟩
        rcases mem_cons.mp inside with here | later
        · cases here
          exact Or.inl rfl
        · exact Or.inr ⟨mnb, later, named⟩
    case isFalse different =>
      refine (ih seen).congr fun hash => ⟨?_, ?_⟩
      · rintro ⟨mnb, inside, named⟩
        exact ⟨mnb, mem_cons_of_mem _ inside, named⟩
      · rintro ⟨mnb, inside, named⟩
        rcases mem_cons.mp inside with here | later
        · cases here
          exact absurd named different
        · exact ⟨mnb, later, named⟩

/-! ## The outdated broadcasts -/

/-- The loop over the outdated broadcasts, with the erasing of a count pending. -/
def resume (before : Bool) (entries : List BroadcastEntry) (seen : SeenBroadcasts context) :
    Option (SeenBroadcasts context) :=
  if before then
    match entries.head? with
    | none => none
    | some next => (seen.eraseSync (context.getHash next.2)).eraseOutdated entries
  else seen.eraseOutdated entries

theorem resume_cons (before : Bool) (entry : BroadcastEntry) (rest : List BroadcastEntry)
    (seen : SeenBroadcasts context) :
    seen.resume before (entry :: rest) =
      let counted := if before then seen.eraseSync (context.getHash entry.2) else seen
      if context.outdated entry.2.lastPing then (counted.eraseBroadcast entry.1).resume true rest
      else counted.resume false rest := by
  cases before <;> rfl

def endsOutdated (context : MnContext) : (before : Bool) → List BroadcastEntry → Bool
  | before, [] => before
  | _, entry :: rest => endsOutdated context (context.outdated entry.2.lastPing) rest

/-- The count under the hash is erased: of the broadcast after an outdated one. -/
def Uncounts (context : MnContext) : (before : Bool) → List BroadcastEntry → Uint256 → Prop
  | _, [], _ => False
  | before, entry :: rest, hash =>
    (before = true ∧ hash = context.getHash entry.2) ∨
      Uncounts context (context.outdated entry.2.lastPing) rest hash

def Outdates (context : MnContext) (entries : List BroadcastEntry) (hash : Uint256) : Prop :=
  ∃ mnb, (⟨hash, mnb⟩ : BroadcastEntry) ∈ entries ∧ context.outdated mnb.lastPing = true

theorem outdates_cons {entry : BroadcastEntry} {rest : List BroadcastEntry} :
    Outdates context (entry :: rest) hash ↔
      (hash = entry.1 ∧ context.outdated entry.2.lastPing = true) ∨
        Outdates context rest hash := by
  constructor
  · rintro ⟨mnb, inside, stale⟩
    rcases mem_cons.mp inside with rfl | later
    · exact Or.inl ⟨rfl, stale⟩
    · exact Or.inr ⟨mnb, later, stale⟩
  · rintro (⟨rfl, stale⟩ | ⟨mnb, later, stale⟩)
    · exact ⟨entry.2, mem_cons_self, stale⟩
    · exact ⟨mnb, mem_cons_of_mem _ later, stale⟩

variable {before : Bool} {entries : List BroadcastEntry}

theorem resume_eq_none (ends : endsOutdated context before entries = true) :
    seen.resume before entries = none := by
  induction entries generalizing before seen with
  | nil =>
    cases before with
    | true => rfl
    | false => cases ends
  | cons entry rest ih =>
    rw [endsOutdated] at ends
    rw [resume_cons]
    dsimp only
    split
    case isTrue stale =>
      rw [stale] at ends
      exact ih ends
    case isFalse fresh =>
      rw [Bool.not_eq_true _ |>.mp fresh] at ends
      exact ih ends

theorem resume_eq_some {before : Bool} {entries : List BroadcastEntry}
    {seen : SeenBroadcasts context} (ends : endsOutdated context before entries = false) :
    ∃ left, seen.resume before entries = some left ∧
      Without (Outdates context entries) seen.mapSeenMasternodeBroadcast
        left.mapSeenMasternodeBroadcast ∧
      Without (Uncounts context before entries) seen.mapSeenSyncMNB left.mapSeenSyncMNB := by
  induction entries generalizing before seen with
  | nil =>
    cases before with
    | true => cases ends
    | false =>
      refine ⟨seen, rfl, (without_none _).congr fun hash => ?_, without_none _⟩
      exact iff_of_false id fun ⟨_, inside, _⟩ => not_mem_nil inside
  | cons entry rest ih =>
    rw [endsOutdated] at ends
    rw [resume_cons]
    dsimp only
    have counted : ∀ map : StdMap Uint256 Int, map = seen.mapSeenSyncMNB →
        Without (fun hash => before = true ∧ hash = context.getHash entry.2) map
          (if before then seen.eraseSync (context.getHash entry.2) else seen).mapSeenSyncMNB := by
      rintro map rfl
      cases before with
      | true => exact (without_erase _ _).congr fun hash => (and_iff_right rfl).symm
      | false => exact (without_none _).congr fun hash => iff_of_false id fun both => by cases both.1
    have same : (if before then seen.eraseSync (context.getHash entry.2)
        else seen).mapSeenMasternodeBroadcast = seen.mapSeenMasternodeBroadcast := by
      cases before <;> rfl
    split
    case isTrue stale =>
      rw [stale] at ends
      obtain ⟨left, ran, broadcasts, counts⟩ := ih ends
      refine ⟨left, ran, ?_, ?_⟩
      · have here := without_erase entry.1 seen.mapSeenMasternodeBroadcast
        dsimp only [eraseBroadcast] at broadcasts
        rw [same] at broadcasts
        refine (here.trans broadcasts).congr fun hash => ?_
        rw [outdates_cons, and_iff_left stale]
      · refine ((counted _ rfl).trans counts).congr fun hash => ?_
        rw [Uncounts, stale]
    case isFalse fresh =>
      rw [Bool.not_eq_true _ |>.mp fresh] at ends
      obtain ⟨left, ran, broadcasts, counts⟩ := ih ends
      refine ⟨left, ran, ?_, ?_⟩
      · rw [same] at broadcasts
        refine broadcasts.congr fun hash => ?_
        rw [outdates_cons]
        exact ⟨Or.inr, fun either => either.resolve_left fun here => fresh here.2⟩
      · refine ((counted _ rfl).trans counts).congr fun hash => ?_
        rw [Uncounts, Bool.not_eq_true _ |>.mp fresh]

/-- Each broadcast of a list is under its hash. -/
def Keyed (context : MnContext) (entries : List BroadcastEntry) : Prop :=
  ∀ entry ∈ entries, context.getHash entry.2 = entry.1

theorem not_uncounts (keyed : Keyed context entries) (apart : hash ∉ entries.map Sigma.fst) :
    ¬ Uncounts context before entries hash := by
  induction entries generalizing before with
  | nil => exact id
  | cons entry rest ih =>
    rw [map_cons, mem_cons, not_or] at apart
    rintro (⟨_, rfl⟩ | later)
    · exact apart.1 (keyed entry mem_cons_self)
    · exact ih (fun other inside => keyed other (mem_cons_of_mem _ inside)) apart.2 later

theorem not_outdates (apart : hash ∉ entries.map Sigma.fst) : ¬ Outdates context entries hash :=
  fun ⟨_, inside, _⟩ => apart (List.mem_map_of_mem inside)

/-- The counts that are erased are those of the outdated broadcasts when and only
when the broadcasts are in step. -/
theorem inStep_iff {counts : StdMap Uint256 Int} (keyed : Keyed context entries)
    (nodup : (entries.map Sigma.fst).Nodup) :
    context.InStep counts before entries ↔ endsOutdated context before entries = false ∧
      ∀ hash, (counts.lookup hash).isSome →
        (Uncounts context before entries hash ↔ Outdates context entries hash) := by
  induction entries generalizing before with
  | nil =>
    refine (and_iff_left fun hash _ => iff_of_false id ?_).symm
    exact fun ⟨_, inside, _⟩ => not_mem_nil inside
  | cons entry rest ih =>
    rw [map_cons, nodup_cons] at nodup
    have keyedRest : Keyed context rest :=
      fun other inside => keyed other (mem_cons_of_mem _ inside)
    have named : context.getHash entry.2 = entry.1 := keyed entry mem_cons_self
    have atHead : Uncounts context before (entry :: rest) entry.1 ↔ before = true := by
      rw [Uncounts, named, and_iff_left rfl]
      exact or_iff_left (not_uncounts keyedRest nodup.1)
    have outdatedHead : Outdates context (entry :: rest) entry.1 ↔
        context.outdated entry.2.lastPing = true := by
      rw [outdates_cons, and_iff_right rfl]
      exact or_iff_left (not_outdates nodup.1)
    have elsewhere : ∀ hash, hash ≠ entry.1 →
        ((Uncounts context before (entry :: rest) hash ↔ Outdates context (entry :: rest) hash) ↔
          (Uncounts context (context.outdated entry.2.lastPing) rest hash ↔
            Outdates context rest hash)) := by
      intro hash different
      rw [Uncounts, outdates_cons, named, or_iff_right fun here => different here.2,
        or_iff_right fun here => different here.1]
    rw [MnContext.InStep, endsOutdated, ih keyedRest nodup.2]
    constructor
    · rintro ⟨first, ends, later⟩
      refine ⟨ends, fun hash counted => ?_⟩
      by_cases here : hash = entry.1
      · subst here
        rw [atHead, outdatedHead, first counted]
      · exact (elsewhere hash here).mpr (later hash counted)
    · rintro ⟨ends, all⟩
      refine ⟨fun counted => ?_, ends, fun hash counted => ?_⟩
      · have here := all entry.1 counted
        rw [atHead, outdatedHead] at here
        exact (Bool.eq_iff_iff.mpr here).symm
      · by_cases here : hash = entry.1
        · subst here
          exact iff_of_false (not_uncounts keyedRest nodup.1) (not_outdates nodup.1)
        · exact (elsewhere hash here).mp (all hash counted)

end SeenBroadcasts

namespace ManagerState

open SeenBroadcasts StdMap

variable {context : MnContext}

variable (state : ManagerState context)

theorem eraseWith_erases (mn : CMasternode) :
    Erases (fun hash => ∃ mnb, state.seen.mapSeenMasternodeBroadcast.lookup hash = some mnb ∧
      mnb.vin = mn.vin) state.seen (state.eraseWith mn).seen :=
  (eraseFrom_erases mn.vin state.seen.inOrder state.seen).congr fun _ =>
    exists_congr fun _ => and_congr_left fun _ => mem_inOrder_iff

/-- The loop over the masternodes erases the broadcasts of the removed ones. -/
theorem foldl_eraseWith_erases (masternodes : List CMasternode) (state : ManagerState context) :
    Erases (fun hash => ∃ mnb, state.seen.mapSeenMasternodeBroadcast.lookup hash = some mnb ∧
      ∃ mn ∈ masternodes, mnb.vin = mn.vin) state.seen
      (masternodes.foldl eraseWith state).seen := by
  induction masternodes generalizing state with
  | nil =>
    refine Erases.congr ⟨without_none _, without_none _⟩ fun hash => iff_of_false id ?_
    rintro ⟨mnb, _, mn, inside, _⟩
    cases inside
  | cons mn rest ih =>
    have here := eraseWith_erases state mn
    refine (here.trans (ih _)).congr fun hash => ⟨?_, ?_⟩
    · rintro (⟨mnb, found, named⟩ | ⟨mnb, found, other, inside, named⟩)
      · exact ⟨mnb, found, mn, mem_cons_self, named⟩
      · refine ⟨mnb, ?_, other, mem_cons_of_mem _ inside, named⟩
        by_cases erased : ∃ mnb, state.seen.mapSeenMasternodeBroadcast.lookup hash = some mnb ∧
            mnb.vin = mn.vin
        · rw [(here.broadcasts hash).1 erased] at found
          cases found
        · exact ((here.broadcasts hash).2 erased).symm.trans found
    · rintro ⟨mnb, found, other, inside, named⟩
      by_cases erased : ∃ mnb, state.seen.mapSeenMasternodeBroadcast.lookup hash = some mnb ∧
          mnb.vin = mn.vin
      · exact Or.inl erased
      · refine Or.inr ⟨mnb, ((here.broadcasts hash).2 erased).trans found, other, ?_, named⟩
        rcases mem_cons.mp inside with rfl | later
        · exact absurd ⟨mnb, found, named⟩ erased
        · exact later

variable (forceExpiredRemoval : Bool)

variable {mnb : CMasternodeBroadcast}

theorem fromRemoved_iff {state : ManagerState context} :
    state.fromRemoved forceExpiredRemoval mnb = true ↔
      ∃ mn ∈ state.removed forceExpiredRemoval, mnb.vin = mn.vin := by
  rw [fromRemoved, List.any_eq_true]
  exact exists_congr fun mn => and_congr_right fun _ => decide_eq_true_iff

theorem removing_erases :
    Erases (fun hash => ∃ mnb, state.seen.mapSeenMasternodeBroadcast.lookup hash = some mnb ∧
      state.fromRemoved forceExpiredRemoval mnb = true) state.seen
      (state.removing forceExpiredRemoval).seen :=
  (foldl_eraseWith_erases (state.removed forceExpiredRemoval)
    { state with
      man :=
        { vMasternodes :=
            state.checked.vMasternodes.filter fun mn => !context.removes forceExpiredRemoval mn
          distinct := state.checked.distinct.sublist (filter_sublist.map _) } }).congr fun _ =>
    exists_congr fun _ => and_congr_right fun _ => (fromRemoved_iff forceExpiredRemoval).symm

theorem lookup_removing {state : ManagerState context} {hash : Uint256} :
    (state.removing forceExpiredRemoval).seen.mapSeenMasternodeBroadcast.lookup hash = some mnb ↔
      state.seen.mapSeenMasternodeBroadcast.lookup hash = some mnb ∧
        state.fromRemoved forceExpiredRemoval mnb = false := by
  have here := (state.removing_erases forceExpiredRemoval).broadcasts hash
  by_cases erased : ∃ mnb, state.seen.mapSeenMasternodeBroadcast.lookup hash = some mnb ∧
      state.fromRemoved forceExpiredRemoval mnb = true
  · rw [here.1 erased]
    obtain ⟨other, found, gone⟩ := erased
    refine iff_of_false (by simp) ?_
    rintro ⟨again, stays⟩
    cases found.symm.trans again
    rw [gone] at stays
    cases stays
  · rw [here.2 erased]
    refine (and_iff_left_of_imp fun found => ?_).symm
    exact Bool.not_eq_true _ |>.mp fun gone => erased ⟨mnb, found, gone⟩

theorem inOrder_removing :
    (state.removing forceExpiredRemoval).seen.inOrder = state.others forceExpiredRemoval := by
  have nodup := @StdMap.nodup_inOrder _ _ Uint256.compareOrder state.seen.mapSeenMasternodeBroadcast
  refine @StdMap.inOrder_eq _ _ _ Uint256.compareOrder _ _ ?_ ?_ fun hash mnb => ?_
  · exact (@StdMap.sorted_inOrder _ _ Uint256.compareOrder _).filter _
  · exact (List.Nodup.of_map Sigma.fst nodup).filter _
  · rw [lookup_removing, others, mem_filter, mem_inOrder_iff, Bool.not_eq_true']

theorem others_nodup : ((state.others forceExpiredRemoval).map Sigma.fst).Nodup := by
  rw [← inOrder_removing]
  exact @StdMap.nodup_inOrder _ _ Uint256.compareOrder _

theorem others_keyed : Keyed context (state.others forceExpiredRemoval) := by
  rintro ⟨hash, mnb⟩ inside
  exact state.seen.keyed hash mnb (mem_inOrder_iff.mp (mem_filter.mp inside).1)

theorem outdates_others {state : ManagerState context} {hash : Uint256} :
    Outdates context (state.others forceExpiredRemoval) hash ↔
      ∃ mnb, state.seen.mapSeenMasternodeBroadcast.lookup hash = some mnb ∧
        state.fromRemoved forceExpiredRemoval mnb = false ∧
        context.outdated mnb.lastPing = true := by
  rw [← inOrder_removing]
  refine exists_congr fun mnb => ?_
  rw [mem_inOrder_iff, lookup_removing, and_assoc]

variable {left : ManagerState context}

theorem lookup_swept {state : ManagerState context}
    (broadcasts : Without (Outdates context (state.others forceExpiredRemoval))
      (state.removing forceExpiredRemoval).seen.mapSeenMasternodeBroadcast
      left.seen.mapSeenMasternodeBroadcast) (hash : Uint256) (mnb : CMasternodeBroadcast) :
    left.seen.mapSeenMasternodeBroadcast.lookup hash = some mnb ↔
      state.seen.mapSeenMasternodeBroadcast.lookup hash = some mnb ∧
        state.fromRemoved forceExpiredRemoval mnb = false ∧
        context.outdated mnb.lastPing = false := by
  by_cases stale : Outdates context (state.others forceExpiredRemoval) hash
  · rw [(broadcasts hash).1 stale]
    refine iff_of_false (by simp) ?_
    rintro ⟨found, _, fresh⟩
    obtain ⟨other, foundToo, _, outdated⟩ := (outdates_others forceExpiredRemoval).mp stale
    cases found.symm.trans foundToo
    rw [fresh] at outdated
    cases outdated
  · rw [(broadcasts hash).2 stale, lookup_removing, and_congr_right_iff]
    refine fun found => (and_iff_left_of_imp fun stays => ?_).symm
    refine Bool.not_eq_true _ |>.mp fun outdated => stale ?_
    exact (outdates_others forceExpiredRemoval).mpr ⟨mnb, found, stays, outdated⟩

theorem gone_iff {state : ManagerState context}
    (broadcasts : Without (Outdates context (state.others forceExpiredRemoval))
      (state.removing forceExpiredRemoval).seen.mapSeenMasternodeBroadcast
      left.seen.mapSeenMasternodeBroadcast) (hash : Uint256) :
    ((state.seen.mapSeenMasternodeBroadcast.lookup hash).isSome ∧
        left.seen.mapSeenMasternodeBroadcast.lookup hash = none) ↔
      (∃ mnb, state.seen.mapSeenMasternodeBroadcast.lookup hash = some mnb ∧
          state.fromRemoved forceExpiredRemoval mnb = true) ∨
        Outdates context (state.others forceExpiredRemoval) hash := by
  have kept := lookup_swept forceExpiredRemoval broadcasts hash
  rw [outdates_others]
  constructor
  · rintro ⟨seen, gone⟩
    obtain ⟨mnb, found⟩ := isSome_iff_exists.mp seen
    cases removed : state.fromRemoved forceExpiredRemoval mnb with
    | true => exact Or.inl ⟨mnb, found, removed⟩
    | false =>
      refine Or.inr ⟨mnb, found, removed, ?_⟩
      refine Bool.not_eq_false _ |>.mp fun fresh => ?_
      rw [(kept mnb).mpr ⟨found, removed, fresh⟩] at gone
      cases gone
  · intro either
    obtain ⟨mnb, found, why⟩ : ∃ mnb,
        state.seen.mapSeenMasternodeBroadcast.lookup hash = some mnb ∧
          (state.fromRemoved forceExpiredRemoval mnb = true ∨
            context.outdated mnb.lastPing = true) := by
      rcases either with ⟨mnb, found, removed⟩ | ⟨mnb, found, _, outdated⟩
      · exact ⟨mnb, found, Or.inl removed⟩
      · exact ⟨mnb, found, Or.inr outdated⟩
    refine ⟨isSome_of_mem found, ?_⟩
    cases there : left.seen.mapSeenMasternodeBroadcast.lookup hash with
    | none => rfl
    | some other =>
      obtain ⟨same, stays, fresh⟩ := (kept other).mp there
      cases found.symm.trans same
      rcases why with removed | outdated
      · rw [stays] at removed
        cases removed
      · rw [fresh] at outdated
        cases outdated

/-- With the outdated broadcasts gone, the sweep is exact when the counts that went
are theirs. -/
theorem swept_iff {state left : ManagerState context}
    (broadcasts : Without (Outdates context (state.others forceExpiredRemoval))
      (state.removing forceExpiredRemoval).seen.mapSeenMasternodeBroadcast
      left.seen.mapSeenMasternodeBroadcast)
    (counts : Without (Uncounts context false (state.others forceExpiredRemoval))
      (state.removing forceExpiredRemoval).seen.mapSeenSyncMNB left.seen.mapSeenSyncMNB) :
    state.Swept forceExpiredRemoval left ↔
      ∀ hash, (state.seen.mapSeenSyncMNB.lookup hash).isSome →
        (Uncounts context false (state.others forceExpiredRemoval) hash ↔
          Outdates context (state.others forceExpiredRemoval) hash) := by
  have removed := (state.removing_erases forceExpiredRemoval).counts
  have both := removed.trans counts
  -- the broadcasts of a removed masternode are not among the others
  have others : ∀ hash, (∃ mnb, state.seen.mapSeenMasternodeBroadcast.lookup hash = some mnb ∧
      state.fromRemoved forceExpiredRemoval mnb = true) →
      ¬ Uncounts context false (state.others forceExpiredRemoval) hash ∧
        ¬ Outdates context (state.others forceExpiredRemoval) hash := by
    rintro hash ⟨mnb, found, gone⟩
    have apart : hash ∉ (state.others forceExpiredRemoval).map Sigma.fst := by
      intro inside
      obtain ⟨⟨_, other⟩, member, rfl⟩ := List.mem_map.mp inside
      rw [ManagerState.others, mem_filter, mem_inOrder_iff, Bool.not_eq_true'] at member
      cases found.symm.trans member.1
      rw [gone] at member
      cases member.2
    exact ⟨not_uncounts (state.others_keyed forceExpiredRemoval) apart, not_outdates apart⟩
  have counts_iff : StdMap.Without
      (fun hash => (state.seen.mapSeenMasternodeBroadcast.lookup hash).isSome ∧
        left.seen.mapSeenMasternodeBroadcast.lookup hash = none)
      state.seen.mapSeenSyncMNB left.seen.mapSeenSyncMNB ↔
      ∀ hash, (state.seen.mapSeenSyncMNB.lookup hash).isSome →
        (Uncounts context false (state.others forceExpiredRemoval) hash ↔
          Outdates context (state.others forceExpiredRemoval) hash) := by
    rw [both.other_iff]
    refine forall_congr' fun hash => imp_congr_right fun _ => ?_
    rw [gone_iff forceExpiredRemoval broadcasts]
    by_cases away : ∃ mnb, state.seen.mapSeenMasternodeBroadcast.lookup hash = some mnb ∧
        state.fromRemoved forceExpiredRemoval mnb = true
    · refine iff_of_true (iff_of_true (Or.inl away) (Or.inl away)) ?_
      exact iff_of_false (others hash away).1 (others hash away).2
    · rw [or_iff_right away, or_iff_right away]
  constructor
  · intro swept
    exact counts_iff.mp swept.counts
  · intro same
    exact ⟨lookup_swept forceExpiredRemoval broadcasts, counts_iff.mpr same⟩

/-- The sweep follows no iterator past the end of a map, and erases the broadcasts of
removed masternodes, the outdated ones and the counts of these only, when and only
when the broadcasts of the other masternodes are in step. -/
theorem checkAndRemove_swept_iff (state : ManagerState context) :
    (∃ after, state.checkAndRemove forceExpiredRemoval = some after ∧
      state.Swept forceExpiredRemoval after) ↔
      context.InStep state.seen.mapSeenSyncMNB false (state.others forceExpiredRemoval) := by
  rw [inStep_iff (state.others_keyed forceExpiredRemoval) (state.others_nodup forceExpiredRemoval)]
  have loop : (state.removing forceExpiredRemoval).seen.eraseOutdated
      (state.removing forceExpiredRemoval).seen.inOrder =
        (state.removing forceExpiredRemoval).seen.resume false
          (state.others forceExpiredRemoval) := by
    rw [inOrder_removing]
    rfl
  rw [checkAndRemove, loop]
  cases ends : endsOutdated context false (state.others forceExpiredRemoval) with
  | true =>
    rw [resume_eq_none ends]
    refine iff_of_false ?_ fun both => by cases both.1
    rintro ⟨after, impossible, _⟩
    cases impossible
  | false =>
    obtain ⟨left, ran, broadcasts, counts⟩ :=
      @resume_eq_some context false _ (state.removing forceExpiredRemoval).seen ends
    have exactly := @swept_iff context forceExpiredRemoval state
      { state.removing forceExpiredRemoval with seen := left } broadcasts counts
    rw [ran, map_some, and_iff_right rfl, ← exactly]
    constructor
    · rintro ⟨after, same, swept⟩
      cases same
      exact ⟨swept.broadcasts, swept.counts⟩
    · intro swept
      exact ⟨_, rfl, swept.broadcasts, swept.counts⟩

end ManagerState

/-! ## A sweep out of step -/

namespace SweepSample

def context : MnContext :=
  { CollateralSample.context with
    getTime := 50000
    broadcastHash := fun sigTime _ => BitVec.ofInt 256 sigTime }

def broadcast (sigTime pinged : Int) : CMasternodeBroadcast :=
  { CollateralSample.broadcast 0 with
    sigTime := sigTime
    lastPing := { sigTime := pinged } }

/-- Counted broadcasts, by the time of their signature, with the time of their last ping. -/
def counted : List (Int × Int) → SeenBroadcasts context
  | [] => {}
  | (sigTime, pinged) :: rest =>
    { mapSeenMasternodeBroadcast := (counted rest).mapSeenMasternodeBroadcast.insert
        (context.getHash (broadcast sigTime pinged)) (broadcast sigTime pinged)
      mapSeenSyncMNB := (counted rest).mapSeenSyncMNB.insert
        (context.getHash (broadcast sigTime pinged)) 1
      keyed := by
        intro hash mnb found
        rw [StdMap.lookup_insert_ite] at found
        split at found
        case isTrue same =>
          cases found
          exact same.symm
        case isFalse => exact (counted rest).keyed hash mnb found }

end SweepSample

namespace ManagerState

open SweepSample

/-- An outdated broadcast before a recent one: the recent one loses its count.  An
outdated broadcast at the end: the sweep dereferences the end. -/
theorem recent_broadcast_uncounted :
    (({ seen := counted [(1, 10), (2, 49000)] } : ManagerState context).checkAndRemove
        false).map (fun after =>
          (after.seen.mapSeenMasternodeBroadcast.keys, after.seen.mapSeenSyncMNB.keys)) =
      some ([2], [1]) ∧
    (¬ ∃ after,
      ({ seen := counted [(1, 10), (2, 49000)] } : ManagerState context).checkAndRemove false =
        some after ∧
      Swept false { seen := counted [(1, 10), (2, 49000)] } after) ∧
    ({ seen := counted [(1, 10)] } : ManagerState context).checkAndRemove false = none := by
  have ran : (({ seen := counted [(1, 10), (2, 49000)] } : ManagerState context).checkAndRemove
      false).map (fun after =>
        (after.seen.mapSeenMasternodeBroadcast.keys, after.seen.mapSeenSyncMNB.keys)) =
      some ([2], [1]) := by decide +kernel
  refine ⟨ran, ?_, ?_⟩
  · rintro ⟨after, swept, exactly⟩
    rw [swept, map_some, some_inj, Prod.mk.injEq] at ran
    have gone := (exactly.counts 1).1 ⟨by decide +kernel, ?_⟩
    · rw [lookup_eq_none, AList.mem_keys, ran.2] at gone
      exact gone mem_cons_self
    · rw [lookup_eq_none, AList.mem_keys, ran.1]
      decide
  · have none : (({ seen := counted [(1, 10)] } : ManagerState context).checkAndRemove
        false).isNone = true := by decide +kernel
    exact isNone_iff_eq_none.mp none

end ManagerState

end CentNode
