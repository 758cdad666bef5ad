import CentNode.Chain.BlockIndex
import CentNode.Library.Runs
import CentNode.Library.StdMap
import CentNode.Net.NetAddr

/-!
# Blocks in flight

The bookkeeping of block downloads of `main.cpp`: `InitializeNode`,
`FinalizeNode`, `MarkBlockAsReceived` and `MarkBlockAsInFlight`.  An iterator
into a list is the number of the list node it points to, and list nodes are
numbered as they are made.
-/

namespace CentNode

open List StdMap Option

abbrev NodeId : Type := Int

structure QueuedBlock where
  hash : Uint256
  pindex : Option CBlockIndex
  nTime : Int
  nValidatedQueuedBefore : Int
  fValidatedHeaders : Bool

/-- The fields of `CNodeState` that these functions use. -/
structure CNodeState where
  address : CService := CService.init
  name : String := ""
  fCurrentlyConnected : Bool := false
  nMisbehavior : Int := 0
  fSyncStarted : Bool := false
  nStallingSince : Int := 0
  /-- The list, each node with its number. -/
  vBlocksInFlight : List (Nat × QueuedBlock) := []
  nBlocksInFlight : Int := 0
  fPreferredDownload : Bool := false

structure DownloadState where
  mapNodeState : StdMap NodeId CNodeState := ∅
  mapBlocksInFlight : StdMap Uint256 (NodeId × Nat) := ∅
  nQueuedValidatedHeaders : Int := 0
  nSyncStarted : Int := 0
  nPreferredDownload : Int := 0
  /-- The addresses given to `AddressCurrentlyConnected`. -/
  connected : List CService := []
  /-- The number of the next list node. -/
  nextNode : Nat := 0

namespace DownloadState

def initializeNode (state : DownloadState) (nodeid : NodeId) (addrName : String)
    (addr : CService) : DownloadState :=
  let nodeState := (state.mapNodeState.lookup nodeid).getD {}
  { state with
    mapNodeState :=
      state.mapNodeState.insert nodeid { nodeState with name := addrName, address := addr } }

/-- `none` where the node is not known and its state is read through a null pointer. -/
def finalizeNode (state : DownloadState) (nodeid : NodeId) : Option DownloadState :=
  match state.mapNodeState.lookup nodeid with
  | none => none
  | some nodeState =>
    some { state with
      nSyncStarted := if nodeState.fSyncStarted then state.nSyncStarted - 1 else state.nSyncStarted
      connected :=
        if nodeState.nMisbehavior = 0 && nodeState.fCurrentlyConnected then
          state.connected ++ [nodeState.address]
        else state.connected
      mapBlocksInFlight :=
        state.mapBlocksInFlight.eraseAll (nodeState.vBlocksInFlight.map fun entry => entry.2.hash)
      nPreferredDownload := state.nPreferredDownload - nodeState.fPreferredDownload.toInt
      mapNodeState := state.mapNodeState.erase nodeid }

/-- Erase a list node of a node that delivers a block. -/
def deliver (nodeState : CNodeState) (it : Nat) : CNodeState :=
  { nodeState with
    vBlocksInFlight := nodeState.vBlocksInFlight.filter fun entry => entry.1 ≠ it
    nBlocksInFlight := nodeState.nBlocksInFlight - 1
    nStallingSince := 0 }

/-- `none` where the iterator or the node it belongs to is gone. -/
def markBlockAsReceived (state : DownloadState) (hash : Uint256) : Option DownloadState :=
  match state.mapBlocksInFlight.lookup hash with
  | none => some state
  | some (nodeid, it) =>
    (state.mapNodeState.lookup nodeid).bind fun nodeState =>
      (nodeState.vBlocksInFlight.find? fun entry => entry.1 = it).map fun entry =>
        { state with
          nQueuedValidatedHeaders := state.nQueuedValidatedHeaders - entry.2.fValidatedHeaders.toInt
          mapNodeState := state.mapNodeState.insert nodeid (deliver nodeState it)
          mapBlocksInFlight := state.mapBlocksInFlight.erase hash }

/-- Append a list node to the list of a node that is asked for a block. -/
def request (nodeState : CNodeState) (it : Nat) (newentry : QueuedBlock) : CNodeState :=
  { nodeState with
    vBlocksInFlight := nodeState.vBlocksInFlight ++ [(it, newentry)]
    nBlocksInFlight := nodeState.nBlocksInFlight + 1 }

/-- `none` where the assertion on the node fails. -/
def markBlockAsInFlight (state : DownloadState) (nodeid : NodeId) (hash : Uint256)
    (pindex : Option CBlockIndex) (now : Int) : Option DownloadState :=
  if (state.mapNodeState.lookup nodeid).isNone then none
  else
    (state.markBlockAsReceived hash).bind fun state =>
      (state.mapNodeState.lookup nodeid).map fun nodeState =>
        let newentry : QueuedBlock :=
          { hash := hash
            pindex := pindex
            nTime := now
            nValidatedQueuedBefore := state.nQueuedValidatedHeaders
            fValidatedHeaders := pindex.isSome }
        { state with
          nQueuedValidatedHeaders :=
            state.nQueuedValidatedHeaders + newentry.fValidatedHeaders.toInt
          mapNodeState :=
            state.mapNodeState.insert nodeid (request nodeState state.nextNode newentry)
          mapBlocksInFlight := state.mapBlocksInFlight.insert hash (nodeid, state.nextNode)
          nextNode := state.nextNode + 1 }

end DownloadState

inductive DownloadCall where
  | initializeNode (nodeid : NodeId) (addrName : String) (addr : CService)
  | finalizeNode (nodeid : NodeId)
  | markBlockAsReceived (hash : Uint256)
  | markBlockAsInFlight (nodeid : NodeId) (hash : Uint256) (pindex : Option CBlockIndex)
      (now : Int)

def DownloadState.call (state : DownloadState) : DownloadCall → Option DownloadState
  | .initializeNode nodeid addrName addr => some (state.initializeNode nodeid addrName addr)
  | .finalizeNode nodeid => state.finalizeNode nodeid
  | .markBlockAsReceived hash => state.markBlockAsReceived hash
  | .markBlockAsInFlight nodeid hash pindex now => state.markBlockAsInFlight nodeid hash pindex now

namespace DownloadState

/-- The number of entries with validated headers in a list. -/
def validated (nodeState : CNodeState) : Nat :=
  nodeState.vBlocksInFlight.countP fun entry => entry.2.fValidatedHeaders

/-- The map, the lists of the nodes and their lengths agree. -/
structure Linked (state : DownloadState) : Prop where
  /-- A hash in the map refers to an entry for it in the list of a known node. -/
  refers : ∀ {hash nodeid it}, state.mapBlocksInFlight.lookup hash = some (nodeid, it) →
    ∃ nodeState, state.mapNodeState.lookup nodeid = some nodeState ∧
      ∃ entry, (it, entry) ∈ nodeState.vBlocksInFlight ∧ entry.hash = hash
  /-- Every entry in the list of a node is the one the map has for its hash. -/
  listed : ∀ {nodeid nodeState it entry}, state.mapNodeState.lookup nodeid = some nodeState →
    (it, entry) ∈ nodeState.vBlocksInFlight →
      state.mapBlocksInFlight.lookup entry.hash = some (nodeid, it)
  /-- The list nodes of a list are distinct. -/
  distinct : ∀ {nodeid nodeState}, state.mapNodeState.lookup nodeid = some nodeState →
    (nodeState.vBlocksInFlight.map Prod.fst).Nodup
  counted : ∀ {nodeid nodeState}, state.mapNodeState.lookup nodeid = some nodeState →
    nodeState.nBlocksInFlight = nodeState.vBlocksInFlight.length

/-- The bookkeeping is exact. -/
structure Exact (state : DownloadState) : Prop where
  linked : state.Linked
  /-- The global counter is the number of entries with validated headers. -/
  validated : state.nQueuedValidatedHeaders = state.mapNodeState.sumOf DownloadState.validated

/-- List nodes that are not made yet are in no list. -/
def Numbered (state : DownloadState) : Prop :=
  ∀ {nodeid nodeState it entry}, state.mapNodeState.lookup nodeid = some nodeState →
    (it, entry) ∈ nodeState.vBlocksInFlight → it < state.nextNode

/-- How far the global counter is above the number of entries with validated headers. -/
def drift (state : DownloadState) : Int :=
  state.nQueuedValidatedHeaders - state.mapNodeState.sumOf DownloadState.validated

/-! ## One node of a list -/

theorem exists_split {entries : List (Nat × QueuedBlock)} (distinct : (entries.map Prod.fst).Nodup)
    {it : Nat} {entry : QueuedBlock} (member : (it, entry) ∈ entries) :
    ∃ before after, entries = before ++ (it, entry) :: after ∧
      (entries.filter fun other => other.1 ≠ it) = before ++ after ∧
      entries.find? (fun other => other.1 = it) = some (it, entry) := by
  obtain ⟨before, after, rfl⟩ := append_of_mem member
  rw [map_append, map_cons, nodup_append] at distinct
  obtain ⟨-, tail, apart⟩ := distinct
  have front : ∀ other ∈ before, other.1 ≠ it := fun other mem =>
    apart other.1 (List.mem_map_of_mem mem) it mem_cons_self
  have back : ∀ other ∈ after, other.1 ≠ it := by
    intro other mem same
    exact (nodup_cons.mp tail).1 (List.mem_map.mpr ⟨other, mem, same⟩)
  refine ⟨before, after, rfl, ?_, ?_⟩
  · rw [filter_append, filter_cons_of_neg (by simp),
      filter_eq_self.mpr (by simpa using front), filter_eq_self.mpr (by simpa using back)]
  · rw [find?_append, find?_eq_none.mpr (by simpa using front),
      find?_cons_of_pos (by simp), none_or]

theorem sumOf_update {map : StdMap NodeId CNodeState} {nodeid : NodeId} {old : CNodeState}
    (found : map.lookup nodeid = some old) (new : CNodeState) :
    StdMap.sumOf (map.insert nodeid new) validated + validated old =
      map.sumOf validated + validated new := by
  have erased := sumOf_erase found validated
  have inserted : sumOf (map.insert nodeid new) validated =
      validated new + sumOf (map.erase nodeid) validated := rfl
  omega

/-! ## Delivering a block -/

section Deliver

variable {state : DownloadState} {nodeid : NodeId} {nodeState : CNodeState} {it : Nat}
  {entry : QueuedBlock}

section

variable (distinct : (nodeState.vBlocksInFlight.map Prod.fst).Nodup)
  (member : (it, entry) ∈ nodeState.vBlocksInFlight)

include distinct member

theorem validated_deliver :
    (validated nodeState : Int) =
      validated (deliver nodeState it) + entry.fValidatedHeaders.toInt := by
  obtain ⟨before, after, split, left, -⟩ := exists_split distinct member
  unfold validated deliver
  dsimp only
  rw [left, split, countP_append, countP_append, countP_cons]
  cases entry.fValidatedHeaders with
  | false => simp
  | true =>
    simp
    omega

theorem length_deliver :
    nodeState.vBlocksInFlight.length = (deliver nodeState it).vBlocksInFlight.length + 1 := by
  obtain ⟨before, after, split, left, -⟩ := exists_split distinct member
  unfold deliver
  dsimp only
  rw [left, split]
  simp only [length_append, length_cons]
  omega

end

def delivered (state : DownloadState) (nodeid : NodeId) (nodeState : CNodeState) (it : Nat)
    (entry : QueuedBlock) : DownloadState :=
  { state with
    nQueuedValidatedHeaders := state.nQueuedValidatedHeaders - entry.fValidatedHeaders.toInt
    mapNodeState := state.mapNodeState.insert nodeid (deliver nodeState it)
    mapBlocksInFlight := state.mapBlocksInFlight.erase entry.hash }

theorem lookup_delivered {other : NodeId} {found : CNodeState}
    (known : (delivered state nodeid nodeState it entry).mapNodeState.lookup other = some found) :
    (other = nodeid ∧ found = deliver nodeState it) ∨
      (other ≠ nodeid ∧ state.mapNodeState.lookup other = some found) := by
  rw [delivered, lookup_insert_ite] at known
  split at known
  next same =>
    cases known
    exact Or.inl ⟨same, rfl⟩
  next apart => exact Or.inr ⟨apart, known⟩

theorem mem_deliver {other : Nat × QueuedBlock} :
    other ∈ (deliver nodeState it).vBlocksInFlight ↔
      other ∈ nodeState.vBlocksInFlight ∧ other.1 ≠ it := by
  rw [deliver, mem_filter, decide_eq_true_eq]

theorem linked_delivered (linked : state.Linked)
    (known : state.mapNodeState.lookup nodeid = some nodeState)
    (member : (it, entry) ∈ nodeState.vBlocksInFlight) :
    (delivered state nodeid nodeState it entry).Linked where
  refers := by
    intro hash other there here
    rw [delivered, lookup_erase_ite] at here
    split at here
    · cases here
    next apart =>
      obtain ⟨found, knownToo, block, listed, rfl⟩ := linked.refers here
      rw [delivered]
      dsimp only
      rw [lookup_insert_ite]
      split
      next same =>
        subst same
        cases known.symm.trans knownToo
        refine ⟨_, rfl, block, mem_deliver.mpr ⟨listed, ?_⟩, rfl⟩
        rintro rfl
        cases inj_on_of_nodup_map (linked.distinct known) listed member rfl
        exact apart rfl
      next => exact ⟨found, knownToo, block, listed, rfl⟩
  listed := by
    intro other found there block knownToo listed
    have placed := linked.listed known member
    have elsewhere : state.mapBlocksInFlight.lookup block.hash = some (other, there) ∧
        (other, there) ≠ (nodeid, it) := by
      rcases lookup_delivered knownToo with ⟨rfl, rfl⟩ | ⟨apart, knownToo⟩
      · obtain ⟨listed, apart⟩ := mem_deliver.mp listed
        exact ⟨linked.listed known listed, fun same => apart (Prod.mk.inj same).2⟩
      · exact ⟨linked.listed knownToo listed, fun same => apart (Prod.mk.inj same).1⟩
    rw [delivered, lookup_erase_ite, if_neg, elsewhere.1]
    intro sameHash
    rw [sameHash, placed] at elsewhere
    exact elsewhere.2 (Option.some.inj elsewhere.1).symm
  distinct := by
    intro other found knownToo
    rcases lookup_delivered knownToo with ⟨-, rfl⟩ | ⟨-, knownToo⟩
    · exact (linked.distinct known).sublist (List.Sublist.map _ filter_sublist)
    · exact linked.distinct knownToo
  counted := by
    intro other found knownToo
    rcases lookup_delivered knownToo with ⟨-, rfl⟩ | ⟨-, knownToo⟩
    · have counted := linked.counted known
      have fewer := length_deliver (linked.distinct known) member
      have count : (deliver nodeState it).nBlocksInFlight = nodeState.nBlocksInFlight - 1 := rfl
      omega
    · exact linked.counted knownToo

theorem numbered_delivered (numbered : state.Numbered)
    (known : state.mapNodeState.lookup nodeid = some nodeState) :
    (delivered state nodeid nodeState it entry).Numbered := by
  intro other found there block knownToo listed
  rcases lookup_delivered knownToo with ⟨-, rfl⟩ | ⟨-, knownToo⟩
  · exact numbered known (mem_deliver.mp listed).1
  · exact numbered knownToo listed

theorem drift_delivered (linked : state.Linked)
    (known : state.mapNodeState.lookup nodeid = some nodeState)
    (member : (it, entry) ∈ nodeState.vBlocksInFlight) :
    (delivered state nodeid nodeState it entry).drift = state.drift := by
  have updated := sumOf_update known (deliver nodeState it)
  have fewer := validated_deliver (linked.distinct known) member
  unfold drift delivered
  dsimp only
  omega

end Deliver

/-! ## What each call keeps -/

section Calls

variable {state : DownloadState}

/-- What holds after a block is received. -/
structure Received (state : DownloadState) (hash : Uint256) (next : DownloadState) : Prop where
  linked : next.Linked
  numbered : next.Numbered
  gone : next.mapBlocksInFlight.lookup hash = none
  known : ∀ nodeid,
    (next.mapNodeState.lookup nodeid).isSome = (state.mapNodeState.lookup nodeid).isSome
  drift : next.drift = state.drift

theorem markBlockAsReceived_spec (linked : state.Linked) (numbered : state.Numbered)
    (hash : Uint256) :
    ∃ next, state.markBlockAsReceived hash = some next ∧ Received state hash next := by
  unfold markBlockAsReceived
  cases found : state.mapBlocksInFlight.lookup hash with
  | none => exact ⟨state, rfl, linked, numbered, found, fun _ => rfl, rfl⟩
  | some place =>
    obtain ⟨nodeid, it⟩ := place
    obtain ⟨nodeState, known, entry, member, rfl⟩ := linked.refers found
    obtain ⟨-, -, -, -, first⟩ := exists_split (linked.distinct known) member
    dsimp only
    rw [known, bind_some, first, map_some]
    refine ⟨delivered state nodeid nodeState it entry, rfl, linked_delivered linked known member,
      numbered_delivered numbered known, ?_, ?_, drift_delivered linked known member⟩
    · simp [delivered]
    · intro other
      rw [delivered]
      dsimp only
      rw [lookup_insert_ite]
      split
      next same =>
        rw [same, known]
        rfl
      next => rfl

/-- The calls keep the links and the numbering, and move the drift by what is lost. -/
structure Kept (state : DownloadState) (lost : Nat) (next : DownloadState) : Prop where
  linked : next.Linked
  numbered : next.Numbered
  drift : next.drift = state.drift + lost

variable {nodeid : NodeId}

/-- Asking a node for a block that is nowhere in flight. -/
theorem request_kept (linked : state.Linked) (numbered : state.Numbered) {nodeState : CNodeState}
    (known : state.mapNodeState.lookup nodeid = some nodeState) (newentry : QueuedBlock)
    (gone : state.mapBlocksInFlight.lookup newentry.hash = none) :
    Kept state 0 { state with
      nQueuedValidatedHeaders := state.nQueuedValidatedHeaders + newentry.fValidatedHeaders.toInt
      mapNodeState := state.mapNodeState.insert nodeid (request nodeState state.nextNode newentry)
      mapBlocksInFlight := state.mapBlocksInFlight.insert newentry.hash (nodeid, state.nextNode)
      nextNode := state.nextNode + 1 } := by
  have old : ∀ {other found}, (state.mapNodeState.insert nodeid
      (request nodeState state.nextNode newentry)).lookup other = some found →
      (other = nodeid ∧ found = request nodeState state.nextNode newentry) ∨
        state.mapNodeState.lookup other = some found := by
    intro other found knownToo
    rw [lookup_insert_ite] at knownToo
    split at knownToo
    next same =>
      cases knownToo
      exact Or.inl ⟨same, rfl⟩
    next => exact Or.inr knownToo
  have listedOld : ∀ {other found it entry}, state.mapNodeState.lookup other = some found →
      (it, entry) ∈ found.vBlocksInFlight →
      (state.mapBlocksInFlight.insert newentry.hash (nodeid, state.nextNode)).lookup entry.hash =
        some (other, it) := by
    intro other found it entry knownToo listed
    have placed := linked.listed knownToo listed
    rw [lookup_insert_ite, if_neg, placed]
    intro same
    rw [same, gone] at placed
    cases placed
  refine ⟨⟨?_, ?_, ?_, ?_⟩, ?_, ?_⟩
  · intro hash other it here
    dsimp only at here ⊢
    rw [lookup_insert_ite] at here
    split at here
    next same =>
      cases here
      rw [AList.lookup_insert]
      exact ⟨_, rfl, newentry, mem_append_right _ mem_cons_self, same.symm⟩
    next =>
      obtain ⟨found, knownToo, entry, listed, rfl⟩ := linked.refers here
      rw [lookup_insert_ite]
      split
      next same =>
        subst same
        cases known.symm.trans knownToo
        exact ⟨_, rfl, entry, mem_append_left _ listed, rfl⟩
      next => exact ⟨found, knownToo, entry, listed, rfl⟩
  · intro other found it entry knownToo listed
    rcases old knownToo with ⟨rfl, rfl⟩ | knownToo
    · rcases mem_append.mp listed with listed | listed
      · exact listedOld known listed
      · obtain ⟨rfl, rfl⟩ := Prod.mk.inj (mem_singleton.mp listed)
        exact AList.lookup_insert _
    · exact listedOld knownToo listed
  · intro other found knownToo
    rcases old knownToo with ⟨rfl, rfl⟩ | knownToo
    · rw [request, map_append, nodup_append]
      refine ⟨linked.distinct known, nodup_singleton _, ?_⟩
      intro it mem next isNext
      obtain ⟨⟨there, entry⟩, listed, rfl⟩ := List.mem_map.mp mem
      have before := numbered known listed
      rw [map_singleton, mem_singleton] at isNext
      dsimp only at isNext ⊢
      omega
    · exact linked.distinct knownToo
  · intro other found knownToo
    rcases old knownToo with ⟨rfl, rfl⟩ | knownToo
    · have counted := linked.counted known
      rw [request]
      dsimp only
      rw [length_append, length_singleton]
      omega
    · exact linked.counted knownToo
  · intro other found it entry knownToo listed
    dsimp only
    rcases old knownToo with ⟨rfl, rfl⟩ | knownToo
    · rcases mem_append.mp listed with listed | listed
      · have before := numbered known listed
        omega
      · obtain ⟨rfl, rfl⟩ := Prod.mk.inj (mem_singleton.mp listed)
        omega
    · have before := numbered knownToo listed
      omega
  · have updated := sumOf_update known (request nodeState state.nextNode newentry)
    have more : (validated (request nodeState state.nextNode newentry) : Int) =
        validated nodeState + newentry.fValidatedHeaders.toInt := by
      unfold validated request
      rw [countP_append, countP_singleton]
      cases newentry.fValidatedHeaders <;> simp
    unfold drift
    dsimp only
    omega

variable {next : DownloadState}

theorem markBlockAsInFlight_kept (linked : state.Linked) (numbered : state.Numbered)
    {hash : Uint256} {pindex : Option CBlockIndex} {now : Int}
    (marked : state.markBlockAsInFlight nodeid hash pindex now = some next) :
    Kept state 0 next := by
  obtain ⟨middle, received, spec⟩ := markBlockAsReceived_spec linked numbered hash
  unfold markBlockAsInFlight at marked
  split at marked
  · cases marked
  rw [received, bind_some, map_eq_some_iff] at marked
  obtain ⟨nodeState, known, rfl⟩ := marked
  have kept := request_kept spec.linked spec.numbered known
    { hash := hash
      pindex := pindex
      nTime := now
      nValidatedQueuedBefore := middle.nQueuedValidatedHeaders
      fValidatedHeaders := pindex.isSome } spec.gone
  exact ⟨kept.linked, kept.numbered, kept.drift.trans (by rw [spec.drift])⟩

theorem lookup_initializeNode {other : NodeId} {addrName : String} {addr : CService}
    {found : CNodeState}
    (known : (state.initializeNode nodeid addrName addr).mapNodeState.lookup other = some found) :
    (∃ old, state.mapNodeState.lookup other = some old ∧
        found.vBlocksInFlight = old.vBlocksInFlight ∧
        found.nBlocksInFlight = old.nBlocksInFlight) ∨
      (found.vBlocksInFlight = [] ∧ found.nBlocksInFlight = 0) := by
  unfold initializeNode at known
  dsimp only at known
  rw [lookup_insert_ite] at known
  split at known
  next same =>
    cases known
    subst same
    cases old : state.mapNodeState.lookup other with
    | none => exact Or.inr ⟨rfl, rfl⟩
    | some nodeState => exact Or.inl ⟨nodeState, rfl, rfl, rfl⟩
  next => exact Or.inl ⟨found, known, rfl, rfl⟩

theorem initializeNode_kept (linked : state.Linked) (numbered : state.Numbered) (nodeid : NodeId)
    (addrName : String) (addr : CService) :
    Kept state 0 (state.initializeNode nodeid addrName addr) := by
  refine ⟨⟨?_, ?_, ?_, ?_⟩, ?_, ?_⟩
  · intro hash other it here
    obtain ⟨found, known, entry, listed, rfl⟩ := linked.refers here
    unfold initializeNode
    dsimp only
    rw [lookup_insert_ite]
    split
    next same =>
      subst same
      rw [known]
      exact ⟨_, rfl, entry, listed, rfl⟩
    next => exact ⟨found, known, entry, listed, rfl⟩
  · intro other found it entry known listed
    rcases lookup_initializeNode known with ⟨old, knownOld, same, -⟩ | ⟨empty, -⟩
    · exact linked.listed knownOld (same ▸ listed)
    · rw [empty] at listed
      cases listed
  · intro other found known
    rcases lookup_initializeNode known with ⟨old, knownOld, same, -⟩ | ⟨empty, -⟩
    · rw [same]
      exact linked.distinct knownOld
    · rw [empty]
      exact nodup_nil
  · intro other found known
    rcases lookup_initializeNode known with ⟨old, knownOld, same, count⟩ | ⟨empty, count⟩
    · rw [same, count]
      exact linked.counted knownOld
    · rw [empty, count]
      rfl
  · intro other found it entry known listed
    rcases lookup_initializeNode known with ⟨old, knownOld, same, -⟩ | ⟨empty, -⟩
    · exact numbered knownOld (same ▸ listed)
    · rw [empty] at listed
      cases listed
  · unfold drift initializeNode
    dsimp only
    cases known : state.mapNodeState.lookup nodeid with
    | none =>
      rw [sumOf_insert known]
      simp [validated]
    | some nodeState =>
      have updated := sumOf_update known { nodeState with name := addrName, address := addr }
      have same : validated { nodeState with name := addrName, address := addr } =
          validated nodeState := rfl
      rw [getD_some]
      omega

/-- The entries with validated headers that a node takes with it. -/
def lost (state : DownloadState) : DownloadCall → Nat
  | .finalizeNode nodeid => ((state.mapNodeState.lookup nodeid).map validated).getD 0
  | _ => 0

theorem finalizeNode_kept (linked : state.Linked) (numbered : state.Numbered)
    (finalized : state.finalizeNode nodeid = some next) :
    Kept state (state.lost (.finalizeNode nodeid)) next := by
  unfold finalizeNode at finalized
  split at finalized
  · cases finalized
  next nodeState known =>
  cases finalized
  have left : ∀ {other found}, (state.mapNodeState.erase nodeid).lookup other = some found →
      other ≠ nodeid ∧ state.mapNodeState.lookup other = some found := by
    intro other found knownToo
    rw [lookup_erase_ite] at knownToo
    split at knownToo
    · cases knownToo
    next apart => exact ⟨apart, knownToo⟩
  refine ⟨⟨?_, ?_, ?_, ?_⟩, ?_, ?_⟩
  · intro hash other it here
    dsimp only at here ⊢
    rw [lookup_eraseAll] at here
    split at here
    · cases here
    next kept =>
      obtain ⟨found, knownToo, entry, listed, rfl⟩ := linked.refers here
      rw [lookup_erase_ite, if_neg]
      · exact ⟨found, knownToo, entry, listed, rfl⟩
      · rintro rfl
        cases known.symm.trans knownToo
        exact kept (List.mem_map.mpr ⟨(it, entry), listed, rfl⟩)
  · intro other found it entry knownToo listed
    obtain ⟨apart, knownToo⟩ := left knownToo
    have placed := linked.listed knownToo listed
    dsimp only
    rw [lookup_eraseAll, if_neg, placed]
    intro taken
    obtain ⟨⟨there, block⟩, listedToo, same⟩ := List.mem_map.mp taken
    have placedToo := linked.listed known listedToo
    dsimp only at same
    rw [same, placed, Option.some.injEq, Prod.mk.injEq] at placedToo
    exact apart placedToo.1
  · intro other found knownToo
    exact linked.distinct (left knownToo).2
  · intro other found knownToo
    exact linked.counted (left knownToo).2
  · intro other found it entry knownToo listed
    exact numbered (left knownToo).2 listed
  · have erased := sumOf_erase known validated
    unfold drift lost
    dsimp only
    rw [known, map_some, getD_some]
    omega

theorem call_kept (linked : state.Linked) (numbered : state.Numbered) {call : DownloadCall}
    (called : state.call call = some next) : Kept state (state.lost call) next := by
  cases call with
  | initializeNode nodeid addrName addr =>
    cases called
    exact initializeNode_kept linked numbered nodeid addrName addr
  | finalizeNode nodeid => exact finalizeNode_kept linked numbered called
  | markBlockAsReceived hash =>
    obtain ⟨after, received, spec⟩ := markBlockAsReceived_spec linked numbered hash
    cases received.symm.trans called
    exact ⟨spec.linked, spec.numbered, by rw [spec.drift]; exact (Int.add_zero _).symm⟩
  | markBlockAsInFlight nodeid hash pindex now => exact markBlockAsInFlight_kept linked numbered called

end Calls

/-! ## Runs -/

theorem exact_iff_drift {state : DownloadState} :
    state.Exact ↔ state.Linked ∧ state.drift = 0 := by
  unfold drift
  constructor
  · intro exact
    have validated := exact.validated
    exact ⟨exact.linked, by omega⟩
  · rintro ⟨linked, zero⟩
    exact ⟨linked, by omega⟩

/-- A node is finalized only when no block with validated headers is in flight from it. -/
def FinalizedIdle (state : DownloadState) (call : DownloadCall) : Prop :=
  ∀ nodeid nodeState, call = .finalizeNode nodeid →
    state.mapNodeState.lookup nodeid = some nodeState →
      ∀ entry ∈ nodeState.vBlocksInFlight, entry.2.fValidatedHeaders = false

theorem lost_eq_zero_iff (state : DownloadState) (call : DownloadCall) :
    state.lost call = 0 ↔ state.FinalizedIdle call := by
  cases call with
  | finalizeNode nodeid =>
    change ((state.mapNodeState.lookup nodeid).map validated).getD 0 = 0 ↔ _
    unfold FinalizedIdle
    cases known : state.mapNodeState.lookup nodeid with
    | none =>
      simp only [map_none, getD_none, true_iff]
      rintro other nodeState same knownToo
      cases same
      cases known.symm.trans knownToo
    | some nodeState =>
      rw [map_some, getD_some, validated, countP_eq_zero]
      constructor
      · intro none other found same knownToo entry listed
        cases same
        cases known.symm.trans knownToo
        simpa using none entry listed
      · intro idle entry listed
        rw [idle nodeid nodeState rfl known entry listed]
        decide
  | _ =>
    unfold lost FinalizedIdle
    simp

theorem linked_empty : ({} : DownloadState).Linked where
  refers found := by cases found
  listed known := by cases known
  distinct known := by cases known
  counted known := by cases known

theorem numbered_empty : ({} : DownloadState).Numbered := by
  intro nodeid nodeState it entry known
  cases known

/-- From the start, the map and the lists of the nodes agree in every state that calls lead to,
and the bookkeeping is exact in all of them exactly if no node takes blocks with validated
headers with it. -/
theorem downloads_exact_iff (calls : List DownloadCall) :
    Runs.Throughout call Linked {} calls ∧
      (Runs.Throughout call Exact {} calls ↔ Runs.Meets call FinalizedIdle {} calls) := by
  have both : ∀ state call next, Linked state ∧ Numbered state → True →
      DownloadState.call state call = some next → Linked next ∧ Numbered next :=
    fun state call next holds _ called =>
      ⟨(call_kept holds.1 holds.2 called).linked, (call_kept holds.1 holds.2 called).numbered⟩
  refine ⟨Runs.throughout_of_kept (fun state holds => holds.1) both ⟨linked_empty, numbered_empty⟩
    (Runs.Meets.trivial call {} calls), ?_⟩
  apply Runs.throughout_iff_meets (fun state call next holds met _ called _ =>
    both state call next holds met called)
  · intro state call next holds _ exact called
    have kept := call_kept holds.1 holds.2 called
    have before := (exact_iff_drift.mp exact).2
    have drifted := kept.drift
    rw [exact_iff_drift, ← lost_eq_zero_iff]
    constructor
    · rintro ⟨-, zero⟩
      omega
    · intro zero
      exact ⟨kept.linked, by omega⟩
  · intro state call stuck
    rw [← lost_eq_zero_iff]
    cases call with
    | finalizeNode nodeid =>
      change ((state.mapNodeState.lookup nodeid).map validated).getD 0 = 0
      change state.finalizeNode nodeid = none at stuck
      unfold finalizeNode at stuck
      split at stuck
      next unknown =>
        rw [unknown]
        rfl
      · cases stuck
    | _ => rfl
  · exact ⟨linked_empty, numbered_empty⟩
  · exact exact_iff_drift.mpr ⟨linked_empty, rfl⟩
  · exact Runs.Meets.trivial call {} calls

/-- A node that leaves while a block is in flight from it leaves the global counter at one. -/
theorem downloads_drift :
    ∃ final, Runs.run call {} [.initializeNode 1 "peer" CService.init,
        .markBlockAsInFlight 1 7 (some { phashBlock := some 7, nHeight := 3 }) 100,
        .finalizeNode 1] = some final ∧
      final.mapNodeState = ∅ ∧ final.nQueuedValidatedHeaders = 1 ∧ ¬ final.Exact := by
  refine ⟨_, rfl, rfl, rfl, fun exact => ?_⟩
  have validated := exact.validated
  cases validated

end DownloadState

end CentNode
