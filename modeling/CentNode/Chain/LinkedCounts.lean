import CentNode.Chain.StoredIndex

/-!
# Transaction counts of linked entries

What `ReceivedBlockTransactions` keeps of the counts and of the entries that
wait, for every order in which blocks arrive and also where a count wraps.
-/

namespace CentNode

open List Function Option

/-- The entry has its data and is neither queued nor waiting. -/
structure Joined (haveData : BlockPtr → Bool) (mapBlocksUnlinked : List (Option BlockPtr × BlockPtr))
    (queue : List BlockPtr) (pindex : BlockPtr) : Prop where
  data : haveData pindex = true
  free : pindex ∉ queue
  settled : ∀ up, (up, pindex) ∉ mapBlocksUnlinked

/-- The counts while the entries of `queue` are about to be linked. -/
structure CountsOk (tree : BlockTree) (haveData : BlockPtr → Bool) (nTx nChainTx : BlockPtr → Nat)
    (mapBlocksUnlinked : List (Option BlockPtr × BlockPtr)) (queue : List BlockPtr) : Prop where
  bare : ∀ {pindex}, tree.Known pindex → haveData pindex = false → nChainTx pindex = 0
  waiting : ∀ {up pindex}, (up, pindex) ∈ mapBlocksUnlinked → tree.Known pindex ∧
    haveData pindex = true ∧ pindex ∉ queue ∧ nChainTx pindex = 0 ∧
      ∃ parent, up = some parent ∧ tree.pprev pindex = some parent ∧ nChainTx parent = 0
  counted : ∀ {pindex}, tree.Known pindex → Joined haveData mapBlocksUnlinked queue pindex →
    nChainTx pindex = (((tree.pprev pindex).map nChainTx).getD 0 + nTx pindex) % 2 ^ 32 ∧
      ∀ parent, tree.pprev pindex = some parent → Joined haveData mapBlocksUnlinked queue parent
  queued : ∀ {pindex}, pindex ∈ queue → tree.Known pindex ∧ haveData pindex = true ∧
    nChainTx pindex = 0 ∧ (∀ up, (up, pindex) ∉ mapBlocksUnlinked) ∧
      ∀ parent, tree.pprev pindex = some parent → Joined haveData mapBlocksUnlinked queue parent
  once : queue.Nodup
  distinct : mapBlocksUnlinked.Nodup

variable {tree : BlockTree} {haveData : BlockPtr → Bool} {nTx nChainTx : BlockPtr → Nat}
  {mapBlocksUnlinked : List (Option BlockPtr × BlockPtr)} {queue rest : List BlockPtr}
  {pindex : BlockPtr}

theorem BlockTree.Linked.parent_ne (linked : tree.Linked) {parent : BlockPtr}
    (known : tree.Known pindex) (edge : tree.pprev pindex = some parent) : parent ≠ pindex := by
  rintro rfl
  have grows := linked.ranked.rank_parent known edge
  omega

/-! ## One iteration of the loop -/

/-- The pairs that wait for an entry. -/
def waitingPairs (mapBlocksUnlinked : List (Option BlockPtr × BlockPtr)) (pindex : BlockPtr) :
    List BlockPtr :=
  (mapBlocksUnlinked.filter (·.1 = some pindex)).map (·.2)

theorem mem_waitingPairs {child : BlockPtr} :
    child ∈ waitingPairs mapBlocksUnlinked pindex ↔ (some pindex, child) ∈ mapBlocksUnlinked := by
  unfold waitingPairs
  rw [List.mem_map]
  constructor
  · rintro ⟨⟨up, other⟩, inside, rfl⟩
    obtain ⟨member, same⟩ := mem_filter.mp inside
    have up_eq : up = some pindex := of_decide_eq_true same
    rw [← up_eq]
    exact member
  · intro member
    exact ⟨(some pindex, child), mem_filter.mpr ⟨member, decide_eq_true rfl⟩, rfl⟩

section

variable (ok : CountsOk tree haveData nTx nChainTx mapBlocksUnlinked (pindex :: rest))

include ok

/-- Linking the first entry of the queue joins it, and nothing else. -/
theorem CountsOk.joined_iff {other : BlockPtr} :
    Joined haveData (mapBlocksUnlinked.filter (·.1 ≠ some pindex))
        (rest ++ waitingPairs mapBlocksUnlinked pindex) other ↔
      other = pindex ∨ Joined haveData mapBlocksUnlinked (pindex :: rest) other := by
  obtain ⟨_, data, _, settled, _⟩ := ok.queued mem_cons_self
  obtain ⟨outside, _⟩ := nodup_cons.mp ok.once
  constructor
  · intro joined
    by_cases same : other = pindex
    · exact Or.inl same
    · refine Or.inr ⟨joined.data, ?_, fun up member => ?_⟩
      · intro inside
        rcases mem_cons.mp inside with here | later
        · exact same here
        · exact joined.free (mem_append_left _ later)
      · by_cases isParent : up = some pindex
        · subst isParent
          exact joined.free (mem_append_right _ (mem_waitingPairs.mpr member))
        · exact joined.settled up (mem_filter.mpr ⟨member, decide_eq_true isParent⟩)
  · rintro (rfl | joined)
    · refine ⟨data, ?_, fun up member => settled up (mem_filter.mp member).1⟩
      intro inside
      rcases mem_append.mp inside with later | waits
      · exact outside later
      · exact settled _ (mem_waitingPairs.mp waits)
    · refine ⟨joined.data, ?_, fun up member => joined.settled up (mem_filter.mp member).1⟩
      intro inside
      rcases mem_append.mp inside with later | waits
      · exact joined.free (mem_cons_of_mem _ later)
      · exact joined.settled _ (mem_waitingPairs.mp waits)

theorem CountsOk.link (linked : tree.Linked) :
    CountsOk tree haveData nTx
      (Function.update nChainTx pindex
        ((((tree.pprev pindex).map nChainTx).getD 0 + nTx pindex) % 2 ^ 32))
      (mapBlocksUnlinked.filter (·.1 ≠ some pindex))
      (rest ++ waitingPairs mapBlocksUnlinked pindex) := by
  obtain ⟨known, data, _, settled, parents⟩ := ok.queued mem_cons_self
  obtain ⟨outside, nodup⟩ := nodup_cons.mp ok.once
  have notJoined : ¬ Joined haveData mapBlocksUnlinked (pindex :: rest) pindex :=
    fun joined => joined.free mem_cons_self
  -- an entry that waits names its parent
  have names : ∀ {up child}, (up, child) ∈ mapBlocksUnlinked → up = tree.pprev child := by
    intro up child member
    obtain ⟨_, _, _, _, parent, up_eq, edge, _⟩ := ok.waiting member
    rw [up_eq, edge]
  constructor
  case bare =>
    intro other otherKnown missing
    have differ : other ≠ pindex := by
      rintro rfl
      rw [data] at missing
      cases missing
    rw [update_of_ne differ]
    exact ok.bare otherKnown missing
  case waiting =>
    intro up child member
    obtain ⟨inside, notHere⟩ := mem_filter.mp member
    have notHere : up ≠ some pindex := of_decide_eq_true notHere
    obtain ⟨childKnown, childData, free, unlinked, parent, up_eq, edge, zero⟩ := ok.waiting inside
    have childDiffers : child ≠ pindex := fun same => free (same ▸ mem_cons_self)
    have parentDiffers : parent ≠ pindex := fun same => notHere (same ▸ up_eq)
    refine ⟨childKnown, childData, ?_, ?_, parent, up_eq, edge, ?_⟩
    · intro queued
      rcases mem_append.mp queued with later | waits
      · exact free (mem_cons_of_mem _ later)
      · exact notHere ((names inside).trans (names (mem_waitingPairs.mp waits)).symm)
    · rw [update_of_ne childDiffers]
      exact unlinked
    · rw [update_of_ne parentDiffers]
      exact zero
  case counted =>
    intro other otherKnown joined
    rcases ok.joined_iff.mp joined with rfl | before
    · rw [update_self]
      refine ⟨?_, fun parent edge => ok.joined_iff.mpr (Or.inr (parents parent edge))⟩
      cases edge : tree.pprev other with
      | none => rfl
      | some parent =>
        rw [map_some, map_some,
          update_of_ne (linked.parent_ne otherKnown edge)]
    · have differ : other ≠ pindex := fun same => notJoined (same ▸ before)
      obtain ⟨sum, ups⟩ := ok.counted otherKnown before
      refine ⟨?_, fun parent edge => ok.joined_iff.mpr (Or.inr (ups parent edge))⟩
      rw [update_of_ne differ, sum]
      cases edge : tree.pprev other with
      | none => rfl
      | some parent =>
        have parentDiffers : parent ≠ pindex := fun same => notJoined (same ▸ ups parent edge)
        rw [map_some, map_some, update_of_ne parentDiffers]
  case queued =>
    intro child inside
    rcases mem_append.mp inside with later | waits
    · obtain ⟨childKnown, childData, zero, free, ups⟩ := ok.queued (mem_cons_of_mem pindex later)
      have differ : child ≠ pindex := fun same => outside (same ▸ later)
      refine ⟨childKnown, childData, ?_, fun up member => free up (mem_filter.mp member).1,
        fun parent edge => ok.joined_iff.mpr (Or.inr (ups parent edge))⟩
      rw [update_of_ne differ]
      exact zero
    · have pair := mem_waitingPairs.mp waits
      obtain ⟨childKnown, childData, free, zero, parent, up_eq, edge, _⟩ := ok.waiting pair
      cases up_eq
      have differ : child ≠ pindex := fun same => free (same ▸ mem_cons_self)
      refine ⟨childKnown, childData, ?_, fun up member => ?_, fun other edgeToo => ?_⟩
      · rw [update_of_ne differ]
        exact zero
      · obtain ⟨member, notHere⟩ := mem_filter.mp member
        exact of_decide_eq_true notHere ((names member).trans edge)
      · rw [edge] at edgeToo
        cases edgeToo
        exact ok.joined_iff.mpr (Or.inl rfl)
  case once =>
    refine List.Nodup.append nodup ?_ ?_
    · refine List.Nodup.map_on ?_ (ok.distinct.filter _)
      rintro ⟨up, child⟩ member ⟨upToo, childToo⟩ memberToo same
      have first : up = some pindex := of_decide_eq_true (mem_filter.mp member).2
      have second : upToo = some pindex := of_decide_eq_true (mem_filter.mp memberToo).2
      rw [first, second]
      exact congrArg _ same
    · intro child later waits
      obtain ⟨_, _, free, _⟩ := ok.waiting (mem_waitingPairs.mp waits)
      exact free (mem_cons_of_mem _ later)
  case distinct => exact ok.distinct.filter _

end

/-! ## The loop and its caller -/

namespace IndexState

variable {state : IndexState}

/-- The counts of the entries, while the entries of `queue` are about to be linked. -/
def Counts (state : IndexState) (queue : List BlockPtr) : Prop :=
  CountsOk state.tree (fun pindex => (state.nStatus pindex).haveData) state.nTx state.nChainTx
    state.mapBlocksUnlinked queue

/-- The loop touches counts, sequence ids, candidates and what waits. -/
structure SameEntries (before after : IndexState) : Prop where
  tree : after.tree = before.tree
  nStatus : after.nStatus = before.nStatus
  nTx : after.nTx = before.nTx

theorem linkQueue_counts {fuel : Nat}
    (enough : queue.length + state.mapBlocksUnlinked.length ≤ fuel) (linked : state.tree.Linked)
    (ok : state.Counts queue) :
    (linkQueue fuel queue state).Counts [] ∧ SameEntries state (linkQueue fuel queue state) := by
  induction fuel generalizing queue state with
  | zero =>
    obtain rfl : queue = [] := eq_nil_of_length_eq_zero (by omega)
    exact ⟨ok, rfl, rfl, rfl⟩
  | succ fuel ih =>
    cases queue with
    | nil => exact ⟨ok, rfl, rfl, rfl⟩
    | cons pindex rest =>
      have split : (state.mapBlocksUnlinked.filter (·.1 = some pindex)).length +
          (state.mapBlocksUnlinked.filter (·.1 ≠ some pindex)).length =
            state.mapBlocksUnlinked.length := by
        have parts := @length_eq_length_filter_add _ state.mapBlocksUnlinked
          (fun pair => decide (pair.1 = some pindex))
        simp only [decide_not]
        exact parts.symm
      have shorter : (rest ++ state.waitingFor pindex).length +
          (state.linkBlock pindex).mapBlocksUnlinked.length ≤ fuel := by
        have length : (state.waitingFor pindex).length =
            (state.mapBlocksUnlinked.filter (·.1 = some pindex)).length := length_map _
        rw [length_append, length]
        rw [length_cons] at enough
        change _ + (state.mapBlocksUnlinked.filter (·.1 ≠ some pindex)).length ≤ fuel
        omega
      obtain ⟨counts, same⟩ := @ih (rest ++ state.waitingFor pindex)
        (state.linkBlock pindex) shorter linked (CountsOk.link ok linked)
      exact ⟨counts, same.tree, same.nStatus, same.nTx⟩

/-- The state in which `ReceivedBlockTransactions` decides whether to link. -/
def withData (state : IndexState) (block : CBlock) (pindexNew : BlockPtr) : IndexState :=
  { state with
    nTx := Function.update state.nTx pindexNew block.vtx.length
    nChainTx := Function.update state.nChainTx pindexNew 0
    nStatus := Function.update state.nStatus pindexNew
      (({ state.nStatus pindexNew with haveData := true }).raiseValidity .transactions) }

theorem haveData_withData (block : CBlock) (pindexNew other : BlockPtr) :
    ((state.withData block pindexNew).nStatus other).haveData =
      if other = pindexNew then true else (state.nStatus other).haveData := by
  unfold withData
  dsimp only
  by_cases same : other = pindexNew
  · subst same
    rw [update_self, if_pos rfl]
    exact (BlockStatus.raiseValidity_flags _ _).2.2
  · rw [update_of_ne same, if_neg same]

section Received

variable {block : CBlock} {pindexNew : BlockPtr}

variable {unlinked : List (Option BlockPtr × BlockPtr)}

theorem joined_withData (block : CBlock) (missing : (state.nStatus pindexNew).haveData = false)
    {queue : List BlockPtr} (only : ∀ child ∈ queue, child = pindexNew)
    (grows : ∀ {up child}, (up, child) ∈ unlinked →
      (up, child) ∈ state.mapBlocksUnlinked ∨ child = pindexNew) {other : BlockPtr}
    (joined : Joined (fun pindex => (state.nStatus pindex).haveData)
      state.mapBlocksUnlinked [] other) :
    other ≠ pindexNew ∧ Joined (fun pindex => ((state.withData block pindexNew).nStatus pindex).haveData)
      unlinked queue other := by
  have differ : other ≠ pindexNew := by
    rintro rfl
    cases joined.data.symm.trans missing
  refine ⟨differ, ?_, fun inside => differ (only other inside), fun up member => ?_⟩
  · rw [haveData_withData, if_neg differ]
    exact joined.data
  · rcases grows member with before | new
    · exact joined.settled up before
    · exact differ new

/-- The parts of the invariant that do not depend on whether the block is linked. -/
theorem Counts.withData (counts : state.Counts []) (known : state.tree.Known pindexNew)
    (missing : (state.nStatus pindexNew).haveData = false) {queue : List BlockPtr}
    (only : ∀ child ∈ queue, child = pindexNew) (grows : ∀ {up child}, (up, child) ∈ unlinked →
      (up, child) ∈ state.mapBlocksUnlinked ∨ child = pindexNew)
    (keeps : ∀ {pair}, pair ∈ state.mapBlocksUnlinked → pair ∈ unlinked)
    (held : pindexNew ∈ queue ∨ ∃ up, (up, pindexNew) ∈ unlinked)
    (waits : ∀ {up}, (up, pindexNew) ∈ unlinked → pindexNew ∉ queue ∧ ∃ parent, up = some parent ∧
      state.tree.pprev pindexNew = some parent ∧ state.nChainTx parent = 0)
    (parents : pindexNew ∈ queue → ∀ parent, state.tree.pprev pindexNew = some parent →
      Joined (fun pindex => (state.nStatus pindex).haveData) state.mapBlocksUnlinked [] parent)
    (once : queue.Nodup) (distinct : unlinked.Nodup) :
    IndexState.Counts { state.withData block pindexNew with mapBlocksUnlinked := unlinked } queue := by
  have zero : ∀ {other}, state.nChainTx other = 0 →
      Function.update state.nChainTx pindexNew 0 other = 0 := by
    intro other before
    by_cases same : other = pindexNew
    · rw [same, update_self]
    · rw [update_of_ne same, before]
  constructor
  case bare =>
    intro other otherKnown bare
    change ((state.withData block pindexNew).nStatus other).haveData = false at bare
    rw [haveData_withData] at bare
    split at bare
    · cases bare
    · exact zero (CountsOk.bare counts otherKnown bare)
  case waiting =>
    intro up child member
    rcases grows member with before | rfl
    · obtain ⟨childKnown, data, _, unlinked, parent, up_eq, edge, parentZero⟩ :=
        CountsOk.waiting counts before
      have differ : child ≠ pindexNew := by
        rintro rfl
        cases data.symm.trans missing
      refine ⟨childKnown, ?_, fun inside => differ (only child inside), zero unlinked, parent, up_eq,
        edge, zero parentZero⟩
      exact (haveData_withData block pindexNew child).trans ((if_neg differ).trans data)
    · obtain ⟨free, parent, up_eq, edge, parentZero⟩ := waits member
      refine ⟨known, ?_, free, ?_, parent, up_eq, edge, zero parentZero⟩
      · exact (haveData_withData block child child).trans (if_pos rfl)
      · exact update_self _ _ _
  case counted =>
    intro other otherKnown joined
    have differ : other ≠ pindexNew := by
      rintro rfl
      rcases held with inside | ⟨up, member⟩
      · exact joined.free inside
      · exact joined.settled up member
    have data := joined.data
    change ((state.withData block pindexNew).nStatus other).haveData = true at data
    rw [haveData_withData, if_neg differ] at data
    have before : Joined (fun pindex => (state.nStatus pindex).haveData) state.mapBlocksUnlinked []
        other :=
      ⟨data, not_mem_nil, fun up member => joined.settled up (keeps member)⟩
    obtain ⟨sum, ups⟩ := CountsOk.counted counts otherKnown before
    refine ⟨?_, fun parent edge => (joined_withData block missing only grows (ups parent edge)).2⟩
    change Function.update state.nChainTx pindexNew 0 other =
      (((state.tree.pprev other).map (Function.update state.nChainTx pindexNew 0)).getD 0 +
        Function.update state.nTx pindexNew block.vtx.length other) % 2 ^ 32
    rw [update_of_ne differ, update_of_ne differ, sum]
    cases edge : state.tree.pprev other with
    | none => rfl
    | some parent =>
      have parentDiffers := (joined_withData block missing only grows (ups parent edge)).1
      rw [map_some, map_some, update_of_ne parentDiffers]
  case queued =>
    intro child inside
    obtain rfl := only child inside
    refine ⟨known, (haveData_withData block child child).trans (if_pos rfl),
      update_self _ _ _, fun up member => (waits member).1 inside, fun parent edge => ?_⟩
    exact (joined_withData block missing only grows (parents inside parent edge)).2
  case once => exact once
  case distinct => exact distinct

theorem Counts.not_waiting (counts : state.Counts [])
    (missing : (state.nStatus pindexNew).haveData = false) (up : Option BlockPtr) :
    (up, pindexNew) ∉ state.mapBlocksUnlinked := by
  intro member
  obtain ⟨_, data, _⟩ := CountsOk.waiting counts member
  cases data.symm.trans missing

theorem Counts.joined_of_linked (counts : state.Counts []) {parent : BlockPtr}
    (known : state.tree.Known parent) (linked : state.nChainTx parent ≠ 0) :
    Joined (fun pindex => (state.nStatus pindex).haveData) state.mapBlocksUnlinked [] parent := by
  refine ⟨?_, not_mem_nil, fun up member => ?_⟩
  · cases data : (state.nStatus parent).haveData with
    | true => rfl
    | false => exact absurd (CountsOk.bare counts known data) linked
  · obtain ⟨_, _, _, zero, _⟩ := CountsOk.waiting counts member
    exact linked zero

theorem parentLinked_withData (block : CBlock) (linked : state.tree.Linked)
    (known : state.tree.Known pindexNew) :
    (state.withData block pindexNew).parentLinked pindexNew = true ↔
      ∀ parent, state.tree.pprev pindexNew = some parent → state.nChainTx parent ≠ 0 := by
  have tree : (state.withData block pindexNew).tree = state.tree := rfl
  unfold IndexState.parentLinked
  rw [tree]
  cases edge : state.tree.pprev pindexNew with
  | none => exact iff_of_true rfl fun parent impossible => nomatch impossible
  | some parent =>
    have count : (state.withData block pindexNew).nChainTx parent = state.nChainTx parent :=
      update_of_ne (linked.parent_ne known edge) _ _
    dsimp only
    rw [count, decide_eq_true_eq]
    constructor
    · rintro nonzero other same
      cases same
      exact nonzero
    · exact fun all => all parent rfl

/-- `ReceivedBlockTransactions` under a parent that is not failed keeps the counts. -/
theorem Counts.receivedBlockTransactions (counts : state.Counts []) (linked : state.tree.Linked)
    (known : state.tree.Known pindexNew) (missing : (state.nStatus pindexNew).haveData = false)
    (parentValid : ∀ parent, state.tree.pprev pindexNew = some parent →
      (state.nStatus parent).isValid .tree = true) :
    (state.receivedBlockTransactions block pindexNew).Counts [] ∧
      SameEntries (state.withData block pindexNew)
        (state.receivedBlockTransactions block pindexNew) := by
  have same : ∀ {pair}, pair ∈ state.mapBlocksUnlinked → pair ∈ state.mapBlocksUnlinked :=
    fun member => member
  have unfolded : state.receivedBlockTransactions block pindexNew =
      if (state.withData block pindexNew).parentLinked pindexNew then
        linkQueue (state.mapBlocksUnlinked.length + 1) [pindexNew] (state.withData block pindexNew)
      else
        (state.tree.pprev pindexNew).elim (state.withData block pindexNew) fun parent =>
          if ((state.withData block pindexNew).nStatus parent).isValid .tree then
            { state.withData block pindexNew with
              mapBlocksUnlinked := (some parent, pindexNew) :: state.mapBlocksUnlinked }
          else state.withData block pindexNew := by
    unfold IndexState.receivedBlockTransactions
    dsimp only
    cases state.tree.pprev pindexNew <;> rfl
  rw [unfolded]
  split
  · next parentLinked =>
      have queued : (state.withData block pindexNew).Counts [pindexNew] := by
        refine counts.withData known missing (fun child => mem_singleton.mp)
          (fun member => Or.inl member) same (Or.inl (mem_singleton_self _))
          (fun member => absurd member (counts.not_waiting missing _)) (fun _ parent edge => ?_)
          (nodup_singleton _) counts.distinct
        exact counts.joined_of_linked (linked.ranked.parent_known known edge)
          ((parentLinked_withData block linked known).mp parentLinked parent edge)
      have enough : [pindexNew].length + (state.withData block pindexNew).mapBlocksUnlinked.length ≤
          state.mapBlocksUnlinked.length + 1 := by
        rw [length_singleton, Nat.add_comm]
        exact Nat.le_refl _
      exact linkQueue_counts enough linked queued
  · next parentUnlinked =>
      rw [parentLinked_withData block linked known] at parentUnlinked
      cases edge : state.tree.pprev pindexNew with
      | none =>
        refine absurd (fun parent impossible => ?_) parentUnlinked
        rw [edge] at impossible
        cases impossible
      | some parent =>
        have differ := linked.parent_ne known edge
        have statusSame : (state.withData block pindexNew).nStatus parent = state.nStatus parent :=
          update_of_ne differ _ _
        have zero : state.nChainTx parent = 0 := by
          by_contra nonzero
          refine parentUnlinked fun other same => ?_
          rw [edge] at same
          cases same
          exact nonzero
        rw [elim_some, statusSame, parentValid parent edge, if_pos rfl]
        refine ⟨?_, rfl, rfl, rfl⟩
        refine counts.withData known missing (fun child inside => absurd inside not_mem_nil)
          ?_ (fun member => mem_cons_of_mem _ member)
          (Or.inr ⟨some parent, mem_cons_self⟩) ?_
          (fun impossible => absurd impossible not_mem_nil) nodup_nil ?_
        · intro up child member
          rcases mem_cons.mp member with here | before
          · cases here
            exact Or.inr rfl
          · exact Or.inl before
        · intro up member
          rcases mem_cons.mp member with here | before
          · cases here
            exact ⟨not_mem_nil, parent, rfl, edge, zero⟩
          · exact absurd before (counts.not_waiting missing up)
        · exact nodup_cons.mpr ⟨counts.not_waiting missing _, counts.distinct⟩

end Received

end IndexState

end CentNode
