import CentNode.Library.Outcome
import CentNode.Net.BlockRequests

/-!
# The blocks that are asked for

The loops of `FindNextBlocksToDownload` go up the way to the best block of a peer height by
height.  What holds of the blocks up to one height is kept by the visit of the next block, hence
by a stretch of blocks, and by the loop over the stretches.
-/

namespace CentNode

open List Option

namespace BlockTree

variable {tree : BlockTree} {hashGenesisBlock : Uint256}

/-! ## The last common ancestor -/

theorem climbTogether_spec (formed : tree.WellFormed hashGenesisBlock) {fuel : Nat}
    {pa pb : BlockPtr} (knownA : tree.Known pa) (knownB : tree.Known pb)
    (level : tree.nHeight pa = tree.nHeight pb) (enough : tree.nHeight pa < fuel) :
    ∃ common, tree.climbTogether fuel (some pa) (some pb) = (some common, some common) ∧
      tree.Below pa common ∧ tree.Below pb common ∧
        ∀ other, tree.Below pa other → tree.Below pb other → tree.Below common other := by
  induction fuel generalizing pa pb with
  | zero => exact absurd enough (Nat.not_lt_zero _)
  | succ fuel ih =>
    rw [climbTogether]
    by_cases same : pa = pb
    · subst same
      exact ⟨pa, if_pos rfl, .refl pa, .refl pa, fun _ above _ => above⟩
    · rw [if_neg same]
      cases edgeA : tree.pprev pa with
      | none =>
        have rootA := formed.ranked.rank_root knownA edgeA
        cases edgeB : tree.pprev pb with
        | none => exact absurd (formed.root_unique knownA knownB edgeA edgeB) same
        | some parentB =>
          have growsB := formed.ranked.rank_parent knownB edgeB
          omega
      | some parentA =>
        have growsA := formed.ranked.rank_parent knownA edgeA
        cases edgeB : tree.pprev pb with
        | none =>
          have rootB := formed.ranked.rank_root knownB edgeB
          omega
        | some parentB =>
          have growsB := formed.ranked.rank_parent knownB edgeB
          obtain ⟨common, met, aboveA, aboveB, least⟩ :=
            ih (formed.ranked.parent_known knownA edgeA)
              (formed.ranked.parent_known knownB edgeB) (by omega) (by omega)
          refine ⟨common, met, .step edgeA aboveA, .step edgeB aboveB, ?_⟩
          intro other otherA otherB
          -- a common ancestor lies above both parents, since the two differ
          rcases otherA.cases_parent with rfl | ⟨upA, edge, overA⟩
          · exact absurd (formed.ranked.eq_of_rank_le knownB otherB (Nat.le_of_eq level.symm))
              same
          · cases edge.symm.trans edgeA
            rcases otherB.cases_parent with rfl | ⟨upB, edge', overB⟩
            · have low := formed.ranked.rank_le (formed.ranked.parent_known knownA edgeA) overA
              omega
            · cases edge'.symm.trans edgeB
              exact least other overA overB

/-- The last common ancestor is there, and all common ancestors lie above it. -/
theorem lastCommonAncestor_spec (formed : tree.WellFormed hashGenesisBlock) {pa pb : BlockPtr}
    (knownA : tree.Known pa) (knownB : tree.Known pb) :
    ∃ common, tree.lastCommonAncestor pa pb = some common ∧ tree.Below pa common ∧
      tree.Below pb common ∧
        ∀ other, tree.Below pa other → tree.Below pb other → tree.Below common other := by
  -- the two entries at the lower of both heights
  obtain ⟨first, foundA, aboveA, heightA⟩ := formed.getAncestor_spec knownA
    (Nat.min_le_left (tree.nHeight pa) (tree.nHeight pb))
  obtain ⟨second, foundB, aboveB, heightB⟩ := formed.getAncestor_spec knownB
    (Nat.min_le_right (tree.nHeight pa) (tree.nHeight pb))
  obtain ⟨common, met, overA, overB, least⟩ := climbTogether_spec formed
    (formed.ranked.known_of_below knownA aboveA) (formed.ranked.known_of_below knownB aboveB)
    (heightA.trans heightB.symm) (Nat.lt_succ_of_le (Nat.le_of_eq heightA))
  have start : (if tree.nHeight pa > tree.nHeight pb then tree.getAncestor pa (tree.nHeight pb)
      else some pa) = some first := by
    split
    case isTrue higher =>
      rw [Nat.min_eq_right (Nat.le_of_lt higher)] at foundA
      exact foundA
    case isFalse low =>
      rw [Nat.min_eq_left (Nat.le_of_not_lt low)] at heightA
      rw [formed.ranked.eq_of_rank_le knownA aboveA (Nat.le_of_eq heightA.symm)]
  have start' : (if tree.nHeight pb > tree.nHeight pa then tree.getAncestor pb (tree.nHeight pa)
      else some pb) = some second := by
    split
    case isTrue higher =>
      rw [Nat.min_eq_left (Nat.le_of_lt higher)] at foundB
      exact foundB
    case isFalse low =>
      rw [Nat.min_eq_right (Nat.le_of_not_lt low)] at heightB
      rw [formed.ranked.eq_of_rank_le knownB aboveB (Nat.le_of_eq heightB.symm)]
  refine ⟨common, ?_, aboveA.trans overA, aboveB.trans overB, fun other otherA otherB => ?_⟩
  · unfold lastCommonAncestor
    dsimp only
    rw [start, start', met]
    exact if_pos rfl
  · have lowA := formed.ranked.rank_le knownA otherA
    have lowB := formed.ranked.rank_le knownB otherB
    exact least other (formed.ranked.below_of_rank_le knownA otherA aboveA (by omega))
      (formed.ranked.below_of_rank_le knownB otherB aboveB (by omega))

/-! ## A stretch of the way -/

/-- The blocks of the way up to `best` from above one height on. -/
inductive Stretch (tree : BlockTree) (best : BlockPtr) : Nat → List BlockPtr → Prop where
  | nil (height : Nat) : Stretch tree best height []
  | cons {height : Nat} {pindex : BlockPtr} {rest : List BlockPtr} :
      tree.Below best pindex → tree.nHeight pindex = height + 1 →
        Stretch tree best (height + 1) rest → Stretch tree best height (pindex :: rest)

theorem Stretch.concat {best pindex : BlockPtr} {height : Nat} {before : List BlockPtr}
    (stretch : Stretch tree best height before) (above : tree.Below best pindex)
    (next : tree.nHeight pindex = height + before.length + 1) :
    Stretch tree best height (before ++ [pindex]) := by
  induction stretch with
  | nil height => exact .cons above next (.nil _)
  | cons here level _ ih =>
    refine .cons here level (ih ?_)
    rw [next, length_cons]
    omega

/-- `vToFetch` is filled with the stretch that ends in its last entry. -/
theorem fillBack_spec (formed : tree.WellFormed hashGenesisBlock) {best pindex : BlockPtr}
    (known : tree.Known best) {nToFetch height : Nat} (above : tree.Below best pindex)
    (level : tree.nHeight pindex = height + nToFetch) :
    ∃ vToFetch, tree.fillBack nToFetch pindex = some vToFetch ∧
      vToFetch.length = nToFetch ∧ Stretch tree best height vToFetch := by
  induction nToFetch generalizing pindex with
  | zero => exact ⟨[], by rw [fillBack], rfl, .nil height⟩
  | succ nToFetch ih =>
    cases nToFetch with
    | zero => exact ⟨[pindex], by rw [fillBack], rfl, .cons above level (.nil _)⟩
    | succ nToFetch =>
      have pindexKnown := formed.ranked.known_of_below known above
      cases edge : tree.pprev pindex with
      | none =>
        have root := formed.ranked.rank_root pindexKnown edge
        omega
      | some parent =>
        have grows := formed.ranked.rank_parent pindexKnown edge
        obtain ⟨before, filled, length, stretch⟩ := ih (above.trans (.parent_of edge)) (by omega)
        refine ⟨before ++ [pindex], ?_, by rw [length_append, length]; rfl,
          stretch.concat above (by omega)⟩
        rw [fillBack, edge, bind_eq_bind, bind_some, filled]
        rfl

end BlockTree

namespace FetchContext

variable {context : FetchContext} {hashGenesisBlock : Uint256} {start : BlockPtr}

/-! ## Up to a height -/

def Missing (context : FetchContext) (pindex : BlockPtr) : Prop :=
  (context.index.nStatus pindex).haveData = false ∧ context.inFlight pindex = none

/-- What has been done where the blocks up to a height have been visited. -/
structure Visited (context : FetchContext) (start : BlockPtr) (height : Nat) (fetch : FetchState) :
    Prop where
  common : context.index.tree.Below context.pindexBestKnownBlock fetch.pindexLastCommonBlock
  valid : ∀ pindex, context.index.tree.Below context.pindexBestKnownBlock pindex →
    context.index.tree.nHeight start < context.index.tree.nHeight pindex →
      context.index.tree.nHeight pindex ≤ height →
        (context.index.nStatus pindex).isValid .tree = true ∧
          (context.Missing pindex → pindex ∈ fetch.vBlocks)
  appended : ∀ pindex ∈ fetch.vBlocks,
    context.index.tree.Below context.pindexBestKnownBlock pindex ∧ context.Missing pindex ∧
      context.index.tree.nHeight start < context.index.tree.nHeight pindex ∧
        context.index.tree.nHeight pindex ≤ height ∧
          context.index.tree.nHeight pindex ≤ context.nWindowEnd
  increasing : fetch.vBlocks.Pairwise fun lower upper =>
    context.index.tree.nHeight lower < context.index.tree.nHeight upper
  few : fetch.vBlocks.length ≤ context.count

/-- The loop may end where some of the blocks have been visited. -/
def Stopped (context : FetchContext) (start : BlockPtr) (fetch : FetchState) : Prop :=
  ∃ height, context.Visited start height fetch

/-- The loop goes on as long as fewer blocks are appended than may be. -/
def Underway (context : FetchContext) (start : BlockPtr) (height : Nat) (fetch : FetchState) :
    Prop :=
  context.Visited start height fetch ∧ fetch.vBlocks.length < context.count

variable {height : Nat} {fetch : FetchState}

theorem Visited.of_eq {other : FetchState} (visited : context.Visited start height fetch)
    (common : context.index.tree.Below context.pindexBestKnownBlock other.pindexLastCommonBlock)
    (same : other.vBlocks = fetch.vBlocks) : context.Visited start height other := by
  refine ⟨common, ?_, ?_, ?_, ?_⟩
  · rw [same]
    exact visited.valid
  · rw [same]
    exact visited.appended
  · rw [same]
    exact visited.increasing
  · rw [same]
    exact visited.few

variable {pindex : BlockPtr}

section

variable (formed : context.index.tree.WellFormed hashGenesisBlock)
  (known : context.index.tree.Known context.pindexBestKnownBlock)

include formed known

theorem Visited.pass (visited : context.Visited start height fetch)
    (above : context.index.tree.Below context.pindexBestKnownBlock pindex)
    (next : context.index.tree.nHeight pindex = height + 1)
    (valid : (context.index.nStatus pindex).isValid .tree = true)
    (held : ¬ context.Missing pindex) : context.Visited start (height + 1) fetch := by
  refine ⟨visited.common, ?_, ?_, visited.increasing, visited.few⟩
  · intro other otherAbove low high
    by_cases top : context.index.tree.nHeight other = height + 1
    · rw [formed.ranked.eq_of_rank_eq known otherAbove above (top.trans next.symm)]
      exact ⟨valid, fun missing => absurd missing held⟩
    · exact visited.valid other otherAbove low (by omega)
  · intro other member
    obtain ⟨otherAbove, missing, low, high, window⟩ := visited.appended other member
    exact ⟨otherAbove, missing, low, Nat.le_succ_of_le high, window⟩

theorem Visited.append (visited : context.Visited start height fetch)
    (beyond : context.index.tree.nHeight start ≤ height)
    (room : fetch.vBlocks.length < context.count)
    (above : context.index.tree.Below context.pindexBestKnownBlock pindex)
    (next : context.index.tree.nHeight pindex = height + 1)
    (valid : (context.index.nStatus pindex).isValid .tree = true)
    (missing : context.Missing pindex)
    (window : context.index.tree.nHeight pindex ≤ context.nWindowEnd) :
    context.Visited start (height + 1) { fetch with vBlocks := fetch.vBlocks ++ [pindex] } := by
  refine ⟨visited.common, ?_, ?_, ?_, ?_⟩
  · intro other otherAbove low high
    by_cases top : context.index.tree.nHeight other = height + 1
    · rw [formed.ranked.eq_of_rank_eq known otherAbove above (top.trans next.symm)]
      exact ⟨valid, fun _ => mem_append_right _ (mem_singleton_self _)⟩
    · obtain ⟨otherValid, found⟩ := visited.valid other otherAbove low (by omega)
      exact ⟨otherValid, fun lacks => mem_append_left _ (found lacks)⟩
  · intro other member
    rcases mem_append.mp member with older | last
    · obtain ⟨otherAbove, lacks, low, high, inside⟩ := visited.appended other older
      exact ⟨otherAbove, lacks, low, Nat.le_succ_of_le high, inside⟩
    · rw [mem_singleton.mp last]
      exact ⟨above, missing, by omega, Nat.le_of_eq next, window⟩
  · refine pairwise_append.mpr ⟨visited.increasing, pairwise_singleton _ _, ?_⟩
    intro lower member upper last
    obtain ⟨_, _, _, high, _⟩ := visited.appended lower member
    rw [mem_singleton.mp last, next]
    exact Nat.lt_succ_of_le high
  · rw [length_append, length_singleton]
    exact room

/-- One visit keeps what holds up to its block, or ends the loop where it holds. -/
theorem visit_meets (underway : context.Underway start height fetch)
    (beyond : context.index.tree.nHeight start ≤ height)
    (above : context.index.tree.Below context.pindexBestKnownBlock pindex)
    (next : context.index.tree.nHeight pindex = height + 1) :
    Outcome.Meets (context.visit fetch pindex) (context.Underway start (height + 1))
      (context.Stopped start) := by
  obtain ⟨visited, room⟩ := underway
  unfold visit
  refine .ite (fun _ => .error ⟨height, visited⟩) fun accepted => ?_
  have valid : (context.index.nStatus pindex).isValid .tree = true := by simpa using accepted
  refine .ite (fun haveData => ?_) fun noData => ?_
  · -- the data is there, and the common block may move up
    have held : ¬ context.Missing pindex := fun missing => by
      rw [missing.1] at haveData
      cases haveData
    have passed := visited.pass formed known above next valid held
    refine .ok ?_
    split
    case isTrue => exact ⟨passed.of_eq above rfl, room⟩
    case isFalse => exact ⟨passed, room⟩
  · split
    case h_1 free =>
      have missing : context.Missing pindex := ⟨by simpa using noData, free⟩
      refine .ite (fun _ => ?_) fun inside => ?_
      · -- the end of the window
        refine .ite (fun _ => .error ⟨height, visited.of_eq visited.common rfl⟩) fun _ =>
          .error ⟨height, visited⟩
      · have appended := visited.append formed known beyond room above next valid missing
          (Nat.le_of_not_lt inside)
        refine .ite (fun _ => .error ⟨height + 1, appended⟩) fun notFull => .ok ⟨appended, ?_⟩
        exact Nat.lt_of_le_of_ne appended.few notFull
    case h_2 node busy =>
      have held : ¬ context.Missing pindex := fun missing => by
        rw [missing.2] at busy
        cases busy
      have passed := visited.pass formed known above next valid held
      refine .ok ?_
      split
      case isTrue => exact ⟨passed.of_eq visited.common rfl, room⟩
      case isFalse => exact ⟨passed, room⟩

theorem visits_meet {vToFetch : List BlockPtr}
    (stretch : BlockTree.Stretch context.index.tree context.pindexBestKnownBlock height vToFetch)
    (underway : context.Underway start height fetch)
    (beyond : context.index.tree.nHeight start ≤ height) :
    Outcome.Meets (vToFetch.foldlM context.visit fetch)
      (context.Underway start (height + vToFetch.length)) (context.Stopped start) := by
  induction stretch generalizing fetch with
  | nil height => exact .ok underway
  | cons above next _ ih =>
    rw [foldlM_cons, length_cons, Nat.add_comm _ 1, ← Nat.add_assoc]
    exact (visit_meets formed known underway beyond above next).bind fun after kept =>
      ih kept (Nat.le_succ_of_le beyond)

end

/-! ## The loop over stretches -/

theorem nToFetch_spec (low : height < context.nMaxHeight) (fetch : FetchState) :
    1 ≤ context.nToFetch height fetch ∧
      height + context.nToFetch height fetch ≤ context.nMaxHeight := by
  unfold nToFetch
  omega

variable {pindexWalk : BlockPtr}

theorem fetchLoop_ends (done : context.nMaxHeight ≤ context.index.tree.nHeight pindexWalk)
    (fuel : Nat) (fetch : FetchState) : context.fetchLoop fuel pindexWalk fetch = some fetch := by
  have high : ¬ context.index.tree.nHeight pindexWalk < context.nMaxHeight := Nat.not_lt.mpr done
  cases fuel with
  | zero => rw [fetchLoop, if_neg high]
  | succ fuel => rw [fetchLoop, if_neg high]

theorem fetchLoop_stretch {pindexNext : BlockPtr} {vToFetch : List BlockPtr}
    (low : context.index.tree.nHeight pindexWalk < context.nMaxHeight)
    (found : context.index.tree.getAncestor context.pindexBestKnownBlock
      ↑(context.index.tree.nHeight pindexWalk +
        context.nToFetch (context.index.tree.nHeight pindexWalk) fetch) = some pindexNext)
    (filled : context.index.tree.fillBack
      (context.nToFetch (context.index.tree.nHeight pindexWalk) fetch) pindexNext = some vToFetch)
    (fuel : Nat) :
    (∀ last, vToFetch.foldlM context.visit fetch = .error last →
        context.fetchLoop (fuel + 1) pindexWalk fetch = some last) ∧
      ∀ after, vToFetch.foldlM context.visit fetch = .ok after →
        context.fetchLoop (fuel + 1) pindexWalk fetch =
          context.fetchLoop fuel pindexNext after := by
  rw [Int.natCast_add] at found
  refine ⟨fun last failed => ?_, fun after passed => ?_⟩
  · rw [fetchLoop, if_pos low]
    simp only [found, filled, failed, bind_eq_bind, bind_some]
    rfl
  · rw [fetchLoop, if_pos low]
    simp only [found, filled, passed, bind_eq_bind, bind_some]

/-- The loop ends, with any fuel for the heights that are left. -/
theorem fetchLoop_spec (formed : context.index.tree.WellFormed hashGenesisBlock)
    (known : context.index.tree.Known context.pindexBestKnownBlock) {fuel : Nat}
    (enough : context.nMaxHeight ≤ context.index.tree.nHeight pindexWalk + fuel)
    (underway : context.Underway start (context.index.tree.nHeight pindexWalk) fetch)
    (beyond : context.index.tree.nHeight start ≤ context.index.tree.nHeight pindexWalk) :
    ∃ last, (∀ more, context.fetchLoop (fuel + more) pindexWalk fetch = some last) ∧
      context.Stopped start last := by
  induction fuel generalizing pindexWalk fetch with
  | zero => exact ⟨fetch, fun more => fetchLoop_ends enough (0 + more) fetch, _, underway.1⟩
  | succ fuel ih =>
    by_cases low : context.index.tree.nHeight pindexWalk < context.nMaxHeight
    · obtain ⟨positive, inside⟩ := context.nToFetch_spec low fetch
      have top : context.nMaxHeight ≤ context.index.tree.nHeight context.pindexBestKnownBlock :=
        Nat.min_le_left _ _
      obtain ⟨pindexNext, found, above, level⟩ := formed.getAncestor_spec known
        (Nat.le_trans inside top)
      obtain ⟨vToFetch, filled, length, stretch⟩ := BlockTree.fillBack_spec formed known above level
      have met := visits_meet formed known stretch underway beyond
      cases visits : vToFetch.foldlM context.visit fetch with
      | error last =>
        refine ⟨last, fun more => ?_, met.failure visits⟩
        rw [Nat.add_right_comm]
        exact (fetchLoop_stretch low found filled (fuel + more)).1 last visits
      | ok after =>
        have kept := met.value visits
        rw [length, ← level] at kept
        obtain ⟨last, ends, stopped⟩ := ih (by omega) kept (by omega)
        refine ⟨last, fun more => ?_, stopped⟩
        rw [Nat.add_right_comm,
          (fetchLoop_stretch low found filled (fuel + more)).2 after visits]
        exact ends more
    · exact ⟨fetch, fun more => fetchLoop_ends (Nat.le_of_not_lt low) (fuel + 1 + more) fetch, _,
        underway.1⟩

end FetchContext

/-! ## The blocks of one call -/

namespace IndexState

structure PeerReadable (index : IndexState) (hashGenesisBlock : Uint256) (peer : PeerChain) :
    Prop where
  formed : index.tree.WellFormed hashGenesisBlock
  tipped : index.chainActive ≠ []
  active : ∀ pindex ∈ index.chainActive, index.tree.Known pindex
  best : ∀ pindex, peer.pindexBestKnownBlock = some pindex → index.tree.Known pindex
  common : ∀ pindex, peer.pindexLastCommonBlock = some pindex → index.tree.Known pindex

/-- The blocks are on the way from the last common block to the best block of the peer, they are
missing and they are the lowest ones, and no block on the way to them is known to be invalid. -/
structure WellChosen (index : IndexState) (mapBlocksInFlight : StdMap Uint256 (NodeId × Nat))
    (best start : BlockPtr) (count : Nat) (vBlocks : List BlockPtr) : Prop where
  onPath : ∀ pindex ∈ vBlocks, index.tree.Below best pindex
  noData : ∀ pindex ∈ vBlocks, (index.nStatus pindex).haveData = false
  notInFlight : ∀ pindex ∈ vBlocks,
    mapBlocksInFlight.lookup (index.tree.phashBlock pindex) = none
  once : vBlocks.Nodup
  inWindow : ∀ pindex ∈ vBlocks, index.tree.nHeight start < index.tree.nHeight pindex ∧
    index.tree.nHeight pindex ≤ index.tree.nHeight start + blockDownloadWindow
  validAncestors : ∀ pindex ∈ vBlocks, ∀ elder, index.tree.Below pindex elder →
    index.tree.nHeight start < index.tree.nHeight elder → (index.nStatus elder).isValid .tree = true
  few : vBlocks.length ≤ count
  increasing : vBlocks.Pairwise fun lower upper =>
    index.tree.nHeight lower < index.tree.nHeight upper
  noneSkipped : ∀ pindex ∈ vBlocks, ∀ elder, index.tree.Below pindex elder →
    index.tree.nHeight start < index.tree.nHeight elder →
      (index.nStatus elder).haveData = false →
        mapBlocksInFlight.lookup (index.tree.phashBlock elder) = none → elder ∈ vBlocks

variable {index : IndexState} {hashGenesisBlock : Uint256} {peer : PeerChain}

theorem wellChosen_of_stopped {context : FetchContext} {start : BlockPtr} {fetch : FetchState}
    (formed : context.index.tree.WellFormed hashGenesisBlock)
    (known : context.index.tree.Known context.pindexBestKnownBlock)
    (window : context.nWindowEnd = context.index.tree.nHeight start + blockDownloadWindow)
    (stopped : context.Stopped start fetch) :
    WellChosen context.index context.mapBlocksInFlight context.pindexBestKnownBlock start
      context.count fetch.vBlocks := by
  obtain ⟨height, visited⟩ := stopped
  have free : ∀ pindex, context.inFlight pindex = none ↔
      context.mapBlocksInFlight.lookup (context.index.tree.phashBlock pindex) = none := by
    intro pindex
    exact map_eq_none_iff
  -- what lies above an appended block has been visited before it
  have before : ∀ pindex ∈ fetch.vBlocks, ∀ elder, context.index.tree.Below pindex elder →
      context.index.tree.Below context.pindexBestKnownBlock elder ∧
        context.index.tree.nHeight elder ≤ height := by
    intro pindex member elder above
    obtain ⟨pindexAbove, _, _, high, _⟩ := visited.appended pindex member
    have low := formed.ranked.rank_le (formed.ranked.known_of_below known pindexAbove) above
    exact ⟨pindexAbove.trans above, Nat.le_trans low high⟩
  constructor
  case onPath => exact fun pindex member => (visited.appended pindex member).1
  case noData => exact fun pindex member => (visited.appended pindex member).2.1.1
  case notInFlight =>
    exact fun pindex member => (free pindex).mp (visited.appended pindex member).2.1.2
  case once =>
    refine visited.increasing.imp ?_
    rintro lower upper less rfl
    exact Nat.lt_irrefl _ less
  case inWindow =>
    intro pindex member
    obtain ⟨_, _, low, _, inside⟩ := visited.appended pindex member
    exact ⟨low, window ▸ inside⟩
  case validAncestors =>
    intro pindex member elder above low
    obtain ⟨elderAbove, high⟩ := before pindex member elder above
    exact (visited.valid elder elderAbove low high).1
  case few => exact visited.few
  case increasing => exact visited.increasing
  case noneSkipped =>
    intro pindex member elder above low noData notFlying
    obtain ⟨elderAbove, high⟩ := before pindex member elder above
    exact (visited.valid elder elderAbove low high).2 ⟨noData, (free elder).mpr notFlying⟩

theorem PeerReadable.processBlockAvailability (readable : index.PeerReadable hashGenesisBlock peer) :
    index.PeerReadable hashGenesisBlock (index.processBlockAvailability peer) := by
  unfold IndexState.processBlockAvailability
  split
  case isFalse => exact readable
  case isTrue =>
    split
    case h_1 => exact readable
    case h_2 itOld found =>
      split
      case isFalse => exact readable
      case isTrue =>
        refine ⟨readable.formed, readable.tipped, readable.active, fun pindex better => ?_,
          readable.common⟩
        rcases ite_eq_iff.mp better with ⟨_, taken⟩ | ⟨_, kept⟩
        · cases taken
          exact readable.formed.known_of_lookup found
        · exact readable.best pindex kept

theorem PeerReadable.startingBlock (readable : index.PeerReadable hashGenesisBlock peer)
    {best : BlockPtr} (known : index.tree.Known best) :
    ∃ start, index.startingBlock peer best = some start ∧ index.tree.Below best start := by
  obtain ⟨first, here, firstKnown⟩ : ∃ first, index.guessedCommon peer best = some first ∧
      index.tree.Known first := by
    unfold guessedCommon
    cases common : peer.pindexLastCommonBlock with
    | some pindex => exact ⟨pindex, rfl, readable.common pindex common⟩
    | none =>
      have filled := length_pos_of_ne_nil readable.tipped
      have inside : min (index.tree.nHeight best) (index.chainActive.length - 1) <
          index.chainActive.reverse.length := by
        rw [length_reverse]
        omega
      refine ⟨_, getElem?_eq_getElem inside, readable.active _ ?_⟩
      exact mem_reverse.mp (getElem_mem inside)
  obtain ⟨start, met, _, above, _⟩ :=
    BlockTree.lastCommonAncestor_spec readable.formed firstKnown known
  refine ⟨start, ?_, above⟩
  unfold IndexState.startingBlock
  rw [here]
  exact met

/-- A call with enough fuel ends.  The blocks that it appends are well chosen from the last common
block on, and the last common block that it leaves is an ancestor of the best block. -/
def ChoosesWell (index : IndexState) (mapBlocksInFlight : StdMap Uint256 (NodeId × Nat))
    (nodeid : NodeId) (count : Nat) (peer : PeerChain) (nodeStaller : NodeId) : Prop :=
  ∃ fuel requests,
    (∀ more, index.findNextBlocksToDownload mapBlocksInFlight (fuel + more) nodeid count peer
      nodeStaller = some requests) ∧
    (requests.vBlocks ≠ [] → ∃ best start, requests.peer.pindexBestKnownBlock = some best ∧
      index.startingBlock (index.processBlockAvailability peer) best = some start ∧
        index.WellChosen mapBlocksInFlight best start count requests.vBlocks) ∧
    (0 < count → ∀ best tip, requests.peer.pindexBestKnownBlock = some best →
      index.tip = some tip → index.tree.nChainWork tip ≤ index.tree.nChainWork best →
        ∃ common, requests.peer.pindexLastCommonBlock = some common ∧ index.tree.Below best common)

theorem findNextBlocks_chosen (readable : index.PeerReadable hashGenesisBlock peer)
    (mapBlocksInFlight : StdMap Uint256 (NodeId × Nat)) (nodeid : NodeId) (count : Nat)
    (nodeStaller : NodeId) :
    index.ChoosesWell mapBlocksInFlight nodeid count peer nodeStaller := by
  by_cases nothing : count = 0
  · refine ⟨0, ⟨peer, [], nodeStaller⟩, fun more => if_pos nothing, fun filled => absurd rfl filled,
      fun positive => absurd nothing (Nat.pos_iff_ne_zero.mp positive)⟩
  have current := readable.processBlockAvailability
  obtain ⟨tip, older, chain⟩ := exists_cons_of_ne_nil readable.tipped
  have tipIs : index.tip = some tip := by
    unfold IndexState.tip
    rw [chain]
    rfl
  unfold ChoosesWell findNextBlocksToDownload
  simp only [if_neg nothing]
  generalize index.processBlockAvailability peer = now at current ⊢
  cases bestIs : now.pindexBestKnownBlock with
  | none =>
    refine ⟨0, ⟨now, [], nodeStaller⟩, fun more => rfl, fun filled => absurd rfl filled, ?_⟩
    intro _ best tip isBest
    cases isBest.symm.trans bestIs
  | some best =>
    have known := current.best best bestIs
    simp only [tipIs, bind_eq_bind, bind_some]
    by_cases dull : index.tree.nChainWork best < index.tree.nChainWork tip
    · simp only [if_pos dull]
      refine ⟨0, ⟨now, [], nodeStaller⟩, fun more => rfl, fun filled => absurd rfl filled, ?_⟩
      intro _ best' tip' isBest isTip work
      cases isBest.symm.trans bestIs
      cases isTip
      exact absurd work (Nat.not_le.mpr dull)
    · simp only [if_neg dull]
      obtain ⟨start, starts, above⟩ := current.startingBlock known
      simp only [starts, bind_some]
      by_cases done : start = best
      · simp only [if_pos done]
        refine ⟨0, ⟨⟨some best, now.hashLastUnknownBlock, some start⟩, [], nodeStaller⟩,
          fun more => rfl, fun filled => absurd rfl filled, ?_⟩
        intro _ best' tip' isBest isTip work
        cases isBest
        exact ⟨start, rfl, above⟩
      · simp only [if_neg done]
        let context : FetchContext :=
          { index := index
            mapBlocksInFlight := mapBlocksInFlight
            nodeid := nodeid
            count := count
            pindexBestKnownBlock := best
            nWindowEnd := index.tree.nHeight start + blockDownloadWindow }
        have underway : context.Underway start (index.tree.nHeight start)
            { pindexLastCommonBlock := start, nodeStaller := nodeStaller } := by
          refine ⟨⟨above, fun pindex _ low high => absurd high (Nat.not_le.mpr low),
            fun pindex member => absurd member not_mem_nil, .nil, Nat.zero_le _⟩, ?_⟩
          exact Nat.pos_of_ne_zero nothing
        have enough : context.nMaxHeight ≤ index.tree.nHeight start + index.tree.nHeight best :=
          Nat.le_trans (Nat.min_le_left _ _) (Nat.le_add_left _ _)
        obtain ⟨last, ends, stopped⟩ :=
          context.fetchLoop_spec current.formed known enough underway (Nat.le_refl _)
        refine ⟨index.tree.nHeight best, ⟨⟨some best, now.hashLastUnknownBlock,
          some last.pindexLastCommonBlock⟩, last.vBlocks, last.nodeStaller⟩, fun more => ?_,
          fun _ => ⟨best, start, rfl, starts, ?_⟩, ?_⟩
        · rw [show context.fetchLoop (index.tree.nHeight best + more) start
            { pindexLastCommonBlock := start, nodeStaller := nodeStaller } = some last
            from ends more]
          rfl
        · exact wellChosen_of_stopped current.formed known rfl stopped
        · intro _ best' tip' isBest isTip work
          cases isBest
          obtain ⟨height, visited⟩ := stopped
          exact ⟨last.pindexLastCommonBlock, rfl, visited.common⟩

/-! ## A fork -/

namespace Sample

/-- Two branches on the genesis block, of one block and of two. -/
def forkTree : BlockTree where
  mapBlockIndex := ((((∅ : StdMap Uint256 BlockPtr).insert 0 0).insert 1 1).insert 2 2).insert 3 3
  phashBlock := fun pindex => BitVec.ofNat 256 pindex
  pprev := fun pindex => if pindex = 3 then some 2 else if 0 < pindex then some 0 else none
  pskip := fun pindex => if 0 < pindex then some 0 else none
  nHeight := fun pindex => if pindex = 3 then 2 else if 0 < pindex then 1 else 0
  nChainWork := fun pindex => if pindex = 3 then 3 else if 0 < pindex then 2 else 1

theorem forkTree_lookup {hash : Uint256} {pindex : BlockPtr}
    (found : forkTree.mapBlockIndex.lookup hash = some pindex) :
    pindex ≤ 3 ∧ hash = BitVec.ofNat 256 pindex := by
  unfold forkTree at found
  simp only [StdMap.lookup_insert_ite, AList.lookup_empty] at found
  split_ifs at found with three two one zero
  · cases found
    exact ⟨by decide, three⟩
  · cases found
    exact ⟨by decide, two⟩
  · cases found
    exact ⟨by decide, one⟩
  · cases found
    exact ⟨by decide, zero⟩

theorem forkTree_formed : forkTree.WellFormed 0 := by
  have small : ∀ {pindex}, forkTree.Known pindex → pindex ≤ 3 :=
    fun here => (forkTree_lookup here).1
  have known : ∀ pindex : Nat, pindex ≤ 3 → forkTree.Known pindex := by decide +kernel
  have grows : ∀ pindex : Nat, pindex ≤ 3 → ∀ parent : Nat, parent ≤ 3 →
      forkTree.pprev pindex = some parent →
        forkTree.nHeight pindex = forkTree.nHeight parent + 1 ∧
          forkTree.nChainWork parent < forkTree.nChainWork pindex := by decide
  have skips : ∀ pindex : Nat, pindex ≤ 3 → ∀ parent : Nat, parent ≤ 3 →
      forkTree.pprev pindex = some parent →
        forkTree.nHeight 0 = getSkipHeight (forkTree.nHeight pindex) ∧
          forkTree.pskip pindex = some 0 := by decide +kernel
  have low : ∀ {pindex parent}, forkTree.pprev pindex = some parent → parent ≤ 3 := by
    intro pindex parent edge
    unfold forkTree at edge
    dsimp only at edge
    split_ifs at edge
    · cases edge
      decide
    · cases edge
      decide
  have rooted : ∀ {pindex}, forkTree.Known pindex → forkTree.pprev pindex = none → pindex = 0 := by
    have all : ∀ pindex : Nat, pindex ≤ 3 → forkTree.pprev pindex = none → pindex = 0 := by decide
    intro pindex here
    exact all pindex (small here)
  have above : ∀ {pindex parent}, forkTree.Known pindex → forkTree.pprev pindex = some parent →
      forkTree.Below pindex 0 := by
    intro pindex parent here edge
    have all : ∀ pindex : Nat, pindex ≤ 3 → ∀ parent : Nat, parent ≤ 3 →
        forkTree.pprev pindex = some parent → parent = 0 ∨ forkTree.pprev parent = some 0 := by
      decide
    rcases all pindex (small here) parent (low edge) edge with rfl | second
    · exact .parent_of edge
    · exact .step edge (.parent_of second)
  constructor
  case keyed => exact fun found => (forkTree_lookup found).2.symm
  case ranked =>
    refine ⟨fun _ edge => known _ (low edge),
      fun here edge => (grows _ (small here) _ (low edge) edge).1, fun here root => ?_⟩
    rw [rooted here root]
    rfl
  case root =>
    intro pindex here root
    rw [rooted here root]
    rfl
  case genesis => exact ⟨0, by decide +kernel, rfl⟩
  case work => exact fun here edge => (grows _ (small here) _ (low edge) edge).2
  case skip =>
    intro pindex parent here edge
    obtain ⟨height, pointer⟩ := skips _ (small here) _ (low edge) edge
    exact ⟨0, pointer, above here edge, height⟩
  case bounded =>
    have all : ∀ pindex : Nat, pindex ≤ 3 →
        forkTree.nHeight pindex < forkTree.entries.length := by decide +kernel
    intro pindex here
    exact all pindex (small here)

/-- The shorter branch is the active chain; of the other one only the headers are there. -/
def forkIndex : IndexState where
  tree := forkTree
  nStatus := fun pindex => { validity := .tree, haveData := decide (pindex < 2) }
  nTx := fun _ => 1
  nChainTx := fun pindex => if pindex < 2 then pindex + 1 else 0
  nSequenceId := fun _ => 0
  chainActive := [1, 0]
  setBlockIndexCandidates := []
  mapBlocksUnlinked := []
  nBlockSequenceId := 1

/-- A peer that has left the shorter branch for the other one. -/
def movedPeer : PeerChain := { pindexBestKnownBlock := some 3, pindexLastCommonBlock := some 1 }

theorem movedPeer_readable : forkIndex.PeerReadable 0 movedPeer where
  formed := forkTree_formed
  tipped := by decide
  active := by decide +kernel
  best := by
    intro pindex isBest
    cases isBest
    decide +kernel
  common := by
    intro pindex isCommon
    cases isCommon
    decide +kernel

end Sample

/-- The peer is asked for both blocks of the longer branch, or the one that is not in flight. -/
theorem findNextBlocks_chosen_sample :
    Sample.forkIndex.ChoosesWell ((∅ : StdMap Uint256 (NodeId × Nat)).insert 2 (5, 0)) 7 16
      Sample.movedPeer (-1) :=
  findNextBlocks_chosen Sample.movedPeer_readable _ 7 16 (-1)

/-- Asked for no blocks, the function leaves a common block that is not on the branch of the
peer, whose best block has more work than the tip. -/
theorem findNextBlocks_none_stale :
    Sample.forkIndex.PeerReadable 0 Sample.movedPeer ∧
      (∀ fuel, Sample.forkIndex.findNextBlocksToDownload ∅ fuel 7 0 Sample.movedPeer (-1) =
        some ⟨Sample.movedPeer, [], -1⟩) ∧
      Sample.movedPeer.pindexBestKnownBlock = some 3 ∧ Sample.forkIndex.tip = some 1 ∧
      Sample.forkIndex.tree.nChainWork 1 ≤ Sample.forkIndex.tree.nChainWork 3 ∧
      Sample.movedPeer.pindexLastCommonBlock = some 1 ∧
      ¬ Sample.forkIndex.tree.Below 3 1 := by
  refine ⟨Sample.movedPeer_readable, fun fuel => rfl, rfl, rfl, by decide, rfl, fun above => ?_⟩
  have found := (Sample.forkTree_formed.getAncestor_eq_iff
    (show Sample.forkTree.Known 3 by decide +kernel)).mpr above
  exact absurd found (by decide +kernel)

end IndexState

end CentNode
