import CentNode.Library.Standings
import CentNode.Masternode.BlockHashCache
import CentNode.Masternode.MasternodeList
import CentNode.Chain.BlockIndex

/-!
# Ranks of masternodes

`GetMasternodeRank` and `GetMasternodeByRank` of `masternodeman.cpp`.  Both
sort the listed masternodes by a score; the first skips young masternodes, the
second does not, and the sort leaves the order of equal scores open.
-/

namespace CentNode

open List Option Prod

def Uint256.bits (value : Uint256) : Nat := if value = 0 then 0 else value.toNat.log2 + 1

/-- `GetCompact(false)`. -/
def Uint256.getCompact (value : Uint256) : Nat :=
  let nSize := (value.bits + 7) / 8
  let nCompact :=
    if nSize ≤ 3 then value.toNat <<< (8 * (3 - nSize)) else value.toNat >>> (8 * (nSize - 3))
  -- the bit of the sign is kept free
  if nCompact.testBit 23 then nCompact >>> 8 ||| (nSize + 1) <<< 24 else nCompact ||| nSize <<< 24

/-- What nodes with the same chain, sporks and clock share. -/
structure RankWorld where
  /-- The hashes of the active chain, the tip first. -/
  active : List Uint256
  hash1 : Uint256 → Uint256
  hash2 : Uint256 → Uint256 → Uint256
  /-- `IsSporkActive(SPORK_8_MASTERNODE_PAYMENT_ENFORCEMENT)`. -/
  paymentEnforcement : Bool
  /-- `GetSporkValue(SPORK_16_MN_WINNER_MINIMUM_AGE)`. -/
  winnerMinimumAge : Int
  getTime : Int
  getAdjustedTime : Int

/-- What a node has of its own.  The inputs are checked against its memory pool too. -/
structure RankNode where
  man : CMasternodeMan
  mapCacheBlockHashes : StdMap Int Uint256 := ∅
  shutdownRequested : Bool := false
  lockMain : CTxIn → Bool := fun _ => true
  acceptableInputs : CTxIn → Bool

/-- The arguments that both functions take. -/
structure RankQuery where
  nBlockHeight : Int
  minProtocol : Int
  fOnlyActive : Bool
  deriving DecidableEq, Repr

def compareScoreTxIn (t1 t2 : Int × CTxIn) : Bool := t1.1 < t2.1

/-- An order in which `sort` may leave the scores, from the last to the first. -/
structure ScoreOrder (vecMasternodeScores order : List (Int × CTxIn)) : Prop where
  perm : order.Perm vecMasternodeScores
  sorted : order.Pairwise fun first second => compareScoreTxIn first second = false

/-- The last loop of `GetMasternodeRank`. -/
def rankOf (vin : CTxIn) : Int → List (Int × CTxIn) → Int
  | _, [] => -1
  | rank, s :: rest => if s.2.prevout = vin.prevout then rank + 1 else rankOf vin (rank + 1) rest

/-- The last loop of `GetMasternodeByRank`. -/
def atRank (nRank : Int) : Int → List (Int × CTxIn) → Option CTxIn
  | _, [] => none
  | rank, s :: rest => if rank + 1 = nRank then some s.2 else atRank nRank (rank + 1) rest

namespace RankWorld

def tooYoung (world : RankWorld) (mn : CMasternode) : Bool :=
  world.paymentEnforcement &&
    decide (toInt64 (world.getAdjustedTime - mn.sigTime) < world.winnerMinimumAge)

end RankWorld

namespace RankNode

variable (world : RankWorld) (query : RankQuery) (node : RankNode)

def checkContext : CheckContext where
  shutdownRequested := node.shutdownRequested
  getTime := world.getTime
  getAdjustedTime := world.getAdjustedTime
  lockMain := node.lockMain
  acceptableInputs := node.acceptableInputs

/-- `GetBlockHash` for the height asked for. -/
def blockHash : Option Uint256 :=
  (getBlockHash world.active node.mapCacheBlockHashes query.nBlockHeight).1

/-- The node after `GetBlockHash`. -/
def asked : RankNode :=
  { node with mapCacheBlockHashes :=
      (getBlockHash world.active node.mapCacheBlockHashes query.nBlockHeight).2 }

/-- `CalculateScore(1, nBlockHeight).GetCompact(false)`. -/
def compactScore (prevout : COutPoint) : Int :=
  (calculateScore world.hash1 world.hash2 world.active node.mapCacheBlockHashes prevout
    query.nBlockHeight).getCompact

/-- `mn.Check()`, made where only active masternodes are asked for. -/
def checked (mn : CMasternode) : CMasternode :=
  if query.fOnlyActive then mn.check (node.checkContext world) false else mn

/-- What both loops do with a masternode they do not skip: the masternode as
they leave it, and its score if it is taken. -/
def examine (mn : CMasternode) : CMasternode × Option (Int × CTxIn) :=
  let mn := node.checked world query mn
  if query.fOnlyActive && !mn.isEnabled then (mn, none)
  else (mn, some (node.compactScore world query mn.vin.prevout, mn.vin))

/-- The loop body of `GetMasternodeRank`. -/
def rankMasternode (mn : CMasternode) : CMasternode × Option (Int × CTxIn) :=
  if mn.protocolVersion < query.minProtocol then (mn, none)
  else if world.tooYoung mn then (mn, none)
  else node.examine world query mn

/-- The loop body of `GetMasternodeByRank`. -/
def byRankMasternode (mn : CMasternode) : CMasternode × Option (Int × CTxIn) :=
  if mn.protocolVersion < query.minProtocol then (mn, none)
  else node.examine world query mn

variable (mn : CMasternode)

theorem checked_vin : (node.checked world query mn).vin = mn.vin := by
  unfold checked
  split
  · exact CMasternode.check_vin _ mn false
  · rfl

theorem examine_vin : (node.examine world query mn).1.vin = mn.vin := by
  unfold examine
  dsimp only
  split
  · exact node.checked_vin world query mn
  · exact node.checked_vin world query mn

theorem rankMasternode_vin : (node.rankMasternode world query mn).1.vin = mn.vin := by
  unfold rankMasternode
  split
  · rfl
  split
  · rfl
  · exact node.examine_vin world query mn

theorem byRankMasternode_vin : (node.byRankMasternode world query mn).1.vin = mn.vin := by
  unfold byRankMasternode
  split
  · rfl
  · exact node.examine_vin world query mn

/-- The scores that `GetMasternodeRank` sorts. -/
def rankScores : List (Int × CTxIn) :=
  node.man.vMasternodes.filterMap fun mn =>
    ((node.asked world query).rankMasternode world query mn).2

/-- `GetMasternodeRank`, where the sort leaves the scores in the given order. -/
def getMasternodeRank (order : List (Int × CTxIn)) (vin : CTxIn) : Int :=
  match node.blockHash world query with
  | none => -1
  | some _ => rankOf vin 0 order

/-- The node after `GetMasternodeRank`. -/
def afterRank : RankNode :=
  match node.blockHash world query with
  | none => node.asked world query
  | some _ =>
    { node.asked world query with
      man := node.man.modify
        (fun mn => ((node.asked world query).rankMasternode world query mn).1)
        ((node.asked world query).rankMasternode_vin world query) }

/-- The scores that `GetMasternodeByRank` sorts. -/
def byRankScores : List (Int × CTxIn) :=
  node.man.vMasternodes.filterMap fun mn => (node.byRankMasternode world query mn).2

/-- `GetMasternodeByRank`, where the sort leaves the scores in the given order. -/
def getMasternodeByRank (order : List (Int × CTxIn)) (nRank : Int) : Option CMasternode :=
  (atRank nRank 0 order).bind
    (node.man.modify (fun mn => (node.byRankMasternode world query mn).1)
      (node.byRankMasternode_vin world query)).find

/-! ## What the ranks should be -/

/-- Every masternode has the same rank on both nodes. -/
def RanksAgree (left right : RankNode) : Prop :=
  ∀ leftOrder rightOrder, ScoreOrder (left.rankScores world query) leftOrder →
    ScoreOrder (right.rankScores world query) rightOrder →
      ∀ vin, left.getMasternodeRank world query leftOrder vin =
        right.getMasternodeRank world query rightOrder vin

/-- The masternode of a rank is the one that was given this rank. -/
def RoundTrips : Prop :=
  ∀ order byOrder, ScoreOrder (node.rankScores world query) order →
    ScoreOrder ((node.afterRank world query).byRankScores world query) byOrder →
      ∀ vin, node.getMasternodeRank world query order vin ≠ -1 →
        ∃ mn, (node.afterRank world query).getMasternodeByRank world query byOrder
            (node.getMasternodeRank world query order vin) = some mn ∧
          mn.vin.prevout = vin.prevout

/-- The masternode takes part where its protocol is new enough and, if only
active ones are asked for, the check leaves it enabled. -/
def takesPart (mn : CMasternode) : Bool :=
  decide (query.minProtocol ≤ mn.protocolVersion) &&
    (!query.fOnlyActive || (mn.check (node.checkContext world) false).isEnabled)

/-- `GetMasternodeRank` gives the masternode a rank. -/
def ranks (mn : CMasternode) : Bool :=
  (node.blockHash world query).isSome && node.takesPart world query mn && !world.tooYoung mn

/-- `GetMasternodeRank` passes over the masternode for its age alone. -/
def skippedForAge (mn : CMasternode) : Bool := node.takesPart world query mn && world.tooYoung mn

def scoreOf (mn : CMasternode) : Int := node.compactScore world query mn.vin.prevout

end RankNode

/-- Of two ranked masternodes one has the higher score, and the same one on both nodes. -/
def OrderedAlike (world : RankWorld) (query : RankQuery) (left right : RankNode) : Prop :=
  ∀ first ∈ left.man.vMasternodes, ∀ second ∈ left.man.vMasternodes,
    left.ranks world query first = true → left.ranks world query second = true → first ≠ second →
      (left.scoreOf world query first < left.scoreOf world query second ∧
          right.scoreOf world query first < right.scoreOf world query second) ∨
        (left.scoreOf world query second < left.scoreOf world query first ∧
          right.scoreOf world query second < right.scoreOf world query first)

/-- Both nodes rank the same masternodes and score them in the same order,
without ties, and what is skipped for its age scores below all of them. -/
structure RankAlike (world : RankWorld) (query : RankQuery) (left right : RankNode) : Prop where
  same : ∀ mn ∈ left.man.vMasternodes, left.ranks world query mn = right.ranks world query mn
  ordered : OrderedAlike world query left right
  youngBelow : ∀ mn ∈ left.man.vMasternodes, ∀ young ∈ left.man.vMasternodes,
    left.ranks world query mn = true → left.skippedForAge world query young = true →
      left.scoreOf world query young < left.scoreOf world query mn

/-! ## The last loops -/

/-- What a score is known by. -/
def scoreKey (s : Int × CTxIn) : COutPoint := s.2.prevout

variable {order : List (Int × CTxIn)}

theorem scoreOrder_iff {vecMasternodeScores : List (Int × CTxIn)} :
    ScoreOrder vecMasternodeScores order ↔
      Standings.IsOrder Prod.fst vecMasternodeScores order := by
  have same : (order.Pairwise fun first second => compareScoreTxIn first second = false) ↔
      Greedy.Ranked fst order := by
    simp only [compareScoreTxIn, decide_eq_false_iff_not, not_lt]
    exact Iff.rfl
  exact ⟨fun ordered => ⟨ordered.perm, same.mp ordered.sorted⟩,
    fun ordered => ⟨ordered.perm, same.mpr ordered.ranked⟩⟩

theorem rankOf_of_not_mem {vin : CTxIn} (missing : vin.prevout ∉ order.map scoreKey) (rank : Int) :
    rankOf vin rank order = -1 := by
  induction order generalizing rank with
  | nil => rfl
  | cons s rest ih =>
    rw [map_cons, mem_cons, not_or] at missing
    have differ : s.2.prevout ≠ vin.prevout := Ne.symm missing.1
    rw [rankOf, if_neg differ]
    exact ih missing.2 (rank + 1)

theorem rankOf_of_getElem? (vin : CTxIn) {i : Nat} (distinct : (order.map scoreKey).Nodup)
    (found : (order.map scoreKey)[i]? = some vin.prevout) (rank : Int) :
    rankOf vin rank order = rank + i + 1 := by
  induction order generalizing rank i with
  | nil => cases found
  | cons s rest ih =>
    rw [map_cons, nodup_cons] at distinct
    cases i with
    | zero =>
      have named : s.2.prevout = vin.prevout := by simpa [scoreKey] using found
      rw [rankOf, if_pos named]
      omega
    | succ i =>
      rw [map_cons, getElem?_cons_succ] at found
      have differ : s.2.prevout ≠ vin.prevout := by
        intro named
        have again : scoreKey s ∈ rest.map scoreKey := by
          rw [scoreKey, named]
          exact mem_of_getElem? found
        exact distinct.1 again
      rw [rankOf, if_neg differ, ih distinct.2 found (rank + 1)]
      omega

theorem atRank_eq (i : Nat) (rank : Int) (order : List (Int × CTxIn)) :
    atRank (rank + i + 1) rank order = order[i]?.map Prod.snd := by
  induction order generalizing rank i with
  | nil => rfl
  | cons s rest ih =>
    cases i with
    | zero =>
      rw [atRank, if_pos (by omega)]
      rfl
    | succ i =>
      have later : rank + ((i + 1 : Nat) : Int) + 1 = rank + 1 + i + 1 := by omega
      rw [atRank, if_neg (by omega), later, ih, getElem?_cons_succ]

theorem rankOf_eq_iff {other : List (Int × CTxIn)} (distinct : (order.map scoreKey).Nodup)
    (distinctToo : (other.map scoreKey).Nodup) :
    (∀ vin, rankOf vin 0 order = rankOf vin 0 other) ↔
      order.map scoreKey = other.map scoreKey := by
  have places : ∀ {first second : List (Int × CTxIn)}, (first.map scoreKey).Nodup →
      (second.map scoreKey).Nodup → (∀ vin, rankOf vin 0 first = rankOf vin 0 second) →
        ∀ (i : Nat) (prevout : COutPoint), (first.map scoreKey)[i]? = some prevout →
          (second.map scoreKey)[i]? = some prevout := by
    intro first second firstDistinct secondDistinct agree i prevout found
    have placed := rankOf_of_getElem? ⟨prevout, [], 0⟩ firstDistinct found 0
    rw [agree] at placed
    by_cases member : prevout ∈ second.map scoreKey
    · obtain ⟨j, foundToo⟩ := mem_iff_getElem?.mp member
      have placedToo := rankOf_of_getElem? ⟨prevout, [], 0⟩ secondDistinct foundToo 0
      have index : j = i := by omega
      exact index ▸ foundToo
    · rw [rankOf_of_not_mem member] at placed
      omega
  constructor
  · intro agree
    refine ext_getElem? fun i => ?_
    cases found : (order.map scoreKey)[i]? with
    | some prevout => exact (places distinct distinctToo agree i prevout found).symm
    | none =>
      cases foundToo : (other.map scoreKey)[i]? with
      | none => rfl
      | some prevout =>
        have there := places distinctToo distinct (fun vin => (agree vin).symm) i prevout
          foundToo
        exact absurd (found.symm.trans there) (by simp)
  · intro same vin
    by_cases member : vin.prevout ∈ order.map scoreKey
    · obtain ⟨i, found⟩ := mem_iff_getElem?.mp member
      rw [rankOf_of_getElem? vin distinct found, rankOf_of_getElem? vin distinctToo (same ▸ found)]
    · rw [rankOf_of_not_mem member, rankOf_of_not_mem (same ▸ member)]

/-! ## The scans -/

namespace RankNode

variable (world : RankWorld) (query : RankQuery) (node : RankNode)

/-- The score and input that a masternode is sorted with. -/
def entry (mn : CMasternode) : Int × CTxIn := (node.scoreOf world query mn, mn.vin)

theorem blockHash_asked : (node.asked world query).blockHash world query =
    node.blockHash world query := by
  unfold blockHash asked getBlockHash
  cases world.active with
  | nil => rfl
  | cons tip below => exact Memo.ask_again _

theorem compactScore_asked (prevout : COutPoint) :
    (node.asked world query).compactScore world query prevout =
      node.compactScore world query prevout := by
  have known := node.blockHash_asked world query
  unfold blockHash at known
  unfold compactScore calculateScore
  rw [known]

variable (mn : CMasternode)

theorem examine_snd :
    (node.examine world query mn).2 =
      if !query.fOnlyActive || (mn.check (node.checkContext world) false).isEnabled then
        some (node.entry world query mn)
      else none := by
  cases active : query.fOnlyActive with
  | false => simp [examine, checked, active, entry, scoreOf]
  | true =>
    cases enabled : (mn.check (node.checkContext world) false).isEnabled with
    | false => simp [examine, checked, active, enabled]
    | true => simp [examine, checked, active, enabled, entry, scoreOf]

theorem byRankMasternode_snd :
    (node.byRankMasternode world query mn).2 =
      if node.takesPart world query mn then some (node.entry world query mn) else none := by
  unfold byRankMasternode takesPart
  by_cases old : mn.protocolVersion < query.minProtocol
  · rw [if_pos old, if_neg (by simp [old])]
  · rw [if_neg old, examine_snd]
    simp [not_lt.mp old]

theorem rankMasternode_snd :
    (node.rankMasternode world query mn).2 =
      if node.takesPart world query mn && !world.tooYoung mn then some (node.entry world query mn)
      else none := by
  have without := node.byRankMasternode_snd world query mn
  unfold byRankMasternode at without
  unfold rankMasternode
  by_cases old : mn.protocolVersion < query.minProtocol
  · rw [if_pos old] at without ⊢
    cases part : node.takesPart world query mn with
    | false => rfl
    | true => simp [part] at without
  · rw [if_neg old] at without ⊢
    cases young : world.tooYoung mn with
    | true => simp
    | false => simpa using without

theorem entry_asked :
    (node.asked world query).entry world query mn = node.entry world query mn := by
  unfold entry scoreOf
  rw [compactScore_asked]

variable (passes : CMasternode → Bool)

theorem filterMap_entry (masternodes : List CMasternode) :
    (masternodes.filterMap fun mn =>
      if passes mn then some (node.entry world query mn) else none) =
        (masternodes.filter passes).map (node.entry world query) := by
  induction masternodes with
  | nil => rfl
  | cons mn rest ih =>
    cases passed : passes mn with
    | false =>
      rw [filterMap_cons, passed, filter_cons_of_neg (by simp [passed]), ← ih]
      rfl
    | true =>
      rw [filterMap_cons, passed, filter_cons_of_pos passed, map_cons, ← ih]
      rfl

theorem rankScores_eq :
    node.rankScores world query =
      (node.man.vMasternodes.filter fun mn =>
        node.takesPart world query mn && !world.tooYoung mn).map (node.entry world query) := by
  unfold rankScores
  rw [← filterMap_entry]
  refine filterMap_congr fun mn _ => ?_
  rw [rankMasternode_snd, entry_asked]
  rfl

/-- The loop of `GetMasternodeRank` changes nothing that the other one reads. -/
theorem byRankMasternode_after :
    ((node.asked world query).byRankMasternode world query
        ((node.asked world query).rankMasternode world query mn).1).2 =
      ((node.asked world query).byRankMasternode world query mn).2 := by
  unfold rankMasternode
  split
  · rfl
  split
  · rfl
  next old _ =>
    have left_eq : ((node.asked world query).examine world query mn).1 =
        (node.asked world query).checked world query mn := by
      unfold examine
      dsimp only
      split
      · rfl
      · rfl
    rw [left_eq]
    unfold checked
    split
    next active =>
      unfold byRankMasternode
      rw [CMasternode.check_protocolVersion, if_neg old, if_neg old, examine_snd, examine_snd,
        CMasternode.check_check]
      unfold entry scoreOf
      rw [CMasternode.check_vin]
    · rfl

variable {hash : Uint256}

theorem byRankScores_after (known : node.blockHash world query = some hash) :
    (node.afterRank world query).byRankScores world query =
      (node.man.vMasternodes.filter (node.takesPart world query)).map (node.entry world query) := by
  have after : node.afterRank world query =
      { node.asked world query with
        man := node.man.modify
          (fun mn => ((node.asked world query).rankMasternode world query mn).1)
          ((node.asked world query).rankMasternode_vin world query) } := by
    unfold afterRank
    rw [known]
  rw [after]
  unfold byRankScores
  rw [← filterMap_entry]
  simp only [CMasternodeMan.modify]
  rw [filterMap_map]
  refine filterMap_congr fun mn _ => ?_
  refine (node.byRankMasternode_after world query mn).trans ?_
  rw [byRankMasternode_snd, entry_asked]
  rfl

/-- The scores of the masternodes that get a rank. -/
def ranked : List (Int × CTxIn) :=
  (node.man.vMasternodes.filter (node.ranks world query)).map (node.entry world query)

theorem map_scoreKey :
    ((node.man.vMasternodes.filter passes).map (node.entry world query)).map scoreKey =
      (node.man.vMasternodes.filter passes).map (·.vin.prevout) := by
  rw [List.map_map]
  rfl

theorem distinct_keys :
    (((node.man.vMasternodes.filter passes).map (node.entry world query)).map scoreKey).Nodup := by
  rw [map_scoreKey]
  exact node.man.distinct.sublist (filter_sublist.map _)

theorem ranked_of_known (known : node.blockHash world query = some hash) :
    node.ranked world query = node.rankScores world query := by
  rw [ranked, rankScores_eq]
  refine congrArg (List.map (node.entry world query)) (filter_congr fun mn _ => ?_)
  rw [ranks, known, isSome_some, Bool.true_and]

theorem ranked_of_unknown (unknown : node.blockHash world query = none) :
    node.ranked world query = [] := by
  have nothing : node.man.vMasternodes.filter (node.ranks world query) = [] :=
    filter_eq_nil_iff.mpr fun mn _ => by simp [ranks, unknown]
  rw [ranked, nothing]
  rfl

/-- The keys that `GetMasternodeRank` walks over; none where the hash is unknown. -/
def walked (order : List (Int × CTxIn)) : List (Int × CTxIn) :=
  if (node.blockHash world query).isSome then order else []

theorem getMasternodeRank_eq (order : List (Int × CTxIn)) (vin : CTxIn) :
    node.getMasternodeRank world query order vin =
      rankOf vin 0 (node.walked world query order) := by
  unfold getMasternodeRank walked
  cases node.blockHash world query with
  | none => rfl
  | some hash => rfl

variable {order : List (Int × CTxIn)}

theorem walked_isOrder (ordered : ScoreOrder (node.rankScores world query) order) :
    Standings.IsOrder Prod.fst (node.ranked world query) (node.walked world query order) := by
  cases known : node.blockHash world query with
  | none =>
    rw [ranked_of_unknown world query node known, walked, known]
    exact ⟨List.Perm.refl _, List.Pairwise.nil⟩
  | some hash =>
    rw [ranked_of_known world query node known, walked, known]
    exact scoreOrder_iff.mp ordered

theorem exists_walked (ordered : Standings.IsOrder Prod.fst (node.ranked world query) order) :
    ∃ sorted, ScoreOrder (node.rankScores world query) sorted ∧
      node.walked world query sorted = order := by
  cases known : node.blockHash world query with
  | none =>
    rw [ranked_of_unknown world query node known] at ordered
    refine ⟨_, scoreOrder_iff.mpr (Standings.isOrder_sortByRank fst _), ?_⟩
    rw [walked, known, ordered.perm.eq_nil]
    rfl
  | some hash =>
    rw [ranked_of_known world query node known] at ordered
    refine ⟨order, scoreOrder_iff.mpr ordered, ?_⟩
    rw [walked, known]
    rfl

variable {left right : RankNode}

theorem ranksAgree_iff_keys :
    RanksAgree world query left right ↔
      ∀ one two, Standings.IsOrder Prod.fst (left.ranked world query) one →
        Standings.IsOrder Prod.fst (right.ranked world query) two →
          one.map scoreKey = two.map scoreKey := by
  have keys : ∀ (node : RankNode) (order : List (Int × CTxIn)),
      Standings.IsOrder fst (node.ranked world query) order → (order.map scoreKey).Nodup :=
    fun node order ordered =>
      (ordered.perm.map scoreKey).nodup_iff.mpr (node.distinct_keys world query _)
  constructor
  · intro agree one two sorted sortedToo
    obtain ⟨leftOrder, leftSorted, rfl⟩ := left.exists_walked world query sorted
    obtain ⟨rightOrder, rightSorted, rfl⟩ := right.exists_walked world query sortedToo
    refine (rankOf_eq_iff (keys left _ sorted) (keys right _ sortedToo)).mp fun vin => ?_
    rw [← getMasternodeRank_eq, ← getMasternodeRank_eq]
    exact agree leftOrder rightOrder leftSorted rightSorted vin
  · intro agree leftOrder rightOrder leftSorted rightSorted vin
    have sorted := left.walked_isOrder world query leftSorted
    have sortedToo := right.walked_isOrder world query rightSorted
    rw [getMasternodeRank_eq, getMasternodeRank_eq]
    exact (rankOf_eq_iff (keys left _ sorted) (keys right _ sortedToo)).mpr
      (agree _ _ sorted sortedToo) vin

variable {s : Int × CTxIn}

theorem mem_ranked :
    s ∈ node.ranked world query ↔
      ∃ mn ∈ node.man.vMasternodes, node.ranks world query mn = true ∧
        node.entry world query mn = s := by
  rw [ranked, List.mem_map]
  simp only [mem_filter, and_assoc]

theorem entry_mem_ranked {mn : CMasternode} (member : mn ∈ node.man.vMasternodes)
    (takes : node.ranks world query mn = true) :
    node.entry world query mn ∈ node.ranked world query :=
  (node.mem_ranked world query).mpr ⟨mn, member, takes, rfl⟩

theorem eq_of_prevout {node : RankNode} {first second : CMasternode}
    (member : first ∈ node.man.vMasternodes) (memberToo : second ∈ node.man.vMasternodes)
    (same : first.vin.prevout = second.vin.prevout) : first = second :=
  inj_on_of_nodup_map node.man.distinct member memberToo same

theorem ranks_of_keys (same : left.man.vMasternodes.Perm right.man.vMasternodes)
    (keys : ∀ name, name ∈ (left.ranked world query).map scoreKey →
      name ∈ (right.ranked world query).map scoreKey) {mn : CMasternode}
    (member : mn ∈ left.man.vMasternodes) (takes : left.ranks world query mn = true) :
    right.ranks world query mn = true := by
  have named := keys _ (List.mem_map_of_mem (left.entry_mem_ranked world query member takes))
  obtain ⟨s, inside, key_eq⟩ := List.mem_map.mp named
  obtain ⟨other, memberToo, takesToo, rfl⟩ := (right.mem_ranked world query).mp inside
  rw [← eq_of_prevout memberToo (same.mem_iff.mp member) key_eq]
  exact takesToo

/-- The order of the scores, in terms of the masternodes. -/
theorem sameOrder_iff (same : left.man.vMasternodes.Perm right.man.vMasternodes) :
    Standings.SameOrder Prod.fst scoreKey (left.ranked world query) (right.ranked world query) ↔
      (∀ mn ∈ left.man.vMasternodes, left.ranks world query mn = right.ranks world query mn) ∧
        OrderedAlike world query left right := by
  constructor
  · intro alike
    have both : ∀ mn ∈ left.man.vMasternodes,
        left.ranks world query mn = right.ranks world query mn := by
      intro mn member
      refine Bool.eq_iff_iff.mpr ⟨?_, ?_⟩
      · exact ranks_of_keys world query same (fun name => (alike.keys name).mp) member
      · exact ranks_of_keys world query same.symm (fun name => (alike.keys name).mpr)
          (same.mem_iff.mp member)
    refine ⟨both, ?_⟩
    intro first member second memberToo takes takesToo differ
    refine alike.ranks _ (left.entry_mem_ranked world query member takes)
      _ (left.entry_mem_ranked world query memberToo takesToo)
      _ (right.entry_mem_ranked world query (same.mem_iff.mp member) (both first member ▸ takes))
      _ (right.entry_mem_ranked world query (same.mem_iff.mp memberToo)
        (both second memberToo ▸ takesToo)) rfl rfl ?_
    exact fun key_eq => differ (eq_of_prevout member memberToo key_eq)
  · rintro ⟨both, ordered⟩
    refine ⟨fun name => ?_, ?_⟩
    · simp only [List.mem_map, mem_ranked]
      constructor
      · rintro ⟨s, ⟨mn, member, takes, rfl⟩, key_eq⟩
        exact ⟨right.entry world query mn,
          ⟨mn, same.mem_iff.mp member, both mn member ▸ takes, rfl⟩, key_eq⟩
      · rintro ⟨s, ⟨mn, member, takes, rfl⟩, key_eq⟩
        have inLeft := same.mem_iff.mpr member
        exact ⟨left.entry world query mn, ⟨mn, inLeft, (both mn inLeft).trans takes, rfl⟩, key_eq⟩
    · intro s inside t insideToo sToo insideRight tToo insideRightToo sKey tKey differ
      obtain ⟨first, member, takes, rfl⟩ := (left.mem_ranked world query).mp inside
      obtain ⟨second, memberToo, takesToo, rfl⟩ := (left.mem_ranked world query).mp insideToo
      obtain ⟨one, oneRight, _, rfl⟩ := (right.mem_ranked world query).mp insideRight
      obtain ⟨two, twoRight, _, rfl⟩ := (right.mem_ranked world query).mp insideRightToo
      have one_eq : first = one := eq_of_prevout member (same.mem_iff.mpr oneRight) sKey
      have two_eq : second = two := eq_of_prevout memberToo (same.mem_iff.mpr twoRight) tKey
      subst one_eq two_eq
      refine ordered first member second memberToo takes takesToo ?_
      rintro rfl
      exact differ rfl

/-! ## Back from a rank -/

/-- The scores that `GetMasternodeByRank` sorts after `GetMasternodeRank`. -/
def listed : List (Int × CTxIn) :=
  (node.man.vMasternodes.filter (node.takesPart world query)).map (node.entry world query)

theorem ranked_sublist : (node.ranked world query).Sublist (node.listed world query) := by
  refine List.Sublist.map _ (monotone_filter_right _ fun mn takes => ?_)
  unfold ranks at takes
  simp only [Bool.and_eq_true] at takes
  exact takes.1.2

theorem mem_listed :
    s ∈ node.listed world query ↔
      ∃ mn ∈ node.man.vMasternodes, node.takesPart world query mn = true ∧
        node.entry world query mn = s := by
  rw [listed, List.mem_map]
  simp only [mem_filter, and_assoc]

theorem listed_inj {t : Int × CTxIn} (member : s ∈ node.listed world query)
    (memberToo : t ∈ node.listed world query) (same : scoreKey s = scoreKey t) : s = t :=
  inj_on_of_nodup_map (node.distinct_keys world query _) member memberToo same

/-- `GetMasternodeByRank` gives the masternode at a place. -/
theorem getMasternodeByRank_eq_some_iff {i : Nat} {mn : CMasternode} :
    node.getMasternodeByRank world query order (0 + i + 1) = some mn ↔
      ∃ s, order[i]? = some s ∧ mn.vin.prevout = scoreKey s ∧
        mn ∈ (node.man.modify (fun mn => (node.byRankMasternode world query mn).1)
          (node.byRankMasternode_vin world query)).vMasternodes := by
  rw [getMasternodeByRank, atRank_eq, bind_eq_some_iff]
  constructor
  · rintro ⟨vin, found, named⟩
    obtain ⟨s, there, rfl⟩ := map_eq_some_iff.mp found
    obtain ⟨member, key_eq⟩ := CMasternodeMan.find_eq_some_iff.mp named
    exact ⟨s, there, key_eq, member⟩
  · rintro ⟨s, there, key_eq, member⟩
    exact ⟨s.2, map_eq_some_iff.mpr ⟨s, there, rfl⟩,
      CMasternodeMan.find_eq_some_iff.mpr ⟨member, key_eq⟩⟩

theorem afterRank_prevouts :
    (node.afterRank world query).man.vMasternodes.map (·.vin.prevout) =
      node.man.vMasternodes.map (·.vin.prevout) := by
  unfold afterRank
  split
  · rfl
  · exact CMasternodeMan.map_prevout ((node.asked world query).rankMasternode_vin world query)

section

variable (known : node.blockHash world query = some hash)

include known

/-- Where no two ranked masternodes tie, a rank leads back exactly if every
ranked masternode keeps its place among the listed ones. -/
theorem roundTrips_iff_places
    (untied : ∀ first ∈ node.ranked world query, ∀ second ∈ node.ranked world query,
      first ≠ second → first.1 ≠ second.1) :
    node.RoundTrips world query ↔
      ∀ s ∈ node.ranked world query, ∀ order,
        Standings.IsOrder Prod.fst (node.listed world query) order →
          order[(Greedy.above Prod.fst (node.ranked world query) s).length]? = some s := by
  have scores_eq := node.ranked_of_known world query known
  have byScores_eq : (node.afterRank world query).byRankScores world query =
      node.listed world query := node.byRankScores_after world query known
  have distinct : (node.ranked world query).Nodup :=
    List.Nodup.of_map _ (node.distinct_keys world query _)
  have placed : ∀ s ∈ node.ranked world query, ∀ order,
      ScoreOrder (node.rankScores world query) order →
        order[(Greedy.above fst (node.ranked world query) s).length]? = some s := by
    intro s member order ordered
    rw [← scores_eq, scoreOrder_iff] at ordered
    exact Standings.getElem?_of_untied ordered member
      (fun other there differ => untied other there s member differ) distinct
  have rank_eq : ∀ s ∈ node.ranked world query, ∀ order (vin : CTxIn),
      ScoreOrder (node.rankScores world query) order → scoreKey s = vin.prevout →
        node.getMasternodeRank world query order vin =
          0 + ((Greedy.above fst (node.ranked world query) s).length : Nat) + 1 := by
    intro s member order vin ordered named
    have keys : (order.map scoreKey).Nodup := by
      rw [(ordered.perm.map scoreKey).nodup_iff, ← scores_eq]
      exact node.distinct_keys world query _
    unfold getMasternodeRank
    rw [known]
    refine rankOf_of_getElem? vin keys ?_ 0
    rw [getElem?_map, placed s member order ordered, map_some, named]
  constructor
  · intro back s member byOrder byOrdered
    rw [← byScores_eq, ← scoreOrder_iff] at byOrdered
    have sorted := scoreOrder_iff.mpr
      (Standings.isOrder_sortByRank fst (node.rankScores world query))
    have rank_s := rank_eq s member _ s.2 sorted rfl
    obtain ⟨mn, found, named⟩ := back _ byOrder sorted byOrdered s.2 (by rw [rank_s]; omega)
    rw [rank_s, getMasternodeByRank_eq_some_iff] at found
    obtain ⟨t, there, key_eq, _⟩ := found
    have inListed : t ∈ node.listed world query := by
      rw [← byScores_eq]
      exact byOrdered.perm.mem_iff.mp (mem_of_getElem? there)
    rw [there, node.listed_inj world query inListed
      ((node.ranked_sublist world query).subset member) (key_eq.symm.trans named)]
  · intro kept order byOrder ordered byOrdered vin ranked_vin
    rw [byScores_eq, scoreOrder_iff] at byOrdered
    have listed_vin : vin.prevout ∈ (node.ranked world query).map scoreKey := by
      by_contra missing
      rw [scores_eq, ← (ordered.perm.map scoreKey).mem_iff] at missing
      refine ranked_vin ?_
      unfold getMasternodeRank
      rw [known]
      exact rankOf_of_not_mem missing 0
    obtain ⟨s, member, named⟩ := List.mem_map.mp listed_vin
    obtain ⟨mn, inList, _, rfl⟩ := (node.mem_ranked world query).mp member
    have after : vin.prevout ∈ ((node.afterRank world query).man.modify
        (fun mn => ((node.afterRank world query).byRankMasternode world query mn).1)
        ((node.afterRank world query).byRankMasternode_vin world query)).vMasternodes.map
          (·.vin.prevout) := by
      rw [CMasternodeMan.modify, CMasternodeMan.map_prevout
        ((node.afterRank world query).byRankMasternode_vin world query), afterRank_prevouts,
        ← named]
      exact List.mem_map_of_mem inList
    obtain ⟨found, inAfter, found_eq⟩ := List.mem_map.mp after
    refine ⟨found, ?_, found_eq⟩
    rw [rank_eq _ member order vin ordered named, getMasternodeByRank_eq_some_iff]
    exact ⟨_, kept _ member byOrder byOrdered, found_eq.trans named.symm, inAfter⟩

theorem skippedForAge_iff {mn : CMasternode}
    (member : mn ∈ node.man.vMasternodes) :
    node.skippedForAge world query mn = true ↔
      node.entry world query mn ∈ node.listed world query ∧
        node.entry world query mn ∉ node.ranked world query := by
  have inListed : node.entry world query mn ∈ node.listed world query ↔
      node.takesPart world query mn = true := by
    rw [mem_listed]
    constructor
    · rintro ⟨other, memberToo, takes, same⟩
      have prevout_eq := congrArg scoreKey same
      rw [← eq_of_prevout memberToo member prevout_eq]
      exact takes
    · exact fun takes => ⟨mn, member, takes, rfl⟩
  have inRanked : node.entry world query mn ∈ node.ranked world query ↔
      node.ranks world query mn = true := by
    rw [mem_ranked]
    constructor
    · rintro ⟨other, memberToo, takes, same⟩
      have prevout_eq := congrArg scoreKey same
      rw [← eq_of_prevout memberToo member prevout_eq]
      exact takes
    · exact fun takes => ⟨mn, member, takes, rfl⟩
  rw [inListed, inRanked, skippedForAge, ranks, known]
  cases node.takesPart world query mn with
  | false => simp
  | true => simp

theorem below_iff :
    (∀ s ∈ node.ranked world query, ∀ extra ∈ node.listed world query,
        extra ∉ node.ranked world query → extra.1 < s.1) ↔
      ∀ mn ∈ node.man.vMasternodes, ∀ young ∈ node.man.vMasternodes,
        node.ranks world query mn = true → node.skippedForAge world query young = true →
          node.scoreOf world query young < node.scoreOf world query mn := by
  constructor
  · intro below mn member young memberToo takes skipped
    obtain ⟨inside, outside⟩ := (node.skippedForAge_iff world query known memberToo).mp skipped
    exact below _ (node.entry_mem_ranked world query member takes) _ inside outside
  · intro below s inRanked extra inside outside
    obtain ⟨mn, member, takes, rfl⟩ := (node.mem_ranked world query).mp inRanked
    obtain ⟨young, memberToo, _, rfl⟩ := (node.mem_listed world query).mp inside
    exact below mn member young memberToo takes
      ((node.skippedForAge_iff world query known memberToo).mpr ⟨inside, outside⟩)

end

theorem ranksAgree_iff (same : left.man.vMasternodes.Perm right.man.vMasternodes) :
    RanksAgree world query left right ↔
      (∀ mn ∈ left.man.vMasternodes, left.ranks world query mn = right.ranks world query mn) ∧
        OrderedAlike world query left right := by
  rw [ranksAgree_iff_keys, ← sameOrder_iff world query same]
  exact Standings.keys_eq_iff (left.distinct_keys world query (left.ranks world query))
    (right.distinct_keys world query (right.ranks world query))

theorem untied_of_orderedAlike (ordered : OrderedAlike world query left right) :
    ∀ s ∈ left.ranked world query, ∀ t ∈ left.ranked world query, s ≠ t → s.1 ≠ t.1 := by
  intro s inside t insideToo differ
  obtain ⟨first, member, takes, rfl⟩ := (left.mem_ranked world query).mp inside
  obtain ⟨second, memberToo, takesToo, rfl⟩ := (left.mem_ranked world query).mp insideToo
  have apart := ordered first member second memberToo takes takesToo
    (fun equal => differ (congrArg _ equal))
  exact apart.elim (fun lower => lower.1.ne) fun higher => higher.1.ne'

theorem roundTrips_iff (known : node.blockHash world query = some hash)
    (untied : ∀ first ∈ node.ranked world query, ∀ second ∈ node.ranked world query,
      first ≠ second → first.1 ≠ second.1) :
    node.RoundTrips world query ↔
      ∀ mn ∈ node.man.vMasternodes, ∀ young ∈ node.man.vMasternodes,
        node.ranks world query mn = true → node.skippedForAge world query young = true →
          node.scoreOf world query young < node.scoreOf world query mn := by
  have distinct : (node.listed world query).Nodup :=
    List.Nodup.of_map _ (node.distinct_keys world query (node.takesPart world query))
  rw [node.roundTrips_iff_places world query known untied, ← node.below_iff world query known]
  exact Standings.places_kept_iff (node.ranked_sublist world query) distinct untied

/-- Two nodes with the same masternodes give the same ranks, and a rank leads
back to its masternode, exactly if `RankAlike` holds. -/
theorem ranks_agree_and_return_iff (world : RankWorld) (query : RankQuery) {left right : RankNode}
    (same : left.man.vMasternodes.Perm right.man.vMasternodes) :
    (RanksAgree world query left right ∧ left.RoundTrips world query) ↔
      RankAlike world query left right := by
  rw [ranksAgree_iff world query same]
  cases known : left.blockHash world query with
  | none =>
    -- nothing is ranked
    have back : left.RoundTrips world query := by
      intro order byOrder _ _ vin ranked_vin
      refine absurd ?_ ranked_vin
      rw [getMasternodeRank, known]
    constructor
    · rintro ⟨⟨both, ordered⟩, _⟩
      refine ⟨both, ordered, fun mn _ young _ takes => ?_⟩
      simp [ranks, known] at takes
    · exact fun alike => ⟨⟨alike.same, alike.ordered⟩, back⟩
  | some hash =>
    constructor
    · rintro ⟨⟨both, ordered⟩, back⟩
      have untied := untied_of_orderedAlike world query ordered
      exact ⟨both, ordered, (left.roundTrips_iff world query known untied).mp back⟩
    · intro alike
      have untied := untied_of_orderedAlike world query alike.ordered
      exact ⟨⟨alike.same, alike.ordered⟩,
        (left.roundTrips_iff world query known untied).mpr alike.youngBelow⟩

end RankNode

/-! ## Where ranks depend on the order of the list -/

namespace RankSample

def block : Uint256 := 0x934408bd0bab1aec20943f5a848a34cd3f0611450e6576189c1a95b419cad094

/-- The double hash of the block hash followed by a few numbers. -/
def hashWith (aux : Uint256) : Uint256 :=
  if aux = 1 then 0x5a1d5b8fa557dd09cbae414b661d0a02966f8d8407b1a34be8643f6c20b01d9e
  else if aux = 2 then 0xf52966e1b150c9f27941a883b556f48f7d28db016d1573378b4b12bad1b8a46e
  else if aux = 25 then 0xd33a214bbc4bc8ef364d038791a21710e47c1ba7aff6d97bb4bbda6321aea5de
  else if aux = 309 then 0xd33954c721444aea59986e128c4559fafec76db15d2ee7f4547cff4d10150b15
  else 0

/-- A chain of one block above the genesis block. -/
def world : RankWorld where
  active := [block, mainParams.hashGenesisBlock]
  hash1 := fun _ => 0x3bd540189a9a5896f54eb425fb9877bb85ef53cc95cb21220cf9a12ce27b49a7
  hash2 := fun _ aux => hashWith aux
  paymentEnforcement := true
  winnerMinimumAge := 18000
  getTime := 1700000000
  getAdjustedTime := 1700000000

def query : RankQuery := ⟨2, 70000, true⟩

def masternode (txid : Uint256) (sigTime : Int) : CMasternode where
  vin := { prevout := ⟨txid, 0⟩ }
  sigTime := sigTime
  protocolVersion := 70100
  lastPing := { vin := { prevout := ⟨txid, 0⟩ }, blockHash := block, sigTime := 1699999900 }

def node (first second : CMasternode)
    (differ : first.vin.prevout ≠ second.vin.prevout) : RankNode where
  man := ⟨[first, second], by simpa using differ⟩
  acceptableInputs := fun _ => true

def old (txid : Uint256) : CMasternode := masternode txid 1690000000

def young (txid : Uint256) : CMasternode := masternode txid 1699999000

/-- Two masternodes whose scores differ and have the same compact form. -/
def tied : RankNode := node (old 25) (old 309) (by decide)

def tiedOtherwise : RankNode := node (old 309) (old 25) (by decide)

/-- A masternode that is too young for a rank, with the higher score. -/
def mixed : RankNode := node (old 1) (young 2) (by decide)

end RankSample

namespace RankNode

open RankSample

theorem ranks_agree_and_return_two :
    RanksAgree world query (node (old 1) (old 25) (by decide)) (node (old 25) (old 1) (by decide)) ∧
      (node (old 1) (old 25) (by decide)).RoundTrips world query := by
  refine (ranks_agree_and_return_iff world query (List.Perm.swap _ _ _)).mpr ⟨?_, ?_, ?_⟩
  · decide +kernel
  · unfold OrderedAlike
    decide +kernel
  · decide +kernel

/-- Masternodes with the same compact score are ranked as they are stored, and
a young masternode takes a rank that was given to another one. -/
theorem ranks_depend_on_storage :
    (¬ ∀ left right : RankNode, left.man.vMasternodes.Perm right.man.vMasternodes →
        RanksAgree world query left right) ∧
      ¬ ∀ node : RankNode, node.RoundTrips world query := by
  constructor
  · intro agree
    have ranks_eq := agree tied tiedOtherwise (List.Perm.swap _ _ _)
      (tied.rankScores world query) (tiedOtherwise.rankScores world query)
      ⟨List.Perm.refl _, by decide +kernel⟩ ⟨List.Perm.refl _, by decide +kernel⟩ (old 25).vin
    revert ranks_eq
    decide +kernel
  · intro back
    obtain ⟨mn, found, named⟩ := back mixed (mixed.rankScores world query)
      ((mixed.afterRank world query).byRankScores world query).reverse
      ⟨List.Perm.refl _, by decide +kernel⟩ ⟨reverse_perm _, by decide +kernel⟩ (old 1).vin
      (by decide +kernel)
    have other : ((mixed.afterRank world query).getMasternodeByRank world query
        ((mixed.afterRank world query).byRankScores world query).reverse
        (mixed.getMasternodeRank world query (mixed.rankScores world query) (old 1).vin)).map
          (·.vin.prevout) = some ⟨2, 0⟩ := by decide +kernel
    rw [found, map_some, named] at other
    exact absurd other (by decide)

end RankNode

end CentNode
