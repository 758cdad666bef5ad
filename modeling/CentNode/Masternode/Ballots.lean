import CentNode.Library.StdMap
import CentNode.Primitives.Transaction

/-!
# Items that masternodes vote on

`CBudgetManager` treats proposals and finalized budgets alike: an item is
accepted once, votes for an item that is not there wait as orphans, and each
vote is processed once.  The two families of functions are one here, over the
rules of the kind of item.
-/

namespace CentNode

open StdMap List Option

/-- `value` fits an `int64_t`. -/
abbrev IsInt64 (value : Int) : Prop := -2 ^ 63 ≤ value ∧ value < 2 ^ 63

theorem isInt64_zero : IsInt64 0 := by decide

theorem isInt64_thousand : IsInt64 1000 := by decide

/-- What the manager asks of an item and of a vote for it. -/
structure BallotRules (Item Vote : Type) where
  itemHash : Item → Uint256
  mapVotes : Item → StdMap Uint256 Vote
  withVotes : Item → StdMap Uint256 Vote → Item
  mapVotes_withVotes : ∀ item votes, mapVotes (withVotes item votes) = votes
  /-- `IsBudgetCollateralValid`. -/
  collateralValid : Item → Bool
  isValid : Item → Bool
  voteHash : Vote → Uint256
  /-- The hash of the item that the vote is for. -/
  votedHash : Vote → Uint256
  /-- `vin.prevout.GetHash()`. -/
  voter : Vote → Uint256
  nTime : Vote → Int
  nTime_range : ∀ vote, IsInt64 (nTime vote)
  /-- `mnodeman.Find(vin) != NULL`. -/
  masternodeKnown : Vote → Bool
  signatureValid : Vote → Bool

/-- One kind of items with their votes.  An orphan vote is stored under the
hash of the item it is for. -/
structure Ballots {Item Vote : Type} (rules : BallotRules Item Vote) where
  mapItems : StdMap Uint256 Item
  mapSeenItems : StdMap Uint256 Item
  mapSeenVotes : StdMap Uint256 Vote
  mapOrphanVotes : StdMap Uint256 Vote
  orphansKeyed : ∀ hash vote, mapOrphanVotes.lookup hash = some vote → rules.votedHash vote = hash

def budgetVoteUpdateMin : Int := 60 * 60

section Rules

variable {Item Vote : Type} (rules : BallotRules Item Vote)

/-- The vote is not too far ahead of the current time. -/
def BallotRules.timely (now : Int) (vote : Vote) : Bool := rules.nTime vote ≤ now + 60 * 60

/-- An earlier vote of the masternode stands in the way. -/
def BallotRules.tooSoon (mapVotes : StdMap Uint256 Vote) (vote : Vote) : Bool :=
  match mapVotes.lookup (rules.voter vote) with
  | none => false
  | some old =>
    decide (rules.nTime vote < rules.nTime old) ||
      decide (toInt64 (rules.nTime vote - rules.nTime old) < budgetVoteUpdateMin)

/-- `AddOrUpdateVote`; `none` when it returns false. -/
def BallotRules.addOrUpdateVote (now : Int) (mapVotes : StdMap Uint256 Vote) (vote : Vote) :
    Option (StdMap Uint256 Vote) :=
  if rules.tooSoon mapVotes vote then none
  else if rules.timely now vote then some (mapVotes.insert (rules.voter vote) vote)
  else none

/-- What a vote does to its item. -/
def BallotRules.placed (now : Int) (vote : Vote) (item : Item) : Item :=
  match rules.addOrUpdateVote now (rules.mapVotes item) vote with
  | none => item
  | some votes => rules.withVotes item votes

end Rules

namespace Ballots

variable {Item Vote : Type} {rules : BallotRules Item Vote}

def addOrphan (ballots : Ballots rules) (vote : Vote) : Ballots rules :=
  { ballots with
    mapOrphanVotes := ballots.mapOrphanVotes.insert (rules.votedHash vote) vote
    orphansKeyed := by
      intro hash other found
      rw [StdMap.lookup_insert_ite] at found
      split at found
      case isTrue same =>
        cases found
        exact same.symm
      case isFalse => exact ballots.orphansKeyed hash other found }

def eraseOrphan (ballots : Ballots rules) (hash : Uint256) : Ballots rules :=
  { ballots with
    mapOrphanVotes := ballots.mapOrphanVotes.erase hash
    orphansKeyed := by
      intro other vote found
      rw [StdMap.lookup_erase_ite] at found
      split at found
      case isTrue => cases found
      case isFalse => exact ballots.orphansKeyed other vote found }

/-- `UpdateProposal` and `UpdateFinalizedBudget`; a vote from a peer waits as an
orphan when its item is unknown and the node is synced. -/
def updateItem (isSynced fromPeer : Bool) (now : Int) (ballots : Ballots rules) (vote : Vote) :
    Bool × Ballots rules :=
  match ballots.mapItems.lookup (rules.votedHash vote) with
  | none => (false, if fromPeer && isSynced then ballots.addOrphan vote else ballots)
  | some item =>
    match rules.addOrUpdateVote now (rules.mapVotes item) vote with
    | none => (false, ballots)
    | some votes =>
      (true, { ballots with
        mapItems := ballots.mapItems.insert (rules.votedHash vote)
          (rules.withVotes item votes) })

/-- One iteration of `CheckOrphanVotes`. -/
def checkOrphan (isSynced : Bool) (now : Int) (ballots : Ballots rules) (hash : Uint256)
    (vote : Vote) : Ballots rules :=
  let updated := ballots.updateItem isSynced false now vote
  if updated.1 then updated.2.eraseOrphan hash else updated.2

/-- The loop of `CheckOrphanVotes`.  Each orphan touches only the item it is
stored under, so that the order of the map does not matter. -/
def checkOrphanVotes (isSynced : Bool) (now : Int) (ballots : Ballots rules) : Ballots rules :=
  ballots.mapOrphanVotes.entries.foldl
    (fun current orphan => current.checkOrphan isSynced now orphan.1 orphan.2) ballots

/-- `AddProposal` and `AddFinalizedBudget`. -/
def addItem (ballots : Ballots rules) (item : Item) : Ballots rules :=
  if !rules.isValid item then ballots
  else { ballots with mapItems := ballots.mapItems.insertNew (rules.itemHash item) item }

/-- The messages `mprop` and `fbs` up to `CheckOrphanVotes`, which is called
when the first component is true. -/
def receiveItem (ballots : Ballots rules) (item : Item) : Bool × Ballots rules :=
  if (ballots.mapSeenItems.lookup (rules.itemHash item)).isSome then (false, ballots)
  else if !rules.collateralValid item then (false, ballots)
  else
    let seen := { ballots with
      mapSeenItems := ballots.mapSeenItems.insertNew (rules.itemHash item) item }
    if !rules.isValid item then (false, seen) else (true, seen.addItem item)

/-- The messages `mvote` and `fbvote`. -/
def receiveVote (isSynced : Bool) (now : Int) (ballots : Ballots rules) (vote : Vote) :
    Ballots rules :=
  if (ballots.mapSeenVotes.lookup (rules.voteHash vote)).isSome then ballots
  else if !rules.masternodeKnown vote then ballots
  else
    let seen := { ballots with
      mapSeenVotes := ballots.mapSeenVotes.insertNew (rules.voteHash vote) vote }
    if !rules.signatureValid vote then seen else (seen.updateItem isSynced true now vote).2

/-- Votes one after the other, each with the time of its arrival. -/
def receiveVotes (isSynced : Bool) (ballots : Ballots rules) (arrivals : List (Vote × Int)) :
    Ballots rules :=
  arrivals.foldl (fun current arrival => current.receiveVote isSynced arrival.2 arrival.1) ballots

/-! ## Orphans -/

variable (isSynced : Bool)

theorem updateItem_seenVotes (fromPeer : Bool) (now : Int) (ballots : Ballots rules) (vote : Vote) :
    (ballots.updateItem isSynced fromPeer now vote).2.mapSeenVotes = ballots.mapSeenVotes := by
  rw [updateItem]
  split
  · cases fromPeer <;> cases isSynced <;> rfl
  · split <;> rfl

variable (now : Int)

section

variable (ballots : Ballots rules) (hash : Uint256)

theorem checkOrphan_seenVotes (vote : Vote) :
    (ballots.checkOrphan isSynced now hash vote).mapSeenVotes = ballots.mapSeenVotes := by
  rw [checkOrphan]
  split
  · exact updateItem_seenVotes isSynced false now ballots vote
  · exact updateItem_seenVotes isSynced false now ballots vote

theorem lookup_updateItem (fromPeer : Bool) (now : Int) (ballots : Ballots rules) (vote : Vote)
    (other : Uint256) :
    (ballots.updateItem isSynced fromPeer now vote).2.mapItems.lookup other =
      if other = rules.votedHash vote then
        (ballots.mapItems.lookup (rules.votedHash vote)).map (rules.placed now vote)
      else ballots.mapItems.lookup other := by
  rw [updateItem]
  cases found : ballots.mapItems.lookup (rules.votedHash vote) with
  | none => cases fromPeer <;> cases isSynced <;> exact lookup_eq_ite found other
  | some item =>
    simp only [BallotRules.placed, map_some]
    cases rules.addOrUpdateVote now (rules.mapVotes item) vote with
    | none => exact lookup_eq_ite found other
    | some votes => exact lookup_insert_ite (rules.votedHash vote) other _ ballots.mapItems

theorem lookup_checkOrphan {hash : Uint256} {vote : Vote}
    (keyed : rules.votedHash vote = hash) (other : Uint256) :
    (ballots.checkOrphan isSynced now hash vote).mapItems.lookup other =
      if other = hash then (ballots.mapItems.lookup hash).map (rules.placed now vote)
      else ballots.mapItems.lookup other := by
  have erased : (ballots.checkOrphan isSynced now hash vote).mapItems =
      (ballots.updateItem isSynced false now vote).2.mapItems := by
    rw [checkOrphan]
    split <;> rfl
  rw [erased, lookup_updateItem, keyed]

/-- The loop, from any point on: an item sees the orphan under its own hash. -/
theorem lookup_checkOrphans (isSynced : Bool) (now : Int) (ballots : Ballots rules)
    (orphans : List (Sigma fun _ : Uint256 => Vote)) (distinct : orphans.NodupKeys)
    (keyed : ∀ orphan ∈ orphans, rules.votedHash orphan.2 = orphan.1) (hash : Uint256) :
    let checked := orphans.foldl
      (fun current orphan => current.checkOrphan isSynced now orphan.1 orphan.2) ballots
    checked.mapSeenVotes = ballots.mapSeenVotes ∧
      checked.mapItems.lookup hash =
        match orphans.dlookup hash with
        | none => ballots.mapItems.lookup hash
        | some vote => (ballots.mapItems.lookup hash).map (rules.placed now vote) := by
  induction orphans generalizing ballots with
  | nil => exact ⟨rfl, rfl⟩
  | cons orphan rest ih =>
    obtain ⟨key, vote⟩ := orphan
    obtain ⟨fresh, restDistinct⟩ := nodupKeys_cons.mp distinct
    have absent : rest.dlookup key = none := dlookup_eq_none.mpr fresh
    have here : rules.votedHash vote = key := keyed ⟨key, vote⟩ mem_cons_self
    obtain ⟨seen, items⟩ := ih (ballots.checkOrphan isSynced now key vote) restDistinct
      fun orphan member => keyed orphan (mem_cons_of_mem _ member)
    refine ⟨seen.trans (checkOrphan_seenVotes isSynced now ballots key vote), ?_⟩
    rw [foldl_cons, items, lookup_checkOrphan isSynced now ballots here]
    by_cases same : hash = key
    · subst same
      rw [absent, dlookup_cons_eq, if_pos rfl]
    · rw [dlookup_cons_ne rest ⟨key, vote⟩ same, if_neg same]

theorem lookup_checkOrphanVotes :
    (ballots.checkOrphanVotes isSynced now).mapItems.lookup hash =
      match ballots.mapOrphanVotes.lookup hash with
      | none => ballots.mapItems.lookup hash
      | some vote => (ballots.mapItems.lookup hash).map (rules.placed now vote) :=
  (lookup_checkOrphans isSynced now ballots _ ballots.mapOrphanVotes.nodupKeys
    (fun orphan member => ballots.orphansKeyed orphan.1 orphan.2
      (AList.mem_lookup_iff.mpr member)) hash).2

theorem checkOrphanVotes_seenVotes :
    (ballots.checkOrphanVotes isSynced now).mapSeenVotes = ballots.mapSeenVotes :=
  (lookup_checkOrphans isSynced now ballots _ ballots.mapOrphanVotes.nodupKeys
    (fun orphan member => ballots.orphansKeyed orphan.1 orphan.2
      (AList.mem_lookup_iff.mpr member)) 0).1

end

/-! ## Properties of all items -/

/-- Every item has the property under its hash. -/
def All (Property : Uint256 → Item → Prop) (ballots : Ballots rules) : Prop :=
  ∀ hash item, ballots.mapItems.lookup hash = some item → Property hash item

variable {Property : Uint256 → Item → Prop} {ballots : Ballots rules}

variable {item : Item}

theorem placed_iff {hash : Uint256} (holds : Property hash item) (now : Int) (vote : Vote) :
    Property hash (rules.placed now vote item) ↔
      ∀ votes, rules.addOrUpdateVote now (rules.mapVotes item) vote = some votes →
        Property hash (rules.withVotes item votes) := by
  rw [BallotRules.placed]
  cases rules.addOrUpdateVote now (rules.mapVotes item) vote with
  | none => exact iff_of_true holds fun votes impossible => by cases impossible
  | some votes => simp

section

variable (all : ballots.All Property)

include all

theorem all_updateItem_iff (isSynced fromPeer : Bool) (now : Int)
    (vote : Vote) :
    (ballots.updateItem isSynced fromPeer now vote).2.All Property ↔
      ∀ item votes, ballots.mapItems.lookup (rules.votedHash vote) = some item →
        rules.addOrUpdateVote now (rules.mapVotes item) vote = some votes →
          Property (rules.votedHash vote) (rules.withVotes item votes) := by
  constructor
  · intro after item votes found
    refine (placed_iff (all _ item found) now vote).mp ?_ votes
    refine after _ _ ?_
    rw [lookup_updateItem, if_pos rfl, found, map_some]
  · intro placed hash item there
    rw [lookup_updateItem] at there
    split at there
    case isTrue same =>
      obtain ⟨old, found, rfl⟩ := map_eq_some_iff.mp there
      rw [same]
      exact (placed_iff (all _ old found) now vote).mpr fun votes => placed old votes found
    case isFalse => exact all hash item there

theorem all_receiveVote_iff (isSynced : Bool) (now : Int)
    (vote : Vote) :
    (ballots.receiveVote isSynced now vote).All Property ↔
      (ballots.mapSeenVotes.lookup (rules.voteHash vote) = none →
        rules.masternodeKnown vote = true → rules.signatureValid vote = true →
          ∀ item votes, ballots.mapItems.lookup (rules.votedHash vote) = some item →
            rules.addOrUpdateVote now (rules.mapVotes item) vote = some votes →
              Property (rules.votedHash vote) (rules.withVotes item votes)) := by
  rw [receiveVote]
  cases new : ballots.mapSeenVotes.lookup (rules.voteHash vote) with
  | some old => exact iff_of_true all fun impossible => by cases impossible
  | none =>
    cases known : rules.masternodeKnown vote with
    | false => exact iff_of_true all fun _ impossible => by cases impossible
    | true =>
      cases signed : rules.signatureValid vote with
      | false => exact iff_of_true all fun _ _ impossible => by cases impossible
      | true =>
        have noted : All Property { ballots with
            mapSeenVotes := ballots.mapSeenVotes.insertNew (rules.voteHash vote) vote } := all
        simp only [true_implies]
        exact all_updateItem_iff noted isSynced true now vote

theorem all_addItem_iff (item : Item) :
    (ballots.addItem item).All Property ↔
      (rules.isValid item = true → ballots.mapItems.lookup (rules.itemHash item) = none →
        Property (rules.itemHash item) item) := by
  rw [addItem]
  cases rules.isValid item with
  | false => exact iff_of_true all fun impossible => by cases impossible
  | true =>
    rw [if_neg (by decide), forall_prop_of_true rfl]
    constructor
    · intro after new
      refine after _ _ ?_
      rw [lookup_insertNew, if_pos ⟨rfl, new⟩]
    · intro added hash other there
      rw [lookup_insertNew] at there
      split at there
      case isTrue new =>
        cases there
        rw [new.1]
        exact added new.2
      case isFalse => exact all hash other there

theorem all_receiveItem_iff (item : Item) :
    (ballots.receiveItem item).2.All Property ↔
      ((ballots.receiveItem item).1 = true →
        ballots.mapItems.lookup (rules.itemHash item) = none →
          Property (rules.itemHash item) item) := by
  rw [receiveItem]
  split
  · exact iff_of_true all fun impossible => by cases impossible
  · split
    · exact iff_of_true all fun impossible => by cases impossible
    · dsimp only
      split
      case isTrue => exact iff_of_true all fun impossible => by cases impossible
      case isFalse valid =>
        rw [Bool.not_eq_true, Bool.not_eq_false'] at valid
        rw [forall_prop_of_true rfl]
        refine (all_addItem_iff ?_ item).trans (forall_prop_of_true valid)
        exact all

theorem all_checkOrphanVotes_iff (isSynced : Bool) (now : Int) :
    (ballots.checkOrphanVotes isSynced now).All Property ↔
      ∀ hash vote item votes, ballots.mapOrphanVotes.lookup hash = some vote →
        ballots.mapItems.lookup hash = some item →
          rules.addOrUpdateVote now (rules.mapVotes item) vote = some votes →
            Property hash (rules.withVotes item votes) := by
  constructor
  · intro after hash vote item votes waiting found
    refine (placed_iff (all hash item found) now vote).mp ?_ votes
    refine after hash _ ?_
    rw [lookup_checkOrphanVotes, waiting, found]
    rfl
  · intro placed hash item there
    rw [lookup_checkOrphanVotes] at there
    cases waiting : ballots.mapOrphanVotes.lookup hash with
    | none =>
      rw [waiting] at there
      exact all hash item there
    | some vote =>
      rw [waiting] at there
      obtain ⟨old, found, rfl⟩ := map_eq_some_iff.mp there
      exact (placed_iff (all hash old found) now vote).mpr fun votes =>
        placed hash vote old votes waiting found

end

/-- A property that does not depend on the votes. -/
def IgnoresVotes (rules : BallotRules Item Vote) (Property : Uint256 → Item → Prop) : Prop :=
  ∀ hash item votes, Property hash item → Property hash (rules.withVotes item votes)

theorem All.receiveVote (all : ballots.All Property) (ignores : IgnoresVotes rules Property)
    (isSynced : Bool) (now : Int) (vote : Vote) :
    (ballots.receiveVote isSynced now vote).All Property :=
  (all_receiveVote_iff all isSynced now vote).mpr fun _ _ _ item votes found _ =>
    ignores _ item votes (all _ item found)

theorem All.checkOrphanVotes (all : ballots.All Property) (ignores : IgnoresVotes rules Property)
    (isSynced : Bool) (now : Int) : (ballots.checkOrphanVotes isSynced now).All Property :=
  (all_checkOrphanVotes_iff all isSynced now).mpr fun hash _ item votes _ found _ =>
    ignores hash item votes (all hash item found)

theorem All.addItem (all : ballots.All Property)
    (new : rules.isValid item = true → Property (rules.itemHash item) item) :
    (ballots.addItem item).All Property :=
  (all_addItem_iff all item).mpr fun valid _ => new valid

theorem isValid_of_received (received : (ballots.receiveItem item).1 = true) :
    rules.isValid item = true := by
  rw [Ballots.receiveItem] at received
  split at received
  · cases received
  · split at received
    · cases received
    · dsimp only at received
      split at received
      case isTrue => cases received
      case isFalse valid => simpa using valid

theorem All.receiveItem (all : ballots.All Property)
    (new : rules.isValid item = true → Property (rules.itemHash item) item) :
    (ballots.receiveItem item).2.All Property :=
  (all_receiveItem_iff all item).mpr fun received _ => new (isValid_of_received received)

end Ballots

end CentNode
