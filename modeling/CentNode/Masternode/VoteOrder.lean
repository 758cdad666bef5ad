import CentNode.Masternode.BudgetManager

/-!
# The order of an item and the votes for it

What is left of the votes for an item when some of them arrive before the item
does.
-/

namespace CentNode

open List Prod Option StdMap

section Election

variable {Item Vote : Type} {rules : BallotRules Item Vote}

/-- A valid item and good votes for it, from distinct masternodes, none of
which has been processed. -/
structure Election (ballots : Ballots rules) (item : Item) (votes : List Vote) : Prop where
  itemUnseen : ballots.mapSeenItems.lookup (rules.itemHash item) = none
  itemAbsent : ballots.mapItems.lookup (rules.itemHash item) = none
  noOrphan : ballots.mapOrphanVotes.lookup (rules.itemHash item) = none
  noVotes : ∀ voter, (rules.mapVotes item).lookup voter = none
  collateral : rules.collateralValid item = true
  valid : rules.isValid item = true
  unseen : ∀ vote ∈ votes, ballots.mapSeenVotes.lookup (rules.voteHash vote) = none
  voted : ∀ vote ∈ votes, rules.votedHash vote = rules.itemHash item
  known : ∀ vote ∈ votes, rules.masternodeKnown vote = true
  signed : ∀ vote ∈ votes, rules.signatureValid vote = true
  hashes : (votes.map rules.voteHash).Nodup
  voters : (votes.map rules.voter).Nodup

/-- The map holds exactly these votes, each under its masternode. -/
def Holds (rules : BallotRules Item Vote) (mapVotes : StdMap Uint256 Vote) (stored : List Vote) :
    Prop :=
  ∀ voter vote, mapVotes.lookup voter = some vote ↔ vote ∈ stored ∧ rules.voter vote = voter

theorem Holds.lookup_none {mapVotes : StdMap Uint256 Vote} {stored : List Vote}
    (holds : Holds rules mapVotes stored) {vote : Vote}
    (new : rules.voter vote ∉ stored.map rules.voter) :
    mapVotes.lookup (rules.voter vote) = none := by
  rw [eq_none_iff_forall_ne_some]
  intro old found
  obtain ⟨member, same⟩ := (holds _ _).mp found
  exact new (List.mem_map.mpr ⟨old, member, same⟩)

/-- A vote of a new masternode is stored if it is not too far ahead in time. -/
theorem Holds.placed {item : Item} {stored : List Vote}
    (holds : Holds rules (rules.mapVotes item) stored) {vote : Vote} (now : Int)
    (new : rules.voter vote ∉ stored.map rules.voter) :
    Holds rules (rules.mapVotes (rules.placed now vote item))
      (stored ++ if rules.timely now vote then [vote] else []) := by
  have absent := holds.lookup_none new
  have free : rules.tooSoon (rules.mapVotes item) vote = false := by
    rw [BallotRules.tooSoon, absent]
  rw [BallotRules.placed, BallotRules.addOrUpdateVote, free]
  cases rules.timely now vote with
  | false => simpa using holds
  | true =>
    intro voter other
    simp only [Bool.false_eq_true, if_false, if_true, rules.mapVotes_withVotes,
      lookup_insert_ite, mem_append, mem_singleton]
    by_cases same : voter = rules.voter vote
    · subst same
      rw [if_pos rfl]
      constructor
      · rintro ⟨⟩
        exact ⟨Or.inr rfl, rfl⟩
      · rintro ⟨member | rfl, voter_eq⟩
        · exact absurd (List.mem_map.mpr ⟨other, member, voter_eq⟩) new
        · rfl
    · rw [if_neg same, holds]
      constructor
      · rintro ⟨member, voter_eq⟩
        exact ⟨Or.inl member, voter_eq⟩
      · rintro ⟨member | rfl, voter_eq⟩
        · exact ⟨member, voter_eq⟩
        · exact absurd voter_eq.symm same

theorem Holds.lookup_eq_iff {first second : StdMap Uint256 Vote} {stored others : List Vote}
    (holds : Holds rules first stored) (holdsToo : Holds rules second others) :
    (∀ voter, first.lookup voter = second.lookup voter) ↔
      ∀ vote, vote ∈ stored ↔ vote ∈ others := by
  constructor
  · intro alike vote
    have here := holds (rules.voter vote) vote
    have there := holdsToo (rules.voter vote) vote
    rw [alike, there] at here
    simpa using here.symm
  · intro members voter
    refine Option.ext fun vote => ?_
    rw [holds, holdsToo, members]

namespace Ballots

variable {ballots : Ballots rules} {hash : Uint256}

/-- A vote that passes every check but those of time, for the item of this hash. -/
structure Good (ballots : Ballots rules) (hash : Uint256) (vote : Vote) : Prop where
  unseen : ballots.mapSeenVotes.lookup (rules.voteHash vote) = none
  voted : rules.votedHash vote = hash
  known : rules.masternodeKnown vote = true
  signed : rules.signatureValid vote = true

structure GoodVotes (ballots : Ballots rules) (hash : Uint256) (votes : List Vote) : Prop where
  good : ∀ vote ∈ votes, Good ballots hash vote
  hashes : (votes.map rules.voteHash).Nodup

theorem receiveVote_of_good {vote : Vote} (good : Good ballots hash vote) (isSynced : Bool)
    (now : Int) :
    ballots.receiveVote isSynced now vote =
      ({ ballots with
        mapSeenVotes := ballots.mapSeenVotes.insertNew (rules.voteHash vote) vote }.updateItem
          isSynced true now vote).2 := by
  simp [receiveVote, good.unseen, good.known, good.signed]

theorem lookup_seenVotes_receiveVote {vote : Vote} (good : Good ballots hash vote)
    (isSynced : Bool) (now : Int) {other : Uint256} (differs : other ≠ rules.voteHash vote) :
    (ballots.receiveVote isSynced now vote).mapSeenVotes.lookup other =
      ballots.mapSeenVotes.lookup other := by
  rw [receiveVote_of_good good, updateItem_seenVotes, lookup_insertNew, if_neg]
  exact fun both => differs both.1

theorem GoodVotes.tail {vote : Vote} {rest : List Vote}
    (votes : GoodVotes ballots hash (vote :: rest)) (isSynced : Bool) (now : Int) :
    GoodVotes (ballots.receiveVote isSynced now vote) hash rest := by
  obtain ⟨new, distinct⟩ := nodup_cons.mp votes.hashes
  refine ⟨fun other member => ?_, distinct⟩
  have good := votes.good other (mem_cons_of_mem vote member)
  have differs : rules.voteHash other ≠ rules.voteHash vote := by
    intro same
    exact new (same ▸ List.mem_map_of_mem member)
  refine ⟨?_, good.voted, good.known, good.signed⟩
  rw [lookup_seenVotes_receiveVote (votes.good vote mem_cons_self) isSynced now differs]
  exact good.unseen

/-! ## Votes before the item -/

theorem receiveVote_absent {vote : Vote} (good : Good ballots hash vote)
    (absent : ballots.mapItems.lookup hash = none) (now : Int) :
    (ballots.receiveVote true now vote).mapItems = ballots.mapItems ∧
      (ballots.receiveVote true now vote).mapSeenItems = ballots.mapSeenItems ∧
        (ballots.receiveVote true now vote).mapOrphanVotes.lookup hash = some vote := by
  rw [receiveVote_of_good good, updateItem, good.voted]
  simp only [absent]
  refine ⟨rfl, rfl, ?_⟩
  simp [addOrphan, good.voted]

variable {arrivals : List (Vote × Int)}

theorem receiveVotes_absent (votes : GoodVotes ballots hash (arrivals.map Prod.fst))
    (absent : ballots.mapItems.lookup hash = none) :
    (ballots.receiveVotes true arrivals).mapItems = ballots.mapItems ∧
      (ballots.receiveVotes true arrivals).mapSeenItems = ballots.mapSeenItems ∧
        (ballots.receiveVotes true arrivals).mapOrphanVotes.lookup hash =
          (arrivals.getLast?.map Prod.fst).or (ballots.mapOrphanVotes.lookup hash) := by
  induction arrivals generalizing ballots with
  | nil => exact ⟨rfl, rfl, rfl⟩
  | cons arrival rest ih =>
    obtain ⟨items, seenItems, orphan⟩ :=
      receiveVote_absent (votes.good arrival.1 mem_cons_self) absent arrival.2
    obtain ⟨laterItems, laterSeen, laterOrphan⟩ := ih (votes.tail true arrival.2) (by
      rw [items, absent])
    refine ⟨laterItems.trans items, laterSeen.trans seenItems, ?_⟩
    have step : ballots.receiveVotes true (arrival :: rest) =
        (ballots.receiveVote true arrival.2 arrival.1).receiveVotes true rest := rfl
    rw [step, laterOrphan, orphan]
    cases rest with
    | nil => rfl
    | cons second later => simp [getLast?_cons]

theorem GoodVotes.append {rest : List Vote}
    (votes : GoodVotes ballots hash (arrivals.map Prod.fst ++ rest)) (isSynced : Bool) :
    GoodVotes (ballots.receiveVotes isSynced arrivals) hash rest := by
  induction arrivals generalizing ballots with
  | nil => exact votes
  | cons arrival later ih => exact ih (votes.tail isSynced arrival.2)

/-! ## Votes after the item -/

variable {item : Item}

theorem receiveVote_present {vote : Vote} (good : Good ballots hash vote)
    (present : ballots.mapItems.lookup hash = some item) (isSynced : Bool) (now : Int) :
    (ballots.receiveVote isSynced now vote).mapItems.lookup hash =
      some (rules.placed now vote item) := by
  rw [receiveVote_of_good good, updateItem, good.voted]
  simp only [present, BallotRules.placed]
  cases rules.addOrUpdateVote now (rules.mapVotes item) vote with
  | none => exact present
  | some votes => simp

/-- The votes among the arrivals that are not too far ahead in time. -/
def timelyVotes (rules : BallotRules Item Vote) (arrivals : List (Vote × Int)) : List Vote :=
  (arrivals.filter fun arrival => rules.timely arrival.2 arrival.1).map Prod.fst

theorem timelyVotes_cons (arrival : Vote × Int) (rest : List (Vote × Int)) :
    timelyVotes rules (arrival :: rest) =
      (if rules.timely arrival.2 arrival.1 then [arrival.1] else []) ++ timelyVotes rules rest := by
  rw [timelyVotes, timelyVotes, filter_cons]
  split <;> rfl

/-- Of the votes that come after the item all timely ones are stored. -/
theorem receiveVotes_present (votes : GoodVotes ballots hash (arrivals.map Prod.fst))
    {stored : List Vote} (present : ballots.mapItems.lookup hash = some item)
    (holds : Holds rules (rules.mapVotes item) stored)
    (voters : ((stored ++ arrivals.map Prod.fst).map rules.voter).Nodup) (isSynced : Bool) :
    ∃ final, (ballots.receiveVotes isSynced arrivals).mapItems.lookup hash = some final ∧
      Holds rules (rules.mapVotes final) (stored ++ timelyVotes rules arrivals) := by
  induction arrivals generalizing ballots item stored with
  | nil => exact ⟨item, present, by simpa [timelyVotes] using holds⟩
  | cons arrival rest ih =>
    have good := votes.good arrival.1 mem_cons_self
    rw [map_cons, map_append, map_cons, nodup_middle] at voters
    obtain ⟨new, distinct⟩ := nodup_cons.mp voters
    have fresh : rules.voter arrival.1 ∉ stored.map rules.voter := fun inside =>
      new (mem_append_left _ inside)
    obtain ⟨final, found, holdsFinal⟩ := ih (votes.tail isSynced arrival.2)
      (receiveVote_present good present isSynced arrival.2) (holds.placed arrival.2 fresh) (by
        cases rules.timely arrival.2 arrival.1 with
        | false => simpa using distinct
        | true =>
          rw [if_pos rfl, append_assoc, singleton_append, map_append,
            map_cons, nodup_middle]
          exact nodup_cons.mpr ⟨new, distinct⟩)
    refine ⟨final, found, ?_⟩
    rw [timelyVotes_cons, ← append_assoc]
    exact holdsFinal

/-! ## The item -/

theorem receiveItem_of_valid (unseen : ballots.mapSeenItems.lookup (rules.itemHash item) = none)
    (absent : ballots.mapItems.lookup (rules.itemHash item) = none)
    (collateral : rules.collateralValid item = true) (valid : rules.isValid item = true) :
    (ballots.receiveItem item).1 = true ∧
      (ballots.receiveItem item).2.mapItems.lookup (rules.itemHash item) = some item ∧
        (ballots.receiveItem item).2.mapOrphanVotes = ballots.mapOrphanVotes ∧
          (ballots.receiveItem item).2.mapSeenVotes = ballots.mapSeenVotes := by
  simp [receiveItem, addItem, unseen, collateral, valid, lookup_insertNew, absent]

/-- The vote that is taken from the orphans when the item arrives. -/
def takenVotes (rules : BallotRules Item Vote) (now : Int) (before : List (Vote × Int)) :
    List Vote :=
  match before.getLast? with
  | none => []
  | some last => if rules.timely now last.1 then [last.1] else []

def receiveElection (ballots : Ballots rules) (before : List (Vote × Int)) (item : Item)
    (now : Int) (after : List (Vote × Int)) : Ballots rules :=
  let received := (ballots.receiveVotes true before).receiveItem item
  (if received.1 then received.2.checkOrphanVotes true now else received.2).receiveVotes true after

theorem takenVotes_sublist (now : Int) (before : List (Vote × Int)) :
    (takenVotes rules now before).Sublist (before.map Prod.fst) := by
  rw [takenVotes]
  cases last_eq : before.getLast? with
  | none => exact nil_sublist _
  | some last =>
    have member : last.1 ∈ before.map fst := List.mem_map_of_mem (mem_of_getLast? last_eq)
    simp only
    split
    · exact singleton_sublist.mpr member
    · exact nil_sublist _

variable {before : List (Vote × Int)}

theorem lookup_opened {waiting : Ballots rules}
    (unseen : waiting.mapSeenItems.lookup (rules.itemHash item) = none)
    (absent : waiting.mapItems.lookup (rules.itemHash item) = none)
    (collateral : rules.collateralValid item = true) (valid : rules.isValid item = true)
    (noVotes : ∀ voter, (rules.mapVotes item).lookup voter = none)
    (orphan : waiting.mapOrphanVotes.lookup (rules.itemHash item) =
      before.getLast?.map Prod.fst) (now : Int) :
    ∃ opened, ((waiting.receiveItem item).2.checkOrphanVotes true now).mapItems.lookup
        (rules.itemHash item) = some opened ∧
      Holds rules (rules.mapVotes opened) (takenVotes rules now before) := by
  obtain ⟨_, there, orphans_eq, _⟩ := receiveItem_of_valid unseen absent collateral valid
  have empty : Holds rules (rules.mapVotes item) [] := by
    intro voter vote
    simp [noVotes]
  rw [lookup_checkOrphanVotes, orphans_eq, orphan, there, takenVotes]
  cases before.getLast? with
  | none => exact ⟨item, rfl, empty⟩
  | some last => exact ⟨rules.placed now last.1 item, rfl, empty.placed now not_mem_nil⟩

variable {after : List (Vote × Int)}

theorem receiveElection_holds
    (election : Election ballots item (before.map Prod.fst ++ after.map Prod.fst)) (now : Int) :
    ∃ final, (ballots.receiveElection before item now after).mapItems.lookup
        (rules.itemHash item) = some final ∧
      Holds rules (rules.mapVotes final) (takenVotes rules now before ++ timelyVotes rules after) := by
  have all : GoodVotes ballots (rules.itemHash item) (before.map fst ++ after.map fst) :=
    ⟨fun vote member => ⟨election.unseen vote member, election.voted vote member,
      election.known vote member, election.signed vote member⟩, election.hashes⟩
  have first : GoodVotes ballots (rules.itemHash item) (before.map fst) := by
    refine ⟨fun vote member => all.good vote (mem_append_left _ member), ?_⟩
    exact all.hashes.sublist ((sublist_append_left _ _).map _)
  obtain ⟨items, seenItems, orphan⟩ := receiveVotes_absent first election.itemAbsent
  rw [election.noOrphan, or_none] at orphan
  have unseen := seenItems ▸ election.itemUnseen
  have absent := items ▸ election.itemAbsent
  obtain ⟨reached, _, _, seen_eq⟩ :=
    receiveItem_of_valid unseen absent election.collateral election.valid
  obtain ⟨opened, there, holds⟩ := lookup_opened unseen absent election.collateral election.valid
    election.noVotes orphan now
  rw [receiveElection, if_pos reached]
  refine receiveVotes_present ?_ there holds ?_ true
  · -- the votes after the item have not been seen yet
    have later := all.append true
    refine ⟨fun vote member => ?_, later.hashes⟩
    have good := later.good vote member
    refine ⟨?_, good.voted, good.known, good.signed⟩
    rw [checkOrphanVotes_seenVotes, seen_eq]
    exact good.unseen
  · exact election.voters.sublist
      (((takenVotes_sublist now before).append (List.Sublist.refl _)).map _)

/-! ## Which votes are lost -/

theorem mem_timelyVotes {vote : Vote} :
    vote ∈ timelyVotes rules arrivals ↔
      ∃ time, (vote, time) ∈ arrivals ∧ rules.timely time vote = true := by
  simp [timelyVotes]

theorem mem_takenVotes {now : Int} {vote : Vote} :
    vote ∈ takenVotes rules now before ↔
      ∃ time, before.getLast? = some (vote, time) ∧ rules.timely now vote = true := by
  rw [takenVotes]
  cases before.getLast? with
  | none => simp
  | some last =>
    simp only [Option.some.injEq]
    constructor
    · intro member
      split at member
      case isTrue timely =>
        cases mem_singleton.mp member
        exact ⟨last.2, rfl, timely⟩
      case isFalse => cases member
    · rintro ⟨time, rfl, timely⟩
      simp [timely]

/-- Each vote that comes before the item is stored in the end exactly if it
would have been stored on its arrival: it is the last of them, and timely. -/
def NoVoteLost (rules : BallotRules Item Vote) (now : Int) (before : List (Vote × Int)) : Prop :=
  ∀ arrival ∈ before, rules.timely arrival.2 arrival.1 = true ↔
    before.getLast? = some arrival ∧ rules.timely now arrival.1 = true

theorem arrival_unique (distinct : (arrivals.map Prod.fst).Nodup) {vote : Vote}
    {first second : Int} (here : (vote, first) ∈ arrivals) (there : (vote, second) ∈ arrivals) :
    first = second := by
  have same := inj_on_of_nodup_map distinct here there rfl
  exact congrArg snd same

variable {reference : List (Vote × Int)}

theorem same_votes_iff (distinct : ((before ++ after).map Prod.fst).Nodup)
    (perm : reference.Perm (before ++ after)) (now : Int) :
    (∀ vote, vote ∈ takenVotes rules now before ++ timelyVotes rules after ↔
      vote ∈ timelyVotes rules reference) ↔ NoVoteLost rules now before := by
  have apart : ∀ {vote first second}, (vote, first) ∈ before → (vote, second) ∉ after := by
    intro vote first second inBefore inAfter
    rw [map_append] at distinct
    exact (nodup_append.mp distinct).2.2 vote (List.mem_map_of_mem inBefore) vote
      (List.mem_map_of_mem inAfter) rfl
  simp only [mem_append, mem_takenVotes, mem_timelyVotes, perm.mem_iff]
  constructor
  · rintro same ⟨vote, time⟩ member
    constructor
    · intro timely
      rcases (same vote).mpr ⟨time, Or.inl member, timely⟩ with
        ⟨other, last, timelyNow⟩ | ⟨other, inAfter, _⟩
      · have inBefore : (vote, other) ∈ before := mem_of_getLast? last
        cases arrival_unique distinct (mem_append_left after member)
          (mem_append_left after inBefore)
        exact ⟨last, timelyNow⟩
      · exact absurd inAfter (apart member)
    · rintro ⟨last, timelyNow⟩
      obtain ⟨other, inside, timely⟩ := (same vote).mp (Or.inl ⟨time, last, timelyNow⟩)
      cases arrival_unique distinct (mem_append_left after member)
        (mem_append.mpr inside)
      exact timely
  · intro none_lost vote
    constructor
    · rintro (⟨time, last, timelyNow⟩ | ⟨time, inAfter, timely⟩)
      · have member : (vote, time) ∈ before := mem_of_getLast? last
        exact ⟨time, Or.inl member, (none_lost _ member).mpr ⟨last, timelyNow⟩⟩
      · exact ⟨time, Or.inr inAfter, timely⟩
    · rintro ⟨time, member | inAfter, timely⟩
      · obtain ⟨last, timelyNow⟩ := (none_lost _ member).mp timely
        exact Or.inl ⟨time, last, timelyNow⟩
      · exact Or.inr ⟨time, inAfter, timely⟩

/-- The vote of a masternode for an item. -/
def voteOf (ballots : Ballots rules) (hash voter : Uint256) : Option Vote :=
  (ballots.mapItems.lookup hash).bind fun item => (rules.mapVotes item).lookup voter

/-- Against the order with the item first and the votes in any order, the votes
agree exactly if no vote before the item is lost. -/
theorem receiveElection_agrees_iff
    (election : Election ballots item ((before ++ after).map Prod.fst))
    (perm : reference.Perm (before ++ after)) (now : Int) :
    (∀ voter, (ballots.receiveElection before item now after).voteOf (rules.itemHash item) voter =
      (ballots.receiveElection [] item now reference).voteOf (rules.itemHash item) voter) ↔
        NoVoteLost rules now before := by
  have votes_perm := perm.map fst
  have reordered : Election ballots item (reference.map fst) :=
    { election with
      unseen := fun vote member => election.unseen vote (votes_perm.mem_iff.mp member)
      voted := fun vote member => election.voted vote (votes_perm.mem_iff.mp member)
      known := fun vote member => election.known vote (votes_perm.mem_iff.mp member)
      signed := fun vote member => election.signed vote (votes_perm.mem_iff.mp member)
      hashes := (votes_perm.map _).nodup_iff.mpr election.hashes
      voters := (votes_perm.map _).nodup_iff.mpr election.voters }
  have distinct : ((before ++ after).map fst).Nodup := List.Nodup.of_map _ election.voters
  rw [map_append] at election
  obtain ⟨final, found, holds⟩ := receiveElection_holds election now
  obtain ⟨other, foundToo, holdsToo⟩ : ∃ other,
      (ballots.receiveElection [] item now reference).mapItems.lookup (rules.itemHash item) =
        some other ∧ Holds rules (rules.mapVotes other) (timelyVotes rules reference) :=
    receiveElection_holds reordered now
  simp only [voteOf, found, foundToo, bind_some]
  rw [holds.lookup_eq_iff holdsToo]
  exact same_votes_iff distinct perm now

end Ballots

end Election

/-! ## Messages to the manager -/

namespace CBudgetManager

variable {node : BudgetNode} (manager : CBudgetManager node)

def mvotes (arrivals : List (CBudgetVote × Int)) : List (BudgetMessage × Int) :=
  arrivals.map fun arrival => (.mvote arrival.1, arrival.2)

def fbvotes (arrivals : List (CFinalizedBudgetVote × Int)) : List (BudgetMessage × Int) :=
  arrivals.map fun arrival => (.fbvote arrival.1, arrival.2)

theorem processMessages_append (first second : List (BudgetMessage × Int)) :
    manager.processMessages (first ++ second) =
      (manager.processMessages first).processMessages second :=
  foldl_append

section

variable (synced : node.isSynced = true)

include synced

theorem processMessages_mvotes (arrivals : List (CBudgetVote × Int)) :
    manager.processMessages (mvotes arrivals) =
      { manager with proposals := manager.proposals.receiveVotes true arrivals } := by
  induction arrivals generalizing manager with
  | nil => rfl
  | cons arrival rest ih =>
    have step : manager.processMessages (mvotes (arrival :: rest)) =
        (manager.processMessage arrival.2 (.mvote arrival.1)).processMessages (mvotes rest) := rfl
    rw [step, ih, processMessage, synced]
    rfl

theorem processMessages_fbvotes (arrivals : List (CFinalizedBudgetVote × Int)) :
    manager.processMessages (fbvotes arrivals) =
      { manager with budgets := manager.budgets.receiveVotes true arrivals } := by
  induction arrivals generalizing manager with
  | nil => rfl
  | cons arrival rest ih =>
    have step : manager.processMessages (fbvotes (arrival :: rest)) =
        (manager.processMessage arrival.2 (.fbvote arrival.1)).processMessages (fbvotes rest) :=
      rfl
    rw [step, ih, processMessage, synced]
    rfl

theorem proposals_of_election
    (before after : List (CBudgetVote × Int)) (proposal : CBudgetProposal) (now : Int) :
    (manager.processMessages (mvotes before ++ (.mprop proposal, now) :: mvotes after)).proposals =
      manager.proposals.receiveElection before proposal now after := by
  rw [processMessages_append, processMessages_mvotes manager synced, Ballots.receiveElection]
  have step : ∀ current : CBudgetManager node,
      current.processMessages ((.mprop proposal, now) :: mvotes after) =
        (current.processMessage now (.mprop proposal)).processMessages (mvotes after) :=
    fun _ => rfl
  rw [step, processMessages_mvotes _ synced, processMessage]
  split
  · simp only [checkOrphanVotes, synced]
  · rfl

theorem budgets_of_election
    (before after : List (CFinalizedBudgetVote × Int)) (budget : CFinalizedBudget) (now : Int) :
    (manager.processMessages (fbvotes before ++ (.fbs budget, now) :: fbvotes after)).budgets =
      manager.budgets.receiveElection before budget now after := by
  rw [processMessages_append, processMessages_fbvotes manager synced, Ballots.receiveElection]
  have step : ∀ current : CBudgetManager node,
      current.processMessages ((.fbs budget, now) :: fbvotes after) =
        (current.processMessage now (.fbs budget)).processMessages (fbvotes after) :=
    fun _ => rfl
  rw [step, processMessages_fbvotes _ synced, processMessage]
  split
  · simp only [checkOrphanVotes, synced]
  · rfl

end

/-- On a synced node the votes stored for a proposal, and those stored for a
finalized budget, are the ones of the order with the item first exactly if no
vote before the item is lost. -/
theorem votes_order_iff (synced : node.isSynced = true) :
    (∀ (proposal : CBudgetProposal) (before after reference : List (CBudgetVote × Int)) (now : Int),
      Election manager.proposals proposal ((before ++ after).map Prod.fst) →
        reference.Perm (before ++ after) →
          ((∀ voter,
            (manager.processMessages
              (mvotes before ++ (.mprop proposal, now) :: mvotes after)).proposals.voteOf
                (node.proposalHash proposal) voter =
            (manager.processMessages ((.mprop proposal, now) :: mvotes reference)).proposals.voteOf
                (node.proposalHash proposal) voter) ↔
            Ballots.NoVoteLost node.proposalRules now before)) ∧
      ∀ (budget : CFinalizedBudget) (before after reference : List (CFinalizedBudgetVote × Int))
        (now : Int), Election manager.budgets budget ((before ++ after).map Prod.fst) →
          reference.Perm (before ++ after) →
            ((∀ voter,
              (manager.processMessages
                (fbvotes before ++ (.fbs budget, now) :: fbvotes after)).budgets.voteOf
                  (node.budgetHash budget) voter =
              (manager.processMessages ((.fbs budget, now) :: fbvotes reference)).budgets.voteOf
                  (node.budgetHash budget) voter) ↔
              Ballots.NoVoteLost node.budgetRules now before) := by
  constructor
  · intro proposal before after reference now election perm
    have first := manager.proposals_of_election synced before after proposal now
    have second := manager.proposals_of_election synced [] reference proposal now
    rw [show mvotes [] = [] from rfl, nil_append] at second
    rw [first, second]
    exact Ballots.receiveElection_agrees_iff election perm now
  · intro budget before after reference now election perm
    have first := manager.budgets_of_election synced before after budget now
    have second := manager.budgets_of_election synced [] reference budget now
    rw [show fbvotes [] = [] from rfl, nil_append] at second
    rw [first, second]
    exact Ballots.receiveElection_agrees_iff election perm now

end CBudgetManager

namespace EarlyVotes

/-- Every masternode is known, every signature good. -/
def node : BudgetNode where
  isSynced := true
  outPointHash := fun prevout => prevout.hash
  masternodeKnown := fun _ => true
  isBudgetCollateralValid := fun _ _ => true
  proposalHash := fun proposal => proposal.nFeeTXHash
  proposalVoteHash := fun vote => vote.vin.prevout.hash
  proposalIsValid := fun _ => true
  proposalVoteSignatureValid := fun _ => true
  budgetHash := fun budget => budget.nFeeTXHash
  budgetVoteHash := fun vote => vote.vin.prevout.hash
  budgetIsValid := fun _ => true
  budgetVoteSignatureValid := fun _ => true

def manager : CBudgetManager node where
  proposals := ⟨∅, ∅, ∅, ∅, fun _ _ found => by cases found⟩
  budgets := ⟨∅, ∅, ∅, ∅, fun _ _ found => by cases found⟩

def proposal : CBudgetProposal where
  strProposalName := "road"
  nBlockStart := 43200
  nBlockEnd := 86400
  nAmount := 100
  address := []
  nFeeTXHash := 7

def budget : CFinalizedBudget where
  strBudgetName := "main"
  nBlockStart := 43200
  vecBudgetPayments := []
  nFeeTXHash := 8

def vote (masternode : Uint256) : CBudgetVote × Int :=
  ({ vin := { prevout := ⟨masternode, 0⟩ }, nProposalHash := 7, nVote := 1, nTime := 1000
     nTime_range := isInt64_thousand }, 1000)

def budgetVote (masternode : Uint256) : CFinalizedBudgetVote × Int :=
  ({ vin := { prevout := ⟨masternode, 0⟩ }, nBudgetHash := 8, nTime := 1000
     nTime_range := isInt64_thousand }, 1000)

theorem election :
    Election manager.proposals proposal (([vote 1] ++ [vote 2]).map Prod.fst) :=
  ⟨rfl, rfl, rfl, fun _ => rfl, rfl, rfl, by decide, by decide, by decide, by decide, by decide,
    by decide⟩

theorem budgetElection :
    Election manager.budgets budget (([budgetVote 1] ++ [budgetVote 2]).map Prod.fst) :=
  ⟨rfl, rfl, rfl, fun _ => rfl, rfl, rfl, by decide, by decide, by decide, by decide, by decide,
    by decide⟩

end EarlyVotes

open EarlyVotes

/-- One vote before the item and one after it: both are stored. -/
theorem votes_order_one_before :
    (∀ voter,
      (EarlyVotes.manager.processMessages
        (CBudgetManager.mvotes [EarlyVotes.vote 1] ++ (.mprop EarlyVotes.proposal, 1000) ::
          CBudgetManager.mvotes [EarlyVotes.vote 2])).proposals.voteOf 7 voter =
      (EarlyVotes.manager.processMessages ((.mprop EarlyVotes.proposal, 1000) ::
        CBudgetManager.mvotes [EarlyVotes.vote 2, EarlyVotes.vote 1])).proposals.voteOf 7 voter) ∧
      ∀ voter,
        (EarlyVotes.manager.processMessages
          (CBudgetManager.fbvotes [EarlyVotes.budgetVote 1] ++ (.fbs EarlyVotes.budget, 1000) ::
            CBudgetManager.fbvotes [EarlyVotes.budgetVote 2])).budgets.voteOf 8 voter =
        (EarlyVotes.manager.processMessages ((.fbs EarlyVotes.budget, 1000) ::
          CBudgetManager.fbvotes [EarlyVotes.budgetVote 2, EarlyVotes.budgetVote 1])).budgets.voteOf
            8 voter := by
  refine ⟨?_, ?_⟩
  · exact ((manager.votes_order_iff rfl).1 proposal _ _ _ 1000
      election (List.Perm.swap _ _ [])).mpr (by unfold Ballots.NoVoteLost; decide)
  · exact ((manager.votes_order_iff rfl).2 budget _ _ _ 1000
      budgetElection (List.Perm.swap _ _ [])).mpr (by
        unfold Ballots.NoVoteLost; decide)

/-- Two votes before the proposal: the first one is lost. -/
theorem early_vote_lost :
    EarlyVotes.node.isSynced = true ∧
      Election EarlyVotes.manager.proposals EarlyVotes.proposal
        (([EarlyVotes.vote 1, EarlyVotes.vote 2] ++ []).map Prod.fst) ∧
        (EarlyVotes.manager.processMessages
          (CBudgetManager.mvotes [EarlyVotes.vote 1, EarlyVotes.vote 2] ++
            (.mprop EarlyVotes.proposal, 1000) :: CBudgetManager.mvotes [])).proposals.voteOf 7 1 =
          none ∧
          (EarlyVotes.manager.processMessages ((.mprop EarlyVotes.proposal, 1000) ::
            CBudgetManager.mvotes [EarlyVotes.vote 1, EarlyVotes.vote 2])).proposals.voteOf 7 1 =
              some (EarlyVotes.vote 1).1 :=
  ⟨rfl, election, by decide, by decide⟩

end CentNode
