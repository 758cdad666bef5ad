import CentNode.Masternode.Treasury
import Mathlib.Data.List.Dedup
import Mathlib.Data.List.Perm.Subperm

/-!
# Vote counts and the list of masternodes

The count of votes that decides on superblocks is the size of `mapVotes`.  It
is compared here with the masternodes that are in the list and have voted.
-/

namespace CentNode

open List StdMap AList Bool

/-! ## Votes one by one -/

section EachVote

variable {Item Vote : Type} {rules : BallotRules Item Vote}

/-- Every vote of the item has the property under its key. -/
def EachVote (rules : BallotRules Item Vote) (Property : Uint256 → Vote → Prop) (_ : Uint256)
    (item : Item) : Prop :=
  ∀ key vote, (rules.mapVotes item).lookup key = some vote → Property key vote

def Ballots.Takes (ballots : Ballots rules) (now : Int) (vote : Vote) : Prop :=
  ∃ item votes, ballots.mapItems.lookup (rules.votedHash vote) = some item ∧
    rules.addOrUpdateVote now (rules.mapVotes item) vote = some votes

variable {Property : Uint256 → Vote → Prop} {ballots : Ballots rules}

variable {hash : Uint256} {item : Item} {now : Int} {mapVotes votes : StdMap Uint256 Vote}
  {vote : Vote}

theorem addOrUpdateVote_eq (accepted : rules.addOrUpdateVote now mapVotes vote = some votes) :
    votes = mapVotes.insert (rules.voter vote) vote := by
  rw [BallotRules.addOrUpdateVote] at accepted
  split at accepted
  · cases accepted
  · split at accepted
    · exact (Option.some.inj accepted).symm
    · cases accepted

theorem eachVote_withVotes_iff (each : EachVote rules Property hash item)
    (accepted : rules.addOrUpdateVote now (rules.mapVotes item) vote = some votes) :
    EachVote rules Property hash (rules.withVotes item votes) ↔
      Property (rules.voter vote) vote := by
  cases addOrUpdateVote_eq accepted
  simp only [EachVote, rules.mapVotes_withVotes, lookup_insert_ite]
  constructor
  · intro after
    exact after _ vote (if_pos rfl)
  · intro holds key other there
    split at there
    case isTrue same =>
      cases there
      rw [same]
      exact holds
    case isFalse => exact each key other there

theorem each_placed_iff (all : ballots.All (EachVote rules Property)) (now : Int) (vote : Vote) :
    (∀ item votes, ballots.mapItems.lookup (rules.votedHash vote) = some item →
        rules.addOrUpdateVote now (rules.mapVotes item) vote = some votes →
          EachVote rules Property (rules.votedHash vote) (rules.withVotes item votes)) ↔
      (ballots.Takes now vote → Property (rules.voter vote) vote) := by
  constructor
  · rintro placed ⟨item, votes, found, accepted⟩
    exact (eachVote_withVotes_iff (all _ item found) accepted).mp
      (placed item votes found accepted)
  · intro holds item votes found accepted
    exact (eachVote_withVotes_iff (all _ item found) accepted).mpr
      (holds ⟨item, votes, found, accepted⟩)

theorem each_checkOrphanVotes_iff (all : ballots.All (EachVote rules Property)) (isSynced : Bool)
    (now : Int) :
    (ballots.checkOrphanVotes isSynced now).All (EachVote rules Property) ↔
      ∀ hash vote, ballots.mapOrphanVotes.lookup hash = some vote → ballots.Takes now vote →
        Property (rules.voter vote) vote := by
  rw [Ballots.all_checkOrphanVotes_iff all]
  constructor
  · intro placed hash vote waiting
    have keyed := ballots.orphansKeyed hash vote waiting
    refine (each_placed_iff all now vote).mp fun item votes found accepted => ?_
    rw [keyed] at found ⊢
    exact placed hash vote item votes waiting found accepted
  · intro holds hash vote item votes waiting found accepted
    have keyed := ballots.orphansKeyed hash vote waiting
    rw [← keyed] at found ⊢
    exact (each_placed_iff all now vote).mpr (holds hash vote waiting) item votes found accepted

end EachVote

/-! ## The votes of finalized budgets along a run -/

namespace BudgetWorld

variable {config : BudgetConfig} {world next : BudgetWorld config}
  {Property : Uint256 → CFinalizedBudgetVote → Prop}

/-- Every vote for a finalized budget has the property under its key. -/
def EachBudgetVote (world : BudgetWorld config)
    (Property : Uint256 → CFinalizedBudgetVote → Prop) : Prop :=
  world.manager.budgets.All (EachVote (world.view.node config).budgetRules Property)

/-- The property of the votes that a step adds to a finalized budget. -/
def Adds (world : BudgetWorld config) (Property : CFinalizedBudgetVote → Prop) : BudgetInput → Prop
  | .message now (.mprop proposal) =>
    (world.manager.proposals.receiveItem (proposal.received world.view)).1 = true →
      ∀ hash vote, world.manager.budgets.mapOrphanVotes.lookup hash = some vote →
        world.manager.budgets.Takes now vote → Property vote
  | .message now (.fbs budget) =>
    (world.manager.budgets.receiveItem budget.received).1 = true →
      ∀ hash vote, world.manager.budgets.mapOrphanVotes.lookup hash = some vote →
        (world.manager.budgets.receiveItem budget.received).2.Takes now vote → Property vote
  | .message now (.fbvote vote) =>
    world.manager.budgets.mapSeenVotes.lookup
        (config.budgetVoteHash { vote with fValid := true }) = none →
      world.view.masternodeKnown vote.vin = true →
        world.view.budgetVoteSigned { vote with fValid := true } = true →
          world.manager.budgets.Takes now { vote with fValid := true } →
            Property { vote with fValid := true }
  | .submitVote now vote =>
    world.manager.budgets.Takes now { vote with fValid := true } →
      Property { vote with fValid := true }
  | _ => True

theorem receiveItem_orphans {Item Vote : Type} {rules : BallotRules Item Vote}
    (ballots : Ballots rules) (item : Item) :
    (ballots.receiveItem item).2.mapOrphanVotes = ballots.mapOrphanVotes := by
  rw [Ballots.receiveItem]
  split
  · rfl
  · split
    · rfl
    · dsimp only
      split
      · rfl
      · rw [Ballots.addItem]
        split <;> rfl

theorem each_received (all : world.EachBudgetVote Property) (budget : CFinalizedBudget) :
    (world.manager.budgets.receiveItem budget.received).2.All
      (EachVote (world.view.node config).budgetRules Property) := by
  refine all.receiveItem fun _ key vote impossible => ?_
  cases impossible

/-- One step that leaves the node as it is: the votes that it adds decide. -/
theorem step_each_iff {input : BudgetInput}
    (marks : ∀ key vote fValid, Property key { vote with fValid := fValid } ↔ Property key vote)
    (all : world.EachBudgetVote Property) (stepped : world.step input = some next)
    (same : ∀ view, input ≠ .change view) :
    next.EachBudgetVote Property ↔
      world.Adds (fun vote => Property (config.outPointHash vote.vin.prevout) vote) input := by
  cases input with
  | message now message =>
    cases stepped
    cases message with
    | mprop proposal =>
      dsimp only [EachBudgetVote, BudgetMessage.received, CBudgetManager.processMessage, Adds]
      split
      case isTrue received =>
        rw [received, forall_prop_of_true rfl]
        exact each_checkOrphanVotes_iff all _ now
      case isFalse idle => exact iff_of_true all fun received => absurd received idle
    | mvote vote => exact iff_of_true all trivial
    | fbs budget =>
      have stored := each_received all budget
      dsimp only [EachBudgetVote, BudgetMessage.received, CBudgetManager.processMessage, Adds]
      split
      case isTrue received =>
        rw [received, forall_prop_of_true rfl]
        refine (each_checkOrphanVotes_iff stored _ now).trans ?_
        rw [receiveItem_orphans]
        exact Iff.rfl
      case isFalse idle => exact iff_of_true stored fun received => absurd received idle
    | fbvote vote =>
      refine (Ballots.all_receiveVote_iff all _ now _).trans ?_
      rw [each_placed_iff all now { vote with fValid := true }]
      constructor
      · intro holds new known signed
        exact holds new known (and_eq_true_iff.mpr ⟨known, signed⟩)
      · intro holds new known signed
        exact holds new known (and_eq_true_iff.mp signed).2
  | addProposal proposal =>
    cases stepped
    exact iff_of_true all trivial
  | addFinalizedBudget budget =>
    cases stepped
    refine iff_of_true (all.addItem fun _ key vote impossible => ?_) trivial
    cases impossible
  | ownVote now vote =>
    cases stepped
    exact iff_of_true all trivial
  | submitVote now vote =>
    cases stepped
    refine (all_ownVote_iff all _ now _).trans ?_
    exact each_placed_iff all now { vote with fValid := true }
  | checkAndRemove =>
    cases stepped
    exact iff_of_true all trivial
  | cleanAndRemove =>
    cases stepped
    refine iff_of_true ?_ trivial
    intro hash budget found key vote voted
    obtain ⟨old, before, rfl⟩ := lookup_mapValues_eq_some.mp found
    obtain ⟨cast, held, rfl⟩ := lookup_mapValues_eq_some.mp voted
    exact (marks key cast _).mpr (all hash old before key cast held)
  | clearSeen =>
    cases stepped
    exact iff_of_true all trivial
  | change view => exact absurd rfl (same view)

end BudgetWorld

/-! ## Counting -/

namespace CFinalizedBudget

/-- The masternodes of the list that have a stored vote for the budget. -/
def currentVoters (view : BudgetView) (budget : CFinalizedBudget) : List COutPoint :=
  (view.masternodes.map CTxIn.prevout).dedup.filter fun out =>
    budget.mapVotes.entries.any fun entry => entry.2.vin.prevout = out

/-- Those who have voted, each once. -/
def voters (budget : CFinalizedBudget) : List COutPoint :=
  budget.mapVotes.entries.map fun entry => entry.2.vin.prevout

variable {budget : CFinalizedBudget}

theorem mem_voters {out : COutPoint} :
    out ∈ budget.voters ↔
      ∃ key vote, budget.mapVotes.lookup key = some vote ∧ vote.vin.prevout = out := by
  rw [voters, mem_map]
  constructor
  · rintro ⟨entry, member, same⟩
    exact ⟨entry.1, entry.2, mem_lookup_iff.mpr member, same⟩
  · rintro ⟨key, vote, found, same⟩
    exact ⟨⟨key, vote⟩, mem_lookup_iff.mp found, same⟩

variable {outPointHash : COutPoint → Uint256}

theorem voters_nodup (keyed : ∀ key vote, budget.mapVotes.lookup key = some vote →
      outPointHash vote.vin.prevout = key) : budget.voters.Nodup := by
  have keys_eq : budget.voters.map outPointHash = budget.mapVotes.entries.keys := by
    rw [voters, map_map, List.keys]
    refine map_congr_left fun entry member => ?_
    exact keyed entry.1 entry.2 (mem_lookup_iff.mpr member)
  refine List.Nodup.of_map outPointHash ?_
  rw [keys_eq]
  exact budget.mapVotes.nodupKeys

variable {view : BudgetView}

theorem mem_currentVoters {out : COutPoint} :
    out ∈ budget.currentVoters view ↔
      out ∈ view.masternodes.map CTxIn.prevout ∧ out ∈ budget.voters := by
  rw [currentVoters, mem_filter, mem_dedup, any_eq_true, voters]
  simp only [decide_eq_true_eq, mem_map]

theorem mem_listed_iff {vin : CTxIn} :
    vin.prevout ∈ view.masternodes.map CTxIn.prevout ↔ view.masternodeKnown vin = true := by
  rw [BudgetView.masternodeKnown, any_eq_true, mem_map]
  simp only [decide_eq_true_eq]

/-- The size of `mapVotes` is the number of current voters exactly if all who
have voted are in the list. -/
theorem getVoteCount_eq_iff (keyed : ∀ key vote, budget.mapVotes.lookup key = some vote →
      outPointHash vote.vin.prevout = key) :
    budget.getVoteCount = (budget.currentVoters view).length ↔
      ∀ key vote, budget.mapVotes.lookup key = some vote →
        view.masternodeKnown vote.vin = true := by
  have distinct := voters_nodup keyed
  have currentDistinct : (budget.currentVoters view).Nodup := (nodup_dedup _).sublist filter_sublist
  have within : budget.currentVoters view ⊆ budget.voters := fun out member =>
    (mem_currentVoters.mp member).2
  have count_eq : budget.getVoteCount = budget.voters.length := by
    rw [getVoteCount, voters, length_map]
  rw [count_eq, Int.natCast_inj]
  constructor
  · intro equal key vote found
    have perm := (currentDistinct.subperm within).perm_of_length_le (Nat.le_of_eq equal)
    have member : vote.vin.prevout ∈ budget.currentVoters view :=
      perm.mem_iff.mpr (mem_voters.mpr ⟨key, vote, found, rfl⟩)
    exact mem_listed_iff.mp (mem_currentVoters.mp member).1
  · intro listed
    refine ((perm_ext_iff_of_nodup distinct currentDistinct).mpr fun out => ?_).length_eq
    rw [mem_currentVoters]
    refine ⟨fun voted => ⟨?_, voted⟩, fun current => current.2⟩
    obtain ⟨key, vote, found, rfl⟩ := mem_voters.mp voted
    exact mem_listed_iff.mpr (listed key vote found)

end CFinalizedBudget

namespace BudgetWorld

variable {config : BudgetConfig} {world next : BudgetWorld config}

/-- Once `CleanAndRemove` has run, the vote count of every finalized budget is
the number of masternodes in the list that have a stored vote for it. -/
def CountsCurrent (world : BudgetWorld config) : Prop :=
  ∀ hash budget, world.cleanAndRemove.manager.budgets.mapItems.lookup hash = some budget →
    budget.getVoteCount = (budget.currentVoters world.view).length

/-- Votes are stored by the hash of the input of their masternode. -/
def VotesKeyed (world : BudgetWorld config) : Prop :=
  world.EachBudgetVote fun key vote => config.outPointHash vote.vin.prevout = key

theorem countsCurrent_iff (keyed : world.VotesKeyed) :
    world.CountsCurrent ↔
      world.EachBudgetVote fun _ vote => world.view.masternodeKnown vote.vin = true := by
  have cleaned : ∀ {hash : Uint256} {old : CFinalizedBudget},
      world.manager.budgets.mapItems.lookup hash = some old →
      ((old.cleanAndRemove world.view).getVoteCount =
          ((old.cleanAndRemove world.view).currentVoters world.view).length ↔
        ∀ key vote, old.mapVotes.lookup key = some vote →
          world.view.masternodeKnown vote.vin = true) := by
    intro hash old found
    have oldKeyed : ∀ key vote, (old.cleanAndRemove world.view).mapVotes.lookup key = some vote →
        config.outPointHash vote.vin.prevout = key := by
      intro key vote voted
      obtain ⟨cast, held, rfl⟩ := lookup_mapValues_eq_some.mp voted
      exact keyed hash old found key cast held
    rw [CFinalizedBudget.getVoteCount_eq_iff oldKeyed]
    constructor
    · intro listed key vote held
      exact listed key { vote with fValid := world.view.masternodeKnown vote.vin }
        (lookup_mapValues_eq_some.mpr ⟨vote, held, rfl⟩)
    · intro listed key vote voted
      obtain ⟨cast, held, rfl⟩ := lookup_mapValues_eq_some.mp voted
      exact listed key cast held
  constructor
  · intro counts hash old found
    exact (cleaned found).mp
      (counts hash _ (lookup_mapValues_eq_some.mpr ⟨old, found, rfl⟩))
  · intro listed hash budget there
    obtain ⟨old, found, rfl⟩ := lookup_mapValues_eq_some.mp there
    exact (cleaned found).mpr (listed hash old found)

/-- A step that adds votes of listed masternodes only; a change of the list
leaves all who have voted in it. -/
def StepListed (world : BudgetWorld config) : BudgetInput → Prop
  | .change view =>
    (world.view.tip.isSome && view.tip.isNone) = false →
      world.EachBudgetVote fun _ vote => view.masternodeKnown vote.vin = true
  | input => world.Adds (fun vote => world.view.masternodeKnown vote.vin = true) input

theorem step_change {view : BudgetView} (stepped : world.step (.change view) = some next) :
    (world.view.tip.isSome && view.tip.isNone) = false ∧ next.view = view ∧
      ∀ Property, next.EachBudgetVote Property ↔ world.EachBudgetVote Property := by
  rw [step] at stepped
  split at stepped
  case isTrue => cases stepped
  case isFalse kept =>
    cases stepped
    exact ⟨not_eq_true _ ▸ kept, rfl, fun Property => Iff.rfl⟩

variable {input : BudgetInput}

theorem step_view (stepped : world.step input = some next) (same : ∀ view, input ≠ .change view) :
    next.view = world.view := by
  cases input with
  | change view => exact absurd rfl (same view)
  | _ =>
    cases stepped
    rfl

theorem step_votesKeyed (keyed : world.VotesKeyed) (stepped : world.step input = some next) :
    next.VotesKeyed := by
  cases input with
  | change view => exact ((step_change stepped).2.2 _).mpr keyed
  | message now message =>
    refine (step_each_iff (fun _ _ _ => Iff.rfl) keyed stepped fun view impossible => ?_).mpr ?_
    · cases impossible
    · cases message with
      | mprop proposal => exact fun _ _ _ _ _ => rfl
      | mvote vote => exact trivial
      | fbs budget => exact fun _ _ _ _ _ => rfl
      | fbvote vote => exact fun _ _ _ _ => rfl
  | submitVote now vote =>
    refine (step_each_iff (fun _ _ _ => Iff.rfl) keyed stepped fun view impossible => ?_).mpr ?_
    · cases impossible
    · exact fun _ => rfl
  | _ =>
    refine (step_each_iff (fun _ _ _ => Iff.rfl) keyed stepped fun view impossible => ?_).mpr ?_
    · cases impossible
    · exact trivial

theorem step_countsCurrent_iff (keyed : world.VotesKeyed) (counts : world.CountsCurrent)
    (stepped : world.step input = some next) : next.CountsCurrent ↔ world.StepListed input := by
  rw [countsCurrent_iff (step_votesKeyed keyed stepped)]
  by_cases change : ∃ view, input = .change view
  · obtain ⟨view, rfl⟩ := change
    obtain ⟨kept, view_eq, votes⟩ := step_change stepped
    rw [StepListed, forall_prop_of_true kept, votes, view_eq]
  · have same : ∀ view, input ≠ .change view := fun view equal => change ⟨view, equal⟩
    rw [step_view stepped same]
    refine (step_each_iff (fun _ _ _ => Iff.rfl) ((countsCurrent_iff keyed).mp counts) stepped
      same).trans ?_
    cases input with
    | change view => exact absurd rfl (same view)
    | _ => exact Iff.rfl

/-- From a manager that has seen nothing, every state of a run counts current
masternodes only exactly if all who have voted stay in the list and no other
votes are placed. -/
theorem counts_current_throughout_iff (view : BudgetView) (inputs : List BudgetInput) :
    Runs.Throughout step CountsCurrent (start config view) inputs ↔
      Runs.Meets step StepListed (start config view) inputs := by
  have keyed : (start config view).VotesKeyed := by
    intro hash budget impossible
    cases impossible
  have counts : (start config view).CountsCurrent := by
    intro hash budget impossible
    cases impossible
  refine Runs.throughout_iff_meets ?_ ?_ ?_ keyed counts (Runs.Meets.trivial step _ inputs)
  · intro world input next keyed _ _ stepped _
    exact step_votesKeyed keyed stepped
  · intro world input next keyed _ counts stepped
    exact step_countsCurrent_iff keyed counts stepped
  · intro world input stopped
    cases input with
    | change view =>
      intro kept
      rw [step, kept] at stopped
      cases stopped
    | _ => cases stopped

end BudgetWorld

namespace BudgetSample

/-- A vote of the masternode with the collateral (7, 0) for the budget with one payment. -/
def budgetVote : CFinalizedBudgetVote :=
  { vin := { prevout := ⟨7, 0⟩ }, nBudgetHash := 1, nTime := 0, nTime_range := isInt64_zero }

/-- The masternode votes and then leaves the list. -/
def departure : List BudgetInput :=
  [.message 0 (.fbs (budget [5])), .message 0 (.fbvote budgetVote), .change (synced []),
    .cleanAndRemove]

end BudgetSample

namespace BudgetWorld

open BudgetSample

/-- The vote of a masternode that has left is still counted. -/
theorem departed_vote_counted :
    ¬ Runs.Throughout step CountsCurrent
      (start config (synced [{ prevout := ⟨7, 0⟩ }])) departure := by
  intro along
  have after := (((along.2 _ rfl).2 _ rfl).2 _ rfl).2 _ rfl
  have counted := after 1 _ rfl
  revert counted
  decide

end BudgetWorld

end CentNode
