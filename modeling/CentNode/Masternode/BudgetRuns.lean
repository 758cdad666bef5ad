import CentNode.Library.Runs
import CentNode.Masternode.BudgetChecks

/-!
# Runs of the budget manager

The manager with what it reads of the node, which changes between calls:
messages, own votes, the regular checks, and changes of the chain and of the
list of masternodes.
-/

namespace CentNode

namespace CBudgetProposal

/-- A proposal as it is read from a message or made by a call: without votes and
with the time of its fee transaction. -/
def received (view : BudgetView) (proposal : CBudgetProposal) : CBudgetProposal :=
  { proposal with
    fValid := true
    mapVotes := ∅
    nBlockStart := toInt32 proposal.nBlockStart
    nBlockEnd := toInt32 proposal.nBlockEnd
    nAmount := toInt64 proposal.nAmount
    nTime := (view.collateralTime proposal.nFeeTXHash).getD proposal.nTime }

/-- What `CheckAndRemove` does to a proposal; the check of the collateral sets the time. -/
def checked (config : BudgetConfig) (view : BudgetView) (proposal : CBudgetProposal) :
    CBudgetProposal :=
  { proposal with
    fValid := (proposal.isValid config view true).isNone
    nTime :=
      if (firstError (proposal.firstChecks view)).isNone then
        (view.collateralTime proposal.nFeeTXHash).getD proposal.nTime
      else proposal.nTime }

/-- `CleanAndRemove(false)`. -/
def cleanAndRemove (view : BudgetView) (proposal : CBudgetProposal) : CBudgetProposal :=
  { proposal with
    mapVotes := proposal.mapVotes.mapValues fun vote =>
      { vote with fValid := view.masternodeKnown vote.vin } }

end CBudgetProposal

namespace CFinalizedBudget

/-- A budget as it is read from a message, without votes. -/
def received (budget : CFinalizedBudget) : CFinalizedBudget :=
  { budget with
    mapVotes := ∅
    nBlockStart := toInt32 budget.nBlockStart
    vecBudgetPayments := budget.vecBudgetPayments.map fun payment =>
      { payment with nAmount := toInt64 payment.nAmount } }

/-- `CleanAndRemove(false)`: a vote of a masternode that has left is marked. -/
def cleanAndRemove (view : BudgetView) (budget : CFinalizedBudget) : CFinalizedBudget :=
  { budget with
    mapVotes := budget.mapVotes.mapValues fun vote =>
      { vote with fValid := view.masternodeKnown vote.vin } }

end CFinalizedBudget

def BudgetMessage.received (view : BudgetView) : BudgetMessage → BudgetMessage
  | .mprop proposal => .mprop (proposal.received view)
  | .mvote vote => .mvote { vote with fValid := true }
  | .fbs budget => .fbs budget.received
  | .fbvote vote => .fbvote { vote with fValid := true }

/-- The manager's questions, answered by the node as it is. -/
def BudgetView.node (config : BudgetConfig) (view : BudgetView) : BudgetNode where
  isSynced := view.isSynced
  outPointHash := config.outPointHash
  masternodeKnown := view.masternodeKnown
  isBudgetCollateralValid := fun fee expected => (view.collateralError fee expected).isNone
  proposalHash := CBudgetProposal.getHash config
  proposalVoteHash := config.proposalVoteHash
  proposalIsValid := fun proposal => (proposal.isValid config view true).isNone
  proposalVoteSignatureValid := fun vote =>
    view.masternodeKnown vote.vin && view.proposalVoteSigned vote
  budgetHash := CFinalizedBudget.getHash config
  budgetVoteHash := config.budgetVoteHash
  budgetIsValid := fun budget => (budget.isValid config view true).isNone
  budgetVoteSignatureValid := fun vote =>
    view.masternodeKnown vote.vin && view.budgetVoteSigned vote

/-- The node, and the manager that works with it. -/
structure BudgetWorld (config : BudgetConfig) where
  view : BudgetView
  manager : CBudgetManager (view.node config)

inductive BudgetInput where
  | message (now : Int) (message : BudgetMessage)
  /-- `AddProposal` from `NewBlock` or a call. -/
  | addProposal (proposal : CBudgetProposal)
  /-- `AddFinalizedBudget` from `NewBlock` or a call. -/
  | addFinalizedBudget (budget : CFinalizedBudget)
  /-- A vote for a proposal that the node makes itself. -/
  | ownVote (now : Int) (vote : CBudgetVote)
  /-- `CFinalizedBudget::SubmitVote`. -/
  | submitVote (now : Int) (vote : CFinalizedBudgetVote)
  /-- `CBudgetManager::CheckAndRemove`, which removes nothing. -/
  | checkAndRemove
  /-- The loops of `NewBlock` over `CleanAndRemove(false)`. -/
  | cleanAndRemove
  | clearSeen
  /-- The chain, the clock or the list of masternodes has changed. -/
  | change (view : BudgetView)

/-- `UpdateProposal` or `UpdateFinalizedBudget` for an own vote, which is
remembered when it was taken. -/
def Ballots.ownVote {Item Vote : Type} {rules : BallotRules Item Vote} (isSynced : Bool)
    (now : Int) (ballots : Ballots rules) (vote : Vote) : Ballots rules :=
  let updated := ballots.updateItem isSynced false now vote
  if updated.1 then
    { updated.2 with
      mapSeenVotes := updated.2.mapSeenVotes.insertNew (rules.voteHash vote) vote }
  else updated.2

namespace BudgetWorld

variable {config : BudgetConfig}

/-- `CleanAndRemove(false)` of all proposals and finalized budgets. -/
def cleanAndRemove (world : BudgetWorld config) : BudgetWorld config :=
  { world with
    manager :=
      { proposals := { world.manager.proposals with
          mapItems := world.manager.proposals.mapItems.mapValues
            (CBudgetProposal.cleanAndRemove world.view) }
        budgets := { world.manager.budgets with
          mapItems := world.manager.budgets.mapItems.mapValues
            (CFinalizedBudget.cleanAndRemove world.view) } } }

/-- One step.  A chain that has a tip keeps one. -/
def step (world : BudgetWorld config) : BudgetInput → Option (BudgetWorld config)
  | .message now message =>
    some { world with
      manager := world.manager.processMessage now (message.received world.view) }
  | .addProposal proposal =>
    some { world with
      manager := { world.manager with
        proposals := world.manager.proposals.addItem (proposal.received world.view) } }
  | .addFinalizedBudget budget =>
    some { world with
      manager := { world.manager with
        budgets := world.manager.budgets.addItem budget.received } }
  | .ownVote now vote =>
    some { world with
      manager := { world.manager with
        proposals := world.manager.proposals.ownVote world.view.isSynced now
          { vote with fValid := true } } }
  | .submitVote now vote =>
    some { world with
      manager := { world.manager with
        budgets := world.manager.budgets.ownVote world.view.isSynced now
          { vote with fValid := true } } }
  | .checkAndRemove =>
    some { world with
      manager := { world.manager with
        proposals := { world.manager.proposals with
          mapItems := world.manager.proposals.mapItems.mapValues
            (CBudgetProposal.checked config world.view) } } }
  | .cleanAndRemove => some world.cleanAndRemove
  | .clearSeen =>
    some { world with
      manager :=
        { proposals := { world.manager.proposals with mapSeenItems := ∅, mapSeenVotes := ∅ }
          budgets := { world.manager.budgets with mapSeenItems := ∅, mapSeenVotes := ∅ } } }
  | .change view =>
    if world.view.tip.isSome && view.tip.isNone then none
    else
      some
        { view := view
          manager :=
            { proposals :=
                { mapItems := world.manager.proposals.mapItems
                  mapSeenItems := world.manager.proposals.mapSeenItems
                  mapSeenVotes := world.manager.proposals.mapSeenVotes
                  mapOrphanVotes := world.manager.proposals.mapOrphanVotes
                  orphansKeyed := world.manager.proposals.orphansKeyed }
              budgets :=
                { mapItems := world.manager.budgets.mapItems
                  mapSeenItems := world.manager.budgets.mapSeenItems
                  mapSeenVotes := world.manager.budgets.mapSeenVotes
                  mapOrphanVotes := world.manager.budgets.mapOrphanVotes
                  orphansKeyed := world.manager.budgets.orphansKeyed } } }

/-- A manager that has seen nothing. -/
def start (config : BudgetConfig) (view : BudgetView) : BudgetWorld config where
  view := view
  manager :=
    { proposals :=
        { mapItems := ∅
          mapSeenItems := ∅
          mapSeenVotes := ∅
          mapOrphanVotes := ∅
          orphansKeyed := fun _ _ impossible => by cases impossible }
      budgets :=
        { mapItems := ∅
          mapSeenItems := ∅
          mapSeenVotes := ∅
          mapOrphanVotes := ∅
          orphansKeyed := fun _ _ impossible => by cases impossible } }

/-! ## Properties of the stored items -/

variable {world next : BudgetWorld config} {input : BudgetInput}

section

variable {Item Vote : Type} {rules : BallotRules Item Vote} {ballots : Ballots rules}
  {Property : Uint256 → Item → Prop} (all : ballots.All Property)

include all

theorem all_ownVote_iff (isSynced : Bool) (now : Int) (vote : Vote) :
    (ballots.ownVote isSynced now vote).All Property ↔
      ∀ item votes, ballots.mapItems.lookup (rules.votedHash vote) = some item →
        rules.addOrUpdateVote now (rules.mapVotes item) vote = some votes →
          Property (rules.votedHash vote) (rules.withVotes item votes) := by
  rw [← Ballots.all_updateItem_iff all isSynced false now vote, Ballots.ownVote]
  dsimp only
  split <;> exact Iff.rfl

theorem all_ownVote
    (ignores : Ballots.IgnoresVotes rules Property) (isSynced : Bool) (now : Int) (vote : Vote) :
    (ballots.ownVote isSynced now vote).All Property :=
  (all_ownVote_iff all isSynced now vote).mpr fun item votes found _ =>
    ignores _ item votes (all _ item found)

end

/-- A property of finalized budgets that all new ones have, whatever their votes. -/
theorem step_budgets (Property : BudgetView → Uint256 → CFinalizedBudget → Prop)
    (ignores : ∀ view hash budget votes, Property view hash budget →
      Property view hash { budget with mapVotes := votes })
    (new : ∀ view budget, budget.isValid config view true = none →
      Property view (budget.getHash config) budget)
    (later : ∀ view after hash budget, (view.tip.isSome && after.tip.isNone) = false →
      Property view hash budget → Property after hash budget)
    (all : world.manager.budgets.All (Property world.view))
    (stepped : world.step input = some next) : next.manager.budgets.All (Property next.view) := by
  have unvoted : Ballots.IgnoresVotes (world.view.node config).budgetRules
      (Property world.view) := ignores world.view
  have valid : ∀ budget : CFinalizedBudget,
      (world.view.node config).budgetRules.isValid budget = true →
        Property world.view (budget.getHash config) budget := fun budget valid =>
    new world.view budget (Option.isNone_iff_eq_none.mp valid)
  cases input with
  | message now message =>
    cases stepped
    cases message with
    | mprop proposal =>
      dsimp only [BudgetMessage.received, CBudgetManager.processMessage]
      split
      · exact all.checkOrphanVotes unvoted _ now
      · exact all
    | mvote vote => exact all
    | fbs budget =>
      have received := all.receiveItem (valid budget.received)
      dsimp only [BudgetMessage.received, CBudgetManager.processMessage]
      split
      · exact received.checkOrphanVotes unvoted _ now
      · exact received
    | fbvote vote => exact all.receiveVote unvoted _ now _
  | addProposal proposal =>
    cases stepped
    exact all
  | addFinalizedBudget budget =>
    cases stepped
    exact all.addItem (valid budget.received)
  | ownVote now vote =>
    cases stepped
    exact all
  | submitVote now vote =>
    cases stepped
    exact all_ownVote all unvoted _ now _
  | checkAndRemove =>
    cases stepped
    exact all
  | cleanAndRemove =>
    cases stepped
    intro hash budget found
    obtain ⟨old, before, rfl⟩ := StdMap.lookup_mapValues_eq_some.mp found
    exact ignores _ hash old _ (all hash old before)
  | clearSeen =>
    cases stepped
    exact all
  | change view =>
    rw [step] at stepped
    split at stepped
    case isTrue => cases stepped
    case isFalse tip =>
      cases stepped
      exact fun hash budget found =>
        later _ _ hash budget (Bool.not_eq_true _ ▸ tip) (all hash budget found)

/-- A property of proposals that all new ones have, whatever their votes and marks. -/
theorem step_proposals (Property : Uint256 → CBudgetProposal → Prop)
    (ignores : ∀ hash proposal votes, Property hash proposal →
      Property hash { proposal with mapVotes := votes })
    (marks : ∀ hash proposal fValid nTime, Property hash proposal →
      Property hash { proposal with fValid := fValid, nTime := nTime })
    (new : ∀ view (proposal : CBudgetProposal),
      (proposal.received view).isValid config view true = none →
        Property ((proposal.received view).getHash config) (proposal.received view))
    (all : world.manager.proposals.All Property) (stepped : world.step input = some next) :
    next.manager.proposals.All Property := by
  have unvoted : Ballots.IgnoresVotes (world.view.node config).proposalRules Property := ignores
  have valid : ∀ proposal : CBudgetProposal,
      (world.view.node config).proposalRules.isValid (proposal.received world.view) = true →
        Property ((proposal.received world.view).getHash config)
          (proposal.received world.view) := fun proposal valid =>
    new world.view proposal (Option.isNone_iff_eq_none.mp valid)
  cases input with
  | message now message =>
    cases stepped
    cases message with
    | mprop proposal =>
      have received := all.receiveItem (valid proposal)
      dsimp only [BudgetMessage.received, CBudgetManager.processMessage]
      split
      · exact received.checkOrphanVotes unvoted _ now
      · exact received
    | mvote vote => exact all.receiveVote unvoted _ now _
    | fbs budget =>
      dsimp only [BudgetMessage.received, CBudgetManager.processMessage]
      split
      · exact all.checkOrphanVotes unvoted _ now
      · exact all
    | fbvote vote => exact all
  | addProposal proposal =>
    cases stepped
    exact all.addItem (valid proposal)
  | addFinalizedBudget budget =>
    cases stepped
    exact all
  | ownVote now vote =>
    cases stepped
    exact all_ownVote all unvoted _ now _
  | submitVote now vote =>
    cases stepped
    exact all
  | checkAndRemove =>
    cases stepped
    intro hash proposal found
    obtain ⟨old, before, rfl⟩ := StdMap.lookup_mapValues_eq_some.mp found
    exact marks hash old _ _ (all hash old before)
  | cleanAndRemove =>
    cases stepped
    intro hash proposal found
    obtain ⟨old, before, rfl⟩ := StdMap.lookup_mapValues_eq_some.mp found
    exact ignores hash old _ (all hash old before)
  | clearSeen =>
    cases stepped
    exact all
  | change view =>
    rw [step] at stepped
    split at stepped
    case isTrue => cases stepped
    case isFalse =>
      cases stepped
      exact all

end BudgetWorld

end CentNode
