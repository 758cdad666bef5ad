import CentNode.Library.Greedy
import CentNode.Masternode.Treasury

/-!
# The allotment of the budget

`CBudgetManager::GetBudget`: the proposals in the order of their votes, each
taken when it is eligible and still fits under the total of the next cycle.
-/

namespace CentNode

open List

namespace CBudgetProposal

/-- `sortProposalsByVotes`: by votes, and by the hash of the fee transaction in a tie. -/
def sortProposalsByVotes (left right : CBudgetProposal) : Bool :=
  if left.netVotes ≠ right.netVotes then left.netVotes > right.netVotes
  else left.nFeeTXHash > right.nFeeTXHash

end CBudgetProposal

def nextCycleStart (params : CChainParams) (height : Int) : Int :=
  height - height % getBudgetPaymentCycleBlocks params + getBudgetPaymentCycleBlocks params

def nextCycleEnd (params : CChainParams) (height : Int) : Int :=
  nextCycleStart params height + getBudgetPaymentCycleBlocks params - 1

namespace BudgetView

variable (config : BudgetConfig) (view : BudgetView) (now : Int)

/-- The height of the tip, 0 if there is none. -/
def height : Int := view.tip.getD 0

/-- `GetTotalBudget` of the next cycle. -/
def nTotalBudget : Int :=
  getTotalBudget config.params view.tip.isSome (nextCycleStart config.params view.height)

/-- What `GetBudget` asks of a proposal before it looks at the amount. -/
def isEligible (proposal : CBudgetProposal) : Bool :=
  proposal.fValid && decide (proposal.nBlockStart ≤ nextCycleStart config.params view.height) &&
    decide (nextCycleEnd config.params view.height ≤ proposal.nBlockEnd) &&
      decide (proposal.netVotes > view.countEnabled / 10) && proposal.isEstablished config now

/-- One iteration: `nBudgetAllocated` and the proposals returned so far. -/
def allot (state : Int × List CBudgetProposal) (proposal : CBudgetProposal) :
    Int × List CBudgetProposal :=
  if view.isEligible config now proposal then
    if toInt64 (proposal.nAmount + state.1) ≤ view.nTotalBudget config then
      (toInt64 (state.1 + proposal.nAmount), state.2 ++ [proposal])
    else state
  else state

def getBudget (sorted : List CBudgetProposal) : List CBudgetProposal :=
  if view.tip.isNone then [] else (sorted.foldl (view.allot config now) (0, [])).2

end BudgetView

/-- The proposals as `std::sort` may leave them once their votes are cleaned: a
permutation in which none comes after one that it is before. -/
structure BudgetWorld.VoteOrder {config : BudgetConfig} (world : BudgetWorld config)
    (order : List CBudgetProposal) : Prop where
  perm : order.Perm
    (world.cleanAndRemove.manager.proposals.mapItems.entries.map fun entry => entry.2)
  sorted : order.Pairwise fun first second =>
    CBudgetProposal.sortProposalsByVotes second first = false

/-! ## What is known of a stored proposal -/

namespace CBudgetProposal

variable {config : BudgetConfig} {view : BudgetView} {proposal : CBudgetProposal}

theorem isValid_eq_none_iff {fCheckCollateral : Bool} :
    proposal.isValid config view fCheckCollateral = none ↔
      (proposal.getNays : Int) - proposal.getYeas ≤ view.countEnabled / 10 ∧
        0 ≤ proposal.nBlockStart ∧ proposal.nBlockStart ≤ proposal.nBlockEnd ∧
        10 * coin ≤ proposal.nAmount ∧ proposal.address ≠ [] ∧
        (fCheckCollateral &&
          (view.collateralError proposal.nFeeTXHash (proposal.getHash config)).isSome) = false ∧
        proposal.address.isPayToScriptHash = false ∧
        proposal.nAmount ≤ getTotalBudget config.params view.tip.isSome proposal.nBlockStart ∧
        (view.tip.isSome = true → view.height ≤ proposal.proposalEnd config) := by
  rw [isValid, firstError_eq_none]
  simp only [firstChecks, lastChecks, mem_append, mem_cons, not_mem_nil, or_false,
    or_imp, forall_and, forall_eq, decide_eq_false_iff_not, Int.not_lt, gt_iff_lt, BudgetView.height]
  cases view.tip.isSome <;> simp [and_assoc]

/-- What `AddProposal` has checked of a proposal, for good. -/
structure Admitted (config : BudgetConfig) (proposal : CBudgetProposal) : Prop where
  start_nonneg : 0 ≤ proposal.nBlockStart
  start_le : proposal.nBlockStart ≤ proposal.nBlockEnd
  end_lt : proposal.nBlockEnd < 2 ^ 31
  amount_ge : 10 * coin ≤ proposal.nAmount
  address : proposal.address ≠ []
  single : proposal.address.isPayToScriptHash = false
  amount_le : proposal.nAmount ≤ getTotalBudget config.params true proposal.nBlockStart
  proposalEnd_nonneg : 0 ≤ proposal.proposalEnd config

theorem toInt32_lt (value : Int) : toInt32 value < 2 ^ 31 := by
  unfold toInt32
  omega

theorem admitted_received (valid : (proposal.received view).isValid config view true = none) :
    (proposal.received view).Admitted config := by
  obtain ⟨_, startNonneg, startLe, amountGe, address, _, single, amountLe, ends⟩ :=
    isValid_eq_none_iff.mp valid
  have positive : (0 : Int) < 10 * coin := by decide
  -- without a tip the budget is zero
  have tip : view.tip.isSome = true := by
    by_contra none
    rw [Bool.not_eq_true] at none
    rw [none] at amountLe
    have zero : getTotalBudget config.params false (proposal.received view).nBlockStart = 0 := rfl
    omega
  rw [tip] at amountLe
  refine ⟨startNonneg, startLe, toInt32_lt _, amountGe, address, single, amountLe, ?_⟩
  exact le_trans (Int.natCast_nonneg _) (ends tip)

theorem height_le_proposalEnd (admitted : proposal.Admitted config) {height : Int}
    (ends : nextCycleEnd config.params height ≤ proposal.nBlockEnd) :
    height ≤ proposal.proposalEnd config := by
  have startNonneg := admitted.start_nonneg
  have startLe := admitted.start_le
  have endLt := admitted.end_lt
  have endNonneg := admitted.proposalEnd_nonneg
  rw [nextCycleEnd, nextCycleStart, getBudgetPaymentCycleBlocks] at ends
  rw [proposalEnd, getTotalPaymentCount, getBlockEndCycle, getBlockStartCycle,
    Int.tmod_eq_emod_of_nonneg startNonneg, getBudgetPaymentCycleBlocks] at endNonneg ⊢
  split at ends
  case isTrue main =>
    rw [if_pos main, Int.tdiv_eq_ediv_of_nonneg (by omega)] at endNonneg ⊢
    unfold toInt32 at endNonneg ⊢
    omega
  case isFalse other =>
    rw [if_neg other, Int.tdiv_eq_ediv_of_nonneg (by omega)] at endNonneg ⊢
    unfold toInt32 at endNonneg ⊢
    omega

end CBudgetProposal

open CBudgetProposal

/-! ## The loop -/

namespace BudgetView

variable {config : BudgetConfig} {view : BudgetView} {now : Int}

theorem nTotalBudget_bounds (config : BudgetConfig) (view : BudgetView) :
    0 ≤ view.nTotalBudget config ∧ view.nTotalBudget config < 2 ^ 40 :=
  getTotalBudget_bounds _ _ _

/-- Amounts that `AddProposal` has checked do not overflow the running total. -/
theorem foldl_allot {order : List CBudgetProposal}
    (admitted : ∀ proposal ∈ order, proposal.Admitted config)
    {allocated : Int} (low : 0 ≤ allocated) (high : allocated ≤ view.nTotalBudget config)
    (returned : List CBudgetProposal) :
    (order.foldl (view.allot config now) (allocated, returned)).2 =
      returned ++ Greedy.take CBudgetProposal.nAmount (view.nTotalBudget config) allocated
        (order.filter (view.isEligible config now)) := by
  induction order generalizing allocated returned with
  | nil => simp [Greedy.take]
  | cons proposal rest ih =>
    have restAdmitted : ∀ other ∈ rest, other.Admitted config := fun other member =>
      admitted other (mem_cons_of_mem proposal member)
    have here := admitted proposal mem_cons_self
    have totalBounds := nTotalBudget_bounds config view
    have amountBounds := getTotalBudget_bounds config.params true proposal.nBlockStart
    have amountGe := here.amount_ge
    have amountLe := here.amount_le
    have coin_eq : coin = 100000000 := rfl
    have exact_add : toInt64 (proposal.nAmount + allocated) = proposal.nAmount + allocated :=
      toInt64_of_range (by omega) (by omega)
    rw [foldl_cons, allot]
    cases eligible : view.isEligible config now proposal with
    | false =>
      rw [filter_cons_of_neg (by simp [eligible])]
      exact ih restAdmitted low high returned
    | true =>
      rw [filter_cons_of_pos eligible, if_pos rfl, Int.add_comm allocated, exact_add]
      split
      case isTrue fits =>
        rw [Greedy.take_cons_of_fits fits, ih restAdmitted (by omega) fits,
          Int.add_comm allocated, append_assoc]
        rfl
      case isFalse large =>
        rw [Greedy.take_cons_of_not_fits large]
        exact ih restAdmitted low high returned

theorem getBudget_eq (view : BudgetView) (now : Int) {order : List CBudgetProposal}
    (admitted : ∀ proposal ∈ order, proposal.Admitted config) :
    view.getBudget config now order =
      Greedy.take CBudgetProposal.nAmount (view.nTotalBudget config) 0
        (order.filter (view.isEligible config now)) := by
  rw [getBudget]
  cases tip : view.tip with
  | some height =>
    have nonneg := (nTotalBudget_bounds config view).1
    rw [if_neg (by simp)]
    exact foldl_allot admitted le_rfl nonneg []
  | none =>
    -- the total is zero, and every amount is positive
    have zero : view.nTotalBudget config = 0 := by
      rw [nTotalBudget, tip]
      rfl
    rw [if_pos (by simp), zero]
    have positive : ∀ proposal ∈ order.filter (view.isEligible config now),
        ¬ proposal.nAmount + 0 ≤ 0 := by
      intro proposal member
      have amountGe := (admitted proposal (mem_of_mem_filter member)).amount_ge
      have coin_eq : coin = 100000000 := rfl
      omega
    generalize order.filter (view.isEligible config now) = eligible at positive ⊢
    induction eligible with
    | nil => rfl
    | cons proposal rest ih =>
      rw [Greedy.take_cons_of_not_fits (positive proposal mem_cons_self)]
      exact ih fun other member => positive other (mem_cons_of_mem proposal member)

end BudgetView

/-! ## The allotment -/

/-- What `GetBudget` returns for proposals in this order. -/
structure Allotment (config : BudgetConfig) (view : BudgetView) (now : Int)
    (order : List CBudgetProposal) : Prop where
  distinct : ((view.getBudget config now order).map (CBudgetProposal.getHash config)).Nodup
  valid : ∀ proposal ∈ view.getBudget config now order,
    proposal.fValid = true ∧ proposal.isValid config view false = none
  established : ∀ proposal ∈ view.getBudget config now order,
    proposal.isEstablished config now = true
  covers : ∀ proposal ∈ view.getBudget config now order,
    proposal.nBlockStart ≤ nextCycleStart config.params view.height ∧
      nextCycleEnd config.params view.height ≤ proposal.nBlockEnd
  supported : ∀ proposal ∈ view.getBudget config now order,
    proposal.netVotes > view.countEnabled / 10
  total : ((view.getBudget config now order).map CBudgetProposal.nAmount).sum ≤
    view.nTotalBudget config
  /-- An eligible proposal that is left out does not fit with those returned before it. -/
  greedy : ∀ before proposal after, order = before ++ proposal :: after →
    view.isEligible config now proposal = true → proposal ∉ view.getBudget config now order →
      ∃ earlier later, view.getBudget config now order = earlier ++ later ∧
        earlier.Sublist before ∧ later.Sublist after ∧
        view.nTotalBudget config < proposal.nAmount + (earlier.map CBudgetProposal.nAmount).sum

namespace BudgetView

variable {config : BudgetConfig} {view : BudgetView} {now : Int}

theorem isEligible_iff {proposal : CBudgetProposal} :
    view.isEligible config now proposal = true ↔
      proposal.fValid = true ∧
        (proposal.nBlockStart ≤ nextCycleStart config.params view.height ∧
          nextCycleEnd config.params view.height ≤ proposal.nBlockEnd) ∧
        proposal.netVotes > view.countEnabled / 10 ∧
        proposal.isEstablished config now = true := by
  simp only [isEligible, Bool.and_eq_true, decide_eq_true_eq, and_assoc]

/-- All that `IsValid` checks, the collateral apart, holds of an eligible proposal. -/
theorem isValid_of_eligible {proposal : CBudgetProposal} (admitted : proposal.Admitted config)
    (tip : view.tip.isSome = true) (eligible : view.isEligible config now proposal = true) :
    proposal.isValid config view false = none := by
  obtain ⟨_, ⟨_, ends⟩, votes, _⟩ := isEligible_iff.mp eligible
  rw [netVotes] at votes
  refine isValid_eq_none_iff.mpr ⟨by omega, admitted.start_nonneg,
    admitted.start_le, admitted.amount_ge, admitted.address, rfl, admitted.single, ?_, fun _ => ?_⟩
  · rw [tip]
    exact admitted.amount_le
  · exact height_le_proposalEnd admitted ends

theorem allotment_of_admitted {order : List CBudgetProposal}
    (admitted : ∀ proposal ∈ order, proposal.Admitted config)
    (hashes : (order.map (getHash config)).Nodup) :
    Allotment config view now order := by
  have taken := getBudget_eq view now admitted
  have kept : (view.getBudget config now order).Sublist
      (order.filter (view.isEligible config now)) := by
    rw [taken]
    exact Greedy.take_sublist 0 _
  have eligible : ∀ proposal ∈ view.getBudget config now order,
      view.isEligible config now proposal = true := fun proposal member =>
    (mem_filter.mp (kept.subset member)).2
  have tip : ∀ proposal ∈ view.getBudget config now order, view.tip.isSome = true := by
    intro proposal member
    rw [getBudget] at member
    cases found : view.tip with
    | some height => rfl
    | none =>
      rw [found] at member
      cases member
  refine ⟨?_, fun proposal member => ⟨?_, ?_⟩, fun proposal member => ?_,
    fun proposal member => ?_, fun proposal member => ?_, ?_, ?_⟩
  · exact hashes.sublist ((kept.trans filter_sublist).map _)
  · exact (isEligible_iff.mp (eligible proposal member)).1
  · exact isValid_of_eligible (admitted proposal (mem_of_mem_filter (kept.subset member)))
      (tip proposal member) (eligible proposal member)
  · exact (isEligible_iff.mp (eligible proposal member)).2.2.2
  · exact (isEligible_iff.mp (eligible proposal member)).2.1
  · exact (isEligible_iff.mp (eligible proposal member)).2.2.1
  · have bound := Greedy.spent_add_cost_take_le CBudgetProposal.nAmount
      (nTotalBudget_bounds config view).1 (order.filter (view.isEligible config now))
    rw [← taken, Int.zero_add] at bound
    exact bound
  · intro before proposal after split candidate left
    have parts : order.filter (view.isEligible config now) =
        before.filter (view.isEligible config now) ++
          proposal :: after.filter (view.isEligible config now) := by
      rw [split, filter_append, filter_cons_of_pos candidate]
    rw [taken, parts] at left ⊢
    rcases Greedy.take_middle CBudgetProposal.nAmount (view.nTotalBudget config) 0
        (before.filter (view.isEligible config now)) proposal
        (after.filter (view.isEligible config now)) with ⟨later, whole⟩ | ⟨large, later, whole, rest⟩
    · rw [whole] at left
      exact absurd (mem_append_right _ mem_cons_self) left
    · rw [Int.zero_add] at large
      exact ⟨_, later, whole, (Greedy.take_sublist 0 _).trans filter_sublist,
        rest.trans filter_sublist, large⟩

end BudgetView

namespace BudgetWorld

variable {config : BudgetConfig} {world next : BudgetWorld config}

/-- Every stored proposal was admitted, and is stored under its hash. -/
def ProposalsAdmitted (world : BudgetWorld config) : Prop :=
  world.manager.proposals.All fun hash proposal =>
    proposal.Admitted config ∧ proposal.getHash config = hash

theorem step_admitted (input : BudgetInput) (admitted : world.ProposalsAdmitted)
    (stepped : world.step input = some next) : next.ProposalsAdmitted := by
  refine step_proposals (fun hash proposal =>
    proposal.Admitted config ∧ proposal.getHash config = hash) ?_ ?_ ?_ admitted stepped
  · rintro hash proposal votes ⟨fields, same⟩
    exact ⟨{ fields with }, same⟩
  · rintro hash proposal fValid nTime ⟨fields, same⟩
    exact ⟨{ fields with }, same⟩
  · exact fun view proposal valid => ⟨admitted_received valid, rfl⟩

theorem admitted_of_reached {view : BudgetView} {inputs : List BudgetInput}
    (reached : Runs.run step (start config view) inputs = some world) :
    world.ProposalsAdmitted := by
  have begins : (start config view).ProposalsAdmitted := by
    intro hash proposal impossible
    cases impossible
  have along : Runs.Throughout step ProposalsAdmitted (start config view) inputs :=
    Runs.throughout_of_kept (fun world admitted => admitted)
      (fun world input next admitted _ stepped => step_admitted input admitted stepped)
      begins (Runs.Meets.trivial step _ inputs)
  exact along.final reached

theorem cleanAndRemove_admitted (admitted : world.ProposalsAdmitted) :
    world.cleanAndRemove.ProposalsAdmitted :=
  step_admitted .cleanAndRemove admitted rfl

section

variable {order : List CBudgetProposal} (sorted : world.VoteOrder order)
  (stored : world.ProposalsAdmitted)

include sorted stored

theorem VoteOrder.admitted : ∀ proposal ∈ order, proposal.Admitted config := by
  intro proposal member
  obtain ⟨entry, inside, rfl⟩ := mem_map.mp (sorted.perm.mem_iff.mp member)
  exact (cleanAndRemove_admitted stored entry.1 entry.2 (AList.mem_lookup_iff.mpr inside)).1

theorem VoteOrder.hashes : (order.map (getHash config)).Nodup := by
  have keys_eq : (world.cleanAndRemove.manager.proposals.mapItems.entries.map
      fun entry => entry.2).map (getHash config) =
        world.cleanAndRemove.manager.proposals.mapItems.entries.keys := by
    rw [map_map, List.keys]
    refine map_congr_left fun entry inside => ?_
    exact (cleanAndRemove_admitted stored entry.1 entry.2 (AList.mem_lookup_iff.mpr inside)).2
  refine ((sorted.perm.map _).nodup_iff).mpr ?_
  rw [keys_eq]
  exact world.cleanAndRemove.manager.proposals.mapItems.nodupKeys

end

/-- In every state of every run and for every order that the sort may leave,
`GetBudget` returns the greedy allotment. -/
theorem getBudget_allots (view : BudgetView) (inputs : List BudgetInput)
    (reached : Runs.run step (start config view) inputs = some world) (now : Int)
    {order : List CBudgetProposal} (sorted : world.VoteOrder order) :
    Allotment config world.view now order :=
  BudgetView.allotment_of_admitted (sorted.admitted (admitted_of_reached reached))
    (sorted.hashes (admitted_of_reached reached))

end BudgetWorld

namespace BudgetSample

/-- A proposal that covers the cycle from block 129600 on. -/
def proposal (amount : Int) (fee : Uint256) : CBudgetProposal where
  strProposalName := "proposal"
  nBlockStart := 86400
  nBlockEnd := 200000
  nAmount := amount * coin
  address := [0x51]
  nFeeTXHash := fee

/-- The masternode with the collateral (7, 0) votes for a proposal. -/
def approval (amount : Int) : CBudgetVote :=
  { vin := { prevout := ⟨7, 0⟩ }, nProposalHash := BitVec.ofInt 256 (amount * coin)
    nVote := voteYes, nTime := 0, nTime_range := isInt64_zero }

/-- A proposal and the vote for it. -/
def supported (amount : Int) (fee : Uint256) : List BudgetInput :=
  [.message 0 (.mprop (proposal amount fee)), .message 0 (.mvote (approval amount))]

/-- Proposals come, and the only masternode votes for each. -/
def proposed (first second : Int × Uint256) : Option (BudgetWorld config) :=
  Runs.run BudgetWorld.step (BudgetWorld.start config (synced [{ prevout := ⟨7, 0⟩ }]))
    (supported first.1 first.2 ++ supported second.1 second.2)

end BudgetSample

namespace BudgetWorld

open BudgetSample

/-- Of two proposals the one that comes first in the order of votes is returned. -/
theorem getBudget_allots_two :
    ∃ world order, proposed (100, 1) (200, 2) = some world ∧ world.VoteOrder order ∧
      Allotment config world.view 100000 order ∧
      (world.view.getBudget config 100000 order).map CBudgetProposal.nAmount = [200 * coin] := by
  obtain ⟨world, reached, sorted, amounts⟩ : ∃ world, proposed (100, 1) (200, 2) = some world ∧
      ((world.cleanAndRemove.manager.proposals.mapItems.entries.map fun entry => entry.2).Pairwise
        fun first second => sortProposalsByVotes second first = false) ∧
      (world.view.getBudget config 100000 (world.cleanAndRemove.manager.proposals.mapItems.entries.map
        fun entry => entry.2)).map CBudgetProposal.nAmount = [200 * coin] :=
    ⟨_, rfl, by decide, by decide⟩
  exact ⟨world, _, reached, ⟨List.Perm.refl _, sorted⟩,
    getBudget_allots _ _ reached 100000 ⟨List.Perm.refl _, sorted⟩, amounts⟩

end BudgetWorld

end CentNode
