import CentNode.Masternode.BudgetRuns
import Mathlib.Algebra.Order.BigOperators.Group.List

/-!
# Payouts within the treasury

A finalized budget is compared with `GetTotalBudget` by a sum in an `int64_t`
over amounts that a peer has chosen.
-/

namespace CentNode

namespace CFinalizedBudget

variable {params : CChainParams} {tipKnown : Bool} {budget : CFinalizedBudget}

/-- Every payment is between zero and `GetTotalBudget`, and all together are
not above it. -/
structure InTreasury (params : CChainParams) (tipKnown : Bool) (budget : CFinalizedBudget) :
    Prop where
  amounts : ∀ payment ∈ budget.vecBudgetPayments,
    0 ≤ payment.nAmount ∧ payment.nAmount ≤ getTotalBudget params tipKnown budget.nBlockStart
  sum : budget.exactPayout ≤ getTotalBudget params tipKnown budget.nBlockStart

theorem exactPayout_nonneg (positive : ∀ payment ∈ budget.vecBudgetPayments, 0 ≤ payment.nAmount) :
    0 ≤ budget.exactPayout := by
  refine List.sum_nonneg fun amount member => ?_
  obtain ⟨payment, inside, rfl⟩ := List.mem_map.mp member
  exact positive payment inside

theorem amount_le_exactPayout
    (positive : ∀ payment ∈ budget.vecBudgetPayments, 0 ≤ payment.nAmount)
    {payment : CTxBudgetPayment} (member : payment ∈ budget.vecBudgetPayments) :
    payment.nAmount ≤ budget.exactPayout := by
  refine List.single_le_sum (fun amount inside => ?_) _ (List.mem_map_of_mem member)
  obtain ⟨other, paid, rfl⟩ := List.mem_map.mp inside
  exact positive other paid

theorem inTreasury_iff
    (bounded : budget.getTotalPayout ≤ getTotalBudget params tipKnown budget.nBlockStart) :
    budget.InTreasury params tipKnown ↔
      (∀ payment ∈ budget.vecBudgetPayments, 0 ≤ payment.nAmount) ∧
        budget.exactPayout < 2 ^ 63 := by
  obtain ⟨_, small⟩ := getTotalBudget_bounds params tipKnown budget.nBlockStart
  constructor
  · intro within
    refine ⟨fun payment member => (within.amounts payment member).1, ?_⟩
    exact lt_of_le_of_lt within.sum (lt_trans small (by decide))
  · rintro ⟨positive, fits⟩
    have low : -2 ^ 63 ≤ budget.exactPayout := le_trans (by decide) (exactPayout_nonneg positive)
    rw [getTotalPayout_eq, toInt64_of_range low fits] at bounded
    refine ⟨fun payment member => ⟨positive payment member, ?_⟩, bounded⟩
    exact (amount_le_exactPayout positive member).trans bounded

theorem getTotalPayout_le_of_isValid {config : BudgetConfig} {view : BudgetView}
    (valid : budget.isValid config view true = none) :
    budget.getTotalPayout ≤ getTotalBudget config.params view.tip.isSome budget.nBlockStart := by
  have checks := firstError_eq_none.mp valid
  have passed := checks
    (decide (budget.getTotalPayout > getTotalBudget config.params view.tip.isSome budget.nBlockStart),
      _)
    (List.mem_of_getElem? (i := 6) rfl)
  exact Int.not_lt.mp (of_decide_eq_false passed)

end CFinalizedBudget

theorem getTotalBudget_mono (params : CChainParams) {before after : Bool}
    (kept : (before && !after) = false) (nHeight : Int) :
    getTotalBudget params before nHeight ≤ getTotalBudget params after nHeight := by
  cases before with
  | false => exact (getTotalBudget_bounds params after nHeight).1
  | true =>
    cases after with
    | false => cases kept
    | true => exact le_rfl

namespace BudgetWorld

variable {config : BudgetConfig}

/-- Every stored budget passed the comparison with the treasury. -/
def PayoutsChecked (world : BudgetWorld config) : Prop :=
  world.manager.budgets.All fun _ budget =>
    budget.getTotalPayout ≤ getTotalBudget config.params world.view.tip.isSome budget.nBlockStart

theorem step_payoutsChecked {world next : BudgetWorld config} {input : BudgetInput}
    (checked : world.PayoutsChecked) (stepped : world.step input = some next) :
    next.PayoutsChecked := by
  refine step_budgets (fun view _ budget => budget.getTotalPayout ≤
    getTotalBudget config.params view.tip.isSome budget.nBlockStart) ?_ ?_ ?_ checked stepped
  · exact fun view hash budget votes bounded => bounded
  · exact fun view budget valid => CFinalizedBudget.getTotalPayout_le_of_isValid valid
  · intro view after hash budget kept bounded
    refine bounded.trans (getTotalBudget_mono config.params ?_ budget.nBlockStart)
    rw [Option.not_isSome]
    exact kept

/-- In every state of every run, a stored finalized budget is in the treasury
exactly if its amounts are not negative and their sum fits an `int64_t`. -/
theorem stored_in_treasury_iff (view : BudgetView) (inputs : List BudgetInput)
    {world : BudgetWorld config} (reached : Runs.run step (start config view) inputs = some world)
    {hash : Uint256} {budget : CFinalizedBudget}
    (stored : world.manager.budgets.mapItems.lookup hash = some budget) :
    budget.InTreasury config.params world.view.tip.isSome ↔
      (∀ payment ∈ budget.vecBudgetPayments, 0 ≤ payment.nAmount) ∧
        budget.exactPayout < 2 ^ 63 := by
  have begins : (start config view).PayoutsChecked := by
    intro hash budget impossible
    cases impossible
  have along : Runs.Throughout step PayoutsChecked (start config view) inputs :=
    Runs.throughout_of_kept (fun world checked => checked)
      (fun world input next checked _ stepped => step_payoutsChecked checked stepped)
      begins (Runs.Meets.trivial step _ inputs)
  exact CFinalizedBudget.inTreasury_iff (along.final reached hash budget stored)

end BudgetWorld

namespace BudgetSample

/-- Hashes that are enough to tell the items of the samples apart. -/
def config : BudgetConfig where
  params := mainParams
  outPointHash := fun out => out.hash
  proposalHash := fun _ _ _ _ nAmount _ => BitVec.ofInt 256 nAmount
  proposalVoteHash := fun vote => vote.vin.prevout.hash + vote.nProposalHash
  budgetHash := fun _ _ payments => BitVec.ofNat 256 payments.length
  budgetVoteHash := fun vote => vote.vin.prevout.hash

/-- A synced node that finds every fee transaction in order. -/
def synced (masternodes : List CTxIn) : BudgetView where
  tip := some 100000
  masternodes := masternodes
  countEnabled := masternodes.length
  isSynced := true
  collateralError := fun _ _ => none
  collateralTime := fun _ => none
  proposalVoteSigned := fun _ => true
  budgetVoteSigned := fun _ => true

/-- A finalized budget for the block 129600. -/
def budget (amounts : List Int) : CFinalizedBudget where
  strBudgetName := "main"
  nBlockStart := 129600
  vecBudgetPayments := amounts.map fun nAmount => { payee := [0x51], nAmount := nAmount }
  nFeeTXHash := 1

/-- The node after the budget has come. -/
def suggested (amounts : List Int) : Option (BudgetWorld config) :=
  Runs.run BudgetWorld.step (BudgetWorld.start config (synced [])) [.message 0 (.fbs (budget amounts))]

end BudgetSample

namespace BudgetWorld

open BudgetSample

theorem stored_in_treasury_two :
    ∃ world, suggested [5, 10] = some world ∧
      world.manager.budgets.mapItems.lookup 2 = some (budget [5, 10]).received ∧
      (budget [5, 10]).received.InTreasury config.params world.view.tip.isSome := by
  obtain ⟨world, reached, stored⟩ : ∃ world, suggested [5, 10] = some world ∧
      world.manager.budgets.mapItems.lookup 2 = some (budget [5, 10]).received := ⟨_, rfl, rfl⟩
  refine ⟨world, reached, stored, (stored_in_treasury_iff _ _ reached stored).mpr ?_⟩
  decide

/-- A negative amount, or two amounts whose sum wraps, and the budget is stored
all the same. -/
theorem stored_beyond_treasury :
    (∃ world, suggested [-5, 10] = some world ∧
      world.manager.budgets.mapItems.lookup 2 = some (budget [-5, 10]).received ∧
      ¬ (budget [-5, 10]).received.InTreasury config.params world.view.tip.isSome) ∧
    ∃ world, suggested [2 ^ 63 - 1, 2 ^ 63 - 1] = some world ∧
      world.manager.budgets.mapItems.lookup 2 = some (budget [2 ^ 63 - 1, 2 ^ 63 - 1]).received ∧
      ¬ (budget [2 ^ 63 - 1, 2 ^ 63 - 1]).received.InTreasury config.params
        world.view.tip.isSome := by
  refine ⟨⟨_, rfl, rfl, ?_⟩, ⟨_, rfl, rfl, ?_⟩⟩
  · intro within
    exact absurd (within.amounts _ List.mem_cons_self).1 (by decide)
  · intro within
    exact absurd within.sum (by decide)

end BudgetWorld

end CentNode
