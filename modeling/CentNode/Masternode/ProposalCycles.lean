import CentNode.Masternode.Allotment
import Mathlib.Data.Int.Interval
import Mathlib.Data.Set.Card
import Mathlib.Tactic.Ring

/-!
# The payments of a proposal

A proposal is built for a number of payments, and is paid in the cycles that
its range of blocks covers.
-/

namespace CentNode

theorem toInt32_le_sub {value : Int} (high : 2 ^ 31 ≤ value) : toInt32 value ≤ value - 2 ^ 32 := by
  unfold toInt32
  omega

namespace CBudgetProposal

/-- The constructor of `CBudgetProposalBroadcast`. -/
def makeBroadcast (params : CChainParams) (strProposalName strURL : String) (nPaymentCount : Int)
    (address : CScript) (nAmount nBlockStart : Int) (nFeeTXHash : Uint256) : CBudgetProposal where
  strProposalName := strProposalName
  strURL := strURL
  nBlockStart := nBlockStart
  nBlockEnd :=
    let nCycleStart := nBlockStart - nBlockStart.tmod (getBudgetPaymentCycleBlocks params)
    toInt32 (nCycleStart + (getBudgetPaymentCycleBlocks params + 1) * nPaymentCount)
  nAmount := nAmount
  address := address
  nFeeTXHash := nFeeTXHash

variable (params : CChainParams) (proposal : CBudgetProposal)

/-- The test of `GetBudget` on the range of blocks, for the cycle that starts at a block. -/
def coversCycle (cycleStart : Int) : Prop :=
  proposal.nBlockStart ≤ cycleStart ∧
    cycleStart + getBudgetPaymentCycleBlocks params - 1 ≤ proposal.nBlockEnd

def paidCycles : Set Int :=
  {cycleStart | getBudgetPaymentCycleBlocks params ∣ cycleStart ∧
    proposal.coversCycle params cycleStart}

end CBudgetProposal

theorem getBudgetPaymentCycleBlocks_pos (params : CChainParams) :
    0 < getBudgetPaymentCycleBlocks params := by
  unfold getBudgetPaymentCycleBlocks
  split <;> decide

theorem dvd_nextCycleStart (params : CChainParams) (height : Int) :
    getBudgetPaymentCycleBlocks params ∣ nextCycleStart params height :=
  Int.dvd_add Int.dvd_self_sub_emod (dvd_refl _)

/-- `GetBudget` asks for the cycle after the one of the tip. -/
theorem BudgetView.isEligible_iff_coversCycle (config : BudgetConfig) (view : BudgetView)
    (now : Int) (proposal : CBudgetProposal) :
    view.isEligible config now proposal = true ↔
      proposal.fValid = true ∧
        nextCycleStart config.params view.height ∈ proposal.paidCycles config.params ∧
        proposal.netVotes > view.countEnabled / 10 ∧ proposal.isEstablished config now = true := by
  have aligned := dvd_nextCycleStart config.params view.height
  unfold isEligible CBudgetProposal.paidCycles CBudgetProposal.coversCycle nextCycleEnd
  simp only [Bool.and_eq_true, decide_eq_true_eq, and_assoc, Set.mem_ofPred_eq, aligned, true_and]

namespace CBudgetProposal

variable {params : CChainParams} {proposal : CBudgetProposal}

theorem ncard_paidCycles {first : Int}
    (aligned : proposal.nBlockStart = getBudgetPaymentCycleBlocks params * first) :
    (proposal.paidCycles params).ncard =
      ((proposal.nBlockEnd + 1) / getBudgetPaymentCycleBlocks params - first).toNat := by
  have positive := getBudgetPaymentCycleBlocks_pos params
  have numbered : proposal.paidCycles params =
      (getBudgetPaymentCycleBlocks params * ·) ''
        Set.Ico first ((proposal.nBlockEnd + 1) / getBudgetPaymentCycleBlocks params) := by
    ext cycleStart
    constructor
    · rintro ⟨⟨place, rfl⟩, starts, ends⟩
      rw [aligned] at starts
      refine ⟨place, ⟨le_of_mul_le_mul_left starts positive, ?_⟩, rfl⟩
      rw [← Int.add_one_le_iff, Int.le_ediv_iff_mul_le positive, add_mul, mul_comm place]
      omega
    · rintro ⟨place, ⟨starts, ends⟩, rfl⟩
      rw [← Int.add_one_le_iff, Int.le_ediv_iff_mul_le positive, add_mul, mul_comm place] at ends
      refine ⟨dvd_mul_right _ _, ?_, ?_⟩
      · rw [aligned]
        exact Int.mul_le_mul_of_nonneg_left starts (le_of_lt positive)
      · dsimp only
        omega
  rw [numbered, Set.ncard_image_of_injective _ (mul_right_injective₀ (ne_of_gt positive)),
    Set.ncard_eq_toFinset_card', Set.toFinset_Ico, Int.card_Ico]

/-! ## Asked and paid -/

section Asked

variable {strProposalName strURL : String} {nPaymentCount : Int} {address : CScript}
  {nAmount nBlockStart : Int} {nFeeTXHash : Uint256}

section

variable {first : Int} (aligned : nBlockStart = getBudgetPaymentCycleBlocks params * first)

include aligned

theorem nBlockEnd_makeBroadcast :
    (makeBroadcast params strProposalName strURL nPaymentCount address nAmount nBlockStart
      nFeeTXHash).nBlockEnd =
        toInt32 (nBlockStart + (getBudgetPaymentCycleBlocks params + 1) * nPaymentCount) := by
  unfold makeBroadcast
  rw [aligned, Int.mul_tmod_right, Int.sub_zero]

theorem ncard_paidCycles_makeBroadcast
    (fits : toInt32 (nBlockStart + (getBudgetPaymentCycleBlocks params + 1) * nPaymentCount) =
      nBlockStart + (getBudgetPaymentCycleBlocks params + 1) * nPaymentCount) :
    ((makeBroadcast params strProposalName strURL nPaymentCount address nAmount nBlockStart
      nFeeTXHash).paidCycles params).ncard =
        (nPaymentCount + (nPaymentCount + 1) / getBudgetPaymentCycleBlocks params).toNat := by
  have nonzero := ne_of_gt (getBudgetPaymentCycleBlocks_pos params)
  have reordered : nBlockStart + (getBudgetPaymentCycleBlocks params + 1) * nPaymentCount + 1 =
      nPaymentCount + 1 + getBudgetPaymentCycleBlocks params * (first + nPaymentCount) := by
    rw [aligned]
    ring
  rw [ncard_paidCycles aligned, nBlockEnd_makeBroadcast aligned, fits, reordered,
    Int.add_mul_ediv_left _ _ nonzero]
  congr 1
  omega

end

theorem getTotalPaymentCount_makeBroadcast {config : BudgetConfig} {first : Int}
    (asked : 0 ≤ nPaymentCount)
    (aligned : nBlockStart = getBudgetPaymentCycleBlocks config.params * first)
    (fits : toInt32 (nBlockStart + (getBudgetPaymentCycleBlocks config.params + 1) * nPaymentCount) =
      nBlockStart + (getBudgetPaymentCycleBlocks config.params + 1) * nPaymentCount) :
    (makeBroadcast config.params strProposalName strURL nPaymentCount address nAmount nBlockStart
      nFeeTXHash).getTotalPaymentCount config =
        nPaymentCount + nPaymentCount / getBudgetPaymentCycleBlocks config.params := by
  have positive := getBudgetPaymentCycleBlocks_pos config.params
  have cycleStart : (makeBroadcast config.params strProposalName strURL nPaymentCount address
      nAmount nBlockStart nFeeTXHash).getBlockStartCycle config = nBlockStart := by
    unfold getBlockStartCycle makeBroadcast
    rw [aligned, Int.mul_tmod_right, Int.sub_zero]
  have reordered : nBlockStart + (getBudgetPaymentCycleBlocks config.params + 1) * nPaymentCount -
      nBlockStart = nPaymentCount + getBudgetPaymentCycleBlocks config.params * nPaymentCount := by
    ring
  have nonneg : 0 ≤ nPaymentCount + getBudgetPaymentCycleBlocks config.params * nPaymentCount :=
    Int.add_nonneg asked (Int.mul_nonneg (le_of_lt positive) asked)
  rw [getTotalPaymentCount, cycleStart, getBlockEndCycle, nBlockEnd_makeBroadcast aligned, fits,
    reordered, Int.tdiv_eq_ediv_of_nonneg nonneg, Int.add_mul_ediv_left _ _ (ne_of_gt positive)]
  exact Int.add_comm _ _

theorem ncard_paidCycles_of_overflow {first : Int} (asked : 1 ≤ nPaymentCount)
    (askedFits : nPaymentCount < 2 ^ 31)
    (aligned : nBlockStart = getBudgetPaymentCycleBlocks params * first)
    (large : 2 ^ 31 ≤ nBlockStart + (getBudgetPaymentCycleBlocks params + 1) * nPaymentCount) :
    (((makeBroadcast params strProposalName strURL nPaymentCount address nAmount nBlockStart
      nFeeTXHash).paidCycles params).ncard : Int) < nPaymentCount := by
  have positive := getBudgetPaymentCycleBlocks_pos params
  have wrapped := toInt32_le_sub large
  have below : (toInt32 (nBlockStart + (getBudgetPaymentCycleBlocks params + 1) * nPaymentCount) +
      1) / getBudgetPaymentCycleBlocks params < first + nPaymentCount := by
    rw [Int.ediv_lt_iff_lt_mul positive, add_mul first, mul_comm first, ← aligned,
      mul_comm nPaymentCount]
    rw [add_mul, one_mul] at wrapped ⊢
    omega
  rw [ncard_paidCycles aligned, nBlockEnd_makeBroadcast aligned]
  omega

/-- A proposal is paid as often as it asks for exactly if it asks for fewer
payments than a cycle has blocks less one, and its end does not wrap. -/
theorem paid_as_asked_iff (config : BudgetConfig) (asked : 1 ≤ nPaymentCount)
    (askedFits : nPaymentCount < 2 ^ 31) (startFits : -2 ^ 31 ≤ nBlockStart)
    (aligned : getBudgetPaymentCycleBlocks config.params ∣ nBlockStart) :
    ((makeBroadcast config.params strProposalName strURL nPaymentCount address nAmount nBlockStart
        nFeeTXHash).getTotalPaymentCount config = nPaymentCount ∧
      (((makeBroadcast config.params strProposalName strURL nPaymentCount address nAmount
        nBlockStart nFeeTXHash).paidCycles config.params).ncard : Int) = nPaymentCount) ↔
    nPaymentCount + 1 < getBudgetPaymentCycleBlocks config.params ∧
      nBlockStart + (getBudgetPaymentCycleBlocks config.params + 1) * nPaymentCount < 2 ^ 31 := by
  have positive := getBudgetPaymentCycleBlocks_pos config.params
  obtain ⟨first, start_eq⟩ := aligned
  by_cases large : nBlockStart + (getBudgetPaymentCycleBlocks config.params + 1) * nPaymentCount <
      2 ^ 31
  · have added : 0 ≤ (getBudgetPaymentCycleBlocks config.params + 1) * nPaymentCount :=
      Int.mul_nonneg (by omega) (by omega)
    have fits := toInt32_of_range (by omega) large
    have extra : 0 ≤ (nPaymentCount + 1) / getBudgetPaymentCycleBlocks config.params :=
      Int.ediv_nonneg (by omega) (le_of_lt positive)
    rw [getTotalPaymentCount_makeBroadcast (by omega) start_eq fits,
      ncard_paidCycles_makeBroadcast start_eq fits, Int.toNat_of_nonneg (by omega)]
    constructor
    · rintro ⟨_, paid⟩
      have none : (nPaymentCount + 1) / getBudgetPaymentCycleBlocks config.params < 1 := by omega
      rw [Int.ediv_lt_iff_lt_mul positive, one_mul] at none
      exact ⟨none, large⟩
    · rintro ⟨few, _⟩
      rw [Int.ediv_eq_zero_of_lt (by omega) few, Int.ediv_eq_zero_of_lt (by omega) (by omega)]
      omega
  · refine iff_of_false ?_ fun both => large both.2
    rintro ⟨_, paid⟩
    have less := @ncard_paidCycles_of_overflow config.params strProposalName strURL nPaymentCount
      address nAmount nBlockStart nFeeTXHash first asked askedFits start_eq (by omega)
    omega

theorem paid_as_asked_main :
    (makeBroadcast mainParams "road" "" 12 [0x51] coin 86400 1).getTotalPaymentCount
        BudgetSample.config = 12 ∧
      (((makeBroadcast mainParams "road" "" 12 [0x51] coin 86400 1).paidCycles
        mainParams).ncard : Int) = 12 :=
  (paid_as_asked_iff BudgetSample.config (by decide) (by decide) (by decide) (by decide)).mpr
    (by decide)

/-- A proposal for 43199 payments is paid 43200 times. -/
theorem paid_once_more :
    ¬ ((makeBroadcast mainParams "road" "" 43199 [0x51] coin 86400 1).getTotalPaymentCount
        BudgetSample.config = 43199 ∧
      (((makeBroadcast mainParams "road" "" 43199 [0x51] coin 86400 1).paidCycles
        mainParams).ncard : Int) = 43199) := by
  rintro ⟨_, paid⟩
  have counted := @ncard_paidCycles_makeBroadcast mainParams "road" "" 43199 [0x51] coin 86400 1 2
    (by decide) (by decide)
  rw [counted] at paid
  revert paid
  decide

end Asked

end CBudgetProposal

end CentNode
