import CentNode.Masternode.Allotment
import Mathlib.Data.Prod.Lex

/-!
# Nodes that agree on the budget

Two nodes with the same proposals and votes sort them alike up to ties.  A tie
of votes and fee transaction matters when more than one of the proposals in it
can be taken.
-/

namespace CentNode

open List AList StdMap Option CBudgetVote

namespace CBudgetProposal

/-- The order of `sortProposalsByVotes`, as a rank. -/
def rank (proposal : CBudgetProposal) : Int ×ₗ Nat :=
  toLex (proposal.netVotes, proposal.nFeeTXHash.toNat)

theorem sortProposalsByVotes_eq_false_iff {first second : CBudgetProposal} :
    sortProposalsByVotes second first = false ↔ second.rank ≤ first.rank := by
  rw [sortProposalsByVotes, rank, rank, Prod.Lex.toLex_le_toLex]
  by_cases equal : second.netVotes = first.netVotes
  · simp [equal, BitVec.le_def]
  · simp only [ne_eq, equal, not_false_eq_true, if_true, decide_eq_false_iff_not, false_and,
      or_false]
    omega

/-- What `GetBudget` reads of an eligible proposal. -/
structure Candidate where
  hash : Uint256
  netVotes : Int
  nFeeTXHash : Uint256
  nAmount : Int
  deriving DecidableEq, Repr

def Candidate.rank (candidate : Candidate) : Int ×ₗ Nat :=
  toLex (candidate.netVotes, candidate.nFeeTXHash.toNat)

def candidate (config : BudgetConfig) (proposal : CBudgetProposal) : Candidate where
  hash := proposal.getHash config
  netVotes := proposal.netVotes
  nFeeTXHash := proposal.nFeeTXHash
  nAmount := proposal.nAmount

end CBudgetProposal

namespace BudgetWorld

variable {config : BudgetConfig}

/-- `mapProposals` with the votes cleaned, in the order of the map. -/
def cleanProposals (world : BudgetWorld config) : List CBudgetProposal :=
  world.cleanAndRemove.manager.proposals.mapItems.entries.map fun entry => entry.2

/-- The eligible proposals, ranked by votes and fee transaction. -/
def rankedProposals (world : BudgetWorld config) (now : Int) : List CBudgetProposal :=
  (Greedy.sortByRank CBudgetProposal.rank world.cleanProposals).filter
    (world.view.isEligible config now)

/-- Of different eligible proposals with the same votes and fee transaction at
most one fits into what those of higher ranks leave of the total. -/
def TiesClear (world : BudgetWorld config) (now : Int) : Prop :=
  Greedy.Clear CBudgetProposal.nAmount (world.view.nTotalBudget config) CBudgetProposal.rank 0
    (world.rankedProposals now)

variable {world other : BudgetWorld config} {now : Int} {order : List CBudgetProposal}

theorem voteOrder_iff :
    world.VoteOrder order ↔
      order.Perm world.cleanProposals ∧ Greedy.Ranked CBudgetProposal.rank order := by
  have same : (order.Pairwise fun first second =>
      CBudgetProposal.sortProposalsByVotes second first = false) ↔
        Greedy.Ranked CBudgetProposal.rank order := by
    simp only [CBudgetProposal.sortProposalsByVotes_eq_false_iff]
    exact Iff.rfl
  exact ⟨fun sorted => ⟨sorted.perm, same.mp sorted.sorted⟩,
    fun sorted => ⟨sorted.1, same.mpr sorted.2⟩⟩

theorem sortByRank_voteOrder (world : BudgetWorld config) :
    world.VoteOrder (Greedy.sortByRank CBudgetProposal.rank world.cleanProposals) :=
  voteOrder_iff.mpr ⟨Greedy.sortByRank_perm _, Greedy.sortByRank_ranked _⟩

end BudgetWorld

/-! ## The same proposals on two nodes -/

/-- The vote without the marks that each node keeps for itself. -/
def CBudgetVote.content (vote : CBudgetVote) : CBudgetVote :=
  { vote with fValid := true, fSynced := false }

namespace CBudgetProposal

structure SameProposal (first second : CBudgetProposal) : Prop where
  strProposalName : first.strProposalName = second.strProposalName
  strURL : first.strURL = second.strURL
  nBlockStart : first.nBlockStart = second.nBlockStart
  nBlockEnd : first.nBlockEnd = second.nBlockEnd
  nAmount : first.nAmount = second.nAmount
  address : first.address = second.address
  nTime : first.nTime = second.nTime
  nFeeTXHash : first.nFeeTXHash = second.nFeeTXHash
  votes : ∀ voter, (first.mapVotes.lookup voter).map CBudgetVote.content =
    (second.mapVotes.lookup voter).map CBudgetVote.content

theorem SameProposal.refl (proposal : CBudgetProposal) : SameProposal proposal proposal :=
  ⟨rfl, rfl, rfl, rfl, rfl, rfl, rfl, rfl, fun _ => rfl⟩

theorem SameProposal.symm {first second : CBudgetProposal} (same : SameProposal first second) :
    SameProposal second first :=
  ⟨same.1.symm, same.2.symm, same.3.symm, same.4.symm, same.5.symm, same.6.symm, same.7.symm,
    same.8.symm, fun voter => (same.votes voter).symm⟩

theorem countVotes_cleanAndRemove (view : BudgetView) (proposal : CBudgetProposal) (nVote : Int) :
    (proposal.cleanAndRemove view).countVotes nVote =
      (proposal.mapVotes.mapValues content).entries.countP fun entry =>
        entry.2.nVote = nVote && view.masternodeKnown entry.2.vin := by
  have entries_eq : (proposal.mapVotes.mapValues content).entries =
      proposal.mapVotes.entries.map (Sigma.map id fun _ => content) := rfl
  rw [countVotes, entries_eq, countP_map]
  exact countP_map

variable {first second : CBudgetProposal} {view other : BudgetView}

section

variable (same : SameProposal first second)
  (known : ∀ vin, view.masternodeKnown vin = other.masternodeKnown vin)

include same known

theorem SameProposal.countVotes (nVote : Int) :
    (first.cleanAndRemove view).countVotes nVote =
      (second.cleanAndRemove other).countVotes nVote := by
  have perm : (first.mapVotes.mapValues content).entries.Perm
      (second.mapVotes.mapValues content).entries := by
    refine lookup_ext (nodupKeys _) (nodupKeys _) fun voter vote => ?_
    have lookups : (first.mapVotes.mapValues content).lookup voter =
        (second.mapVotes.mapValues content).lookup voter := by
      rw [lookup_mapValues, lookup_mapValues]
      exact same.votes voter
    exact Eq.to_iff (congrArg (vote ∈ ·) lookups)
  rw [countVotes_cleanAndRemove, countVotes_cleanAndRemove, perm.countP_eq]
  simp only [known]

theorem SameProposal.netVotes :
    (first.cleanAndRemove view).netVotes = (second.cleanAndRemove other).netVotes := by
  rw [CBudgetProposal.netVotes, CBudgetProposal.netVotes, getYeas, getYeas, getNays, getNays,
    same.countVotes known, same.countVotes known]

end

theorem SameProposal.candidate (same : SameProposal first second) (config : BudgetConfig)
    (known : ∀ vin, view.masternodeKnown vin = other.masternodeKnown vin) :
    (first.cleanAndRemove view).candidate config =
      (second.cleanAndRemove other).candidate config := by
  have votes := same.netVotes known
  rw [CBudgetProposal.candidate, CBudgetProposal.candidate, votes, getHash, getHash]
  simp only [cleanAndRemove, same.strProposalName, same.strURL, same.nBlockStart, same.nBlockEnd,
    same.nAmount, same.address, same.nFeeTXHash]

end CBudgetProposal

open CBudgetProposal

namespace BudgetWorld

variable {config : BudgetConfig}

/-- The proposal under this hash, if it is valid. -/
def validProposal (world : BudgetWorld config) (hash : Uint256) : Option CBudgetProposal :=
  (world.manager.proposals.mapItems.lookup hash).filter CBudgetProposal.fValid

/-- Two nodes with the same tip, masternodes and valid proposals. -/
structure SameBudget (world other : BudgetWorld config) : Prop where
  tip : world.view.tip = other.view.tip
  masternodes : ∀ vin, world.view.masternodeKnown vin = other.view.masternodeKnown vin
  countEnabled : world.view.countEnabled = other.view.countEnabled
  proposals : ∀ hash, Option.Rel CBudgetProposal.SameProposal (world.validProposal hash)
    (other.validProposal hash)

variable {world other : BudgetWorld config} {now : Int} {order : List CBudgetProposal}

theorem SameBudget.symm (same : SameBudget world other) : SameBudget other world where
  tip := same.tip.symm
  masternodes := fun vin => (same.masternodes vin).symm
  countEnabled := same.countEnabled.symm
  proposals := fun hash => by
    have related := same.proposals hash
    generalize world.validProposal hash = one at related ⊢
    generalize other.validProposal hash = two at related ⊢
    cases related with
    | some alike => exact .some alike.symm
    | none => exact .none

theorem SameBudget.nTotalBudget (same : SameBudget world other) :
    world.view.nTotalBudget config = other.view.nTotalBudget config := by
  rw [BudgetView.nTotalBudget, BudgetView.nTotalBudget, BudgetView.height, BudgetView.height,
    same.tip]

theorem SameBudget.isEligible (same : SameBudget world other) {first second : CBudgetProposal}
    (alike : CBudgetProposal.SameProposal first second) (valid : first.fValid = true)
    (validToo : second.fValid = true) :
    world.view.isEligible config now (first.cleanAndRemove world.view) =
      other.view.isEligible config now (second.cleanAndRemove other.view) := by
  have votes := alike.netVotes same.masternodes
  rw [BudgetView.isEligible, BudgetView.isEligible, votes, BudgetView.height, BudgetView.height,
    same.tip, same.countEnabled]
  simp only [CBudgetProposal.cleanAndRemove, isEstablished, alike.nBlockStart,
    alike.nBlockEnd, alike.nTime, valid, validToo]

/-- What `GetBudget` chooses from. -/
def candidates (world : BudgetWorld config) (now : Int) : List CBudgetProposal.Candidate :=
  (world.cleanProposals.filter (world.view.isEligible config now)).map
    (CBudgetProposal.candidate config)

theorem mem_candidates {candidate : CBudgetProposal.Candidate} :
    candidate ∈ world.candidates now ↔
      ∃ hash proposal, world.validProposal hash = some proposal ∧
        world.view.isEligible config now (proposal.cleanAndRemove world.view) = true ∧
        (proposal.cleanAndRemove world.view).candidate config = candidate := by
  simp only [candidates, List.mem_map, mem_filter, cleanProposals]
  constructor
  · rintro ⟨proposal, ⟨⟨entry, inside, rfl⟩, eligible⟩, rfl⟩
    obtain ⟨old, found, clean⟩ := lookup_mapValues_eq_some.mp (mem_lookup_iff.mpr inside)
    rw [← clean] at eligible ⊢
    refine ⟨entry.1, old, ?_, eligible, rfl⟩
    have valid : old.fValid = true := (BudgetView.isEligible_iff.mp eligible).1
    rw [validProposal, found, filter_some, if_pos valid]
  · rintro ⟨hash, old, found, eligible, rfl⟩
    obtain ⟨stored, _⟩ := filter_eq_some_iff.mp found
    refine ⟨_, ⟨⟨⟨hash, old.cleanAndRemove world.view⟩, ?_, rfl⟩, eligible⟩, rfl⟩
    exact mem_lookup_iff.mp (lookup_mapValues_eq_some.mpr ⟨old, stored, rfl⟩)

theorem SameBudget.mem_candidates (same : SameBudget world other)
    {candidate : CBudgetProposal.Candidate} (member : candidate ∈ world.candidates now) :
    candidate ∈ other.candidates now := by
  obtain ⟨hash, proposal, found, eligible, rfl⟩ := BudgetWorld.mem_candidates.mp member
  have related := same.proposals hash
  rw [found] at related
  cases foundToo : other.validProposal hash with
  | none =>
    rw [foundToo] at related
    cases related
  | some twin =>
    rw [foundToo] at related
    cases related with
    | some alike =>
      have valid := (filter_eq_some_iff.mp found).2
      have validToo := (filter_eq_some_iff.mp foundToo).2
      refine BudgetWorld.mem_candidates.mpr ⟨hash, twin, foundToo, ?_, ?_⟩
      · rw [← same.isEligible alike valid validToo]
        exact eligible
      · exact (alike.candidate config same.masternodes).symm

theorem candidates_nodup (stored : world.ProposalsAdmitted) : (world.candidates now).Nodup := by
  have hashes := (sortByRank_voteOrder world).hashes stored
  rw [((Greedy.sortByRank_perm _).map _).nodup_iff] at hashes
  refine List.Nodup.of_map CBudgetProposal.Candidate.hash ?_
  rw [candidates, List.map_map]
  exact hashes.sublist (filter_sublist.map _)

theorem SameBudget.candidates_perm (same : SameBudget world other)
    (stored : world.ProposalsAdmitted) (storedToo : other.ProposalsAdmitted) :
    (world.candidates now).Perm (other.candidates now) :=
  (perm_ext_iff_of_nodup (candidates_nodup stored) (candidates_nodup storedToo)).mpr
    fun _ => ⟨same.mem_candidates, same.symm.mem_candidates⟩

theorem VoteOrder.candidates_perm (sorted : world.VoteOrder order) :
    ((order.filter (world.view.isEligible config now)).map
      (CBudgetProposal.candidate config)).Perm (world.candidates now) :=
  (sorted.perm.filter _).map _

theorem VoteOrder.candidates_ranked (sorted : world.VoteOrder order) :
    Greedy.Ranked CBudgetProposal.Candidate.rank
      ((order.filter (world.view.isEligible config now)).map
        (CBudgetProposal.candidate config)) := by
  refine pairwise_map.mpr ?_
  exact (voteOrder_iff.mp sorted).2.sublist filter_sublist

/-- The hashes that `GetBudget` returns depend on the candidates only. -/
theorem VoteOrder.hashes_getBudget (sorted : world.VoteOrder order)
    (stored : world.ProposalsAdmitted) :
    (world.view.getBudget config now order).map (getHash config) =
      (Greedy.take CBudgetProposal.Candidate.nAmount (world.view.nTotalBudget config) 0
        ((order.filter (world.view.isEligible config now)).map
          (CBudgetProposal.candidate config))).map CBudgetProposal.Candidate.hash := by
  rw [BudgetView.getBudget_eq world.view now (sorted.admitted stored), Greedy.take_map,
    List.map_map]
  rfl

theorem candidate_nonneg (stored : world.ProposalsAdmitted) :
    ∀ candidate ∈ world.candidates now, 0 ≤ candidate.nAmount := by
  intro candidate member
  obtain ⟨proposal, inside, rfl⟩ := List.mem_map.mp member
  have amountGe := ((sortByRank_voteOrder world).admitted stored proposal
    ((Greedy.sortByRank_perm _).mem_iff.mpr (mem_of_mem_filter inside))).amount_ge
  exact le_trans (by decide) amountGe

theorem TiesClear.take_eq (clear : world.TiesClear now) (stored : world.ProposalsAdmitted)
    {others : List CBudgetProposal.Candidate} (perm : others.Perm (world.candidates now))
    (ranked : Greedy.Ranked CBudgetProposal.Candidate.rank others) :
    Greedy.take CBudgetProposal.Candidate.nAmount (world.view.nTotalBudget config) 0
        ((world.rankedProposals now).map (CBudgetProposal.candidate config)) =
      Greedy.take CBudgetProposal.Candidate.nAmount (world.view.nTotalBudget config) 0 others := by
  have sorted := sortByRank_voteOrder world
  have whole : ((world.rankedProposals now).map (CBudgetProposal.candidate config)).Perm
      (world.candidates now) := sorted.candidates_perm
  have clearToo := Greedy.Clear.map CBudgetProposal.Candidate.nAmount
    CBudgetProposal.Candidate.rank (CBudgetProposal.candidate config) clear
  refine Greedy.take_eq_of_clear ?_ (whole.nodup_iff.mpr (candidates_nodup stored)) clearToo
    sorted.candidates_ranked ranked (whole.trans perm.symm)
  exact fun candidate member => candidate_nonneg stored candidate (whole.mem_iff.mp member)

/-- In some order the proposal is returned right after those of higher ranks. -/
theorem exists_order_returning (stored : world.ProposalsAdmitted) {proposal : CBudgetProposal}
    (member : proposal ∈ world.rankedProposals now)
    (fits : proposal.nAmount + (0 + Greedy.cost nAmount
      (Greedy.take nAmount (world.view.nTotalBudget config) 0
        (Greedy.above rank (world.rankedProposals now) proposal))) ≤
          world.view.nTotalBudget config) :
    ∃ order later, world.VoteOrder order ∧
      world.view.getBudget config now order =
        Greedy.take nAmount (world.view.nTotalBudget config) 0
          (Greedy.above rank (world.rankedProposals now) proposal) ++
            proposal :: later := by
  obtain ⟨inside, eligible⟩ := mem_filter.mp member
  obtain ⟨rest, perm, ranked⟩ := Greedy.exists_order (Greedy.sortByRank_ranked _) inside
  have order := voteOrder_iff.mpr ⟨perm.trans (Greedy.sortByRank_perm _), ranked⟩
  have above_eq : (Greedy.above rank
      (Greedy.sortByRank rank world.cleanProposals) proposal).filter
        (world.view.isEligible config now) =
      Greedy.above rank (world.rankedProposals now) proposal := by
    rw [Greedy.above, Greedy.above, rankedProposals, List.filter_filter, List.filter_filter]
    exact filter_congr fun other _ => Bool.and_comm _ _
  have returned := BudgetView.getBudget_eq world.view now (order.admitted stored)
  rw [filter_append, filter_cons_of_pos eligible, above_eq, Greedy.take_append,
    Greedy.take_cons_of_fits fits] at returned
  exact ⟨_, _, order, returned⟩

/-- In all states of two nodes that hold the same valid proposals and votes,
`GetBudget` returns the same proposals in the same order, whatever the sorts
do, exactly if the ties are clear. -/
theorem getBudget_agrees_iff (view viewToo : BudgetView) (inputs inputsToo : List BudgetInput)
    (reached : Runs.run step (start config view) inputs = some world)
    (reachedToo : Runs.run step (start config viewToo) inputsToo = some other)
    (same : SameBudget world other) (now : Int) :
    (∀ order orderToo, world.VoteOrder order → other.VoteOrder orderToo →
      (world.view.getBudget config now order).map (CBudgetProposal.getHash config) =
        (other.view.getBudget config now orderToo).map (CBudgetProposal.getHash config)) ↔
      world.TiesClear now := by
  have stored := admitted_of_reached reached
  have storedToo := admitted_of_reached reachedToo
  constructor
  · intro agree first member second memberToo differ equal
    rintro ⟨fits, fitsToo⟩
    -- each of the two can be returned first, so that their hashes agree
    have above_eq : Greedy.above rank (world.rankedProposals now) first =
        Greedy.above rank (world.rankedProposals now) second := by
      rw [Greedy.above, Greedy.above, equal]
    obtain ⟨one, later, sorted, returned⟩ := exists_order_returning stored member fits
    rw [above_eq] at fitsToo
    obtain ⟨two, laterToo, sortedToo, returnedToo⟩ :=
      exists_order_returning stored memberToo fitsToo
    have reference := sortByRank_voteOrder other
    have alike := (agree one _ sorted reference).trans (agree two _ sortedToo reference).symm
    rw [returned, returnedToo, above_eq, map_append, map_append, append_cancel_left_eq,
      map_cons, map_cons, List.cons.injEq] at alike
    have hashes := (sortByRank_voteOrder world).hashes stored
    exact differ (inj_on_of_nodup_map hashes (mem_of_mem_filter member)
      (mem_of_mem_filter memberToo) alike.1)
  · intro clear order orderToo sorted sortedToo
    rw [sorted.hashes_getBudget stored, sortedToo.hashes_getBudget storedToo, ← same.nTotalBudget,
      ← clear.take_eq stored sorted.candidates_perm sorted.candidates_ranked,
      ← clear.take_eq stored
        (sortedToo.candidates_perm.trans (same.candidates_perm stored storedToo).symm)
        sortedToo.candidates_ranked]

end BudgetWorld

namespace BudgetWorld

open BudgetSample

/-- Two nodes receive two proposals in different orders. -/
theorem getBudget_agrees_two :
    ∃ world other, proposed (100, 1) (200, 2) = some world ∧
      proposed (200, 2) (100, 1) = some other ∧
      ∀ order orderToo, world.VoteOrder order → other.VoteOrder orderToo →
        (world.view.getBudget config 100000 order).map (CBudgetProposal.getHash config) =
          (other.view.getBudget config 100000 orderToo).map (CBudgetProposal.getHash config) := by
  obtain ⟨world, other, reached, reachedToo, sameView, entries, ranks⟩ :
      ∃ world other : BudgetWorld config, proposed (100, 1) (200, 2) = some world ∧
        proposed (200, 2) (100, 1) = some other ∧ world.view = other.view ∧
        world.manager.proposals.mapItems.entries.Perm other.manager.proposals.mapItems.entries ∧
        ((world.rankedProposals 100000).map rank).Nodup :=
    ⟨_, _, rfl, rfl, rfl, List.Perm.swap _ _ _, by decide⟩
  have same : SameBudget world other := by
    refine ⟨by rw [sameView], fun vin => by rw [sameView], by rw [sameView], fun hash => ?_⟩
    rw [validProposal, validProposal, perm_lookup entries]
    cases (other.manager.proposals.mapItems.lookup hash).filter CBudgetProposal.fValid with
    | none => exact .none
    | some proposal => exact .some (CBudgetProposal.SameProposal.refl proposal)
  exact ⟨world, other, reached, reachedToo,
    (getBudget_agrees_iff _ _ _ _ reached reachedToo same 100000).mpr
      (Greedy.clear_of_ranks ranks 0)⟩

/-- Two proposals with one fee transaction and one vote each: both orders are sorted. -/
theorem getBudget_disagrees :
    ∃ world order orderToo, proposed (100, 1) (150, 1) = some world ∧ world.VoteOrder order ∧
      world.VoteOrder orderToo ∧
      (world.view.getBudget config 100000 order).map (CBudgetProposal.getHash config) ≠
        (world.view.getBudget config 100000 orderToo).map (CBudgetProposal.getHash config) := by
  obtain ⟨world, reached, sorted, reversed, differ⟩ :
      ∃ world : BudgetWorld config, proposed (100, 1) (150, 1) = some world ∧
        (world.cleanProposals.Pairwise fun first second =>
          sortProposalsByVotes second first = false) ∧
        (world.cleanProposals.reverse.Pairwise fun first second =>
          sortProposalsByVotes second first = false) ∧
        (world.view.getBudget config 100000 world.cleanProposals).map
            (getHash config) ≠
          (world.view.getBudget config 100000 world.cleanProposals.reverse).map
            (getHash config) :=
    ⟨_, rfl, by decide, by decide, by decide⟩
  exact ⟨world, _, _, reached, ⟨List.Perm.refl _, sorted⟩,
    ⟨reverse_perm _, reversed⟩, differ⟩

end BudgetWorld

end CentNode
