import CentNode.Library.GapRegister
import CentNode.Masternode.VoteOrder

/-!
# Budget votes in any order

`AddOrUpdateVote` refuses a vote that is less than an hour newer than the one
it holds of the masternode, so that the vote that is kept can depend on the
order in which the votes come.
-/

namespace CentNode

open List AList Prod GapRegister

namespace BallotRules

variable {Item Vote : Type} (rules : BallotRules Item Vote)

/-- `AddOrUpdateVote` for votes one after the other, each at the time it is received. -/
def addVotes (mapVotes : StdMap Uint256 Vote) (arrivals : List (Vote × Int)) :
    StdMap Uint256 Vote :=
  arrivals.foldl
    (fun current arrival => (rules.addOrUpdateVote arrival.2 current arrival.1).getD current)
    mapVotes

/-- The votes in some order, none of them from the future when it is received. -/
structure Arrivals (votes : List Vote) (arrivals : List (Vote × Int)) : Prop where
  each : (arrivals.map Prod.fst).Perm votes
  past : ∀ arrival ∈ arrivals, rules.nTime arrival.1 ≤ arrival.2

/-- The newest vote of its masternode. -/
def Newest (votes : List Vote) (vote : Vote) : Prop :=
  vote ∈ votes ∧ ∀ other ∈ votes, rules.voter other = rules.voter vote →
    rules.nTime other ≤ rules.nTime vote

def newerOf (held : Option Vote) (vote : Vote) : Option Vote :=
  match held with
  | none => some vote
  | some old => if rules.nTime old < rules.nTime vote then some vote else some old

/-- Any two orders lead to the same votes, hence to the same counts, and the
vote that is kept of each masternode is the newest one. -/
def Converges (mapVotes : StdMap Uint256 Vote) (votes : List Vote) : Prop :=
  (∀ first second, rules.Arrivals votes first → rules.Arrivals votes second →
    (rules.addVotes mapVotes first).entries.Perm (rules.addVotes mapVotes second).entries) ∧
  ∀ arrivals, rules.Arrivals votes arrivals → ∀ vote, rules.Newest votes vote →
    (rules.addVotes mapVotes arrivals).lookup (rules.voter vote) =
      rules.newerOf (mapVotes.lookup (rules.voter vote)) vote

/-- The vote is at least an hour newer than the other, and by less than an `int64_t` holds. -/
def HourLater (old vote : Vote) : Prop :=
  rules.nTime old + budgetVoteUpdateMin ≤ rules.nTime vote ∧
    rules.nTime vote - rules.nTime old < 2 ^ 63

instance : DecidableRel rules.HourLater := fun _ _ => inferInstanceAs (Decidable (_ ∧ _))

/-- The vote is an hour later than the one that is held. -/
def HourAfter (held : Option Vote) (vote : Vote) : Prop :=
  GapRegister.Eligible rules.HourLater held vote

/-- The newest vote of each masternode, where it is newer than the one that is
held already, is an hour later than that one, and than every other vote that is
itself an hour later than the one held. -/
def HourApart (mapVotes : StdMap Uint256 Vote) (votes : List Vote) : Prop :=
  ∀ vote, rules.Newest votes vote →
    (∀ old ∈ mapVotes.lookup (rules.voter vote), rules.nTime old < rules.nTime vote) →
      rules.HourAfter (mapVotes.lookup (rules.voter vote)) vote ∧
        ∀ other ∈ votes, rules.voter other = rules.voter vote → other ≠ vote →
          rules.HourAfter (mapVotes.lookup (rules.voter vote)) other → rules.HourLater other vote

/-! ## The votes of one masternode -/

variable {rules}

variable {mapVotes : StdMap Uint256 Vote}

theorem not_hourLater_of_le {old vote : Vote} (early : rules.nTime vote ≤ rules.nTime old) :
    ¬ rules.HourLater old vote := by
  intro later
  have gap := later.1
  rw [budgetVoteUpdateMin] at gap
  omega

theorem tooSoon_iff {vote : Vote} :
    rules.tooSoon mapVotes vote = true ↔
      ¬ rules.HourAfter (mapVotes.lookup (rules.voter vote)) vote := by
  rw [tooSoon, HourAfter]
  cases mapVotes.lookup (rules.voter vote) with
  | none => simp [eligible_none]
  | some old =>
    obtain ⟨oldLow, oldHigh⟩ := rules.nTime_range old
    obtain ⟨low, high⟩ := rules.nTime_range vote
    rw [eligible_some, HourLater, budgetVoteUpdateMin]
    simp only [Bool.or_eq_true, decide_eq_true_eq]
    -- from `2 ^ 63` on, the difference of two times is negative as an `int64_t`
    unfold toInt64
    omega

theorem lookup_addOrUpdateVote {now : Int} {vote : Vote} (past : rules.nTime vote ≤ now)
    (hash : Uint256) :
    ((rules.addOrUpdateVote now mapVotes vote).getD mapVotes).lookup hash =
      if rules.voter vote = hash then
        accept rules.HourLater (mapVotes.lookup hash) vote
      else mapVotes.lookup hash := by
  have timely : rules.timely now vote = true := by
    rw [timely, decide_eq_true_eq]
    omega
  rw [addOrUpdateVote, timely]
  by_cases same : rules.voter vote = hash
  · subst same
    rw [if_pos (rfl : rules.voter vote = rules.voter vote)]
    by_cases soon : rules.tooSoon mapVotes vote = true
    · rw [if_pos soon, accept_of_not_eligible (tooSoon_iff.mp soon)]
      rfl
    · rw [if_neg soon, accept_of_eligible (not_not.mp (mt tooSoon_iff.mpr soon))]
      exact lookup_insert _
  · rw [if_neg same]
    split
    · rfl
    · exact lookup_insert_ne (Ne.symm same)

variable {arrivals : List (Vote × Int)}

theorem lookup_addVotes (past : ∀ arrival ∈ arrivals, rules.nTime arrival.1 ≤ arrival.2)
    (hash : Uint256) :
    (rules.addVotes mapVotes arrivals).lookup hash =
      acceptAll rules.HourLater (mapVotes.lookup hash)
        ((arrivals.map Prod.fst).filter fun vote => rules.voter vote = hash) := by
  induction arrivals generalizing mapVotes with
  | nil => rfl
  | cons arrival rest ih =>
    rw [addVotes, foldl_cons]
    have later := @ih ((rules.addOrUpdateVote arrival.2 mapVotes arrival.1).getD mapVotes)
      fun other member => past other (mem_cons_of_mem arrival member)
    rw [addVotes] at later
    rw [later, lookup_addOrUpdateVote (past arrival mem_cons_self), map_cons]
    by_cases same : rules.voter arrival.1 = hash
    · rw [if_pos same, filter_cons_of_pos (by simpa using same)]
      rfl
    · rw [if_neg same, filter_cons_of_neg (by simpa using same)]

variable {votes : List Vote}

theorem exists_newest {vote : Vote} (member : vote ∈ votes) :
    ∃ newest, rules.Newest votes newest ∧ rules.voter newest = rules.voter vote := by
  have inside : vote ∈ votes.filter fun other => rules.voter other = rules.voter vote :=
    mem_filter.mpr ⟨member, by simp⟩
  obtain ⟨newest, newestInside, latest⟩ := exists_latest rules.nTime inside
  obtain ⟨newestMember, sameVoter⟩ := mem_filter.mp newestInside
  replace sameVoter : rules.voter newest = rules.voter vote := by simpa using sameVoter
  refine ⟨newest, ⟨newestMember, fun other otherMember otherVoter => ?_⟩, sameVoter⟩
  refine latest other (mem_filter.mpr ⟨otherMember, ?_⟩)
  simpa using otherVoter.trans sameVoter

theorem Arrivals.mem_iff (arrived : rules.Arrivals votes arrivals) {hash : Uint256} {vote : Vote} :
    vote ∈ ((arrivals.map Prod.fst).filter fun other => rules.voter other = hash) ↔
      vote ∈ votes ∧ rules.voter vote = hash := by
  rw [mem_filter, arrived.each.mem_iff, decide_eq_true_eq]

theorem lookup_of_stale (arrived : rules.Arrivals votes arrivals) {hash : Uint256}
    (early : ∀ vote ∈ votes, rules.voter vote = hash →
      ¬ rules.HourAfter (mapVotes.lookup hash) vote) :
    (rules.addVotes mapVotes arrivals).lookup hash = mapVotes.lookup hash := by
  rw [lookup_addVotes arrived.past]
  refine acceptAll_of_early fun vote member => ?_
  obtain ⟨inside, sameVoter⟩ := arrived.mem_iff.mp member
  exact early vote inside sameVoter

/-- What the condition makes of the votes of one masternode. -/
theorem lookup_of_hourApart (apart : rules.HourApart mapVotes votes)
    (arrived : rules.Arrivals votes arrivals) {vote : Vote} (newest : rules.Newest votes vote) :
    (rules.addVotes mapVotes arrivals).lookup (rules.voter vote) =
      rules.newerOf (mapVotes.lookup (rules.voter vote)) vote := by
  by_cases newer : ∀ old ∈ mapVotes.lookup (rules.voter vote), rules.nTime old < rules.nTime vote
  · obtain ⟨after, others⟩ := apart vote newest newer
    have kept : rules.newerOf (mapVotes.lookup (rules.voter vote)) vote = some vote := by
      cases held : mapVotes.lookup (rules.voter vote) with
      | none => rfl
      | some old => exact if_pos (newer old held)
    rw [kept, lookup_addVotes arrived.past]
    have bound : ∀ other ∈ (arrivals.map Prod.fst).filter fun other =>
        rules.voter other = rules.voter vote, rules.nTime other ≤ rules.nTime vote := by
      intro other member
      obtain ⟨inside, sameVoter⟩ := arrived.mem_iff.mp member
      exact newest.2 other inside sameVoter
    refine acceptAll_eq_latest (arrived.mem_iff.mpr ⟨newest.1, rfl⟩) after
      (fun other member => not_hourLater_of_le (bound other member)) ?_ ?_
    · intro old value other member last first second
      have before := bound other member
      have fits := last.2
      have hour := first.1
      have hourToo := second.1
      rw [budgetVoteUpdateMin] at hour hourToo
      refine ⟨?_, ?_⟩
      · rw [budgetVoteUpdateMin]
        omega
      · omega
    · intro other member differs possible
      obtain ⟨inside, sameVoter⟩ := arrived.mem_iff.mp member
      exact others other inside sameVoter differs possible
  · obtain ⟨old, held, late⟩ : ∃ old, mapVotes.lookup (rules.voter vote) = some old ∧
        rules.nTime vote ≤ rules.nTime old := by
      simpa using newer
    have kept : rules.newerOf (mapVotes.lookup (rules.voter vote)) vote =
        mapVotes.lookup (rules.voter vote) := by
      rw [held]
      exact if_neg (by omega)
    rw [kept]
    refine lookup_of_stale arrived fun other inside sameVoter => ?_
    rw [held]
    exact mt eligible_some.mp
      (not_hourLater_of_le (Int.le_trans (newest.2 other inside sameVoter) late))

/-- An order in which a vote is not the one that is kept: after the votes in front it comes too
soon, and it does not come again. -/
theorem exists_arrivals_ne [DecidableEq Vote] {front rest : List Vote}
    (split : (front ++ rest).Perm votes) {vote : Vote} {held : Option Vote}
    (taken : acceptAll rules.HourLater (mapVotes.lookup (rules.voter vote))
      (front.filter fun other => rules.voter other = rules.voter vote) = held)
    (blocked : ¬ rules.HourAfter held vote) (other : held ≠ some vote) :
    ∃ arrivals, rules.Arrivals votes arrivals ∧
      (rules.addVotes mapVotes arrivals).lookup (rules.voter vote) ≠ some vote := by
  have arrived : rules.Arrivals votes
      ((front ++ (rest.filter (fun copy => copy = vote) ++
        rest.filter fun copy => !decide (copy = vote))).map fun other =>
          (other, rules.nTime other)) := by
    refine ⟨?_, fun arrival inside => ?_⟩
    · rw [List.map_map]
      have identity : (fst ∘ fun other : Vote => (other, rules.nTime other)) = id := rfl
      rw [identity, List.map_id]
      exact ((filter_append_perm _ rest).append_left front).trans split
    · obtain ⟨other, _, rfl⟩ := mem_map.mp inside
      exact le_rfl
  refine ⟨_, arrived, ?_⟩
  rw [lookup_addVotes arrived.past, List.map_map]
  have identity : (fst ∘ fun other : Vote => (other, rules.nTime other)) = id := rfl
  rw [identity, List.map_id, filter_append, filter_append, acceptAll_append, taken]
  refine acceptAll_ne_of_blocked blocked other (fun copy member => ?_) fun member => ?_
  · simpa using (mem_filter.mp (mem_filter.mp member).1).2
  · simpa using (mem_filter.mp (mem_filter.mp member).1).2

/-- All orders lead to the newest votes exactly if these keep an hour's distance. -/
theorem converges_iff [DecidableEq Vote] (mapVotes : StdMap Uint256 Vote) (votes : List Vote) :
    rules.Converges mapVotes votes ↔ rules.HourApart mapVotes votes := by
  constructor
  · rintro ⟨_, keepsNewest⟩ vote newest newer
    have kept : rules.newerOf (mapVotes.lookup (rules.voter vote)) vote = some vote := by
      cases held : mapVotes.lookup (rules.voter vote) with
      | none => rfl
      | some old => exact if_pos (newer old held)
    refine ⟨?_, fun other member sameVoter differs after => ?_⟩
    · -- otherwise the vote would be refused if it came first
      by_contra early
      obtain ⟨arrivals, arrived, lost⟩ := exists_arrivals_ne (Perm.refl ([] ++ votes)) rfl early
        fun held => lt_irrefl _ (newer vote held)
      exact lost ((keepsNewest arrivals arrived vote newest).trans kept)
    · -- otherwise the vote would be refused if it came second, after the other one
      by_contra soon
      have taken : acceptAll rules.HourLater (mapVotes.lookup (rules.voter vote))
          ([other].filter fun first => rules.voter first = rules.voter vote) = some other := by
        rw [filter_cons_of_pos (by simpa using sameVoter)]
        exact accept_of_eligible after
      obtain ⟨arrivals, arrived, lost⟩ := exists_arrivals_ne (perm_cons_erase member).symm taken
        (mt eligible_some.mp soon) fun same => differs (Option.some.inj same)
      exact lost ((keepsNewest arrivals arrived vote newest).trans kept)
  · intro apart
    refine ⟨fun first second firstArrived secondArrived => ?_,
      fun arrivals arrived vote newest => lookup_of_hourApart apart arrived newest⟩
    refine lookup_ext (nodupKeys _) (nodupKeys _) fun hash vote => ?_
    -- the masternode has a newest vote, or no vote at all
    have same : (rules.addVotes mapVotes first).lookup hash =
        (rules.addVotes mapVotes second).lookup hash := by
      by_cases voted : ∃ other ∈ votes, rules.voter other = hash
      · obtain ⟨other, member, rfl⟩ := voted
        obtain ⟨newest, isNewest, sameVoter⟩ :
            ∃ newest, rules.Newest votes newest ∧ rules.voter newest = rules.voter other :=
          exists_newest member
        rw [← sameVoter, lookup_of_hourApart apart firstArrived isNewest,
          lookup_of_hourApart apart secondArrived isNewest]
      · have unvoted : ∀ other ∈ votes, rules.voter other = hash →
            ¬ rules.HourAfter (mapVotes.lookup hash) other := fun other member sameVoter =>
          absurd ⟨other, member, sameVoter⟩ voted
        rw [lookup_of_stale firstArrived unvoted, lookup_of_stale secondArrived unvoted]
    exact Eq.to_iff (congrArg (vote ∈ ·) same)

end BallotRules

/-! ## Proposals and finalized budgets -/

def voteYes : Int := 1

def voteNo : Int := 2

namespace CBudgetProposal

/-- The valid votes of one kind. -/
def countVotes (proposal : CBudgetProposal) (nVote : Int) : Nat :=
  proposal.mapVotes.entries.countP fun entry => entry.2.nVote = nVote && entry.2.fValid

def getYeas (proposal : CBudgetProposal) : Nat := proposal.countVotes voteYes

def getNays (proposal : CBudgetProposal) : Nat := proposal.countVotes voteNo

/-- The proposal after votes were received. -/
def withArrivals (proposal : CBudgetProposal) (node : BudgetNode)
    (arrivals : List (CBudgetVote × Int)) : CBudgetProposal :=
  { proposal with mapVotes := node.proposalRules.addVotes proposal.mapVotes arrivals }

end CBudgetProposal

/-- The votes that a proposal or a finalized budget keeps, and the yeas and
nays that are counted, do not depend on the order in which votes come, and are
the newest ones, exactly if the newest votes keep an hour's distance. -/
theorem BudgetNode.votes_converge_iff (node : BudgetNode) :
    (∀ (proposal : CBudgetProposal) (votes : List CBudgetVote),
      (node.proposalRules.Converges proposal.mapVotes votes ↔
        node.proposalRules.HourApart proposal.mapVotes votes) ∧
      (node.proposalRules.HourApart proposal.mapVotes votes →
        ∀ first second, node.proposalRules.Arrivals votes first →
          node.proposalRules.Arrivals votes second →
            (proposal.withArrivals node first).getYeas = (proposal.withArrivals node second).getYeas ∧
            (proposal.withArrivals node first).getNays =
              (proposal.withArrivals node second).getNays)) ∧
    ∀ (budget : CFinalizedBudget) (votes : List CFinalizedBudgetVote),
      node.budgetRules.Converges budget.mapVotes votes ↔
        node.budgetRules.HourApart budget.mapVotes votes := by
  refine ⟨fun proposal votes => ⟨BallotRules.converges_iff _ _, ?_⟩,
    fun budget votes => BallotRules.converges_iff _ _⟩
  intro apart first second firstArrived secondArrived
  have same := ((BallotRules.converges_iff _ _).mpr apart).1 first second firstArrived secondArrived
  exact ⟨same.countP_eq _, same.countP_eq _⟩

namespace HastyVotes

/-- A vote of masternode 1, received when it was cast. -/
def vote (nVote nTime : Int) (nTime_range : IsInt64 nTime := by decide) :
    CBudgetVote × Int :=
  ({ vin := { prevout := ⟨1, 0⟩ }, nProposalHash := 7, nVote := nVote, nTime := nTime,
     nTime_range := nTime_range }, nTime)

/-- A yea, and a nay of the same masternode less than an hour later. -/
def inOrder : List (CBudgetVote × Int) := [vote voteYes 1000 isInt64_thousand, vote voteNo 2000]

def reversed : List (CBudgetVote × Int) := [vote voteNo 2000, vote voteYes 1000 isInt64_thousand]

end HastyVotes

/-- Two hours between two votes of a masternode are enough. -/
theorem votes_converge_two_hours :
    EarlyVotes.node.proposalRules.Converges EarlyVotes.proposal.mapVotes
        [(HastyVotes.vote voteYes 1000).1, (HastyVotes.vote voteNo 8200).1] ∧
      EarlyVotes.node.budgetRules.Converges EarlyVotes.budget.mapVotes
        [(EarlyVotes.budgetVote 1).1, (EarlyVotes.budgetVote 2).1] := by
  have apart : EarlyVotes.node.proposalRules.HourApart EarlyVotes.proposal.mapVotes
      [(HastyVotes.vote voteYes 1000).1, (HastyVotes.vote voteNo 8200).1] := by
    rintro vote ⟨member, newest⟩ _
    refine ⟨fun old impossible => (nomatch impossible), fun other inside _ differs _ => ?_⟩
    rcases mem_pair.mp member with rfl | rfl
    · exact absurd (newest (HastyVotes.vote voteNo 8200).1 (by decide) rfl) (by decide)
    · rcases mem_pair.mp inside with rfl | rfl
      · decide
      · exact absurd rfl differs
  have apartToo : EarlyVotes.node.budgetRules.HourApart EarlyVotes.budget.mapVotes
      [(EarlyVotes.budgetVote 1).1, (EarlyVotes.budgetVote 2).1] := by
    rintro vote ⟨member, _⟩ _
    refine ⟨fun old impossible => (nomatch impossible),
      fun other inside sameVoter differs _ => ?_⟩
    rcases mem_pair.mp member with rfl | rfl <;> rcases mem_pair.mp inside with rfl | rfl
    · exact absurd rfl differs
    · exact absurd sameVoter (by decide)
    · exact absurd sameVoter (by decide)
    · exact absurd rfl differs
  exact ⟨((EarlyVotes.node.votes_converge_iff).1 _ _).1.mpr apart,
    ((EarlyVotes.node.votes_converge_iff).2 _ _).mpr apartToo⟩

/-- A masternode that changes its mind within the hour is counted as a yea by
one node and as a nay by another. -/
theorem hasty_votes_diverge :
    EarlyVotes.node.proposalRules.Arrivals (HastyVotes.inOrder.map Prod.fst) HastyVotes.inOrder ∧
      EarlyVotes.node.proposalRules.Arrivals (HastyVotes.inOrder.map Prod.fst) HastyVotes.reversed ∧
      (EarlyVotes.proposal.withArrivals EarlyVotes.node HastyVotes.inOrder).getYeas = 1 ∧
      (EarlyVotes.proposal.withArrivals EarlyVotes.node HastyVotes.reversed).getYeas = 0 ∧
      ¬ EarlyVotes.node.proposalRules.Converges EarlyVotes.proposal.mapVotes
        (HastyVotes.inOrder.map Prod.fst) := by
  have inOrder : EarlyVotes.node.proposalRules.Arrivals (HastyVotes.inOrder.map fst)
      HastyVotes.inOrder := ⟨List.Perm.refl _, by decide⟩
  have reversed : EarlyVotes.node.proposalRules.Arrivals (HastyVotes.inOrder.map fst)
      HastyVotes.reversed := ⟨List.Perm.swap _ _ [], by decide⟩
  refine ⟨inOrder, reversed, by decide, by decide, fun converges => ?_⟩
  have same := (converges.1 _ _ inOrder reversed).countP_eq
    fun entry => entry.2.nVote = voteYes && entry.2.fValid
  exact absurd same (by decide)

end CentNode
