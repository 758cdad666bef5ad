import CentNode.Library.Runs
import CentNode.Masternode.Payments

/-!
# One payment vote for each masternode and height

`CanVote` remembers, for each masternode, the height of its last vote only.  A
masternode that votes for another height in between can vote for the first one
again, with another payee and so under another hash.
-/

namespace CentNode

open List StdMap Option

namespace CMasternodePayments

/-- What reaches the payments: a message `mnw` from a peer, or a call of
`CleanPaymentList`, each with the node as it is at that time. -/
inductive Event where
  | winner (view : MasternodeView) (peerVersion : Int) (vote : CMasternodePaymentWinner)
  | clean (view : MasternodeView)

variable (hashOf : CScript → Int → COutPoint → Uint256)

def step (payments : CMasternodePayments) : Event → Option CMasternodePayments
  | .winner view peerVersion vote => some (payments.processWinner hashOf view peerVersion vote)
  | .clean view => some (payments.cleanPaymentList view)

def HasVote (payments : CMasternodePayments) (outMasternode : COutPoint) (nBlockHeight : Int) :
    Prop :=
  ∃ hash winner, payments.mapMasternodePayeeVotes.lookup hash = some winner ∧
    winner.nBlockHeight = nBlockHeight ∧ winner.vinMasternode.prevout = outMasternode

/-- At most one stored vote for each height and masternode. -/
def OneVoteEach (payments : CMasternodePayments) : Prop :=
  ∀ hash winner other second, payments.mapMasternodePayeeVotes.lookup hash = some winner →
    payments.mapMasternodePayeeVotes.lookup other = some second →
      winner.nBlockHeight = second.nBlockHeight →
        winner.vinMasternode.prevout = second.vinMasternode.prevout → hash = other

def storedVotes (payments : CMasternodePayments) (nBlockHeight : Int) (script : CScript) : Nat :=
  payments.mapMasternodePayeeVotes.entries.countP fun entry =>
    entry.2.nBlockHeight = nBlockHeight && entry.2.payee = script

def tally (payments : CMasternodePayments) (nBlockHeight : Int) (script : CScript) : Int :=
  (payments.blockPayees nBlockHeight).votesFor script

/-- Each stored vote is counted once, and nothing else is counted. -/
def TallyExact (payments : CMasternodePayments) : Prop :=
  ∀ nBlockHeight script, payments.tally nBlockHeight script = payments.storedVotes nBlockHeight script

/-- The message passes every check of a vote but `CanVote`. -/
def countable (payments : CMasternodePayments) (view : MasternodeView) (peerVersion : Int)
    (vote : CMasternodePaymentWinner) : Bool :=
  view.isBlockchainSynced && !view.fLiteMode && decide (view.activeProtocol ≤ peerVersion) &&
    (view.tipHeight.any (vote.inRange view)) && vote.isValid view && vote.signatureValid view &&
      (view.getBlockHash (vote.nBlockHeight - 100)).isSome &&
        (payments.mapMasternodePayeeVotes.lookup (vote.getHash hashOf)).isNone

/-- A countable vote of a masternode that has a vote stored for that height
comes while this height is still the last one the masternode voted for. -/
def VoteRemembered (payments : CMasternodePayments) : Event → Prop
  | .winner view peerVersion vote =>
    payments.countable hashOf view peerVersion vote = true →
      payments.HasVote vote.vinMasternode.prevout vote.nBlockHeight →
        payments.mapMasternodesLastVote.lookup vote.vinMasternode.prevout.voteKey =
          some vote.nBlockHeight
  | .clean _ => True

/-! ## What one message does -/

/-- The vote is countable and `CanVote` lets it pass. -/
def Adds (payments : CMasternodePayments) (view : MasternodeView) (peerVersion : Int)
    (vote : CMasternodePaymentWinner) : Prop :=
  payments.countable hashOf view peerVersion vote = true ∧
    payments.mapMasternodesLastVote.lookup vote.vinMasternode.prevout.voteKey ≠
      some vote.nBlockHeight

variable {payments : CMasternodePayments}

theorem new_of_countable {view : MasternodeView} {peerVersion : Int}
    {vote : CMasternodePaymentWinner}
    (counted : payments.countable hashOf view peerVersion vote = true) :
    payments.mapMasternodePayeeVotes.lookup (vote.getHash hashOf) = none := by
  have new := (Bool.and_eq_true _ _).mp counted |>.2
  exact isNone_iff_eq_none.mp new

/-- The stored and the counted votes are those of another state. -/
def SameVotes (left right : CMasternodePayments) : Prop :=
  left.mapMasternodePayeeVotes = right.mapMasternodePayeeVotes ∧
    left.mapMasternodeBlocks = right.mapMasternodeBlocks

/-- A message leaves the votes alone, or adds its own vote to them. -/
theorem processWinner_cases (payments : CMasternodePayments) (view : MasternodeView)
    (peerVersion : Int) (vote : CMasternodePaymentWinner) :
    (¬ payments.Adds hashOf view peerVersion vote ∧
        (payments.processWinner hashOf view peerVersion vote).SameVotes payments) ∨
      (payments.Adds hashOf view peerVersion vote ∧
        (payments.processWinner hashOf view peerVersion vote).SameVotes
          (payments.storeWinner hashOf vote)) := by
  -- a failed check other than `CanVote` makes the vote not countable
  have left : payments.countable hashOf view peerVersion vote = false →
      ¬ payments.Adds hashOf view peerVersion vote := by
    rintro uncounted ⟨counted, _⟩
    rw [uncounted] at counted
    cases counted
  unfold processWinner
  split
  case isTrue skipped =>
    refine Or.inl ⟨left ?_, rfl, rfl⟩
    rcases (Bool.or_eq_true _ _).mp skipped with unsynced | lite
    · simp_all [countable]
    · simp_all [countable]
  case isFalse awake =>
  split
  case isTrue outdated =>
    refine Or.inl ⟨left ?_, rfl, rfl⟩
    simp [countable, Int.not_le.mpr outdated]
  case isFalse current =>
  split
  case h_1 noTip => exact Or.inl ⟨left (by simp [countable, noTip]), rfl, rfl⟩
  case h_2 nHeight tip =>
  split
  case isTrue seen =>
    refine Or.inl ⟨left ?_, rfl, rfl⟩
    rw [countable, ← not_isSome, seen]
    simp
  case isFalse unseen =>
  split
  case isTrue far => exact Or.inl ⟨left (by simp_all [countable]), rfl, rfl⟩
  case isFalse near =>
  split
  case isTrue invalid => exact Or.inl ⟨left (by simp_all [countable]), rfl, rfl⟩
  case isFalse valid =>
  rw [canVote]
  split
  case isTrue last =>
    refine Or.inl ⟨fun adds => adds.2 last, ?_⟩
    exact ⟨rfl, rfl⟩
  case isFalse passes =>
  simp only [Bool.not_true, Bool.false_eq_true, if_false]
  split
  case isTrue unsigned => exact Or.inl ⟨left (by simp_all [countable]), rfl, rfl⟩
  case isFalse signed =>
  rw [addWinningMasternode]
  split
  case isTrue unknown =>
    refine Or.inl ⟨left ?_, rfl, rfl⟩
    simp_all [countable]
  case isFalse known =>
  refine Or.inr ⟨⟨?_, passes⟩, rfl, rfl⟩
  have hashed : (view.getBlockHash (vote.nBlockHeight - 100)).isSome = true := by
    rw [isSome_iff_ne_none]
    simpa using known
  simp_all [countable]

section SameVotes

variable {payments other : CMasternodePayments}

theorem SameVotes.oneVoteEach (same : payments.SameVotes other) :
    payments.OneVoteEach ↔ other.OneVoteEach := by
  unfold OneVoteEach
  rw [same.1]

theorem SameVotes.tallyExact (same : payments.SameVotes other) :
    payments.TallyExact ↔ other.TallyExact := by
  unfold TallyExact tally blockPayees storedVotes
  rw [same.1, same.2]

end SameVotes

/-! ## Storing a vote -/

section Store

variable {hashOf} {payments : CMasternodePayments} {vote : CMasternodePaymentWinner}

theorem lookup_storeWinner (hash : Uint256) :
    (payments.storeWinner hashOf vote).mapMasternodePayeeVotes.lookup hash =
      if hash = vote.getHash hashOf then some vote
      else payments.mapMasternodePayeeVotes.lookup hash :=
  lookup_insert_ite _ _ _ _

/-- A new vote is the only one of its masternode for its height exactly if the
masternode had none. -/
theorem storeWinner_oneVoteEach (each : payments.OneVoteEach)
    (new : payments.mapMasternodePayeeVotes.lookup (vote.getHash hashOf) = none) :
    (payments.storeWinner hashOf vote).OneVoteEach ↔
      ¬ payments.HasVote vote.vinMasternode.prevout vote.nBlockHeight := by
  constructor
  · rintro eachAfter ⟨hash, winner, stored, height_eq, prevout_eq⟩
    have differs : hash ≠ vote.getHash hashOf := by
      rintro rfl
      rw [new] at stored
      cases stored
    have kept : (payments.storeWinner hashOf vote).mapMasternodePayeeVotes.lookup hash =
        some winner := by
      rw [lookup_storeWinner, if_neg differs]
      exact stored
    have added : (payments.storeWinner hashOf vote).mapMasternodePayeeVotes.lookup
        (vote.getHash hashOf) = some vote := by
      rw [lookup_storeWinner, if_pos rfl]
    exact differs (eachAfter hash winner _ vote kept added height_eq prevout_eq)
  · intro hasNone hash winner other second found foundToo heights prevouts
    rw [lookup_storeWinner] at found foundToo
    split at found
    case isTrue same =>
      cases found
      split at foundToo
      case isTrue sameToo => rw [same, sameToo]
      case isFalse => exact absurd ⟨other, second, foundToo, heights.symm, prevouts.symm⟩ hasNone
    case isFalse =>
      split at foundToo
      case isTrue =>
        cases foundToo
        exact absurd ⟨hash, winner, found, heights, prevouts⟩ hasNone
      case isFalse => exact each hash winner other second found foundToo heights prevouts

theorem votesFor_addPayee (payees : CMasternodeBlockPayees) (payeeIn script : CScript)
    (nIncrement : Int) :
    (payees.addPayee payeeIn nIncrement).votesFor script =
      payees.votesFor script + if payeeIn = script then nIncrement else 0 := by
  obtain ⟨nBlockHeight, vecPayments⟩ := payees
  simp only [CMasternodeBlockPayees.votesFor, CMasternodeBlockPayees.addPayee]
  induction vecPayments with
  | nil =>
    by_cases same : payeeIn = script
    · simp [addPayment, same]
    · simp [addPayment, same]
  | cons payee rest ih =>
    rw [addPayment]
    by_cases here : payee.scriptPubKey = payeeIn
    · rw [if_pos here]
      by_cases same : payeeIn = script
      · simp [here, same]
        omega
      · simp [here, same]
    · rw [if_neg here]
      by_cases counted : payee.scriptPubKey = script
      · simp only [counted, filter_cons, decide_true, if_true, map_cons,
          sum_cons, ih]
        omega
      · simpa [filter_cons, counted] using ih

theorem blockPayees_storeWinner (nBlockHeight : Int) :
    (payments.storeWinner hashOf vote).blockPayees nBlockHeight =
      if nBlockHeight = vote.nBlockHeight then
        (payments.blockPayees vote.nBlockHeight).addPayee vote.payee 1
      else payments.blockPayees nBlockHeight := by
  have found := lookup_insert_ite vote.nBlockHeight nBlockHeight
    ((payments.blockPayees vote.nBlockHeight).addPayee vote.payee 1) payments.mapMasternodeBlocks
  rw [blockPayees, storeWinner, found]
  split
  · rfl
  · rfl

theorem tally_storeWinner (nBlockHeight : Int) (script : CScript) :
    (payments.storeWinner hashOf vote).tally nBlockHeight script =
      payments.tally nBlockHeight script +
        if vote.nBlockHeight = nBlockHeight ∧ vote.payee = script then 1 else 0 := by
  rw [tally, blockPayees_storeWinner]
  by_cases same : nBlockHeight = vote.nBlockHeight
  · subst same
    rw [if_pos rfl, votesFor_addPayee, tally]
    simp
  · rw [if_neg same, if_neg fun both => same both.1.symm, tally, add_zero]

theorem storedVotes_storeWinner
    (new : payments.mapMasternodePayeeVotes.lookup (vote.getHash hashOf) = none)
    (nBlockHeight : Int) (script : CScript) :
    (payments.storeWinner hashOf vote).storedVotes nBlockHeight script =
      payments.storedVotes nBlockHeight script +
        if vote.nBlockHeight = nBlockHeight ∧ vote.payee = script then 1 else 0 := by
  have entries_eq : (payments.storeWinner hashOf vote).mapMasternodePayeeVotes.entries =
      ⟨vote.getHash hashOf, vote⟩ :: payments.mapMasternodePayeeVotes.entries :=
    AList.entries_insert_of_notMem (AList.lookup_eq_none.mp new)
  rw [storedVotes, entries_eq, countP_cons, storedVotes]
  simp

theorem storeWinner_tallyExact (exact : payments.TallyExact)
    (new : payments.mapMasternodePayeeVotes.lookup (vote.getHash hashOf) = none) :
    (payments.storeWinner hashOf vote).TallyExact := by
  intro nBlockHeight script
  rw [tally_storeWinner, storedVotes_storeWinner new, exact nBlockHeight script]
  split
  · simp
  · simp

end Store

/-! ## Cleaning -/

theorem cleanPaymentList_oneVoteEach (each : payments.OneVoteEach) (view : MasternodeView) :
    (payments.cleanPaymentList view).OneVoteEach := by
  rw [cleanPaymentList]
  split
  · exact each
  · intro hash winner other second found foundToo
    exact each hash winner other second (lookup_keep_eq_some.mp found).1
      (lookup_keep_eq_some.mp foundToo).1

theorem tooOld_congr (view : MasternodeView) (nHeight : Int) {left right : CMasternodePaymentWinner}
    (heights : left.nBlockHeight = right.nBlockHeight) :
    tooOld view nHeight left = tooOld view nHeight right := by
  unfold tooOld
  rw [heights]

/-- The votes of one height are removed together, and their count with them. -/
theorem cleanPaymentList_tallyExact (exact : payments.TallyExact) (view : MasternodeView) :
    (payments.cleanPaymentList view).TallyExact := by
  rw [cleanPaymentList]
  split
  case h_1 => exact exact
  case h_2 nHeight tip =>
  intro nBlockHeight script
  have before := exact nBlockHeight script
  have counted := countP_filter
    (p := fun entry : Sigma fun _ : Uint256 => CMasternodePaymentWinner =>
      entry.2.nBlockHeight = nBlockHeight && entry.2.payee = script)
    (q := fun entry => !tooOld view nHeight entry.2)
    (l := payments.mapMasternodePayeeVotes.entries)
  rw [storedVotes, keep, counted, tally, blockPayees, lookup_eraseAll]
  by_cases removed : ∃ entry ∈ payments.mapMasternodePayeeVotes.entries,
      tooOld view nHeight entry.2 = true ∧ entry.2.nBlockHeight = nBlockHeight
  · obtain ⟨gone, member, old, height_eq⟩ := removed
    have listed : nBlockHeight ∈ (payments.mapMasternodePayeeVotes.entries.filter fun entry =>
        tooOld view nHeight entry.2).map fun entry => entry.2.nBlockHeight :=
      List.mem_map.mpr ⟨gone, mem_filter.mpr ⟨member, old⟩, height_eq⟩
    rw [if_pos listed, countP_eq_zero.mpr]
    · rfl
    · intro entry _ kept
      simp only [Bool.and_eq_true, decide_eq_true_eq, Bool.not_eq_true'] at kept
      rw [tooOld_congr view nHeight (kept.1.1.trans height_eq.symm), old] at kept
      cases kept.2
  · have unlisted : nBlockHeight ∉ (payments.mapMasternodePayeeVotes.entries.filter fun entry =>
        tooOld view nHeight entry.2).map fun entry => entry.2.nBlockHeight := by
      intro listed
      obtain ⟨gone, inside, height_eq⟩ := List.mem_map.mp listed
      obtain ⟨member, old⟩ := mem_filter.mp inside
      exact removed ⟨gone, member, old, height_eq⟩
    rw [if_neg unlisted]
    refine before.trans ?_
    rw [storedVotes]
    congr 1
    refine countP_congr fun entry member => ?_
    simp only [Bool.and_eq_true, decide_eq_true_eq, Bool.not_eq_true', iff_self_and, and_imp]
    intro height_eq _
    cases old : tooOld view nHeight entry.2 with
    | false => rfl
    | true => exact absurd ⟨entry, member, old, height_eq⟩ removed

/-! ## Whole runs -/

variable {next : CMasternodePayments}

theorem step_tallyExact {event : Event} (exact : payments.TallyExact)
    (stepped : payments.step hashOf event = some next) : next.TallyExact := by
  cases event with
  | clean view =>
    cases stepped
    exact cleanPaymentList_tallyExact exact view
  | winner view peerVersion vote =>
    cases stepped
    rcases payments.processWinner_cases hashOf view peerVersion vote with
      ⟨_, same⟩ | ⟨adds, same⟩
    · exact same.tallyExact.mpr exact
    · exact same.tallyExact.mpr (storeWinner_tallyExact exact (new_of_countable hashOf adds.1))

theorem step_oneVoteEach_iff {event : Event} (each : payments.OneVoteEach)
    (stepped : payments.step hashOf event = some next) :
    next.OneVoteEach ↔ payments.VoteRemembered hashOf event := by
  cases event with
  | clean view =>
    cases stepped
    exact iff_of_true (cleanPaymentList_oneVoteEach each view) trivial
  | winner view peerVersion vote =>
    cases stepped
    rcases payments.processWinner_cases hashOf view peerVersion vote with
      ⟨adds, same⟩ | ⟨adds, same⟩
    · refine iff_of_true (same.oneVoteEach.mpr each) fun counted _ => ?_
      by_contra forgotten
      exact adds ⟨counted, forgotten⟩
    · rw [same.oneVoteEach, storeWinner_oneVoteEach each (new_of_countable hashOf adds.1)]
      constructor
      · exact fun hasNone _ hasVote => absurd hasVote hasNone
      · exact fun remembered hasVote => adds.2 (remembered adds.1 hasVote)

/-- In every state that messages and cleanings lead to, each stored vote is
counted once; and every masternode has at most one vote for each height in all
of them exactly if no masternode's last vote was forgotten. -/
theorem one_payment_vote_throughout_iff (events : List Event) :
    Runs.Throughout (step hashOf) TallyExact empty events ∧
      (Runs.Throughout (step hashOf) OneVoteEach empty events ↔
        Runs.Meets (step hashOf) (VoteRemembered hashOf) empty events) := by
  have trivially := Runs.Meets.trivial (step hashOf) empty events
  constructor
  · refine Runs.throughout_of_kept (fun _ => id)
      (fun payments event next exact _ stepped => step_tallyExact hashOf exact stepped) ?_ trivially
    exact fun nBlockHeight script => rfl
  · refine Runs.throughout_iff_meets (fun _ _ _ _ _ _ _ _ => trivial)
      (fun payments event next _ _ each stepped => step_oneVoteEach_iff hashOf each stepped)
      (fun payments event stuck => ?_) trivial ?_ trivially
    · cases event <;> cases stuck
    · exact fun hash winner other second impossible => by cases impossible

namespace Returning

/-- A synced node at height 100 that knows the masternode and takes its signature. -/
def view : MasternodeView where
  activeProtocol := 70912
  tipHeight := some 100
  countEnabled := 20
  size := 20
  find := fun _ => some 70912
  getMasternodeRank := fun _ _ _ => 1
  getBlockHash := fun _ => some 7
  verifyMessage := fun _ => true

/-- A hash that tells the votes below apart. -/
def sampleHash (payee : CScript) (nBlockHeight : Int) (_ : COutPoint) : Uint256 :=
  BitVec.ofNat 256 (1000 * payee.length + nBlockHeight.toNat)

def vote (nBlockHeight : Int) (payee : CScript) : Event :=
  .winner view 70912 ⟨{ prevout := ⟨9, 1⟩ }, nBlockHeight, payee, []⟩

/-- Votes for height 110, for height 111, and for height 110 again. -/
def events : List Event := [vote 110 [1], vote 111 [1], vote 110 [1, 2]]

end Returning

/-- A masternode that votes for another height in between has two votes for one height. -/
theorem returning_masternode_votes_twice :
    ∃ final, Runs.run (step Returning.sampleHash) empty Returning.events = some final ∧
      final.tally 110 [1] = 1 ∧ final.tally 110 [1, 2] = 1 ∧
        ¬ Runs.Throughout (step Returning.sampleHash) OneVoteEach empty Returning.events := by
  refine ⟨_, rfl, by decide, by decide, fun along => ?_⟩
  have each := along.final rfl
  have same := each 1110 ⟨{ prevout := ⟨9, 1⟩ }, 110, [1], []⟩ 2110
    ⟨{ prevout := ⟨9, 1⟩ }, 110, [1, 2], []⟩ (by decide) (by decide) rfl rfl
  exact absurd same (by decide)

end CMasternodePayments

end CentNode
