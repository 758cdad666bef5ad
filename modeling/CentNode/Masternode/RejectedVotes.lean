import CentNode.Masternode.PaymentVotes
import CentNode.Masternode.Ranking

/-!
# Payment votes that are turned away

`CanVote` records the vote it lets pass, and stands before the check of the
signature.  A message that is turned away after it still takes the vote of its
masternode for the height.
-/

namespace CentNode

namespace CMasternodePayments

variable {hashOf : CScript → Int → COutPoint → Uint256} {payments : CMasternodePayments}
  {view : MasternodeView} {peerVersion : Int} {vote : CMasternodePaymentWinner}

variable (hashOf payments view peerVersion vote) in
/-- The message makes `AddWinningMasternode` return true: its vote is stored, and was not before. -/
def Accepts : Prop :=
  payments.mapMasternodePayeeVotes.lookup (vote.getHash hashOf) = none ∧
    (payments.processWinner hashOf view peerVersion vote).mapMasternodePayeeVotes.lookup
      (vote.getHash hashOf) = some vote

theorem accepts_iff_adds :
    payments.Accepts hashOf view peerVersion vote ↔ payments.Adds hashOf view peerVersion vote := by
  rcases payments.processWinner_cases hashOf view peerVersion vote with ⟨left, same⟩ | ⟨adds, same⟩
  · refine iff_of_false (fun accepted => ?_) left
    have stored := accepted.2
    rw [same.1, accepted.1] at stored
    cases stored
  · refine iff_of_true ⟨new_of_countable hashOf adds.1, ?_⟩ adds
    rw [same.1, lookup_storeWinner, if_pos rfl]

variable (hashOf) in
/-- The same messages are accepted from both states on, after any further
messages and cleanings. -/
def SameFuture (first second : CMasternodePayments) : Prop :=
  ∀ events firstAfter secondAfter, Runs.run (step hashOf) first events = some firstAfter →
    Runs.run (step hashOf) second events = some secondAfter →
      ∀ view peerVersion vote, firstAfter.Accepts hashOf view peerVersion vote ↔
        secondAfter.Accepts hashOf view peerVersion vote

variable (hashOf payments view peerVersion vote) in
/-- The message passes the checks before `CanVote`. -/
def reachesCanVote : Bool :=
  view.isBlockchainSynced && !view.fLiteMode && decide (view.activeProtocol ≤ peerVersion) &&
    view.tipHeight.any (vote.inRange view) && vote.isValid view &&
      (payments.mapMasternodePayeeVotes.lookup (vote.getHash hashOf)).isNone

variable (hashOf payments view peerVersion vote) in
/-- `CanVote` is asked, and records a vote for another height than the last one. -/
def Records : Prop :=
  payments.reachesCanVote hashOf view peerVersion vote = true ∧
    payments.mapMasternodesLastVote.lookup vote.vinMasternode.prevout.voteKey ≠
      some vote.nBlockHeight

variable (hashOf payments view peerVersion vote) in
theorem processWinner_eq :
    payments.processWinner hashOf view peerVersion vote =
      if payments.reachesCanVote hashOf view peerVersion vote then
        let voted := payments.canVote vote.vinMasternode.prevout vote.nBlockHeight
        if !voted.1 then voted.2
        else if !vote.signatureValid view then voted.2
        else (voted.2.addWinningMasternode hashOf view vote).2
      else payments := by
  unfold processWinner
  split
  case isTrue skipped =>
    rw [if_neg]
    rcases (Bool.or_eq_true _ _).mp skipped with unsynced | lite
    · simp_all [reachesCanVote]
    · simp_all [reachesCanVote]
  case isFalse awake =>
  split
  case isTrue outdated => rw [if_neg (by simp_all [reachesCanVote])]
  case isFalse current =>
  split
  case h_1 noTip => rw [if_neg (by simp [reachesCanVote, noTip])]
  case h_2 nHeight tip =>
  split
  case isTrue seen =>
    rw [if_neg]
    simp [reachesCanVote, ← Option.not_isSome, seen]
  case isFalse unseen =>
  split
  case isTrue far => rw [if_neg (by simp_all [reachesCanVote])]
  case isFalse near =>
  split
  case isTrue invalid => rw [if_neg (by simp_all [reachesCanVote])]
  case isFalse valid =>
    have reaches : payments.reachesCanVote hashOf view peerVersion vote = true := by
      simp_all [reachesCanVote]
    rw [if_pos reaches]

/-- A message that does not come to the record of `CanVote` changes nothing. -/
theorem processWinner_of_not_records (unrecorded : ¬ payments.Records hashOf view peerVersion vote) :
    payments.processWinner hashOf view peerVersion vote = payments := by
  rw [processWinner_eq]
  split
  case isFalse => rfl
  case isTrue reaches =>
    have last : payments.mapMasternodesLastVote.lookup vote.vinMasternode.prevout.voteKey =
        some vote.nBlockHeight := by
      by_contra other
      exact unrecorded ⟨reaches, other⟩
    simp [canVote, last]

theorem lastVote_addWinningMasternode :
    (payments.addWinningMasternode hashOf view vote).2.mapMasternodesLastVote =
      payments.mapMasternodesLastVote := by
  unfold addWinningMasternode
  split
  · rfl
  split
  · rfl
  · rfl

/-- A message that comes to the record of `CanVote` leaves it behind. -/
theorem lastVote_of_records (records : payments.Records hashOf view peerVersion vote) :
    (payments.processWinner hashOf view peerVersion vote).mapMasternodesLastVote.lookup
      vote.vinMasternode.prevout.voteKey = some vote.nBlockHeight := by
  rw [processWinner_eq, if_pos records.1]
  simp only [canVote, if_neg records.2, Bool.not_true, Bool.false_eq_true, if_false]
  split
  · exact AList.lookup_insert _
  · rw [lastVote_addWinningMasternode]
    exact AList.lookup_insert _

variable (view vote) in
/-- The vote passes the checks that come after `CanVote`. -/
def PassesLast : Prop :=
  vote.signatureValid view = true ∧ (view.getBlockHash (vote.nBlockHeight - 100)).isSome = true

theorem accepts_iff :
    payments.Accepts hashOf view peerVersion vote ↔
      payments.Records hashOf view peerVersion vote ∧ PassesLast view vote := by
  rw [accepts_iff_adds]
  unfold Adds Records PassesLast countable reachesCanVote
  simp only [Bool.and_eq_true]
  tauto

theorem valid_of_records (records : payments.Records hashOf view peerVersion vote) :
    vote.isValid view = true := by
  have reaches := records.1
  unfold reachesCanVote at reaches
  simp only [Bool.and_eq_true] at reaches
  exact reaches.1.2

/-- A vote that comes to the record of `CanVote` is accepted by a node that
takes its signature and knows the block. -/
theorem accepts_of_records (records : payments.Records hashOf view peerVersion vote) :
    payments.Accepts hashOf
      { view with verifyMessage := fun _ => true, getBlockHash := fun _ => some 0 } peerVersion
        vote := by
  refine accepts_iff.mpr ⟨records, ?_, rfl⟩
  have valid := valid_of_records records
  unfold CMasternodePaymentWinner.isValid at valid
  split at valid
  · cases valid
  next protocolVersion known => simp [CMasternodePaymentWinner.signatureValid, known]

variable (hashOf payments view peerVersion vote) in
/-- A message that is turned away leaves the messages accepted later as they are
exactly if it is not one that `CanVote` records and a later check turns away. -/
theorem rejected_without_effect_iff :
    (¬ payments.Accepts hashOf view peerVersion vote →
        SameFuture hashOf (payments.processWinner hashOf view peerVersion vote) payments) ↔
      (payments.Records hashOf view peerVersion vote → PassesLast view vote) := by
  constructor
  · intro harmless records
    by_contra fails
    have rejected : ¬ payments.Accepts hashOf view peerVersion vote := fun accepted =>
      fails (accepts_iff.mp accepted).2
    have accepted := (harmless rejected [] _ _ rfl rfl _ peerVersion vote).mpr
      (accepts_of_records records)
    exact (accepts_iff.mp accepted).1.2 (lastVote_of_records records)
  · intro passes rejected events firstAfter secondAfter ranFirst ranSecond
    have unrecorded : ¬ payments.Records hashOf view peerVersion vote := fun records =>
      rejected (accepts_iff.mpr ⟨records, passes records⟩)
    rw [processWinner_of_not_records unrecorded] at ranFirst
    cases ranFirst.symm.trans ranSecond
    exact fun _ _ _ => Iff.rfl

namespace Forged

/-- A synced node at height 100 whose masternode signs with the byte 1. -/
def synced : MasternodeView where
  activeProtocol := 70912
  tipHeight := some 100
  countEnabled := 20
  size := 20
  find := fun _ => some 70912
  getMasternodeRank := fun _ _ _ => 1
  getBlockHash := fun _ => some 7
  verifyMessage := fun vote => vote.vchSig = [1]

def message (payee : CScript) (vchSig : List UInt8) : CMasternodePaymentWinner :=
  ⟨{ prevout := ⟨9, 1⟩ }, 110, payee, vchSig⟩

/-- A hash that tells the votes below apart. -/
def sampleHash (payee : CScript) (_ : Int) (_ : COutPoint) : Uint256 :=
  BitVec.ofNat 256 payee.length

end Forged

/-- After a vote without a signature, the signed vote of the same masternode is
turned away. -/
theorem forged_vote_silences :
    ¬ empty.Accepts Forged.sampleHash Forged.synced 70912 (Forged.message [2, 2] []) ∧
      empty.Accepts Forged.sampleHash Forged.synced 70912 (Forged.message [1] [1]) ∧
        ¬ (empty.processWinner Forged.sampleHash Forged.synced 70912
          (Forged.message [2, 2] [])).Accepts Forged.sampleHash Forged.synced 70912
            (Forged.message [1] [1]) := by
  refine ⟨?_, ⟨rfl, by decide⟩, ?_⟩
  · rintro ⟨-, stored⟩
    exact absurd stored (by decide)
  · rintro ⟨-, stored⟩
    exact absurd stored (by decide)

end CMasternodePayments

/-! `IsValid` refuses a vote when the rank of its masternode is above ten.
`GetMasternodeRank` returns -1 for a masternode that it passes over, and -1 is
not above ten. -/

/-- A node that takes a payment vote: what it shares with others and what it has
of its own, the order in which its sort leaves the scores of a query, and the
settings and signatures that the message is checked with. -/
structure VotedNode where
  world : RankWorld
  node : RankNode
  order : RankQuery → List (Int × CTxIn)
  sorted : ∀ query, ScoreOrder (node.rankScores world query) (order query)
  isBlockchainSynced : Bool := true
  fLiteMode : Bool := false
  activeProtocol : Int
  /-- `TRY_LOCK` of `cs_main`. -/
  lockMain : Bool := true
  countEnabled : Nat
  /-- `masternodeSigner.VerifyMessage` by a masternode key on the message of the vote. -/
  verifyMessage : CPubKey → CMasternodePaymentWinner → Bool

namespace VotedNode

variable (voted : VotedNode)

def tipHeight : Option Int :=
  match voted.world.active with
  | [] => none
  | _ :: below => if voted.lockMain then some below.length else none

/-- The query of `IsValid`. -/
def query (winner : CMasternodePaymentWinner) : RankQuery :=
  ⟨winner.nBlockHeight - 100, voted.activeProtocol, true⟩

/-- The parts of the node that the vote is checked against. -/
def view : MasternodeView where
  isBlockchainSynced := voted.isBlockchainSynced
  fLiteMode := voted.fLiteMode
  activeProtocol := voted.activeProtocol
  tipHeight := voted.tipHeight
  countEnabled := voted.countEnabled
  size := voted.node.man.vMasternodes.length
  find := fun vin => (voted.node.man.find vin).map (·.protocolVersion)
  getMasternodeRank := fun vin nBlockHeight minProtocol =>
    let query : RankQuery := ⟨nBlockHeight, minProtocol, true⟩
    voted.node.getMasternodeRank voted.world query (voted.order query) vin
  getBlockHash := fun nBlockHeight =>
    (getBlockHash voted.world.active voted.node.mapCacheBlockHashes nBlockHeight).1
  verifyMessage := fun winner => (voted.node.man.find winner.vinMasternode).any fun mn =>
    voted.verifyMessage mn.pubKeyMasternode winner

/-- `GetMasternodeRank` for the block of the vote. -/
def rank (winner : CMasternodePaymentWinner) : Int :=
  voted.view.getMasternodeRank winner.vinMasternode (winner.nBlockHeight - 100)
    voted.activeProtocol

/-- The vote is signed by a masternode of the list that is among the first ten. -/
def SignedByRanked (winner : CMasternodePaymentWinner) : Prop :=
  ∃ mn ∈ voted.node.man.vMasternodes, mn.vin.prevout = winner.vinMasternode.prevout ∧
    voted.verifyMessage mn.pubKeyMasternode winner = true ∧
      1 ≤ voted.rank winner ∧ voted.rank winner ≤ mnPaymentsSignaturesTotal

/-- `GetMasternodeRank` passes over the masternode, as too young or as not enabled. -/
def passesOver (mn : CMasternode) : Bool :=
  voted.world.tooYoung mn || !(mn.check (voted.node.checkContext voted.world) false).isEnabled

/-! ## The rank of a listed masternode -/

variable {voted} {winner : CMasternodePaymentWinner} {mn : CMasternode}

/-- A masternode that is not passed over has a rank, from one on; any other has -1. -/
theorem rank_pos_iff (member : mn ∈ voted.node.man.vMasternodes)
    (named : mn.vin.prevout = winner.vinMasternode.prevout)
    (current : voted.activeProtocol ≤ mn.protocolVersion)
    (known : (voted.node.blockHash voted.world (voted.query winner)).isSome = true) :
    1 ≤ voted.rank winner ↔ voted.passesOver mn = false := by
  have rank_eq : voted.rank winner =
      rankOf winner.vinMasternode 0
        (voted.node.walked voted.world (voted.query winner) (voted.order (voted.query winner))) :=
    voted.node.getMasternodeRank_eq voted.world (voted.query winner) _ _
  have order := voted.node.walked_isOrder voted.world (voted.query winner)
    (voted.sorted (voted.query winner))
  have distinct := (order.perm.map scoreKey).nodup_iff.mpr
    (voted.node.distinct_keys voted.world (voted.query winner) _)
  have ranks_eq : voted.node.ranks voted.world (voted.query winner) mn = !voted.passesOver mn := by
    unfold RankNode.ranks RankNode.takesPart passesOver
    rw [known, Bool.not_or, Bool.not_not]
    have new : (voted.query winner).minProtocol ≤ mn.protocolVersion := current
    have active : (voted.query winner).fOnlyActive = true := rfl
    simp only [new, active, decide_true, Bool.true_and, Bool.not_true, Bool.false_or]
    exact Bool.and_comm _ _
  rw [rank_eq]
  constructor
  · intro positive
    by_contra passes
    rw [Bool.not_eq_false] at passes
    rw [passes, Bool.not_true] at ranks_eq
    have missing : winner.vinMasternode.prevout ∉
        (voted.node.walked voted.world (voted.query winner)
          (voted.order (voted.query winner))).map scoreKey := by
      intro inside
      obtain ⟨s, listed, key_eq⟩ := List.mem_map.mp ((order.perm.map scoreKey).mem_iff.mp inside)
      obtain ⟨other, otherMember, takes, rfl⟩ :=
        (voted.node.mem_ranked voted.world (voted.query winner)).mp listed
      have same : other = mn := RankNode.eq_of_prevout otherMember member (key_eq.trans named.symm)
      rw [same, ranks_eq] at takes
      cases takes
    rw [rankOf_of_not_mem missing] at positive
    omega
  · intro passed
    rw [passed, Bool.not_false] at ranks_eq
    have listed := voted.node.entry_mem_ranked voted.world (voted.query winner) member ranks_eq
    have inside := (order.perm.map scoreKey).mem_iff.mpr (List.mem_map_of_mem listed)
    obtain ⟨i, found⟩ := List.mem_iff_getElem?.mp inside
    have key_eq : scoreKey (voted.node.entry voted.world (voted.query winner) mn) =
        winner.vinMasternode.prevout := named
    rw [key_eq] at found
    rw [rankOf_of_getElem? winner.vinMasternode distinct found 0]
    omega

section

variable (valid : winner.isValid voted.view = true)
  (passes : CMasternodePayments.PassesLast voted.view winner)

include valid passes

theorem signer_of_passes :
    ∃ mn ∈ voted.node.man.vMasternodes, mn.vin.prevout = winner.vinMasternode.prevout ∧
      voted.activeProtocol ≤ mn.protocolVersion ∧
        voted.verifyMessage mn.pubKeyMasternode winner = true ∧
          voted.rank winner ≤ mnPaymentsSignaturesTotal := by
  unfold CMasternodePaymentWinner.isValid at valid
  split at valid
  case h_1 => cases valid
  case h_2 protocolVersion found =>
  obtain ⟨mn, listed, rfl⟩ := Option.map_eq_some_iff.mp found
  obtain ⟨member, named⟩ := CMasternodeMan.find_eq_some_iff.mp listed
  split at valid
  case isTrue => cases valid
  case isFalse current =>
  rw [Bool.not_eq_true', decide_eq_false_iff_not, gt_iff_lt, not_lt] at valid
  refine ⟨mn, member, named, not_lt.mp current, ?_, valid⟩
  have signed := passes.1
  rw [CMasternodePaymentWinner.signatureValid, found] at signed
  simpa [view, listed] using signed

theorem signedByRanked_iff :
    voted.SignedByRanked winner ↔
      ∀ mn ∈ voted.node.man.vMasternodes, mn.vin.prevout = winner.vinMasternode.prevout →
        voted.passesOver mn = false := by
  obtain ⟨mn, member, named, current, signed, low⟩ := signer_of_passes valid passes
  have known : (voted.node.blockHash voted.world (voted.query winner)).isSome = true := passes.2
  have here := rank_pos_iff member named current known
  constructor
  · rintro ⟨other, _, _, _, positive, _⟩ third inside namedToo
    rw [RankNode.eq_of_prevout inside member (namedToo.trans named.symm)]
    exact here.mp positive
  · intro passed
    exact ⟨mn, member, named, signed, here.mpr (passed mn member named), low⟩

end

end VotedNode

/-! ## Runs -/

/-- The payments, and the votes stored so far, each with the node that took it. -/
structure VoteLog where
  payments : CMasternodePayments
  stored : List (VotedNode × CMasternodePaymentWinner) := []

/-- A message `mnw`, or a call of `CleanPaymentList`. -/
inductive VoteLogInput where
  | mnw (voted : VotedNode) (peerVersion : Int) (winner : CMasternodePaymentWinner)
  | clean (view : MasternodeView)

namespace VoteLog

open CMasternodePayments

variable (hashOf : CScript → Int → COutPoint → Uint256)

instance (payments : CMasternodePayments) (view : MasternodeView) (peerVersion : Int)
    (winner : CMasternodePaymentWinner) :
    Decidable (payments.Accepts hashOf view peerVersion winner) :=
  inferInstanceAs (Decidable (_ ∧ _))

def step (log : VoteLog) : VoteLogInput → Option VoteLog
  | .mnw voted peerVersion winner =>
    some
      { payments := log.payments.processWinner hashOf voted.view peerVersion winner
        stored :=
          if log.payments.Accepts hashOf voted.view peerVersion winner then
            log.stored ++ [(voted, winner)]
          else log.stored }
  | .clean view => some { log with payments := log.payments.cleanPaymentList view }

/-- Every stored vote was signed by one of the first ten when it was stored. -/
def AllRanked (log : VoteLog) : Prop := ∀ entry ∈ log.stored, entry.1.SignedByRanked entry.2

/-- A message that passes all checks is not of a masternode that the ranking passes over. -/
def VoterRanked (log : VoteLog) : VoteLogInput → Prop
  | .mnw voted peerVersion winner =>
    log.payments.Records hashOf voted.view peerVersion winner →
      PassesLast voted.view winner →
        ∀ mn ∈ voted.node.man.vMasternodes, mn.vin.prevout = winner.vinMasternode.prevout →
          voted.passesOver mn = false
  | .clean _ => True

theorem step_allRanked_iff {log next : VoteLog} {input : VoteLogInput} (ranked : log.AllRanked)
    (stepped : log.step hashOf input = some next) :
    next.AllRanked ↔ log.VoterRanked hashOf input := by
  cases input with
  | clean view =>
    cases stepped
    exact iff_of_true ranked trivial
  | mnw voted peerVersion winner =>
    cases stepped
    by_cases accepted : log.payments.Accepts hashOf voted.view peerVersion winner
    · obtain ⟨records, passes⟩ := accepts_iff.mp accepted
      have signed := VotedNode.signedByRanked_iff (valid_of_records records) passes
      have both : VoteLog.AllRanked
          { payments := log.payments.processWinner hashOf voted.view peerVersion winner
            stored := log.stored ++ [(voted, winner)] } ↔ voted.SignedByRanked winner := by
        unfold AllRanked
        simp only [List.forall_mem_append, List.forall_mem_singleton]
        exact and_iff_right ranked
      rw [if_pos accepted, both, signed]
      exact ⟨fun passed _ _ => passed, fun passed => passed records passes⟩
    · rw [if_neg accepted]
      refine iff_of_true ranked fun records passes => ?_
      exact absurd (accepts_iff.mpr ⟨records, passes⟩) accepted

/-- Along a run every vote that is stored is signed by one of the first ten
exactly if no message that passes the checks is of a masternode that the
ranking passes over. -/
theorem votes_ranked_throughout_iff {start : VoteLog} (new : start.stored = [])
    (inputs : List VoteLogInput) :
    Runs.Throughout (step hashOf) AllRanked start inputs ↔
      Runs.Meets (step hashOf) (VoterRanked hashOf) start inputs := by
  have ranked : start.AllRanked := by
    intro entry member
    rw [new] at member
    cases member
  refine Runs.throughout_iff_meets (fun _ _ _ _ _ _ _ _ => trivial)
    (fun log input next _ _ holds stepped => step_allRanked_iff hashOf holds stepped)
    (fun log input stuck => ?_) trivial ranked (Runs.Meets.trivial _ _ _)
  cases input with
  | mnw voted peerVersion winner => cases stuck
  | clean view => cases stuck

namespace YoungVoter

/-- A chain with its tip at height 100. -/
def world : RankWorld :=
  { RankSample.world with
    active := List.replicate 100 RankSample.block ++ [mainParams.hashGenesisBlock] }

/-- A node that lists one old masternode, and one registered 1000 seconds ago. -/
def voted : VotedNode where
  world := world
  node := RankSample.mixed
  order := fun query => Greedy.sortByRank Prod.fst (RankSample.mixed.rankScores world query)
  sorted := fun _ => scoreOrder_iff.mpr (Standings.isOrder_sortByRank Prod.fst _)
  activeProtocol := 70000
  countEnabled := 2
  verifyMessage := fun _ _ => true

/-- A vote of a masternode for block 110. -/
def winner (txid : Uint256) : CMasternodePaymentWinner where
  vinMasternode := { prevout := ⟨txid, 0⟩ }
  nBlockHeight := 110
  payee := [1]

def sampleHash (payee : CScript) (_ : Int) (_ : COutPoint) : Uint256 :=
  BitVec.ofNat 256 payee.length

end YoungVoter

theorem votes_ranked_throughout_old :
    Runs.Throughout (step YoungVoter.sampleHash) AllRanked { payments := empty }
      [.mnw YoungVoter.voted 70000 (YoungVoter.winner 1)] := by
  refine (votes_ranked_throughout_iff YoungVoter.sampleHash rfl _).mpr ⟨fun _ _ => ?_, ?_⟩
  · decide +kernel
  · exact fun _ _ => trivial

theorem young_masternode_vote_stored :
    ¬ Runs.Throughout (step YoungVoter.sampleHash) AllRanked { payments := empty }
      [.mnw YoungVoter.voted 70000 (YoungVoter.winner 2)] := by
  intro along
  have accepted : empty.Accepts YoungVoter.sampleHash YoungVoter.voted.view 70000
      (YoungVoter.winner 2) := by
    decide +kernel
  have ranked := along.2 _ rfl
  obtain ⟨_, _, _, _, positive, _⟩ := ranked (YoungVoter.voted, YoungVoter.winner 2) (by
    rw [if_pos accepted]
    exact List.mem_singleton_self _)
  exact absurd positive (by decide +kernel)

end VoteLog

end CentNode
