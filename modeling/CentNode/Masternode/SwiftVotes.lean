import CentNode.Masternode.SwiftLocks

/-!
# The votes of a transaction lock

A vote is remembered under a hash before it is checked, and added to the lock
of its transaction after that.  The hash leaves out the height and the
signature, and a vote of the node itself is remembered without being added.
-/

namespace CentNode

open List StdMap

/-- The vote is of a masternode of the first ranks that has signed it. -/
def VoteContext.counts (context : VoteContext) : Bool :=
  context.rank ≠ -1 && context.rank ≤ swiftTXSignaturesTotal && context.signatureValid

namespace SwiftState

/-- The votes that the lock of a transaction holds. -/
def ballots (state : SwiftState) (txid : Uint256) : List CConsensusVote :=
  ((state.mapTxLocks.lookup txid).map CTransactionLock.vecConsensusVotes).getD []

/-- Every lock is stored under the hash of its transaction. -/
def Keyed (state : SwiftState) : Prop :=
  ∀ txid lock, state.mapTxLocks.lookup txid = some lock → lock.txHash = txid

def seen (state : SwiftState) (hash : Uint256) : Bool := (state.mapTxLockVote.lookup hash).isSome

variable {state : SwiftState}

variable {lock : CTransactionLock}

theorem ballots_of_lookup {txid : Uint256} (found : state.mapTxLocks.lookup txid = some lock) :
    state.ballots txid = lock.vecConsensusVotes := by
  rw [ballots, found]
  rfl

/-! ## Functions that leave the votes alone -/

/-- The locks hold the same votes, and what was seen stays so. -/
structure SameBallots (before after : SwiftState) : Prop where
  ballots : ∀ txid, after.ballots txid = before.ballots txid
  seen : ∀ hash, before.seen hash = true → after.seen hash = true
  keyed : before.Keyed → after.Keyed

theorem SameBallots.refl (state : SwiftState) : SameBallots state state :=
  ⟨fun _ => rfl, fun _ there => there, fun keyed => keyed⟩

theorem SameBallots.trans {first second third : SwiftState} (one : SameBallots first second)
    (two : SameBallots second third) : SameBallots first third where
  ballots := fun txid => (two.ballots txid).trans (one.ballots txid)
  seen := fun hash there => two.seen hash (one.seen hash there)
  keyed := fun keyed => two.keyed (one.keyed keyed)

theorem insertLock_sameBallots (state : SwiftState) {txid : Uint256}
    (votes : lock.vecConsensusVotes = state.ballots txid)
    (named : state.Keyed → lock.txHash = txid) :
    SameBallots state { state with mapTxLocks := state.mapTxLocks.insert txid lock } := by
  refine ⟨fun other => ?_, fun _ there => there, fun keyed other found lookup => ?_⟩
  · rw [ballots, lookup_insert_ite]
    by_cases same : other = txid
    · rw [if_pos same, same]
      exact votes
    · rw [if_neg same]
      rfl
  · rw [lookup_insert_ite] at lookup
    split at lookup
    case isTrue same =>
      cases lookup
      rw [same]
      exact named keyed
    case isFalse => exact keyed other found lookup

theorem createNewLock_sameBallots (state : SwiftState) (context : IxContext) (tx : CTransaction) :
    SameBallots state (state.createNewLock context tx) := by
  rw [createNewLock]
  split
  · exact SameBallots.refl state
  · cases found : state.mapTxLocks.lookup tx.hash with
    | none =>
      refine insertLock_sameBallots state ?_ fun _ => rfl
      rw [ballots, found]
      rfl
    | some lock =>
      exact insertLock_sameBallots state (ballots_of_lookup found).symm
        fun keyed => keyed tx.hash lock found

theorem expireLock_sameBallots (state : SwiftState) (txid : Uint256) (now : Int) :
    SameBallots state (state.expireLock txid now) := by
  rw [expireLock]
  cases found : state.mapTxLocks.lookup txid with
  | none => exact SameBallots.refl state
  | some lock =>
    exact insertLock_sameBallots state (ballots_of_lookup found).symm
      fun keyed => keyed txid lock found

theorem checkForConflictingLocks_sameBallots (state : SwiftState) (tx : CTransaction) (now : Int) :
    SameBallots state (state.checkForConflictingLocks tx now).2 := by
  rw [checkForConflictingLocks]
  cases state.conflictingLock tx with
  | none => exact SameBallots.refl state
  | some txid =>
    exact (expireLock_sameBallots state tx.hash now).trans (expireLock_sameBallots _ txid now)

theorem resolveConflicts_sameBallots (state : SwiftState) (tx : CTransaction) (now : Int) :
    SameBallots state (state.resolveConflicts tx now) := by
  have checked := checkForConflictingLocks_sameBallots state tx now
  rw [resolveConflicts]
  split
  · dsimp only
    split
    · exact checked
    · exact ⟨checked.ballots, checked.seen, checked.keyed⟩
  · exact SameBallots.refl state

theorem ixRejected_sameBallots (state : SwiftState) (context : IxContext) (tx : CTransaction) :
    SameBallots state (state.ixRejected context tx) := by
  have resolved := resolveConflicts_sameBallots
    ({ state with
      mapTxLockReqRejected := state.mapTxLockReqRejected.insertNew tx.hash tx }.lockInputs tx tx.hash)
    tx context.now
  exact ⟨resolved.ballots, resolved.seen, resolved.keyed⟩

theorem ixAccepted_sameBallots (state : SwiftState) (context : IxContext) (tx : CTransaction) :
    SameBallots state (state.ixAccepted context tx) := by
  refine ⟨fun _ => rfl, fun hash there => ?_, fun keyed => keyed⟩
  rw [seen, ixAccepted]
  cases context.ownVote with
  | none => exact there
  | some vote =>
    dsimp only
    rw [lookup_insert_ite]
    split
    · rfl
    · exact there

theorem processIx_sameBallots (state : SwiftState) (context : IxContext) (tx : CTransaction) :
    SameBallots state (state.processIx context tx) := by
  have created := createNewLock_sameBallots state context tx
  rw [processIx]
  split
  · exact SameBallots.refl state
  · split
    · exact created.trans (ixAccepted_sameBallots _ context tx)
    · exact created.trans (ixRejected_sameBallots _ context tx)

theorem completeLock_sameBallots (state : SwiftState) (txHash : Uint256) (now : Int) :
    SameBallots state (state.completeLock txHash now) := by
  have checked := checkForConflictingLocks_sameBallots
    { state with mapTxLockReq := state.mapTxLockReq.insertNew txHash CTransaction.empty }
    ((state.mapTxLockReq.lookup txHash).getD CTransaction.empty) now
  rw [completeLock]
  split
  · exact ⟨checked.ballots, checked.seen, checked.keyed⟩
  · exact ⟨checked.ballots, checked.seen, checked.keyed⟩

/-! ## A vote -/

theorem ballots_addVote (state : SwiftState) (vote : CConsensusVote) (now : Int) (txid : Uint256) :
    (state.addVote vote now).ballots txid =
      if txid = vote.txHash then state.ballots txid ++ [vote] else state.ballots txid := by
  rw [ballots, addVote, lookup_insert_ite]
  by_cases same : txid = vote.txHash
  · subst same
    rw [if_pos rfl, if_pos rfl, ballots]
    cases state.mapTxLocks.lookup vote.txHash <;> rfl
  · rw [if_neg same, if_neg same]
    rfl

/-- The vote is remembered under its hash. -/
def note (state : SwiftState) (vote : CConsensusVote) : SwiftState :=
  { state with mapTxLockVote := state.mapTxLockVote.insertNew vote.getHash vote }

theorem seen_note (state : SwiftState) (vote : CConsensusVote) (hash : Uint256) :
    (state.note vote).seen hash = (decide (hash = vote.getHash) || state.seen hash) :=
  isSome_lookup_insertNew state.mapTxLockVote vote.getHash hash vote

/-- What a `txlvote` does to the votes. -/
inductive VoteEffect (state : SwiftState) (context : VoteContext) (vote : CConsensusVote) :
    SwiftState → Prop where
  | ignored (idle : context.active = false ∨ state.seen vote.getHash = true) :
      VoteEffect state context vote state
  | refused (active : context.active = true) (new : state.seen vote.getHash = false)
      (bad : context.counts = false) : VoteEffect state context vote (state.note vote)
  | counted {next : SwiftState} (active : context.active = true)
      (new : state.seen vote.getHash = false) (good : context.counts = true)
      (same : SameBallots ((state.note vote).addVote vote context.now) next) :
      VoteEffect state context vote next

/-- A `txlvote` in the words of `seen`, `note` and `counts`. -/
theorem processVote_eq (state : SwiftState) (context : VoteContext) (vote : CConsensusVote) :
    state.processVote context vote =
      if context.active = false ∨ state.seen vote.getHash = true then state
      else if context.counts = false then state.note vote
      else if ((state.note vote).addVote vote context.now).complete vote.txHash = true then
        ((state.note vote).addVote vote context.now).completeLock vote.txHash context.now
      else (state.note vote).addVote vote context.now := by
  have idle_iff : (!context.active || (state.mapTxLockVote.lookup vote.getHash).isSome) = true ↔
      (context.active = false ∨ state.seen vote.getHash = true) := by
    rw [Bool.or_eq_true, Bool.not_eq_true', seen]
  have bad_iff : (context.rank = -1 ∨ swiftTXSignaturesTotal < context.rank ∨
      context.signatureValid = false) ↔ context.counts = false := by
    rw [VoteContext.counts, Bool.and_eq_false_iff, Bool.and_eq_false_iff, decide_eq_false_iff_not,
      decide_eq_false_iff_not, not_not, Int.not_le, or_assoc]
  rw [processVote]
  refine if_congr idle_iff rfl ?_
  rw [processConsensusVote]
  exact if_congr bad_iff rfl rfl

theorem processVote_effect (state : SwiftState) (context : VoteContext) (vote : CConsensusVote) :
    VoteEffect state context vote (state.processVote context vote) := by
  rw [processVote_eq]
  split
  case isTrue idle => exact .ignored idle
  case isFalse taken =>
    rw [not_or, Bool.not_eq_false, Bool.not_eq_true] at taken
    split
    case isTrue bad => exact .refused taken.1 taken.2 bad
    case isFalse good =>
      rw [Bool.not_eq_false] at good
      refine .counted taken.1 taken.2 good ?_
      split
      · exact completeLock_sameBallots _ vote.txHash context.now
      · exact SameBallots.refl _

/-! ## The expiry of locks -/

theorem ballots_clean (keyed : state.Keyed) (now : Int) (txid : Uint256) :
    (state.Expired now txid → (state.cleanTransactionLocksList true now).ballots txid = []) ∧
      (¬ state.Expired now txid →
        (state.cleanTransactionLocksList true now).ballots txid = state.ballots txid) := by
  have locks := (clean_swept keyed now).locks txid
  constructor
  · intro expired
    cases found : (state.cleanTransactionLocksList true now).mapTxLocks.lookup txid with
    | none =>
      rw [ballots, found]
      rfl
    | some lock => exact absurd expired ((locks lock).mp found).2
  · intro waiting
    cases found : state.mapTxLocks.lookup txid with
    | none =>
      cases after : (state.cleanTransactionLocksList true now).mapTxLocks.lookup txid with
      | none => rw [ballots, ballots, found, after]
      | some lock =>
        rw [((locks lock).mp after).1] at found
        cases found
    | some lock =>
      rw [ballots_of_lookup found, ballots_of_lookup ((locks lock).mpr ⟨found, waiting⟩)]

theorem keyed_clean (keyed : state.Keyed) (now : Int) :
    (state.cleanTransactionLocksList true now).Keyed := by
  intro txid lock found
  exact keyed txid lock (((clean_swept keyed now).locks txid lock).mp found).1

theorem seen_cleanLock {now : Int} {key hash : Uint256}
    (other : lock.nExpiration < now → ∀ vote ∈ lock.vecConsensusVotes, vote.getHash ≠ hash) :
    (state.cleanLock now key lock).seen hash = state.seen hash := by
  rw [cleanLock]
  split
  case isFalse => rfl
  case isTrue expired =>
    cases state.mapTxLockReq.lookup lock.txHash with
    | none => rfl
    | some tx =>
      have absent : hash ∉ lock.vecConsensusVotes.map CConsensusVote.getHash := by
        intro member
        obtain ⟨vote, inside, same⟩ := mem_map.mp member
        exact other expired vote inside same
      simp only [seen, eraseLock, forgetRequest, lookup_eraseAll, if_neg absent]

theorem seen_clean {now : Int} {hash : Uint256}
    (other : ∀ txid, state.Expired now txid → ∀ vote ∈ state.ballots txid, vote.getHash ≠ hash) :
    (state.cleanTransactionLocksList true now).seen hash = state.seen hash := by
  have loop : ∀ (entries : List LockEntry) (current : SwiftState),
      (∀ entry ∈ entries, entry.2.nExpiration < now →
        ∀ vote ∈ entry.2.vecConsensusVotes, vote.getHash ≠ hash) →
      (entries.foldl (fun current entry => current.cleanLock now entry.1 entry.2) current).seen
        hash = current.seen hash := by
    intro entries
    induction entries with
    | nil => exact fun current _ => rfl
    | cons entry rest ih =>
      intro current apart
      rw [foldl_cons, ih _ fun later member => apart later (mem_cons_of_mem _ member),
        seen_cleanLock (apart entry mem_cons_self)]
  refine loop state.mapTxLocks.entries state fun entry member expired vote inside => ?_
  have found : state.mapTxLocks.lookup entry.1 = some entry.2 := AList.mem_lookup_iff.mpr member
  refine other entry.1 ⟨entry.2, found, expired⟩ vote ?_
  rw [ballots_of_lookup found]
  exact inside

/-! ## One vote for each masternode -/

def OneVoteEach (state : SwiftState) : Prop :=
  ∀ txid lock, state.mapTxLocks.lookup txid = some lock →
    (lock.vecConsensusVotes.map fun vote => vote.vinMasternode.prevout).Nodup

/-- Different masternodes or transactions give different hashes. -/
def NoCollision (votes : List CConsensusVote) : Prop :=
  ∀ first ∈ votes, ∀ second ∈ votes, first.getHash = second.getHash →
    first.vinMasternode.prevout = second.vinMasternode.prevout ∧ first.txHash = second.txHash

/-- The votes of the messages `txlvote`. -/
def votesReceived (inputs : List SwiftInput) : List CConsensusVote :=
  inputs.filterMap fun input =>
    match input with
    | .txlvote _ vote => some vote
    | _ => none

/-- The votes in a lock are for its transaction, were received and seen, and
come from different masternodes. -/
structure Tallied (votes : List CConsensusVote) (state : SwiftState) : Prop where
  keyed : state.Keyed
  named : ∀ txid, ∀ vote ∈ state.ballots txid, vote.txHash = txid
  received : ∀ txid, ∀ vote ∈ state.ballots txid, vote ∈ votes
  seen : ∀ txid, ∀ vote ∈ state.ballots txid, state.seen vote.getHash = true
  once : ∀ txid, ((state.ballots txid).map fun vote => vote.vinMasternode.prevout).Nodup

variable {votes : List CConsensusVote}

theorem Tallied.oneVoteEach (tallied : state.Tallied votes) : state.OneVoteEach := by
  intro txid lock found
  rw [← ballots_of_lookup found]
  exact tallied.once txid

theorem Tallied.sameBallots {next : SwiftState} (tallied : state.Tallied votes)
    (same : SameBallots state next) : next.Tallied votes where
  keyed := same.keyed tallied.keyed
  named := fun txid vote inside => tallied.named txid vote (same.ballots txid ▸ inside)
  received := fun txid vote inside => tallied.received txid vote (same.ballots txid ▸ inside)
  seen := fun txid vote inside => same.seen _ (tallied.seen txid vote (same.ballots txid ▸ inside))
  once := fun txid => by
    rw [same.ballots]
    exact tallied.once txid

theorem Tallied.note (tallied : state.Tallied votes) (vote : CConsensusVote) :
    (state.note vote).Tallied votes where
  keyed := tallied.keyed
  named := tallied.named
  received := tallied.received
  seen := fun txid other inside => by
    rw [seen_note, tallied.seen txid other inside, Bool.or_true]
  once := tallied.once

/-- A vote with the same masternode and transaction has the same hash, so a new
vote is of a masternode that is not in the lock. -/
theorem Tallied.addVote (tallied : state.Tallied votes) {vote : CConsensusVote} {now : Int}
    (member : vote ∈ votes) (new : state.seen vote.getHash = false) :
    ((state.note vote).addVote vote now).Tallied votes := by
  have noted := tallied.note vote
  have cases_mem : ∀ {txid other}, other ∈ ((state.note vote).addVote vote now).ballots txid →
      other ∈ state.ballots txid ∨ (txid = vote.txHash ∧ other = vote) := by
    intro txid other inside
    rw [ballots_addVote] at inside
    split at inside
    case isTrue same =>
      rcases mem_append.mp inside with old | last
      · exact Or.inl old
      · exact Or.inr ⟨same, mem_singleton.mp last⟩
    case isFalse => exact Or.inl inside
  refine ⟨addVote_keyed vote now noted.keyed, fun txid other inside => ?_,
    fun txid other inside => ?_, fun txid other inside => ?_, fun txid => ?_⟩
  · rcases cases_mem inside with old | ⟨same, rfl⟩
    · exact tallied.named txid other old
    · exact same.symm
  · rcases cases_mem inside with old | ⟨_, rfl⟩
    · exact tallied.received txid other old
    · exact member
  · change (state.note vote).seen other.getHash = true
    rcases cases_mem inside with old | ⟨_, rfl⟩
    · exact noted.seen txid other old
    · rw [seen_note, decide_eq_true rfl, Bool.true_or]
  · rw [ballots_addVote]
    split
    case isTrue same =>
      rw [map_append, nodup_append]
      refine ⟨noted.once txid, nodup_singleton _, ?_⟩
      rintro out inside prevout last rfl
      obtain ⟨other, held, equal⟩ := mem_map.mp inside
      rw [map_singleton, mem_singleton] at last
      have hash_eq : other.getHash = vote.getHash := by
        rw [CConsensusVote.getHash, CConsensusVote.getHash, equal, last,
          tallied.named txid other held, same]
      rw [← hash_eq, tallied.seen txid other held] at new
      cases new
    case isFalse => exact noted.once txid

/-- The sweep forgets the hashes of the votes whose locks it removes, and no
other vote has such a hash. -/
theorem Tallied.clean (tallied : state.Tallied votes) (distinct : NoCollision votes) (now : Int) :
    (state.cleanTransactionLocksList true now).Tallied votes := by
  have kept : ∀ {txid vote},
      vote ∈ (state.cleanTransactionLocksList true now).ballots txid →
        vote ∈ state.ballots txid ∧ ¬ state.Expired now txid := by
    intro txid vote inside
    obtain ⟨removed, waits⟩ := ballots_clean tallied.keyed now txid
    by_cases expired : state.Expired now txid
    · rw [removed expired] at inside
      cases inside
    · rw [waits expired] at inside
      exact ⟨inside, expired⟩
  refine ⟨keyed_clean tallied.keyed now, fun txid vote inside => ?_, fun txid vote inside => ?_,
    fun txid vote inside => ?_, fun txid => ?_⟩
  · exact tallied.named txid vote (kept inside).1
  · exact tallied.received txid vote (kept inside).1
  · obtain ⟨held, waiting⟩ := kept inside
    rw [seen_clean, tallied.seen txid vote held]
    intro other expired removed gone same
    have equal := (distinct removed (tallied.received other removed gone) vote
      (tallied.received txid vote held) same).2
    rw [tallied.named other removed gone, tallied.named txid vote held] at equal
    exact waiting (equal ▸ expired)
  · obtain ⟨removed, waits⟩ := ballots_clean tallied.keyed now txid
    by_cases expired : state.Expired now txid
    · rw [removed expired]
      exact nodup_nil
    · rw [waits expired]
      exact tallied.once txid

theorem tallied_step {input : SwiftInput} (tallied : state.Tallied votes)
    (distinct : NoCollision votes)
    (listed : ∀ context vote, input = .txlvote context vote → vote ∈ votes) :
    (state.step input).Tallied votes := by
  cases input with
  | ix context tx => exact tallied.sameBallots (processIx_sameBallots state context tx)
  | txlvote context vote =>
    have effect := processVote_effect state context vote
    rw [step]
    generalize state.processVote context vote = after at effect ⊢
    cases effect with
    | ignored => exact tallied
    | refused => exact tallied.note vote
    | counted active new good same =>
      exact (tallied.addVote (listed context vote rfl) new).sameBallots same
  | block block => exact tallied
  | clean tip now =>
    cases tip with
    | false => exact tallied
    | true => exact tallied.clean distinct now

/-- From the empty maps on, in every run whose votes have hashes without
collisions no lock ever counts a masternode twice. -/
theorem one_vote_each_throughout (inputs : List SwiftInput)
    (distinct : NoCollision (votesReceived inputs)) :
    Runs.Throughout next OneVoteEach {} inputs := by
  have empty : ∀ txid, ({} : SwiftState).ballots txid = [] := fun txid => rfl
  have begins : ({} : SwiftState).Tallied (votesReceived inputs) := by
    refine ⟨fun txid lock found => ?_, fun txid vote inside => ?_, fun txid vote inside => ?_,
      fun txid vote inside => ?_, fun txid => nodup_nil⟩
    · cases found
    · cases inside
    · cases inside
    · cases inside
  have listed : Runs.Meets next (fun _ input =>
      ∀ context vote, input = .txlvote context vote → vote ∈ votesReceived inputs) {} inputs := by
    refine Runs.Meets.of_mem ?_ _
    rintro input member _ context vote rfl
    exact mem_filterMap.mpr ⟨_, member, rfl⟩
  refine Runs.throughout_of_kept (fun state tallied => tallied.oneVoteEach) ?_ begins listed
  rintro state input after tallied member stepped
  cases stepped
  exact tallied_step tallied distinct member

end SwiftState

/-! ## Votes that get lost -/

/-- The maps, and the good votes that were received or cast by the node itself,
as long as the lock of their transaction does not expire. -/
structure VoteRun where
  state : SwiftState := {}
  owed : List CConsensusVote := []

namespace VoteRun

open SwiftState

/-- The vote that `DoConsensusVote` casts on an accepted `ix`. -/
def cast (state : SwiftState) (context : IxContext) (tx : CTransaction) : List CConsensusVote :=
  if !state.ignores context tx && state.accepts context tx then context.ownVote.toList else []

/-- The lock of the transaction is removed by a sweep. -/
def expires (state : SwiftState) (tip : Bool) (now : Int) (txid : Uint256) : Bool :=
  tip && (state.mapTxLocks.lookup txid).any fun lock => lock.nExpiration < now

def step (run : VoteRun) (input : SwiftInput) : Option VoteRun :=
  some
    { state := run.state.step input
      owed := match input with
        | .ix context tx => cast run.state context tx ++ run.owed
        | .txlvote context vote => if context.counts then vote :: run.owed else run.owed
        | .block _ => run.owed
        | .clean tip now => run.owed.filter fun vote => !expires run.state tip now vote.txHash }

/-- Every lock is stored under the hash of its transaction. -/
def Keyed (run : VoteRun) : Prop := run.state.Keyed

/-- Every good vote is in the lock of its transaction. -/
def NoneLost (run : VoteRun) : Prop :=
  ∀ vote ∈ run.owed, ∃ lock, run.state.mapTxLocks.lookup vote.txHash = some lock ∧
    vote ∈ lock.vecConsensusVotes

/-- A good vote from the network is new by its hash, and a vote of the node
itself is in the lock before it is cast. -/
def Arrives (run : VoteRun) : SwiftInput → Prop
  | .ix context tx => ∀ vote ∈ cast run.state context tx, vote ∈ run.state.ballots vote.txHash
  | .txlvote context vote => context.counts = true →
      vote ∈ run.state.ballots vote.txHash ∨
        (context.active = true ∧ run.state.seen vote.getHash = false)
  | _ => True

variable {run : VoteRun}

variable {state : SwiftState} {txid : Uint256}

variable {context : VoteContext} {vote other : CConsensusVote}

theorem mem_ballots_iff :
    vote ∈ state.ballots txid ↔
      ∃ lock, state.mapTxLocks.lookup txid = some lock ∧ vote ∈ lock.vecConsensusVotes := by
  rw [ballots]
  cases state.mapTxLocks.lookup txid with
  | none => simp
  | some lock => simp

theorem noneLost_iff : run.NoneLost ↔ ∀ vote ∈ run.owed, vote ∈ run.state.ballots vote.txHash :=
  forall₂_congr fun _ _ => mem_ballots_iff.symm

theorem expires_iff {now : Int} :
    expires state true now txid = true ↔ state.Expired now txid := by
  rw [expires, Bool.true_and, Option.any_eq_true, SwiftState.Expired]
  simp only [decide_eq_true_eq]

/-- The votes that were in the locks stay there, whatever the `txlvote` is. -/
theorem mem_ballots_processVote (held : other ∈ state.ballots txid) :
    other ∈ (state.processVote context vote).ballots txid := by
  have effect := processVote_effect state context vote
  generalize state.processVote context vote = after at effect ⊢
  cases effect with
  | ignored => exact held
  | refused => exact held
  | counted active new good same =>
    rw [same.ballots, ballots_addVote]
    split
    · exact mem_append_left _ held
    · exact held

theorem mem_ballots_of_counts (counts : context.counts = true) :
    vote ∈ (state.processVote context vote).ballots vote.txHash ↔
      vote ∈ state.ballots vote.txHash ∨
        (context.active = true ∧ state.seen vote.getHash = false) := by
  constructor
  · intro held
    have effect := processVote_effect state context vote
    generalize state.processVote context vote = after at effect held
    cases effect with
    | ignored => exact Or.inl held
    | refused => exact Or.inl held
    | counted active new good same => exact Or.inr ⟨active, new⟩
  · rintro (held | ⟨active, new⟩)
    · exact mem_ballots_processVote held
    · have effect := processVote_effect state context vote
      generalize state.processVote context vote = after at effect ⊢
      cases effect with
      | ignored idle =>
        rw [active, new] at idle
        rcases idle with impossible | impossible <;> cases impossible
      | refused active new bad =>
        rw [counts] at bad
        cases bad
      | counted active new good same =>
        rw [same.ballots, ballots_addVote, if_pos rfl]
        exact mem_append_right _ mem_cons_self

theorem keyed_step (keyed : state.Keyed) (input : SwiftInput) : (state.step input).Keyed := by
  cases input with
  | ix context tx => exact (processIx_sameBallots state context tx).keyed keyed
  | txlvote context vote =>
    have effect := processVote_effect state context vote
    rw [SwiftState.step]
    generalize state.processVote context vote = after at effect ⊢
    cases effect with
    | ignored => exact keyed
    | refused => exact keyed
    | counted active new good same => exact same.keyed (addVote_keyed vote context.now keyed)
  | block block => exact keyed
  | clean tip now =>
    cases tip with
    | false => exact keyed
    | true => exact keyed_clean keyed now

/-- One step: the votes before it stay in their locks, so what counts is the
vote that the step adds. -/
theorem step_noneLost_iff {next : VoteRun} {input : SwiftInput} (keyed : run.Keyed)
    (held : run.NoneLost) (stepped : run.step input = some next) :
    next.NoneLost ↔ run.Arrives input := by
  cases stepped
  rw [noneLost_iff] at held ⊢
  cases input with
  | ix context tx =>
    have same := processIx_sameBallots run.state context tx
    simp only [SwiftState.step, same.ballots, mem_append, or_imp, forall_and, Arrives]
    exact and_iff_left held
  | txlvote context vote =>
    have older : ∀ other ∈ run.owed,
        other ∈ (run.state.processVote context vote).ballots other.txHash := fun other member =>
      mem_ballots_processVote (held other member)
    simp only [SwiftState.step, Arrives]
    cases counts : context.counts with
    | false => exact iff_of_true older fun impossible => by cases impossible
    | true =>
      rw [if_pos rfl, ← mem_ballots_of_counts counts]
      simp only [mem_cons, forall_eq_or_imp, true_implies]
      exact and_iff_left older
  | block block => exact iff_of_true held trivial
  | clean tip now =>
    refine iff_of_true ?_ trivial
    intro vote inside
    obtain ⟨member, waiting⟩ := mem_filter.mp inside
    cases tip with
    | false => exact held vote member
    | true =>
      rw [Bool.not_eq_true', ← Bool.not_eq_true, expires_iff] at waiting
      rw [SwiftState.step, (ballots_clean keyed now vote.txHash).2 waiting]
      exact held vote member

/-- From the empty maps on, no good vote is lost in a run exactly if every good
vote from the network is new by its hash and the node casts none itself. -/
theorem no_vote_lost_iff (inputs : List SwiftInput) :
    Runs.Throughout step NoneLost {} inputs ↔ Runs.Meets step Arrives {} inputs := by
  have keyed : ({} : VoteRun).Keyed := by
    intro txid lock found
    cases found
  have held : ({} : VoteRun).NoneLost := by
    intro vote impossible
    cases impossible
  refine Runs.throughout_iff_meets ?_ ?_ (fun run input impossible => by cases impossible)
    keyed held (Runs.Meets.trivial step {} inputs)
  · intro run input next keyed _ _ stepped _
    cases stepped
    exact keyed_step keyed input
  · intro run input next keyed _ held stepped
    exact step_noneLost_iff keyed held stepped

end VoteRun

namespace SwiftSample

/-- A vote of the masternode with the collateral (`masternode`, 0) for transaction 5. -/
def vote (masternode : Uint256) (nBlockHeight : Int) (signature : List UInt8) : CConsensusVote :=
  { vinMasternode := { prevout := ⟨masternode, 0⟩ }, txHash := 5, nBlockHeight := nBlockHeight
    vchMasterNodeSignature := signature }

/-- A vote from the masternode of the first rank. -/
def voteContext (signatureValid : Bool) : VoteContext :=
  { active := true, rank := 1, signatureValid := signatureValid, now := 1000 }

end SwiftSample

namespace SwiftState

open SwiftSample

/-- A vote that comes twice, a vote of another masternode, and the expiry. -/
theorem one_vote_each_repeated :
    Runs.Throughout next OneVoteEach {}
      [.txlvote (voteContext true) (vote 1 94 [1]), .txlvote (voteContext true) (vote 1 94 [1]),
        .txlvote (voteContext true) (vote 2 94 [1]), .clean true 5000,
        .txlvote (voteContext true) (vote 1 94 [1])] :=
  one_vote_each_throughout _ (by unfold NoCollision; decide)

end SwiftState

namespace VoteRun

open SwiftSample

/-- A forged vote keeps out the good one with the same hash, and the vote of the
node itself is not added to the lock. -/
theorem good_votes_lost :
    ¬ Runs.Throughout step NoneLost {}
        [.txlvote (voteContext false) (vote 1 94 [0]), .txlvote (voteContext true) (vote 1 94 [1])] ∧
      ¬ Runs.Throughout step NoneLost {}
        [.ix { Unvoted.context with acceptToMemoryPool := true, ownVote := some (vote 3 94 [1]) }
          Unvoted.tx] := by
  constructor
  · intro along
    have after := (along.2 _ rfl).2 _ rfl
    obtain ⟨lock, found, _⟩ := after (vote 1 94 [1]) mem_cons_self
    cases found
  · intro along
    have after := along.2 _ rfl
    obtain ⟨lock, found, held⟩ := after (vote 3 94 [1]) mem_cons_self
    cases found
    cases held

end VoteRun

end CentNode
