import CentNode.Masternode.SwiftVotes

/-!
# Requests and the owners of locked inputs

A request is stored under the hash of its transaction, and an input stays
locked until the lock of the transaction that holds it expires.  A vote that
completes a lock without a request breaks the first, the expiry of a competing
request the second.
-/

namespace CentNode

namespace SwiftState

/-- Every request is stored under the hash of its transaction. -/
def RequestsNamed (state : SwiftState) : Prop :=
  ∀ txid tx, state.mapTxLockReq.lookup txid = some tx → tx.hash = txid

/-- The inputs that are locked stay locked for the same transactions. -/
def InputsKept (before after : SwiftState) : Prop :=
  ∀ out txid, before.mapLockedInputs.lookup out = some txid →
    after.mapLockedInputs.lookup out = some txid

variable {state : SwiftState}

theorem lockInputs_kept_inputs (state : SwiftState) (tx : CTransaction) (txid : Uint256) :
    InputsKept state (state.lockInputs tx txid) := by
  intro out owner locked
  have taken : ¬ (out ∈ tx.prevouts ∧ state.mapLockedInputs.lookup out = none) := by
    rintro ⟨_, free⟩
    rw [locked] at free
    cases free
  rw [lockInputs, StdMap.lookup_insertAll, if_neg taken]
  exact locked

/-! ## Requests -/

/-- `insertNew` keeps the requests named exactly if it finds one or the new one
has the right hash. -/
theorem insertNew_named_iff (named : state.RequestsNamed) (txid : Uint256) (tx : CTransaction) :
    (∀ other found, (state.mapTxLockReq.insertNew txid tx).lookup other = some found →
        found.hash = other) ↔
      (state.mapTxLockReq.lookup txid).isSome = true ∨ tx.hash = txid := by
  simp only [StdMap.lookup_insertNew]
  constructor
  · intro after
    cases old : state.mapTxLockReq.lookup txid with
    | some request => exact Or.inl rfl
    | none => exact Or.inr (after txid tx (if_pos ⟨rfl, old⟩))
  · intro right other found there
    split at there
    case isTrue new =>
      obtain ⟨rfl, absent⟩ := new
      cases there
      rcases right with known | right
      · rw [absent] at known
        cases known
      · exact right
    case isFalse => exact named other found there

theorem createNewLock_requests (state : SwiftState) (context : IxContext) (tx : CTransaction) :
    (state.createNewLock context tx).mapTxLockReq = state.mapTxLockReq := by
  rw [createNewLock]
  split <;> rfl

theorem expireLock_requests (state : SwiftState) (txid : Uint256) (now : Int) :
    (state.expireLock txid now).mapTxLockReq = state.mapTxLockReq := by
  rw [expireLock]
  split <;> rfl

theorem checkForConflictingLocks_requests (state : SwiftState) (tx : CTransaction) (now : Int) :
    (state.checkForConflictingLocks tx now).2.mapTxLockReq = state.mapTxLockReq := by
  rw [checkForConflictingLocks]
  split
  · rfl
  · exact (expireLock_requests _ _ now).trans (expireLock_requests state tx.hash now)

theorem resolveConflicts_named (named : state.RequestsNamed) (tx : CTransaction) (now : Int) :
    (state.resolveConflicts tx now).RequestsNamed := by
  rw [resolveConflicts]
  split
  · dsimp only
    split
    · rw [RequestsNamed, checkForConflictingLocks_requests]
      exact named
    · rw [RequestsNamed, checkForConflictingLocks_requests]
      exact (insertNew_named_iff named tx.hash tx).mpr (Or.inr rfl)
  · exact named

theorem processIx_named (named : state.RequestsNamed) (context : IxContext) (tx : CTransaction) :
    (state.processIx context tx).RequestsNamed := by
  have created : (state.createNewLock context tx).RequestsNamed := by
    rw [RequestsNamed, createNewLock_requests]
    exact named
  rw [processIx]
  split
  · exact named
  · split
    · exact (insertNew_named_iff created tx.hash tx).mpr (Or.inr rfl)
    · rw [ixRejected]
      refine resolveConflicts_named ?_ tx context.now
      exact created

theorem processIx_inputs (state : SwiftState) (context : IxContext) (tx : CTransaction) :
    InputsKept state (state.processIx context tx) := by
  intro out txid locked
  rw [← createNewLock_inputs state context tx] at locked
  rw [processIx]
  split
  · rw [← createNewLock_inputs state context tx]
    exact locked
  · split
    · exact locked
    · rw [(ixRejected_sameVotes (state.createNewLock context tx) context tx).inputs]
      exact lockInputs_kept_inputs _ tx tx.hash out txid locked

/-! ## Votes -/

/-- The vote is taken and gives the lock of its transaction, which has a height,
the last vote it needs or one more. -/
def Completes (state : SwiftState) (context : VoteContext) (vote : CConsensusVote) : Prop :=
  context.active = true ∧ state.seen vote.getHash = false ∧ context.counts = true ∧
    ∃ lock, state.mapTxLocks.lookup vote.txHash = some lock ∧ lock.nBlockHeight ≠ 0 ∧
      swiftTXSignaturesRequired ≤
        ((vote :: lock.vecConsensusVotes).countP fun other =>
          other.nBlockHeight = lock.nBlockHeight : Nat)

theorem enough_addSignature_iff (lock : CTransactionLock) (vote : CConsensusVote) :
    swiftTXSignaturesRequired ≤ (lock.addSignature vote).countSignatures ↔
      lock.nBlockHeight ≠ 0 ∧ swiftTXSignaturesRequired ≤
        ((vote :: lock.vecConsensusVotes).countP fun other =>
          other.nBlockHeight = lock.nBlockHeight : Nat) := by
  have votes_eq : (lock.addSignature vote).vecConsensusVotes = lock.vecConsensusVotes ++ [vote] :=
    rfl
  have height_eq : (lock.addSignature vote).nBlockHeight = lock.nBlockHeight := rfl
  rw [CTransactionLock.countSignatures, votes_eq, height_eq]
  by_cases unset : lock.nBlockHeight = 0
  · rw [if_pos unset]
    exact iff_of_false (by decide) fun holds => holds.1 unset
  · rw [if_neg unset, List.countP_append, List.countP_singleton, List.countP_cons]
    exact (and_iff_right unset).symm

theorem complete_addVote_iff (state : SwiftState) (vote : CConsensusVote) (now : Int) :
    (state.addVote vote now).complete vote.txHash = true ↔
      ∃ lock, state.mapTxLocks.lookup vote.txHash = some lock ∧ lock.nBlockHeight ≠ 0 ∧
        swiftTXSignaturesRequired ≤
          ((vote :: lock.vecConsensusVotes).countP fun other =>
            other.nBlockHeight = lock.nBlockHeight : Nat) := by
  rw [complete_iff, addVote]
  simp only [AList.lookup_insert, Option.some.injEq, exists_eq_left', enough_addSignature_iff]
  cases state.mapTxLocks.lookup vote.txHash with
  | none =>
    -- a lock that the vote makes has no height
    refine iff_of_false (fun holds => holds.1 rfl) ?_
    rintro ⟨lock, impossible, _⟩
    cases impossible
  | some lock => simp only [Option.getD_some, Option.some.injEq, exists_eq_left']

theorem completeLock_requests (state : SwiftState) (txHash : Uint256) (now : Int) :
    (state.completeLock txHash now).mapTxLockReq =
      state.mapTxLockReq.insertNew txHash CTransaction.empty := by
  rw [completeLock]
  split <;> exact checkForConflictingLocks_requests _ _ now

theorem completeLock_inputs (state : SwiftState) (txHash : Uint256) (now : Int) :
    InputsKept state (state.completeLock txHash now) := by
  have checked := (checkForConflictingLocks_sameVotes
    { state with mapTxLockReq := state.mapTxLockReq.insertNew txHash CTransaction.empty }
    ((state.mapTxLockReq.lookup txHash).getD CTransaction.empty) now).inputs
  intro out txid locked
  have same := locked
  rw [← checked] at same
  rw [completeLock]
  split
  · exact same
  · exact lockInputs_kept_inputs _ _ txHash out txid same

/-- What a `txlvote` does to requests and locked inputs. -/
theorem processVote_requests (state : SwiftState) (context : VoteContext) (vote : CConsensusVote) :
    InputsKept state (state.processVote context vote) ∧
      ((¬ state.Completes context vote ∧
          (state.processVote context vote).mapTxLockReq = state.mapTxLockReq) ∨
        (state.Completes context vote ∧
          (state.processVote context vote).mapTxLockReq =
            state.mapTxLockReq.insertNew vote.txHash CTransaction.empty)) := by
  have completes_iff : state.Completes context vote ↔
      ¬ (context.active = false ∨ state.seen vote.getHash = true) ∧ ¬ context.counts = false ∧
        ((state.note vote).addVote vote context.now).complete vote.txHash = true := by
    rw [complete_addVote_iff, not_or, Bool.not_eq_false, Bool.not_eq_true, Bool.not_eq_false,
      and_assoc]
    exact Iff.rfl
  rw [processVote_eq, completes_iff]
  split
  case isTrue idle =>
    exact ⟨fun _ _ locked => locked, Or.inl ⟨fun completes => completes.1 idle, rfl⟩⟩
  case isFalse taken =>
    split
    case isTrue bad =>
      exact ⟨fun _ _ locked => locked, Or.inl ⟨fun completes => completes.2.1 bad, rfl⟩⟩
    case isFalse good =>
      split
      case isTrue enough =>
        refine ⟨?_, Or.inr ⟨⟨taken, good, enough⟩, completeLock_requests _ vote.txHash context.now⟩⟩
        exact completeLock_inputs ((state.note vote).addVote vote context.now) vote.txHash
          context.now
      case isFalse missing =>
        exact ⟨fun _ _ locked => locked,
          Or.inl ⟨fun completes => missing completes.2.2, rfl⟩⟩

theorem processVote_named_iff (named : state.RequestsNamed) (context : VoteContext)
    (vote : CConsensusVote) :
    (state.processVote context vote).RequestsNamed ↔
      (state.Completes context vote →
        (state.mapTxLockReq.lookup vote.txHash).isSome = true ∨
          vote.txHash = CTransaction.empty.hash) := by
  rw [RequestsNamed]
  rcases (processVote_requests state context vote).2 with ⟨waits, same⟩ | ⟨completes, inserted⟩
  · rw [same]
    exact iff_of_true named fun completes => absurd completes waits
  · rw [inserted, insertNew_named_iff named, forall_prop_of_true completes]
    exact or_congr_right eq_comm

/-! ## The sweep -/

theorem cleanLock_requests {now : Int} {key txid : Uint256} {lock : CTransactionLock}
    {tx : CTransaction} (after : (state.cleanLock now key lock).mapTxLockReq.lookup txid = some tx) :
    state.mapTxLockReq.lookup txid = some tx := by
  rw [cleanLock] at after
  split at after
  · cases found : state.mapTxLockReq.lookup lock.txHash with
    | none =>
      rw [found] at after
      exact after
    | some request =>
      rw [found] at after
      simp only [eraseLock, forgetRequest, StdMap.lookup_erase_ite] at after
      split at after
      · cases after
      · exact after
  · exact after

theorem clean_named (named : state.RequestsNamed) (tip : Bool) (now : Int) :
    (state.cleanTransactionLocksList tip now).RequestsNamed := by
  have loop : ∀ (entries : List LockEntry) (current : SwiftState), current.RequestsNamed →
      (entries.foldl (fun current entry => current.cleanLock now entry.1 entry.2)
        current).RequestsNamed := by
    intro entries
    induction entries with
    | nil => exact fun current named => named
    | cons entry rest ih =>
      intro current named
      exact ih _ fun txid tx found => named txid tx (cleanLock_requests found)
  rw [cleanTransactionLocksList]
  split
  · exact loop _ state named
  · exact named

/-- Every locked input that the request of an expired lock spends is locked for
a transaction whose own lock has expired. -/
def SweepOwned (state : SwiftState) (now : Int) : Prop :=
  ∀ txid tx, state.Expired now txid → state.mapTxLockReq.lookup txid = some tx →
    ∀ out ∈ tx.prevouts, ∀ owner, state.mapLockedInputs.lookup out = some owner →
      state.Expired now owner

end SwiftState

/-! ## Runs -/

/-- The last step of a run: the maps before and after it. -/
structure LockRun where
  before : SwiftState := {}
  last : Option SwiftInput := none
  state : SwiftState := {}

namespace LockRun

open SwiftState

def step (run : LockRun) (input : SwiftInput) : Option LockRun :=
  some { before := run.state, last := some input, state := run.state.step input }

/-- Every lock is stored under the hash of its transaction. -/
def Keyed (run : LockRun) : Prop := run.state.Keyed

/-- The lock of the transaction expires in the last step. -/
def LockExpires (run : LockRun) (txid : Uint256) : Prop :=
  ∃ now, run.last = some (.clean true now) ∧ run.before.Expired now txid

/-- Every request is stored under its hash, and an input is unlocked only when
the lock of the transaction it is locked for expires. -/
structure Owned (run : LockRun) : Prop where
  named : ∀ txid tx, run.state.mapTxLockReq.lookup txid = some tx → tx.hash = txid
  unlocked : ∀ out txid, run.before.mapLockedInputs.lookup out = some txid →
    run.state.mapLockedInputs.lookup out ≠ some txid → run.LockExpires txid

/-- A vote completes a lock only when there is a request for it, and a sweep
finds the inputs of expired requests locked for expired locks. -/
def StepOwned (run : LockRun) : SwiftInput → Prop
  | .txlvote context vote => run.state.Completes context vote →
      (run.state.mapTxLockReq.lookup vote.txHash).isSome = true ∨
        vote.txHash = CTransaction.empty.hash
  | .clean tip now => tip = true → run.state.SweepOwned now
  | _ => True

variable {run next : LockRun}

theorem Owned.of_kept {before after : SwiftState} {input : SwiftInput}
    (named : after.RequestsNamed) (kept : InputsKept before after) :
    Owned { before := before, last := some input, state := after } :=
  ⟨named, fun out txid locked gone => absurd (kept out txid locked) gone⟩

theorem clean_owned_iff (keyed : run.Keyed) (named : run.state.RequestsNamed) (now : Int) :
    Owned { before := run.state, last := some (.clean true now)
            state := run.state.cleanTransactionLocksList true now } ↔
      run.state.SweepOwned now := by
  have swept := clean_swept keyed now
  constructor
  · intro owned txid tx expired found out member owner locked
    have gone : (run.state.cleanTransactionLocksList true now).mapLockedInputs.lookup out ≠
        some owner := by
      intro there
      exact ((swept.inputs out owner).mp there).2 ⟨txid, tx, expired, found, member⟩
    obtain ⟨moment, same, expires⟩ := owned.unlocked out owner locked gone
    cases same
    exact expires
  · intro sweeps
    refine ⟨clean_named named true now, fun out owner locked gone => ?_⟩
    have unlocked : UnlockedIn run.state.mapTxLocks.entries now run.state out := by
      by_contra kept
      exact gone ((swept.inputs out owner).mpr ⟨locked, kept⟩)
    obtain ⟨txid, tx, expired, found, member⟩ := unlocked
    exact ⟨now, rfl, sweeps txid tx expired found out member owner locked⟩

theorem step_owned_iff {input : SwiftInput} (keyed : run.Keyed) (owned : run.Owned)
    (stepped : run.step input = some next) : next.Owned ↔ run.StepOwned input := by
  cases stepped
  have named : run.state.RequestsNamed := owned.named
  cases input with
  | ix context tx =>
    refine iff_of_true ?_ trivial
    exact Owned.of_kept (processIx_named named context tx) (processIx_inputs run.state context tx)
  | txlvote context vote =>
    rw [StepOwned, ← processVote_named_iff named]
    constructor
    · exact fun after => after.named
    · exact fun after => Owned.of_kept after (processVote_requests run.state context vote).1
  | block block => exact iff_of_true (Owned.of_kept named fun _ _ locked => locked) trivial
  | clean tip now =>
    cases tip with
    | false =>
      refine iff_of_true (Owned.of_kept named fun _ _ locked => locked) ?_
      intro impossible
      cases impossible
    | true =>
      have sweeps := clean_owned_iff keyed named now
      exact sweeps.trans ⟨fun holds _ => holds, fun holds => holds rfl⟩

/-- From the empty maps on, requests are stored under their hashes and inputs
are unlocked by their own locks in every state of a run exactly if no vote
completes a lock without a request and no sweep meets a competing request. -/
theorem locks_owned_throughout_iff (inputs : List SwiftInput) :
    Runs.Throughout step Owned {} inputs ↔ Runs.Meets step StepOwned {} inputs := by
  have keyed : ({} : LockRun).Keyed := by
    intro txid lock found
    cases found
  have owned : ({} : LockRun).Owned := by
    refine ⟨fun txid tx found => ?_, fun out txid locked _ => ?_⟩
    · cases found
    · cases locked
  refine Runs.throughout_iff_meets ?_ ?_ (fun run input impossible => by cases impossible)
    keyed owned (Runs.Meets.trivial step {} inputs)
  · intro run input next keyed _ _ stepped _
    cases stepped
    exact VoteRun.keyed_step keyed input
  · intro run input next keyed _ owned stepped
    exact step_owned_iff keyed owned stepped

end LockRun

namespace SwiftSample

/-- A transaction that competes for the output (1, 0). -/
def rival : CTransaction := { hash := 6, vin := [{ prevout := ⟨1, 0⟩ }], vout := [⟨90, [0x6a]⟩] }

/-- Six votes for the rejected transaction 5. -/
def sixVotes : List SwiftInput :=
  [1, 2, 3, 4, 5, 6].map fun masternode => .txlvote (voteContext true) (vote masternode 94 [1])

/-- The rival is accepted, and the transaction that is rejected later takes its
input before the rival expires. -/
def competing : List SwiftInput :=
  [.ix { Unvoted.context with acceptToMemoryPool := true } rival,
    .ix { Unvoted.context with now := 3000 } Unvoted.tx, .clean true 5000]

end SwiftSample

namespace LockRun

open SwiftSample

/-- Votes complete the lock of a rejected transaction, whose request is then an
empty transaction; and the expiry of a rival unlocks an input of another
transaction. -/
theorem requests_and_locks_broken :
    ¬ Runs.Throughout step Owned {} (.ix Unvoted.context Unvoted.tx :: sixVotes) ∧
      ¬ Runs.Throughout step Owned {} competing := by
  constructor
  · intro along
    have three := ((along.2 _ rfl).2 _ rfl).2 _ rfl
    have after := (((three.2 _ rfl).2 _ rfl).2 _ rfl).2 _ rfl
    have wrong := after.named 5 CTransaction.empty (by decide)
    revert wrong
    decide
  · intro along
    have after := ((along.2 _ rfl).2 _ rfl).2 _ rfl
    obtain ⟨now, same, lock, found, expired⟩ := after.unlocked ⟨1, 0⟩ 5 (by decide) (by decide)
    cases same
    cases found
    revert expired
    decide

end LockRun

end CentNode
