import CentNode.Library.Runs
import CentNode.Masternode.SwiftTX

/-!
# Locked inputs and their votes

Every locked input should be locked for a transaction whose lock is complete.
A rejected request and the expiry of locks break this; the steps that keep it
are determined here.
-/

namespace CentNode

open StdMap List Option CTransactionLock

namespace SwiftState

/-- Every locked input is locked for a transaction with the required votes. -/
def LocksComplete (state : SwiftState) : Prop :=
  ∀ out txid, state.mapLockedInputs.lookup out = some txid →
    ∃ lock, state.mapTxLocks.lookup txid = some lock ∧
      swiftTXSignaturesRequired ≤ lock.countSignatures

/-- A request for the transaction is known, as accepted or as rejected. -/
def requested (state : SwiftState) (txid : Uint256) : Bool :=
  (state.mapTxLockReq.lookup txid).isSome || (state.mapTxLockReqRejected.lookup txid).isSome

/-- A lock is stored under the hash of its transaction, and inputs are locked
only for transactions that were requested. -/
structure Recorded (state : SwiftState) : Prop where
  keyed : ∀ txid lock, state.mapTxLocks.lookup txid = some lock → lock.txHash = txid
  requested : ∀ out txid, state.mapLockedInputs.lookup out = some txid → state.requested txid = true

variable {state : SwiftState}

variable {txid : Uint256}

theorem complete_iff :
    state.complete txid = true ↔ ∃ lock, state.mapTxLocks.lookup txid = some lock ∧
      swiftTXSignaturesRequired ≤ lock.countSignatures := by
  rw [complete]
  cases state.mapTxLocks.lookup txid with
  | none => simp
  | some lock => simp

theorem locksComplete_iff :
    state.LocksComplete ↔ ∀ out txid, state.mapLockedInputs.lookup out = some txid →
      state.complete txid = true := by
  simp only [LocksComplete, complete_iff]

/-! ## The functions that change locks -/

/-- What is left of the locks, requests and inputs when only expiry times change. -/
structure SameVotes (before after : SwiftState) : Prop where
  inputs : after.mapLockedInputs = before.mapLockedInputs
  requests : ∀ txid, after.requested txid = before.requested txid
  complete : ∀ txid, after.complete txid = before.complete txid
  keyed : (∀ txid lock, before.mapTxLocks.lookup txid = some lock → lock.txHash = txid) →
    ∀ txid lock, after.mapTxLocks.lookup txid = some lock → lock.txHash = txid

theorem SameVotes.trans {first second third : SwiftState} (one : SameVotes first second)
    (two : SameVotes second third) : SameVotes first third where
  inputs := two.inputs.trans one.inputs
  requests := fun txid => (two.requests txid).trans (one.requests txid)
  complete := fun txid => (two.complete txid).trans (one.complete txid)
  keyed := fun before => two.keyed (one.keyed before)

theorem SameVotes.refl (state : SwiftState) : SameVotes state state :=
  ⟨rfl, fun _ => rfl, fun _ => rfl, fun before => before⟩

theorem expireLock_sameVotes (state : SwiftState) (txid : Uint256) (now : Int) :
    SameVotes state (state.expireLock txid now) := by
  rw [expireLock]
  cases found : state.mapTxLocks.lookup txid with
  | none => exact SameVotes.refl state
  | some lock =>
    refine ⟨rfl, fun _ => rfl, fun other => ?_, fun before other expired there => ?_⟩
    · simp only [complete, lookup_insert_ite]
      by_cases same : other = txid
      · subst same
        rw [if_pos rfl, found]
        rfl
      · rw [if_neg same]
    · rw [lookup_insert_ite] at there
      split at there
      case isTrue same =>
        cases there
        rw [same]
        exact before txid lock found
      case isFalse => exact before other expired there

theorem checkForConflictingLocks_sameVotes (state : SwiftState) (tx : CTransaction) (now : Int) :
    SameVotes state (state.checkForConflictingLocks tx now).2 := by
  rw [checkForConflictingLocks]
  cases state.conflictingLock tx with
  | none => exact SameVotes.refl state
  | some txid =>
    exact (expireLock_sameVotes state tx.hash now).trans (expireLock_sameVotes _ txid now)

/-- The votes that the transaction of an `ix` has already, counted at the height
that `CreateNewLock` gives to its lock, are enough. -/
def Voted (state : SwiftState) (context : IxContext) (tx : CTransaction) : Prop :=
  ∃ lock, state.mapTxLocks.lookup tx.hash = some lock ∧
    swiftTXSignaturesRequired ≤
      (if tooNew context tx then lock
        else { lock with nBlockHeight := lockHeight context tx }).countSignatures

theorem not_complete_new (txid : Uint256) (nBlockHeight now : Int) :
    ¬ swiftTXSignaturesRequired ≤
      (new txid nBlockHeight now).countSignatures := by
  rw [countSignatures]
  split
  · decide
  · have votes_eq : (new txid nBlockHeight now).vecConsensusVotes = [] := rfl
    rw [votes_eq, countP_nil]
    decide

theorem complete_createNewLock (state : SwiftState) (context : IxContext) (tx : CTransaction) :
    (state.createNewLock context tx).complete tx.hash = true ↔ state.Voted context tx := by
  rw [complete_iff, createNewLock, Voted]
  split
  · rfl
  · simp only [AList.lookup_insert, Option.some.injEq, exists_eq_left']
    cases state.mapTxLocks.lookup tx.hash with
    | none => simp [not_complete_new]
    | some lock => simp

theorem complete_createNewLock_ne (state : SwiftState) (context : IxContext) (tx : CTransaction)
    (differs : txid ≠ tx.hash) :
    (state.createNewLock context tx).complete txid = state.complete txid := by
  rw [createNewLock]
  split
  · rfl
  · rw [complete, lookup_insert_ite, if_neg differs]
    rfl

theorem createNewLock_keyed (context : IxContext) (tx : CTransaction)
    (keyed : ∀ txid lock, state.mapTxLocks.lookup txid = some lock → lock.txHash = txid) :
    ∀ txid lock, (state.createNewLock context tx).mapTxLocks.lookup txid = some lock →
      lock.txHash = txid := by
  intro txid lock found
  rw [createNewLock] at found
  split at found
  · exact keyed txid lock found
  · rw [lookup_insert_ite] at found
    split at found
    case isTrue same =>
      subst same
      cases old : state.mapTxLocks.lookup tx.hash with
      | none =>
        rw [old] at found
        cases found
        rfl
      | some lock =>
        rw [old] at found
        cases found
        exact keyed tx.hash lock old
    case isFalse => exact keyed txid lock found

theorem createNewLock_inputs (state : SwiftState) (context : IxContext) (tx : CTransaction) :
    (state.createNewLock context tx).mapLockedInputs = state.mapLockedInputs := by
  rw [createNewLock]
  split <;> rfl

theorem createNewLock_requested (state : SwiftState) (context : IxContext) (tx : CTransaction)
    (txid : Uint256) :
    (state.createNewLock context tx).requested txid = state.requested txid := by
  rw [createNewLock]
  split <;> rfl

/-! ## Requests -/

theorem ixAccepted_requested (state : SwiftState) (context : IxContext) (tx : CTransaction)
    (txid : Uint256) :
    (state.ixAccepted context tx).requested txid =
      (decide (txid = tx.hash) || state.requested txid) := by
  rw [requested, requested, ixAccepted, isSome_lookup_insertNew, Bool.or_assoc]

theorem insertRequest_sameVotes (tx : CTransaction) (known : state.requested txid = true) :
    SameVotes state { state with mapTxLockReq := state.mapTxLockReq.insertNew txid tx } := by
  refine ⟨rfl, fun other => ?_, fun _ => rfl, fun before => before⟩
  rw [requested, isSome_lookup_insertNew, Bool.or_assoc]
  by_cases same : other = txid
  · rw [same, known, decide_eq_true rfl, Bool.true_or]
  · rw [decide_eq_false same, Bool.false_or]
    rfl

theorem resolveConflicts_sameVotes {tx : CTransaction} (known : state.requested tx.hash = true)
    (now : Int) : SameVotes state (state.resolveConflicts tx now) := by
  have checked := checkForConflictingLocks_sameVotes state tx now
  rw [resolveConflicts]
  split
  · simp only
    split
    · exact checked
    · exact checked.trans (insertRequest_sameVotes tx ((checked.requests tx.hash).trans known))
  · exact SameVotes.refl state

/-- A rejected `ix` locks the inputs that are free; all else about locks and
votes is as before. -/
theorem ixRejected_sameVotes (state : SwiftState) (context : IxContext) (tx : CTransaction) :
    SameVotes
      { state with
        mapTxLockReqRejected := state.mapTxLockReqRejected.insertNew tx.hash tx
        mapLockedInputs := state.mapLockedInputs.insertAll tx.prevouts tx.hash }
      (state.ixRejected context tx) := by
  refine resolveConflicts_sameVotes ?_ context.now
  simp [requested, isSome_lookup_insertNew]

theorem requested_insertRejected (state : SwiftState) (tx : CTransaction)
    (locked : StdMap COutPoint Uint256) (txid : Uint256) :
    ({ state with
      mapTxLockReqRejected := state.mapTxLockReqRejected.insertNew tx.hash tx
      mapLockedInputs := locked }).requested txid =
        (decide (txid = tx.hash) || state.requested txid) := by
  rw [requested, requested, isSome_lookup_insertNew, Bool.or_left_comm]

/-- The `ix` goes through to the memory pool, which rejects it. -/
def rejects (state : SwiftState) (context : IxContext) (tx : CTransaction) : Bool :=
  !state.ignores context tx && !state.accepts context tx

theorem requested_of_not_ignores {context : IxContext} {tx : CTransaction}
    (taken : state.ignores context tx = false) : state.requested tx.hash = false := by
  simp only [ignores, Bool.or_eq_false_iff] at taken
  rw [requested, taken.1.1.1.2, taken.1.1.2]
  rfl

/-- Some input of the transaction is not locked yet. -/
def hasFreeInput (state : SwiftState) (tx : CTransaction) : Bool :=
  tx.prevouts.any fun prevout => (state.mapLockedInputs.lookup prevout).isNone

section

variable (recorded : state.Recorded) (complete : state.LocksComplete) {context : IxContext}
  {tx : CTransaction} (taken : state.ignores context tx = false)

include recorded complete taken

theorem complete_of_locked
    {out : COutPoint} (locked : state.mapLockedInputs.lookup out = some txid) :
    (state.createNewLock context tx).complete txid = true := by
  have differs : txid ≠ tx.hash := by
    rintro rfl
    have known := recorded.requested out _ locked
    rw [requested_of_not_ignores taken] at known
    cases known
  rw [complete_createNewLock_ne state context tx differs]
  exact locksComplete_iff.mp complete out txid locked

theorem ixAccepted_complete :
    ((state.createNewLock context tx).ixAccepted context tx).LocksComplete := by
  rw [locksComplete_iff]
  intro out txid locked
  have before : state.mapLockedInputs.lookup out = some txid :=
    createNewLock_inputs state context tx ▸ locked
  exact complete_of_locked recorded complete taken before

theorem ixRejected_complete_iff :
    ((state.createNewLock context tx).ixRejected context tx).LocksComplete ↔
      (state.hasFreeInput tx = true → state.Voted context tx) := by
  have same := ixRejected_sameVotes (state.createNewLock context tx) context tx
  have completes : ∀ txid, ((state.createNewLock context tx).ixRejected context tx).complete txid =
      (state.createNewLock context tx).complete txid := same.complete
  rw [locksComplete_iff, same.inputs, ← complete_createNewLock]
  simp only [completes, lookup_insertAll, createNewLock_inputs]
  constructor
  · intro holds free
    obtain ⟨prevout, member, unlocked⟩ := List.any_eq_true.mp free
    refine holds prevout tx.hash ?_
    rw [if_pos ⟨member, isNone_iff_eq_none.mp unlocked⟩]
  · intro voted out txid locked
    split at locked
    case isTrue free =>
      cases locked
      refine voted (List.any_eq_true.mpr ⟨out, free.1, ?_⟩)
      rw [free.2, isNone_none]
    case isFalse => exact complete_of_locked recorded complete taken locked

end

/-- After an `ix` the locks are complete exactly if a rejected transaction with
free inputs has its votes. -/
theorem processIx_complete_iff (recorded : state.Recorded) (complete : state.LocksComplete)
    (context : IxContext) (tx : CTransaction) :
    (state.processIx context tx).LocksComplete ↔
      (state.rejects context tx = true → state.hasFreeInput tx = true →
        state.Voted context tx) := by
  rw [processIx, rejects]
  cases taken : state.ignores context tx with
  | true => simpa using complete
  | false =>
    cases state.accepts context tx with
    | true => simpa using ixAccepted_complete recorded complete taken
    | false => simpa using ixRejected_complete_iff recorded complete taken

theorem processIx_recorded (recorded : state.Recorded) (context : IxContext) (tx : CTransaction) :
    (state.processIx context tx).Recorded := by
  have keyed := createNewLock_keyed context tx recorded.keyed
  have known : ∀ txid, state.requested txid = true →
      (decide (txid = tx.hash) || (state.createNewLock context tx).requested txid) = true := by
    intro txid requested
    rw [createNewLock_requested, requested, Bool.or_true]
  rw [processIx]
  split
  · exact recorded
  · split
    · refine ⟨keyed, fun out txid locked => ?_⟩
      rw [ixAccepted_requested]
      exact known txid (recorded.requested out txid (createNewLock_inputs state context tx ▸ locked))
    · have same := ixRejected_sameVotes (state.createNewLock context tx) context tx
      refine ⟨same.keyed keyed, fun out txid locked => ?_⟩
      rw [same.requests, requested_insertRejected]
      rw [same.inputs, lookup_insertAll, createNewLock_inputs] at locked
      split at locked
      · cases locked
        rw [decide_eq_true rfl, Bool.true_or]
      · exact known txid (recorded.requested out txid locked)

/-! ## Votes -/

theorem countSignatures_addSignature (lock : CTransactionLock) (vote : CConsensusVote) :
    lock.countSignatures ≤ (lock.addSignature vote).countSignatures := by
  rw [countSignatures, countSignatures,
    addSignature]
  split
  · exact le_rfl
  · simp only [countP_append]
    omega

theorem addVote_complete (state : SwiftState) (vote : CConsensusVote) (now : Int)
    (complete : state.complete txid = true) : (state.addVote vote now).complete txid = true := by
  obtain ⟨lock, found, enough⟩ := complete_iff.mp complete
  rw [complete_iff, addVote]
  simp only [lookup_insert_ite]
  by_cases same : txid = vote.txHash
  · subst same
    refine ⟨lock.addSignature vote, ?_, enough.trans (countSignatures_addSignature lock vote)⟩
    rw [if_pos rfl, found, getD_some]
  · exact ⟨lock, by rw [if_neg same, found], enough⟩

theorem addVote_keyed (vote : CConsensusVote) (now : Int)
    (keyed : ∀ txid lock, state.mapTxLocks.lookup txid = some lock → lock.txHash = txid) :
    ∀ txid lock, (state.addVote vote now).mapTxLocks.lookup txid = some lock →
      lock.txHash = txid := by
  intro txid lock found
  simp only [addVote, lookup_insert_ite] at found
  split at found
  case isTrue same =>
    subst same
    cases found
    cases old : state.mapTxLocks.lookup vote.txHash with
    | none => rfl
    | some lock => exact keyed _ lock old
  case isFalse => exact keyed txid lock found

theorem addVote_recorded (recorded : state.Recorded) (vote : CConsensusVote) (now : Int) :
    (state.addVote vote now).Recorded :=
  ⟨addVote_keyed vote now recorded.keyed, recorded.requested⟩

theorem addVote_locksComplete (complete : state.LocksComplete) (vote : CConsensusVote)
    (now : Int) : (state.addVote vote now).LocksComplete := by
  rw [locksComplete_iff] at complete ⊢
  exact fun out txid locked => addVote_complete state vote now (complete out txid locked)

theorem lockInputs_kept (recorded : state.Recorded) (complete : state.LocksComplete)
    (tx : CTransaction) (known : state.requested txid = true)
    (enough : state.complete txid = true) :
    (state.lockInputs tx txid).Recorded ∧ (state.lockInputs tx txid).LocksComplete := by
  rw [locksComplete_iff] at complete ⊢
  have locked_iff : ∀ {out other}, (state.lockInputs tx txid).mapLockedInputs.lookup out =
      some other → other = txid ∨ state.mapLockedInputs.lookup out = some other := by
    intro out other locked
    rw [lockInputs, lookup_insertAll] at locked
    split at locked
    · exact Or.inl (Option.some.inj locked).symm
    · exact Or.inr locked
  refine ⟨⟨recorded.keyed, fun out other locked => ?_⟩, fun out other locked => ?_⟩
  · rcases locked_iff locked with rfl | old
    · exact known
    · exact recorded.requested out other old
  · rcases locked_iff locked with rfl | old
    · exact enough
    · exact complete out other old

theorem SameVotes.kept {before after : SwiftState} (same : SameVotes before after)
    (recorded : before.Recorded) (complete : before.LocksComplete) :
    after.Recorded ∧ after.LocksComplete := by
  rw [locksComplete_iff] at complete ⊢
  refine ⟨⟨same.keyed recorded.keyed, fun out txid locked => ?_⟩, fun out txid locked => ?_⟩
  · rw [same.requests]
    exact recorded.requested out txid (same.inputs ▸ locked)
  · rw [same.complete]
    exact complete out txid (same.inputs ▸ locked)

section

variable (recorded : state.Recorded) (complete : state.LocksComplete)

include recorded complete

/-- A request that is made empty by `operator[]`, or was there. -/
theorem insertRequest_kept (txid : Uint256) (tx : CTransaction) :
    let requests := { state with mapTxLockReq := state.mapTxLockReq.insertNew txid tx }
    requests.Recorded ∧ requests.LocksComplete := by
  refine ⟨⟨recorded.keyed, fun out other locked => ?_⟩, complete⟩
  have known := recorded.requested out other locked
  rw [requested, Bool.or_eq_true] at known
  rw [requested, isSome_lookup_insertNew, Bool.or_eq_true, Bool.or_eq_true]
  rcases known with accepted | rejected
  · exact Or.inl (Or.inr accepted)
  · exact Or.inr rejected

theorem completeLock_kept (enough : state.complete txid = true) (now : Int) :
    (state.completeLock txid now).Recorded ∧ (state.completeLock txid now).LocksComplete := by
  obtain ⟨recordedToo, completeToo⟩ := insertRequest_kept recorded complete txid CTransaction.empty
  have checked := checkForConflictingLocks_sameVotes
    { state with mapTxLockReq := state.mapTxLockReq.insertNew txid CTransaction.empty }
    ((state.mapTxLockReq.lookup txid).getD CTransaction.empty) now
  obtain ⟨recordedNow, completeNow⟩ := checked.kept recordedToo completeToo
  rw [completeLock]
  split
  · exact ⟨recordedNow, completeNow⟩
  · refine lockInputs_kept recordedNow completeNow _ ?_ ?_
    · rw [checked.requests]
      simp [requested, isSome_lookup_insertNew]
    · rw [checked.complete]
      exact enough

theorem processConsensusVote_kept (context : VoteContext) (vote : CConsensusVote) :
    (state.processConsensusVote context vote).Recorded ∧
      (state.processConsensusVote context vote).LocksComplete := by
  have recordedVote := addVote_recorded recorded vote context.now
  have completeVote := addVote_locksComplete complete vote context.now
  rw [processConsensusVote]
  split
  · exact ⟨recorded, complete⟩
  · simp only
    split
    case isTrue enough => exact completeLock_kept recordedVote completeVote enough context.now
    case isFalse => exact ⟨recordedVote, completeVote⟩

theorem processVote_kept (context : VoteContext) (vote : CConsensusVote) :
    (state.processVote context vote).Recorded ∧
      (state.processVote context vote).LocksComplete := by
  rw [processVote]
  split
  · exact ⟨recorded, complete⟩
  · refine processConsensusVote_kept ?_ ?_ context vote
    · exact ⟨recorded.keyed, recorded.requested⟩
    · exact complete

end

/-! ## The expiry of locks -/

/-- An element of `mapTxLocks`. -/
abbrev LockEntry : Type := Sigma fun _ : Uint256 => CTransactionLock

/-- The lock of the transaction is among the entries and has expired. -/
def ExpiredIn (entries : List LockEntry) (now : Int)
    (txid : Uint256) : Prop :=
  ∃ lock, entries.dlookup txid = some lock ∧ lock.nExpiration < now

/-- The sweep over the entries unlocks the outpoint: it is an input of the
request that an expired lock has. -/
def UnlockedIn (entries : List LockEntry) (now : Int)
    (state : SwiftState) (out : COutPoint) : Prop :=
  ∃ txid tx, ExpiredIn entries now txid ∧ state.mapTxLockReq.lookup txid = some tx ∧
    out ∈ tx.prevouts

/-- What the sweep over some entries does to the maps. -/
structure Swept (entries : List LockEntry) (now : Int)
    (before after : SwiftState) : Prop where
  inputs : ∀ out txid, after.mapLockedInputs.lookup out = some txid ↔
    before.mapLockedInputs.lookup out = some txid ∧ ¬ UnlockedIn entries now before out
  locks : ∀ txid lock, after.mapTxLocks.lookup txid = some lock ↔
    before.mapTxLocks.lookup txid = some lock ∧ ¬ ExpiredIn entries now txid
  requests : ∀ txid, ¬ ExpiredIn entries now txid →
    after.mapTxLockReq.lookup txid = before.mapTxLockReq.lookup txid
  rejected : ∀ txid, ¬ ExpiredIn entries now txid →
    after.mapTxLockReqRejected.lookup txid = before.mapTxLockReqRejected.lookup txid

variable {lock : CTransactionLock}

theorem expiredIn_singleton {other : Uint256} {now : Int} :
    ExpiredIn [⟨txid, lock⟩] now other ↔ other = txid ∧ lock.nExpiration < now := by
  rw [ExpiredIn]
  by_cases same : other = txid
  · subst same
    simp
  · have absent : dlookup other [(⟨txid, lock⟩ : LockEntry)] = none :=
      dlookup_cons_ne [] (⟨txid, lock⟩ : LockEntry) same
    rw [absent]
    simp [same]

theorem expiredIn_cons {entry : LockEntry} {rest : List LockEntry}
    (fresh : rest.dlookup entry.1 = none) {now : Int} :
    ExpiredIn (entry :: rest) now txid ↔ ExpiredIn [entry] now txid ∨ ExpiredIn rest now txid := by
  obtain ⟨key, lock⟩ := entry
  rw [expiredIn_singleton, ExpiredIn, ExpiredIn]
  by_cases same : txid = key
  · subst same
    rw [dlookup_cons_eq, fresh]
    simp
  · rw [dlookup_cons_ne rest ⟨key, lock⟩ same]
    simp [same]

theorem cleanLock_swept (state : SwiftState) (now : Int) (keyed : lock.txHash = txid) :
    Swept [⟨txid, lock⟩] now state (state.cleanLock now txid lock) := by
  subst keyed
  rw [cleanLock]
  split
  case isFalse waiting =>
    have none_expired : ∀ other, ¬ ExpiredIn [⟨lock.txHash, lock⟩] now other := fun other expired =>
      waiting (expiredIn_singleton.mp expired).2
    have none_unlocked : ∀ out, ¬ UnlockedIn [⟨lock.txHash, lock⟩] now state out := by
      rintro out ⟨other, _, expired, _⟩
      exact none_expired other expired
    exact ⟨fun out other => by simp [none_unlocked], fun other lock => by simp [none_expired],
      fun _ _ => rfl, fun _ _ => rfl⟩
  case isTrue expired =>
    have expired_iff : ∀ other, ExpiredIn [⟨lock.txHash, lock⟩] now other ↔ other = lock.txHash :=
      fun other => expiredIn_singleton.trans (and_iff_left expired)
    have unlocked_iff : ∀ out, UnlockedIn [⟨lock.txHash, lock⟩] now state out ↔
        ∃ tx, state.mapTxLockReq.lookup lock.txHash = some tx ∧ out ∈ tx.prevouts := by
      intro out
      simp only [UnlockedIn, expired_iff]
      constructor
      · rintro ⟨other, tx, rfl, found, member⟩
        exact ⟨tx, found, member⟩
      · rintro ⟨tx, found, member⟩
        exact ⟨lock.txHash, tx, rfl, found, member⟩
    have locks_iff : ∀ other old,
        AList.lookup other (state.mapTxLocks.erase lock.txHash) = some old ↔
          state.mapTxLocks.lookup other = some old ∧ ¬ other = lock.txHash := by
      intro other old
      rw [lookup_erase_ite]
      by_cases same : other = lock.txHash <;> simp [same]
    cases found : state.mapTxLockReq.lookup lock.txHash with
    | none =>
      refine ⟨fun out other => ?_, fun other old => ?_, fun _ _ => rfl, fun _ _ => rfl⟩
      · rw [unlocked_iff, found]
        simp [eraseLock]
      · rw [expired_iff]
        exact locks_iff other old
    | some tx =>
      refine ⟨fun out other => ?_, fun other old => ?_, fun other apart => ?_,
        fun other apart => ?_⟩
      · rw [unlocked_iff, found]
        simp only [eraseLock, forgetRequest, lookup_eraseAll]
        by_cases member : out ∈ tx.prevouts <;> simp [member]
      · rw [expired_iff]
        exact locks_iff other old
      · rw [expired_iff] at apart
        simp only [eraseLock, forgetRequest, lookup_erase_ite, if_neg apart]
      · rw [expired_iff] at apart
        simp only [eraseLock, forgetRequest, lookup_erase_ite, if_neg apart]

theorem Swept.cons {entry : LockEntry}
    {rest : List LockEntry} (fresh : rest.dlookup entry.1 = none)
    {now : Int} {before middle after : SwiftState} (first : Swept [entry] now before middle)
    (later : Swept rest now middle after) : Swept (entry :: rest) now before after := by
  have apart : ∀ txid, ExpiredIn rest now txid → ¬ ExpiredIn [entry] now txid := by
    rintro txid ⟨lock, found, _⟩ ⟨other, foundToo, _⟩
    obtain ⟨key, own⟩ := entry
    have same : txid = key := (expiredIn_singleton.mp ⟨other, foundToo, by assumption⟩).1
    rw [same, fresh] at found
    cases found
  have unlocked : ∀ out, UnlockedIn (entry :: rest) now before out ↔
      UnlockedIn [entry] now before out ∨ UnlockedIn rest now middle out := by
    intro out
    simp only [UnlockedIn, expiredIn_cons fresh]
    constructor
    · rintro ⟨txid, tx, expired | expired, found, member⟩
      · exact Or.inl ⟨txid, tx, expired, found, member⟩
      · exact Or.inr ⟨txid, tx, expired, by rw [first.requests txid (apart txid expired), found],
          member⟩
    · rintro (⟨txid, tx, expired, found, member⟩ | ⟨txid, tx, expired, found, member⟩)
      · exact ⟨txid, tx, Or.inl expired, found, member⟩
      · exact ⟨txid, tx, Or.inr expired, by rw [← first.requests txid (apart txid expired), found],
          member⟩
  refine ⟨fun out txid => ?_, fun txid lock => ?_, fun txid waiting => ?_, fun txid waiting => ?_⟩
  · rw [later.inputs, first.inputs, unlocked, not_or, and_assoc]
  · rw [later.locks, first.locks, expiredIn_cons fresh, not_or, and_assoc]
  · rw [expiredIn_cons fresh, not_or] at waiting
    rw [later.requests txid waiting.2, first.requests txid waiting.1]
  · rw [expiredIn_cons fresh, not_or] at waiting
    rw [later.rejected txid waiting.2, first.rejected txid waiting.1]

theorem swept_foldl (now : Int) (entries : List LockEntry)
    (distinct : entries.NodupKeys) (keyed : ∀ entry ∈ entries, entry.2.txHash = entry.1)
    (state : SwiftState) :
    Swept entries now state
      (entries.foldl (fun current entry => current.cleanLock now entry.1 entry.2) state) := by
  induction entries generalizing state with
  | nil =>
    have none_expired : ∀ txid, ¬ ExpiredIn [] now txid := by
      rintro txid ⟨lock, impossible, _⟩
      cases impossible
    have none_unlocked : ∀ out, ¬ UnlockedIn [] now state out := by
      rintro out ⟨txid, _, expired, _⟩
      exact none_expired txid expired
    exact ⟨fun out txid => by simp [none_unlocked], fun txid lock => by simp [none_expired],
      fun _ _ => rfl, fun _ _ => rfl⟩
  | cons entry rest ih =>
    obtain ⟨fresh, restDistinct⟩ := nodupKeys_cons.mp distinct
    refine Swept.cons (dlookup_eq_none.mpr fresh)
      (cleanLock_swept state now (keyed entry mem_cons_self)) ?_
    exact ih restDistinct (fun other member => keyed other (mem_cons_of_mem entry member)) _

/-- The lock of the transaction has expired. -/
def Expired (state : SwiftState) (now : Int) (txid : Uint256) : Prop :=
  ∃ lock, state.mapTxLocks.lookup txid = some lock ∧ lock.nExpiration < now

/-- An input that is locked for a transaction whose lock has expired is an input
of a request with an expired lock. -/
def SweepCovers (state : SwiftState) (now : Int) : Prop :=
  ∀ out txid, state.mapLockedInputs.lookup out = some txid → state.Expired now txid →
    ∃ other tx, state.Expired now other ∧ state.mapTxLockReq.lookup other = some tx ∧
      out ∈ tx.prevouts

theorem clean_swept
    (keyed : ∀ txid lock, state.mapTxLocks.lookup txid = some lock → lock.txHash = txid)
    (now : Int) :
    Swept state.mapTxLocks.entries now state (state.cleanTransactionLocksList true now) :=
  swept_foldl now _ state.mapTxLocks.nodupKeys
    (fun entry member => keyed entry.1 entry.2 (AList.mem_lookup_iff.mpr member)) state

theorem clean_complete_iff (recorded : state.Recorded) (complete : state.LocksComplete)
    (now : Int) :
    (state.cleanTransactionLocksList true now).LocksComplete ↔ state.SweepCovers now := by
  have swept := clean_swept recorded.keyed now
  constructor
  · intro after out txid locked expired
    by_contra kept
    obtain ⟨lock, found, _⟩ := after out txid ((swept.inputs out txid).mpr ⟨locked, kept⟩)
    exact ((swept.locks txid lock).mp found).2 expired
  · intro covers out txid locked
    obtain ⟨before, kept⟩ := (swept.inputs out txid).mp locked
    obtain ⟨lock, found, enough⟩ := complete out txid before
    have waiting : ¬ state.Expired now txid := fun expired => kept (covers out txid before expired)
    exact ⟨lock, (swept.locks txid lock).mpr ⟨found, waiting⟩, enough⟩

theorem clean_recorded (recorded : state.Recorded) (now : Int)
    (after : (state.cleanTransactionLocksList true now).LocksComplete) :
    (state.cleanTransactionLocksList true now).Recorded := by
  have swept := clean_swept recorded.keyed now
  refine ⟨fun txid lock found => recorded.keyed txid lock ((swept.locks txid lock).mp found).1,
    fun out txid locked => ?_⟩
  -- the lock is still there, so nothing about its request was erased
  obtain ⟨lock, found, _⟩ := after out txid locked
  have waiting := ((swept.locks txid lock).mp found).2
  rw [requested, swept.requests txid waiting, swept.rejected txid waiting]
  exact recorded.requested out txid ((swept.inputs out txid).mp locked).1

/-! ## Runs -/

/-- The steps that keep every locked input backed by votes. -/
def StepOk (state : SwiftState) : SwiftInput → Prop
  | .ix context tx => state.rejects context tx = true → state.hasFreeInput tx = true →
      state.Voted context tx
  | .txlvote _ _ => True
  | .block _ => True
  | .clean tip now => tip = true → state.SweepCovers now

theorem step_complete_iff (recorded : state.Recorded) (complete : state.LocksComplete)
    (input : SwiftInput) : (state.step input).LocksComplete ↔ state.StepOk input := by
  cases input with
  | ix context tx => exact processIx_complete_iff recorded complete context tx
  | txlvote context vote =>
    exact iff_of_true (processVote_kept recorded complete context vote).2 True.intro
  | block block => exact iff_of_true complete True.intro
  | clean tip now =>
    cases tip with
    | false => exact iff_of_true complete (fun impossible => by cases impossible)
    | true =>
      rw [step, clean_complete_iff recorded complete now, StepOk]
      simp

theorem step_recorded (recorded : state.Recorded) (complete : state.LocksComplete)
    (input : SwiftInput) (after : (state.step input).LocksComplete) :
    (state.step input).Recorded := by
  cases input with
  | ix context tx => exact processIx_recorded recorded context tx
  | txlvote context vote => exact (processVote_kept recorded complete context vote).1
  | block block => exact recorded
  | clean tip now =>
    cases tip with
    | false => exact recorded
    | true => exact clean_recorded recorded now after

/-- The step as a component that never stops. -/
def next (state : SwiftState) (input : SwiftInput) : Option SwiftState := some (state.step input)

/-- From the empty maps on, every locked input has its votes in every state of
a run exactly if no rejected request locks an input without them and every
sweep unlocks what it leaves without a lock. -/
theorem locks_complete_throughout_iff (inputs : List SwiftInput) :
    Runs.Throughout next LocksComplete {} inputs ↔ Runs.Meets next StepOk {} inputs := by
  have recorded : ({} : SwiftState).Recorded :=
    ⟨fun txid lock found => (by cases found), fun out txid locked => (by cases locked)⟩
  have complete : ({} : SwiftState).LocksComplete := fun out txid locked => by cases locked
  refine Runs.throughout_iff_meets ?_ ?_ (fun state input impossible => by cases impossible)
    recorded complete (Runs.Meets.trivial next {} inputs)
  · intro state input after recorded _ complete stepped property
    cases stepped
    exact step_recorded recorded complete input property
  · intro state input after recorded _ complete stepped
    cases stepped
    exact step_complete_iff recorded complete input

end SwiftState

namespace Unvoted

/-- A transaction that spends the output (1, 0). -/
def tx : CTransaction := { hash := 5, vin := [{ prevout := ⟨1, 0⟩ }], vout := [⟨100, [0x6a]⟩] }

/-- The memory pool rejects the transaction, whose input is old enough. -/
def context : IxContext where
  active := true
  isIXTXValid := true
  scriptsNormal := true
  getInputAge := fun _ => 10
  tipHeight := 100
  now := 1000
  acceptToMemoryPool := false

end Unvoted

/-- A rejected `ix` locks its input although nobody has voted. -/
theorem locked_without_votes :
    ¬ Runs.Throughout SwiftState.next SwiftState.LocksComplete {}
      [.ix Unvoted.context Unvoted.tx] := by
  intro along
  have after := along.2 _ rfl
  obtain ⟨lock, found, enough⟩ := after ⟨1, 0⟩ 5 (by decide)
  cases found
  revert enough
  decide

end CentNode
