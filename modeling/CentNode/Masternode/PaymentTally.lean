import CentNode.Masternode.PaymentVotes

/-!
# The tally of the payment votes

`AddWinningMasternode` counts each vote it stores in a second map, per height
and payee; `CleanPaymentList` drops old votes and, with them, the whole count of
their height.
-/

namespace CentNode

open List StdMap

namespace CMasternodeBlockPayees

/-- The votes recorded for a script: those of its first entry. -/
def recorded (payees : CMasternodeBlockPayees) (script : CScript) : Int :=
  ((payees.vecPayments.find? fun payee => payee.scriptPubKey = script).map (·.nVotes)).getD 0

/-- No two entries have the same script. -/
def ScriptsDistinct (payees : CMasternodeBlockPayees) : Prop :=
  (payees.vecPayments.map (·.scriptPubKey)).Nodup

theorem mem_addPayment {payeeIn script : CScript} {nIncrement : Int}
    {vecPayments : List CMasternodePayee} :
    script ∈ (addPayment payeeIn nIncrement vecPayments).map (·.scriptPubKey) ↔
      script = payeeIn ∨ script ∈ vecPayments.map (·.scriptPubKey) := by
  induction vecPayments with
  | nil => simp [addPayment]
  | cons payee rest ih =>
    rw [addPayment]
    split
    case isTrue same => simp [same]
    case isFalse => rw [map_cons, mem_cons, ih, map_cons, mem_cons, or_left_comm]

theorem ScriptsDistinct.addPayee {payees : CMasternodeBlockPayees}
    (distinct : payees.ScriptsDistinct) (payeeIn : CScript) (nIncrement : Int) :
    (payees.addPayee payeeIn nIncrement).ScriptsDistinct := by
  obtain ⟨nBlockHeight, vecPayments⟩ := payees
  unfold ScriptsDistinct CMasternodeBlockPayees.addPayee at *
  dsimp only at *
  induction vecPayments with
  | nil => exact nodup_singleton _
  | cons payee rest ih =>
    rw [map_cons, nodup_cons] at distinct
    rw [addPayment]
    split
    case isTrue => exact nodup_cons.mpr distinct
    case isFalse other =>
      refine nodup_cons.mpr ⟨fun member => ?_, ih distinct.2⟩
      rcases mem_addPayment.mp member with same | old
      · exact other same
      · exact distinct.1 old

theorem recorded_eq_votesFor {payees : CMasternodeBlockPayees} (distinct : payees.ScriptsDistinct)
    (script : CScript) : payees.recorded script = payees.votesFor script := by
  obtain ⟨nBlockHeight, vecPayments⟩ := payees
  unfold ScriptsDistinct at distinct
  unfold recorded votesFor
  dsimp only at *
  induction vecPayments with
  | nil => rfl
  | cons payee rest ih =>
    rw [map_cons, nodup_cons] at distinct
    by_cases same : payee.scriptPubKey = script
    · have others : rest.filter (fun payee => payee.scriptPubKey = script) = [] := by
        refine filter_eq_nil_iff.mpr fun other member named => ?_
        rw [decide_eq_true_eq] at named
        rw [same, ← named] at distinct
        exact distinct.1 (mem_map_of_mem member)
      rw [find?_cons_of_pos (by simpa using same),
        filter_cons_of_pos (by simpa using same), others]
      simp
    · rw [find?_cons_of_neg (by simpa using same),
        filter_cons_of_neg (by simpa using same)]
      exact ih distinct.2

end CMasternodeBlockPayees

namespace CMasternodePayments

open CMasternodeBlockPayees

/-- A call of `AddWinningMasternode` or of `CleanPaymentList`, with the node as it
is at that time. -/
inductive TallyCall where
  | add (view : MasternodeView) (winnerIn : CMasternodePaymentWinner)
  | clean (view : MasternodeView)

variable (hashOf : CScript → Int → COutPoint → Uint256)

def call (payments : CMasternodePayments) : TallyCall → CMasternodePayments
  | .add view winnerIn => (payments.addWinningMasternode hashOf view winnerIn).2
  | .clean view => payments.cleanPaymentList view

def afterCalls (calls : List TallyCall) : CMasternodePayments := calls.foldl (call hashOf) empty

def recordedVotes (payments : CMasternodePayments) (nBlockHeight : Int) (script : CScript) : Int :=
  ((payments.mapMasternodeBlocks.lookup nBlockHeight).map fun payees =>
    payees.recorded script).getD 0

/-- The tally agrees with the votes: every height has one count for each
script, the counts are the numbers of stored votes, and no height is counted
without votes. -/
structure TallyAgrees (payments : CMasternodePayments) : Prop where
  counted : ∀ nBlockHeight script,
    payments.recordedVotes nBlockHeight script = payments.storedVotes nBlockHeight script
  distinct : ∀ nBlockHeight payees,
    payments.mapMasternodeBlocks.lookup nBlockHeight = some payees → payees.ScriptsDistinct
  voted : ∀ nBlockHeight payees,
    payments.mapMasternodeBlocks.lookup nBlockHeight = some payees →
      ∃ hash winner, payments.mapMasternodePayeeVotes.lookup hash = some winner ∧
        winner.nBlockHeight = nBlockHeight

/-! ## What every call keeps -/

/-- Every height that is counted has one count for each script, and a vote. -/
def CountsVoted (payments : CMasternodePayments) : Prop :=
  ∀ nBlockHeight payees, payments.mapMasternodeBlocks.lookup nBlockHeight = some payees →
    payees.ScriptsDistinct ∧
      ∃ hash winner, payments.mapMasternodePayeeVotes.lookup hash = some winner ∧
        winner.nBlockHeight = nBlockHeight

/-- The votes stand under their hashes. -/
def Keyed (payments : CMasternodePayments) : Prop :=
  ∀ hash winner, payments.mapMasternodePayeeVotes.lookup hash = some winner →
    hash = winner.getHash hashOf

structure Tallied (payments : CMasternodePayments) : Prop where
  exact : payments.TallyExact
  voted : payments.CountsVoted
  keyed : payments.Keyed hashOf

variable {hashOf} {payments : CMasternodePayments}

theorem Tallied.agrees (tallied : payments.Tallied hashOf) : payments.TallyAgrees where
  counted := by
    intro nBlockHeight script
    rw [← tallied.exact nBlockHeight script]
    unfold recordedVotes tally blockPayees
    cases found : payments.mapMasternodeBlocks.lookup nBlockHeight with
    | none => rfl
    | some payees => exact recorded_eq_votesFor (tallied.voted nBlockHeight payees found).1 script
  distinct := fun nBlockHeight payees found => (tallied.voted nBlockHeight payees found).1
  voted := fun nBlockHeight payees found => (tallied.voted nBlockHeight payees found).2

theorem tallied_empty : empty.Tallied hashOf where
  exact := fun _ _ => rfl
  voted := fun _ _ impossible => by cases impossible
  keyed := fun _ _ impossible => by cases impossible

theorem storeWinner_countsVoted {vote : CMasternodePaymentWinner} (voted : payments.CountsVoted)
    (new : payments.mapMasternodePayeeVotes.lookup (vote.getHash hashOf) = none) :
    (payments.storeWinner hashOf vote).CountsVoted := by
  intro nBlockHeight payees found
  have counted := lookup_insert_ite vote.nBlockHeight nBlockHeight
    ((payments.blockPayees vote.nBlockHeight).addPayee vote.payee 1) payments.mapMasternodeBlocks
  rw [storeWinner, counted] at found
  split at found
  case isTrue same =>
    cases found
    have distinct : (payments.blockPayees vote.nBlockHeight).ScriptsDistinct := by
      unfold blockPayees
      cases before : payments.mapMasternodeBlocks.lookup vote.nBlockHeight with
      | none => exact nodup_nil
      | some payees => exact (voted vote.nBlockHeight payees before).1
    refine ⟨distinct.addPayee vote.payee 1, vote.getHash hashOf, vote, ?_, same.symm⟩
    rw [lookup_storeWinner, if_pos rfl]
  case isFalse =>
    obtain ⟨distinct, hash, winner, stored, height_eq⟩ := voted nBlockHeight payees found
    refine ⟨distinct, hash, winner, ?_, height_eq⟩
    rw [lookup_storeWinner, if_neg, stored]
    rintro rfl
    rw [new] at stored
    cases stored

theorem cleanPaymentList_countsVoted (voted : payments.CountsVoted) (view : MasternodeView) :
    (payments.cleanPaymentList view).CountsVoted := by
  rw [cleanPaymentList]
  split
  case h_1 => exact voted
  case h_2 nHeight tip =>
  intro nBlockHeight payees found
  rw [lookup_eraseAll] at found
  split at found
  case isTrue => cases found
  case isFalse unlisted =>
  obtain ⟨distinct, hash, winner, stored, height_eq⟩ := voted nBlockHeight payees found
  refine ⟨distinct, hash, winner, lookup_keep_eq_some.mpr ⟨stored, ?_⟩, height_eq⟩
  -- an old vote would have taken the count of the height with it
  rw [Bool.not_eq_true']
  refine Bool.eq_false_iff.mpr fun old => unlisted (mem_map.mpr ⟨⟨hash, winner⟩, ?_, height_eq⟩)
  exact mem_filter.mpr ⟨AList.mem_lookup_iff.mp stored, old⟩

theorem addWinningMasternode_cases (payments : CMasternodePayments) (view : MasternodeView)
    (winnerIn : CMasternodePaymentWinner) :
    (payments.addWinningMasternode hashOf view winnerIn).2 = payments ∨
      (payments.mapMasternodePayeeVotes.lookup (winnerIn.getHash hashOf) = none ∧
        (payments.addWinningMasternode hashOf view winnerIn).2 =
          payments.storeWinner hashOf winnerIn) := by
  unfold addWinningMasternode
  split
  · exact Or.inl rfl
  split
  · exact Or.inl rfl
  next unseen => exact Or.inr ⟨Option.not_isSome_iff_eq_none.mp unseen, rfl⟩

theorem call_tallied (tallied : payments.Tallied hashOf) (made : TallyCall) :
    (payments.call hashOf made).Tallied hashOf := by
  cases made with
  | add view winnerIn =>
    rcases payments.addWinningMasternode_cases view winnerIn with same | ⟨new, stored⟩
    · rw [call, same]
      exact tallied
    · rw [call, stored]
      refine ⟨storeWinner_tallyExact tallied.exact new, storeWinner_countsVoted tallied.voted new,
        fun hash winner found => ?_⟩
      rw [lookup_storeWinner] at found
      split at found
      case isTrue same =>
        cases found
        exact same
      case isFalse => exact tallied.keyed hash winner found
  | clean view =>
    refine ⟨cleanPaymentList_tallyExact tallied.exact view,
      cleanPaymentList_countsVoted tallied.voted view, fun hash winner found => ?_⟩
    rw [call, cleanPaymentList] at found
    split at found
    · exact tallied.keyed hash winner found
    · exact tallied.keyed hash winner (lookup_keep_eq_some.mp found).1

theorem foldl_call_tallied (calls : List TallyCall) (tallied : payments.Tallied hashOf) :
    (calls.foldl (call hashOf) payments).Tallied hashOf := by
  induction calls generalizing payments with
  | nil => exact tallied
  | cons made rest ih => exact ih (call_tallied tallied made)

variable (hashOf) in
theorem afterCalls_tallied (calls : List TallyCall) : (afterCalls hashOf calls).Tallied hashOf :=
  foldl_call_tallied calls tallied_empty

variable (hashOf) in
/-- After any calls the tally agrees with the votes. -/
theorem tally_agrees_after_calls (calls : List TallyCall) :
    (afterCalls hashOf calls).TallyAgrees :=
  (afterCalls_tallied hashOf calls).agrees

end CMasternodePayments

end CentNode
