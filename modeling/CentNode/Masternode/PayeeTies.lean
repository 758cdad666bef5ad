import CentNode.Masternode.BlockPayee
import CentNode.Masternode.PaymentTally

/-!
# The payee that the votes choose

`GetPayee` takes the first of the scripts with the most votes, in the order in
which votes for them came.  Two nodes with the same votes pay the same
masternode unless scripts are level at the top.
-/

namespace CentNode

open List Option AList Selection

namespace CMasternodePayments

open CMasternodeBlockPayees

variable {hashOf : CScript → Int → COutPoint → Uint256} {payments first second : CMasternodePayments}
  {nBlockHeight : Int}

/-- `IsScheduled`, for the script of the masternode; `none` without a tip or the lock. -/
def isScheduled (payments : CMasternodePayments) (tipHeight : Option Int) (mnpayee : CScript)
    (nNotBlockHeight : Int) : Bool :=
  match tipHeight with
  | none => false
  | some nHeight =>
    (List.range 9).any fun i =>
      nHeight + i ≠ nNotBlockHeight && payments.getBlockPayee (nHeight + i) = some mnpayee

/-- The payee of the stored vote with a hash, if it is for the height. -/
def payeeVoted (payments : CMasternodePayments) (nBlockHeight : Int) (hash : Uint256) :
    Option CScript :=
  ((payments.mapMasternodePayeeVotes.lookup hash).filter fun winner =>
    winner.nBlockHeight = nBlockHeight).map (·.payee)

/-- Both hold the same votes for the height. -/
def SameVotesAt (first second : CMasternodePayments) (nBlockHeight : Int) : Prop :=
  ∀ hash, first.payeeVoted nBlockHeight hash = second.payeeVoted nBlockHeight hash

def Leads (payments : CMasternodePayments) (nBlockHeight : Int) (script : CScript) : Prop :=
  0 < payments.storedVotes nBlockHeight script ∧
    ∀ other, payments.storedVotes nBlockHeight other ≤ payments.storedVotes nBlockHeight script

/-- No two scripts are level at the top. -/
def Untied (payments : CMasternodePayments) (nBlockHeight : Int) : Prop :=
  ∀ script other, payments.Leads nBlockHeight script → payments.Leads nBlockHeight other →
    script = other

/-! ## The selection from a tally -/

variable {script : CScript}

theorem storedVotes_pos_iff :
    0 < payments.storedVotes nBlockHeight script ↔
      ∃ hash, payments.payeeVoted nBlockHeight hash = some script := by
  unfold storedVotes payeeVoted
  rw [countP_pos_iff]
  constructor
  · rintro ⟨⟨hash, winner⟩, member, counted⟩
    rw [Bool.and_eq_true, decide_eq_true_eq, decide_eq_true_eq] at counted
    refine ⟨hash, ?_⟩
    rw [mem_lookup_iff.mpr member, filter_some, if_pos (by simpa using counted.1)]
    exact congrArg some counted.2
  · rintro ⟨hash, found⟩
    obtain ⟨winner, kept, payee_eq⟩ := map_eq_some_iff.mp found
    obtain ⟨stored, named⟩ := filter_eq_some_iff.mp kept
    refine ⟨⟨hash, winner⟩, mem_lookup_iff.mp stored, ?_⟩
    rw [Bool.and_eq_true]
    exact ⟨named, by simpa using payee_eq⟩

variable {payees : CMasternodeBlockPayees}

theorem Tallied.nVotes_eq (tallied : payments.Tallied hashOf)
    (found : payments.mapMasternodeBlocks.lookup nBlockHeight = some payees)
    {payee : CMasternodePayee} (member : payee ∈ payees.vecPayments) :
    payee.nVotes = payments.storedVotes nBlockHeight payee.scriptPubKey := by
  rw [← tallied.agrees.counted, recordedVotes, found, map_some, getD_some, recorded]
  have distinct := (tallied.voted nBlockHeight payees found).1
  cases same : payees.vecPayments.find? fun other => other.scriptPubKey = payee.scriptPubKey with
  | none => simpa using find?_eq_none.mp same payee member
  | some other =>
    have named : other.scriptPubKey = payee.scriptPubKey := by simpa using find?_some same
    rw [inj_on_of_nodup_map distinct (mem_of_find?_eq_some same) member named]
    rfl

theorem Tallied.exists_entry (tallied : payments.Tallied hashOf)
    (voted : 0 < payments.storedVotes nBlockHeight script) :
    ∃ payees payee, payments.mapMasternodeBlocks.lookup nBlockHeight = some payees ∧
      payee ∈ payees.vecPayments ∧ payee.scriptPubKey = script := by
  have counted := tallied.agrees.counted nBlockHeight script
  unfold recordedVotes at counted
  cases found : payments.mapMasternodeBlocks.lookup nBlockHeight with
  | none =>
    rw [found] at counted
    simp only [map_none, getD_none] at counted
    omega
  | some payees =>
    rw [found, map_some, getD_some, recorded] at counted
    cases entry : payees.vecPayments.find? fun payee => payee.scriptPubKey = script with
    | none =>
      rw [entry] at counted
      simp only [map_none, getD_none] at counted
      omega
    | some payee =>
      exact ⟨payees, payee, rfl, mem_of_find?_eq_some entry,
        by simpa using find?_some entry⟩

theorem getPayee_top {known : CMasternodePayee} (member : known ∈ payees.vecPayments)
    (positive : 0 < known.nVotes) :
    ∃ top ∈ payees.vecPayments, payees.getPayee = some top.scriptPubKey ∧
      ∀ other ∈ payees.vecPayments, other.nVotes ≤ top.nVotes := by
  have loop := foldl_keepMostVoted_eq payees.vecPayments
  have reached : known.nVotes ≤ (selectHighest CMasternodePayee.nVotes (fun _ => true) (-1)
      payees.vecPayments).1 := le_selectHighest member rfl
  have someVotes : -1 < (selectHighest CMasternodePayee.nVotes (fun _ => true) (-1)
      payees.vecPayments).1 := by
    omega
  obtain ⟨top, listed, _, found⟩ := selectHighest_of_lt someVotes
  have highest : ∀ other ∈ payees.vecPayments, other.nVotes ≤ (selectHighest
      CMasternodePayee.nVotes (fun _ => true) (-1) payees.vecPayments).1 :=
    fun other inside => le_selectHighest inside rfl
  rw [found] at reached loop highest
  refine ⟨top, listed, ?_, highest⟩
  rw [getPayee, loop]
  exact if_pos (show top.nVotes > -1 by omega)

/-- The payee of a height leads, and there is one as soon as there is a vote. -/
theorem Tallied.getBlockPayee_leads (tallied : payments.Tallied hashOf) :
    (∀ script, payments.getBlockPayee nBlockHeight = some script →
        payments.Leads nBlockHeight script) ∧
      ∀ script, 0 < payments.storedVotes nBlockHeight script →
        ∃ payee, payments.getBlockPayee nBlockHeight = some payee := by
  have top : ∀ script, 0 < payments.storedVotes nBlockHeight script →
      ∃ payee, payments.getBlockPayee nBlockHeight = some payee ∧
        payments.Leads nBlockHeight payee := by
    intro script voted
    obtain ⟨payees, entry, found, listed, rfl⟩ := tallied.exists_entry voted
    have positive : 0 < entry.nVotes := by
      rw [tallied.nVotes_eq found listed]
      exact_mod_cast voted
    obtain ⟨best, inside, chosen, highest⟩ := getPayee_top listed positive
    refine ⟨best.scriptPubKey, ?_, ?_, fun other => ?_⟩
    · rw [getBlockPayee, found]
      exact chosen
    · have more := highest entry listed
      have counted := tallied.nVotes_eq found inside
      omega
    · rcases Nat.eq_zero_or_pos (payments.storedVotes nBlockHeight other) with none | some
      · omega
      · obtain ⟨payees', rival, foundToo, listedToo, rfl⟩ := tallied.exists_entry some
        cases found.symm.trans foundToo
        have more := highest rival listedToo
        rw [tallied.nVotes_eq found listedToo, tallied.nVotes_eq found inside] at more
        exact_mod_cast more
  refine ⟨fun script chosen => ?_, fun script voted => ?_⟩
  · obtain ⟨payees, found, _⟩ := bind_eq_some_iff.mp chosen
    obtain ⟨_, hash, winner, stored, height_eq⟩ := tallied.voted nBlockHeight payees found
    have voted : 0 < payments.storedVotes nBlockHeight winner.payee := by
      refine storedVotes_pos_iff.mpr ⟨hash, ?_⟩
      rw [payeeVoted, stored, filter_some, if_pos (by simpa using height_eq)]
      rfl
    obtain ⟨payee, chosenToo, leads⟩ := top winner.payee voted
    cases chosen.symm.trans chosenToo
    exact leads
  · obtain ⟨payee, chosen, _⟩ := top script voted
    exact ⟨payee, chosen⟩

/-! ## The same votes -/

theorem storedVotes_eq_length (payments : CMasternodePayments) (nBlockHeight : Int)
    (script : CScript) :
    payments.storedVotes nBlockHeight script =
      ((payments.mapMasternodePayeeVotes.entries.filter fun entry =>
        entry.2.nBlockHeight = nBlockHeight && entry.2.payee = script).map Sigma.fst).length := by
  rw [storedVotes, countP_eq_length_filter, length_map]

theorem mem_voteHashes {hash : Uint256} :
    hash ∈ (payments.mapMasternodePayeeVotes.entries.filter fun entry =>
        entry.2.nBlockHeight = nBlockHeight && entry.2.payee = script).map Sigma.fst ↔
      payments.payeeVoted nBlockHeight hash = some script := by
  unfold payeeVoted
  rw [List.mem_map, map_eq_some_iff]
  constructor
  · rintro ⟨⟨_, winner⟩, member, rfl⟩
    obtain ⟨listed, named⟩ := mem_filter.mp member
    rw [Bool.and_eq_true, decide_eq_true_eq, decide_eq_true_eq] at named
    exact ⟨winner, filter_eq_some_iff.mpr
      ⟨mem_lookup_iff.mpr listed, by simpa using named.1⟩, named.2⟩
  · rintro ⟨winner, kept, payee_eq⟩
    obtain ⟨stored, named⟩ := filter_eq_some_iff.mp kept
    refine ⟨⟨hash, winner⟩, mem_filter.mpr ⟨mem_lookup_iff.mp stored, ?_⟩, rfl⟩
    rw [Bool.and_eq_true]
    exact ⟨named, by simpa using payee_eq⟩

theorem voteHashes_nodup (payments : CMasternodePayments) (nBlockHeight : Int) (script : CScript) :
    ((payments.mapMasternodePayeeVotes.entries.filter fun entry =>
      entry.2.nBlockHeight = nBlockHeight && entry.2.payee = script).map Sigma.fst).Nodup :=
  payments.mapMasternodePayeeVotes.nodupKeys.sublist filter_sublist

section

variable (same : first.SameVotesAt second nBlockHeight)

include same

theorem SameVotesAt.storedVotes_eq (script : CScript) :
    first.storedVotes nBlockHeight script = second.storedVotes nBlockHeight script := by
  rw [storedVotes_eq_length, storedVotes_eq_length]
  refine List.Perm.length_eq ((perm_ext_iff_of_nodup (first.voteHashes_nodup _ _)
    (second.voteHashes_nodup _ _)).mpr fun hash => ?_)
  rw [mem_voteHashes, mem_voteHashes, same hash]

theorem SameVotesAt.leads_iff :
    first.Leads nBlockHeight script ↔ second.Leads nBlockHeight script := by
  simp only [Leads, same.storedVotes_eq]

theorem SameVotesAt.getBlockPayee_eq
    (tallied : first.Tallied hashOf) (talliedToo : second.Tallied hashOf)
    (untied : first.Untied nBlockHeight) :
    second.getBlockPayee nBlockHeight = first.getBlockPayee nBlockHeight := by
  cases chosen : first.getBlockPayee nBlockHeight with
  | some script =>
    have leads := tallied.getBlockPayee_leads.1 script chosen
    obtain ⟨other, chosenToo⟩ := talliedToo.getBlockPayee_leads.2 script
      (same.leads_iff.mp leads).1
    have leadsToo := talliedToo.getBlockPayee_leads.1 other chosenToo
    rw [chosenToo, untied script other leads (same.leads_iff.mpr leadsToo)]
  | none =>
    cases chosenToo : second.getBlockPayee nBlockHeight with
    | none => rfl
    | some other =>
      have leads := same.leads_iff.mpr (talliedToo.getBlockPayee_leads.1 other chosenToo)
      obtain ⟨script, chosenFirst⟩ := tallied.getBlockPayee_leads.2 other leads.1
      rw [chosen] at chosenFirst
      cases chosenFirst

end

/-! ## Another order of the votes -/

section Arrivals

variable {votes : List CMasternodePaymentWinner}

/-- The winners under the stored votes for a height. -/
def winnersAt (payments : CMasternodePayments) (nBlockHeight : Int) :
    List CMasternodePaymentWinner :=
  (payments.mapMasternodePayeeVotes.entries.map fun entry => entry.2).filter fun winner =>
    winner.nBlockHeight = nBlockHeight

/-- A node that knows every block. -/
def allKnowing : MasternodeView where
  activeProtocol := 0
  tipHeight := none
  countEnabled := 0
  size := 0
  find := fun _ => none
  getMasternodeRank := fun _ _ _ => -1
  getBlockHash := fun _ => some 0
  verifyMessage := fun _ => false

theorem call_add_new {vote : CMasternodePaymentWinner}
    (new : payments.mapMasternodePayeeVotes.lookup (vote.getHash hashOf) = none) :
    payments.call hashOf (.add allKnowing vote) = payments.storeWinner hashOf vote := by
  rw [call, addWinningMasternode, if_neg (by simp [allKnowing]), if_neg (by simp [new])]

variable {winner : CMasternodePaymentWinner}

/-- Votes with new and different hashes are all stored. -/
theorem lookup_foldl_add (distinct : (votes.map (·.getHash hashOf)).Nodup)
    (new : ∀ vote ∈ votes, payments.mapMasternodePayeeVotes.lookup (vote.getHash hashOf) = none)
    {hash : Uint256} :
    ((votes.map (TallyCall.add allKnowing)).foldl (call hashOf)
        payments).mapMasternodePayeeVotes.lookup hash = some winner ↔
      (winner ∈ votes ∧ hash = winner.getHash hashOf) ∨
        payments.mapMasternodePayeeVotes.lookup hash = some winner := by
  induction votes generalizing payments with
  | nil => simp
  | cons vote rest ih =>
    rw [map_cons, nodup_cons] at distinct
    have newHere := new vote mem_cons_self
    rw [map_cons, foldl_cons, call_add_new newHere, ih distinct.2, lookup_storeWinner]
    · by_cases same : hash = vote.getHash hashOf
      · subst same
        rw [if_pos rfl, newHere, some_inj]
        constructor
        · rintro (⟨member, named⟩ | rfl)
          · exact Or.inl ⟨mem_cons_of_mem _ member, named⟩
          · exact Or.inl ⟨mem_cons_self, rfl⟩
        · rintro (⟨member, named⟩ | impossible)
          · rcases mem_cons.mp member with rfl | later
            · exact Or.inr rfl
            · exact Or.inl ⟨later, named⟩
          · cases impossible
      · rw [if_neg same, mem_cons]
        refine or_congr_left (and_congr_left fun named => (or_iff_right ?_).symm)
        rintro rfl
        exact same named
    · intro other member
      rw [lookup_storeWinner, if_neg fun equal => distinct.1 ?_]
      · exact new other (mem_cons_of_mem _ member)
      · rw [← equal]
        exact List.mem_map_of_mem member

def HeadedBy (payments : CMasternodePayments) (nBlockHeight : Int) (script : CScript) : Prop :=
  ∃ entry later, (payments.blockPayees nBlockHeight).vecPayments = entry :: later ∧
    entry.scriptPubKey = script

variable {script : CScript}

theorem HeadedBy.storeWinner (headed : payments.HeadedBy nBlockHeight script)
    (vote : CMasternodePaymentWinner) :
    (payments.storeWinner hashOf vote).HeadedBy nBlockHeight script := by
  obtain ⟨entry, later, listed, named⟩ := headed
  unfold HeadedBy
  rw [blockPayees_storeWinner]
  split
  case isTrue same =>
    rw [← same, addPayee, listed, addPayment]
    split
    · exact ⟨_, later, rfl, named⟩
    · exact ⟨entry, _, rfl, named⟩
  case isFalse => exact ⟨entry, later, listed, named⟩

theorem headedBy_storeWinner {vote : CMasternodePaymentWinner}
    (uncounted : payments.mapMasternodeBlocks.lookup vote.nBlockHeight = none) :
    (payments.storeWinner hashOf vote).HeadedBy vote.nBlockHeight vote.payee := by
  unfold HeadedBy
  rw [blockPayees_storeWinner, if_pos rfl, blockPayees, uncounted]
  exact ⟨_, [], rfl, rfl⟩

theorem HeadedBy.foldl_call (headed : payments.HeadedBy nBlockHeight script)
    (votes : List CMasternodePaymentWinner) :
    ((votes.map (TallyCall.add allKnowing)).foldl (call hashOf) payments).HeadedBy nBlockHeight
      script := by
  induction votes generalizing payments with
  | nil => exact headed
  | cons vote rest ih =>
    rw [map_cons, foldl_cons]
    rcases payments.addWinningMasternode_cases allKnowing vote with same | ⟨_, stored⟩
    · rw [call, same]
      exact ih headed
    · rw [call, stored]
      exact ih (headed.storeWinner vote)

theorem Tallied.getBlockPayee_of_headed (tallied : payments.Tallied hashOf)
    (headed : payments.HeadedBy nBlockHeight script) (leads : payments.Leads nBlockHeight script) :
    payments.getBlockPayee nBlockHeight = some script := by
  obtain ⟨entry, later, listed, rfl⟩ := headed
  obtain ⟨payees, _, found, _, _⟩ := tallied.exists_entry leads.1
  rw [blockPayees, found, getD_some] at listed
  have member : entry ∈ payees.vecPayments := by
    rw [listed]
    exact mem_cons_self
  have counted := tallied.nVotes_eq found member
  have positive := leads.1
  have top : selectHighest CMasternodePayee.nVotes (fun _ => true) (-1)
      (entry :: later) = (entry.nVotes, some entry) := by
    refine selectHighest_cons_of_top (by omega) rfl fun other inside => ?_
    have listedToo : other ∈ payees.vecPayments := by
      rw [listed]
      exact mem_cons_of_mem _ inside
    rw [tallied.nVotes_eq found listedToo, counted]
    exact_mod_cast leads.2 other.scriptPubKey
  rw [getBlockPayee, found, bind_some, getPayee, foldl_keepMostVoted_eq, listed, top]
  exact if_pos (show entry.nVotes > -1 by omega)

/-- The winners of a height with those for the script first. -/
def winnersFrom (payments : CMasternodePayments) (nBlockHeight : Int) (script : CScript) :
    List CMasternodePaymentWinner :=
  (payments.winnersAt nBlockHeight).filter (fun winner => winner.payee = script) ++
    (payments.winnersAt nBlockHeight).filter fun winner => !decide (winner.payee = script)

theorem mem_winnersAt :
    winner ∈ payments.winnersAt nBlockHeight ↔
      winner.nBlockHeight = nBlockHeight ∧
        ∃ hash, payments.mapMasternodePayeeVotes.lookup hash = some winner := by
  unfold winnersAt
  rw [mem_filter, List.mem_map, decide_eq_true_eq, and_comm]
  refine and_congr_right fun _ => ⟨?_, ?_⟩
  · rintro ⟨⟨hash, _⟩, member, rfl⟩
    exact ⟨hash, mem_lookup_iff.mpr member⟩
  · rintro ⟨hash, stored⟩
    exact ⟨⟨hash, winner⟩, mem_lookup_iff.mp stored, rfl⟩

theorem winnersFrom_perm (payments : CMasternodePayments) (nBlockHeight : Int) (script : CScript) :
    (payments.winnersFrom nBlockHeight script).Perm (payments.winnersAt nBlockHeight) :=
  filter_append_perm _ _

theorem Tallied.winnersAt_distinct (tallied : payments.Tallied hashOf) (nBlockHeight : Int) :
    ((payments.winnersAt nBlockHeight).map (·.getHash hashOf)).Nodup := by
  have hashes : (payments.mapMasternodePayeeVotes.entries.map fun entry => entry.2).map
      (·.getHash hashOf) = payments.mapMasternodePayeeVotes.entries.map Sigma.fst := by
    rw [List.map_map]
    refine map_congr_left fun entry member => ?_
    exact (tallied.keyed entry.1 entry.2 (mem_lookup_iff.mpr member)).symm
  have distinct : ((payments.mapMasternodePayeeVotes.entries.map fun entry => entry.2).map
      (·.getHash hashOf)).Nodup := by
    rw [hashes]
    exact payments.mapMasternodePayeeVotes.nodupKeys
  exact distinct.sublist (filter_sublist.map _)

/-- The calls that bring the votes for a height, those for the script first. -/
def callsFrom (payments : CMasternodePayments) (nBlockHeight : Int) (script : CScript) :
    List TallyCall :=
  (payments.winnersFrom nBlockHeight script).map (TallyCall.add allKnowing)

theorem Tallied.sameVotesAt_callsFrom (tallied : payments.Tallied hashOf) (script : CScript) :
    payments.SameVotesAt (afterCalls hashOf (payments.callsFrom nBlockHeight script))
      nBlockHeight := by
  have perm := payments.winnersFrom_perm nBlockHeight script
  have distinct : ((payments.winnersFrom nBlockHeight script).map (·.getHash hashOf)).Nodup :=
    (perm.map _).nodup_iff.mpr (tallied.winnersAt_distinct nBlockHeight)
  have after : ∀ hash winner, (afterCalls hashOf (payments.callsFrom nBlockHeight
      script)).mapMasternodePayeeVotes.lookup hash = some winner ↔
        winner.nBlockHeight = nBlockHeight ∧
          payments.mapMasternodePayeeVotes.lookup hash = some winner := by
    intro hash winner
    rw [afterCalls, callsFrom, lookup_foldl_add distinct fun _ _ => rfl,
      or_iff_left (fun impossible => by cases impossible), perm.mem_iff, mem_winnersAt]
    constructor
    · rintro ⟨⟨height_eq, other, stored⟩, named⟩
      rw [named, ← tallied.keyed other winner stored]
      exact ⟨height_eq, stored⟩
    · rintro ⟨height_eq, stored⟩
      exact ⟨⟨height_eq, hash, stored⟩, tallied.keyed hash winner stored⟩
  intro hash
  unfold payeeVoted
  refine congrArg _ (Option.ext fun winner => ?_)
  rw [filter_eq_some_iff, filter_eq_some_iff, after, decide_eq_true_eq]
  tauto

theorem headedBy_callsFrom (voted : 0 < payments.storedVotes nBlockHeight script) :
    (afterCalls hashOf (payments.callsFrom nBlockHeight script)).HeadedBy nBlockHeight script := by
  obtain ⟨hash, found⟩ := storedVotes_pos_iff.mp voted
  obtain ⟨winner, kept, payee_eq⟩ := map_eq_some_iff.mp found
  obtain ⟨stored, height_eq⟩ := filter_eq_some_iff.mp kept
  rw [decide_eq_true_eq] at height_eq
  have member : winner ∈ (payments.winnersAt nBlockHeight).filter fun winner =>
      winner.payee = script :=
    mem_filter.mpr ⟨mem_winnersAt.mpr ⟨height_eq, hash, stored⟩, by simpa using payee_eq⟩
  cases front : (payments.winnersAt nBlockHeight).filter fun winner => winner.payee = script with
  | nil =>
    rw [front] at member
    cases member
  | cons first rest =>
    have inside : first ∈ (payments.winnersAt nBlockHeight).filter fun winner =>
        winner.payee = script := by
      rw [front]
      exact mem_cons_self
    obtain ⟨listed, named⟩ := mem_filter.mp inside
    rw [decide_eq_true_eq] at named
    have height_first := (mem_winnersAt.mp listed).1
    rw [afterCalls, callsFrom, winnersFrom, front, cons_append, map_cons,
      foldl_cons, call_add_new rfl]
    have headed : (empty.storeWinner hashOf first).HeadedBy first.nBlockHeight first.payee :=
      headedBy_storeWinner rfl
    rw [height_first, named] at headed
    exact headed.foldl_call _

theorem Tallied.exists_order_choosing (tallied : payments.Tallied hashOf)
    (leads : payments.Leads nBlockHeight script) :
    ∃ calls, payments.SameVotesAt (afterCalls hashOf calls) nBlockHeight ∧
      (afterCalls hashOf calls).getBlockPayee nBlockHeight = some script := by
  have same : payments.SameVotesAt
      (afterCalls hashOf (payments.callsFrom nBlockHeight script)) nBlockHeight :=
    tallied.sameVotesAt_callsFrom script
  exact ⟨payments.callsFrom nBlockHeight script, same,
    (afterCalls_tallied hashOf _).getBlockPayee_of_headed (headedBy_callsFrom leads.1)
      (same.leads_iff.mp leads)⟩

end Arrivals

/-! ## What follows from the payee -/

theorem isScheduled_congr {tipHeight : Option Int}
    (same : ∀ nHeight ∈ tipHeight, ∀ i < 9,
      second.getBlockPayee (nHeight + (i : Nat)) = first.getBlockPayee (nHeight + (i : Nat)))
    (mnpayee : CScript) (nNotBlockHeight : Int) :
    second.isScheduled tipHeight mnpayee nNotBlockHeight =
      first.isScheduled tipHeight mnpayee nNotBlockHeight := by
  cases tipHeight with
  | none => rfl
  | some nHeight =>
    rw [isScheduled, isScheduled, Bool.eq_iff_iff, List.any_eq_true, List.any_eq_true]
    refine exists_congr fun i => and_congr_right fun member => ?_
    rw [same nHeight rfl i (mem_range.mp member)]

theorem fillBlockPayee_congr {payer : PayeeNode}
    (same : ∀ tip ∈ payer.node.tip,
      second.getBlockPayee (tip.nHeight + 1) = first.getBlockPayee (tip.nHeight + 1))
    (txNew : CMutableTransaction) (fProofOfStake : Bool) :
    ({ payer with masternodePayments := second } : PayeeNode).fillBlockPayee txNew fProofOfStake =
      ({ payer with masternodePayments := first } : PayeeNode).fillBlockPayee txNew
        fProofOfStake := by
  unfold PayeeNode.fillBlockPayee PayeeNode.paysBudget
  dsimp only
  cases tip : payer.node.tip with
  | none => rfl
  | some pindexPrev =>
    dsimp only
    rw [fillBlockPayee, fillBlockPayee, same pindexPrev tip]

/-- The payments agree with others wherever these hold the same votes for a height. -/
def AgreesOn (hashOf : CScript → Int → COutPoint → Uint256) (payments : CMasternodePayments)
    (nBlockHeight : Int) : Prop :=
  ∀ calls, payments.SameVotesAt (afterCalls hashOf calls) nBlockHeight →
    (afterCalls hashOf calls).getBlockPayee nBlockHeight = payments.getBlockPayee nBlockHeight

/-- Both hold the same votes for the height, and no scripts are level at the top. -/
def SettledAt (first second : CMasternodePayments) (nBlockHeight : Int) : Prop :=
  first.SameVotesAt second nBlockHeight ∧ first.Untied nBlockHeight

/-- Every node with the same votes for a height has the same payee for it
exactly if no scripts are level at the top; where that is so, the nodes schedule
the same masternodes and fill in the same payments. -/
theorem payees_agree_iff (hashOf : CScript → Int → COutPoint → Uint256) (calls : List TallyCall) :
    (∀ nBlockHeight, (afterCalls hashOf calls).AgreesOn hashOf nBlockHeight ↔
        (afterCalls hashOf calls).Untied nBlockHeight) ∧
      ∀ others,
        (∀ tipHeight mnpayee nNotBlockHeight,
          (∀ nHeight ∈ tipHeight, ∀ i < 9,
            (afterCalls hashOf calls).SettledAt (afterCalls hashOf others) (nHeight + (i : Nat))) →
          (afterCalls hashOf others).isScheduled tipHeight mnpayee nNotBlockHeight =
            (afterCalls hashOf calls).isScheduled tipHeight mnpayee nNotBlockHeight) ∧
        ∀ (payer : PayeeNode) txNew fProofOfStake,
          (∀ tip ∈ payer.node.tip, (afterCalls hashOf calls).SettledAt (afterCalls hashOf others)
            (tip.nHeight + 1)) →
          ({ payer with masternodePayments := afterCalls hashOf others } :
              PayeeNode).fillBlockPayee txNew fProofOfStake =
            ({ payer with masternodePayments := afterCalls hashOf calls } :
              PayeeNode).fillBlockPayee txNew fProofOfStake := by
  have tallied := afterCalls_tallied hashOf calls
  have settled : ∀ others nBlockHeight,
      (afterCalls hashOf calls).SettledAt (afterCalls hashOf others) nBlockHeight →
        (afterCalls hashOf others).getBlockPayee nBlockHeight =
          (afterCalls hashOf calls).getBlockPayee nBlockHeight :=
    fun others _ both => both.1.getBlockPayee_eq tallied (afterCalls_tallied hashOf others) both.2
  refine ⟨fun nBlockHeight => ⟨fun agrees script other leads leadsToo => ?_, ?_⟩,
    fun others => ⟨?_, ?_⟩⟩
  · -- each of two leading scripts comes first in some order
    obtain ⟨order, same, chosen⟩ := tallied.exists_order_choosing leads
    obtain ⟨orderToo, sameToo, chosenToo⟩ := tallied.exists_order_choosing leadsToo
    have first := agrees order same
    have second := agrees orderToo sameToo
    rw [chosen] at first
    rw [chosenToo, ← first] at second
    exact (Option.some.inj second).symm
  · exact fun untied order same => settled order nBlockHeight ⟨same, untied⟩
  · intro tipHeight mnpayee nNotBlockHeight both
    exact isScheduled_congr (fun nHeight tip i low => settled others _ (both nHeight tip i low))
      mnpayee nNotBlockHeight
  · intro payer txNew fProofOfStake both
    exact fillBlockPayee_congr (fun tip known => settled others _ (both tip known)) txNew
      fProofOfStake

namespace Level

/-- Votes of two masternodes for different payees of one block. -/
def vote (n : Nat) (payee : CScript) : TallyCall :=
  .add allKnowing ⟨{ prevout := ⟨9, n⟩ }, 110, payee, []⟩

/-- A hash that tells the two votes apart. -/
def sampleHash (_ : CScript) (_ : Int) (prevout : COutPoint) : Uint256 := BitVec.ofNat 256 prevout.n

end Level

/-- Two votes that come in the other order choose the other payee. -/
theorem level_votes_disagree :
    (afterCalls Level.sampleHash [Level.vote 1 [1], Level.vote 2 [2]]).SameVotesAt
        (afterCalls Level.sampleHash [Level.vote 2 [2], Level.vote 1 [1]]) 110 ∧
      (afterCalls Level.sampleHash [Level.vote 1 [1], Level.vote 2 [2]]).getBlockPayee 110 = some [1] ∧
      (afterCalls Level.sampleHash [Level.vote 2 [2], Level.vote 1 [1]]).getBlockPayee 110 =
        some [2] := by
  refine ⟨?_, by decide, by decide⟩
  exact (afterCalls_tallied Level.sampleHash
    [Level.vote 1 [1], Level.vote 2 [2]]).sameVotesAt_callsFrom [2]

end CMasternodePayments

end CentNode
