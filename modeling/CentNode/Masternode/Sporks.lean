import CentNode.Library.GapRegister
import CentNode.Library.Runs
import CentNode.Library.StdMap
import CentNode.Primitives.Transaction

/-!
# Sporks

`spork.cpp`: signed messages that switch the rules of the network.  For each
spork the message with the latest signing time is active.  A message from the
network is also written to the database that the next start reads; a message
that the node signs itself is not.
-/

namespace CentNode

open List StdMap Option GapRegister

structure CSporkMessage where
  vchSig : List UInt8 := []
  nSporkID : Int
  nValue : Int
  nTimeSigned : Int
  deriving DecidableEq, Repr

/-- The message takes the place of an older one. -/
def CSporkMessage.Newer (old message : CSporkMessage) : Prop :=
  old.nTimeSigned < message.nTimeSigned

instance : DecidableRel CSporkMessage.Newer := fun old message =>
  inferInstanceAs (Decidable (old.nTimeSigned < message.nTimeSigned))

def sporkStart : Int := 10001

def sporkEnd : Int := 10015

/-- The sporks in use with their names. -/
def sporkNames : List (Int × String) :=
  [(10001, "SPORK_2_SWIFTTX"), (10002, "SPORK_3_SWIFTTX_BLOCK_FILTERING"),
    (10004, "SPORK_5_MAX_VALUE"), (10006, "SPORK_7_MASTERNODE_SCANNING"),
    (10007, "SPORK_8_MASTERNODE_PAYMENT_ENFORCEMENT"),
    (10008, "SPORK_9_MASTERNODE_BUDGET_ENFORCEMENT"),
    (10009, "SPORK_10_MASTERNODE_PAY_UPDATED_NODES"), (10010, "SPORK_11_RESET_BUDGET"),
    (10011, "SPORK_12_RECONSIDER_BLOCKS"), (10012, "SPORK_13_ENABLE_SUPERBLOCKS"),
    (10013, "SPORK_14_NEW_PROTOCOL_ENFORCEMENT"), (10014, "SPORK_15_NEW_PROTOCOL_ENFORCEMENT_2"),
    (10015, "SPORK_16_MN_WINNER_MINIMUM_AGE")]

/-- `GetSporkNameByID`; `none` is `"Unknown"`. -/
def getSporkNameByID (id : Int) : Option String :=
  (sporkNames.find? fun spork => spork.1 = id).map Prod.snd

/-- The spork is in use. -/
def sporkKnown (id : Int) : Bool := (getSporkNameByID id).isSome

/-- What the spork manager takes from the rest of the node. -/
structure SporkKeys where
  getHash : CSporkMessage → Uint256
  /-- `CheckSignature`, with the spork key of the network. -/
  checkSignature : CSporkMessage → Bool
  /-- `Sign`: the signature with the private key of the node, if it has one. -/
  sign : CSporkMessage → Option (List UInt8)

/-- `mapSporks`, `mapSporksActive` and the database `pSporkDB`. -/
structure SporkState where
  mapSporks : StdMap Uint256 CSporkMessage := ∅
  mapSporksActive : StdMap Int CSporkMessage := ∅
  pSporkDB : StdMap Int CSporkMessage := ∅

namespace SporkState

variable (keys : SporkKeys) (state : SporkState)

def activate (spork : CSporkMessage) : SporkState :=
  { state with
    mapSporks := state.mapSporks.insert (keys.getHash spork) spork
    mapSporksActive := state.mapSporksActive.insert spork.nSporkID spork }

/-- `ProcessSpork` for the message `spork`; `ready` says that the node is not in
lite mode and has a tip. -/
def processSpork (ready : Bool) (spork : CSporkMessage) : SporkState :=
  if !ready then state
  else if !sporkKnown spork.nSporkID then state
  else if (state.mapSporksActive.lookup spork.nSporkID).any
      fun active => active.nTimeSigned ≥ spork.nTimeSigned then state
  else if !keys.checkSignature spork then state
  else
    { state.activate keys spork with
      pSporkDB := state.pSporkDB.insert spork.nSporkID spork }

/-- `UpdateSpork`, at the time `now`. -/
def updateSpork (nSporkID nValue now : Int) : SporkState :=
  let msg : CSporkMessage := { nSporkID := nSporkID, nValue := nValue, nTimeSigned := now }
  match keys.sign msg with
  | none => state
  | some vchSig => state.activate keys { msg with vchSig := vchSig }

/-- One iteration of `LoadSporksFromDB`. -/
def loadSpork (id : Int) : SporkState :=
  if !sporkKnown id then state
  else
    match state.pSporkDB.lookup id with
    | none => state
    | some spork => state.activate keys spork

/-- The ids that the loop of `LoadSporksFromDB` goes through. -/
def loadedIDs : List Int :=
  (List.range (sporkEnd - sporkStart + 1).toNat).map fun i => sporkStart + i

def loadSporksFromDB : SporkState :=
  loadedIDs.foldl (fun current id => current.loadSpork keys id) state

/-- A restart: the maps are empty and the database is read. -/
def restart : SporkState := ({ pSporkDB := state.pSporkDB } : SporkState).loadSporksFromDB keys

end SporkState

/-- What happens to the sporks of a node. -/
inductive SporkInput where
  | spork (ready : Bool) (message : CSporkMessage)
  | updateSpork (nSporkID nValue now : Int)
  | restart

def SporkState.step (keys : SporkKeys) (state : SporkState) : SporkInput → Option SporkState
  | .spork ready message => some (state.processSpork keys ready message)
  | .updateSpork nSporkID nValue now => some (state.updateSpork keys nSporkID nValue now)
  | .restart => some (state.restart keys)

namespace SporkState

variable {keys : SporkKeys} {state : SporkState}

/-! ## Messages from the network -/

/-- Messages that the network accepts: of a known spork, with a good signature. -/
def Genuine (keys : SporkKeys) (messages : List CSporkMessage) : Prop :=
  ∀ message ∈ messages, sporkKnown message.nSporkID = true ∧ keys.checkSignature message = true

/-- The sporks of a new node after messages from the network. -/
def received (keys : SporkKeys) (arrivals : List CSporkMessage) : SporkState :=
  arrivals.foldl (fun current message => current.processSpork keys true message) {}

/-- The active message of a spork is one of the messages, and none is newer. -/
def NewestOf (messages : List CSporkMessage) (id : Int) (active : Option CSporkMessage) : Prop :=
  (∀ held, active = some held → held ∈ messages ∧ held.nSporkID = id) ∧
    ∀ message ∈ messages, message.nSporkID = id →
      ∃ held, active = some held ∧ message.nTimeSigned ≤ held.nTimeSigned

/-- In whatever order and however often the messages come, the same messages
are active, and they are newest ones. -/
def Converges (keys : SporkKeys) (messages : List CSporkMessage) : Prop :=
  ∀ first second : List CSporkMessage, (∀ message, message ∈ first ↔ message ∈ messages) →
    (∀ message, message ∈ second ↔ message ∈ messages) →
      ∀ id, (received keys first).mapSporksActive.lookup id =
          (received keys second).mapSporksActive.lookup id ∧
        NewestOf messages id ((received keys first).mapSporksActive.lookup id)

/-- No two messages of a spork share its latest signing time. -/
def OneNewest (messages : List CSporkMessage) : Prop :=
  ∀ first ∈ messages, ∀ second ∈ messages, first.nSporkID = second.nSporkID →
    first.nTimeSigned = second.nTimeSigned →
      (∀ message ∈ messages, message.nSporkID = first.nSporkID →
        message.nTimeSigned ≤ first.nTimeSigned) → first = second

theorem lookup_processSpork {message : CSporkMessage}
    (known : sporkKnown message.nSporkID = true) (signed : keys.checkSignature message = true)
    (id : Int) :
    (state.processSpork keys true message).mapSporksActive.lookup id =
      if id = message.nSporkID then
        accept CSporkMessage.Newer (state.mapSporksActive.lookup id) message
      else state.mapSporksActive.lookup id := by
  rw [processSpork, known, signed]
  simp only [Bool.not_true, Bool.false_eq_true, if_false]
  by_cases same : id = message.nSporkID
  · subst same
    rw [if_pos rfl]
    cases active : state.mapSporksActive.lookup message.nSporkID with
    | none => simp [activate, accept]
    | some held =>
      simp only [any_some, decide_eq_true_eq, accept]
      by_cases late : held.Newer message
      · rw [if_neg (Int.not_le.mpr late), if_pos late]
        simp [activate]
      · rw [if_pos (Int.not_lt.mp late), if_neg late, active]
  · rw [if_neg same]
    split
    · rfl
    · simp [activate, same]

variable {arrivals : List CSporkMessage}

theorem lookup_foldl_processSpork (genuine : Genuine keys arrivals) (id : Int) :
    (arrivals.foldl (fun current message => current.processSpork keys true message)
        state).mapSporksActive.lookup id =
      acceptAll CSporkMessage.Newer (state.mapSporksActive.lookup id)
        (arrivals.filter fun message => message.nSporkID = id) := by
  induction arrivals generalizing state with
  | nil => rfl
  | cons message rest ih =>
    obtain ⟨known, signed⟩ := genuine message mem_cons_self
    rw [foldl_cons, ih fun other member => genuine other (mem_cons_of_mem _ member),
      lookup_processSpork known signed]
    by_cases same : message.nSporkID = id
    · rw [filter_cons_of_pos (by simp [same]), if_pos same.symm]
      rfl
    · rw [filter_cons_of_neg (by simp [same]), if_neg fun equal => same equal.symm]

theorem lookup_received (genuine : Genuine keys arrivals) (id : Int) :
    (received keys arrivals).mapSporksActive.lookup id =
      acceptAll CSporkMessage.Newer none
        (arrivals.filter fun message => message.nSporkID = id) :=
  lookup_foldl_processSpork genuine id

variable {messages : List CSporkMessage}

theorem mem_arrivals_of (same : ∀ message, message ∈ arrivals ↔ message ∈ messages)
    {message : CSporkMessage} {id : Int} :
    message ∈ arrivals.filter (fun other => other.nSporkID = id) ↔
      message ∈ messages ∧ message.nSporkID = id := by
  rw [mem_filter, same, decide_eq_true_eq]

section

variable (genuine : Genuine keys messages)

include genuine

theorem lookup_received_of_newest (single : OneNewest messages)
    (same : ∀ message, message ∈ arrivals ↔ message ∈ messages) {newest : CSporkMessage}
    (member : newest ∈ messages)
    (latest : ∀ message ∈ messages, message.nSporkID = newest.nSporkID →
      message.nTimeSigned ≤ newest.nTimeSigned) :
    (received keys arrivals).mapSporksActive.lookup newest.nSporkID = some newest := by
  have genuineToo : Genuine keys arrivals := fun message inside =>
    genuine message ((same message).mp inside)
  rw [lookup_received genuineToo]
  refine acceptAll_eq_latest ((mem_arrivals_of same).mpr ⟨member, rfl⟩) eligible_none
    (fun other inside => ?_) (fun _ _ _ _ _ => Int.lt_trans) fun other inside differs _ => ?_
  · obtain ⟨otherMember, otherID⟩ := (mem_arrivals_of same).mp inside
    exact Int.not_lt.mpr (latest other otherMember otherID)
  · obtain ⟨otherMember, otherID⟩ := (mem_arrivals_of same).mp inside
    -- with an equal time it would be a second newest message
    have apart : other.nTimeSigned ≠ newest.nTimeSigned := fun equal =>
      differs (single newest member other otherMember otherID.symm equal.symm latest).symm
    exact lt_of_le_of_ne (latest other otherMember otherID) apart

theorem lookup_received_of_none
    (same : ∀ message, message ∈ arrivals ↔ message ∈ messages) {id : Int}
    (unnamed : ∀ message ∈ messages, message.nSporkID ≠ id) :
    (received keys arrivals).mapSporksActive.lookup id = none := by
  have genuineToo : Genuine keys arrivals := fun message inside =>
    genuine message ((same message).mp inside)
  have empty : arrivals.filter (fun message => message.nSporkID = id) = [] := by
    refine eq_nil_iff_forall_not_mem.mpr fun message inside => ?_
    obtain ⟨member, named⟩ := (mem_arrivals_of same).mp inside
    exact unnamed message member named
  rw [lookup_received genuineToo, empty]
  rfl

theorem lookup_received_cons {newest : CSporkMessage}
    (member : newest ∈ messages)
    (latest : ∀ message ∈ messages, message.nSporkID = newest.nSporkID →
      message.nTimeSigned ≤ newest.nTimeSigned) :
    (received keys (newest :: messages)).mapSporksActive.lookup newest.nSporkID = some newest := by
  have genuineToo : Genuine keys (newest :: messages) := by
    intro message inside
    rcases mem_cons.mp inside with rfl | later
    · exact genuine message member
    · exact genuine message later
  rw [lookup_received genuineToo, filter_cons_of_pos (by simp)]
  refine acceptAll_cons_stays eligible_none fun other inside => ?_
  obtain ⟨otherMember, otherID⟩ := (mem_arrivals_of fun _ => Iff.rfl).mp inside
  exact Int.not_lt.mpr (latest other otherMember otherID)

theorem converges_iff :
    Converges keys messages ↔ OneNewest messages := by
  constructor
  · intro converges first firstMember second secondMember sameID sameTime latest
    have latestToo : ∀ message ∈ messages, message.nSporkID = second.nSporkID →
        message.nTimeSigned ≤ second.nTimeSigned := by
      intro message member named
      rw [← sameTime]
      exact latest message member (named.trans sameID.symm)
    have front : ∀ newest ∈ messages, ∀ message,
        message ∈ newest :: messages ↔ message ∈ messages := by
      intro newest member message
      rw [mem_cons, or_iff_right_iff_imp]
      rintro rfl
      exact member
    have agree := (converges _ _ (front first firstMember) (front second secondMember)
      first.nSporkID).1
    rw [lookup_received_cons genuine firstMember latest, sameID,
      lookup_received_cons genuine secondMember latestToo] at agree
    exact Option.some.inj agree
  · intro single first second firstSame secondSame id
    by_cases named : ∃ message ∈ messages, message.nSporkID = id
    · obtain ⟨message, member, messageID⟩ := named
      have inside : message ∈ messages.filter fun other => other.nSporkID = id :=
        (mem_arrivals_of fun _ => Iff.rfl).mpr ⟨member, messageID⟩
      obtain ⟨newest, newestInside, latest⟩ : ∃ newest ∈ messages.filter fun other =>
          other.nSporkID = id, ∀ other ∈ messages.filter fun other => other.nSporkID = id,
            other.nTimeSigned ≤ newest.nTimeSigned :=
        exists_latest CSporkMessage.nTimeSigned inside
      obtain ⟨newestMember, rfl⟩ := (mem_arrivals_of fun _ => Iff.rfl).mp newestInside
      have latestOf : ∀ other ∈ messages, other.nSporkID = newest.nSporkID →
          other.nTimeSigned ≤ newest.nTimeSigned := fun other otherMember otherID =>
        latest other ((mem_arrivals_of fun _ => Iff.rfl).mpr ⟨otherMember, otherID⟩)
      rw [lookup_received_of_newest genuine single firstSame newestMember latestOf,
        lookup_received_of_newest genuine single secondSame newestMember latestOf]
      refine ⟨rfl, fun held equal => ?_, fun other otherMember otherID => ?_⟩
      · cases equal
        exact ⟨newestMember, rfl⟩
      · exact ⟨newest, rfl, latestOf other otherMember otherID⟩
    · have unnamed : ∀ message ∈ messages, message.nSporkID ≠ id := fun message member same =>
        named ⟨message, member, same⟩
      rw [lookup_received_of_none genuine firstSame unnamed,
        lookup_received_of_none genuine secondSame unnamed]
      refine ⟨rfl, fun held impossible => ?_, fun message member same => ?_⟩
      · cases impossible
      · exact absurd same (unnamed message member)

end

/-! ## Restarts -/

def SurvivesRestart (keys : SporkKeys) (state : SporkState) : Prop :=
  ∀ id, (state.restart keys).mapSporksActive.lookup id = state.mapSporksActive.lookup id

/-- The database holds messages of known sporks under their ids. -/
def WellKeyed (state : SporkState) : Prop :=
  ∀ id message, state.pSporkDB.lookup id = some message →
    message.nSporkID = id ∧ sporkKnown id = true

/-- What the node signs itself is in the database already. -/
def SignsWhatIsStored (keys : SporkKeys) (state : SporkState) : SporkInput → Prop
  | .updateSpork nSporkID nValue now =>
    ∀ vchSig, keys.sign { nSporkID := nSporkID, nValue := nValue, nTimeSigned := now } =
        some vchSig →
      state.pSporkDB.lookup nSporkID =
        some { vchSig := vchSig, nSporkID := nSporkID, nValue := nValue, nTimeSigned := now }
  | _ => True

theorem mem_loadedIDs {id : Int} (known : sporkKnown id = true) : id ∈ loadedIDs := by
  rw [sporkKnown, getSporkNameByID, isSome_map] at known
  obtain ⟨spork, found⟩ := isSome_iff_exists.mp known
  have named : spork.1 = id := by simpa using find?_some found
  have all : ∀ spork ∈ sporkNames, spork.1 ∈ loadedIDs := by decide
  rw [← named]
  exact all spork (mem_of_find?_eq_some found)

theorem loadSpork_db (id : Int) : (state.loadSpork keys id).pSporkDB = state.pSporkDB := by
  rw [loadSpork]
  split
  · rfl
  · split <;> rfl

theorem foldl_loadSpork_db (ids : List Int) :
    (ids.foldl (fun current id => current.loadSpork keys id) state).pSporkDB = state.pSporkDB := by
  induction ids generalizing state with
  | nil => rfl
  | cons id rest ih => rw [foldl_cons, ih, loadSpork_db]

/-- The loop, from any point on: the messages of the ids that are still to come
are taken from the database. -/
theorem lookup_foldl_loadSpork (keyed : state.WellKeyed) (ids : List Int) (id : Int) :
    (ids.foldl (fun current id => current.loadSpork keys id) state).mapSporksActive.lookup id =
      if id ∈ ids ∧ (state.pSporkDB.lookup id).isSome = true then state.pSporkDB.lookup id
      else state.mapSporksActive.lookup id := by
  induction ids generalizing state with
  | nil => simp
  | cons first rest ih =>
    have keyedNext : (state.loadSpork keys first).WellKeyed := by
      rw [WellKeyed, loadSpork_db]
      exact keyed
    rw [foldl_cons, ih keyedNext, loadSpork_db]
    by_cases later : id ∈ rest ∧ (state.pSporkDB.lookup id).isSome = true
    · rw [if_pos later, if_pos ⟨mem_cons_of_mem _ later.1, later.2⟩]
    · rw [if_neg later, loadSpork]
      cases stored : state.pSporkDB.lookup first with
      | none =>
        have idle : ¬ (id ∈ first :: rest ∧ (state.pSporkDB.lookup id).isSome = true) := by
          rintro ⟨inside, some⟩
          rcases mem_cons.mp inside with rfl | member
          · rw [stored] at some
            cases some
          · exact later ⟨member, some⟩
        rw [if_neg idle]
        split <;> rfl
      | some message =>
        obtain ⟨named, known⟩ := keyed first message stored
        rw [known]
        simp only [Bool.not_true, Bool.false_eq_true, if_false, activate, named,
          lookup_insert_ite]
        by_cases same : id = first
        · subst same
          rw [if_pos rfl, stored, if_pos ⟨mem_cons_self, rfl⟩]
        · rw [if_neg same, if_neg]
          rintro ⟨inside, some⟩
          exact later ⟨(mem_cons.mp inside).resolve_left same, some⟩

theorem lookup_restart (keyed : state.WellKeyed) (id : Int) :
    (state.restart keys).mapSporksActive.lookup id = state.pSporkDB.lookup id := by
  have fresh : ({ pSporkDB := state.pSporkDB } : SporkState).WellKeyed := keyed
  rw [restart, loadSporksFromDB, lookup_foldl_loadSpork fresh]
  cases stored : state.pSporkDB.lookup id with
  | none => simp
  | some message => rw [if_pos ⟨mem_loadedIDs (keyed id message stored).2, rfl⟩]

theorem restart_db : (state.restart keys).pSporkDB = state.pSporkDB := by
  rw [restart, loadSporksFromDB, foldl_loadSpork_db]

theorem survivesRestart_iff (keyed : state.WellKeyed) :
    state.SurvivesRestart keys ↔
      ∀ id, state.pSporkDB.lookup id = state.mapSporksActive.lookup id :=
  forall_congr' fun id => by rw [lookup_restart keyed]

/-- What `ProcessSpork` does: nothing, or the message becomes active and is stored. -/
theorem processSpork_cases (ready : Bool) (message : CSporkMessage) :
    state.processSpork keys ready message = state ∨
      (sporkKnown message.nSporkID = true ∧
        state.processSpork keys ready message =
          { state.activate keys message with
            pSporkDB := state.pSporkDB.insert message.nSporkID message }) := by
  cases known : sporkKnown message.nSporkID with
  | false =>
    left
    simp [processSpork, known]
  | true =>
    rw [processSpork, known]
    split
    · exact Or.inl rfl
    · split
      · exact Or.inl rfl
      · split
        · exact Or.inl rfl
        · split
          · exact Or.inl rfl
          · exact Or.inr ⟨rfl, rfl⟩

theorem wellKeyed_step {next : SporkState} {input : SporkInput} (keyed : state.WellKeyed)
    (stepped : state.step keys input = some next) : next.WellKeyed := by
  cases input with
  | spork ready message =>
    cases stepped
    rcases processSpork_cases ready message with idle | ⟨known, stored⟩
    · rw [idle]
      exact keyed
    · rw [stored]
      intro id other found
      rw [lookup_insert_ite] at found
      split at found
      case isTrue same =>
        cases found
        rw [same]
        exact ⟨rfl, known⟩
      case isFalse => exact keyed id other found
  | updateSpork nSporkID nValue now =>
    cases stepped
    rw [updateSpork]
    dsimp only
    split
    · exact keyed
    · exact keyed
  | restart =>
    rw [← Option.some.inj stepped]
    rw [WellKeyed, restart_db]
    exact keyed

/-- One step: only a message that the node signs itself can be lost by a restart. -/
theorem step_survives_iff {next : SporkState} {input : SporkInput} (keyed : state.WellKeyed)
    (survives : state.SurvivesRestart keys) (stepped : state.step keys input = some next) :
    next.SurvivesRestart keys ↔ state.SignsWhatIsStored keys input := by
  have same := (survivesRestart_iff keyed).mp survives
  rw [survivesRestart_iff (wellKeyed_step keyed stepped)]
  cases input with
  | spork ready message =>
    cases stepped
    refine iff_of_true (fun id => ?_) trivial
    rcases processSpork_cases ready message with idle | ⟨_, stored⟩
    · rw [idle]
      exact same id
    · rw [stored]
      simp only [activate, lookup_insert_ite, same]
  | updateSpork nSporkID nValue now =>
    cases stepped
    rw [updateSpork, SignsWhatIsStored]
    dsimp only
    cases signed : keys.sign { nSporkID := nSporkID, nValue := nValue, nTimeSigned := now } with
    | none => exact iff_of_true same fun vchSig impossible => by cases impossible
    | some vchSig =>
      simp only [activate, lookup_insert_ite]
      constructor
      · rintro stored other equal
        cases equal
        rw [stored nSporkID, if_pos rfl]
      · intro stored id
        by_cases here : id = nSporkID
        · rw [if_pos here, here]
          exact stored vchSig rfl
        · rw [if_neg here]
          exact same id
  | restart =>
    rw [← Option.some.inj stepped]
    refine iff_of_true (fun id => ?_) trivial
    rw [restart_db, lookup_restart keyed]

/-! ## Nodes -/

/-- Nodes that have received the same genuine messages agree on the active
sporks exactly if no spork has two messages with its latest signing time.  In
a run from a start of the node a restart never changes the active sporks
exactly if all messages that the node signs itself are in the database. -/
theorem sporks_converge_iff (keys : SporkKeys) (messages : List CSporkMessage)
    (genuine : Genuine keys messages) :
    (Converges keys messages ↔ OneNewest messages) ∧
      ∀ (start : SporkState) (inputs : List SporkInput), start.WellKeyed →
        start.SurvivesRestart keys →
          (Runs.Throughout (step keys) (SurvivesRestart keys) start inputs ↔
            Runs.Meets (step keys) (SignsWhatIsStored keys) start inputs) := by
  refine ⟨converges_iff genuine, fun start inputs keyed survives => ?_⟩
  refine Runs.throughout_iff_meets (fun state input next wellKeyed _ _ stepped _ => ?_)
    (fun state input next wellKeyed _ before stepped => ?_) (fun state input stuck => ?_)
    keyed survives (Runs.Meets.trivial (step keys) start inputs)
  · exact wellKeyed_step wellKeyed stepped
  · exact step_survives_iff wellKeyed before stepped
  · cases input <;> cases stuck

end SporkState

namespace SporkSample

/-- Messages with the signature 01 are good, and the node can sign. -/
def keys : SporkKeys where
  getHash := fun message => BitVec.ofInt 256 message.nTimeSigned
  checkSignature := fun message => message.vchSig = [1]
  sign := fun _ => some [1]

/-- A message for `SPORK_9_MASTERNODE_BUDGET_ENFORCEMENT`. -/
def message (nValue nTimeSigned : Int) : CSporkMessage :=
  { vchSig := [1], nSporkID := 10008, nValue := nValue, nTimeSigned := nTimeSigned }

end SporkSample

namespace SporkState

open SporkSample

/-- Two messages with different times, and a node that signs none. -/
theorem sporks_converge_update :
    Converges keys [message 4070908800 100, message 0 200] ∧
      Runs.Throughout (step keys) (SurvivesRestart keys) {}
        [.spork true (message 0 200), .restart, .spork true (message 4070908800 100)] := by
  obtain ⟨converges, restarts⟩ :=
    sporks_converge_iff keys [message 4070908800 100, message 0 200] (by unfold Genuine; decide)
  refine ⟨converges.mpr ?_, (restarts {} _ ?_ ?_).mpr ?_⟩
  · rintro first firstMember second secondMember - sameTime -
    rcases mem_pair.mp firstMember with rfl | rfl <;>
      rcases mem_pair.mp secondMember with rfl | rfl
    · rfl
    · exact absurd sameTime (by decide)
    · exact absurd sameTime (by decide)
    · rfl
  · intro id other impossible
    cases impossible
  · exact (survivesRestart_iff fun id other impossible => by cases impossible).mpr fun id => rfl
  · exact ⟨trivial, fun _ _ => ⟨trivial, fun _ _ => ⟨trivial, fun _ _ => trivial⟩⟩⟩

/-- Two messages signed in one second make the active one a matter of order, and
a restart forgets the message that the node signed itself. -/
theorem sporks_diverge :
    (Genuine keys [message 4070908800 100, message 0 100] ∧
      ¬ Converges keys [message 4070908800 100, message 0 100]) ∧
    ∃ final, Runs.run (step keys) {} [.updateSpork 10008 0 100] = some final ∧
      ¬ final.SurvivesRestart keys := by
  have genuine : Genuine keys [message 4070908800 100, message 0 100] := by
    unfold Genuine
    decide
  refine ⟨⟨genuine, fun converges => ?_⟩, _, rfl, fun survives => ?_⟩
  · have equal := (converges_iff genuine).mp converges (message 4070908800 100) mem_cons_self
      (message 0 100) (mem_cons_of_mem _ mem_cons_self) rfl rfl (by decide)
    exact absurd equal (by decide)
  · exact absurd (survives 10008) (by decide)

end SporkState

end CentNode
