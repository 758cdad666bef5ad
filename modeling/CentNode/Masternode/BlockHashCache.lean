import CentNode.Library.Memo
import CentNode.Library.Runs
import CentNode.Primitives.Transaction

/-!
# The cache of block hashes

`GetBlockHash` of `masternode.cpp` remembers its answers in
`mapCacheBlockHashes`, by height, and nothing removes an answer when the active
chain changes.  Masternode scores, and with them ranks and payments, are
computed from the answers.
-/

namespace CentNode

open List AList Option

/-- The loop of `GetBlockHash` down the hashes of the active chain, the tip
first; the height of a block is the number of blocks below it. -/
def walkBack (nBlocksAgo : Int) : Int → List Uint256 → Option Uint256
  | _, [] => none
  | n, hash :: below =>
    if below.length > 0 then if n ≥ nBlocksAgo then some hash else walkBack nBlocksAgo (n + 1) below
    else none

/-- `GetBlockHash` after the cache was asked. -/
def computeBlockHash : List Uint256 → Int → Option Uint256
  | [], _ => none
  | tip :: below, nBlockHeight =>
    let tipHeight : Int := below.length
    if tipHeight = 0 ∨ tipHeight + 1 < nBlockHeight then none
    else
      let nBlocksAgo := if nBlockHeight > 0 then tipHeight + 1 - nBlockHeight else 0
      walkBack nBlocksAgo 0 (tip :: below)

def getBlockHash (active : List Uint256) (mapCacheBlockHashes : StdMap Int Uint256)
    (nBlockHeight : Int) : Option Uint256 × StdMap Int Uint256 :=
  match active with
  | [] => (none, mapCacheBlockHashes)
  | _ :: below =>
    Memo.ask computeBlockHash active mapCacheBlockHashes
      (if nBlockHeight = 0 then below.length else nBlockHeight)

/-- `CMasternode::CalculateScore`; `hash1` and `hash2` are the hashes of one and
of two serialized numbers. -/
def calculateScore (hash1 : Uint256 → Uint256) (hash2 : Uint256 → Uint256 → Uint256)
    (active : List Uint256) (mapCacheBlockHashes : StdMap Int Uint256) (prevout : COutPoint)
    (nBlockHeight : Int) : Uint256 :=
  match (getBlockHash active mapCacheBlockHashes nBlockHeight).1 with
  | none => 0
  | some hash =>
    let aux := prevout.hash + BitVec.ofNat 256 prevout.n
    let plain := hash1 hash
    let mixed := hash2 hash aux
    if mixed > plain then mixed - plain else plain - mixed

/-! ## What the chain answers -/

theorem walkBack_eq (nBlocksAgo n : Int) (active : List Uint256) :
    walkBack nBlocksAgo n active =
      if (nBlocksAgo - n).toNat + 1 < active.length then active[(nBlocksAgo - n).toNat]?
      else none := by
  induction active generalizing n with
  | nil => rfl
  | cons hash below ih =>
    rw [walkBack]
    by_cases inside : below.length > 0
    · rw [if_pos inside]
      by_cases reached : n ≥ nBlocksAgo
      · have zero : (nBlocksAgo - n).toNat = 0 := by omega
        rw [if_pos reached, zero, if_pos (by simpa using inside)]
        rfl
      · have more : (nBlocksAgo - n).toNat = (nBlocksAgo - (n + 1)).toNat + 1 := by omega
        rw [if_neg reached, ih, more, length_cons, getElem?_cons_succ]
        by_cases far : (nBlocksAgo - (n + 1)).toNat + 1 < below.length
        · rw [if_pos far, if_pos (by omega)]
        · rw [if_neg far, if_neg (by omega)]
    · rw [if_neg inside, if_neg (by rw [length_cons]; omega)]

variable {nBlockHeight : Int}

section

variable {tip : Uint256} {active below : List Uint256} {hash : Uint256}

theorem computeBlockHash_of_pos (positive : 0 < nBlockHeight) :
    computeBlockHash active nBlockHeight =
      if 2 ≤ nBlockHeight ∧ nBlockHeight ≤ active.length then
        active[active.length - nBlockHeight.toNat]?
      else none := by
  cases active with
  | nil => rw [computeBlockHash, if_neg (by rw [length_nil]; omega)]
  | cons tip below =>
    rw [computeBlockHash, if_pos positive, walkBack_eq, length_cons]
    by_cases ahead : (below.length : Int) + 1 < nBlockHeight
    · rw [if_pos (Or.inr ahead), if_neg (by omega)]
    · by_cases low : nBlockHeight = 1
      · rw [if_neg (by omega : ¬ (2 ≤ nBlockHeight ∧ _))]
        split
        · rfl
        · rw [if_neg (by omega)]
      · rw [if_neg (by omega), if_pos (by omega), if_pos (by omega)]
        congr 1
        omega

theorem computeBlockHash_of_neg (negative : nBlockHeight < 0) :
    computeBlockHash (tip :: below) nBlockHeight = if below = [] then none else some tip := by
  rw [computeBlockHash, if_neg (by omega : ¬ nBlockHeight > 0), walkBack_eq]
  cases below with
  | nil => simp
  | cons parent rest =>
    rw [if_neg (by rw [length_cons]; omega), if_neg (cons_ne_nil _ _)]
    simp

theorem computeBlockHash_connect
    (positive : 0 < nBlockHeight) (answered : computeBlockHash active nBlockHeight = some hash)
    (new : Uint256) : computeBlockHash (new :: active) nBlockHeight = some hash := by
  rw [computeBlockHash_of_pos positive] at answered ⊢
  split at answered
  case isFalse => cases answered
  case isTrue inside =>
    have index : (new :: active).length - nBlockHeight.toNat =
        active.length - nBlockHeight.toNat + 1 := by
      rw [length_cons]
      omega
    rw [if_pos (by rw [length_cons]; omega), index, getElem?_cons_succ]
    exact answered

theorem computeBlockHash_disconnect
    (positive : 0 < nBlockHeight) (lower : nBlockHeight ≠ below.length + 1)
    (answered : computeBlockHash (tip :: below) nBlockHeight = some hash) :
    computeBlockHash below nBlockHeight = some hash := by
  rw [computeBlockHash_of_pos positive] at answered ⊢
  split at answered
  case isFalse => cases answered
  case isTrue inside =>
    rw [length_cons] at inside
    have index : (tip :: below).length - nBlockHeight.toNat =
        below.length - nBlockHeight.toNat + 1 := by
      rw [length_cons]
      omega
    rw [index, getElem?_cons_succ] at answered
    rw [if_pos (by omega)]
    exact answered

end

/-! ## The cache while the chain changes -/

/-- The hashes of the active chain, the tip first, and `mapCacheBlockHashes`. -/
structure HashCacheState where
  active : List Uint256
  mapCacheBlockHashes : StdMap Int Uint256

/-- The tip changes by one block, or a hash is asked for. -/
inductive HashCacheEvent where
  | connect (hash : Uint256)
  | disconnect
  | getBlockHash (nBlockHeight : Int)

namespace HashCacheState

/-- The genesis block is never disconnected. -/
def step (state : HashCacheState) : HashCacheEvent → Option HashCacheState
  | .connect hash => some { state with active := hash :: state.active }
  | .disconnect =>
    match state.active with
    | _ :: parent :: rest => some { state with active := parent :: rest }
    | _ => none
  | .getBlockHash nBlockHeight =>
    some { state with
      mapCacheBlockHashes := (getBlockHash state.active state.mapCacheBlockHashes nBlockHeight).2 }

/-- Every call gives what it gives with an empty cache. -/
def Transparent (state : HashCacheState) : Prop :=
  ∀ nBlockHeight, (getBlockHash state.active state.mapCacheBlockHashes nBlockHeight).1 =
    (getBlockHash state.active ∅ nBlockHeight).1

/-- A block has not the hash of its parent. -/
def Admitted (state : HashCacheState) : HashCacheEvent → Prop
  | .connect hash => ∀ tip ∈ state.active.head?, hash ≠ tip
  | _ => True

/-- No answer is stored that the change of the tip makes wrong: none for a
negative height, which was the hash of the tip, and none that was the hash of
the block that is disconnected. -/
def AnswersStand (state : HashCacheState) : HashCacheEvent → Prop
  | .connect _ => ∀ nBlockHeight < 0, state.mapCacheBlockHashes.lookup nBlockHeight = none
  | .disconnect => 1 < state.active.length →
      (∀ nBlockHeight < 0, state.mapCacheBlockHashes.lookup nBlockHeight = none) ∧
        state.mapCacheBlockHashes.lookup (state.active.length : Int) = none
  | .getBlockHash _ => True

structure Invariant (state : HashCacheState) : Prop where
  adjacent : state.active.IsChain fun child parent => child ≠ parent
  /-- Height zero is asked for by the height of the tip. -/
  zero : state.mapCacheBlockHashes.lookup 0 = none
  nothing : state.active = [] → state.mapCacheBlockHashes = ∅

variable {state : HashCacheState}

theorem transparent_iff (inv : Invariant state) :
    state.Transparent ↔ Memo.Sound computeBlockHash state.active state.mapCacheBlockHashes := by
  obtain ⟨active, cache⟩ := state
  cases active with
  | nil =>
    rw [inv.nothing rfl]
    exact iff_of_true (fun _ => rfl) Memo.sound_empty
  | cons tip below =>
    constructor
    · intro transparent nBlockHeight hash found
      have nonzero : nBlockHeight ≠ 0 := by
        rintro rfl
        rw [inv.zero] at found
        cases found
      have called := transparent nBlockHeight
      simp only [getBlockHash, if_neg nonzero] at called
      rw [Memo.ask_of_stored found, Memo.ask_of_new (lookup_empty _)] at called
      exact called.symm
    · intro sound nBlockHeight
      simp only [getBlockHash]
      rw [Memo.sound_iff_transparent.mp sound, Memo.ask_of_new (lookup_empty _)]

theorem invariant_getBlockHash (inv : Invariant state) (nBlockHeight : Int) :
    Invariant { state with
      mapCacheBlockHashes := (getBlockHash state.active state.mapCacheBlockHashes nBlockHeight).2 } := by
  obtain ⟨active, cache⟩ := state
  cases active with
  | nil => exact inv
  | cons tip below =>
    refine ⟨inv.adjacent, ?_, fun impossible => by cases impossible⟩
    simp only [getBlockHash]
    by_cases zero : (if nBlockHeight = 0 then (below.length : Int) else nBlockHeight) = 0
    · -- only a chain of one block resolves to zero, and it gives no answer
      have alone : below.length = 0 := by
        split at zero
        · omega
        · contradiction
      have nowhere : computeBlockHash (tip :: below) 0 = none := by
        rw [computeBlockHash, if_pos (Or.inl (by omega))]
      rw [zero, Memo.ask, inv.zero, nowhere]
      exact inv.zero
    · rw [Memo.lookup_ask_of_ne (Ne.symm zero)]
      exact inv.zero

theorem invariant_connect {hash : Uint256} (inv : Invariant state)
    (new : ∀ tip ∈ state.active.head?, hash ≠ tip) :
    Invariant { state with active := hash :: state.active } := by
  refine ⟨?_, inv.zero, fun impossible => by cases impossible⟩
  cases active_eq : state.active with
  | nil => exact List.IsChain.singleton _
  | cons tip below =>
    refine isChain_cons_cons.mpr ⟨new tip (by rw [active_eq]; rfl), ?_⟩
    rw [← active_eq]
    exact inv.adjacent

theorem step_invariant {next : HashCacheState} {event : HashCacheEvent} (inv : Invariant state)
    (admitted : state.Admitted event) (stepped : state.step event = some next) :
    Invariant next := by
  cases event with
  | connect hash =>
    cases stepped
    exact invariant_connect inv admitted
  | disconnect =>
    obtain ⟨active, cache⟩ := state
    match active with
    | [] => cases stepped
    | [_] => cases stepped
    | _ :: parent :: rest =>
      cases stepped
      exact ⟨(isChain_cons_cons.mp inv.adjacent).2, inv.zero,
        fun impossible => by cases impossible⟩
  | getBlockHash nBlockHeight =>
    cases stepped
    exact invariant_getBlockHash inv nBlockHeight

variable {cache : StdMap Int Uint256}

theorem pos_of_stored {nBlockHeight : Int} {answer : Uint256}
    (noNegative : ∀ height < 0, cache.lookup height = none) (zero : cache.lookup 0 = none)
    (found : cache.lookup nBlockHeight = some answer) : 0 < nBlockHeight := by
  rcases lt_trichotomy nBlockHeight 0 with negative | rfl | positive
  · rw [noNegative nBlockHeight negative] at found
    cases found
  · rw [zero] at found
    cases found
  · exact positive

theorem tips_of_negative {active next : List Uint256} {nBlockHeight : Int} {answer : Uint256}
    (negative : nBlockHeight < 0) (before : computeBlockHash active nBlockHeight = some answer)
    (after : computeBlockHash next nBlockHeight = some answer) : active.head? = next.head? := by
  cases active with
  | nil => cases before
  | cons tip below =>
    cases next with
    | nil => cases after
    | cons other rest =>
      rw [computeBlockHash_of_neg negative] at before after
      split at before
      · cases before
      · split at after
        · cases after
        · exact before.trans after.symm

theorem sound_connect_iff {active : List Uint256} {hash : Uint256}
    (sound : Memo.Sound computeBlockHash active cache) (zero : cache.lookup 0 = none)
    (new : ∀ tip ∈ active.head?, hash ≠ tip) :
    Memo.Sound computeBlockHash (hash :: active) cache ↔
      ∀ nBlockHeight < 0, cache.lookup nBlockHeight = none := by
  constructor
  · intro soundAfter nBlockHeight negative
    by_contra stored
    obtain ⟨answer, found⟩ := ne_none_iff_exists'.mp stored
    have tips := tips_of_negative negative (sound nBlockHeight answer found)
      (soundAfter nBlockHeight answer found)
    exact new hash tips rfl
  · intro noNegative nBlockHeight answer found
    exact computeBlockHash_connect (pos_of_stored noNegative zero found)
      (sound nBlockHeight answer found) hash

/-- Without the tip, the answer that was its hash is wrong as well. -/
theorem sound_disconnect_iff {tip : Uint256} {below : List Uint256}
    (sound : Memo.Sound computeBlockHash (tip :: below) cache) (zero : cache.lookup 0 = none)
    (differs : ∀ parent ∈ below.head?, tip ≠ parent) :
    Memo.Sound computeBlockHash below cache ↔
      (∀ nBlockHeight < 0, cache.lookup nBlockHeight = none) ∧
        cache.lookup ((tip :: below).length : Int) = none := by
  constructor
  · intro soundAfter
    constructor
    · intro nBlockHeight negative
      by_contra stored
      obtain ⟨answer, found⟩ := ne_none_iff_exists'.mp stored
      have tips := tips_of_negative negative (sound nBlockHeight answer found)
        (soundAfter nBlockHeight answer found)
      exact differs tip tips.symm rfl
    · by_contra stored
      obtain ⟨answer, found⟩ := ne_none_iff_exists'.mp stored
      have impossible := soundAfter _ answer found
      rw [computeBlockHash_of_pos (by rw [length_cons]; omega),
        if_neg (by rw [length_cons]; omega)] at impossible
      cases impossible
  · rintro ⟨noNegative, noTip⟩ nBlockHeight answer found
    have lower : nBlockHeight ≠ below.length + 1 := by
      rintro rfl
      have length_eq : ((tip :: below).length : Int) = below.length + 1 := by
        rw [length_cons]
        omega
      rw [length_eq, found] at noTip
      cases noTip
    exact computeBlockHash_disconnect (pos_of_stored noNegative zero found) lower
      (sound nBlockHeight answer found)

/-- One event keeps the cache transparent exactly if the stored answers stand. -/
theorem step_transparent_iff {next : HashCacheState} {event : HashCacheEvent}
    (inv : Invariant state) (admitted : state.Admitted event) (transparent : state.Transparent)
    (stepped : state.step event = some next) : next.Transparent ↔ state.AnswersStand event := by
  rw [transparent_iff (step_invariant inv admitted stepped)]
  have sound := (transparent_iff inv).mp transparent
  cases event with
  | connect hash =>
    cases stepped
    exact sound_connect_iff sound inv.zero admitted
  | disconnect =>
    obtain ⟨active, cache⟩ := state
    match active with
    | [] => cases stepped
    | [_] => cases stepped
    | tip :: parent :: rest =>
      cases stepped
      have several : 1 < (tip :: parent :: rest).length := by simp
      have stands := sound_disconnect_iff sound inv.zero fun other same => by
        cases same
        exact (isChain_cons_cons.mp inv.adjacent).1
      exact ⟨fun soundAfter _ => stands.mp soundAfter, fun met => stands.mpr (met several)⟩
  | getBlockHash nBlockHeight =>
    cases stepped
    refine iff_of_true ?_ trivial
    cases active_eq : state.active with
    | nil =>
      rw [getBlockHash, ← active_eq]
      exact sound
    | cons tip below =>
      rw [active_eq] at sound
      exact Memo.ask_keeps_sound sound _

/-- From any chain and an empty cache, the cache is transparent in every state
reached exactly if no change of the tip makes a stored answer wrong. -/
theorem hash_cache_transparent_iff (active : List Uint256) (events : List HashCacheEvent)
    (adjacent : active.IsChain fun child parent => child ≠ parent)
    (admitted : Runs.Meets step Admitted ⟨active, ∅⟩ events) :
    Runs.Throughout step Transparent ⟨active, ∅⟩ events ↔
      Runs.Meets step AnswersStand ⟨active, ∅⟩ events := by
  refine Runs.throughout_iff_meets
    (fun state event next inv ok _ stepped _ => step_invariant inv ok stepped)
    (fun state event next inv ok before stepped => step_transparent_iff inv ok before stepped)
    (fun state event stuck => ?_) ⟨adjacent, lookup_empty _, fun _ => rfl⟩
    (fun _ => rfl) admitted
  cases event with
  | connect hash => cases stuck
  | getBlockHash nBlockHeight => cases stuck
  | disconnect =>
    intro several
    obtain ⟨active, cache⟩ := state
    match active with
    | [] => cases several
    | [_] => exact absurd several (by simp)
    | _ :: _ :: _ => cases stuck

/-- A call for height 3 stands while a block is added above and replaced by another. -/
theorem hash_cache_transparent_replaced :
    Runs.Throughout step Transparent ⟨[3, 2, 1, 0], ∅⟩
      [.getBlockHash 3, .connect 4, .disconnect, .connect 5, .getBlockHash 0] := by
  have stands : ∀ {nBlockHeight : Int}, nBlockHeight ≠ 3 →
      ((∅ : StdMap Int Uint256).insert 3 2).lookup nBlockHeight = none := fun other =>
    lookup_insert_ne other
  refine (hash_cache_transparent_iff [3, 2, 1, 0] _ (by simp) ?_).mpr ?_
  · refine Runs.Meets.cons trivial rfl (Runs.Meets.cons (fun tip same => ?_) rfl
      (Runs.Meets.cons trivial rfl (Runs.Meets.cons (fun tip same => ?_) rfl
        (Runs.Meets.cons trivial rfl trivial))))
    all_goals
      cases same
      decide
  · exact Runs.Meets.cons trivial rfl
      (Runs.Meets.cons (fun nBlockHeight negative => stands (by omega)) rfl
        (Runs.Meets.cons (fun _ => ⟨fun nBlockHeight negative => stands (by omega),
          stands (by decide)⟩) rfl
          (Runs.Meets.cons (fun nBlockHeight negative => stands (by omega)) rfl
            (Runs.Meets.cons trivial rfl trivial))))

/-- The tip is replaced after a call for the height above it: the call still
gives the hash of the block that is gone. -/
theorem stale_hash_after_reorganisation :
    ∃ final, Runs.run step ⟨[2, 1, 0], ∅⟩ [.getBlockHash 3, .disconnect, .connect 5] = some final ∧
      (getBlockHash final.active final.mapCacheBlockHashes 3).1 = some 2 ∧
        (getBlockHash final.active ∅ 3).1 = some 5 ∧
          ¬ Runs.Throughout step Transparent ⟨[2, 1, 0], ∅⟩
            [.getBlockHash 3, .disconnect, .connect 5] := by
  refine ⟨_, rfl, by decide, by decide, fun along => ?_⟩
  exact absurd (along.final rfl 3) (by decide)

end HashCacheState

end CentNode
