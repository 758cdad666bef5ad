import CentNode.Chain.CheckBlockIndex

/-!
# The invariant behind the consistency check

The facts are grouped by the fields they are about, so that a function that
leaves a field alone keeps the groups without it.  While the best chain is being
activated the tip may lie below the bar, the best tip so far, which is what the
candidates are measured against.
-/

namespace CentNode

open Bool List

/-- The number of transactions of the chain that ends in an entry. -/
def BlockTree.chainTx (tree : BlockTree) (nTx : BlockPtr → Nat) (pindex : BlockPtr) : Nat :=
  ((tree.path pindex).map nTx).sum

/-- Status bits: the data flag and the transactions level say that the block was
received, every entry reached the tree level, the chain level comes with that of
the parents, and a failure has an origin. -/
structure StatusOk (tree : BlockTree) (nStatus : BlockPtr → BlockStatus) (nTx : BlockPtr → Nat) :
    Prop where
  data : ∀ {pindex}, tree.Known pindex → ((nStatus pindex).haveData = true ↔ nTx pindex ≠ 0)
  received : ∀ {pindex}, tree.Known pindex → (3 ≤ (nStatus pindex).validity.level ↔ nTx pindex ≠ 0)
  inTree : ∀ {pindex}, tree.Known pindex → 2 ≤ (nStatus pindex).validity.level
  chain : ∀ {pindex parent}, tree.Known pindex → tree.pprev pindex = some parent →
    4 ≤ (nStatus pindex).validity.level → 5 ≤ (nStatus pindex).validity.level ∧
      (tree.pprev parent ≠ none → 4 ≤ (nStatus parent).validity.level)
  blamed : ∀ {pindex}, tree.Known pindex → (nStatus pindex).failed = true →
    ∃ elder, tree.Below pindex elder ∧ (nStatus elder).failedValid = true

/-- Linking: an entry has a transaction count when its block and all before it
were received, and waits in `mapBlocksUnlinked` when only its own was.  The
entries of `queue` are about to be linked. -/
structure LinkOk (tree : BlockTree) (nTx nChainTx nSequenceId : BlockPtr → Nat)
    (mapBlocksUnlinked : List (Option BlockPtr × BlockPtr)) (queue : List BlockPtr) : Prop where
  linked : ∀ {pindex}, tree.Known pindex → pindex ∉ queue →
    (nChainTx pindex ≠ 0 ↔
      nTx pindex ≠ 0 ∧ ∀ parent, tree.pprev pindex = some parent → nChainTx parent ≠ 0)
  counted : ∀ {pindex}, tree.Known pindex → nChainTx pindex ≠ 0 →
    nChainTx pindex = tree.chainTx nTx pindex % 2 ^ 32
  unsequenced : ∀ {pindex}, tree.Known pindex → nChainTx pindex = 0 → nSequenceId pindex = 0
  waiting : ∀ {up pindex}, (up, pindex) ∈ mapBlocksUnlinked →
    tree.Known pindex ∧ up = tree.pprev pindex ∧ nTx pindex ≠ 0 ∧ nChainTx pindex = 0 ∧
      pindex ∉ queue
  listed : ∀ {pindex}, tree.Known pindex → nTx pindex ≠ 0 → nChainTx pindex = 0 →
    pindex ∉ queue → (tree.pprev pindex, pindex) ∈ mapBlocksUnlinked
  distinct : mapBlocksUnlinked.Nodup
  queued : ∀ {pindex}, pindex ∈ queue → tree.Known pindex ∧ nTx pindex ≠ 0 ∧
    nChainTx pindex = 0 ∧ ∀ parent, tree.pprev pindex = some parent → nChainTx parent ≠ 0
  queuedOnce : queue.Nodup

/-- An entry that the active chain may end in. -/
structure Usable (tree : BlockTree) (nStatus : BlockPtr → BlockStatus)
    (nChainTx : BlockPtr → Nat) (pindex : BlockPtr) : Prop where
  known : tree.Known pindex
  linked : nChainTx pindex ≠ 0
  clear : ∀ {elder}, tree.Below pindex elder → (nStatus elder).failed = false

/-- The active chain leads from its tip to the genesis block, and every later
block on it was found valid. -/
structure ActiveOk (tree : BlockTree) (nStatus : BlockPtr → BlockStatus)
    (nChainTx : BlockPtr → Nat) (chainActive : List BlockPtr) (tip : BlockPtr) : Prop where
  usable : Usable tree nStatus nChainTx tip
  active : chainActive = tree.path tip
  scripts : tree.pprev tip ≠ none → 4 ≤ (nStatus tip).validity.level

/-- The candidates are linked entries that do not sort below the bar, and all
of these that are not failed. -/
structure CandidatesOk (tree : BlockTree) (nStatus : BlockPtr → BlockStatus)
    (nChainTx : BlockPtr → Nat) (worse : BlockPtr → BlockPtr → Bool)
    (setBlockIndexCandidates : List BlockPtr) (bar : BlockPtr) : Prop where
  member : ∀ {pindex}, pindex ∈ setBlockIndexCandidates →
    tree.Known pindex ∧ nChainTx pindex ≠ 0 ∧ worse pindex bar = false
  offered : ∀ {pindex}, tree.Known pindex → nChainTx pindex ≠ 0 →
    (nStatus pindex).failed = false → worse pindex bar = false → pindex ∈ setBlockIndexCandidates

namespace IndexState

structure Consistent (hashGenesisBlock : Uint256) (state : IndexState) (tip bar : BlockPtr) :
    Prop where
  formed : state.tree.WellFormed hashGenesisBlock
  status : StatusOk state.tree state.nStatus state.nTx
  links : LinkOk state.tree state.nTx state.nChainTx state.nSequenceId state.mapBlocksUnlinked []
  active : ActiveOk state.tree state.nStatus state.nChainTx state.chainActive tip
  candidates : CandidatesOk state.tree state.nStatus state.nChainTx state.worse
    state.setBlockIndexCandidates bar
  barUsable : Usable state.tree state.nStatus state.nChainTx bar
  order : state.worse bar tip = false

end IndexState

variable {tree : BlockTree} {hashGenesisBlock : Uint256} {nStatus : BlockPtr → BlockStatus}
  {nTx nChainTx nSequenceId : BlockPtr → Nat} {queue : List BlockPtr}
  {mapBlocksUnlinked : List (Option BlockPtr × BlockPtr)}

/-! ## Consequences along a chain -/

theorem BlockTree.chainTx_root {pindex : BlockPtr} (root : tree.pprev pindex = none) :
    tree.chainTx nTx pindex = nTx pindex := by
  simp [chainTx, WellFormed.path_root pindex root]

theorem BlockTree.chainTx_parent (formed : tree.WellFormed hashGenesisBlock)
    {pindex parent : BlockPtr} (known : tree.Known pindex)
    (edge : tree.pprev pindex = some parent) :
    tree.chainTx nTx pindex = nTx pindex + tree.chainTx nTx parent := by
  simp [chainTx, formed.path_parent known edge]

namespace LinkOk

section

variable (links : LinkOk tree nTx nChainTx nSequenceId mapBlocksUnlinked queue)

include links

theorem not_queued {pindex : BlockPtr} (linked : nChainTx pindex ≠ 0) : pindex ∉ queue :=
  fun inside => linked (links.queued inside).2.2.1

theorem linked_above (formed : tree.WellFormed hashGenesisBlock) {pindex elder : BlockPtr}
    (known : tree.Known pindex) (linked : nChainTx pindex ≠ 0) (above : tree.Below pindex elder) :
    nChainTx elder ≠ 0 ∧ nTx elder ≠ 0 := by
  induction above with
  | refl => exact ⟨linked, ((links.linked known (links.not_queued linked)).mp linked).1⟩
  | step edge _ ih =>
    have parents := ((links.linked known (links.not_queued linked)).mp linked).2
    exact ih (formed.ranked.parent_known known edge) (parents _ edge)

end

/-- With nothing queued, an entry is not linked exactly if some block above it is missing. -/
theorem missing_iff (links : LinkOk tree nTx nChainTx nSequenceId mapBlocksUnlinked [])
    (formed : tree.WellFormed hashGenesisBlock) {pindex : BlockPtr} (known : tree.Known pindex) :
    (∃ elder, tree.Below pindex elder ∧ nTx elder = 0) ↔ nChainTx pindex = 0 := by
  constructor
  · rintro ⟨elder, above, missing⟩
    by_contra linked
    exact (links.linked_above formed known linked above).2 missing
  · intro unlinked
    by_contra complete
    have present : ∀ elder, tree.Below pindex elder → nTx elder ≠ 0 :=
      fun elder above missing => complete ⟨elder, above, missing⟩
    -- From the genesis block on, each entry of the chain is linked because its parent is.
    have climbs : ∀ height elder, tree.nHeight elder = height → tree.Known elder →
        tree.Below pindex elder → nChainTx elder ≠ 0 := by
      intro height
      induction height with
      | zero =>
        intro elder zero overKnown above
        refine (links.linked overKnown not_mem_nil).mpr ⟨present elder above, ?_⟩
        intro parent edge
        have grows := formed.ranked.rank_parent overKnown edge
        omega
      | succ height ih =>
        intro elder high overKnown above
        refine (links.linked overKnown not_mem_nil).mpr ⟨present elder above, ?_⟩
        intro parent edge
        have grows := formed.ranked.rank_parent overKnown edge
        exact ih parent (by omega) (formed.ranked.parent_known overKnown edge)
          (above.trans (.parent_of edge))
    exact climbs _ pindex rfl known (.refl pindex) unlinked

end LinkOk

namespace StatusOk

theorem level_above (status : StatusOk tree nStatus nTx)
    (formed : tree.WellFormed hashGenesisBlock) {pindex elder : BlockPtr}
    (known : tree.Known pindex) (above : tree.Below pindex elder)
    (high : tree.pprev pindex ≠ none → 4 ≤ (nStatus pindex).validity.level)
    (inner : tree.pprev elder ≠ none) : 5 ≤ (nStatus elder).validity.level := by
  induction above with
  | refl =>
    obtain ⟨parent, edge⟩ := Option.ne_none_iff_exists'.mp inner
    exact (status.chain known edge (high inner)).1
  | step edge _ ih =>
    refine ih (formed.ranked.parent_known known edge) ?_ inner
    exact (status.chain known edge (high (by rw [edge]; exact Option.some_ne_none _))).2

end StatusOk

/-! ## The traversal -/

theorem noteFirst_isSome {first : Option BlockPtr} {property : BlockPtr → Bool}
    {pindex : BlockPtr} (above : first.isSome = true ↔
      ∃ parent, tree.pprev pindex = some parent ∧
        ∃ elder, tree.Below parent elder ∧ property elder = true) :
    (noteFirst first (property pindex) pindex).isSome = true ↔
      ∃ elder, tree.Below pindex elder ∧ property elder = true := by
  have either : (noteFirst first (property pindex) pindex).isSome = true ↔
      property pindex = true ∨ first.isSome = true := by
    cases first <;> cases property pindex <;> simp [noteFirst]
  rw [either, above]
  constructor
  · rintro (here | ⟨parent, edge, elder, up, holds⟩)
    · exact ⟨pindex, .refl pindex, here⟩
    · exact ⟨elder, .step edge up, holds⟩
  · rintro ⟨elder, up, holds⟩
    obtain rfl | ⟨parent, edge, up⟩ := up.cases_parent
    · exact .inl holds
    · exact .inr ⟨parent, edge, elder, up, holds⟩

namespace IndexState

variable {state : IndexState} {tip : BlockPtr}

/-- An entry other than the genesis block that has not reached a level. -/
def belowLevel (state : IndexState) (validity : BlockValidity) (pindex : BlockPtr) : Bool :=
  (state.tree.pprev pindex).isSome && decide (state.level pindex < validity.level)

variable {pindex : BlockPtr}

theorem belowLevel_iff {validity : BlockValidity} :
    state.belowLevel validity pindex = true ↔ state.tree.pprev pindex ≠ none ∧
      (state.nStatus pindex).validity.level < validity.level := by
  rw [belowLevel, and_eq_true, decide_eq_true_eq, Option.isSome_iff_ne_none]
  rfl

/-- Each variable of the search is set exactly if some entry of a set has the
property it looks for. -/
structure Seen (state : IndexState) (seen : FirstSeen) (among : (BlockPtr → Bool) → Prop) :
    Prop where
  invalid : seen.pindexFirstInvalid.isSome = true ↔
    among fun pindex => (state.nStatus pindex).failedValid
  missing : seen.pindexFirstMissing.isSome = true ↔
    among fun pindex => !(state.nStatus pindex).haveData
  notTree : seen.pindexFirstNotTreeValid.isSome = true ↔ among (state.belowLevel .tree)
  notChain : seen.pindexFirstNotChainValid.isSome = true ↔ among (state.belowLevel .chain)
  notScripts : seen.pindexFirstNotScriptsValid.isSome = true ↔ among (state.belowLevel .scripts)

/-- Some entry above, the entry itself left out, has the property. -/
def AmongParents (state : IndexState) (pindex : BlockPtr) (property : BlockPtr → Bool) : Prop :=
  ∃ parent, state.tree.pprev pindex = some parent ∧
    ∃ elder, state.tree.Below parent elder ∧ property elder = true

/-- Some entry above, or the entry itself, has the property. -/
def AmongPath (state : IndexState) (pindex : BlockPtr) (property : BlockPtr → Bool) : Prop :=
  ∃ elder, state.tree.Below pindex elder ∧ property elder = true

theorem Seen.note {seen : FirstSeen} (before : state.Seen seen (state.AmongParents pindex)) :
    state.Seen (state.noteEntry seen pindex) (state.AmongPath pindex) where
  invalid := noteFirst_isSome before.invalid
  missing := noteFirst_isSome before.missing
  notTree := noteFirst_isSome before.notTree
  notChain := noteFirst_isSome before.notChain
  notScripts := noteFirst_isSome before.notScripts

theorem Seen.descend {seen : FirstSeen} {child : BlockPtr}
    (edge : state.tree.pprev child = some pindex)
    (here : state.Seen seen (state.AmongPath pindex)) :
    state.Seen seen (state.AmongParents child) := by
  have same : ∀ property, state.AmongParents child property ↔ state.AmongPath pindex property := by
    intro property
    constructor
    · rintro ⟨parent, edgeToo, found⟩
      rw [edge] at edgeToo
      cases edgeToo
      exact found
    · exact fun found => ⟨pindex, edge, found⟩
  exact ⟨here.invalid.trans (same _).symm, here.missing.trans (same _).symm,
    here.notTree.trans (same _).symm, here.notChain.trans (same _).symm,
    here.notScripts.trans (same _).symm⟩

theorem Seen.start (root : state.tree.pprev pindex = none) :
    state.Seen {} (state.AmongParents pindex) := by
  have none : ∀ property, ¬ state.AmongParents pindex property := by
    rintro property ⟨parent, edge, _⟩
    rw [root] at edge
    cases edge
  constructor <;> simp [none]

/-! ## The assertions -/

theorem Consistent.last_active {bar : BlockPtr}
    (consistent : state.Consistent hashGenesisBlock tip bar) (known : state.tree.Known pindex)
    (root : state.tree.pprev pindex = none) : state.chainActive.getLast? = some pindex := by
  have formed := consistent.formed
  have ends : ∀ height start, state.tree.nHeight start = height → state.tree.Known start →
      (state.tree.path start).getLast? = some pindex := by
    intro height
    induction height with
    | zero =>
      intro start zero startKnown
      cases edge : state.tree.pprev start with
      | none =>
        rw [BlockTree.WellFormed.path_root start edge,
          formed.root_unique startKnown known edge root]
        rfl
      | some parent =>
        have grows := formed.ranked.rank_parent startKnown edge
        omega
    | succ height ih =>
      intro start high startKnown
      cases edge : state.tree.pprev start with
      | none =>
        have zero := formed.ranked.rank_root startKnown edge
        omega
      | some parent =>
        have grows := formed.ranked.rank_parent startKnown edge
        rw [formed.path_parent startKnown edge, getLast?_cons,
          ih parent (by omega) (formed.ranked.parent_known startKnown edge)]
        rfl
  rw [consistent.active.active]
  exact ends _ tip rfl consistent.active.usable.known

section Entry

variable {seen : FirstSeen} {pindex : BlockPtr}

variable {bar : BlockPtr}

section

variable (consistent : state.Consistent hashGenesisBlock tip bar) (known : state.tree.Known pindex)
  (sees : state.Seen seen (state.AmongPath pindex))

include consistent known sees

theorem Consistent.missing_isSome :
    seen.pindexFirstMissing.isSome = true ↔ state.nChainTx pindex = 0 := by
  rw [sees.missing, ← consistent.links.missing_iff consistent.formed known]
  refine exists_congr fun elder => and_congr_right fun above => ?_
  have data := consistent.status.data (consistent.formed.ranked.known_of_below known above)
  rw [not_eq_true', ← not_eq_true, data, not_ne_iff]

theorem Consistent.clear_of_valid
    (valid : ¬ seen.pindexFirstInvalid.isSome = true) : (state.nStatus pindex).failed = false := by
  rw [sees.invalid] at valid
  by_contra failed
  exact valid (consistent.status.blamed known (not_eq_false _ ▸ failed))

theorem Consistent.checkFields_eq_true :
    state.checkFields hashGenesisBlock seen (state.tree.nHeight pindex) pindex = true := by
  have formed := consistent.formed
  have status := consistent.status
  have missing := consistent.missing_isSome known sees
  have levels : ∀ validity, (4 ≤ (state.nStatus pindex).validity.level) → validity.level ≤ 5 →
      ¬ state.AmongPath pindex (state.belowLevel validity) := by
    rintro validity high small ⟨elder, above, low⟩
    obtain ⟨inner, low⟩ := belowLevel_iff.mp low
    have reached := status.level_above formed known above (fun _ => high) inner
    omega
  simp only [checkFields, and_eq_true, or_eq_true, beq_iff_eq, decide_eq_true_eq]
  refine ⟨⟨⟨⟨⟨⟨⟨⟨⟨⟨⟨?genesis, ?data⟩, ?received⟩, ?sequence⟩, ?missing⟩, trivial⟩, ?work⟩, ?skip⟩,
    ?inTree⟩, ?chain⟩, ?scripts⟩, ?failed⟩
  case genesis =>
    cases edge : state.tree.pprev pindex with
    | none => exact .inr ⟨formed.root known edge, consistent.last_active known edge⟩
    | some parent => exact .inl rfl
  case data =>
    have data := status.data known
    by_cases none : state.nTx pindex = 0 <;> simp_all
  case received =>
    rw [decide_eq_decide, Nat.pos_iff_ne_zero]
    exact status.received known
  case sequence =>
    by_cases unlinked : state.nChainTx pindex = 0
    · exact .inr (consistent.links.unsequenced known unlinked)
    · exact .inl unlinked
  case missing => rw [Bool.eq_iff_iff, missing, decide_eq_true_eq]
  case work =>
    cases edge : state.tree.pprev pindex with
    | none => rfl
    | some parent =>
      simp only [Option.all_some, decide_eq_true_eq]
      exact Nat.le_of_lt (formed.work known edge)
  case skip =>
    cases edge : state.tree.pprev pindex with
    | none =>
      left
      have zero := formed.ranked.rank_root known edge
      omega
    | some parent =>
      right
      obtain ⟨elder, pointer, _, height⟩ := formed.skip known edge
      have grows := formed.ranked.rank_parent known edge
      simp only [pointer, Option.any_some, decide_eq_true_eq, height]
      exact getSkipHeight_lt (by omega)
  case inTree =>
    rw [← Option.not_isSome, not_eq_true', ← not_eq_true, sees.notTree]
    rintro ⟨elder, above, low⟩
    have reached := status.inTree (formed.ranked.known_of_below known above)
    exact absurd (belowLevel_iff.mp low).2 (Nat.not_lt.mpr reached)
  case chain =>
    by_cases high : 4 ≤ (state.nStatus pindex).validity.level
    · right
      rw [← Option.not_isSome, not_eq_true', ← not_eq_true, sees.notChain]
      exact levels .chain high (by decide)
    · exact .inl (Nat.lt_of_not_le high)
  case scripts =>
    by_cases high : 4 ≤ (state.nStatus pindex).validity.level
    · right
      rw [← Option.not_isSome, not_eq_true', ← not_eq_true, sees.notScripts]
      exact levels .scripts high (by decide)
    · exact .inl (Nat.lt_of_lt_of_le (Nat.lt_of_not_le high) (by decide))
  case failed =>
    by_cases invalid : seen.pindexFirstInvalid.isSome = true
    · exact .inl invalid
    · right
      rw [consistent.clear_of_valid known sees invalid]
      rfl

end

theorem Consistent.checkSets_eq_true (consistent : state.Consistent hashGenesisBlock tip tip)
    (known : state.tree.Known pindex) (sees : state.Seen seen (state.AmongPath pindex)) :
    state.checkSets seen pindex = true := by
  have missing := consistent.missing_isSome known sees
  have complete : seen.pindexFirstMissing.isNone = true ↔ state.nChainTx pindex ≠ 0 := by
    rw [← Option.not_isSome, not_eq_true', ← not_eq_true, missing]
  have atTip : state.notWorseThanTip pindex = !state.worse pindex tip := by
    have head : state.tip = some tip := by
      rw [IndexState.tip, consistent.active.active, BlockTree.path]
      rfl
    simp only [notWorseThanTip, head]
  simp only [checkSets, and_eq_true, atTip]
  refine ⟨?candidate, ?unlinked⟩
  case candidate =>
    split
    case isTrue good =>
      obtain ⟨best, present⟩ := good
      by_cases invalid : seen.pindexFirstInvalid.isSome = true
      · simp [invalid]
      · have inside := consistent.candidates.offered known (complete.mp present)
          (consistent.clear_of_valid known sees invalid) (by simpa using best)
        simp [inside]
    case isFalse bad =>
      simp only [not_eq_true', contains_eq_mem, decide_eq_false_iff_not]
      intro inside
      obtain ⟨_, linked, best⟩ := consistent.candidates.member inside
      exact bad ⟨by rw [best]; rfl, complete.mpr linked⟩
  case unlinked =>
    split
    case isTrue waits =>
      obtain ⟨⟨_, data⟩, incomplete⟩ := waits
      have found := consistent.links.listed known ((consistent.status.data known).mp data)
        (missing.mp incomplete) not_mem_nil
      simp [found]
    case isFalse settled =>
      simp only [not_eq_true', contains_eq_mem, decide_eq_false_iff_not]
      intro inside
      obtain ⟨_, _, received, unlinked, _⟩ := consistent.links.waiting inside
      refine settled ?_
      have data := (consistent.status.data known).mpr received
      have parent : (state.tree.pprev pindex).isSome = true := by
        cases edge : state.tree.pprev pindex with
        | some parent => rfl
        | none =>
          refine absurd ((consistent.links.linked known not_mem_nil).mpr ⟨received, ?_⟩)
            (Classical.not_not.mpr unlinked)
          intro parent edgeToo
          rw [edge] at edgeToo
          cases edgeToo
      exact ⟨⟨parent, data⟩, missing.mpr unlinked⟩

end Entry

/-- What the search knows when it enters an entry. -/
structure Entered (state : IndexState) (seen : FirstSeen) (nHeight : Nat) (pindex : BlockPtr) :
    Prop where
  known : state.tree.Known pindex
  height : state.tree.nHeight pindex = nHeight
  sees : state.Seen seen (state.AmongParents pindex)

theorem entered_child (formed : state.tree.WellFormed hashGenesisBlock) (seen : FirstSeen)
    (nHeight : Nat) (pindex child : BlockPtr) (entered : state.Entered seen nHeight pindex)
    (inside : child ∈ state.tree.entries.filter fun child => state.tree.pprev child = some pindex) :
    state.Entered (state.noteEntry seen pindex) (nHeight + 1) child := by
  obtain ⟨known, edge⟩ := formed.mem_children.mp inside
  refine ⟨known, ?_, .descend edge entered.sees.note⟩
  rw [formed.ranked.rank_parent known edge, entered.height]

theorem roots_eq (formed : state.tree.WellFormed hashGenesisBlock) :
    ∃ genesis, state.tree.Known genesis ∧ state.tree.pprev genesis = none ∧
      (state.tree.entries.filter fun pindex => state.tree.pprev pindex = none) = [genesis] := by
  obtain ⟨genesis, found, root⟩ := formed.genesis
  have known := formed.known_of_lookup found
  refine ⟨genesis, known, root, ?_⟩
  refine perm_singleton.mp ?_
  rw [perm_ext_iff_of_nodup (formed.entries_nodup.filter _) (nodup_singleton genesis)]
  intro pindex
  rw [mem_filter, formed.mem_entries, decide_eq_true_eq, mem_singleton]
  constructor
  · exact fun ⟨pindexKnown, isRoot⟩ => formed.root_unique pindexKnown known isRoot root
  · rintro rfl
    exact ⟨known, root⟩

/-- The visits of the search that starts at the genesis block. -/
def visits (state : IndexState) (genesis : BlockPtr) : List (FirstSeen × Nat × BlockPtr) :=
  Forest.traverse
    (fun pindex => state.tree.entries.filter fun child => state.tree.pprev child = some pindex)
    state.noteEntry state.tree.entries.length 0 {} genesis

section Search

variable {genesis : BlockPtr}

section

variable (formed : state.tree.WellFormed hashGenesisBlock)

include formed

theorem bounded_genesis {other : BlockPtr}
    (known : state.tree.Known other) :
    state.tree.nHeight other < state.tree.nHeight genesis + state.tree.entries.length := by
  have limit := formed.bounded known
  omega

theorem mem_visits (known : state.tree.Known genesis) (root : state.tree.pprev genesis = none)
    {pindex : BlockPtr} :
    pindex ∈ (state.visits genesis).map (·.2.2) ↔ state.tree.Known pindex := by
  rw [visits, Forest.mem_traverse formed.ranked formed.mem_children known (bounded_genesis formed)]
  exact ⟨And.left, fun pindexKnown => ⟨pindexKnown, formed.below_root known root pindexKnown⟩⟩

theorem sees_of_visit (known : state.tree.Known genesis) (root : state.tree.pprev genesis = none)
    {visit : FirstSeen × Nat × BlockPtr} (visited : visit ∈ state.visits genesis) :
    state.tree.Known visit.2.2 ∧ state.tree.nHeight visit.2.2 = visit.2.1 ∧
      state.Seen visit.1 (state.AmongPath visit.2.2) := by
  have start : state.Entered {} 0 genesis :=
    ⟨known, formed.ranked.rank_root known root, .start root⟩
  obtain ⟨before, same, entered⟩ := Forest.traverse_invariant (entered_child formed) start visited
  exact ⟨entered.known, entered.height, same ▸ entered.sees.note⟩

end

end Search

theorem Consistent.checkBlockIndex_eq_true
    (consistent : state.Consistent hashGenesisBlock tip tip) :
    state.checkBlockIndex hashGenesisBlock = true := by
  have formed := consistent.formed
  obtain ⟨genesis, known, root, roots⟩ := roots_eq formed
  have running : state.chainActive.isEmpty = false := by
    rw [consistent.active.active]
    rfl
  simp only [checkBlockIndex, running, roots, and_eq_true, all_eq_true,
    decide_eq_true_eq, false_eq_true, if_false]
  refine ⟨?checks, ?count⟩
  case checks =>
    intro visit visited
    obtain ⟨visitKnown, height, sees⟩ := sees_of_visit formed known root visited
    rw [← height]
    exact ⟨consistent.checkFields_eq_true visitKnown sees,
      consistent.checkSets_eq_true visitKnown sees⟩
  case count =>
    rw [← length_map (·.2.2)]
    refine List.Perm.length_eq ((perm_ext_iff_of_nodup ?_ formed.entries_nodup).mpr ?_)
    · exact Forest.nodup_traverse formed.ranked formed.mem_children
        (fun _ => formed.entries_nodup.filter _) known (bounded_genesis formed)
    · intro pindex
      rw [formed.mem_entries]
      exact mem_visits formed known root

end IndexState

end CentNode
