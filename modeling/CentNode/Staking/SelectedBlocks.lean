import CentNode.Staking.ModifierAgreement
import Mathlib.Data.List.MinMax

/-!
# The blocks that a stake modifier is made from

Each round of `ComputeNextStakeModifier` takes one of the candidate blocks that
the rounds before it left.  The scan of a round ends early, at the first block
after the stop time of the round once it has selected one.
-/

namespace CentNode

open List Option

namespace StakeIndex

/-- The pair that stands for the block in the sorted list. -/
def timestamp (pindex : StakeIndex) : Nat × Uint256 := (pindex.nTime, pindex.hash)

/-- In time and then in block hash, not after another block. -/
def NotAfter (left right : StakeIndex) : Prop := timestampLE left.timestamp right.timestamp

instance : DecidableRel NotAfter := fun left right =>
  inferInstanceAs (Decidable (timestampLE left.timestamp right.timestamp))

end StakeIndex

open StakeIndex

/-! ## The order of the candidates -/

theorem timestampLE_total (left right : Nat × Uint256) :
    timestampLE left right ∨ timestampLE right left := by
  unfold timestampLE
  rw [BitVec.le_def, BitVec.le_def]
  omega

theorem timestampLE_trans {first second third : Nat × Uint256} (left : timestampLE first second)
    (right : timestampLE second third) : timestampLE first third := by
  unfold timestampLE at *
  rw [BitVec.le_def] at *
  omega

instance : Std.Total StakeIndex.NotAfter := ⟨fun left right =>
  timestampLE_total left.timestamp right.timestamp⟩

instance : IsTrans StakeIndex StakeIndex.NotAfter := ⟨fun _ _ _ => timestampLE_trans⟩

theorem StakeIndex.NotAfter.nTime_le {left right : StakeIndex} (order : left.NotAfter right) :
    left.nTime ≤ right.nTime := by
  obtain earlier | ⟨same, _⟩ := order
  · exact Nat.le_of_lt earlier
  · exact Nat.le_of_eq same

/-- The blocks of the longest run down from `pindexPrev` that are not before the start. -/
def candidateBlocks (start : Int) (pindexPrev : List StakeIndex) : List StakeIndex :=
  pindexPrev.takeWhile fun pindex => start ≤ pindex.nTime

def sortedBlocks (start : Int) (pindexPrev : List StakeIndex) : List StakeIndex :=
  (candidateBlocks start pindexPrev).reverse.insertionSort StakeIndex.NotAfter

variable (start : Int) (pindexPrev : List StakeIndex)

theorem sortedCandidates_eq :
    sortedCandidates start pindexPrev =
      (sortedBlocks start pindexPrev).map timestamp := by
  unfold sortedBlocks
  rw [@map_insertionSort _ _ StakeIndex.NotAfter timestampLE _ _ timestamp _
    fun _ _ _ _ => Iff.rfl, map_reverse]
  rfl

theorem mem_sortedBlocks {start : Int} {pindexPrev : List StakeIndex} {pindex : StakeIndex} :
    pindex ∈ sortedBlocks start pindexPrev ↔ pindex ∈ candidateBlocks start pindexPrev := by
  rw [sortedBlocks, mem_insertionSort, mem_reverse]

theorem length_sortedBlocks :
    (sortedBlocks start pindexPrev).length = (candidateBlocks start pindexPrev).length := by
  rw [sortedBlocks, length_insertionSort, length_reverse]

theorem sortedBlocks_pairwise : (sortedBlocks start pindexPrev).Pairwise StakeIndex.NotAfter :=
  pairwise_insertionSort StakeIndex.NotAfter _

/-! ## One round -/

section Round

variable (selected : StakeIndex → Bool) (stop : Int)

/-- The unselected blocks that a round looks at: the loop ends at the first
block after the stop time, unless it has none yet. -/
def scanned : Bool → List StakeIndex → List StakeIndex
  | _, [] => []
  | fSelected, pindex :: rest =>
    if fSelected = true ∧ stop < pindex.nTime then []
    else if selected pindex then scanned fSelected rest
    else pindex :: scanned true rest

variable {selected stop}

def eligible (selected : StakeIndex → Bool) (stop : Int) (blocks : List StakeIndex) :
    List StakeIndex :=
  blocks.filter fun pindex => !selected pindex && decide ((pindex.nTime : Int) ≤ stop)

variable {blocks : List StakeIndex}

theorem eligible_of_late (late : ∀ pindex ∈ blocks, stop < pindex.nTime) :
    eligible selected stop blocks = [] := by
  apply filter_eq_nil_iff.mpr
  intro pindex member
  have after := late pindex member
  simp only [Bool.and_eq_true, decide_eq_true_eq, not_and]
  intro _
  omega

theorem late_of_sorted {pindex : StakeIndex} {rest : List StakeIndex}
    (sorted : (pindex :: rest).Pairwise StakeIndex.NotAfter) (late : stop < pindex.nTime) :
    ∀ other ∈ rest, stop < other.nTime := by
  intro other member
  have order := (rel_of_pairwise_cons sorted member).nTime_le
  omega

theorem scanned_true (sorted : blocks.Pairwise StakeIndex.NotAfter) :
    scanned selected stop true blocks = eligible selected stop blocks := by
  induction blocks with
  | nil => rfl
  | cons pindex rest ih =>
    rw [scanned]
    by_cases late : stop < pindex.nTime
    · rw [if_pos ⟨rfl, late⟩, eligible_of_late]
      intro other member
      obtain rfl | later := mem_cons.mp member
      · exact late
      · exact late_of_sorted sorted late other later
    · have early : (pindex.nTime : Int) ≤ stop := Int.not_lt.mp late
      rw [if_neg fun both => late both.2, ih sorted.of_cons]
      cases taken : selected pindex <;> simp [eligible, taken, early]

theorem scanned_false (sorted : blocks.Pairwise StakeIndex.NotAfter) :
    scanned selected stop false blocks =
      if eligible selected stop blocks = [] then
        (blocks.filter fun pindex => !selected pindex).take 1
      else eligible selected stop blocks := by
  induction blocks with
  | nil => rfl
  | cons pindex rest ih =>
    rw [scanned, if_neg fun both => Bool.false_ne_true both.1]
    by_cases taken : selected pindex = true
    · rw [if_pos taken, ih sorted.of_cons]
      simp [eligible, taken]
    · rw [if_neg taken, scanned_true sorted.of_cons]
      by_cases late : stop < pindex.nTime
      · have nothing : eligible selected stop rest = [] :=
          eligible_of_late (late_of_sorted sorted late)
        have nothingToo : eligible selected stop (pindex :: rest) = [] := by
          simpa [eligible, taken, late] using nothing
        rw [nothing, if_pos nothingToo]
        simp [taken]
      · have early : (pindex.nTime : Int) ≤ stop := Int.not_lt.mp late
        have found : eligible selected stop (pindex :: rest) =
            pindex :: eligible selected stop rest := by
          simp [eligible, taken, early]
        rw [found, if_neg (cons_ne_nil _ _)]

end Round

section Selection

variable {params : CChainParams} {hashOf : Uint256 → BitVec 64 → Uint256}
  {find : Uint256 → Option StakeIndex} {mapSelectedBlocks : List Uint256} {stop : Int}
  {nStakeModifierPrev : BitVec 64}

/-- The selection hash of a block, as a number. -/
def selectionScore (hashOf : Uint256 → BitVec 64 → Uint256) (fModifierV2 : Bool)
    (nStakeModifierPrev : BitVec 64) (pindex : StakeIndex) : Nat :=
  (selectionHash hashOf fModifierV2 nStakeModifierPrev pindex).toNat

def bestOf (hashOf : Uint256 → BitVec 64 → Uint256) (fModifierV2 : Bool)
    (nStakeModifierPrev : BitVec 64) (blocks : List StakeIndex) : Option (Uint256 × StakeIndex) :=
  (blocks.argmin (selectionScore hashOf fModifierV2 nStakeModifierPrev)).map fun pindex =>
    (selectionHash hashOf fModifierV2 nStakeModifierPrev pindex, pindex)

theorem isSome_bestOf (fModifierV2 : Bool) (blocks : List StakeIndex) :
    (bestOf hashOf fModifierV2 nStakeModifierPrev blocks).isSome = !blocks.isEmpty := by
  cases blocks with
  | nil => rfl
  | cons pindex rest =>
    have some_ : ((pindex :: rest).argmin
        (selectionScore hashOf fModifierV2 nStakeModifierPrev)).isSome = true := by
      rw [isSome_iff_ne_none, ne_eq, argmin_eq_none]
      exact cons_ne_nil _ _
    rw [bestOf, isSome_map, some_]
    rfl

theorem keepBest_bestOf (fModifierV2 : Bool) (blocks : List StakeIndex) (pindex : StakeIndex) :
    keepBest (bestOf hashOf fModifierV2 nStakeModifierPrev blocks)
        (selectionHash hashOf fModifierV2 nStakeModifierPrev pindex) pindex =
      bestOf hashOf fModifierV2 nStakeModifierPrev (blocks ++ [pindex]) := by
  unfold bestOf
  rw [argmin_concat]
  cases blocks.argmin (selectionScore hashOf fModifierV2 nStakeModifierPrev) with
  | none => rfl
  | some best =>
    simp only [map_some, keepBest]
    by_cases lower : selectionScore hashOf fModifierV2 nStakeModifierPrev pindex <
        selectionScore hashOf fModifierV2 nStakeModifierPrev best
    · rw [if_pos (BitVec.lt_def.mpr lower), if_pos lower]
      rfl
    · rw [if_neg (mt BitVec.lt_def.mp lower), if_neg lower]
      rfl

theorem selectLoop_eq {fModifierV2 : Bool} {blocks : List StakeIndex}
    (found : ∀ pindex ∈ blocks, find pindex.hash = some pindex) (seen : List StakeIndex) :
    selectLoop params hashOf find mapSelectedBlocks stop nStakeModifierPrev
        (blocks.map timestamp) (some fModifierV2)
        (bestOf hashOf fModifierV2 nStakeModifierPrev seen) =
      some (bestOf hashOf fModifierV2 nStakeModifierPrev
        (seen ++ scanned (fun pindex => pindex.hash ∈ mapSelectedBlocks) stop (!seen.isEmpty)
          blocks)) := by
  induction blocks generalizing seen with
  | nil =>
    rw [scanned, append_nil]
    rfl
  | cons pindex rest ih =>
    have later := fun other member => found other (mem_cons_of_mem pindex member)
    have here : find pindex.timestamp.2 = some pindex := found pindex mem_cons_self
    rw [map_cons, selectLoop, here]
    dsimp only
    rw [isSome_bestOf, scanned, getD_some]
    by_cases ends : (!seen.isEmpty) = true ∧ stop < pindex.nTime
    · rw [if_pos ends, if_pos ends, append_nil]
    · rw [if_neg ends, if_neg ends]
      by_cases taken : pindex.hash ∈ mapSelectedBlocks
      · rw [if_pos taken, if_pos (decide_eq_true taken), ih later seen]
      · have more : (!(seen ++ [pindex]).isEmpty) = true := by simp
        rw [if_neg taken, if_neg (by simpa using taken), keepBest_bestOf, ih later, more,
          append_assoc]
        rfl

/-- Whether the lowest of the sorted blocks is past the upgrade. -/
def modifierVersion (params : CChainParams) (blocks : List StakeIndex) : Bool :=
  (blocks.head?.map fun pindex => decide (params.modifierUpgradeBlock ≤ pindex.nHeight)).getD false

theorem selectBlockFromCandidates_eq {blocks : List StakeIndex}
    (found : ∀ pindex ∈ blocks, find pindex.hash = some pindex) :
    selectBlockFromCandidates params hashOf find (blocks.map timestamp)
        mapSelectedBlocks stop nStakeModifierPrev =
      (scanned (fun pindex => pindex.hash ∈ mapSelectedBlocks) stop false blocks).argmin
        (selectionScore hashOf (modifierVersion params blocks) nStakeModifierPrev) := by
  have version : selectLoop params hashOf find mapSelectedBlocks stop nStakeModifierPrev
        (blocks.map timestamp) none none =
      selectLoop params hashOf find mapSelectedBlocks stop nStakeModifierPrev
        (blocks.map timestamp) (some (modifierVersion params blocks)) none := by
    cases blocks with
    | nil => rfl
    | cons pindex rest =>
      have here : find pindex.timestamp.2 = some pindex := found pindex mem_cons_self
      rw [map_cons, selectLoop, selectLoop, here]
      rfl
  have loop := @selectLoop_eq params hashOf find mapSelectedBlocks stop nStakeModifierPrev
    (modifierVersion params blocks) blocks found []
  unfold selectBlockFromCandidates
  rw [version]
  change ((selectLoop params hashOf find mapSelectedBlocks stop nStakeModifierPrev
    (blocks.map timestamp) (some (modifierVersion params blocks))
    (bestOf hashOf (modifierVersion params blocks) nStakeModifierPrev [])).join).map Prod.snd = _
  rw [loop, join_some, nil_append, bestOf, Option.map_map]
  exact map_id_apply

end Selection

/-! ## What a round selects -/

theorem notAfter_of_idxOf_le {blocks : List StakeIndex}
    (sorted : blocks.Pairwise StakeIndex.NotAfter) {left right : StakeIndex}
    (leftMember : left ∈ blocks) (rightMember : right ∈ blocks)
    (order : blocks.idxOf left ≤ blocks.idxOf right) : left.NotAfter right := by
  have leftInside := idxOf_lt_length_of_mem leftMember
  have rightInside := idxOf_lt_length_of_mem rightMember
  obtain same | lower := Nat.eq_or_lt_of_le order
  · rw [(idxOf_inj leftMember).mp same]
    exact (timestampLE_total right.timestamp right.timestamp).elim id id
  · have pair := pairwise_iff_getElem.mp sorted _ _ leftInside rightInside lower
    rwa [getElem_idxOf, getElem_idxOf] at pair

/-- The block that a round has to select: of the unselected candidates up to the
stop time the one of least selection hash, or else the first unselected one. -/
structure RoundChoice (score : StakeIndex → Nat) (candidates earlier : List StakeIndex)
    (stop : Int) (pindex : StakeIndex) : Prop where
  candidate : pindex ∈ candidates
  fresh : pindex ∉ earlier
  least : ∀ other ∈ candidates, other ∉ earlier → (other.nTime : Int) ≤ stop →
    (pindex.nTime : Int) ≤ stop ∧
      (score pindex < score other ∨ score pindex = score other ∧ pindex.NotAfter other)
  first : (∀ other ∈ candidates, other ∉ earlier → stop < other.nTime) →
    ∀ other ∈ candidates, other ∉ earlier → pindex.NotAfter other

theorem argmin_scanned (score : StakeIndex → Nat) {blocks earlier : List StakeIndex}
    {selected : StakeIndex → Bool} (stop : Int) (sorted : blocks.Pairwise StakeIndex.NotAfter)
    (taken : ∀ pindex ∈ blocks, (selected pindex = true ↔ pindex ∈ earlier))
    (left : ∃ pindex ∈ blocks, pindex ∉ earlier) :
    ∃ pindex, (scanned selected stop false blocks).argmin score = some pindex ∧
      RoundChoice score blocks earlier stop pindex := by
  have inEligible : ∀ pindex, pindex ∈ eligible selected stop blocks ↔
      pindex ∈ blocks ∧ pindex ∉ earlier ∧ (pindex.nTime : Int) ≤ stop := by
    intro pindex
    rw [eligible, mem_filter, Bool.and_eq_true, decide_eq_true_eq, Bool.not_eq_true']
    refine and_congr_right fun member => and_congr_left fun _ => ?_
    rw [← taken pindex member, Bool.not_eq_true]
  rw [scanned_false sorted]
  by_cases none_ : eligible selected stop blocks = []
  · rw [if_pos none_]
    have late : ∀ other ∈ blocks, other ∉ earlier → ¬(other.nTime : Int) ≤ stop := by
      intro other member fresh early
      have impossible := (inEligible other).mpr ⟨member, fresh, early⟩
      rw [none_] at impossible
      cases impossible
    have inFresh : ∀ pindex, pindex ∈ blocks.filter (fun pindex => !selected pindex) ↔
        pindex ∈ blocks ∧ pindex ∉ earlier := by
      intro pindex
      rw [mem_filter, Bool.not_eq_true']
      refine and_congr_right fun member => ?_
      rw [← taken pindex member, Bool.not_eq_true]
    have order : (blocks.filter fun pindex => !selected pindex).Pairwise StakeIndex.NotAfter :=
      sorted.sublist filter_sublist
    cases fresh : blocks.filter fun pindex => !selected pindex with
    | nil =>
      obtain ⟨pindex, member, free⟩ := left
      have impossible := (inFresh pindex).mpr ⟨member, free⟩
      rw [fresh] at impossible
      cases impossible
    | cons pindex rest =>
      obtain ⟨member, free⟩ := (inFresh pindex).mp (fresh ▸ mem_cons_self)
      refine ⟨pindex, rfl, member, free, fun other inside untaken early =>
        absurd early (late other inside untaken), fun _ other inside untaken => ?_⟩
      have place := (inFresh other).mpr ⟨inside, untaken⟩
      rw [fresh] at place order
      obtain rfl | later := mem_cons.mp place
      · exact (timestampLE_total _ _).elim id id
      · exact rel_of_pairwise_cons order later
  · rw [if_neg none_]
    cases best : (eligible selected stop blocks).argmin score with
    | none => exact absurd (argmin_eq_none.mp best) none_
    | some pindex =>
      have member := argmin_mem best
      obtain ⟨inside, free, early⟩ := (inEligible pindex).mp member
      refine ⟨pindex, rfl, inside, free, fun other otherInside untaken otherEarly => ?_,
        fun late => absurd early (Int.not_le.mpr (late pindex inside free))⟩
      have otherMember := (inEligible other).mpr ⟨otherInside, untaken, otherEarly⟩
      refine ⟨early, ?_⟩
      obtain lower | same := Nat.lt_or_eq_of_le (le_of_mem_argmin otherMember best)
      · exact .inl lower
      · exact .inr ⟨same, notAfter_of_idxOf_le (sorted.sublist filter_sublist) member
          otherMember (index_of_argmin best otherMember (Nat.le_of_eq same.symm))⟩

theorem RoundChoice.congr {score : StakeIndex → Nat} {candidates others earlier : List StakeIndex}
    {stop : Int} {pindex : StakeIndex}
    (same : ∀ other, other ∈ others ↔ other ∈ candidates)
    (choice : RoundChoice score candidates earlier stop pindex) :
    RoundChoice score others earlier stop pindex where
  candidate := (same pindex).mpr choice.candidate
  fresh := choice.fresh
  least := fun other member => choice.least other ((same other).mp member)
  first := fun late other member =>
    choice.first (fun next inside => late next ((same next).mpr inside)) other
      ((same other).mp member)

/-! ## All rounds -/

/-- The stop time after some rounds. -/
def stopAfter (start : Int) (rounds : Nat) : Int :=
  start + ((List.range rounds).map selectionIntervalSection).sum

theorem stopAfter_succ (rounds : Nat) :
    stopAfter start (rounds + 1) = stopAfter start rounds + selectionIntervalSection rounds := by
  rw [stopAfter, stopAfter, range_succ, map_append, sum_append, map_singleton,
    sum_singleton, Int.add_assoc]

/-- The entropy bits of blocks that are selected from a round on. -/
def entropyBits : Nat → List StakeIndex → BitVec 64
  | _, [] => 0
  | nRound, pindex :: rest => (pindex.getStakeEntropyBit <<< nRound) ||| entropyBits (nRound + 1) rest

section Rounds

variable (params : CChainParams) (hashOf : Uint256 → BitVec 64 → Uint256)
  (find : Uint256 → Option StakeIndex) (nStakeModifierPrev : BitVec 64) (start : Int)
  (pindexPrev : List StakeIndex)

/-- A round of `ComputeNextStakeModifier` selects this block, and has to. -/
structure Selects (earlier : List StakeIndex) (pindex : StakeIndex) : Prop where
  computed : selectBlockFromCandidates params hashOf find (sortedCandidates start pindexPrev)
    (earlier.map StakeIndex.hash).reverse (stopAfter start (earlier.length + 1))
    nStakeModifierPrev = some pindex
  choice : RoundChoice
    (selectionScore hashOf (modifierVersion params (sortedBlocks start pindexPrev))
      nStakeModifierPrev)
    (candidateBlocks start pindexPrev) earlier (stopAfter start (earlier.length + 1)) pindex

variable {params hashOf find nStakeModifierPrev start pindexPrev}

theorem mem_of_mem_candidateBlocks {pindex : StakeIndex}
    (member : pindex ∈ candidateBlocks start pindexPrev) : pindex ∈ pindexPrev :=
  (takeWhile_sublist _).mem member

section

variable (found : ∀ pindex ∈ pindexPrev, find pindex.hash = some pindex)
  (distinct : pindexPrev.Nodup)

include found distinct

/-- While fewer blocks are selected than there are candidates, a round finds one. -/
theorem exists_selects {earlier : List StakeIndex}
    (inside : ∀ pindex ∈ earlier, pindex ∈ candidateBlocks start pindexPrev)
    (fewer : earlier.length < (candidateBlocks start pindexPrev).length) :
    ∃ pindex, Selects params hashOf find nStakeModifierPrev start pindexPrev earlier pindex := by
  have indexed : ∀ pindex ∈ sortedBlocks start pindexPrev, find pindex.hash = some pindex :=
    fun pindex member => found pindex (mem_of_mem_candidateBlocks (mem_sortedBlocks.mp member))
  have left : ∃ pindex ∈ sortedBlocks start pindexPrev, pindex ∉ earlier := by
    by_contra none_
    have covered : candidateBlocks start pindexPrev ⊆ earlier := by
      intro pindex member
      by_contra fresh
      exact none_ ⟨pindex, mem_sortedBlocks.mpr member, fresh⟩
    have distinctToo : (candidateBlocks start pindexPrev).Nodup :=
      distinct.sublist (takeWhile_sublist _)
    have most := (subperm_of_subset distinctToo covered).length_le
    omega
  have taken : ∀ pindex ∈ sortedBlocks start pindexPrev,
      (decide (pindex.hash ∈ (earlier.map StakeIndex.hash).reverse) = true ↔ pindex ∈ earlier) := by
    intro pindex member
    rw [decide_eq_true_eq, mem_reverse, List.mem_map]
    constructor
    · rintro ⟨other, taken, same⟩
      have here := indexed pindex member
      rw [← same, found other (mem_of_mem_candidateBlocks (inside other taken))] at here
      cases here
      exact taken
    · exact fun taken => ⟨pindex, taken, rfl⟩
  obtain ⟨pindex, best, choice⟩ := argmin_scanned
    (selectionScore hashOf (modifierVersion params (sortedBlocks start pindexPrev))
      nStakeModifierPrev) (stopAfter start (earlier.length + 1))
    (sortedBlocks_pairwise start pindexPrev) taken left
  refine ⟨pindex, ?_, choice.congr fun other => mem_sortedBlocks.symm⟩
  rw [sortedCandidates_eq, selectBlockFromCandidates_eq indexed]
  exact best

/-- The rounds select blocks that differ from each other and from the ones before. -/
theorem selectRounds_eq {count : Nat} {earlier : List StakeIndex}
    (inside : ∀ pindex ∈ earlier, pindex ∈ candidateBlocks start pindexPrev)
    (apart : earlier.Nodup)
    (room : earlier.length + count ≤ (candidateBlocks start pindexPrev).length)
    (nStakeModifierNew : BitVec 64) :
    ∃ later, later.length = count ∧ (earlier ++ later).Nodup ∧
      (∀ k pindex, later[k]? = some pindex →
        Selects params hashOf find nStakeModifierPrev start pindexPrev (earlier ++ later.take k)
          pindex) ∧
      selectRounds params hashOf find (sortedCandidates start pindexPrev) nStakeModifierPrev
          (List.range' earlier.length count) (stopAfter start earlier.length)
          (earlier.map StakeIndex.hash).reverse nStakeModifierNew =
        some (nStakeModifierNew ||| entropyBits earlier.length later) := by
  induction count generalizing earlier nStakeModifierNew with
  | zero =>
    refine ⟨[], rfl, by rwa [append_nil], fun k pindex absurdity => ?_, ?_⟩
    · cases absurdity
    · simp [selectRounds, entropyBits]
  | succ count ih =>
    have next : ∃ pindex,
        Selects params hashOf find nStakeModifierPrev start pindexPrev earlier pindex :=
      exists_selects found distinct inside (by omega)
    obtain ⟨pindex, selects⟩ := next
    have insideToo : ∀ other ∈ earlier ++ [pindex],
        other ∈ candidateBlocks start pindexPrev := by
      intro other member
      obtain before | last := mem_append.mp member
      · exact inside other before
      · rw [mem_singleton.mp last]
        exact selects.choice.candidate
    have apartToo : (earlier ++ [pindex]).Nodup :=
      nodup_append.mpr ⟨apart, nodup_singleton _, fun other before next last same =>
        selects.choice.fresh (mem_singleton.mp last ▸ same ▸ before)⟩
    obtain ⟨later, length, apartLater, selectsLater, rounds⟩ :=
      ih insideToo apartToo (by simp; omega)
        (nStakeModifierNew ||| (pindex.getStakeEntropyBit <<< earlier.length))
    refine ⟨pindex :: later, congrArg Nat.succ length, ?_, ?_, ?_⟩
    · rwa [append_assoc] at apartLater
    · intro k other place
      cases k with
      | zero =>
        cases place
        rw [take_zero, append_nil]
        exact selects
      | succ k =>
        have step := selectsLater k other place
        rwa [append_assoc] at step
    · rw [length_append, length_singleton, stopAfter_succ, map_append,
        reverse_append] at rounds
      have computed := selects.computed
      rw [stopAfter_succ] at computed
      rw [range'_succ, selectRounds, computed, bind_some]
      refine rounds.trans ?_
      rw [entropyBits, BitVec.or_assoc]

end

end Rounds

/-! ## The next modifier -/

section Complete

variable {params : CChainParams} {hashOf : Uint256 → BitVec 64 → Uint256} {literal : BitVec 64}

section

variable {chain : List StakeIndex} (computed : Computed params hashOf literal chain)

include computed

theorem Computed.nodup :
    chain.Nodup ∧ ∀ pindex ∈ chain, pindex.nHeight < chain.length := by
  induction chain with
  | nil => exact ⟨nodup_nil, fun _ member => absurd member not_mem_nil⟩
  | cons pindex below ih =>
    obtain ⟨distinct, lower⟩ := ih computed.below
    have height := computed.nHeight_eq
    constructor
    · refine nodup_cons.mpr ⟨fun again => ?_, distinct⟩
      have less := lower pindex again
      omega
    · intro other member
      rw [length_cons]
      obtain rfl | inside := mem_cons.mp member
      · omega
      · exact Nat.lt_succ_of_lt (lower other inside)

theorem Computed.exists_generated (long : 2 ≤ chain.length) :
    ∃ pindex ∈ chain, pindex.fGeneratedStakeModifier = true := by
  induction chain with
  | nil => simp at long
  | cons pindex below ih =>
    by_cases first : below.length = 1
    · obtain ⟨genesis, rfl⟩ := length_eq_one_iff.mp first
      have zero : genesis.nHeight = 0 := computed.below.nHeight_eq
      have modifier_eq := congrArg Prod.snd computed.2.1
      rw [computeNextStakeModifier, if_pos zero] at modifier_eq
      exact ⟨pindex, mem_cons_self, modifier_eq⟩
    · rw [length_cons] at long
      obtain ⟨other, member, generated⟩ := ih computed.below (by omega)
      exact ⟨other, mem_cons_of_mem _ member, generated⟩

end

/-- On every chain of the block index the next modifier is computed, and over the genesis block a new
one is made from the blocks that the rounds have to select. -/
theorem computeNextStakeModifier_complete (blocks : List CBlock) {hash : Uint256}
    {linked : LinkedIndex}
    (indexed : (blockIndexOf params hashOf literal blocks).lookup hash = some linked) :
    (computeNextStakeModifier params hashOf literal
      (blockIndexOf params hashOf literal blocks).find linked.chain).ok = true ∧
    (linked.entry.nHeight ≠ 0 →
      (computeNextStakeModifier params hashOf literal
        (blockIndexOf params hashOf literal blocks).find
          linked.chain).fGeneratedStakeModifier = true →
      ∃ last chosen, getLastStakeModifier linked.chain = some last ∧
        chosen.length = min 64
          (candidateBlocks (selectionIntervalStart linked.entry) linked.chain).length ∧
        chosen.Nodup ∧
        (∀ k pindex, chosen[k]? = some pindex →
          Selects params hashOf (blockIndexOf params hashOf literal blocks).find
            last.nStakeModifier (selectionIntervalStart linked.entry) linked.chain
            (chosen.take k) pindex) ∧
        (computeNextStakeModifier params hashOf literal
          (blockIndexOf params hashOf literal blocks).find linked.chain).nStakeModifier =
          entropyBits 0 chosen) := by
  have consistent : Consistent params hashOf literal (blockIndexOf params hashOf literal blocks) :=
    Consistent.blockIndexOf blocks
  obtain ⟨_, computed⟩ := consistent.computed hash linked indexed
  have found : ∀ pindex ∈ linked.chain,
      (blockIndexOf params hashOf literal blocks).find pindex.hash = some pindex :=
    fun pindex member => consistent.find_of_mem indexed member
  have height := computed.nHeight_eq
  by_cases zero : linked.entry.nHeight = 0
  · rw [LinkedIndex.chain, computeNextStakeModifier, if_pos zero]
    exact ⟨rfl, fun above => absurd zero above⟩
  have long : 2 ≤ linked.chain.length := by
    rw [LinkedIndex.chain, length_cons]
    omega
  cases recent : getLastStakeModifier linked.chain with
  | none =>
    obtain ⟨pindex, member, generated⟩ := computed.exists_generated long
    exact absurd generated (find?_eq_none.mp recent pindex member)
  | some last =>
    obtain ⟨chosen, length, distinct, selects, result⟩ :=
      @selectRounds_eq params hashOf (blockIndexOf params hashOf literal blocks).find
        last.nStakeModifier (selectionIntervalStart linked.entry) linked.chain found
        computed.nodup.1
        (min 64 (candidateBlocks (selectionIntervalStart linked.entry) linked.chain).length) []
        (fun pindex absurdity => absurd absurdity not_mem_nil) nodup_nil
        (by rw [length_nil, Nat.zero_add]; exact Nat.min_le_right _ _) 0
    have count : (sortedCandidates (selectionIntervalStart linked.entry) linked.chain).length =
        (candidateBlocks (selectionIntervalStart linked.entry) linked.chain).length := by
      rw [sortedCandidates_eq, length_map, length_sortedBlocks]
    have start : stopAfter (selectionIntervalStart linked.entry) 0 =
        selectionIntervalStart linked.entry := Int.add_zero _
    have unset : (0 : BitVec 64) ||| entropyBits 0 chosen = entropyBits 0 chosen := BitVec.zero_or
    rw [length_nil, start, ← range_eq_range', ← count, map_nil,
      reverse_nil, unset] at result
    have next : computeNextStakeModifier params hashOf literal
          (blockIndexOf params hashOf literal blocks).find linked.chain =
        if linked.entry.nTime / modifierInterval ≤ last.nTime / modifierInterval then
          ⟨true, last.nStakeModifier, false⟩
        else ⟨true, entropyBits 0 chosen, true⟩ := by
      rw [LinkedIndex.chain] at recent result ⊢
      rw [computeNextStakeModifier, if_neg zero, recent]
      dsimp only
      rw [result]
    rw [next]
    split
    · exact ⟨rfl, fun _ generated => absurd generated Bool.false_ne_true⟩
    · refine ⟨rfl, fun _ _ => ⟨last, chosen, rfl, length, distinct, fun k pindex place => ?_, rfl⟩⟩
      exact selects k pindex place

/-- The modifier after three blocks comes from all of them. -/
theorem computeNextStakeModifier_complete_three :
    ∃ chosen : List StakeIndex, chosen.length = 3 ∧ chosen.Nodup ∧
      (computeNextStakeModifier mainParams TwoNodes.mix 4096
        (TwoNodes.index 4096 TwoNodes.chain).find
          (TwoNodes.held 4096 TwoNodes.chain 3).chain).nStakeModifier = entropyBits 0 chosen := by
  have indexed : (blockIndexOf mainParams TwoNodes.mix 4096 TwoNodes.chain).lookup 3 =
      some (TwoNodes.held 4096 TwoNodes.chain 3) := by
    decide +kernel
  obtain ⟨_, chosen, _, length, distinct, _, bits⟩ :=
    (computeNextStakeModifier_complete TwoNodes.chain indexed).2 (by decide +kernel)
      (by decide +kernel)
  exact ⟨chosen, length.trans (by decide +kernel), distinct, bits⟩

/-- On the genesis block the modifier is made without a round, though it is a candidate. -/
theorem genesis_selects_none :
    (TwoNodes.index 4096 TwoNodes.chain).lookup 1 = some (TwoNodes.held 4096 TwoNodes.chain 1) ∧
      (computeNextStakeModifier mainParams TwoNodes.mix 4096
        (TwoNodes.index 4096 TwoNodes.chain).find
          (TwoNodes.held 4096 TwoNodes.chain 1).chain).fGeneratedStakeModifier = true ∧
      (candidateBlocks (selectionIntervalStart (TwoNodes.held 4096 TwoNodes.chain 1).entry)
        (TwoNodes.held 4096 TwoNodes.chain 1).chain).length = 1 ∧
      ∀ chosen : List StakeIndex, chosen.length = min 64 1 →
        (computeNextStakeModifier mainParams TwoNodes.mix 4096
          (TwoNodes.index 4096 TwoNodes.chain).find
            (TwoNodes.held 4096 TwoNodes.chain 1).chain).nStakeModifier ≠ entropyBits 0 chosen := by
  have modifier : (computeNextStakeModifier mainParams TwoNodes.mix 4096
      (TwoNodes.index 4096 TwoNodes.chain).find
        (TwoNodes.held 4096 TwoNodes.chain 1).chain).nStakeModifier = 4096 := by decide +kernel
  refine ⟨by decide +kernel, by decide +kernel, by decide +kernel, fun chosen length bits => ?_⟩
  obtain ⟨pindex, rfl⟩ := length_eq_one_iff.mp length
  have bit : entropyBits 0 [pindex] = pindex.hash.setWidth 64 &&& 1 := by
    simp [entropyBits, StakeIndex.getStakeEntropyBit]
  have small : (pindex.hash.setWidth 64 &&& 1).toNat ≤ 1 := by
    rw [BitVec.toNat_and]
    exact Nat.and_le_right
  rw [← bit, ← bits, modifier] at small
  exact absurd small (by decide)

end Complete

end CentNode
