import CentNode.Chain.Retarget

/-!
# The range of the targets

The target of a block of the proof of work is a running average of the last targets times
a timespan that is kept between a third and three times what is meant.  It is rounded down
and not kept from zero.
-/

namespace CentNode

open List BitVec Retarget

namespace TargetRange

/-! ## The average -/

/-- The running average of some targets, after a number of others with an average. -/
def averageFrom : Nat → Nat → List Nat → Nat
  | _, average, [] => average
  | count, average, target :: rest =>
    averageFrom (count + 1)
      (if count = 0 then target else (average * (count + 1) + target) / (count + 2)) rest

/-- Each target but the first weighs a part in one more than their number. -/
def runningAverage (targets : List Nat) : Nat := averageFrom 0 0 targets

variable {count average : Nat}

theorem average_step_le {target most : Nat} (average_le : average ≤ most)
    (target_le : target ≤ most) : (average * (count + 1) + target) / (count + 2) ≤ most := by
  refine Nat.div_le_of_le_mul ?_
  calc
    average * (count + 1) + target ≤ most * (count + 1) + most :=
      Nat.add_le_add (Nat.mul_le_mul_right _ average_le) target_le
    _ = (count + 2) * most := by ring

theorem le_average_step {target least : Nat} (le_average : least ≤ average)
    (le_target : least ≤ target) : least ≤ (average * (count + 1) + target) / (count + 2) := by
  rw [Nat.le_div_iff_mul_le (by omega)]
  calc
    least * (count + 2) = least * (count + 1) + least := by ring
    _ ≤ average * (count + 1) + target :=
      Nat.add_le_add (Nat.mul_le_mul_right _ le_average) le_target

/-! ## The timespan -/

/-- The time from the last of some blocks to the first, the last one first.  The spacing
before a block at time zero does not count. -/
def timespan : List Nat → Int
  | time :: earlier :: rest =>
    (if 0 < time then (time : Int) - earlier else 0) + timespan (earlier :: rest)
  | _ => 0

/-- Between a third and three times thirty spacings of 15 minutes. -/
def keptTimespan (times : List Nat) : Nat := (min (max (timespan times) 9000) 81000).toNat

theorem keptTimespan_le (times : List Nat) : keptTimespan times ≤ 81000 := by
  unfold keptTimespan
  omega

/-! ## The loop -/

/-- The variables of the loop after some blocks. -/
structure Agrees (past : PastBlocks) (count average : Nat) : Prop where
  count : past.countBlocks = count
  average : past.pastDifficultyAverage.toNat = average

/-- A target that is not above the limit of the main network. -/
def Within (pindex : CBlockIndex) : Prop :=
  0 < (setCompact pindex.nBits).1 ∧ (setCompact pindex.nBits).1 ≤ Retarget.limit

theorem toNat_divWord (value : Uint256) {divisor : Nat} (small : divisor < 2 ^ 64) :
    (value.divWord divisor).toNat = value.toNat / divisor := by
  have word : (BitVec.ofInt 64 (divisor : Int)).toNat = divisor := by
    rw [toNat_ofInt]
    omega
  rw [Uint256.divWord, toNat_udiv, toNat_setWidth, word, Nat.mod_eq_of_lt]
  exact Nat.lt_trans small (by decide)

theorem Agrees.read {past : PastBlocks} (agrees : Agrees past count average) (few : count < 30)
    (average_le : average ≤ limit) {pindex : CBlockIndex} (within : Within pindex) :
    Agrees (past.read pindex) (count + 1)
      (if count = 0 then (setCompact pindex.nBits).1
        else (average * (count + 1) + (setCompact pindex.nBits).1) / (count + 2)) := by
  have target_le := within.2
  unfold limit at average_le target_le
  refine ⟨?_, ?_⟩
  · change past.countBlocks + 1 = _
    rw [agrees.count]
    rfl
  · change (if past.countBlocks = 0 then _ else _ : Uint256).toNat = _
    rw [agrees.count]
    by_cases first : count = 0
    · rw [if_pos first, if_pos (by omega), toNat_ofCompact]
    · have more : ((count : Int) + 1 + 1) = ((count + 2 : Nat) : Int) := by omega
      have factor : ((count : Int) + 1) = ((count + 1 : Nat) : Int) := by omega
      have product_le : average * (count + 1) ≤ (2 ^ 236 - 1) * 30 :=
        Nat.mul_le_mul average_le (by omega)
      rw [if_neg first, if_neg (by omega), more, factor, toNat_divWord _ (by omega),
        BitVec.toNat_add, toNat_mulWord, toNat_ofCompact, agrees.average,
        Nat.mod_eq_of_lt (show count + 1 < 2 ^ 32 by omega),
        Nat.mod_eq_of_lt (show average * (count + 1) < 2 ^ 256 by omega), Nat.mod_eq_of_lt]
      omega

theorem Agrees.foldl {past : PastBlocks} {count average : Nat} {blocks : List CBlockIndex}
    (agrees : Agrees past count average) (few : count + blocks.length ≤ 30)
    (average_le : average ≤ limit) (within : ∀ pindex ∈ blocks, Within pindex) :
    Agrees (blocks.foldl PastBlocks.read past) (count + blocks.length)
      (averageFrom count average (blocks.map fun pindex => (setCompact pindex.nBits).1)) := by
  induction blocks generalizing past count average with
  | nil => exact agrees
  | cons pindex rest ih =>
    have here := within pindex mem_cons_self
    rw [length_cons] at few
    have length_eq : count + (pindex :: rest).length = count + 1 + rest.length := by
      rw [length_cons]
      omega
    rw [foldl_cons, map_cons, averageFrom, length_eq]
    refine ih (agrees.read (by omega) average_le here) (by omega) ?_
      fun other member => within other (mem_cons_of_mem _ member)
    split
    · exact here.2
    · exact average_step_le average_le here.2

theorem averageFrom_bounds {least most : Nat} {targets : List Nat}
    (bounds : 0 < count → least ≤ average ∧ average ≤ most)
    (within : ∀ target ∈ targets, least ≤ target ∧ target ≤ most)
    (some_ : 0 < count + targets.length) :
    least ≤ averageFrom count average targets ∧ averageFrom count average targets ≤ most := by
  induction targets generalizing count average with
  | nil => exact bounds some_
  | cons target rest ih =>
    obtain ⟨le_target, target_le⟩ := within target mem_cons_self
    rw [averageFrom]
    refine ih (fun _ => ?_) (fun other member => within other (mem_cons_of_mem _ member))
      (by omega)
    split
    · exact ⟨le_target, target_le⟩
    · next later =>
        obtain ⟨le_average, average_le⟩ := bounds (by omega)
        exact ⟨le_average_step le_average le_target, average_step_le average_le target_le⟩

theorem foldl_nActualTimespan {past : PastBlocks} {time : Nat} (blocks : List CBlockIndex)
    (last : past.lastBlockTime = time) :
    (blocks.foldl PastBlocks.read past).nActualTimespan =
      past.nActualTimespan + timespan (time :: blocks.map CBlockIndex.nTime) := by
  induction blocks generalizing past time with
  | nil => exact (Int.add_zero _).symm
  | cons pindex rest ih =>
    have step : (past.read pindex).nActualTimespan =
        past.nActualTimespan + if 0 < time then (time : Int) - pindex.nTime else 0 := by
      change (if 0 < past.lastBlockTime then _ else _) = _
      rw [last]
      by_cases later : 0 < time
      · rw [if_pos (by omega), if_pos later]
      · rw [if_neg (by omega), if_neg later, Int.add_zero]
    rw [foldl_cons, @ih (past.read pindex) pindex.nTime rfl, step, map_cons, timespan]
    omega

/-! ## The three branches -/

/-- The entries from a block down to the first one. -/
def Rooted (chain : List CBlockIndex) : Prop :=
  chain.map CBlockIndex.nHeight = (List.range chain.length).reverse

instance (chain : List CBlockIndex) : Decidable (Rooted chain) :=
  inferInstanceAs (Decidable (_ = _))

/-- The value is told without a flag, and tells a target up to the limit. -/
def Decodes (nBits : Nat) : Prop :=
  ∃ target, setCompact nBits = (target, false, false) ∧ 0 < target ∧ target ≤ Retarget.limit

/-- The last thirty blocks. -/
def window (chain : List CBlockIndex) : List CBlockIndex := chain.take 30

theorem Rooted.nHeight_getElem {chain : List CBlockIndex} (rooted : Rooted chain) {depth : Nat}
    (inside : depth < chain.length) : chain[depth].nHeight = chain.length - 1 - depth := by
  have mapped : depth < (chain.map CBlockIndex.nHeight).length := by
    rw [length_map]
    exact inside
  have same : chain[depth].nHeight = (chain.map CBlockIndex.nHeight)[depth] := (getElem_map _).symm
  have heights : ∀ {heights : List Nat} (shown : depth < heights.length),
      heights = (List.range chain.length).reverse →
        heights[depth] = chain.length - 1 - depth := by
    rintro _ shown rfl
    rw [List.getElem_reverse, getElem_range, length_range]
  rw [same]
  exact heights _ rooted

variable {chain : List CBlockIndex}

theorem Rooted.blocks_eq (rooted : Rooted chain) (long : 30 < chain.length) :
    (chain.takeWhile fun pindex => decide (0 < pindex.nHeight)).take 30 = window chain := by
  have above : ∀ pindex ∈ window chain, decide (0 < pindex.nHeight) = true := by
    intro pindex member
    obtain ⟨depth, inside, rfl⟩ := mem_take_iff_getElem.mp member
    rw [decide_eq_true_eq, rooted.nHeight_getElem]
    omega
  have length_eq : (window chain).length = 30 := by
    rw [window, length_take]
    omega
  calc
    (chain.takeWhile fun pindex => decide (0 < pindex.nHeight)).take 30
      = ((window chain ++ chain.drop 30).takeWhile fun pindex =>
          decide (0 < pindex.nHeight)).take 30 := by rw [window, take_append_drop]
    _ = window chain := by
      rw [takeWhile_append_of_pos above, take_left' length_eq]

theorem past_agrees (long : 30 < chain.length) (within : ∀ pindex ∈ chain, Within pindex) :
    Agrees ((window chain).foldl PastBlocks.read {}) 30
        (runningAverage ((window chain).map fun pindex => (setCompact pindex.nBits).1)) ∧
      ((window chain).foldl PastBlocks.read {}).nActualTimespan =
        timespan ((window chain).map CBlockIndex.nTime) := by
  have length_eq : (window chain).length = 30 := by
    rw [window, length_take]
    omega
  have agrees := @Agrees.foldl {} 0 0 (window chain) ⟨rfl, rfl⟩ (by omega) (Nat.zero_le _)
    fun pindex member => within pindex (mem_of_mem_take member)
  rw [length_eq] at agrees
  refine ⟨agrees, ?_⟩
  rw [@foldl_nActualTimespan {} 0 _ rfl]
  have start : timespan (0 :: (window chain).map CBlockIndex.nTime) =
      timespan ((window chain).map CBlockIndex.nTime) := by
    cases (window chain).map CBlockIndex.nTime with
    | nil => rfl
    | cons time rest => exact Int.zero_add _
  rw [start]
  exact Int.zero_add _

theorem average_bounds (long : 30 < chain.length) (within : ∀ pindex ∈ chain, Within pindex) :
    1 ≤ runningAverage ((window chain).map fun pindex => (setCompact pindex.nBits).1) ∧
      runningAverage ((window chain).map fun pindex => (setCompact pindex.nBits).1) ≤
        limit := by
  refine averageFrom_bounds (fun started => absurd started (Nat.lt_irrefl 0)) ?_ ?_
  · intro target member
    obtain ⟨pindex, shown, rfl⟩ := mem_map.mp member
    exact within pindex (mem_of_mem_take shown)
  · rw [length_map, window, length_take]
    omega

theorem powTarget_toNat (rooted : Rooted chain) (long : 30 < chain.length)
    (within : ∀ pindex ∈ chain, Within pindex) :
    (mainWorkParams.powTarget chain).toNat =
      min (runningAverage ((window chain).map fun pindex => (setCompact pindex.nBits).1) *
        keptTimespan ((window chain).map CBlockIndex.nTime) / 27000) limit := by
  obtain ⟨agrees, spanned⟩ := past_agrees long within
  have average_le := (average_bounds long within).2
  have span_le := keptTimespan_le ((window chain).map CBlockIndex.nTime)
  have kept : (keptTimespan ((window chain).map CBlockIndex.nTime) : Int) =
      min (max (timespan ((window chain).map CBlockIndex.nTime)) 9000) 81000 := by
    unfold keptTimespan
    omega
  unfold WorkParams.powTarget
  rw [rooted.blocks_eq long]
  dsimp only
  rw [spanned, agrees.count]
  have counted : ((30 : Nat) : Int) * mainWorkParams.targetSpacing = 27000 := by decide
  have third : (27000 : Int).tdiv 3 = 9000 := by decide
  rw [counted, third]
  have clamped : (if 27000 * 3 < (if timespan ((window chain).map CBlockIndex.nTime) < 9000
        then 9000 else timespan ((window chain).map CBlockIndex.nTime)) then 27000 * 3
      else if timespan ((window chain).map CBlockIndex.nTime) < 9000 then 9000
        else timespan ((window chain).map CBlockIndex.nTime)) =
      (keptTimespan ((window chain).map CBlockIndex.nTime) : Int) := by
    rw [kept]
    split <;> split at * <;> omega
  rw [clamped]
  have quotient : ((((window chain).foldl PastBlocks.read {}).pastDifficultyAverage.mulWord
      (keptTimespan ((window chain).map CBlockIndex.nTime))).divWord (27000 : Nat)).toNat =
        runningAverage ((window chain).map fun pindex => (setCompact pindex.nBits).1) *
          keptTimespan ((window chain).map CBlockIndex.nTime) / 27000 := by
    unfold limit at average_le
    have product_le := Nat.mul_le_mul average_le span_le
    rw [toNat_divWord _ (by decide), toNat_mulWord, agrees.average,
      Nat.mod_eq_of_lt (Nat.lt_of_le_of_lt span_le (by decide)),
      Nat.mod_eq_of_lt (Nat.lt_of_le_of_lt product_le (by decide))]
  have limit_eq : mainWorkParams.proofOfWorkLimit.toNat = limit := by decide
  rw [← quotient]
  split
  · next high =>
      rw [lt_def, limit_eq] at high
      rw [limit_eq]
      exact (Nat.min_eq_right (Nat.le_of_lt high)).symm
  · next kept =>
      rw [lt_def, limit_eq] at kept
      exact (Nat.min_eq_left (Nat.le_of_not_lt kept)).symm

theorem decodes_getCompact {target : Uint256} (within : target.toNat ≤ limit) :
    Decodes target.getCompact ↔ 0 < target.toNat := by
  unfold Decodes
  rw [setCompact_getCompact]
  constructor
  · rintro ⟨_, same, positive, _⟩
    cases same
    exact Nat.lt_of_lt_of_le positive (compactTarget_le _)
  · intro positive
    exact ⟨_, rfl, compactTarget_pos positive, Nat.le_trans (compactTarget_le _) within⟩

/-- The required value is in range, except that a target of the proof of work may be zero. -/
theorem decodes_iff {chain : List CBlockIndex} (rooted : Rooted chain)
    (within : ∀ pindex ∈ chain, Within pindex) :
    (∃ nBits, mainWorkParams.getNextWorkRequired chain = some nBits ∧ Decodes nBits) ↔
      (30 < chain.length → chain.length ≤ 201 →
        27000 ≤ runningAverage ((window chain).map fun pindex => (setCompact pindex.nBits).1) *
          keptTimespan ((window chain).map CBlockIndex.nTime)) := by
  have told : ∀ {target : Uint256}, mainWorkParams.nextTarget chain = some target →
      ((∃ nBits, mainWorkParams.getNextWorkRequired chain = some nBits ∧ Decodes nBits) ↔
        0 < target.toNat) := by
    intro target next
    have limit_eq : mainWorkParams.proofOfWorkLimit.toNat = limit := by decide
    have target_le : target.toNat ≤ limit := by
      rw [← limit_eq]
      exact WorkParams.nextTarget_le next
    rw [WorkParams.getNextWorkRequired, next, Option.map_some, ← decodes_getCompact target_le]
    constructor
    · rintro ⟨_, same, decodes⟩
      cases same
      exact decodes
    · exact fun decodes => ⟨_, rfl, decodes⟩
  have easiest : 0 < mainWorkParams.proofOfWorkLimit.toNat := by decide
  have lastPow : mainWorkParams.lastPowBlock = 200 := rfl
  cases chain with
  | nil =>
    rw [told rfl]
    exact ⟨fun _ long => absurd long (by decide), fun _ => easiest⟩
  | cons pindexLast ancestors =>
    have height_eq : pindexLast.nHeight = ancestors.length :=
      @Rooted.nHeight_getElem _ rooted 0 (Nat.succ_pos _)
    have length_eq : (pindexLast :: ancestors).length = ancestors.length + 1 := rfl
    by_cases start : pindexLast.nHeight < 30
    · have next : mainWorkParams.nextTarget (pindexLast :: ancestors) =
          some mainWorkParams.proofOfWorkLimit := by rw [WorkParams.nextTarget, if_pos start]
      rw [told next]
      exact ⟨fun _ long => by omega, fun _ => easiest⟩
    by_cases staked : mainWorkParams.lastPowBlock < pindexLast.nHeight
    · cases ancestors with
      | nil =>
        rw [height_eq] at start
        exact absurd (show ([] : List CBlockIndex).length < 30 by decide) start
      | cons pprev rest =>
        have next : mainWorkParams.nextTarget (pindexLast :: pprev :: rest) =
            some (mainWorkParams.stakeTarget pindexLast pprev) := by
          rw [WorkParams.nextTarget, if_neg start, if_pos staked]
          rfl
        rw [told next, stakeTarget_toNat]
        refine ⟨fun _ _ short => ?_, fun _ => ?_⟩
        · rw [lastPow] at staked
          omega
        · exact next_pos _ _
    · have next : mainWorkParams.nextTarget (pindexLast :: ancestors) =
          some (mainWorkParams.powTarget (pindexLast :: ancestors)) := by
        rw [WorkParams.nextTarget, if_neg start, if_neg staked]
      have long : 30 < (pindexLast :: ancestors).length := by omega
      have short : (pindexLast :: ancestors).length ≤ 201 := by
        rw [lastPow] at staked
        omega
      rw [told next, powTarget_toNat rooted long within]
      unfold limit
      generalize runningAverage _ * keptTimespan _ = product
      omega

/-- Thirty-one blocks at one time, each with the smallest target. -/
def unitChain : List CBlockIndex :=
  (List.range 31).reverse.map fun nHeight =>
    { phashBlock := none, nHeight := nHeight, nBits := 0x01010000, nTime := 1500000000 }

theorem within_unitChain : ∀ pindex ∈ unitChain, Within pindex := by
  intro pindex member
  obtain ⟨_, _, rfl⟩ := mem_map.mp member
  exact ⟨show 0 < (setCompact 0x01010000).1 by decide,
    show (setCompact 0x01010000).1 ≤ limit by decide⟩

/-- A timespan of at least 27000 seconds is needed. -/
theorem decodes_unitChain_iff :
    (∃ nBits, mainWorkParams.getNextWorkRequired unitChain = some nBits ∧ Decodes nBits) ↔
      27000 ≤ keptTimespan ((window unitChain).map CBlockIndex.nTime) := by
  have average : runningAverage
      ((window unitChain).map fun pindex => (setCompact pindex.nBits).1) = 1 := by
    decide +kernel
  have needed := decodes_iff (show Rooted unitChain by decide +kernel) within_unitChain
  rw [average, Nat.one_mul] at needed
  exact needed.trans ⟨fun enough => enough (by decide) (by decide), fun enough _ _ => enough⟩

/-- The required value is zero. -/
theorem unitChain_freezes : Rooted unitChain ∧ (∀ pindex ∈ unitChain, Within pindex) ∧
    mainWorkParams.getNextWorkRequired unitChain = some 0 ∧ ¬ Decodes 0 := by
  refine ⟨by decide +kernel, within_unitChain, by decide +kernel, ?_⟩
  rintro ⟨_, same, positive, _⟩
  cases same
  exact absurd positive (by decide)

end TargetRange

end CentNode
