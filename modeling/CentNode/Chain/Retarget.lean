import CentNode.Chain.NextWork
import Mathlib.Tactic.Ring

/-!
# How the target follows the spacing

The target of a block of the proof of stake is the last one times a factor that grows with
the spacing of the last two blocks.  The factor is reduced to 32 bits and the product to
256; a quotient of zero counts as the limit.
-/

namespace CentNode

namespace Retarget

/-- The limit of the main network. -/
def limit : Nat := 2 ^ 236 - 1

/-- The target after a target and a spacing that is not negative. -/
def next (old spacing : Nat) : Nat :=
  let quotient := old * ((85500 + 2 * spacing) % 2 ^ 32) % 2 ^ 256 / 87300
  if quotient = 0 ∨ limit < quotient then limit else quotient

/-- A negative spacing counts as one second. -/
def effective (spacing : Int) : Nat := if spacing < 0 then 1 else spacing.toNat

theorem next_le (old spacing : Nat) : next old spacing ≤ limit := by
  unfold next
  dsimp only
  split
  · exact Nat.le_refl _
  · next plain => exact Nat.le_of_not_lt (not_or.mp plain).2

theorem next_pos (old spacing : Nat) : 0 < next old spacing := by
  unfold next
  dsimp only
  split
  · decide
  · next plain => exact Nat.pos_of_ne_zero (not_or.mp plain).1

/-! ## Where nothing is reduced -/

/-- The factor and the product are what they are meant to be. -/
structure Plain (old spacing : Nat) : Prop where
  factor : 85500 + 2 * spacing < 2 ^ 32
  product : old * (85500 + 2 * spacing) < 2 ^ 256

variable {old spacing : Nat}

theorem next_of_plain (large : 2 ≤ old) (plain : Plain old spacing) :
    next old spacing = min (old * (85500 + 2 * spacing) / 87300) limit := by
  have some_ : 1 ≤ old * (85500 + 2 * spacing) / 87300 := by
    rw [Nat.le_div_iff_mul_le (by decide)]
    calc
      1 * 87300 ≤ 2 * (85500 + 2 * spacing) := by omega
      _ ≤ old * (85500 + 2 * spacing) := Nat.mul_le_mul_right _ large
  unfold next
  rw [Nat.mod_eq_of_lt plain.factor, Nat.mod_eq_of_lt plain.product]
  dsimp only
  split
  · next clipped =>
      rcases clipped with zero | high
      · omega
      · exact (Nat.min_eq_right (Nat.le_of_lt high)).symm
  · next kept => exact (Nat.min_eq_left (Nat.le_of_not_lt (not_or.mp kept).2)).symm

theorem Plain.mono {shorter : Nat} (plain : Plain old spacing) (le : shorter ≤ spacing) :
    Plain old shorter := by
  refine ⟨?_, Nat.lt_of_le_of_lt (Nat.mul_le_mul_left old ?_) plain.product⟩
  · have fits := plain.factor
    omega
  · omega

theorem next_of_zero (zero : old * ((85500 + 2 * spacing) % 2 ^ 32) % 2 ^ 256 < 87300) :
    next old spacing = limit := by
  unfold next
  dsimp only
  rw [Nat.div_eq_of_lt zero, if_pos (Or.inl rfl)]

/-- With what nothing wraps around before the spacing, or only to zero. -/
structure Bounded (old longest : Nat) : Prop where
  unit : old = 1 → longest < 900
  product : 2 ^ 224 ≤ old → old * (85500 + 2 * longest) ≤ 2 ^ 256
  factor : old < 2 ^ 224 → old * (85500 + 2 * longest - 2 ^ 32) < 87300

variable {longest : Nat}

theorem Bounded.plain_or_limit (bounded : Bounded old longest) (le : spacing ≤ longest) :
    Plain old spacing ∨ next old spacing = limit := by
  have factor_le : 85500 + 2 * spacing ≤ 85500 + 2 * longest := by omega
  rcases Nat.lt_or_ge old (2 ^ 224) with small | large
  · by_cases fits : 85500 + 2 * spacing < 2 ^ 32
    · refine .inl ⟨fits, ?_⟩
      calc
        old * (85500 + 2 * spacing) ≤ old * 2 ^ 32 := Nat.mul_le_mul_left _ (Nat.le_of_lt fits)
        _ < 2 ^ 224 * 2 ^ 32 := Nat.mul_lt_mul_of_pos_right small (by decide)
        _ = 2 ^ 256 := by decide
    · -- what is left of the factor gives a quotient of zero
      have rest := bounded.factor small
      refine .inr (next_of_zero (Nat.lt_of_le_of_lt (Nat.mod_le _ _) ?_))
      rcases Nat.eq_zero_or_pos old with rfl | positive
      · rw [Nat.zero_mul]
        decide
      have few : 85500 + 2 * longest - 2 ^ 32 < 87300 :=
        Nat.lt_of_le_of_lt (Nat.le_mul_of_pos_left _ positive) rest
      have reduced : (85500 + 2 * spacing) % 2 ^ 32 = 85500 + 2 * spacing - 2 ^ 32 := by omega
      rw [reduced]
      exact Nat.lt_of_le_of_lt (Nat.mul_le_mul_left _ (Nat.sub_le_sub_right factor_le _)) rest
  · have product := Nat.le_trans (Nat.mul_le_mul_left old factor_le) (bounded.product large)
    have fits : 85500 + 2 * spacing ≤ 2 ^ 32 := by
      have most : 2 ^ 224 * (85500 + 2 * spacing) ≤ 2 ^ 224 * 2 ^ 32 :=
        Nat.le_trans (Nat.mul_le_mul_right _ large) product
      exact Nat.le_of_mul_le_mul_left most (by decide)
    rcases Nat.lt_or_eq_of_le fits with less | full
    · rcases Nat.lt_or_eq_of_le product with inside | whole
      · exact .inl ⟨less, inside⟩
      · refine .inr (next_of_zero ?_)
        rw [Nat.mod_eq_of_lt less, whole, Nat.mod_self]
        decide
    · refine .inr (next_of_zero ?_)
      rw [full, Nat.mod_self, Nat.mul_zero]
      decide

theorem Bounded.next_le_next {shorter longer : Nat} (bounded : Bounded old longest)
    (positive : 0 < old) (le : shorter ≤ longer) (inside : longer ≤ longest) :
    next old shorter ≤ next old longer := by
  rcases Nat.lt_or_ge 1 old with large | one
  · rcases bounded.plain_or_limit inside with plain | reached
    · rw [next_of_plain large plain, next_of_plain large (plain.mono le)]
      have product_le : old * (85500 + 2 * shorter) ≤ old * (85500 + 2 * longer) :=
        Nat.mul_le_mul_left _ (by omega)
      have quotient_le := @Nat.div_le_div_right _ _ 87300 product_le
      omega
    · rw [reached]
      exact next_le old shorter
  · -- the quotient is zero for all these spacings
    have unit : old = 1 := by omega
    have short := bounded.unit unit
    have same : next old longer = limit := by
      refine next_of_zero ?_
      rw [unit]
      omega
    rw [same]
    exact next_le old shorter

/-! ## Where the order breaks -/

theorem compactTarget_limit : compactTarget limit = 2 ^ 236 - 2 ^ 216 := by decide +kernel

/-- A target at the limit before a small one. -/
structure Drop (old longest : Nat) : Prop where
  exists_ : ∃ shorter longer, shorter ≤ longer ∧ longer ≤ longest ∧ next old shorter = limit ∧
    next old longer < 2 ^ 236 - 2 ^ 216

theorem drop_of_unit (long : 900 ≤ longest) : Drop 1 longest :=
  ⟨0, 900, by decide, long, by decide +kernel, by decide +kernel⟩

theorem next_lt (least : 87300 ≤ old * ((85500 + 2 * spacing) % 2 ^ 32) % 2 ^ 256)
    (small : old * ((85500 + 2 * spacing) % 2 ^ 32) % 2 ^ 256 < 2 ^ 240) :
    next old spacing < 2 ^ 236 - 2 ^ 216 := by
  unfold next limit
  dsimp only
  generalize old * ((85500 + 2 * spacing) % 2 ^ 32) % 2 ^ 256 = product at least small
  rw [if_neg]
  · omega
  · omega

theorem exists_multiple {step bound : Nat} (positive : 0 < step) :
    ∃ count, bound < step * (count + 1) ∧ step * count ≤ bound := by
  refine ⟨bound / step, ?_, Nat.mul_div_le _ _⟩
  rw [Nat.mul_succ]
  have rest := Nat.mod_lt bound positive
  have whole := Nat.div_add_mod bound step
  omega

/-- The factor wraps around. -/
theorem drop_of_factor (small : old < 2 ^ 224)
    (wraps : 87300 ≤ old * (85500 + 2 * longest - 2 ^ 32)) : Drop old longest := by
  have positive : 0 < old := by
    rcases Nat.eq_zero_or_pos old with rfl | positive
    · rw [Nat.zero_mul] at wraps
      omega
    · exact positive
  obtain ⟨count, over_, under⟩ := @exists_multiple (2 * old) 87299 (by omega)
  have few : count ≤ 87299 := Nat.le_trans (Nat.le_mul_of_pos_left _ (by omega)) under
  -- the factor is `2 ^ 32`, and from there on an even number
  have longer_le : 2147440898 + (count + 1) ≤ longest := by
    by_contra short
    have factor_le : 85500 + 2 * longest - 2 ^ 32 ≤ 2 * count := by omega
    have product_le := Nat.mul_le_mul_left old factor_le
    have same : old * (2 * count) = 2 * old * count := by ring
    omega
  have reduced : (85500 + 2 * (2147440898 + (count + 1))) % 2 ^ 32 = 2 * (count + 1) := by omega
  have product_eq : old * (2 * (count + 1)) % 2 ^ 256 = 2 * old * (count + 1) := by
    have same : old * (2 * (count + 1)) = 2 * old * (count + 1) := by ring
    have next_ : 2 * old * (count + 1) = 2 * old * count + 2 * old := by ring
    rw [same, Nat.mod_eq_of_lt (by omega)]
  refine ⟨2147440898, _, Nat.le_add_right _ _, longer_le, ?_, next_lt ?_ ?_⟩
  · refine next_of_zero ?_
    have whole : (85500 + 2 * 2147440898) % 2 ^ 32 = 0 := by decide
    rw [whole, Nat.mul_zero]
    decide
  · rw [reduced, product_eq]
    exact over_
  · have next_ : 2 * old * (count + 1) = 2 * old * count + 2 * old := by ring
    rw [reduced, product_eq]
    omega

theorem next_of_high (high : 2 ^ 255 ≤ old * ((85500 + 2 * spacing) % 2 ^ 32) % 2 ^ 256) :
    next old spacing = limit := by
  unfold next limit
  dsimp only
  generalize old * ((85500 + 2 * spacing) % 2 ^ 32) % 2 ^ 256 = product at high
  rw [if_pos (by omega)]

/-- The product wraps around. -/
theorem drop_of_product (within : old ≤ limit) (large : 2 ^ 224 ≤ old) (coarse : 2 ^ 208 ∣ old)
    (wraps : 2 ^ 256 < old * (85500 + 2 * longest)) : Drop old longest := by
  unfold limit at within
  obtain ⟨part, rfl⟩ := coarse
  have part_lt : part < 2 ^ 28 := by omega
  have le_part : 2 ^ 16 ≤ part := by omega
  obtain ⟨count, over_, under⟩ := @exists_multiple (2 * part) (2 ^ 48) (by omega)
  have next_ : 2 * part * (count + 1) = 2 * part * count + 2 * part := by ring
  have many : 42750 ≤ count := by
    by_contra few
    have product_le : 2 * part * (count + 1) ≤ 2 * part * 42750 := Nat.mul_le_mul_left _ (by omega)
    omega
  have longer_le : count + 1 - 42750 ≤ longest := by
    by_contra short
    have factor_le : 85500 + 2 * longest ≤ 2 * count := by omega
    have product_le := Nat.mul_le_mul_left (2 ^ 208 * part) factor_le
    have same : 2 ^ 208 * part * (2 * count) = 2 ^ 208 * (2 * part * count) := by ring
    omega
  have most : count ≤ 2 ^ 31 := by
    by_contra more
    have product_le : 2 * 2 ^ 16 * (2 ^ 31 + 1) ≤ 2 * part * count :=
      Nat.mul_le_mul (by omega) (by omega)
    omega
  refine ⟨count - 42750, count + 1 - 42750, Nat.sub_le_sub_right (Nat.le_succ count) _,
    longer_le, ?_, ?_⟩
  · -- before the product wraps around
    have factor_eq : 85500 + 2 * (count - 42750) = 2 * count := by omega
    have same : 2 ^ 208 * part * (2 * count) = 2 ^ 208 * (2 * part * count) := by ring
    rcases Nat.lt_or_eq_of_le most with less | full
    · have reduced : 2 * count % 2 ^ 32 = 2 * count := by omega
      rcases Nat.lt_or_eq_of_le under with inside | whole
      · refine next_of_high ?_
        rw [factor_eq, reduced, same, Nat.mod_eq_of_lt (by omega)]
        omega
      · refine next_of_zero ?_
        rw [factor_eq, reduced, same, whole]
        decide
    · refine next_of_zero ?_
      rw [factor_eq, full]
      have whole : 2 * 2 ^ 31 % 2 ^ 32 = 0 := by decide
      rw [whole, Nat.mul_zero]
      decide
  · have factor_eq : 85500 + 2 * (count + 1 - 42750) = 2 * (count + 1) := by omega
    have same : 2 ^ 208 * part * (2 * (count + 1)) = 2 ^ 208 * (2 * part * (count + 1)) := by ring
    have product_eq : 2 ^ 208 * part * (2 * (count + 1) % 2 ^ 32) % 2 ^ 256 =
        2 ^ 208 * (2 * part * (count + 1)) - 2 ^ 256 := by
      rcases Nat.lt_or_ge (count + 1) (2 ^ 31) with less | full
      · have reduced : 2 * (count + 1) % 2 ^ 32 = 2 * (count + 1) := by omega
        rw [reduced, same]
        omega
      · -- the factor wraps around as well, for a single target
        have least : part = 2 ^ 16 := by
          by_contra other
          have product_le : 2 * (2 ^ 16 + 1) * (2 ^ 31 - 1) ≤ 2 * part * count :=
            Nat.mul_le_mul (by omega) (by omega)
          omega
        have counted : count = 2 ^ 31 := by
          rw [least] at over_
          omega
        rw [least, counted]
        decide
    refine next_lt ?_ ?_
    · rw [factor_eq, product_eq]
      omega
    · rw [factor_eq, product_eq]
      omega

/-! ## The targets of the program -/

theorem setCompact_lt (nCompact : Nat) : (setCompact nCompact).1 < 2 ^ 256 := by
  unfold setCompact
  dsimp only
  split
  · have word_lt : nCompact &&& 0x007fffff < 2 ^ 256 :=
      Nat.lt_of_le_of_lt Nat.and_le_right (by decide)
    exact Nat.lt_of_le_of_lt (Nat.shiftRight_le _ _) word_lt
  · exact Nat.mod_lt _ (by decide)

theorem toNat_ofCompact (nCompact : Nat) :
    (Uint256.ofCompact nCompact).toNat = (setCompact nCompact).1 := by
  rw [Uint256.ofCompact, BitVec.toNat_ofNat, Nat.mod_eq_of_lt (setCompact_lt nCompact)]

theorem toNat_mulWord (value : Uint256) (factor : Nat) :
    (value.mulWord factor).toNat = value.toNat * (factor % 2 ^ 32) % 2 ^ 256 := by
  have word : (BitVec.ofInt 32 (factor : Int)).toNat = factor % 2 ^ 32 := by
    rw [BitVec.toNat_ofInt]
    omega
  rw [Uint256.mulWord, BitVec.toNat_mul, BitVec.toNat_setWidth, word,
    Nat.mod_eq_of_lt (Nat.lt_trans (Nat.mod_lt factor (by decide)) (by decide))]

theorem stakeTarget_toNat (pindexLast pprev : CBlockIndex) :
    (mainWorkParams.stakeTarget pindexLast pprev).toNat =
      next (setCompact pindexLast.nBits).1
        (effective ((pindexLast.nTime : Int) - pprev.nTime)) := by
  unfold WorkParams.stakeTarget
  generalize (pindexLast.nTime : Int) - pprev.nTime = spacing
  dsimp only
  have counted : (if spacing < 0 then 1 else spacing) = (effective spacing : Int) := by
    unfold effective
    split
    · rfl
    · next positive => exact (Int.toNat_of_nonneg (Int.not_lt.mp positive)).symm
  have factor_eq : ((24 * 60 * 60 : Int).tdiv (15 * 60) - 1) * (15 * 60) + (effective spacing : Int) +
      (effective spacing : Int) = ((85500 + 2 * effective spacing : Nat) : Int) := by
    have interval : (24 * 60 * 60 : Int).tdiv (15 * 60) = 96 := by decide
    rw [interval]
    omega
  have divisor : (((24 * 60 * 60 : Int).tdiv (15 * 60) + 1) * (15 * 60)) = 87300 := by decide
  rw [counted, factor_eq, divisor]
  have quotient : (((Uint256.ofCompact pindexLast.nBits).mulWord
      ((85500 + 2 * effective spacing : Nat) : Int)).divWord 87300).toNat =
        (setCompact pindexLast.nBits).1 * ((85500 + 2 * effective spacing) % 2 ^ 32) % 2 ^ 256 /
          87300 := by
    have word : ((BitVec.ofInt 64 87300).setWidth 256 : Uint256).toNat = 87300 := by decide
    rw [Uint256.divWord, BitVec.toNat_udiv, toNat_mulWord, toNat_ofCompact, word]
  have limit_eq : mainWorkParams.proofOfWorkLimit.toNat = limit := by decide
  generalize ((Uint256.ofCompact pindexLast.nBits).mulWord
    ((85500 + 2 * effective spacing : Nat) : Int)).divWord 87300 = bnNew at quotient
  unfold next
  rw [← quotient, ← limit_eq]
  dsimp only
  have clips : (bnNew = 0 ∨ mainWorkParams.proofOfWorkLimit < bnNew) ↔
      (bnNew.toNat = 0 ∨ mainWorkParams.proofOfWorkLimit.toNat < bnNew.toNat) := by
    rw [BitVec.lt_def, ← BitVec.toNat_inj]
    rfl
  by_cases clipped : bnNew = 0 ∨ mainWorkParams.proofOfWorkLimit < bnNew
  · rw [if_pos clipped, if_pos (clips.mp clipped)]
  · rw [if_neg clipped, if_neg fun other => clipped (clips.mpr other)]

/-- The last two blocks of a chain of the proof of stake, with the bits of the last one and
the spacing between them. -/
inductive StakeChain (nBits : Nat) (spacing : Int) : List CBlockIndex → Prop
  | last (pindexLast pprev : CBlockIndex) (ancestors : List CBlockIndex)
      (bits : pindexLast.nBits = nBits)
      (staked : mainWorkParams.lastPowBlock < pindexLast.nHeight)
      (time_lt : pindexLast.nTime < 2 ^ 32) (prevTime_lt : pprev.nTime < 2 ^ 32)
      (spaced : (pindexLast.nTime : Int) - pprev.nTime = spacing) :
      StakeChain nBits spacing (pindexLast :: pprev :: ancestors)

/-- The target that is told by the returned value. -/
def decoded (chain : List CBlockIndex) : Option Nat :=
  (mainWorkParams.getNextWorkRequired chain).map fun nBits => (setCompact nBits).1

theorem StakeChain.decoded_eq {nBits : Nat} {spacing : Int} {chain : List CBlockIndex}
    (staked : StakeChain nBits spacing chain) :
    decoded chain = some (compactTarget (next (setCompact nBits).1 (effective spacing))) := by
  obtain ⟨pindexLast, pprev, ancestors, rfl, staked, _, _, rfl⟩ := staked
  have high : ¬ pindexLast.nHeight < 30 := by
    have last : mainWorkParams.lastPowBlock = 200 := rfl
    omega
  have taken : mainWorkParams.nextTarget (pindexLast :: pprev :: ancestors) =
      some (mainWorkParams.stakeTarget pindexLast pprev) := by
    rw [WorkParams.nextTarget, if_neg high, if_pos staked]
    rfl
  rw [decoded, WorkParams.getNextWorkRequired, taken, Option.map_some, Option.map_some,
    setCompact_getCompact, stakeTarget_toNat]

theorem exists_stakeChain (nBits : Nat) {spacing : Int} (low : -2 ^ 32 < spacing)
    (high : spacing < 2 ^ 32) : ∃ chain, StakeChain nBits spacing chain := by
  refine ⟨_, .last { phashBlock := none, nHeight := 201, nBits := nBits, nTime := spacing.toNat }
    { phashBlock := none, nHeight := 200, nTime := (-spacing).toNat } [] rfl
    (show (200 : Int) < 201 by decide) ?_ ?_ ?_⟩
  · dsimp only
    omega
  · dsimp only
    omega
  · dsimp only
    omega

/-- For a window of spacings around zero, the order of the targets is that of the spacings. -/
def Ordered (nBits : Nat) (back longest : Nat) : Prop :=
  ∀ shorter longer : Int, -(back : Int) ≤ shorter → shorter ≤ longer → longer ≤ longest →
    ∀ chain later, StakeChain nBits shorter chain → StakeChain nBits longer later →
      ∃ target other, decoded chain = some target ∧ decoded later = some other ∧ target ≤ other

theorem ordered_iff_targets {nBits back : Nat} (back_lt : back < 2 ^ 32)
    (longest_lt : longest < 2 ^ 32) :
    Ordered nBits back longest ↔ ∀ shorter longer : Int, -(back : Int) ≤ shorter →
      shorter ≤ longer → longer ≤ longest →
        compactTarget (next (setCompact nBits).1 (effective shorter)) ≤
          compactTarget (next (setCompact nBits).1 (effective longer)) := by
  constructor
  · intro ordered shorter longer low le high
    obtain ⟨chain, staked⟩ := @exists_stakeChain nBits shorter (by omega) (by omega)
    obtain ⟨later, stakedToo⟩ := @exists_stakeChain nBits longer (by omega) (by omega)
    obtain ⟨target, other, target_eq, other_eq, targets⟩ :=
      ordered shorter longer low le high chain later staked stakedToo
    rw [staked.decoded_eq] at target_eq
    rw [stakedToo.decoded_eq] at other_eq
    cases target_eq
    cases other_eq
    exact targets
  · intro targets shorter longer low le high chain later staked stakedToo
    exact ⟨_, _, staked.decoded_eq, stakedToo.decoded_eq, targets shorter longer low le high⟩

theorem coarse_of_large {nCompact : Nat} (large : 2 ^ 224 ≤ (setCompact nCompact).1) :
    2 ^ 208 ∣ (setCompact nCompact).1 := by
  have word_lt : nCompact &&& 0x007fffff < 2 ^ 23 := Nat.lt_of_le_of_lt Nat.and_le_right (by decide)
  unfold setCompact at large ⊢
  dsimp only at large ⊢
  generalize nCompact &&& 0x007fffff = word at word_lt large
  generalize nCompact >>> 24 = nSize at large
  by_cases short : nSize ≤ 3
  · rw [if_pos short, if_pos short] at large
    have cut := Nat.shiftRight_le word (8 * (3 - nSize))
    omega
  · rw [if_neg short, if_neg short, Nat.shiftLeft_eq] at large
    rw [if_neg short, if_neg short, Nat.shiftLeft_eq]
    rcases Nat.lt_or_ge (8 * (nSize - 3)) 208 with low | high
    · -- the word is too small for so few bytes
      have product_lt : word * 2 ^ (8 * (nSize - 3)) < 2 ^ 23 * 2 ^ 201 :=
        Nat.mul_lt_mul_of_lt_of_le word_lt (Nat.pow_le_pow_right (by decide) (by omega))
          (Nat.two_pow_pos _)
      have reduced := Nat.mod_le (word * 2 ^ (8 * (nSize - 3))) (2 ^ 256)
      omega
    · have divides : 2 ^ 208 ∣ word * 2 ^ (8 * (nSize - 3)) :=
        Nat.dvd_mul_left_of_dvd (Nat.pow_dvd_pow 2 high) word
      exact (Nat.dvd_mod_iff (Nat.pow_dvd_pow 2 (by decide))).mpr divides

theorem bounded_or_drop (within : old ≤ limit) (coarse : 2 ^ 224 ≤ old → 2 ^ 208 ∣ old) :
    Bounded old longest ∨ Drop old longest := by
  by_cases unit : old = 1 ∧ 900 ≤ longest
  · rw [unit.1]
    exact .inr (drop_of_unit unit.2)
  by_cases product : 2 ^ 224 ≤ old ∧ 2 ^ 256 < old * (85500 + 2 * longest)
  · exact .inr (drop_of_product within product.1 (coarse product.1) product.2)
  by_cases factor : old < 2 ^ 224 ∧ 87300 ≤ old * (85500 + 2 * longest - 2 ^ 32)
  · exact .inr (drop_of_factor factor.1 factor.2)
  exact .inl
    { unit := fun one => Nat.lt_of_not_le fun long => unit ⟨one, long⟩
      product := fun large => Nat.le_of_not_lt fun wraps => product ⟨large, wraps⟩
      factor := fun small => Nat.lt_of_not_le fun wraps => factor ⟨small, wraps⟩ }

theorem effective_natCast (spacing : Nat) : effective spacing = spacing := by
  rw [effective, if_neg (by omega), Int.toNat_natCast]

theorem next_at_start (positive : 0 < old) (within : old ≤ limit) (start : spacing ≤ 1) :
    compactTarget (next old spacing) = compactTarget (old * (85500 + 2 * spacing) / 87300) ∨
      old = 1 ∧ next old spacing = limit := by
  unfold limit at within
  rcases Nat.lt_or_ge 1 old with large | one
  · have product_lt : old * (85500 + 2 * spacing) < 2 ^ 236 * 2 ^ 20 :=
      Nat.mul_lt_mul_of_lt_of_le (by omega) (by omega) (by omega)
    have plain : Plain old spacing := ⟨by omega, product_lt⟩
    have quotient_le : old * (85500 + 2 * spacing) / 87300 ≤ old := by
      refine Nat.div_le_of_le_mul ?_
      rw [Nat.mul_comm]
      exact Nat.mul_le_mul_right _ (by omega)
    rw [next_of_plain large plain, Nat.min_eq_left]
    · exact .inl rfl
    · unfold limit
      omega
  · have unit : old = 1 := Nat.le_antisymm one positive
    refine .inr ⟨unit, next_of_zero ?_⟩
    rw [unit]
    omega

/-- The targets keep the order of the spacings in a window exactly if no reduction shows in
it, and if counting a negative spacing as one second makes no difference. -/
theorem ordered_iff {nBits back longest : Nat} (positive : 0 < (setCompact nBits).1)
    (within : (setCompact nBits).1 ≤ limit) (back_lt : back < 2 ^ 32)
    (longest_lt : longest < 2 ^ 32) :
    Ordered nBits back longest ↔ Bounded (setCompact nBits).1 longest ∧
      (back = 0 ∨ compactTarget ((setCompact nBits).1 * 85502 / 87300) =
        compactTarget ((setCompact nBits).1 * 85500 / 87300)) := by
  have coarse := @coarse_of_large nBits
  rw [ordered_iff_targets back_lt longest_lt]
  generalize (setCompact nBits).1 = old at positive within coarse
  have start : ∀ spacing ≤ 1, compactTarget (next old spacing) =
      compactTarget (old * (85500 + 2 * spacing) / 87300) ∨ old = 1 ∧ next old spacing = limit :=
    fun spacing le => next_at_start positive within le
  constructor
  · intro ordered
    have bounded : Bounded old longest := by
      refine (bounded_or_drop within coarse).resolve_right fun drop => ?_
      obtain ⟨shorter, longer, le, inside, high, low⟩ := drop.exists_
      have targets := ordered shorter longer (by omega) (by omega) (by omega)
      rw [effective_natCast, effective_natCast, high, compactTarget_limit] at targets
      have cut := compactTarget_le (next old longer)
      omega
    refine ⟨bounded, ?_⟩
    rcases Nat.eq_zero_or_pos back with none_ | negative
    · exact .inl none_
    · have targets := ordered (-1) 0 (by omega) (by decide) (by omega)
      have one : effective (-1) = 1 := rfl
      have zero : effective 0 = 0 := rfl
      rw [one, zero] at targets
      right
      rcases start 1 (by decide) with atOne | ⟨unit, _⟩
      · rcases start 0 (by decide) with atZero | ⟨unit, _⟩
        · rw [atOne, atZero] at targets
          refine Nat.le_antisymm targets (compactTarget_mono (Nat.div_le_div_right ?_))
          exact Nat.mul_le_mul_left _ (by decide)
        · rw [unit]
      · rw [unit]
  · rintro ⟨bounded, same⟩ shorter longer low le high
    -- the spacings are put in order unless a negative one comes before zero
    by_cases reversed : shorter < 0 ∧ longer = 0
    · obtain ⟨negative, rfl⟩ := reversed
      have one : effective shorter = 1 := if_pos negative
      have zero : effective 0 = 0 := rfl
      rw [one, zero]
      have sameTargets := same.resolve_left (by omega)
      rcases start 1 (by decide) with atOne | ⟨unit, reached⟩
      · rcases start 0 (by decide) with atZero | ⟨unit, reached⟩
        · rw [atOne, atZero, sameTargets]
        · rw [reached]
          exact compactTarget_mono (next_le _ _)
      · rcases start 0 (by decide) with atZero | ⟨_, reachedToo⟩
        · rw [reached, unit, next_of_zero (by decide)]
        · rw [reached, reachedToo]
    · refine compactTarget_mono ?_
      have order : effective shorter ≤ effective longer ∧ effective longer ≤ max longest 1 := by
        unfold effective
        split <;> split <;> omega
      by_cases negative : longer < 0
      · have one : effective shorter = 1 := if_pos (by omega)
        have oneToo : effective longer = 1 := if_pos negative
        rw [one, oneToo]
      · refine bounded.next_le_next positive order.1 ?_
        rw [effective, if_neg negative]
        omega

/-- The easiest target, up to a gap of five days and a half and one second longer. -/
theorem ordered_until_wrap : Ordered 0x1e0fffff 0 481538 ∧ ¬ Ordered 0x1e0fffff 0 481539 := by
  have target_eq : (setCompact 0x1e0fffff).1 = (2 ^ 20 - 1) * 2 ^ 216 := by decide
  constructor
  · refine (ordered_iff (by decide) (by decide) (by decide) (by decide)).mpr ⟨?_, .inl rfl⟩
    rw [target_eq]
    exact ⟨by decide, by decide, by decide⟩
  · intro ordered
    have bounded := ((ordered_iff (by decide) (by decide) (by decide) (by decide)).mp ordered).1
    rw [target_eq] at bounded
    exact absurd (bounded.product (by decide)) (by decide)

/-- After the easiest target, a gap that is one second longer makes the next block harder. -/
theorem longer_gap_harder : ∃ chain later target other,
    StakeChain 0x1e0fffff 481538 chain ∧ StakeChain 0x1e0fffff 481539 later ∧
      decoded chain = some target ∧ decoded later = some other ∧ other < target := by
  obtain ⟨chain, staked⟩ := @exists_stakeChain 0x1e0fffff 481538 (by decide) (by decide)
  obtain ⟨later, stakedToo⟩ := @exists_stakeChain 0x1e0fffff 481539 (by decide) (by decide)
  exact ⟨chain, later, _, _, staked, stakedToo, staked.decoded_eq, stakedToo.decoded_eq,
    by decide +kernel⟩

end Retarget

end CentNode
