import CentNode.Chain.BlockTree
import CentNode.Library.RoundDown
import CentNode.Masternode.Ranking
import Mathlib.Data.Nat.Bitwise

/-!
# The target of the next block

`GetNextWorkRequired` over the entries that the `pprev` links lead to, the last
block first.  The conversions of its numbers to `uint32_t`, which the product of
a `uint256` takes, are made as C++ makes them.
-/

namespace CentNode

/-- What `GetNextWorkRequired` asks of `Params()`. -/
structure WorkParams where
  proofOfWorkLimit : Uint256
  lastPowBlock : Int
  targetSpacing : Int
  deriving DecidableEq, Repr

/-- `CMainParams`. -/
def mainWorkParams : WorkParams where
  proofOfWorkLimit := 0x00000fffffffffffffffffffffffffffffffffffffffffffffffffffffffffff
  lastPowBlock := mainParams.lastPowBlock
  targetSpacing := 15 * 60

/-- A target as `SetCompact` reads it. -/
def Uint256.ofCompact (nCompact : Nat) : Uint256 := BitVec.ofNat 256 (setCompact nCompact).1

/-- The product with a number that is converted to a `uint32_t`. -/
def Uint256.mulWord (value : Uint256) (factor : Int) : Uint256 :=
  value * (BitVec.ofInt 32 factor).setWidth 256

/-- The quotient by a number that is converted to a `uint64_t`. -/
def Uint256.divWord (value : Uint256) (divisor : Int) : Uint256 :=
  value / (BitVec.ofInt 64 divisor).setWidth 256

/-- The variables of the loop over the last blocks of the proof of work. -/
structure PastBlocks where
  countBlocks : Int := 0
  pastDifficultyAverage : Uint256 := 0
  nActualTimespan : Int := 0
  lastBlockTime : Int := 0
  deriving DecidableEq, Repr

/-- One iteration. -/
def PastBlocks.read (past : PastBlocks) (blockReading : CBlockIndex) : PastBlocks where
  countBlocks := past.countBlocks + 1
  pastDifficultyAverage :=
    if past.countBlocks = 0 then Uint256.ofCompact blockReading.nBits
    else
      (past.pastDifficultyAverage.mulWord (past.countBlocks + 1) +
        Uint256.ofCompact blockReading.nBits).divWord (past.countBlocks + 1 + 1)
  nActualTimespan :=
    if 0 < past.lastBlockTime then past.nActualTimespan + (past.lastBlockTime - blockReading.nTime)
    else past.nActualTimespan
  lastBlockTime := blockReading.nTime

/-! ## Compact targets -/

/-- What `SetCompact` makes of a word and a size that are put together. -/
theorem setCompact_pack {nWord nSize : Nat} (small : nWord < 2 ^ 23) :
    (setCompact (nWord ||| nSize <<< 24)).1 =
      if nSize ≤ 3 then nWord >>> (8 * (3 - nSize))
      else (nWord <<< (8 * (nSize - 3))) % 2 ^ 256 := by
  have packed : nWord ||| nSize <<< 24 = nSize * 2 ^ 24 + nWord := by
    rw [Nat.or_comm, ← Nat.shiftLeft_add_eq_or_of_lt (lt_trans small (by decide)),
      Nat.shiftLeft_eq]
  have size_eq : (nSize * 2 ^ 24 + nWord) >>> 24 = nSize := by
    rw [Nat.shiftRight_eq_div_pow]
    omega
  have word_eq : (nSize * 2 ^ 24 + nWord) &&& 0x007fffff = nWord := by
    rw [show (0x007fffff : Nat) = 2 ^ 23 - 1 from rfl, Nat.and_two_pow_sub_one_eq_mod]
    omega
  rw [packed]
  unfold setCompact
  rw [size_eq, word_eq]
  dsimp only
  split
  · rfl
  · rfl

theorem shiftRight_lt_of_lt {word : Nat} (small : word < 2 ^ 24) : word >>> 8 < 2 ^ 23 := by
  rw [Nat.shiftRight_eq_div_pow]
  omega

theorem lt_of_testBit_eq_false {word : Nat} (small : word < 2 ^ 24)
    (free : ¬ word.testBit 23 = true) : word < 2 ^ 23 := by
  rw [Nat.testBit_eq_decide_div_mod_eq, decide_eq_true_eq] at free
  omega

theorem Uint256.lt_two_pow_bits (value : Uint256) : value.toNat < 2 ^ value.bits := by
  unfold bits
  split
  · next zero =>
      rw [zero]
      decide
  · exact Nat.lt_log2_self

namespace WorkParams

variable (params : WorkParams)

def powTarget (chain : List CBlockIndex) : Uint256 :=
  let past := ((chain.takeWhile fun pindex => 0 < pindex.nHeight).take 30).foldl PastBlocks.read {}
  let nTargetTimespan := past.countBlocks * params.targetSpacing
  let nActualTimespan :=
    if past.nActualTimespan < nTargetTimespan.tdiv 3 then nTargetTimespan.tdiv 3
    else past.nActualTimespan
  let nActualTimespan :=
    if nTargetTimespan * 3 < nActualTimespan then nTargetTimespan * 3 else nActualTimespan
  let bnNew := (past.pastDifficultyAverage.mulWord nActualTimespan).divWord nTargetTimespan
  if params.proofOfWorkLimit < bnNew then params.proofOfWorkLimit else bnNew

/-- The target of a block with proof of stake, after a block with its parent. -/
def stakeTarget (pindexLast pprev : CBlockIndex) : Uint256 :=
  let nTargetSpacing : Int := 15 * 60
  let nTargetTimespan : Int := 24 * 60 * 60
  let nActualSpacing : Int := (pindexLast.nTime : Int) - pprev.nTime
  let nActualSpacing := if nActualSpacing < 0 then 1 else nActualSpacing
  let nInterval := nTargetTimespan.tdiv nTargetSpacing
  let bnNew :=
    ((Uint256.ofCompact pindexLast.nBits).mulWord
      ((nInterval - 1) * nTargetSpacing + nActualSpacing + nActualSpacing)).divWord
        ((nInterval + 1) * nTargetSpacing)
  if bnNew = 0 ∨ params.proofOfWorkLimit < bnNew then params.proofOfWorkLimit else bnNew

/-- `GetNextWorkRequired` before the result is made compact; `none` where the
parent of a block with proof of stake is missing. -/
def nextTarget : List CBlockIndex → Option Uint256
  | [] => some params.proofOfWorkLimit
  | pindexLast :: ancestors =>
    if pindexLast.nHeight < 30 then some params.proofOfWorkLimit
    else if params.lastPowBlock < pindexLast.nHeight then
      ancestors.head?.map (params.stakeTarget pindexLast)
    else some (params.powTarget (pindexLast :: ancestors))

def getNextWorkRequired (chain : List CBlockIndex) : Option Nat :=
  (params.nextTarget chain).map Uint256.getCompact

variable {params}

theorem clipped_le {clips : Prop} [Decidable clips] {limit bnNew : Uint256}
    (within : ¬ clips → ¬ limit < bnNew) : (if clips then limit else bnNew) ≤ limit := by
  split
  · exact BitVec.le_refl _
  · next inside => exact BitVec.not_lt.mp (within inside)

theorem nextTarget_le {chain : List CBlockIndex} {target : Uint256}
    (next : params.nextTarget chain = some target) : target ≤ params.proofOfWorkLimit := by
  have self : params.proofOfWorkLimit ≤ params.proofOfWorkLimit := BitVec.le_refl _
  cases chain with
  | nil =>
    cases next
    exact self
  | cons pindexLast ancestors =>
    rw [nextTarget] at next
    split at next
    · cases next
      exact self
    · split at next
      · obtain ⟨pprev, _, rfl⟩ := Option.map_eq_some_iff.mp next
        exact clipped_le fun inside => (not_or.mp inside).2
      · cases next
        exact clipped_le id

end WorkParams

/-! `GetCompact` keeps between two and three bytes of a target; `SetCompact` gives the target
without the others back. -/

open RoundDown

/-- The bits below are not kept of a target of some length. -/
def compactPlace (length : Nat) : Nat := 8 * ((length + 1) / 8) - 16

theorem compactPlace_le (length : Nat) : compactPlace length ≤ length := by
  unfold compactPlace
  omega

/-- The target that is told by the compact form of another. -/
def compactTarget : Nat → Nat := roundDown compactPlace

theorem compactTarget_mono : Monotone compactTarget := roundDown_mono compactPlace_le

theorem compactTarget_le (target : Nat) : compactTarget target ≤ target := roundDown_le target

theorem compactTarget_pos {target : Nat} (positive : 0 < target) : 0 < compactTarget target :=
  roundDown_pos compactPlace_le positive

/-! ## The words of a compact form -/

/-- The leading bytes of a target of a number of bytes. -/
def mantissa (target nSize : Nat) : Nat :=
  if nSize ≤ 3 then target <<< (8 * (3 - nSize)) else target >>> (8 * (nSize - 3))

theorem mantissa_lt {target nSize room : Nat} (small : room ≤ 24) (fits : room ≤ 8 * nSize)
    (short : target < 2 ^ (8 * nSize - room)) : mantissa target nSize < 2 ^ (24 - room) := by
  unfold mantissa
  split
  · have whole : 24 - room = 8 * nSize - room + 8 * (3 - nSize) := by omega
    rw [Nat.shiftLeft_eq, whole, Nat.pow_add]
    exact Nat.mul_lt_mul_of_pos_right short (Nat.two_pow_pos _)
  · have whole : 8 * nSize - room = 24 - room + 8 * (nSize - 3) := by omega
    rw [Nat.shiftRight_eq_div_pow, Nat.div_lt_iff_lt_mul (Nat.two_pow_pos _), ← Nat.pow_add,
      ← whole]
    exact short

theorem le_mantissa {target nSize : Nat} (some_ : 0 < nSize)
    (long : 2 ^ (8 * nSize - 1) ≤ target) : 2 ^ 23 ≤ mantissa target nSize := by
  unfold mantissa
  split
  · have whole : 23 = 8 * nSize - 1 + 8 * (3 - nSize) := by omega
    rw [Nat.shiftLeft_eq, whole, Nat.pow_add]
    exact Nat.mul_le_mul_right _ long
  · have whole : 8 * nSize - 1 = 23 + 8 * (nSize - 3) := by omega
    rw [Nat.shiftRight_eq_div_pow, Nat.le_div_iff_mul_le (Nat.two_pow_pos _), ← Nat.pow_add,
      ← whole]
    exact long

theorem mantissa_succ (target nSize : Nat) :
    mantissa target nSize >>> 8 = mantissa target (nSize + 1) := by
  unfold mantissa
  split
  · split
    · have whole : 8 * (3 - nSize) = 8 * (3 - (nSize + 1)) + 8 := by omega
      rw [whole, Nat.shiftLeft_add, Nat.shiftLeft_shiftRight]
    · have three : nSize = 3 := by omega
      rw [three]
      rfl
  · rw [if_neg (by omega), ← Nat.shiftRight_add]
    congr 1
    omega

theorem testBit_23_iff {word : Nat} (small : word < 2 ^ 24) :
    word.testBit 23 = true ↔ 2 ^ 23 ≤ word := by
  rw [Nat.testBit_eq_decide_div_mod_eq, decide_eq_true_eq]
  omega

/-- A target is written with one byte more than its bits fill, so that the bit of the sign
is free. -/
theorem getCompact_eq {value : Uint256} (nonzero : value ≠ 0) :
    value.getCompact = mantissa value.toNat (value.bits / 8 + 1) |||
        (value.bits / 8 + 1) <<< 24 ∧
      mantissa value.toNat (value.bits / 8 + 1) < 2 ^ 23 := by
  have positive : value.toNat ≠ 0 := fun zero => nonzero (BitVec.eq_of_toNat_eq zero)
  have bits_eq : value.bits = value.toNat.log2 + 1 := by rw [Uint256.bits, if_neg nonzero]
  have below := value.lt_two_pow_bits
  have least : 2 ^ (value.bits - 1) ≤ value.toNat := by
    rw [bits_eq]
    exact Nat.log2_self_le positive
  have free : mantissa value.toNat (value.bits / 8 + 1) < 2 ^ 23 := by
    refine @mantissa_lt _ _ 1 (by decide) (by omega) (Nat.lt_of_lt_of_le below ?_)
    exact Nat.pow_le_pow_right (by decide) (by omega)
  refine ⟨?_, free⟩
  have word_eq : (if (value.bits + 7) / 8 ≤ 3 then value.toNat <<< (8 * (3 - (value.bits + 7) / 8))
      else value.toNat >>> (8 * ((value.bits + 7) / 8 - 3))) =
        mantissa value.toNat ((value.bits + 7) / 8) := rfl
  unfold Uint256.getCompact
  dsimp only
  rw [word_eq]
  by_cases full : value.bits % 8 = 0
  · -- the bit of the sign is in use
    have size_eq : (value.bits + 7) / 8 + 1 = value.bits / 8 + 1 := by omega
    have word_lt := @mantissa_lt value.toNat ((value.bits + 7) / 8) 0 (by decide) (by omega)
      (Nat.lt_of_lt_of_le below (Nat.pow_le_pow_right (by decide) (by omega)))
    have set : 2 ^ 23 ≤ mantissa value.toNat ((value.bits + 7) / 8) := by
      refine le_mantissa (by omega) ?_
      have length_eq : 8 * ((value.bits + 7) / 8) - 1 = value.bits - 1 := by omega
      rw [length_eq]
      exact least
    rw [if_pos ((testBit_23_iff word_lt).mpr set), mantissa_succ, size_eq]
  · have size_eq : (value.bits + 7) / 8 = value.bits / 8 + 1 := by omega
    rw [size_eq, if_neg]
    intro set
    exact Nat.not_le.mpr free ((testBit_23_iff (Nat.lt_trans free (by decide))).mp set)

/-! ## What is told by a compact form -/

theorem packed_eq {nWord nSize : Nat} (small : nWord < 2 ^ 23) :
    nWord ||| nSize <<< 24 = nSize * 2 ^ 24 + nWord := by
  rw [Nat.or_comm, ← Nat.shiftLeft_add_eq_or_of_lt (Nat.lt_trans small (by decide)),
    Nat.shiftLeft_eq]

/-- A word with its bit of the sign free is not negative, and too large only for its size. -/
theorem setCompact_pack_flags {nWord nSize : Nat} (small : nWord < 2 ^ 23) (sized : nSize ≤ 33)
    (fits : nSize = 33 → nWord < 2 ^ 16) :
    (setCompact (nWord ||| nSize <<< 24)).2 = (false, false) := by
  have size_eq : (nSize * 2 ^ 24 + nWord) >>> 24 = nSize := by
    rw [Nat.shiftRight_eq_div_pow]
    omega
  have word_eq : (nSize * 2 ^ 24 + nWord) &&& 0x007fffff = nWord := by
    rw [show (0x007fffff : Nat) = 2 ^ 23 - 1 from rfl, Nat.and_two_pow_sub_one_eq_mod]
    omega
  have sign : (nSize * 2 ^ 24 + nWord) &&& 0x00800000 = 0 := by
    rw [show (0x00800000 : Nat) = 2 ^ 23 from rfl, Nat.and_two_pow,
      Nat.testBit_eq_decide_div_mod_eq, decide_eq_false (by omega), Bool.toNat_false, Nat.zero_mul]
  rw [packed_eq small]
  unfold setCompact
  rw [size_eq, word_eq, sign]
  dsimp only
  have cut : (if nSize ≤ 3 then nWord >>> (8 * (3 - nSize)) else nWord) ≤ nWord := by
    split
    · exact Nat.shiftRight_le _ _
    · exact Nat.le_refl _
  generalize (if nSize ≤ 3 then nWord >>> (8 * (3 - nSize)) else nWord) = word at cut
  have apart : (decide (34 < nSize) || (decide (0xff < word) && decide (33 < nSize)) ||
      (decide (0xffff < word) && decide (32 < nSize))) = false := by
    simp only [Bool.or_eq_false_iff, Bool.and_eq_false_iff, decide_eq_false_iff_not]
    omega
  rw [apart, Bool.and_false, decide_eq_false (not_not.mpr rfl), Bool.and_false]

theorem setCompact_getCompact (value : Uint256) :
    setCompact value.getCompact = (compactTarget value.toNat, false, false) := by
  by_cases zero : value = 0
  · rw [zero]
    rfl
  obtain ⟨compact_eq, free⟩ := getCompact_eq zero
  have nonzero : value.toNat ≠ 0 := fun same => zero (BitVec.eq_of_toNat_eq same)
  have bits_eq : value.bits = value.toNat.log2 + 1 := by rw [Uint256.bits, if_neg zero]
  have short : value.bits ≤ 256 := by
    have log_lt := (Nat.log2_lt nonzero).mpr value.isLt
    omega
  have flags := @setCompact_pack_flags _ (value.bits / 8 + 1) free (by omega) fun full => by
    rw [full]
    exact @mantissa_lt _ _ 8 (by decide) (by decide) value.isLt
  refine Prod.ext ?_ (by rw [compact_eq, flags])
  rw [compact_eq, setCompact_pack free]
  dsimp only
  rw [compactTarget, roundDown, compactPlace, ← bits_eq, mantissa]
  by_cases few : value.bits / 8 + 1 ≤ 3
  · have nothing : 8 * (value.bits / 8) - 16 = 0 := by omega
    rw [if_pos few, if_pos few, Nat.shiftLeft_shiftRight, nothing, Nat.pow_zero, Nat.div_one,
      Nat.mul_one]
  · have place_eq : 8 * (value.bits / 8 + 1 - 3) = 8 * (value.bits / 8) - 16 := by omega
    rw [if_neg few, if_neg few, place_eq, Nat.shiftRight_eq_div_pow, Nat.shiftLeft_eq,
      Nat.mod_eq_of_lt]
    exact Nat.lt_of_le_of_lt (Nat.div_mul_le_self _ _) value.isLt

end CentNode
