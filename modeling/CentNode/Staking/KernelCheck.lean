import CentNode.Chain.NextWork
import CentNode.Staking.ModifierAgreement

/-!
# The kernel check and the active chain

`CheckStakeKernelHash` of `kernel.cpp` hashes the stake modifier that
`GetKernelStakeModifier` finds on the active chain above the block of the
staked output, whatever branch the checked block is on.
-/

namespace CentNode

open Option BitVec List

/-- `stakeTargetHit`; the value is converted to an unsigned number. -/
def stakeTargetHit (hashProofOfStake : Uint256) (nValueIn : Int) (bnTargetPerCoinDay : Uint256) :
    Bool :=
  let bnCoinDayWeight : Uint256 := (BitVec.ofInt 64 nValueIn).setWidth 256 / 100
  decide (hashProofOfStake < bnCoinDayWeight * bnTargetPerCoinDay)

/-- What `CheckStakeKernelHash` returns and writes; `hashProofOfStake` is
`none` where it is left as it was. -/
structure KernelResult where
  ok : Bool
  hashProofOfStake : Option Uint256
  nTimeTx : Nat
  deriving DecidableEq, Repr

/-- A stake kernel: what `CheckStakeKernelHash` is called with. -/
structure StakeKernel where
  nBits : Nat
  blockFrom : CBlock
  txPrev : CTransaction
  prevout : COutPoint
  nTimeTx : Nat
  deriving DecidableEq, Repr

/-- `stakeHash`: the hash of the modifier, the time of the source block, the
outpoint and the time of the transaction. -/
abbrev StakeHash : Type := BitVec 64 → Nat → Nat → Uint256 → Nat → Uint256

namespace StakeKernel

/-- `stakeHash` of the kernel at a time. -/
def hashAt (kernel : StakeKernel) (stakeHash : StakeHash) (nStakeModifier : BitVec 64)
    (nTimeTx : Nat) : Uint256 :=
  stakeHash nStakeModifier kernel.blockFrom.nTime kernel.prevout.n kernel.prevout.hash nTimeTx

/-- The search of a wallet through the hash drift, the latest time first. -/
def search (kernel : StakeKernel) (hash : Nat → Uint256) (hits : Uint256 → Bool)
    (nHashDrift : Nat) : List Nat → Option Uint256 → KernelResult
  | [], written => ⟨false, written, kernel.nTimeTx⟩
  | i :: rest, _ =>
    let nTryTime := (kernel.nTimeTx + nHashDrift - i) % 2 ^ 32
    if hits (hash nTryTime) then ⟨true, some (hash nTryTime), nTryTime⟩
    else kernel.search hash hits nHashDrift rest (some (hash nTryTime))

end StakeKernel

/-- `CheckStakeKernelHash`; `none` where it reads an output that the previous
transaction does not have. -/
def checkStakeKernelHash (stakeHash : StakeHash) (mapBlockIndex : BlockMap)
    (vChain : List StakeIndex) (kernel : StakeKernel) (nHashDrift : Nat) (fCheck : Bool) :
    Option KernelResult :=
  kernel.txPrev.vout[kernel.prevout.n]?.map fun txout =>
    if kernel.nTimeTx < kernel.blockFrom.nTime then ⟨false, none, kernel.nTimeTx⟩
    else
      let bnTargetPerCoinDay : Uint256 := BitVec.ofNat 256 (setCompact kernel.nBits).1
      let hits := fun hash => stakeTargetHit hash txout.nValue bnTargetPerCoinDay
      match getKernelStakeModifier mapBlockIndex vChain kernel.blockFrom.hash with
      | none => ⟨false, none, kernel.nTimeTx⟩
      | some found =>
        let hash := kernel.hashAt stakeHash found.nStakeModifier
        if fCheck then ⟨hits (hash kernel.nTimeTx), some (hash kernel.nTimeTx), kernel.nTimeTx⟩
        else kernel.search hash hits nHashDrift (List.range nHashDrift) none

/-! ## The modifier above a block -/

/-- The first block of a chain above the given one that has a modifier of its
own and lies a selection interval later. -/
def modifierAbove (vChain : List StakeIndex) (pindexFrom : StakeIndex) : Option StakeIndex :=
  (vChain.drop (pindexFrom.nHeight + 1)).find? fun pindex =>
    pindex.fGeneratedStakeModifier &&
      decide ((pindexFrom.nTime : Int) + selectionInterval ≤ pindex.nTime)

theorem kernelLoop_nil (timeFrom : Nat) (pindex : StakeIndex) (height time : Nat) :
    kernelLoop timeFrom pindex height time [] =
      if (time : Int) < timeFrom + selectionInterval then none
      else some ⟨pindex.nStakeModifier, height, time⟩ := rfl

theorem kernelLoop_cons (timeFrom : Nat) (pindex : StakeIndex) (height time : Nat)
    (next : StakeIndex) (rest : List StakeIndex) :
    kernelLoop timeFrom pindex height time (next :: rest) =
      if (time : Int) < timeFrom + selectionInterval then
        if next.fGeneratedStakeModifier then kernelLoop timeFrom next next.nHeight next.nTime rest
        else kernelLoop timeFrom next height time rest
      else some ⟨pindex.nStakeModifier, height, time⟩ := rfl

theorem kernelLoop_of_late {timeFrom : Nat} {pindex : StakeIndex} {height time : Nat}
    (late : (timeFrom : Int) + selectionInterval ≤ time) (later : List StakeIndex) :
    kernelLoop timeFrom pindex height time later = some ⟨pindex.nStakeModifier, height, time⟩ := by
  cases later with
  | nil => rw [kernelLoop_nil, if_neg (by omega)]
  | cons next rest => rw [kernelLoop_cons, if_neg (by omega)]

theorem kernelLoop_eq {timeFrom : Nat} {later : List StakeIndex} {pindex : StakeIndex}
    {height time : Nat} (early : (time : Int) < timeFrom + selectionInterval) :
    (kernelLoop timeFrom pindex height time later).map KernelModifier.nStakeModifier =
      (later.find? fun next => next.fGeneratedStakeModifier &&
        decide ((timeFrom : Int) + selectionInterval ≤ next.nTime)).map
          StakeIndex.nStakeModifier := by
  induction later generalizing pindex height time with
  | nil =>
    rw [kernelLoop_nil, if_pos early]
    rfl
  | cons next rest ih =>
    rw [kernelLoop_cons, if_pos early]
    cases generated : next.fGeneratedStakeModifier with
    | false =>
      rw [find?_cons_of_neg (by simp [generated])]
      exact ih early
    | true =>
      by_cases late : (timeFrom : Int) + selectionInterval ≤ next.nTime
      · rw [find?_cons_of_pos (by simp [generated, late]), if_pos rfl,
          kernelLoop_of_late late]
        rfl
      · rw [find?_cons_of_neg (by simp [late]), if_pos rfl]
        exact ih (by omega)

variable {pindexFrom : StakeIndex}

theorem getKernelStakeModifier_eq {mapBlockIndex : BlockMap} {vChain : List StakeIndex}
    {hashBlockFrom : Uint256} (indexed : mapBlockIndex.find hashBlockFrom = some pindexFrom) :
    (getKernelStakeModifier mapBlockIndex vChain hashBlockFrom).map KernelModifier.nStakeModifier =
      (modifierAbove vChain pindexFrom).map StakeIndex.nStakeModifier := by
  have positive : 0 < selectionInterval := by decide +kernel
  rw [getKernelStakeModifier, indexed, bind_some]
  exact kernelLoop_eq (by omega)

/-! ## Two active chains -/

/-- The hash of the kernel on an active chain, where a modifier is found. -/
def StakeKernel.hashOn (kernel : StakeKernel) (stakeHash : StakeHash) (pindexFrom : StakeIndex)
    (vChain : List StakeIndex) : Option Uint256 :=
  (modifierAbove vChain pindexFrom).map fun pindex =>
    kernel.hashAt stakeHash pindex.nStakeModifier kernel.nTimeTx

theorem checkStakeKernelHash_eq {stakeHash : StakeHash} {mapBlockIndex : BlockMap}
    {vChain : List StakeIndex} {kernel : StakeKernel}
    (indexed : mapBlockIndex.find kernel.blockFrom.hash = some pindexFrom) {txout : CTxOut}
    (output : kernel.txPrev.vout[kernel.prevout.n]? = some txout)
    (timely : kernel.blockFrom.nTime ≤ kernel.nTimeTx) (nHashDrift : Nat) :
    checkStakeKernelHash stakeHash mapBlockIndex vChain kernel nHashDrift true =
      some ⟨(kernel.hashOn stakeHash pindexFrom vChain).any fun hash =>
          stakeTargetHit hash txout.nValue (BitVec.ofNat 256 (setCompact kernel.nBits).1),
        kernel.hashOn stakeHash pindexFrom vChain, kernel.nTimeTx⟩ := by
  have modifiers : Option.map KernelModifier.nStakeModifier
      (getKernelStakeModifier mapBlockIndex vChain kernel.blockFrom.hash) = _ :=
    getKernelStakeModifier_eq indexed
  rw [checkStakeKernelHash, output, map_some, if_neg (by omega), StakeKernel.hashOn]
  cases found : getKernelStakeModifier mapBlockIndex vChain kernel.blockFrom.hash with
  | none =>
    rw [found, map_none] at modifiers
    rw [map_eq_none_iff.mp modifiers.symm]
    rfl
  | some modifier =>
    rw [found, map_some] at modifiers
    obtain ⟨pindex, above, same⟩ := map_eq_some_iff.mp modifiers.symm
    simp only [above, map_some, same, if_true, any_some]

/-- Two modifiers that the kernel hash does not tell apart. -/
def StakeKernel.Collide (kernel : StakeKernel) (stakeHash : StakeHash)
    (nStakeModifier other : BitVec 64) : Prop :=
  nStakeModifier ≠ other ∧
    kernel.hashAt stakeHash nStakeModifier kernel.nTimeTx = kernel.hashAt stakeHash other kernel.nTimeTx

/-- Both chains have a late block with a modifier above the source block, and
the first such blocks have the same modifier, collisions of the hash apart; or
neither chain has one. -/
def StakeKernel.ModifiersMatch (kernel : StakeKernel) (stakeHash : StakeHash)
    (pindexFrom : StakeIndex) (first second : List StakeIndex) : Prop :=
  (modifierAbove first pindexFrom = none ∧ modifierAbove second pindexFrom = none) ∨
    ∃ pindex other, modifierAbove first pindexFrom = some pindex ∧
      modifierAbove second pindexFrom = some other ∧
        (pindex.nStakeModifier = other.nStakeModifier ∨
          kernel.Collide stakeHash pindex.nStakeModifier other.nStakeModifier)

theorem hashOn_eq_iff {stakeHash : StakeHash} {kernel : StakeKernel}
    {first second : List StakeIndex} :
    kernel.hashOn stakeHash pindexFrom first = kernel.hashOn stakeHash pindexFrom second ↔
      kernel.ModifiersMatch stakeHash pindexFrom first second := by
  unfold StakeKernel.hashOn StakeKernel.ModifiersMatch
  cases modifierAbove first pindexFrom with
  | none =>
    cases modifierAbove second pindexFrom with
    | none => simp
    | some other => simp
  | some pindex =>
    cases modifierAbove second pindexFrom with
    | none => simp
    | some other =>
      simp only [map_some, Option.some.injEq, reduceCtorEq, false_and, false_or,
        exists_and_left, exists_eq_left', StakeKernel.Collide]
      constructor
      · intro same
        by_cases modifiers : pindex.nStakeModifier = other.nStakeModifier
        · exact Or.inl modifiers
        · exact Or.inr ⟨modifiers, same⟩
      · rintro (modifiers | ⟨_, same⟩)
        · rw [modifiers]
        · exact same

/-- The check gives the same result and the same hash on two active chains
exactly if it fails on the time of the kernel, or the two chains give the
kernel the same modifier or none. -/
theorem checkStakeKernelHash_agree_iff (stakeHash : StakeHash) (mapBlockIndex : BlockMap)
    (kernel : StakeKernel) (nHashDrift : Nat) (pindexFrom : StakeIndex)
    (indexed : mapBlockIndex.find kernel.blockFrom.hash = some pindexFrom)
    (output : kernel.prevout.n < kernel.txPrev.vout.length) (first second : List StakeIndex) :
    checkStakeKernelHash stakeHash mapBlockIndex first kernel nHashDrift true =
        checkStakeKernelHash stakeHash mapBlockIndex second kernel nHashDrift true ↔
      kernel.nTimeTx < kernel.blockFrom.nTime ∨
        kernel.ModifiersMatch stakeHash pindexFrom first second := by
  have there : kernel.txPrev.vout[kernel.prevout.n]? = some kernel.txPrev.vout[kernel.prevout.n] :=
    List.getElem?_eq_getElem output
  by_cases early : kernel.nTimeTx < kernel.blockFrom.nTime
  · refine iff_of_true ?_ (Or.inl early)
    rw [checkStakeKernelHash, checkStakeKernelHash, there, map_some, map_some,
      if_pos early, if_pos early]
  · have timely : kernel.blockFrom.nTime ≤ kernel.nTimeTx := by omega
    rw [checkStakeKernelHash_eq indexed there timely, checkStakeKernelHash_eq indexed there timely,
      or_iff_right early, ← hashOn_eq_iff]
    constructor
    · exact fun same => congrArg KernelResult.hashProofOfStake (Option.some.inj same)
    · intro same
      rw [same]

namespace TwoForks

/-- Block 2 makes the staked output; blocks 3 and 4 follow it hours later, and
block 5 competes with block 3.  Blocks 6 and 7 compete on top of block 4. -/
def blocks : List CBlock :=
  [TwoNodes.header 1 0 0, TwoNodes.header 2 1 60, TwoNodes.header 3 2 9000,
    TwoNodes.header 4 3 18000, TwoNodes.header 5 2 150, TwoNodes.header 6 4 19000,
    TwoNodes.header 7 4 19500]

def index : BlockMap := TwoNodes.index 4096 blocks

def upTo (hash : Uint256) : List StakeIndex := (TwoNodes.held 4096 blocks hash).chain.reverse

def stakeHash : StakeHash := fun nStakeModifier _ _ _ _ => nStakeModifier.setWidth 256

/-- The kernel of a block that stakes the first output of transaction 9 in block 2. -/
def kernel : StakeKernel where
  nBits := 0x1e00ffff
  blockFrom := TwoNodes.header 2 1 60
  txPrev := { hash := 9, vin := [], vout := [⟨100 * coin, [1]⟩] }
  prevout := ⟨9, 0⟩
  nTimeTx := 20000

end TwoForks

/-- The modifier is found below the point where two active chains part. -/
theorem checkStakeKernelHash_agree_above :
    checkStakeKernelHash TwoForks.stakeHash TwoForks.index (TwoForks.upTo 6) TwoForks.kernel 0 true =
      checkStakeKernelHash TwoForks.stakeHash TwoForks.index (TwoForks.upTo 7) TwoForks.kernel 0
        true := by
  refine (checkStakeKernelHash_agree_iff TwoForks.stakeHash TwoForks.index TwoForks.kernel 0
    (TwoNodes.held 4096 TwoForks.blocks 2).entry (by decide +kernel) (by decide) _ _).mpr
      (Or.inr (Or.inr ⟨(TwoNodes.held 4096 TwoForks.blocks 4).entry,
        (TwoNodes.held 4096 TwoForks.blocks 4).entry, by decide +kernel, by decide +kernel,
        Or.inl rfl⟩))

/-- The chain through block 3 accepts the kernel; the chain through block 5,
which has the block of the staked output as well, refuses it. -/
theorem kernel_check_depends_on_fork :
    (TwoForks.upTo 4)[1]? = (TwoForks.upTo 5)[1]? ∧
      (TwoForks.upTo 4)[1]? = TwoForks.index.find TwoForks.kernel.blockFrom.hash ∧
      (checkStakeKernelHash TwoForks.stakeHash TwoForks.index (TwoForks.upTo 4) TwoForks.kernel 0
        true).map KernelResult.ok = some true ∧
      (checkStakeKernelHash TwoForks.stakeHash TwoForks.index (TwoForks.upTo 5) TwoForks.kernel 0
        true).map KernelResult.ok = some false := by
  decide +kernel

/-! The product of weight and target is reduced modulo `2 ^ 256`.  Where it does
not fit, some larger stake misses a hash that a smaller one hits. -/

/-- The weight of a value, as a number. -/
def stakeWeight (nValueIn : Int) : Nat := nValueIn.toNat / 100

variable {bnTargetPerCoinDay : Uint256}

theorem stakeTargetHit_iff {hashProofOfStake : Uint256} {nValueIn : Int} (nonneg : 0 ≤ nValueIn)
    (fits : nValueIn < 2 ^ 63) :
    stakeTargetHit hashProofOfStake nValueIn bnTargetPerCoinDay = true ↔
      hashProofOfStake.toNat < stakeWeight nValueIn * bnTargetPerCoinDay.toNat % 2 ^ 256 := by
  have value_eq : (BitVec.ofInt 64 nValueIn).toNat = nValueIn.toNat := by
    rw [toNat_ofInt]
    omega
  have weight_eq : ((BitVec.ofInt 64 nValueIn).setWidth 256 / 100 : Uint256).toNat =
      stakeWeight nValueIn := by
    rw [toNat_udiv, toNat_setWidth, value_eq,
      Nat.mod_eq_of_lt (by omega : nValueIn.toNat < 2 ^ 256)]
    rfl
  unfold stakeTargetHit
  rw [decide_eq_true_eq, lt_def, BitVec.toNat_mul, weight_eq]

theorem stakeWeight_mono {low high : Int} (ordered : low ≤ high) :
    stakeWeight low ≤ stakeWeight high := by
  unfold stakeWeight
  omega

theorem stakeTargetHit_exact_iff {nValueIn : Int} (nonneg : 0 ≤ nValueIn)
    (fits : nValueIn < 2 ^ 63) :
    (∀ hashProofOfStake, stakeTargetHit hashProofOfStake nValueIn bnTargetPerCoinDay = true ↔
      hashProofOfStake.toNat < stakeWeight nValueIn * bnTargetPerCoinDay.toNat) ↔
    stakeWeight nValueIn * bnTargetPerCoinDay.toNat < 2 ^ 256 := by
  constructor
  · intro exact
    by_contra large
    have hit := (exact (allOnes 256)).mpr (by rw [toNat_allOnes]; omega)
    rw [stakeTargetHit_iff nonneg fits, toNat_allOnes] at hit
    omega
  · intro small hashProofOfStake
    rw [stakeTargetHit_iff nonneg fits, Nat.mod_eq_of_lt small]

/-- A larger stake hits what a smaller one hits, up to some value, exactly if
the product of the weight of that value and the target fits. -/
theorem stakeTargetHit_mono_iff {nMaxValue : Int} (nonneg : 0 ≤ nMaxValue)
    (fits : nMaxValue < 2 ^ 63) :
    (∀ hashProofOfStake low high, 0 ≤ low → low ≤ high → high ≤ nMaxValue →
      stakeTargetHit hashProofOfStake low bnTargetPerCoinDay = true →
        stakeTargetHit hashProofOfStake high bnTargetPerCoinDay = true) ↔
    stakeWeight nMaxValue * bnTargetPerCoinDay.toNat < 2 ^ 256 := by
  constructor
  · intro mono
    by_contra large
    -- the first weight whose product does not fit
    have some_large : ∃ weight, 2 ^ 256 ≤ weight * bnTargetPerCoinDay.toNat :=
      ⟨stakeWeight nMaxValue, by omega⟩
    obtain ⟨weight, first⟩ : ∃ weight, Nat.find some_large = weight + 1 := by
      refine Nat.exists_eq_succ_of_ne_zero fun zero => ?_
      have wraps := Nat.find_spec some_large
      rw [zero] at wraps
      omega
    have wraps := Nat.find_spec some_large
    have below : ¬ 2 ^ 256 ≤ weight * bnTargetPerCoinDay.toNat := Nat.find_min some_large (by omega)
    have within : weight + 1 ≤ stakeWeight nMaxValue := by
      rw [← first]
      exact Nat.find_min' some_large (by omega)
    have target_lt := bnTargetPerCoinDay.isLt
    have value_le : 100 * ((weight : Int) + 1) ≤ nMaxValue := by
      unfold stakeWeight at within
      omega
    have low_eq : stakeWeight (100 * weight) = weight := by
      unfold stakeWeight
      omega
    have high_eq : stakeWeight (100 * (weight + 1)) = weight + 1 := by
      unfold stakeWeight
      omega
    -- the hash is the product of that weight, reduced
    have reduced : (weight + 1) * bnTargetPerCoinDay.toNat % 2 ^ 256 <
        weight * bnTargetPerCoinDay.toNat := by
      rw [first] at wraps
      rw [Nat.add_mul, Nat.one_mul] at wraps ⊢
      omega
    have hash_eq : (BitVec.ofNat 256 ((weight + 1) * bnTargetPerCoinDay.toNat)).toNat =
        (weight + 1) * bnTargetPerCoinDay.toNat % 2 ^ 256 := toNat_ofNat _ _
    have hit := mono (BitVec.ofNat 256 ((weight + 1) * bnTargetPerCoinDay.toNat)) (100 * weight)
      (100 * (weight + 1)) (by omega) (by omega) value_le
    rw [stakeTargetHit_iff (by omega) (by omega), stakeTargetHit_iff (by omega) (by omega), hash_eq,
      low_eq, high_eq, Nat.mod_eq_of_lt (Nat.not_le.mp below)] at hit
    exact Nat.lt_irrefl _ (hit reduced)
  · intro small hashProofOfStake low high lowNonneg ordered highLe hit
    have product_le : ∀ {value}, value ≤ nMaxValue →
        stakeWeight value * bnTargetPerCoinDay.toNat < 2 ^ 256 := fun valueLe =>
      lt_of_le_of_lt (Nat.mul_le_mul_right _ (stakeWeight_mono valueLe)) small
    rw [stakeTargetHit_iff (by omega) (by omega), Nat.mod_eq_of_lt (product_le (by omega))] at hit ⊢
    exact lt_of_lt_of_le hit (Nat.mul_le_mul_right _ (stakeWeight_mono ordered))

/-- Up to some amount, larger stakes keep what smaller ones hit, and the
comparison is with the exact product, exactly if the product of the weight of
that amount and the target fits. -/
theorem stakeTargetHit_fits_iff {bnTargetPerCoinDay : Uint256} {nMaxValue : Int}
    (nonneg : 0 ≤ nMaxValue) (inMoney : nMaxValue ≤ mainParams.maxMoneyOut) :
    ((∀ hashProofOfStake low high, 0 ≤ low → low ≤ high → high ≤ nMaxValue →
        stakeTargetHit hashProofOfStake low bnTargetPerCoinDay = true →
          stakeTargetHit hashProofOfStake high bnTargetPerCoinDay = true) ↔
      stakeWeight nMaxValue * bnTargetPerCoinDay.toNat < 2 ^ 256) ∧
    ((∀ hashProofOfStake nValueIn, 0 ≤ nValueIn → nValueIn ≤ nMaxValue →
        (stakeTargetHit hashProofOfStake nValueIn bnTargetPerCoinDay = true ↔
          hashProofOfStake.toNat < stakeWeight nValueIn * bnTargetPerCoinDay.toNat)) ↔
      stakeWeight nMaxValue * bnTargetPerCoinDay.toNat < 2 ^ 256) := by
  have fits : nMaxValue < 2 ^ 63 := lt_of_le_of_lt inMoney mainParams.maxMoneyOut_lt
  refine ⟨stakeTargetHit_mono_iff nonneg fits, fun exact => ?_, fun small => ?_⟩
  · exact (stakeTargetHit_exact_iff nonneg fits).mp fun hashProofOfStake =>
      exact hashProofOfStake nMaxValue nonneg (Int.le_refl _)
  · intro hashProofOfStake nValueIn valueNonneg valueLe
    refine (stakeTargetHit_exact_iff valueNonneg (by omega)).mpr ?_ hashProofOfStake
    exact lt_of_le_of_lt (Nat.mul_le_mul_right _ (stakeWeight_mono valueLe)) small

/-- At a target `2 ^ 26` times smaller than the limit every amount is weighed exactly. -/
theorem stakeTargetHit_fits_settled :
    (∀ hashProofOfStake low high, 0 ≤ low → low ≤ high → high ≤ mainParams.maxMoneyOut →
      stakeTargetHit hashProofOfStake low (Uint256.ofCompact 0x1b03ffff) = true →
        stakeTargetHit hashProofOfStake high (Uint256.ofCompact 0x1b03ffff) = true) ∧
    ∀ hashProofOfStake nValueIn, 0 ≤ nValueIn → nValueIn ≤ mainParams.maxMoneyOut →
      (stakeTargetHit hashProofOfStake nValueIn (Uint256.ofCompact 0x1b03ffff) = true ↔
        hashProofOfStake.toNat < stakeWeight nValueIn * (Uint256.ofCompact 0x1b03ffff).toNat) := by
  have fits : stakeWeight mainParams.maxMoneyOut * (Uint256.ofCompact 0x1b03ffff).toNat <
      2 ^ 256 := by decide
  have both := @stakeTargetHit_fits_iff (Uint256.ofCompact 0x1b03ffff) mainParams.maxMoneyOut
    (by decide) (Int.le_refl _)
  exact ⟨both.1.mpr fits, both.2.mpr fits⟩

/-- The first block with proof of stake and its parent, a target spacing apart. -/
def firstStakeChain : List CBlockIndex :=
  [{ phashBlock := some 2, nHeight := 201, nTime := 1782297477, nBits := 0x1e0fffff },
    { phashBlock := some 1, nHeight := 200, nTime := 1782296577, nBits := 0x1e0fffff }]

/-- At the first target a stake of 1.048577 coins hits a hash that a stake one
unit of weight larger misses. -/
theorem heavier_stake_misses :
    ¬ ∀ chain nBits, mainWorkParams.getNextWorkRequired chain = some nBits →
      ∀ hashProofOfStake low high, 0 ≤ low → low ≤ high → high ≤ mainParams.maxMoneyOut →
        stakeTargetHit hashProofOfStake low (Uint256.ofCompact nBits) = true →
          stakeTargetHit hashProofOfStake high (Uint256.ofCompact nBits) = true := by
  intro mono
  have required : mainWorkParams.getNextWorkRequired firstStakeChain = some 0x1e0fffff := by decide
  have misses := mono firstStakeChain 0x1e0fffff required (BitVec.ofNat 256 (0xffffe <<< 216))
    104857700 104857800 (by decide) (by decide) (by decide) (by decide)
  revert misses
  decide

end CentNode
