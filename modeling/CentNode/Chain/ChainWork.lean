import CentNode.Chain.CompactTargets
import CentNode.Chain.ReachableIndex

/-!
# The work of a chain

`GetBlockProof` divides by the target on the words of a `uint256`, and every
entry of the block index adds its own work to that of its parent.
-/

namespace CentNode

namespace BaseUint

/-- `GetBlockProof`; `none` where the division throws. -/
def getBlockProof (nBits : BitVec 32) : Option (BaseUint 8) :=
  let (bnTarget, fNegative, fOverflow) := setCompact nBits
  if fNegative || fOverflow || bnTarget.equalTo 0 then some zero
  else
    -- 2 ** 256 / (bnTarget + 1) is ~bnTarget / (bnTarget + 1) + 1
    (bnTarget.complement.divide (bnTarget.add (ofWord64 1))).map fun quotient =>
      quotient.add (ofWord64 1)

end BaseUint

/-- The form decodes, without either flag, to a positive target. -/
def ValidBits (nBits : BitVec 32) : Prop :=
  (BaseUint.setCompact nBits).2 = (false, false) ∧ 0 < (BaseUint.setCompact nBits).1.toNat

instance (nBits : BitVec 32) : Decidable (ValidBits nBits) := inferInstanceAs (Decidable (_ ∧ _))

/-! ## The work of one block -/

theorem compactValue_ne_max (nCompact : Nat) : compactValue nCompact + 1 ≠ 2 ^ 256 := by
  have small := mantissa_lt_two_pow nCompact
  unfold compactValue
  generalize nCompact &&& 0x007fffff = word at small
  generalize nCompact >>> 24 = nSize
  dsimp only
  split
  · next long =>
      by_cases three : nSize = 3
      · rw [three]
        omega
      · have bytes : word * 256 ^ (nSize - 3) = word * 256 ^ (nSize - 4) * 256 := by
          rw [Nat.mul_assoc, ← Nat.pow_succ]
          congr 2
          omega
        rw [bytes]
        omega
  · have bound := Nat.div_le_self word (256 ^ (3 - nSize))
    omega

/-- The quotient of `2 ^ 256` that does not fit the type, by one that does. -/
theorem two_pow_div {target : Nat} (fits : target + 1 ≤ 2 ^ 256) :
    (2 ^ 256 - 1 - target) / (target + 1) + 1 = 2 ^ 256 / (target + 1) := by
  have whole : 2 ^ 256 = 2 ^ 256 - 1 - target + (target + 1) := by omega
  rw [whole, Nat.add_div_right _ (Nat.succ_pos target)]
  congr 2
  omega

namespace BaseUint

theorem equalTo_zero_iff (a : BaseUint 8) : a.equalTo 0 = true ↔ a.toNat = 0 := a.equalTo_iff 0

theorem getBlockProof_of_valid {nBits : BitVec 32} (valid : ValidBits nBits) :
    ∃ proof, getBlockProof nBits = some proof ∧
      proof.toNat = 2 ^ 256 / ((setCompact nBits).1.toNat + 1) := by
  obtain ⟨flags, positive⟩ := valid
  have exact_ : (setCompact nBits).1.toNat = compactValue nBits.toNat :=
    (compact_exact.1 nBits).2 (by rw [flags])
  have below := (setCompact nBits).1.toNat_lt
  have room : (setCompact nBits).1.toNat + 1 < 2 ^ 256 := by
    have apart := compactValue_ne_max nBits.toNat
    rw [← exact_] at apart
    exact Nat.lt_of_le_of_ne below apart
  have one : (ofWord64 1 : BaseUint 8).toNat = 1 := toNat_ofWord64 1
  have divisor : ((setCompact nBits).1.add (ofWord64 1)).toNat =
      (setCompact nBits).1.toNat + 1 := by
    rw [toNat_add, one]
    exact Nat.mod_eq_of_lt room
  have dividend : (setCompact nBits).1.complement.toNat =
      2 ^ 256 - 1 - (setCompact nBits).1.toNat := by
    have whole := (setCompact nBits).1.toNat_complement
    omega
  have nonzeroDivisor : ((setCompact nBits).1.add (ofWord64 1)).toNat ≠ 0 := by
    rw [divisor]
    exact Nat.succ_ne_zero _
  obtain ⟨quotient, divided, value⟩ := (setCompact nBits).1.complement.divide_eq nonzeroDivisor
  have nonzero : ¬(setCompact nBits).1.equalTo 0 = true :=
    mt (equalTo_zero_iff _).mp (Nat.pos_iff_ne_zero.mp positive)
  refine ⟨quotient.add (ofWord64 1), ?_, ?_⟩
  · have accepted : ¬((setCompact nBits).2.1 || (setCompact nBits).2.2 ||
        (setCompact nBits).1.equalTo 0) = true := by
      rw [flags]
      exact nonzero
    have added := congrArg (Option.map fun quotient => quotient.add (ofWord64 1)) divided
    exact (if_neg accepted).trans added
  · have half : 2 ^ 256 / ((setCompact nBits).1.toNat + 1) < 2 ^ 256 :=
      Nat.div_lt_self (Nat.two_pow_pos _) (by omega)
    rw [toNat_add, one, value, divisor, dividend, two_pow_div (Nat.le_of_lt room)]
    exact Nat.mod_eq_of_lt half

theorem getBlockProof_of_not_valid {nBits : BitVec 32} (invalid : ¬ValidBits nBits) :
    getBlockProof nBits = some zero := by
  have refused : ((setCompact nBits).2.1 || (setCompact nBits).2.2 ||
      (setCompact nBits).1.equalTo 0) = true := by
    by_contra accepted
    rw [Bool.not_eq_true, Bool.or_eq_false_iff, Bool.or_eq_false_iff] at accepted
    obtain ⟨⟨nonnegative, fits⟩, nonzero⟩ := accepted
    refine invalid ⟨Prod.ext nonnegative fits, Nat.pos_of_ne_zero fun none_ => ?_⟩
    rw [(equalTo_zero_iff _).mpr none_] at nonzero
    cases nonzero
  exact if_pos refused

end BaseUint

open BaseUint

/-- The numbers that the block index adds up are those of the words. -/
theorem getBlockProof_eq (nBits : BitVec 32) :
    getBlockProof nBits.toNat =
      if ValidBits nBits then 2 ^ 256 / ((BaseUint.setCompact nBits).1.toNat + 1) else 0 := by
  obtain ⟨number, flags⟩ := setCompact_eq nBits
  have valid_iff : ValidBits nBits ↔
      (setCompact nBits.toNat).2 = (false, false) ∧ 0 < (setCompact nBits.toNat).1 := by
    rw [ValidBits, number, flags]
  have value : getBlockProof nBits.toNat =
      if (setCompact nBits.toNat).2.1 || (setCompact nBits.toNat).2.2 ||
        decide ((setCompact nBits.toNat).1 = 0) then 0
      else ((2 ^ 256 - 1 - (setCompact nBits.toNat).1) / ((setCompact nBits.toNat).1 + 1) + 1) %
        2 ^ 256 := rfl
  rw [value]
  by_cases valid : ValidBits nBits
  · obtain ⟨clear, positive⟩ := valid_iff.mp valid
    obtain ⟨proof, _, exact_⟩ := getBlockProof_of_valid valid
    have small := proof.toNat_lt
    have fits := (BaseUint.setCompact nBits).1.toNat_lt
    rw [if_pos valid, clear, ← number, two_pow_div fits, ← exact_]
    rw [← number] at positive
    simp only [Bool.false_or, Nat.ne_of_gt positive, decide_false, Bool.false_eq_true, if_false]
    exact Nat.mod_eq_of_lt small
  · rw [if_neg valid]
    apply if_pos
    by_contra accepted
    rw [Bool.not_eq_true, Bool.or_eq_false_iff, Bool.or_eq_false_iff, decide_eq_false_iff_not]
      at accepted
    obtain ⟨⟨nonnegative, inside⟩, nonzero⟩ := accepted
    exact valid (valid_iff.mpr ⟨Prod.ext nonnegative inside, Nat.pos_of_ne_zero nonzero⟩)

theorem getBlockProof_pos {nBits : BitVec 32} (valid : ValidBits nBits) :
    0 < getBlockProof nBits.toNat := by
  have fits := (BaseUint.setCompact nBits).1.toNat_lt
  rw [getBlockProof_eq, if_pos valid]
  exact Nat.div_pos fits (Nat.succ_pos _)

/-! ## The work of a chain -/

namespace BlockTree.Linked

variable {tree : BlockTree}

theorem path_parent (linked : tree.Linked) {pindex parent : BlockPtr} (known : tree.Known pindex)
    (edge : tree.pprev pindex = some parent) : tree.path pindex = pindex :: tree.path parent := by
  unfold path
  rw [Forest.climb, edge, linked.ranked.rank_parent known edge]

end BlockTree.Linked

namespace StoredIndex

variable {hashOf : CBlockHeader → Uint256} {state : StoredIndex}

/-- The work of the entries up to the root, added up without a bound. -/
def totalWork (state : StoredIndex) (pindex : BlockPtr) : Nat :=
  ((state.index.tree.path pindex).map fun entry =>
    getBlockProof (state.fields entry).nBits.toNat).sum

namespace Traced

theorem totalWork_root (pindex : BlockPtr) (root : state.index.tree.pprev pindex = none) :
    state.totalWork pindex = getBlockProof (state.fields pindex).nBits.toNat := by
  unfold totalWork
  rw [BlockTree.WellFormed.path_root pindex root]
  exact List.sum_singleton

theorem totalWork_parent (traced : state.Traced hashOf) {pindex parent : BlockPtr}
    (known : state.index.tree.Known pindex)
    (edge : state.index.tree.pprev pindex = some parent) :
    state.totalWork pindex =
      getBlockProof (state.fields pindex).nBits.toNat + state.totalWork parent := by
  unfold totalWork
  rw [traced.linked.path_parent known edge, List.map_cons, List.sum_cons]

/-- `nChainWork` is the total, modulo the size of the type. -/
theorem nChainWork_eq (traced : state.Traced hashOf) {pindex : BlockPtr}
    (known : state.index.tree.Known pindex) :
    state.index.tree.nChainWork pindex = state.totalWork pindex % 2 ^ 256 := by
  induction height : state.index.tree.nHeight pindex generalizing pindex with
  | zero =>
    cases edge : state.index.tree.pprev pindex with
    | none =>
      rw [traced.work known, edge, totalWork_root pindex edge]
      simp
    | some parent =>
      have grows := traced.linked.ranked.rank_parent known edge
      omega
  | succ height ih =>
    cases edge : state.index.tree.pprev pindex with
    | none =>
      have root := traced.linked.ranked.rank_root known edge
      omega
    | some parent =>
      have grows := traced.linked.ranked.rank_parent known edge
      have parentKnown := traced.linked.ranked.parent_known known edge
      rw [traced.work known, edge, traced.totalWork_parent known edge, Option.map_some,
        Option.getD_some, ih parentKnown (by omega), Nat.mod_add_mod, Nat.add_comm]

theorem totalWork_lt (traced : state.Traced hashOf) {pindex elder : BlockPtr}
    (known : state.index.tree.Known pindex) (above : state.index.tree.Below pindex elder)
    (valid : ∀ entry, state.index.tree.Below pindex entry → ValidBits (state.fields entry).nBits) :
    elder = pindex ∨ state.totalWork elder < state.totalWork pindex := by
  induction above with
  | refl => exact .inl rfl
  | @step node up elder edge above ih =>
    have parentKnown := traced.linked.ranked.parent_known known edge
    have adds := getBlockProof_pos (valid node (.refl node))
    have total := traced.totalWork_parent known edge
    right
    obtain rfl | less := ih parentKnown fun entry upper => valid entry (.step edge upper)
    · omega
    · omega

end Traced

/-- The work of one block is the quotient, and where the total of a chain stays
in the type, `nChainWork` is that total and grows from block to block. -/
theorem chain_work_exact :
    (∀ nBits, ValidBits nBits → ∃ proof, BaseUint.getBlockProof nBits = some proof ∧
      proof.toNat = 2 ^ 256 / ((BaseUint.setCompact nBits).1.toNat + 1) ∧ 1 ≤ proof.toNat) ∧
    (∀ nBits nBitsToo, ValidBits nBits → ValidBits nBitsToo →
      (BaseUint.setCompact nBits).1.toNat ≤ (BaseUint.setCompact nBitsToo).1.toNat →
      ∀ proof proofToo, BaseUint.getBlockProof nBits = some proof →
        BaseUint.getBlockProof nBitsToo = some proofToo → proofToo.toNat ≤ proof.toNat) ∧
    (∀ nBits, ¬ValidBits nBits → ∃ proof, BaseUint.getBlockProof nBits = some proof ∧
      proof.toNat = 0) ∧
    ∀ (hashOf : CBlockHeader → Uint256) (state : StoredIndex), Reachable hashOf state →
      ∀ pindex, state.index.tree.Known pindex →
        (∀ entry, state.index.tree.Below pindex entry → ValidBits (state.fields entry).nBits) →
        state.totalWork pindex < 2 ^ 256 →
        state.index.tree.nChainWork pindex = state.totalWork pindex ∧
        ∀ lower upper, state.index.tree.Below pindex upper → state.index.tree.Below upper lower →
          state.index.tree.nHeight lower < state.index.tree.nHeight upper →
            state.index.tree.nChainWork lower < state.index.tree.nChainWork upper := by
  refine ⟨fun nBits valid => ?_, fun nBits nBitsToo valid validToo less => ?_,
    fun nBits invalid => ⟨_, getBlockProof_of_not_valid invalid, toNat_zero⟩, ?_⟩
  · obtain ⟨proof, computed, value⟩ := getBlockProof_of_valid valid
    refine ⟨proof, computed, value, ?_⟩
    rw [value]
    exact Nat.div_pos (BaseUint.setCompact nBits).1.toNat_lt (Nat.succ_pos _)
  · intro proof proofToo computed computedToo
    obtain ⟨same, found, value⟩ := getBlockProof_of_valid valid
    obtain ⟨sameToo, foundToo, valueToo⟩ := getBlockProof_of_valid validToo
    cases computed.symm.trans found
    cases computedToo.symm.trans foundToo
    rw [value, valueToo]
    exact Nat.div_le_div_left (Nat.succ_le_succ less) (Nat.succ_pos _)
  · intro hashOf state reachable pindex known valid fits
    have traced := reachable.traced
    have ranked := traced.linked.ranked
    have total : ∀ {entry}, state.index.tree.Below pindex entry →
        state.index.tree.nChainWork entry = state.totalWork entry := by
      intro entry above
      have under : state.totalWork entry ≤ state.totalWork pindex := by
        obtain rfl | less := traced.totalWork_lt known above valid
        · exact Nat.le_refl _
        · exact Nat.le_of_lt less
      rw [traced.nChainWork_eq (ranked.known_of_below known above)]
      exact Nat.mod_eq_of_lt (Nat.lt_of_le_of_lt under fits)
    refine ⟨total (.refl pindex), fun lower upper above further falls => ?_⟩
    rw [total above, total (above.trans further)]
    obtain rfl | less := traced.totalWork_lt (ranked.known_of_below known above) further
      fun entry higher => valid entry (above.trans higher)
    · exact absurd falls (Nat.lt_irrefl _)
    · exact less

end StoredIndex

end CentNode
