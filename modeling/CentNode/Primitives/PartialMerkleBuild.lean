import Mathlib.Tactic.IntervalCases
import CentNode.Primitives.PartialMerkleTree

/-!
# A partial merkle tree from a block to its receiver

What `TraverseAndBuild` writes is the encoding of the tree pruned to the
matched transactions.  The bits come out of the serialization filled up to
whole bytes, and `ExtractMatches` reads the pruned tree from them.
-/

namespace CentNode

open List HashTree

variable (hash : Uint256 → Uint256 → Uint256)

namespace CPartialMerkleTree

/-! ## The pruned tree that is written -/

/-- The tree of a block pruned to the matched transactions below a node. -/
def prunedTo (nTransactions : Nat) (vTxid : List Uint256) (vMatch : List Bool) :
    Nat → Nat → PrunedTree Uint256
  | 0, pos =>
    .leaf (parentOfMatch nTransactions vMatch 0 pos) (calcHash hash nTransactions vTxid 0 pos)
  | height + 1, pos =>
    if parentOfMatch nTransactions vMatch (height + 1) pos then
      if pos * 2 + 1 < calcTreeWidth nTransactions height then
        .fork (prunedTo nTransactions vTxid vMatch height (pos * 2))
          (prunedTo nTransactions vTxid vMatch height (pos * 2 + 1))
      else .edge (prunedTo nTransactions vTxid vMatch height (pos * 2))
    else .pruned (calcHash hash nTransactions vTxid (height + 1) pos)

section Building

variable (nTransactions : Nat) (vTxid : List Uint256) (vMatch : List Bool)

variable (height pos : Nat)

theorem traverseAndBuild_eq (vBits : List Bool) (vHash : List Uint256) :
    traverseAndBuild hash nTransactions vTxid vMatch height pos (vBits, vHash) =
      (vBits ++ (prunedTo hash nTransactions vTxid vMatch height pos).flags,
        vHash ++ (prunedTo hash nTransactions vTxid vMatch height pos).hashes) := by
  induction height generalizing pos vBits vHash with
  | zero => rfl
  | succ height ih =>
    rw [traverseAndBuild, prunedTo]
    cases parent : parentOfMatch nTransactions vMatch (height + 1) pos with
    | false => simp [PrunedTree.flags, PrunedTree.hashes]
    | true =>
      rw [if_neg (by decide), if_pos rfl]
      dsimp only
      split_ifs with right
      · rw [ih, ih]
        simp [PrunedTree.flags, PrunedTree.hashes]
      · rw [ih]
        simp [PrunedTree.flags, PrunedTree.hashes]

theorem prunedTo_root :
    (prunedTo hash nTransactions vTxid vMatch height pos).root hash =
      calcHash hash nTransactions vTxid height pos := by
  induction height generalizing pos with
  | zero => rfl
  | succ height ih =>
    rw [prunedTo, calcHash]
    split_ifs with parent right
    · rw [PrunedTree.root, ih, ih]
    · rw [PrunedTree.root, ih]
    · rw [PrunedTree.root]
    · rw [PrunedTree.root]

theorem prunedTo_fits (small : nTransactions < 2 ^ 31) {height : Nat} (low : height ≤ 31)
    (pos : Nat) :
    (prunedTo hash nTransactions vTxid vMatch height pos).Fits nTransactions height pos := by
  induction height generalizing pos with
  | zero => exact .leaf _ _
  | succ height ih =>
    rw [prunedTo, calcTreeWidth_eq small (by omega), Nat.mul_comm pos 2]
    split_ifs with parent right
    · exact .fork right (ih (by omega) _) (ih (by omega) _)
    · exact .edge right (ih (by omega) _)
    · exact .pruned _

/-- The matched transactions below a node, in order. -/
def matchedBelow (height pos : Nat) : List Nat :=
  (List.range' (pos * 2 ^ height) (2 ^ height)).filter fun p =>
    p < nTransactions && vMatch.getD p false

theorem parentOfMatch_eq :
    parentOfMatch nTransactions vMatch height pos =
      !(matchedBelow nTransactions vMatch height pos).isEmpty := by
  have size : (pos + 1) * 2 ^ height - pos * 2 ^ height = 2 ^ height := by
    rw [Nat.add_mul, Nat.one_mul, Nat.add_sub_cancel_left]
  rw [parentOfMatch, matchedBelow, Nat.shiftLeft_eq, Nat.shiftLeft_eq, size, Bool.eq_iff_iff]
  simp [filter_eq_nil_iff, and_assoc]

theorem matchedBelow_split :
    matchedBelow nTransactions vMatch (height + 1) pos =
      matchedBelow nTransactions vMatch height (2 * pos) ++
        matchedBelow nTransactions vMatch height (2 * pos + 1) := by
  have start : pos * 2 ^ (height + 1) = 2 * pos * 2 ^ height := by ring
  have middle : (2 * pos + 1) * 2 ^ height = 2 * pos * 2 ^ height + 2 ^ height := by ring
  rw [matchedBelow, matchedBelow, matchedBelow, ← filter_append, start, middle,
    Nat.pow_succ, Nat.mul_two, range'_append_1]

theorem matchedBelow_outside {height pos : Nat}
    (outside : ¬ pos < HashTree.width nTransactions height) :
    matchedBelow nTransactions vMatch height pos = [] := by
  rw [lt_width_iff] at outside
  rw [matchedBelow, filter_eq_nil_iff]
  intro p mem
  rw [mem_range'_1] at mem
  simp
  omega

theorem prunedTo_kept (small : nTransactions < 2 ^ 31) {height : Nat} (low : height ≤ 31)
    (pos : Nat) (inside : pos < HashTree.width nTransactions height) :
    (prunedTo hash nTransactions vTxid vMatch height pos).kept =
      (matchedBelow nTransactions vMatch height pos).map fun p => vTxid.getD p 0 := by
  induction height generalizing pos with
  | zero =>
    rw [width_zero] at inside
    rw [prunedTo, parentOfMatch_eq, matchedBelow, pow_zero, Nat.mul_one, range'_one]
    cases matched : vMatch[pos]?.getD false <;> simp [matched, inside, PrunedTree.kept, calcHash]
  | succ height ih =>
    rw [prunedTo, calcTreeWidth_eq small (by omega), Nat.mul_comm pos 2]
    split_ifs with parent right
    · rw [PrunedTree.kept, ih (by omega) _ (by omega), ih (by omega) _ right,
        matchedBelow_split, map_append]
    · rw [width_succ] at inside
      rw [PrunedTree.kept, ih (by omega) _ (by omega), matchedBelow_split,
        matchedBelow_outside nTransactions vMatch right, append_nil]
    · have none : matchedBelow nTransactions vMatch (height + 1) pos = [] := by
        rw [parentOfMatch_eq] at parent
        simpa [List.isEmpty_iff] using parent
      rw [PrunedTree.kept, none, map_nil]

end Building

/-- The transaction ids that a mask selects. -/
def matchedIds (vTxid : List Uint256) (vMatch : List Bool) : List Uint256 :=
  ((vTxid.zip vMatch).filter fun entry => entry.2).map fun entry => entry.1

theorem matchedIds_eq {vTxid : List Uint256} {vMatch : List Bool}
    (same : vMatch.length = vTxid.length) {height : Nat} (high : vTxid.length ≤ 2 ^ height) :
    (matchedBelow vTxid.length vMatch height 0).map (fun p => vTxid.getD p 0) =
      matchedIds vTxid vMatch := by
  have entries : vTxid.zip vMatch = (List.range vTxid.length).map fun p =>
      (vTxid.getD p 0, vMatch.getD p false) := by
    apply ext_getElem (by simp [same])
    intro p inside _
    rw [length_zip, same, Nat.min_self] at inside
    simp [inside, same]
  have places : matchedBelow vTxid.length vMatch height 0 =
      (List.range vTxid.length).filter fun p => vMatch.getD p false := by
    obtain ⟨more, size⟩ := Nat.exists_eq_add_of_le high
    have tail : (range' (0 + 1 * vTxid.length) more).filter
        (fun p => p < vTxid.length && vMatch.getD p false) = [] := by
      rw [filter_eq_nil_iff]
      intro p mem
      rw [mem_range'_1] at mem
      simp
      omega
    rw [matchedBelow, Nat.zero_mul, size, ← range'_append, filter_append, tail,
      append_nil, ← range_eq_range']
    apply filter_congr
    intro p mem
    simp [mem_range.mp mem]
  rw [matchedIds, entries, places, filter_map, map_map]
  rfl

/-! ## Bits in bytes -/

/-- The bit at a place of a byte vector. -/
def bitAt (vBytes : List UInt8) (p : Nat) : Bool :=
  vBytes.getD (p / 8) 0 &&& 1 <<< UInt8.ofNat (p % 8) ≠ 0

theorem mask_toNat {place : Nat} (inside : place < 8) :
    ((1 : UInt8) <<< UInt8.ofNat place).toNat = 2 ^ place := by
  interval_cases place <;> rfl

theorem and_mask_ne_zero_iff (byte : UInt8) {place : Nat} (inside : place < 8) :
    byte &&& 1 <<< UInt8.ofNat place ≠ 0 ↔ byte.toNat.testBit place = true := by
  rw [Ne, ← UInt8.toNat_inj, UInt8.toNat_and, mask_toNat inside, Nat.and_two_pow]
  cases bit : byte.toNat.testBit place <;> simp

theorem bitAt_eq (vBytes : List UInt8) (p : Nat) :
    bitAt vBytes p = (vBytes.getD (p / 8) 0).toNat.testBit (p % 8) := by
  rw [bitAt, Bool.eq_iff_iff, decide_eq_true_eq]
  exact and_mask_ne_zero_iff _ (Nat.mod_lt _ (by decide))

theorem bitAt_set {vBytes : List UInt8} {k : Nat} (inside : k / 8 < vBytes.length) (bit : Bool)
    (p : Nat) :
    bitAt (vBytes.set (k / 8)
        (vBytes.getD (k / 8) 0 ||| (if bit then 1 else 0) <<< UInt8.ofNat (k % 8))) p =
      (bitAt vBytes p || (bit && decide (p = k))) := by
  rw [bitAt_eq, bitAt_eq]
  by_cases here : p / 8 = k / 8
  · have place : (decide (p = k)) = decide (k % 8 = p % 8) := by
      rw [decide_eq_decide]
      omega
    have set : (vBytes.set (k / 8) (vBytes.getD (k / 8) 0 |||
        (if bit then 1 else 0) <<< UInt8.ofNat (k % 8))).getD (k / 8) 0 =
        vBytes.getD (k / 8) 0 ||| (if bit then 1 else 0) <<< UInt8.ofNat (k % 8) := by
      rw [getD_eq_getElem?_getD, getElem?_set_self inside, Option.getD_some]
    rw [here, set, UInt8.toNat_or, Nat.testBit_or, place]
    congr 1
    cases bit with
    | false =>
      rw [if_neg (by decide), UInt8.zero_shiftLeft]
      simp
    | true =>
      rw [if_pos rfl, mask_toNat (Nat.mod_lt _ (by decide)), Nat.testBit_two_pow, Bool.true_and]
  · have other : p ≠ k := fun same => here (same ▸ rfl)
    rw [getD_eq_getElem?_getD, getElem?_set_ne (Ne.symm here),
      ← getD_eq_getElem?_getD]
    simp [other]

variable (vBits : List Bool)

/-- After `k` rounds of the packing loop the first `k` bits are in place. -/
theorem packBit_foldl {k : Nat} (inside : k ≤ vBits.length) :
    ∃ vBytes, (List.range k).foldl (packBit vBits)
        (List.replicate ((vBits.length + 7) / 8) 0) = vBytes ∧
      vBytes.length = (vBits.length + 7) / 8 ∧
      ∀ p, bitAt vBytes p = (decide (p < k) && vBits.getD p false) := by
  induction k with
  | zero =>
    refine ⟨_, rfl, length_replicate, fun p => ?_⟩
    rw [range_zero, foldl_nil, bitAt_eq, getD_eq_getElem?_getD,
      getElem?_replicate]
    split_ifs <;> simp
  | succ k ih =>
    obtain ⟨vBytes, folded, size, bits⟩ := ih (by omega)
    refine ⟨packBit vBits vBytes k, ?_, ?_, fun p => ?_⟩
    · rw [range_succ, foldl_append, folded, foldl_cons, foldl_nil]
    · rw [packBit, length_set, size]
    · rw [packBit, bitAt_set (by omega), bits]
      rcases Nat.lt_trichotomy p k with below | rfl | above
      · have later : p < k + 1 := by omega
        simp [below, below.ne, later]
      · simp
      · have never : ¬ p < k := by omega
        have neverNext : ¬ p < k + 1 := by omega
        simp [never, neverNext, above.ne']

theorem unpackBits_packBits :
    unpackBits (packBits vBits) =
      vBits ++ List.replicate ((vBits.length + 7) / 8 * 8 - vBits.length) false := by
  obtain ⟨vBytes, packed, size, bits⟩ := packBit_foldl vBits le_rfl
  have whole : packBits vBits = vBytes := packed
  rw [whole, unpackBits]
  apply ext_getElem
  · simp [size]
    omega
  · intro p inside _
    have read := bits p
    rw [bitAt] at read
    rw [getElem_map, getElem_range, read, getElem_append]
    split_ifs with early
    · simp [early]
    · simp [early]

theorem length_packBits : (packBits vBits).length = (vBits.length + 7) / 8 := by
  obtain ⟨vBytes, packed, size, -⟩ := packBit_foldl vBits le_rfl
  exact (congrArg List.length packed).trans size

theorem reads_serialize {tree : CPartialMerkleTree} (count : tree.nTransactions < 2 ^ 32)
    (hashes : tree.vHash.length ≤ maxSize) (bits : (tree.vBits.length + 7) / 8 ≤ maxSize) :
    Wire.Reads unserialize tree.serialize { tree with
      vBits := tree.vBits ++ replicate ((tree.vBits.length + 7) / 8 * 8 - tree.vBits.length) false
      fBad := false } := by
  have bytes := @reads_vector UInt8 Wire.byte (fun byte => [byte]) (packBits tree.vBits)
    (by rw [length_packBits]; exact bits) fun byte _ => Wire.reads_byte byte
  have last := bytes.map fun vBytes =>
    CPartialMerkleTree.mk tree.nTransactions (unpackBits vBytes) tree.vHash false
  rw [unpackBits_packBits] at last
  rw [serialize, append_assoc]
  exact Wire.Reads.bind (Wire.reads_uint (by omega))
    (Wire.Reads.bind (reads_vector hashes fun value _ => reads_uint256 value) last)

/-! ## The round trip -/

theorem build_eq {vTxid : List Uint256} (vMatch : List Bool) (small : vTxid.length < 2 ^ 31) :
    build hash vTxid vMatch =
      { nTransactions := vTxid.length
        vBits := (prunedTo hash vTxid.length vTxid vMatch (Nat.clog 2 vTxid.length) 0).flags
        vHash := (prunedTo hash vTxid.length vTxid vMatch (Nat.clog 2 vTxid.length) 0).hashes
        fBad := false } := by
  have whole : vTxid.length % 2 ^ 32 = vTxid.length := Nat.mod_eq_of_lt (by omega)
  rw [build, whole, treeHeight_eq small, traverseAndBuild_eq, nil_append, nil_append]

/-- A partial merkle tree of a block, sent to a peer, gives the peer the merkle root and the
matched transactions in order. -/
theorem partialMerkleTree_roundTrip {vTxid : List Uint256} {vMatch : List Bool}
    (nonempty : vTxid ≠ []) (few : vTxid.length ≤ maxBlockSize / 60)
    (same : vMatch.length = vTxid.length) (more : List UInt8) :
    ∃ received, unserialize.run ((build hash vTxid vMatch).serialize ++ more) =
        some (received, more) ∧
      extractMatches hash received =
        ((buildMerkleTree hash vTxid).1, matchedIds vTxid vMatch) := by
  have small := small_of_le few
  have bound : vTxid.length ≤ 2 ^ 16 := by
    unfold maxBlockSize at few
    omega
  have low : Nat.clog 2 vTxid.length ≤ 16 := Nat.clog_le_of_le_pow bound
  have top : 0 < HashTree.width vTxid.length (Nat.clog 2 vTxid.length) :=
    width_pos (length_pos_iff.mpr nonempty) _
  have fits := prunedTo_fits hash vTxid.length vTxid vMatch small (clog_le small) 0
  have hashes := (fits.length_hashes top).1
  rw [Nat.zero_mul, Nat.add_zero] at hashes
  have flags : (prunedTo hash vTxid.length vTxid vMatch (Nat.clog 2 vTxid.length) 0).flags.length <
      2 ^ 17 :=
    lt_of_lt_of_le fits.length_flags (Nat.pow_le_pow_right (by decide) (by omega))
  have root : (prunedTo hash vTxid.length vTxid vMatch (Nat.clog 2 vTxid.length) 0).root hash =
      (buildMerkleTree hash vTxid).1 := by
    rw [prunedTo_root, calcHash_eq hash small (clog_le small) top,
      buildMerkleTree_root hash nonempty]
    rfl
  have kept : (prunedTo hash vTxid.length vTxid vMatch (Nat.clog 2 vTxid.length) 0).kept =
      matchedIds vTxid vMatch := by
    rw [prunedTo_kept hash vTxid.length vTxid vMatch small (clog_le small) 0 top,
      matchedIds_eq same (Nat.le_pow_clog (by decide) _)]
  have built := build_eq hash vMatch small
  have sent := @reads_serialize (build hash vTxid vMatch)
    (by rw [built]; dsimp only; omega)
    (by rw [built]; unfold maxSize; dsimp only; omega)
    (by rw [built]; unfold maxSize; dsimp only; omega)
  refine ⟨_, sent more, ?_⟩
  rw [built, ← root, ← kept]
  apply extractMatches_eq hash
  · exact fun none => nonempty (length_eq_zero_iff.mp none)
  · exact few
  · rfl
  · exact fits
  · rfl
  · rfl
  · exact hashes
  · dsimp only
    rw [length_append, length_replicate]
    omega

theorem partialMerkleTree_roundTrip_five :
    ∃ received, unserialize.run ((build CentNode.Sample.pairHash [11, 12, 13, 14, 15]
        [false, true, false, false, true]).serialize ++ [7]) = some (received, [7]) ∧
      extractMatches CentNode.Sample.pairHash received =
        ((buildMerkleTree CentNode.Sample.pairHash [11, 12, 13, 14, 15]).1, [12, 15]) :=
  partialMerkleTree_roundTrip CentNode.Sample.pairHash (by decide) (by decide) rfl [7]

end CPartialMerkleTree

end CentNode
