import CentNode.Library.PrunedTree
import CentNode.Primitives.MerkleTree
import CentNode.Primitives.Stream
import CentNode.Validation.Node

/-!
# Partial merkle trees

`CPartialMerkleTree` of `merkleblock.cpp`: the transactions of a block that
match a filter, with the hashes that join them to the merkle root.  `hash` is
the double SHA-256 of two concatenated hashes.
-/

namespace CentNode

open List Option HashTree PrunedTree

variable (hash : Uint256 → Uint256 → Uint256)

structure CPartialMerkleTree where
  /-- The total number of transactions in the block. -/
  nTransactions : Nat
  vBits : List Bool
  vHash : List Uint256
  fBad : Bool
  deriving DecidableEq, Repr

namespace CPartialMerkleTree

/-- `CalcTreeWidth`, in 32-bit arithmetic. -/
def calcTreeWidth (nTransactions height : Nat) : Nat :=
  ((nTransactions + (1 <<< height) - 1) % 2 ^ 32) >>> height

/-- The loop `while (CalcTreeWidth(nHeight) > 1) nHeight++`. -/
def climb (nTransactions : Nat) : Nat → Nat → Nat
  | 0, nHeight => nHeight
  | fuel + 1, nHeight =>
    if calcTreeWidth nTransactions nHeight > 1 then climb nTransactions fuel (nHeight + 1)
    else nHeight

/-- The height of the tree: a 32-bit width is at most one from height 32 on. -/
def treeHeight (nTransactions : Nat) : Nat := climb nTransactions 32 0

def calcHash (nTransactions : Nat) (vTxid : List Uint256) : Nat → Nat → Uint256
  | 0, pos => vTxid.getD pos 0
  | height + 1, pos =>
    let left := calcHash nTransactions vTxid height (pos * 2)
    let right :=
      if pos * 2 + 1 < calcTreeWidth nTransactions height then
        calcHash nTransactions vTxid height (pos * 2 + 1)
      else left
    hash left right

/-- The loop at the head of `TraverseAndBuild`: a match below the node. -/
def parentOfMatch (nTransactions : Nat) (vMatch : List Bool) (height pos : Nat) : Bool :=
  (List.range' (pos <<< height) (((pos + 1) <<< height) - (pos <<< height))).any fun p =>
    p < nTransactions && vMatch.getD p false

/-- `TraverseAndBuild` appends to `vBits` and `vHash`. -/
def traverseAndBuild (nTransactions : Nat) (vTxid : List Uint256) (vMatch : List Bool) :
    Nat → Nat → List Bool × List Uint256 → List Bool × List Uint256
  | 0, pos, (vBits, vHash) =>
    (vBits ++ [parentOfMatch nTransactions vMatch 0 pos],
      vHash ++ [calcHash hash nTransactions vTxid 0 pos])
  | height + 1, pos, (vBits, vHash) =>
    let fParentOfMatch := parentOfMatch nTransactions vMatch (height + 1) pos
    if !fParentOfMatch then
      (vBits ++ [fParentOfMatch], vHash ++ [calcHash hash nTransactions vTxid (height + 1) pos])
    else
      let left := traverseAndBuild nTransactions vTxid vMatch height (pos * 2)
        (vBits ++ [fParentOfMatch], vHash)
      if pos * 2 + 1 < calcTreeWidth nTransactions height then
        traverseAndBuild nTransactions vTxid vMatch height (pos * 2 + 1) left
      else left

/-- The constructor from transaction ids and a mask. -/
def build (vTxid : List Uint256) (vMatch : List Bool) : CPartialMerkleTree :=
  let nTransactions := vTxid.length % 2 ^ 32
  let built := traverseAndBuild hash nTransactions vTxid vMatch (treeHeight nTransactions) 0 ([], [])
  { nTransactions := nTransactions, vBits := built.1, vHash := built.2, fBad := false }

/-- What `TraverseAndExtract` takes by reference, and `fBad`. -/
structure Extraction where
  nBitsUsed : Nat := 0
  nHashUsed : Nat := 0
  vMatch : List Uint256 := []
  fBad : Bool := false
  deriving DecidableEq, Repr

/-- A stored hash is used, a matched transaction if the bit of a leaf is set. -/
def useHash (tree : CPartialMerkleTree) (matched : Bool) (state : Extraction) :
    Uint256 × Extraction :=
  if state.nHashUsed ≥ tree.vHash.length then (0, { state with fBad := true })
  else
    let stored := tree.vHash.getD state.nHashUsed 0
    (stored, { state with
      nHashUsed := state.nHashUsed + 1
      vMatch := if matched then state.vMatch ++ [stored] else state.vMatch })

def traverseAndExtract (tree : CPartialMerkleTree) : Nat → Nat → Extraction → Uint256 × Extraction
  | 0, _, state =>
    if state.nBitsUsed ≥ tree.vBits.length then (0, { state with fBad := true })
    else
      useHash tree (tree.vBits.getD state.nBitsUsed false)
        { state with nBitsUsed := state.nBitsUsed + 1 }
  | height + 1, pos, state =>
    if state.nBitsUsed ≥ tree.vBits.length then (0, { state with fBad := true })
    else
      let fParentOfMatch := tree.vBits.getD state.nBitsUsed false
      let state := { state with nBitsUsed := state.nBitsUsed + 1 }
      if !fParentOfMatch then useHash tree false state
      else
        let left := traverseAndExtract tree height (pos * 2) state
        if pos * 2 + 1 < calcTreeWidth tree.nTransactions height then
          let right := traverseAndExtract tree height (pos * 2 + 1) left.2
          (hash left.1 right.1, right.2)
        else (hash left.1 left.1, left.2)

/-- `ExtractMatches`: the merkle root, or zero in case of failure, and `vMatch`. -/
def extractMatches (tree : CPartialMerkleTree) : Uint256 × List Uint256 :=
  if tree.nTransactions = 0 then (0, [])
  else if tree.nTransactions > maxBlockSize / 60 then (0, [])
  else if tree.vHash.length > tree.nTransactions then (0, [])
  else if tree.vBits.length < tree.vHash.length then (0, [])
  else
    let result := traverseAndExtract hash tree (treeHeight tree.nTransactions) 0
      { fBad := tree.fBad }
    if result.2.fBad then (0, result.2.vMatch)
    else if (result.2.nBitsUsed + 7) / 8 ≠ (tree.vBits.length + 7) / 8 then (0, result.2.vMatch)
    else if result.2.nHashUsed ≠ tree.vHash.length then (0, result.2.vMatch)
    else (result.1, result.2.vMatch)

/-! ## The shape of the tree -/

section Shape

variable {nTransactions : Nat} (small : nTransactions < 2 ^ 31)

include small

theorem calcTreeWidth_eq {height : Nat} (low : height ≤ 31) :
    calcTreeWidth nTransactions height = HashTree.width nTransactions height := by
  have power : 2 ^ height ≤ 2 ^ 31 := Nat.pow_le_pow_right (by decide) low
  rw [calcTreeWidth, HashTree.width, Nat.one_shiftLeft, Nat.shiftRight_eq_div_pow,
    Nat.mod_eq_of_lt (by omega)]

theorem clog_le : Nat.clog 2 nTransactions ≤ 31 := Nat.clog_le_of_le_pow small.le

theorem climb_eq {fuel nHeight : Nat} (low : nHeight ≤ Nat.clog 2 nTransactions)
    (enough : Nat.clog 2 nTransactions ≤ nHeight + fuel) :
    climb nTransactions fuel nHeight = Nat.clog 2 nTransactions := by
  have bound := clog_le small
  induction fuel generalizing nHeight with
  | zero =>
    rw [climb]
    omega
  | succ fuel ih =>
    have one := width_le_one_iff nTransactions nHeight
    rw [climb, calcTreeWidth_eq small (by omega)]
    split_ifs with wide
    · exact ih (by omega) (by omega)
    · omega

theorem treeHeight_eq : treeHeight nTransactions = Nat.clog 2 nTransactions :=
  climb_eq small (Nat.zero_le _) (by have := clog_le small; omega)

end Shape

/-- `CalcHash` is the node of the tree over all transaction ids. -/
theorem calcHash_eq {vTxid : List Uint256} (small : vTxid.length < 2 ^ 31) {height pos : Nat}
    (low : height ≤ 31) (inside : pos < HashTree.width vTxid.length height) :
    calcHash hash vTxid.length vTxid height pos = (HashTree.row hash vTxid height).getD pos 0 := by
  induction height generalizing pos with
  | zero => rfl
  | succ height ih =>
    have first : 2 * pos < HashTree.width vTxid.length height := by
      rw [width_succ] at inside
      omega
    rw [getD_row_succ hash vTxid 0 inside, calcHash, Nat.mul_comm pos 2,
      calcTreeWidth_eq small (by omega)]
    split_ifs with right
    · rw [ih (by omega) first, ih (by omega) right, Nat.min_eq_left (by omega)]
    · rw [ih (by omega) first, Nat.min_eq_right (by omega),
        show HashTree.width vTxid.length height - 1 = 2 * pos by omega]

/-! ## Extraction -/

section Extraction

variable {tree : CPartialMerkleTree}

variable {state : Extraction} {α : Type} {entries front rest : List α} {count index : Nat}

theorem drop_eq_cons {entry : α}
    (front : entries.drop index = entry :: rest) (blank : α) :
    index < entries.length ∧ entries.getD index blank = entry ∧
      entries.drop (index + 1) = rest := by
  have inside : index < entries.length := by
    by_contra past
    rw [drop_eq_nil_of_le (by omega)] at front
    cases front
  rw [drop_eq_getElem_cons inside, List.cons.injEq] at front
  refine ⟨inside, ?_, front.2⟩
  rw [getD_eq_getElem?_getD, getElem?_eq_getElem inside, getD_some]
  exact front.1

theorem drop_append_eq (split : entries.drop index = front ++ rest) :
    entries.drop (index + front.length) = rest := by
  rw [← drop_drop, split, drop_left]

theorem useHash_eq {stored : Uint256} {rest : List Uint256} (matched : Bool)
    (front : tree.vHash.drop state.nHashUsed = stored :: rest) :
    useHash tree matched state = (stored, { state with
      nHashUsed := state.nHashUsed + 1
      vMatch := if matched then state.vMatch ++ [stored] else state.vMatch }) := by
  obtain ⟨inside, here, -⟩ := drop_eq_cons front (0 : Uint256)
  rw [useHash, if_neg (by omega), here]

theorem useHash_nil (matched : Bool)
    (front : tree.vHash.drop state.nHashUsed = []) :
    (useHash tree matched state).2.fBad = true := by
  rw [drop_eq_nil_iff] at front
  rw [useHash, if_pos (by omega)]

theorem useHash_fBad (state : Extraction) (matched : Bool) (bad : state.fBad = true) :
    (useHash tree matched state).2.fBad = true := by
  rw [useHash]
  split_ifs
  · rfl
  · exact bad
  · exact bad

theorem traverseAndExtract_fBad (height pos : Nat) (state : Extraction)
    (bad : state.fBad = true) : (traverseAndExtract hash tree height pos state).2.fBad = true := by
  induction height generalizing pos state with
  | zero =>
    rw [traverseAndExtract]
    split_ifs
    · rfl
    · exact useHash_fBad _ _ bad
  | succ height ih =>
    rw [traverseAndExtract]
    dsimp only
    split_ifs
    · rfl
    · exact useHash_fBad _ _ bad
    · exact ih _ _ (ih _ _ bad)
    · exact ih _ _ bad

/-- The traversal after the pruned tree that the bits and hashes left encode. -/
def Extraction.after (state : Extraction) (read : PrunedTree Uint256) : Extraction where
  nBitsUsed := state.nBitsUsed + read.flags.length
  nHashUsed := state.nHashUsed + read.hashes.length
  vMatch := state.vMatch ++ read.kept
  fBad := state.fBad

/-- The traversal reads a pruned tree in the format of its depth-first encoding. -/
theorem traverseAndExtract_eq (small : tree.nTransactions < 2 ^ 31) {height : Nat}
    (low : height ≤ 31) {pos : Nat} {state : Extraction} {read : PrunedTree Uint256}
    {restBits : List Bool} {restHash : List Uint256}
    (parsed : parse tree.nTransactions height pos (tree.vBits.drop state.nBitsUsed)
      (tree.vHash.drop state.nHashUsed) = some (read, restBits, restHash)) :
    traverseAndExtract hash tree height pos state = (read.root hash, state.after read) := by
  induction height generalizing pos state read restBits restHash with
  | zero =>
    cases bits : tree.vBits.drop state.nBitsUsed with
    | nil =>
      rw [bits] at parsed
      cases parsed
    | cons bit bitsLeft =>
      obtain ⟨inside, here, -⟩ := drop_eq_cons bits false
      cases stored : tree.vHash.drop state.nHashUsed with
      | nil =>
        rw [bits, stored] at parsed
        cases parsed
      | cons first hashLeft =>
        rw [bits, stored] at parsed
        cases parsed
        rw [traverseAndExtract, if_neg (by omega), here]
        rw [useHash_eq bit (by exact stored)]
        cases bit <;> simp [Extraction.after, PrunedTree.root, flags,
          PrunedTree.hashes, kept]
  | succ height ih =>
    cases bits : tree.vBits.drop state.nBitsUsed with
    | nil =>
      rw [bits] at parsed
      cases parsed
    | cons bit bitsLeft =>
      obtain ⟨inside, here, bitsRest⟩ := drop_eq_cons bits false
      rw [traverseAndExtract, if_neg (by omega)]
      dsimp only
      rw [here]
      cases bit with
      | false =>
        cases stored : tree.vHash.drop state.nHashUsed with
        | nil =>
          rw [bits, stored] at parsed
          cases parsed
        | cons first hashLeft =>
          rw [bits, stored] at parsed
          cases parsed
          rw [if_pos (show (!false) = true from rfl), useHash_eq false (by exact stored)]
          simp [Extraction.after, PrunedTree.root, flags, PrunedTree.hashes,
            kept]
      | true =>
        rw [bits, parse, bind_eq_some_iff] at parsed
        obtain ⟨⟨left, leftBits, leftHash⟩, readLeft, parsed⟩ := parsed
        rw [← bitsRest] at readLeft
        have lefts := fits_of_parse readLeft
        have leftEq := @ih (by omega) (2 * pos)
          { state with nBitsUsed := state.nBitsUsed + 1 } left leftBits leftHash readLeft
        rw [if_neg (by decide), calcTreeWidth_eq small (by omega), Nat.mul_comm pos 2, leftEq]
        split_ifs at parsed with right
        · rw [map_eq_some_iff] at parsed
          obtain ⟨⟨second, rightBits, rightHash⟩, readRight, same⟩ := parsed
          cases same
          have bitsLater := drop_append_eq lefts.2.1
          have hashLater := drop_append_eq lefts.2.2
          dsimp only at readRight bitsLater hashLater
          rw [← bitsLater, ← hashLater] at readRight
          have rightEq := @ih (by omega) (2 * pos + 1)
            (Extraction.after { state with nBitsUsed := state.nBitsUsed + 1 } left) second
            _ _ readRight
          rw [if_pos right, rightEq]
          simp [Extraction.after, PrunedTree.root, flags, PrunedTree.hashes,
            kept, Nat.add_assoc, Nat.add_comm]
        · cases parsed
          rw [if_neg right]
          simp [Extraction.after, PrunedTree.root, flags, PrunedTree.hashes,
            kept, Nat.add_assoc, Nat.add_comm]

/-- Where the bits and hashes encode no tree, the traversal fails. -/
theorem traverseAndExtract_none (small : tree.nTransactions < 2 ^ 31) {height : Nat}
    (low : height ≤ 31) {pos : Nat} {state : Extraction}
    (parsed : parse tree.nTransactions height pos (tree.vBits.drop state.nBitsUsed)
      (tree.vHash.drop state.nHashUsed) = none) :
    (traverseAndExtract hash tree height pos state).2.fBad = true := by
  induction height generalizing pos state with
  | zero =>
    cases bits : tree.vBits.drop state.nBitsUsed with
    | nil =>
      rw [drop_eq_nil_iff] at bits
      rw [traverseAndExtract, if_pos (by omega)]
    | cons bit bitsLeft =>
      obtain ⟨inside, here, -⟩ := drop_eq_cons bits false
      cases stored : tree.vHash.drop state.nHashUsed with
      | nil =>
        rw [traverseAndExtract, if_neg (by omega)]
        exact useHash_nil _ stored
      | cons first hashLeft =>
        rw [bits, stored] at parsed
        cases parsed
  | succ height ih =>
    cases bits : tree.vBits.drop state.nBitsUsed with
    | nil =>
      rw [drop_eq_nil_iff] at bits
      rw [traverseAndExtract, if_pos (by omega)]
    | cons bit bitsLeft =>
      obtain ⟨inside, here, bitsRest⟩ := drop_eq_cons bits false
      rw [traverseAndExtract, if_neg (by omega)]
      dsimp only
      rw [here]
      cases bit with
      | false =>
        cases stored : tree.vHash.drop state.nHashUsed with
        | nil =>
          rw [if_pos (show (!false) = true from rfl)]
          exact useHash_nil _ stored
        | cons first hashLeft =>
          rw [bits, stored] at parsed
          cases parsed
      | true =>
        rw [bits, parse, ← bitsRest] at parsed
        rw [if_neg (by decide), calcTreeWidth_eq small (by omega), Nat.mul_comm pos 2]
        cases readLeft : parse tree.nTransactions height (2 * pos)
            (tree.vBits.drop (state.nBitsUsed + 1)) (tree.vHash.drop state.nHashUsed) with
        | none =>
          have bad := @ih (by omega) (2 * pos)
            { state with nBitsUsed := state.nBitsUsed + 1 } readLeft
          split_ifs
          · exact traverseAndExtract_fBad hash _ _ _ bad
          · exact bad
        | some left =>
          rw [readLeft, bind_some] at parsed
          have lefts := fits_of_parse readLeft
          split_ifs at parsed with right
          rw [map_eq_none_iff] at parsed
          have bitsLater := drop_append_eq lefts.2.1
          have hashLater := drop_append_eq lefts.2.2
          rw [← bitsLater, ← hashLater] at parsed
          have leftEq := @traverseAndExtract_eq hash tree small height (by omega) (2 * pos)
            { state with nBitsUsed := state.nBitsUsed + 1 } _ _ _ readLeft
          rw [if_pos right, leftEq]
          exact @ih (by omega) (2 * pos + 1) (Extraction.after
            { state with nBitsUsed := state.nBitsUsed + 1 } left.1) parsed

theorem small_of_le (few : count ≤ maxBlockSize / 60) : count < 2 ^ 31 := by
  unfold maxBlockSize at few
  omega

/-- A root that is not zero is that of a pruned tree, and its kept leaves are the matches. -/
theorem parse_of_extractMatches (found : (extractMatches hash tree).1 ≠ 0) :
    tree.nTransactions ≤ maxBlockSize / 60 ∧ ∃ read padding,
      parse tree.nTransactions (Nat.clog 2 tree.nTransactions) 0 tree.vBits tree.vHash =
        some (read, padding, []) ∧
      extractMatches hash tree = (read.root hash, read.kept) := by
  unfold extractMatches at found ⊢
  dsimp only at found ⊢
  split_ifs at found ⊢ with none many hashes bits bad unread unused
  all_goals try exact absurd rfl found
  have few : tree.nTransactions ≤ maxBlockSize / 60 := Nat.not_lt.mp many
  have small := small_of_le few
  rw [treeHeight_eq small] at bad unread unused ⊢
  refine ⟨few, ?_⟩
  cases parsed : parse tree.nTransactions (Nat.clog 2 tree.nTransactions) 0
      tree.vBits tree.vHash with
  | none =>
    have failed := @traverseAndExtract_none hash tree small _ (clog_le small) 0
      { fBad := tree.fBad } parsed
    exact absurd failed bad
  | some result =>
    obtain ⟨read, padding, left⟩ := result
    have result := @traverseAndExtract_eq hash tree small _ (clog_le small) 0
      { fBad := tree.fBad } read padding left parsed
    rw [result] at unused ⊢
    have nothing : left = [] := by
      have whole := (fits_of_parse parsed).2.2
      simp only [Extraction.after, Nat.zero_add, not_not] at unused
      rw [whole, length_append] at unused
      exact length_eq_zero_iff.mp (by omega)
    subst nothing
    exact ⟨read, padding, rfl, by simp [Extraction.after]⟩

theorem extractMatches_eq {read : PrunedTree Uint256} {padding : List Bool}
    (some : tree.nTransactions ≠ 0) (few : tree.nTransactions ≤ maxBlockSize / 60)
    (good : tree.fBad = false)
    (fits : read.Fits tree.nTransactions (Nat.clog 2 tree.nTransactions) 0)
    (hashes : tree.vHash = read.hashes) (bits : tree.vBits = read.flags ++ padding)
    (counted : read.hashes.length ≤ tree.nTransactions)
    (byteFull : (read.flags.length + 7) / 8 = (tree.vBits.length + 7) / 8) :
    extractMatches hash tree = (read.root hash, read.kept) := by
  have small := small_of_le few
  have parsed := fits.parse padding []
  rw [append_nil, ← hashes, ← bits] at parsed
  have result := @traverseAndExtract_eq hash tree small _ (clog_le small) 0
    { fBad := tree.fBad } read padding [] parsed
  have enough : read.hashes.length ≤ tree.vBits.length := by
    have fewer := read.length_hashes_le
    rw [bits, length_append]
    omega
  rw [extractMatches, if_neg some, if_neg (by omega), if_neg (by rw [hashes]; omega),
    if_neg (by rw [hashes]; omega), treeHeight_eq small, result]
  simp [Extraction.after, good, hashes, byteFull]

end Extraction

/-! ## Serialization -/

/-- `vBytes[p / 8] |= vBits[p] << (p % 8)`. -/
def packBit (vBits : List Bool) (vBytes : List UInt8) (p : Nat) : List UInt8 :=
  vBytes.set (p / 8) (vBytes.getD (p / 8) 0 |||
    (if vBits.getD p false then 1 else 0) <<< UInt8.ofNat (p % 8))

/-- The bits, eight to a byte, the least significant first. -/
def packBits (vBits : List Bool) : List UInt8 :=
  (List.range vBits.length).foldl (packBit vBits) (List.replicate ((vBits.length + 7) / 8) 0)

def unpackBits (vBytes : List UInt8) : List Bool :=
  (List.range (vBytes.length * 8)).map fun p =>
    vBytes.getD (p / 8) 0 &&& 1 <<< UInt8.ofNat (p % 8) ≠ 0

def serialize (tree : CPartialMerkleTree) : List UInt8 :=
  Wire.leBytes 4 tree.nTransactions ++ writeVector writeUint256 tree.vHash ++
    writeVector (fun byte => [byte]) (packBits tree.vBits)

def unserialize : Wire.Reader CPartialMerkleTree := do
  let nTransactions ← Wire.uint 4
  let vHash ← readVector readUint256
  let vBytes ← readVector Wire.byte
  pure { nTransactions := nTransactions, vBits := unpackBits vBytes, vHash := vHash, fBad := false }

/-! ## What a root authenticates -/

/-- The places of the leaves that the bits mark as matched, in the tree of `nTransactions`
leaves. -/
def matchedPlaces (tree : CPartialMerkleTree) : List Nat :=
  (PrunedTree.readPlaces tree.nTransactions (treeHeight tree.nTransactions) 0 tree.vBits).1

/-- The pairs hashed on the way to the root. -/
def hashedPairs (tree : CPartialMerkleTree) : List (Uint256 × Uint256) :=
  match PrunedTree.parse tree.nTransactions (treeHeight tree.nTransactions) 0 tree.vBits
      tree.vHash with
  | some (read, _) => read.hashed hash
  | none => []

/-- A tree with the merkle root of a list of transactions gives matches in the order of the list
exactly if its matched places, each standing for the transaction that the copied right edge
puts there, are in that order. -/
theorem extractMatches_sublist_iff {tree : CPartialMerkleTree} {vTxid : List Uint256}
    (collisionFree :
      HashTree.CollisionFree hash (HashTree.inputs hash vTxid ++ hashedPairs hash tree))
    (distinct : vTxid.Nodup) (sameHeight : merkleLevels vTxid = treeHeight tree.nTransactions + 1)
    (root : (extractMatches hash tree).1 = (buildMerkleTree hash vTxid).1)
    (found : (extractMatches hash tree).1 ≠ 0) :
    (extractMatches hash tree).2.Sublist vTxid ↔
      (tree.matchedPlaces.map
        (PrunedTree.standIn vTxid.length (treeHeight tree.nTransactions) 0)).Pairwise (· < ·) := by
  obtain ⟨few, read, padding, parsed, extracted⟩ := parse_of_extractMatches hash found
  have height := treeHeight_eq (small_of_le few)
  obtain ⟨fits, bits, -⟩ := fits_of_parse parsed
  have some : vTxid ≠ [] := by
    rintro rfl
    simp [merkleLevels] at sameHeight
  rw [merkleLevels, if_neg some] at sameHeight
  rw [hashedPairs, height, parsed] at collisionFree
  have places : tree.matchedPlaces = read.places 0 := by
    rw [matchedPlaces, height, bits, fits.readPlaces padding]
  rw [extracted] at root ⊢
  rw [places, height]
  apply fits.kept_sublist_iff (by omega) some distinct collisionFree
  rw [← height, ← Nat.add_right_cancel sameHeight, buildMerkleTree_root hash some, ← root]

namespace Sample

/-- The tree of four leaves for three transactions: the copy of the third is matched too. -/
def copiedLeaf : CPartialMerkleTree where
  nTransactions := 4
  vBits := [true, false, true, true, true]
  vHash := [CentNode.Sample.pairHash 11 12, 13, 13]
  fBad := false

/-- The tree of three transactions with the last two matched. -/
def lastTwo : CPartialMerkleTree where
  nTransactions := 3
  vBits := [true, true, false, true, true, true]
  vHash := [11, 12, 13]
  fBad := false

end Sample

theorem extractMatches_repeats :
    HashTree.CollisionFree CentNode.Sample.pairHash
        (HashTree.inputs CentNode.Sample.pairHash [11, 12, 13] ++
          hashedPairs CentNode.Sample.pairHash Sample.copiedLeaf) ∧
      ([11, 12, 13] : List Uint256).Nodup ∧
      merkleLevels [11, 12, 13] = treeHeight Sample.copiedLeaf.nTransactions + 1 ∧
      extractMatches CentNode.Sample.pairHash Sample.copiedLeaf =
        ((buildMerkleTree CentNode.Sample.pairHash [11, 12, 13]).1, [13, 13]) ∧
      (extractMatches CentNode.Sample.pairHash Sample.copiedLeaf).1 ≠ 0 ∧
      ¬ ([13, 13] : List Uint256).Sublist [11, 12, 13] := by
  decide

theorem extractMatches_sublist_iff_three :
    (extractMatches CentNode.Sample.pairHash Sample.lastTwo).2.Sublist [11, 12, 13] ↔
      (Sample.lastTwo.matchedPlaces.map
        (PrunedTree.standIn 3 (treeHeight Sample.lastTwo.nTransactions) 0)).Pairwise (· < ·) :=
  extractMatches_sublist_iff CentNode.Sample.pairHash (by decide) (by decide) (by decide)
    (by decide) (by decide)

end CPartialMerkleTree

end CentNode
