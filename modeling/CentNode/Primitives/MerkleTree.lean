import CentNode.Library.HashTree
import CentNode.Primitives.Transaction
import Mathlib.Data.Nat.Bitwise

/-!
# The merkle tree of a block

`CBlock::BuildMerkleTree` of `primitives/block.cpp`: one vector holds the rows
of the tree one after another, and the loop over a row appends the row above.
`GetMerkleBranch` and `CheckMerkleBranch` go from a leaf to the root.
`hash` is the double SHA-256 of two concatenated hashes.
-/

namespace CentNode

open List HashTree

variable (hash : Uint256 → Uint256 → Uint256)

/-- `vMerkleTree` and the local `mutated`. -/
structure MerkleTreeState where
  vMerkleTree : List Uint256
  mutated : Bool := false
  deriving DecidableEq, Repr

/-- The body of the inner loop, `i = 2 * k`, for the row of `nSize` nodes that starts at `j`. -/
def buildMerkleNode (j nSize : Nat) (state : MerkleTreeState) (k : Nat) : MerkleTreeState :=
  let i := 2 * k
  let i2 := min (i + 1) (nSize - 1)
  let left := state.vMerkleTree.getD (j + i) 0
  let right := state.vMerkleTree.getD (j + i2) 0
  { vMerkleTree := state.vMerkleTree ++ [hash left right]
    -- two identical hashes at the end of the list at a particular level
    mutated := state.mutated || (i2 = i + 1 && i2 + 1 = nSize && left = right) }

/-- The inner loop `for (int i = 0; i < nSize; i += 2)`. -/
def buildMerkleRow (j nSize : Nat) (state : MerkleTreeState) : MerkleTreeState :=
  (List.range ((nSize + 1) / 2)).foldl (buildMerkleNode hash j nSize) state

/-- The outer loop, while `nSize > 1`: the rows shrink, so it ends within `nSize` rounds. -/
def buildMerkleRows : Nat → Nat → Nat → MerkleTreeState → MerkleTreeState
  | 0, _, _, state => state
  | fuel + 1, j, nSize, state =>
    if nSize > 1 then
      buildMerkleRows fuel (j + nSize) ((nSize + 1) / 2) (buildMerkleRow hash j nSize state)
    else state

/-- `BuildMerkleTree` over the transaction ids, and whether the tree is mutated. -/
def buildMerkleTree (txids : List Uint256) : Uint256 × Bool :=
  let state := buildMerkleRows hash txids.length 0 txids.length { vMerkleTree := txids }
  (state.vMerkleTree.getLast?.getD 0, state.mutated)

/-- A hash that keeps small numbers apart. -/
def Sample.pairHash (left right : Uint256) : Uint256 := 1000 * left + right + 5000

/-- The number of rows of the tree over some transactions. -/
def merkleLevels (txids : List Uint256) : Nat :=
  if txids = [] then 0 else Nat.clog 2 txids.length + 1

variable (before row : List Uint256)

theorem getD_rows (above : List Uint256) {index : Nat} (inside : index < row.length) :
    (before ++ row ++ above).getD (before.length + index) 0 = row.getD index 0 := by
  rw [append_assoc, getD_eq_getElem?_getD,
    getElem?_append_right (Nat.le_add_right _ _), Nat.add_sub_cancel_left,
    getElem?_append_left inside, getD_eq_getElem?_getD]

/-- `BuildMerkleTree` of a block with some transactions. -/
def merkleTreeOf (vtx : List CTransaction) : Uint256 × Bool :=
  buildMerkleTree hash (vtx.map CTransaction.hash)

/-- Appending the row above: after `k` rounds its first `k` nodes are there. -/
theorem buildMerkleNode_foldl (mutated : Bool) {k : Nat} (inside : k ≤ (row.length + 1) / 2) :
    (List.range k).foldl (buildMerkleNode hash before.length row.length)
        { vMerkleTree := before ++ row, mutated := mutated } =
      { vMerkleTree := before ++ row ++ (HashTree.up hash row).take k
        mutated := mutated || decide (∃ index < k, 2 * index + 2 = row.length ∧
          row.getD (2 * index) 0 = row.getD (2 * index + 1) 0) } := by
  induction k with
  | zero => simp
  | succ k ih =>
    have left : 2 * k < row.length := by omega
    have right : min (2 * k + 1) (row.length - 1) < row.length := by omega
    have node : (HashTree.up hash row)[k]? = some (hash (row.getD (2 * k) 0)
        (row.getD (min (2 * k + 1) (row.length - 1)) 0)) := by
      rw [HashTree.up, getElem?_map, getElem?_pairs 0 left]
      rfl
    rw [range_succ, foldl_append, ih (by omega), foldl_cons, foldl_nil,
      buildMerkleNode, MerkleTreeState.mk.injEq]
    dsimp only
    rw [getD_rows before row _ left, getD_rows before row _ right, take_add_one, node]
    refine ⟨by simp, ?_⟩
    rw [Bool.or_assoc]
    congr 1
    rw [Bool.eq_iff_iff]
    simp only [Bool.or_eq_true, Bool.and_eq_true, decide_eq_true_eq]
    constructor
    · rintro (⟨index, below, size, same⟩ | ⟨⟨next, size⟩, same⟩)
      · exact ⟨index, by omega, size, same⟩
      · exact ⟨k, by omega, by omega, next ▸ same⟩
    · rintro ⟨index, below, size, same⟩
      by_cases last : index = k
      · subst last
        have next : min (2 * index + 1) (row.length - 1) = 2 * index + 1 := by omega
        exact Or.inr ⟨⟨next, by omega⟩, next.symm ▸ same⟩
      · exact Or.inl ⟨index, by omega, size, same⟩

theorem buildMerkleRow_eq (mutated : Bool) :
    ∃ seen, buildMerkleRow hash before.length row.length
          { vMerkleTree := before ++ row, mutated := mutated } =
        { vMerkleTree := before ++ row ++ HashTree.up hash row, mutated := seen } ∧
      (seen = true ↔ mutated = true ∨ HashTree.EndsTwice row) := by
  refine ⟨mutated || decide (∃ index < (row.length + 1) / 2, 2 * index + 2 = row.length ∧
    row.getD (2 * index) 0 = row.getD (2 * index + 1) 0), ?_, ?_⟩
  · rw [buildMerkleRow, buildMerkleNode_foldl hash before row mutated le_rfl,
      take_of_length_le (by rw [HashTree.up, length_map, length_pairs])]
  · rw [Bool.or_eq_true, decide_eq_true_eq, endsTwice_iff (0 : Uint256)]
    apply or_congr_right
    constructor
    · rintro ⟨index, below, size, same⟩
      exact ⟨index, size, same⟩
    · rintro ⟨index, size, same⟩
      exact ⟨index, by omega, size, same⟩

variable (txids : List Uint256)

/-- The outer loop from a row on ends at the root row and has seen every row below it. -/
theorem buildMerkleRows_eq (fuel height : Nat) (before : List Uint256) (mutated : Bool)
    (low : height ≤ Nat.clog 2 txids.length) (enough : Nat.clog 2 txids.length ≤ height + fuel) :
    ∃ rows seen, buildMerkleRows hash fuel before.length (HashTree.row hash txids height).length
          { vMerkleTree := before ++ HashTree.row hash txids height, mutated := mutated } =
        { vMerkleTree := rows ++ HashTree.row hash txids (Nat.clog 2 txids.length)
          mutated := seen } ∧
      (seen = true ↔ mutated = true ∨ ∃ above, height ≤ above ∧ above < Nat.clog 2 txids.length ∧
        HashTree.EndsTwice (HashTree.row hash txids above)) := by
  induction fuel generalizing height before mutated with
  | zero =>
    obtain rfl : height = Nat.clog 2 txids.length := by omega
    refine ⟨before, mutated, rfl, ?_⟩
    constructor
    · exact Or.inl
    · rintro (seen | ⟨above, high, below, -⟩)
      · exact seen
      · omega
  | succ fuel ih =>
    rw [buildMerkleRows]
    by_cases more : (HashTree.row hash txids height).length > 1
    · have below : height < Nat.clog 2 txids.length := by
        rw [length_row] at more
        by_contra top
        exact absurd ((width_le_one_iff txids.length height).mpr (by omega)) (by omega)
      obtain ⟨seen, row, iff⟩ :=
        buildMerkleRow_eq hash before (HashTree.row hash txids height) mutated
      have size : (HashTree.row hash txids (height + 1)).length =
          ((HashTree.row hash txids height).length + 1) / 2 := by
        rw [length_row, length_row, width_succ]
      obtain ⟨rows, last, built, seenLast⟩ := ih (height + 1)
        (before ++ HashTree.row hash txids height) seen below (by omega)
      rw [if_pos more, row, ← length_append, ← size]
      refine ⟨rows, last, built, ?_⟩
      rw [seenLast, iff, or_assoc]
      apply or_congr_right
      constructor
      · rintro (twice | ⟨above, high, under, twice⟩)
        · exact ⟨height, le_rfl, below, twice⟩
        · exact ⟨above, by omega, under, twice⟩
      · rintro ⟨above, high, under, twice⟩
        rcases Nat.eq_or_lt_of_le high with here | higher
        · exact Or.inl (here ▸ twice)
        · exact Or.inr ⟨above, higher, under, twice⟩
    · have top : height = Nat.clog 2 txids.length := by
        rw [length_row] at more
        have := (width_le_one_iff txids.length height).mp (by omega)
        omega
      rw [if_neg more]
      subst top
      refine ⟨before, mutated, rfl, ?_⟩
      constructor
      · exact Or.inl
      · rintro (seen | ⟨above, high, below, -⟩)
        · exact seen
        · omega

theorem buildMerkleTree_eq :
    ∃ rows seen, buildMerkleRows hash txids.length 0 txids.length { vMerkleTree := txids } =
        { vMerkleTree := rows ++ HashTree.row hash txids (Nat.clog 2 txids.length)
          mutated := seen } ∧
      (seen = true ↔ ∃ above < Nat.clog 2 txids.length,
        HashTree.EndsTwice (HashTree.row hash txids above)) := by
  have enough : Nat.clog 2 txids.length ≤ txids.length :=
    Nat.clog_le_of_le_pow Nat.lt_two_pow_self.le
  obtain ⟨rows, seen, built, iff⟩ := buildMerkleRows_eq hash txids txids.length 0 [] false
    (Nat.zero_le _) (by omega)
  exact ⟨rows, seen, built, by simpa using iff⟩

theorem buildMerkleTree_root {txids : List Uint256} (some : txids ≠ []) :
    HashTree.row hash txids (Nat.clog 2 txids.length) = [(buildMerkleTree hash txids).1] := by
  obtain ⟨rows, seen, built, -⟩ := buildMerkleTree_eq hash txids
  obtain ⟨root, single⟩ := length_eq_one_iff.mp ((length_row hash txids _).trans
    (width_clog (length_pos_iff.mpr some)))
  rw [buildMerkleTree, built, single]
  simp

theorem buildMerkleTree_mutated :
    (buildMerkleTree hash txids).2 = false ↔ HashTree.Clean hash txids := by
  obtain ⟨rows, seen, built, iff⟩ := buildMerkleTree_eq hash txids
  rw [buildMerkleTree, built, HashTree.Clean, Bool.eq_false_iff, Ne, iff]
  simp only [not_exists, not_and]

/-! ## Branches -/

/-- The loop of `GetMerkleBranch`; `none` where an access into `vMerkleTree` is out of range. -/
def merkleBranchFrom (vMerkleTree : List Uint256) :
    Nat → (j nSize nIndex : Nat) → Option (List Uint256)
  | 0, _, _, _ => some []
  | fuel + 1, j, nSize, nIndex =>
    if nSize > 1 then do
      let node ← vMerkleTree[j + min (nIndex ^^^ 1) (nSize - 1)]?
      let above ← merkleBranchFrom vMerkleTree fuel (j + nSize) ((nSize + 1) / 2) (nIndex >>> 1)
      return node :: above
    else some []

/-- The loops of `BuildMerkleTree`; `none` where an access into `vMerkleTree` is out of range. -/
def checkedMerkleNode (j nSize : Nat) (state : MerkleTreeState) (k : Nat) :
    Option MerkleTreeState :=
  if j + 2 * k < state.vMerkleTree.length ∧
      j + min (2 * k + 1) (nSize - 1) < state.vMerkleTree.length then
    some (buildMerkleNode hash j nSize state k)
  else none

def checkedMerkleRow (j nSize : Nat) (state : MerkleTreeState) : Option MerkleTreeState :=
  (List.range ((nSize + 1) / 2)).foldlM (checkedMerkleNode hash j nSize) state

def checkedMerkleRows : Nat → Nat → Nat → MerkleTreeState → Option MerkleTreeState
  | 0, _, _, state => some state
  | fuel + 1, j, nSize, state =>
    if nSize > 1 then
      (checkedMerkleRow hash j nSize state).bind
        (checkedMerkleRows fuel (j + nSize) ((nSize + 1) / 2))
    else some state

/-- What `BuildMerkleTree` leaves in `vMerkleTree`. -/
def builtMerkleTree (txids : List Uint256) : Option (List Uint256) :=
  (checkedMerkleRows hash txids.length 0 txids.length { vMerkleTree := txids }).map (·.vMerkleTree)

/-- `GetMerkleBranch` of the transaction at an index, with `vMerkleTree` as it stands. -/
def getMerkleBranch (txids vMerkleTree : List Uint256) (nIndex : Nat) : Option (List Uint256) :=
  (if vMerkleTree = [] then builtMerkleTree hash txids else some vMerkleTree).bind fun built =>
    merkleBranchFrom built txids.length 0 txids.length nIndex

/-- The loop of `CheckMerkleBranch`. -/
def foldMerkleBranch (leaf : Uint256) : List Uint256 → Int → Uint256
  | [], _ => leaf
  | node :: above, nIndex =>
    foldMerkleBranch (if nIndex % 2 = 1 then hash node leaf else hash leaf node) above (nIndex / 2)

def checkMerkleBranch (leaf : Uint256) (vMerkleBranch : List Uint256) (nIndex : Int) : Uint256 :=
  if nIndex = -1 then 0 else foldMerkleBranch hash leaf vMerkleBranch nIndex

/-- Within the row that is read and the nodes appended behind it no access is out of range. -/
theorem checkedMerkleRow_eq {j nSize : Nat} {state : MerkleTreeState}
    (filled : state.vMerkleTree.length = j + nSize) (count : Nat) (inside : count ≤ (nSize + 1) / 2) :
    ∃ next, (List.range count).foldlM (checkedMerkleNode hash j nSize) state = some next ∧
      next = (List.range count).foldl (buildMerkleNode hash j nSize) state ∧
      next.vMerkleTree.length = j + nSize + count := by
  induction count with
  | zero => exact ⟨state, rfl, rfl, filled⟩
  | succ count ih =>
    obtain ⟨next, ran, same, length⟩ := ih (by omega)
    refine ⟨buildMerkleNode hash j nSize next count, ?_, ?_, ?_⟩
    · rw [range_succ, foldlM_append, ran]
      change (checkedMerkleNode hash j nSize next count).bind some = _
      rw [checkedMerkleNode, if_pos (by omega)]
      rfl
    · rw [range_succ, foldl_append, ← same]
      rfl
    · rw [buildMerkleNode, length_append, length]
      rfl

theorem checkedMerkleRows_eq (fuel j nSize : Nat) (state : MerkleTreeState)
    (filled : state.vMerkleTree.length = j + nSize) :
    checkedMerkleRows hash fuel j nSize state = some (buildMerkleRows hash fuel j nSize state) := by
  induction fuel generalizing j nSize state with
  | zero => rfl
  | succ fuel ih =>
    rw [checkedMerkleRows, buildMerkleRows]
    split
    · obtain ⟨next, ran, same, length⟩ := checkedMerkleRow_eq hash filled _ le_rfl
      rw [checkedMerkleRow, ran, buildMerkleRow, ← same]
      exact ih _ _ _ length
    · rfl

/-- The nodes of the rows from one on, up to the root. -/
def rowsFrom : Nat → Nat → List Uint256
  | 0, height => HashTree.row hash txids height
  | fuel + 1, height =>
    if (HashTree.row hash txids height).length > 1 then
      HashTree.row hash txids height ++ rowsFrom fuel (height + 1)
    else HashTree.row hash txids height

theorem length_row_succ (height : Nat) : (HashTree.row hash txids (height + 1)).length =
    ((HashTree.row hash txids height).length + 1) / 2 := by
  rw [length_row, length_row, width_succ]

theorem buildMerkleRows_nodes (fuel height : Nat) (before : List Uint256) (mutated : Bool) :
    (buildMerkleRows hash fuel before.length (HashTree.row hash txids height).length
      { vMerkleTree := before ++ HashTree.row hash txids height, mutated := mutated }).vMerkleTree =
        before ++ rowsFrom hash txids fuel height := by
  induction fuel generalizing height before mutated with
  | zero => rfl
  | succ fuel ih =>
    rw [buildMerkleRows, rowsFrom]
    split
    · obtain ⟨seen, row, _⟩ :=
        buildMerkleRow_eq hash before (HashTree.row hash txids height) mutated
      rw [row, ← length_append, ← length_row_succ, ← append_assoc]
      exact ih (height + 1) (before ++ HashTree.row hash txids height) seen
    · rfl

/-- A branch from a row on leads from a node of the row to the last node of the tree. -/
theorem merkleBranchFrom_leads {fuel : Nat} (height : Nat) (before : List Uint256) {nIndex : Nat}
    (enough : (HashTree.row hash txids height).length ≤ fuel)
    (inside : nIndex < (HashTree.row hash txids height).length) :
    ∃ branch, merkleBranchFrom (before ++ rowsFrom hash txids fuel height) fuel before.length
        (HashTree.row hash txids height).length nIndex = some branch ∧
      foldMerkleBranch hash ((HashTree.row hash txids height).getD nIndex 0) branch nIndex =
        (before ++ rowsFrom hash txids fuel height).getLast?.getD 0 := by
  induction fuel generalizing height before nIndex with
  | zero => omega
  | succ fuel ih =>
    have up := length_row_succ hash txids height
    have rows : before ++ rowsFrom hash txids (fuel + 1) height =
        before ++ if (HashTree.row hash txids height).length > 1 then
          HashTree.row hash txids height ++ rowsFrom hash txids fuel (height + 1)
        else HashTree.row hash txids height := rfl
    rw [rows, merkleBranchFrom]
    by_cases more : (HashTree.row hash txids height).length > 1
    · have inAbove : nIndex >>> 1 < (HashTree.row hash txids (height + 1)).length := by
        rw [Nat.shiftRight_one]
        omega
      obtain ⟨branch, found, leads⟩ := ih (height + 1)
        (before ++ HashTree.row hash txids height) (by omega) inAbove
      rw [if_pos more, if_pos more, ← append_assoc]
      have sibling : min (nIndex ^^^ 1) ((HashTree.row hash txids height).length - 1) <
          (HashTree.row hash txids height).length := by omega
      have node : (before ++ HashTree.row hash txids height ++
          rowsFrom hash txids fuel (height + 1))[before.length +
            min (nIndex ^^^ 1) ((HashTree.row hash txids height).length - 1)]? =
          some ((HashTree.row hash txids height).getD
            (min (nIndex ^^^ 1) ((HashTree.row hash txids height).length - 1)) 0) := by
        rw [append_assoc, getElem?_append_right (Nat.le_add_right _ _),
          Nat.add_sub_cancel_left, getElem?_append_left sibling,
          getD_eq_getElem?_getD, getElem?_eq_getElem sibling]
        rfl
      have above := getD_row_succ hash txids (0 : Uint256)
        (length_row hash txids _ ▸ inAbove)
      rw [← length_row hash] at above
      rw [length_append, up] at found
      rw [node, Option.bind_eq_bind, Option.bind_some, found]
      refine ⟨_, rfl, ?_⟩
      rw [← leads, foldMerkleBranch, above, Nat.shiftRight_one]
      -- the node is the left or the right one of its pair
      obtain even | odd := Nat.even_or_odd nIndex
      · obtain ⟨half, rfl⟩ := even.two_dvd
        rw [Nat.xor_one_of_even even, if_neg (by omega), Nat.mul_div_cancel_left _ (by decide)]
        congr 1
        omega
      · rw [Nat.xor_one_of_odd odd]
        obtain ⟨half, rfl⟩ := odd
        have quotient : (2 * half + 1) / 2 = half := by omega
        have right : min (2 * half + 1) ((HashTree.row hash txids height).length - 1) =
            2 * half + 1 := by omega
        have left : min (2 * half) ((HashTree.row hash txids height).length - 1) =
            2 * half := by omega
        rw [if_pos (by omega), quotient, right, Nat.add_sub_cancel, left]
        congr 1
        omega
    · obtain ⟨node, single⟩ := length_eq_one_iff.mp
        (show (HashTree.row hash txids height).length = 1 by omega)
      obtain rfl : nIndex = 0 := by omega
      rw [if_neg more, if_neg more]
      refine ⟨[], rfl, ?_⟩
      rw [single, getLast?_append]
      rfl

theorem builtMerkleTree_eq :
    builtMerkleTree hash txids = some (rowsFrom hash txids txids.length 0) := by
  have nodes := buildMerkleRows_nodes hash txids txids.length 0 [] false
  rw [builtMerkleTree, checkedMerkleRows_eq hash txids.length 0 txids.length
    { vMerkleTree := txids } (Nat.zero_add _).symm]
  exact congrArg some nodes

/-- The branch of a transaction is found within `vMerkleTree` and leads from its hash to the
root, whether the tree was built before or not. -/
theorem checkMerkleBranch_root (vtx : List CTransaction) {vMerkleTree : List Uint256}
    {nIndex : Nat} {tx : CTransaction} (present : vtx[nIndex]? = some tx)
    (current : vMerkleTree = [] ∨
      builtMerkleTree hash (vtx.map CTransaction.hash) = some vMerkleTree) :
    (builtMerkleTree hash (vtx.map CTransaction.hash)).isSome = true ∧
    ∃ branch, getMerkleBranch hash (vtx.map CTransaction.hash) vMerkleTree nIndex = some branch ∧
      checkMerkleBranch hash tx.hash branch nIndex = (merkleTreeOf hash vtx).1 := by
  have leaf : (vtx.map CTransaction.hash)[nIndex]? = some tx.hash := by
    rw [getElem?_map, present, Option.map_some]
  rw [merkleTreeOf]
  generalize vtx.map CTransaction.hash = txids at current leaf ⊢
  obtain ⟨inside, _⟩ := List.getElem?_eq_some_iff.mp leaf
  obtain ⟨branch, found, leads⟩ := merkleBranchFrom_leads hash txids 0 []
    (Nat.le_refl txids.length) inside
  have built := builtMerkleTree_eq hash txids
  rw [built] at current ⊢
  refine ⟨rfl, branch, ?_, ?_⟩
  · have stands : (if vMerkleTree = [] then builtMerkleTree hash txids else some vMerkleTree) =
        some (rowsFrom hash txids txids.length 0) := by
      rw [built]
      rcases current with rfl | same
      · rfl
      · rw [same, ite_self]
    rw [getMerkleBranch, stands]
    exact found
  · have nodes := buildMerkleRows_nodes hash txids txids.length 0 [] false
    change (buildMerkleRows hash txids.length 0 txids.length
      { vMerkleTree := txids }).vMerkleTree = rowsFrom hash txids txids.length 0 at nodes
    rw [checkMerkleBranch, if_neg (by omega), buildMerkleTree, nodes]
    rw [HashTree.row, getD_eq_getElem?_getD, leaf] at leads
    exact leads

/-- A transaction that is known by its hash only. -/
def Sample.hashed (hash : Uint256) : CTransaction := { CTransaction.empty with hash }

theorem checkMerkleBranch_root_three :
    builtMerkleTree Sample.pairHash [11, 12, 13] = some [11, 12, 13, 16012, 18013, 16035013] ∧
    ∃ branch, getMerkleBranch Sample.pairHash [11, 12, 13] [] 2 = some branch ∧
      checkMerkleBranch Sample.pairHash 13 branch 2 =
        (buildMerkleTree Sample.pairHash [11, 12, 13]).1 := by
  have third : ([11, 12, 13].map Sample.hashed)[2]? = some (Sample.hashed 13) := rfl
  exact ⟨by decide, (checkMerkleBranch_root Sample.pairHash _ third (.inl rfl)).2⟩

/-! ## What a branch proves -/

/-- The pairs that `CheckMerkleBranch` hashes. -/
def branchInputs (leaf : Uint256) : List Uint256 → Nat → List (Uint256 × Uint256)
  | [], _ => []
  | node :: above, nIndex =>
    let pair := if nIndex % 2 = 1 then (node, leaf) else (leaf, node)
    pair :: branchInputs (hash pair.1 pair.2) above (nIndex / 2)

variable {hash txids}

theorem leaf_of_foldMerkleBranch {height nIndex : Nat} {leaf : Uint256} {branch : List Uint256}
    (inside : nIndex < width txids.length height)
    (depth : height + branch.length = Nat.clog 2 txids.length)
    (free : CollisionFree hash (inputs hash txids ++ branchInputs hash leaf branch nIndex))
    (same : foldMerkleBranch hash leaf branch nIndex =
      (HashTree.row hash txids (Nat.clog 2 txids.length)).getD 0 0) :
    leaf = (HashTree.row hash txids height).getD nIndex 0 := by
  induction branch generalizing height nIndex leaf with
  | nil =>
    obtain rfl : height = Nat.clog 2 txids.length := depth
    have single := (width_le_one_iff txids.length _).mpr le_rfl
    obtain rfl : nIndex = 0 := by omega
    exact same
  | cons node above ih =>
    rw [length_cons] at depth
    have up := width_succ txids.length height
    have insideUp : nIndex / 2 < width txids.length (height + 1) := by omega
    have left : 2 * (nIndex / 2) < (HashTree.row hash txids height).length := by
      rw [length_row]
      omega
    have pair := getElem?_pairs (0 : Uint256) left
    have hashed := mem_append_left (branchInputs hash leaf (node :: above) nIndex)
      (mem_inputs hash (by omega) (mem_of_getElem? pair))
    have parent := getD_row_succ hash txids (0 : Uint256) insideUp
    rw [← length_row hash] at parent
    have freeUp := free.mono fun _ mem => (mem_append.mp mem).elim
      (mem_append_left _) fun above => mem_append_right _ (mem_cons_of_mem _ above)
    have top := free _ mem_append_cons_self _ hashed
    rw [foldMerkleBranch] at same
    by_cases odd : nIndex % 2 = 1
    · rw [if_pos odd] at freeUp top
      rw [if_pos (by omega)] at same
      have children := top ((ih insideUp (by omega) freeUp same).trans parent)
      have right : min (2 * (nIndex / 2) + 1) ((HashTree.row hash txids height).length - 1) =
          nIndex := by
        rw [length_row]
        omega
      rw [right] at children
      exact congrArg Prod.snd children
    · rw [if_neg odd] at freeUp top
      rw [if_neg (by omega)] at same
      have children := top ((ih insideUp (by omega) freeUp same).trans parent)
      have even : 2 * (nIndex / 2) = nIndex := by omega
      rw [even] at children
      exact congrArg Prod.fst children

/-- If no two of the pairs hashed have one hash, a branch as long as the tree is high leads from a
position to the root only from the transaction there. -/
theorem checkMerkleBranch_authenticates {vtx : List CTransaction} {nIndex : Nat} {leaf : Uint256}
    {branch : List Uint256} (inside : nIndex < vtx.length)
    (depth : branch.length = Nat.clog 2 vtx.length)
    (free : CollisionFree hash
      (inputs hash (vtx.map CTransaction.hash) ++ branchInputs hash leaf branch nIndex))
    (same : checkMerkleBranch hash leaf branch nIndex = (merkleTreeOf hash vtx).1) :
    (vtx.map CTransaction.hash)[nIndex]? = some leaf := by
  rw [merkleTreeOf] at same
  rw [← length_map CTransaction.hash] at inside depth
  generalize vtx.map CTransaction.hash = txids at *
  rw [checkMerkleBranch, if_neg (by omega)] at same
  have root := buildMerkleTree_root hash (length_pos_iff.mp (Nat.zero_lt_of_lt inside))
  have leaf_eq := @leaf_of_foldMerkleBranch hash txids 0 nIndex leaf branch
    (by rwa [width_zero]) (by rw [depth, Nat.zero_add]) free (by rw [root]; exact same)
  rw [leaf_eq, getElem?_eq_getElem inside, HashTree.row, getD_eq_getElem _ _ inside]

theorem checkMerkleBranch_authenticates_three :
    (([11, 12, 13].map Sample.hashed).map CTransaction.hash)[2]? = some 13 :=
  @checkMerkleBranch_authenticates Sample.pairHash ([11, 12, 13].map Sample.hashed) 2 13
    [13, 16012] (by decide) (by decide) (by decide) (by decide)

end CentNode
