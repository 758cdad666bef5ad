import Mathlib.Data.List.Nodup
import Mathlib.Tactic.Ring
import CentNode.Library.HashTree

/-!
# Pruned hash trees

A hash tree of which only some leaves are kept.  A pruned tree is written as
one flag a node and one hash a leaf or pruned node, both in depth-first order,
and the shape of the tree of a given number of leaves says how they are read
back.  A pruned tree with the root of a list of leaves, for a hash without a
collision, holds those leaves at its places: where its own shape is wider than
that of the list, the places past the right edge hold copies.
-/

inductive PrunedTree (Hash : Type) where
  /-- A leaf, kept or not. -/
  | leaf (kept : Bool) (hash : Hash)
  /-- An inner node below which nothing is kept. -/
  | pruned (root : Hash)
  | fork (left right : PrunedTree Hash)
  /-- An inner node without a right child: its left child is hashed with itself. -/
  | edge (only : PrunedTree Hash)

namespace PrunedTree

open List Option

open HashTree

variable {Hash : Type}

/-- The flags, of a leaf whether it is kept, of an inner node whether something below it is. -/
def flags : PrunedTree Hash → List Bool
  | leaf kept _ => [kept]
  | pruned _ => [false]
  | fork left right => true :: (left.flags ++ right.flags)
  | edge only => true :: only.flags

def hashes : PrunedTree Hash → List Hash
  | leaf _ hash => [hash]
  | pruned root => [root]
  | fork left right => left.hashes ++ right.hashes
  | edge only => only.hashes

def kept : PrunedTree Hash → List Hash
  | leaf true hash => [hash]
  | leaf false _ => []
  | pruned _ => []
  | fork left right => left.kept ++ right.kept
  | edge only => only.kept

/-- The positions of the kept leaves below a node at a position of its row. -/
def places : PrunedTree Hash → Nat → List Nat
  | leaf true _, pos => [pos]
  | leaf false _, _ => []
  | pruned _, _ => []
  | fork left right, pos => left.places (2 * pos) ++ right.places (2 * pos + 1)
  | edge only, pos => only.places (2 * pos)

def root (combine : Hash → Hash → Hash) : PrunedTree Hash → Hash
  | leaf _ hash => hash
  | pruned root => root
  | fork left right => combine (left.root combine) (right.root combine)
  | edge only => combine (only.root combine) (only.root combine)

/-- The pairs hashed to find the root. -/
def hashed (combine : Hash → Hash → Hash) : PrunedTree Hash → List (Hash × Hash)
  | leaf _ _ => []
  | pruned _ => []
  | fork left right =>
    (left.root combine, right.root combine) :: (left.hashed combine ++ right.hashed combine)
  | edge only => (only.root combine, only.root combine) :: only.hashed combine

/-- The tree has the shape of the node at a height and a position over some number of leaves. -/
inductive Fits (count : Nat) : Nat → Nat → PrunedTree Hash → Prop where
  | leaf {pos : Nat} (kept : Bool) (hash : Hash) : Fits count 0 pos (.leaf kept hash)
  | pruned {height pos : Nat} (root : Hash) : Fits count (height + 1) pos (.pruned root)
  | fork {height pos : Nat} {left right : PrunedTree Hash}
      (inside : 2 * pos + 1 < width count height)
      (fitsLeft : Fits count height (2 * pos) left)
      (fitsRight : Fits count height (2 * pos + 1) right) :
      Fits count (height + 1) pos (.fork left right)
  | edge {height pos : Nat} {only : PrunedTree Hash}
      (outside : ¬ 2 * pos + 1 < width count height)
      (fitsOnly : Fits count height (2 * pos) only) :
      Fits count (height + 1) pos (.edge only)

/-- Read the node at a height and a position from flags and hashes, and what is left of them. -/
def parse (count : Nat) : Nat → Nat → List Bool → List Hash →
    Option (PrunedTree Hash × List Bool × List Hash)
  | _, _, [], _ => none
  | 0, _, _ :: _, [] => none
  | 0, _, flag :: flags, hash :: hashes => some (leaf flag hash, flags, hashes)
  | _ + 1, _, false :: _, [] => none
  | _ + 1, _, false :: flags, hash :: hashes => some (pruned hash, flags, hashes)
  | height + 1, pos, true :: flags, hashes =>
    (parse count height (2 * pos) flags hashes).bind fun left =>
      if 2 * pos + 1 < width count height then
        (parse count height (2 * pos + 1) left.2.1 left.2.2).map fun right =>
          (fork left.1 right.1, right.2)
      else some (edge left.1, left.2)

section Reading

variable {count height pos : Nat} {tree : PrunedTree Hash}

theorem Fits.parse (fits : Fits count height pos tree) (moreFlags : List Bool)
    (moreHashes : List Hash) :
    PrunedTree.parse count height pos (tree.flags ++ moreFlags) (tree.hashes ++ moreHashes) =
      some (tree, moreFlags, moreHashes) := by
  induction fits generalizing moreFlags moreHashes with
  | leaf kept hash => rfl
  | pruned root => rfl
  | fork inside _ _ ihLeft ihRight =>
    rw [flags, hashes, cons_append, append_assoc, append_assoc,
      PrunedTree.parse, ihLeft, bind_some, if_pos inside, ihRight]
    rfl
  | edge outside _ ih =>
    rw [flags, hashes, cons_append, PrunedTree.parse, ih, bind_some, if_neg outside]

/-- What is read fits, and is what the flags and hashes begin with. -/
theorem fits_of_parse {flags restFlags : List Bool} {hashes restHashes : List Hash}
    (read : PrunedTree.parse count height pos flags hashes = some (tree, restFlags, restHashes)) :
    Fits count height pos tree ∧ flags = tree.flags ++ restFlags ∧
      hashes = tree.hashes ++ restHashes := by
  induction height generalizing pos tree flags restFlags hashes restHashes with
  | zero =>
    cases flags with
    | nil => cases read
    | cons flag flags =>
      cases hashes with
      | nil => cases read
      | cons hash hashes =>
        cases read
        exact ⟨.leaf flag hash, rfl, rfl⟩
  | succ height ih =>
    cases flags with
    | nil => cases read
    | cons flag flags =>
      cases flag with
      | false =>
        cases hashes with
        | nil => cases read
        | cons hash hashes =>
          cases read
          exact ⟨.pruned hash, rfl, rfl⟩
      | true =>
        rw [PrunedTree.parse, bind_eq_some_iff] at read
        obtain ⟨⟨left, leftFlags, leftHashes⟩, readLeft, read⟩ := read
        obtain ⟨fitsLeft, rfl, rfl⟩ := ih readLeft
        split_ifs at read with inside
        · rw [map_eq_some_iff] at read
          obtain ⟨⟨right, rightFlags, rightHashes⟩, readRight, same⟩ := read
          obtain ⟨fitsRight, flagsRight, hashesRight⟩ := ih readRight
          dsimp only at flagsRight hashesRight
          cases same
          refine ⟨.fork inside fitsLeft fitsRight, ?_, ?_⟩
          · rw [flagsRight, PrunedTree.flags, cons_append, append_assoc]
          · rw [hashesRight, PrunedTree.hashes, append_assoc]
        · cases read
          exact ⟨.edge inside fitsLeft, rfl, rfl⟩

/-- The places of the kept leaves, read off the flags alone, and the flags left. -/
def readPlaces (count : Nat) : Nat → Nat → List Bool → List Nat × List Bool
  | _, _, [] => ([], [])
  | 0, pos, flag :: flags => (if flag then [pos] else [], flags)
  | _ + 1, _, false :: flags => ([], flags)
  | height + 1, pos, true :: flags =>
    let left := readPlaces count height (2 * pos) flags
    if 2 * pos + 1 < width count height then
      let right := readPlaces count height (2 * pos + 1) left.2
      (left.1 ++ right.1, right.2)
    else left

theorem Fits.readPlaces (fits : Fits count height pos tree) (more : List Bool) :
    PrunedTree.readPlaces count height pos (tree.flags ++ more) = (tree.places pos, more) := by
  induction fits generalizing more with
  | leaf kept hash => cases kept <;> rfl
  | pruned root => rfl
  | fork inside _ _ ihLeft ihRight =>
    rw [flags, cons_append, append_assoc, PrunedTree.readPlaces]
    simp only [ihLeft, ihRight, if_pos inside]
    rfl
  | edge outside _ ih =>
    rw [flags, cons_append, PrunedTree.readPlaces]
    simp only [ih, if_neg outside]
    rfl

theorem length_hashes_le (tree : PrunedTree Hash) : tree.hashes.length ≤ tree.flags.length := by
  induction tree with
  | leaf kept hash => exact le_rfl
  | pruned root => exact le_rfl
  | fork left right ihLeft ihRight =>
    simp only [hashes, flags, length_append, length_cons]
    omega
  | edge only ih =>
    simp only [hashes, flags, length_cons]
    omega

theorem Fits.length_hashes (fits : Fits count height pos tree)
    (inside : pos < width count height) :
    tree.hashes.length + pos * 2 ^ height ≤ count ∧ tree.hashes.length ≤ 2 ^ height := by
  induction fits with
  | leaf kept hash =>
    rw [width_zero] at inside
    simp only [hashes, length_singleton, pow_zero]
    omega
  | @pruned height pos root =>
    rw [lt_width_iff] at inside
    have positive := Nat.two_pow_pos (height + 1)
    simp only [hashes, length_singleton]
    omega
  | @fork height pos left right here _ _ ihLeft ihRight =>
    have lefts := ihLeft (by omega)
    have rights := ihRight here
    have split : (2 * pos + 1) * 2 ^ height = pos * 2 ^ (height + 1) + 2 ^ height := by ring
    simp only [hashes, length_append]
    rw [Nat.pow_succ] at split ⊢
    omega
  | @edge height pos only outside _ ih =>
    rw [width_succ] at inside
    have onlys := ih (by omega)
    have split : 2 * pos * 2 ^ height = pos * 2 ^ (height + 1) := by ring
    simp only [hashes]
    rw [Nat.pow_succ] at split ⊢
    omega

theorem Fits.length_flags (fits : Fits count height pos tree) :
    tree.flags.length < 2 ^ (height + 1) := by
  induction fits with
  | leaf kept hash => simp [flags]
  | @pruned height pos root =>
    have positive := Nat.two_pow_pos height
    simp only [flags, length_singleton, Nat.pow_succ]
    omega
  | fork _ _ _ ihLeft ihRight =>
    simp only [flags, length_cons, length_append, Nat.pow_succ] at ihLeft ihRight ⊢
    omega
  | edge _ _ ih =>
    simp only [flags, length_cons, Nat.pow_succ] at ih ⊢
    omega

end Reading

/-! ## The leaves a root commits to -/

/-- The node of a tree of `count` leaves that stands at a position `depth` rows below the root: a
place past the right edge holds a copy of the last node. -/
def standIn (count : Nat) : Nat → Nat → Nat → Nat
  | 0, _, pos => pos
  | depth + 1, height, pos =>
    min (2 * standIn count depth (height + 1) (pos / 2) + pos % 2) (width count height - 1)

section Commitment

variable {combine : Hash → Hash → Hash} {leaves : List Hash} {blank : Hash}

variable {count height : Nat}

theorem standIn_left {depth pos : Nat}
    (inside : standIn count depth (height + 1) pos < width count (height + 1)) :
    standIn count (depth + 1) height (2 * pos) = 2 * standIn count depth (height + 1) pos := by
  have up : 2 * pos / 2 = pos := by omega
  have side : 2 * pos % 2 = 0 := by omega
  rw [width_succ] at inside
  rw [standIn, up, side]
  omega

theorem standIn_right (count depth height pos : Nat) :
    standIn count (depth + 1) height (2 * pos + 1) =
      min (2 * standIn count depth (height + 1) pos + 1) (width count height - 1) := by
  have up : (2 * pos + 1) / 2 = pos := by omega
  have side : (2 * pos + 1) % 2 = 1 := by omega
  rw [standIn, up, side]

theorem standIn_child_lt (some : 0 < count) (depth height pos : Nat) :
    standIn count (depth + 1) height pos < width count height := by
  have positive := width_pos some height
  rw [standIn]
  omega

theorem pos_of_clog_pos (high : 0 < Nat.clog 2 count) : 0 < count := by
  by_contra none
  obtain rfl : count = 0 := by omega
  simp at high

theorem children_eq_of_root_eq {pos : Nat} {pair : Hash × Hash} {pairs : List (Hash × Hash)}
    (free : CollisionFree combine (inputs combine leaves ++ pair :: pairs))
    (below : height < Nat.clog 2 leaves.length) (inside : pos < width leaves.length (height + 1))
    (root : combine pair.1 pair.2 = (row combine leaves (height + 1)).getD pos blank) :
    pair = ((row combine leaves height).getD (2 * pos) blank,
      (row combine leaves height).getD (min (2 * pos + 1) (width leaves.length height - 1))
        blank) := by
  have first : 2 * pos < (row combine leaves height).length := by
    rw [width_succ] at inside
    rw [length_row]
    omega
  have hashed := mem_of_getElem? (getElem?_pairs blank first)
  rw [length_row] at hashed
  rw [getD_row_succ combine leaves blank inside] at root
  exact free pair (mem_append_right _ mem_cons_self) _
    (mem_append_left _ (mem_inputs combine below hashed)) root

/-- A pruned tree with the root of a node keeps the leaves that its places stand for. -/
theorem Fits.kept_eq {count height pos depth : Nat} {tree : PrunedTree Hash}
    (fits : Fits count height pos tree)
    (top : depth + height = Nat.clog 2 leaves.length)
    (free : CollisionFree combine (inputs combine leaves ++ tree.hashed combine))
    (inside : standIn leaves.length depth height pos < width leaves.length height)
    (root : tree.root combine =
      (row combine leaves height).getD (standIn leaves.length depth height pos) blank) :
    tree.kept = (tree.places pos).map (fun place =>
        leaves.getD (standIn leaves.length (Nat.clog 2 leaves.length) 0 place) blank) ∧
      ∀ place ∈ tree.places pos,
        standIn leaves.length (Nat.clog 2 leaves.length) 0 place < leaves.length := by
  induction fits generalizing depth with
  | leaf kept hash =>
    rw [Nat.add_zero] at top
    subst top
    rw [width_zero] at inside
    cases kept with
    | false => simp [PrunedTree.kept, places]
    | true => simpa [PrunedTree.kept, places, inside, PrunedTree.root, row] using root
  | pruned root => simp [PrunedTree.kept, places]
  | @fork height pos left right _ _ _ ihLeft ihRight =>
    have some : 0 < leaves.length := pos_of_clog_pos (by omega)
    rw [PrunedTree.hashed] at free
    have children := children_eq_of_root_eq free (by omega) inside root
    rw [Prod.mk.injEq] at children
    have keptLeft := @ihLeft (depth + 1) (by omega)
      (free.mono fun pair mem => by
        simp only [mem_append, mem_cons] at mem ⊢
        tauto) (standIn_child_lt some _ _ _) (by rw [standIn_left inside]; exact children.1)
    have keptRight := @ihRight (depth + 1) (by omega)
      (free.mono fun pair mem => by
        simp only [mem_append, mem_cons] at mem ⊢
        tauto) (standIn_child_lt some _ _ _) (by rw [standIn_right]; exact children.2)
    refine ⟨?_, ?_⟩
    · rw [PrunedTree.kept, places, map_append, keptLeft.1, keptRight.1]
    · intro place mem
      rcases mem_append.mp mem with mem | mem
      · exact keptLeft.2 place mem
      · exact keptRight.2 place mem
  | @edge height pos only _ _ ih =>
    have some : 0 < leaves.length := pos_of_clog_pos (by omega)
    rw [PrunedTree.hashed] at free
    have children := children_eq_of_root_eq free (by omega) inside root
    rw [Prod.mk.injEq] at children
    exact @ih (depth + 1) (by omega)
      (free.mono fun pair mem => by
        simp only [mem_append, mem_cons] at mem ⊢
        tauto) (standIn_child_lt some _ _ _) (by rw [standIn_left inside]; exact children.1)

/-- Entries of a list without duplicates, taken by index, are a sublist exactly if the indices
grow. -/
theorem sublist_getD_iff {entries : List Hash} (single : entries.Nodup) {indices : List Nat}
    (inside : ∀ index ∈ indices, index < entries.length) :
    (indices.map fun index => entries.getD index blank).Sublist entries ↔
      indices.Pairwise (· < ·) := by
  constructor
  · intro taken
    obtain ⟨places, same, growing⟩ := sublist_eq_map_getElem taken
    have equal : indices = places.map Fin.val := by
      have images : (indices.map fun index => entries.getD index blank) =
          (places.map Fin.val).map fun index => entries.getD index blank := by
        rw [same, List.map_map]
        apply map_congr_left
        intro place _
        simp
      apply eq_of_map_eq _ images
      intro index mem other memOther equal
      obtain ⟨place, -, rfl⟩ := List.mem_map.mp memOther
      have here := inside index mem
      have there := place.isLt
      simp only [getD_eq_getElem?_getD, getElem?_eq_getElem here,
        getElem?_eq_getElem there, getD_some] at equal
      exact (List.Nodup.getElem_inj_iff single).mp equal
    rw [equal, pairwise_map]
    exact growing
  · intro growing
    have equal : (indices.map fun index => entries.getD index blank) =
        (indices.pmap Fin.mk inside).map fun place => entries[place] := by
      rw [List.map_pmap]
      apply ext_getElem (by simp)
      intro index here _
      simp at here
      simp [inside]
    rw [equal]
    apply map_getElem_sublist
    rw [pairwise_pmap]
    exact growing.imp fun less _ _ => less

theorem Fits.kept_sublist_iff {tree : PrunedTree Hash} (fits : Fits count height 0 tree)
    (top : height = Nat.clog 2 leaves.length) (some : leaves ≠ []) (single : leaves.Nodup)
    (free : CollisionFree combine (inputs combine leaves ++ tree.hashed combine))
    (root : row combine leaves height = [tree.root combine]) :
    tree.kept.Sublist leaves ↔
      ((tree.places 0).map (standIn leaves.length height 0)).Pairwise (· < ·) := by
  have inside : standIn leaves.length 0 height 0 < width leaves.length height :=
    width_pos (length_pos_iff.mpr some) height
  obtain ⟨kept, bounded⟩ := @Fits.kept_eq Hash combine leaves (tree.root combine) count height 0 0 tree fits
    (by rw [Nat.zero_add, top]) free inside (by rw [root]; rfl)
  have composed : tree.kept = ((tree.places 0).map (standIn leaves.length height 0)).map
      fun index => leaves.getD index (tree.root combine) := by
    rw [List.map_map, kept, ← top]
    rfl
  rw [composed]
  apply sublist_getD_iff single
  intro index mem
  obtain ⟨place, here, rfl⟩ := List.mem_map.mp mem
  rw [top]
  exact bounded place here

end Commitment

end PrunedTree
