import Mathlib.Algebra.Group.Nat.Defs
import Mathlib.Data.Nat.Log
import Mathlib.Data.List.Basic

/-!
# Hash trees with a copied right edge

The rows of a binary hash tree over a list of leaves: a row hashes the
neighbours of the row below in pairs, and a last node without a neighbour is
hashed with itself.  The copy makes lists of leaves with one root, and a row
that ends in two equal nodes is how such a list is told: two trees without such
a row that hash without a collision have one root only for one list of leaves.
-/

namespace HashTree

open List

variable {Hash : Type}

/-- The neighbours of a row that are hashed together. -/
def pairs : List Hash → List (Hash × Hash)
  | [] => []
  | [last] => [(last, last)]
  | left :: right :: rest => (left, right) :: pairs rest

/-- The row ends in two equal nodes that are hashed together. -/
def EndsTwice : List Hash → Prop
  | [] => False
  | [_] => False
  | [left, right] => left = right
  | _ :: _ :: rest => EndsTwice rest

theorem length_pairs (row : List Hash) : (pairs row).length = (row.length + 1) / 2 := by
  induction row using pairs.induct with
  | case1 => simp [pairs]
  | case2 last => simp [pairs]
  | case3 left right rest ih =>
    simp only [pairs, length_cons, ih]
    omega

theorem getElem?_pairs {row : List Hash} (blank : Hash) {index : Nat}
    (inside : 2 * index < row.length) :
    (pairs row)[index]? =
      some (row.getD (2 * index) blank, row.getD (min (2 * index + 1) (row.length - 1)) blank) := by
  induction row using pairs.induct generalizing index with
  | case1 => simp at inside
  | case2 last =>
    have first : index = 0 := by simp only [length_singleton] at inside; omega
    subst first
    rfl
  | case3 left right rest ih =>
    cases index with
    | zero => simp [pairs]
    | succ index =>
      have below : 2 * index < rest.length := by
        simp only [length_cons] at inside
        omega
      have shifted : min (2 * index + 2 + 1) (rest.length + 1 + 1 - 1) =
          min (2 * index + 1) (rest.length - 1) + 2 := by
        omega
      simp only [pairs, getElem?_cons_succ, ih below, length_cons,
        Nat.mul_succ, shifted, getD_cons_succ]

theorem endsTwice_iff {row : List Hash} (blank : Hash) :
    EndsTwice row ↔ ∃ index, 2 * index + 2 = row.length ∧
      row.getD (2 * index) blank = row.getD (2 * index + 1) blank := by
  induction row using EndsTwice.induct with
  | case1 => simp [EndsTwice]
  | case2 last => simp [EndsTwice]
  | case3 left right =>
    simp only [EndsTwice, length_cons, length_nil]
    constructor
    · intro same
      exact ⟨0, rfl, by simpa using same⟩
    · rintro ⟨index, size, same⟩
      obtain rfl : index = 0 := by omega
      simpa using same
  | case4 left right rest more ih =>
    have rest_ne : rest ≠ [] := more
    rw [EndsTwice, ih]
    · constructor
      · rintro ⟨index, size, same⟩
        refine ⟨index + 1, by simp only [length_cons]; omega, ?_⟩
        simpa only [Nat.mul_succ, getD_cons_succ] using same
      · rintro ⟨index, size, same⟩
        simp only [length_cons] at size
        cases index with
        | zero => exact absurd (length_eq_zero_iff.mp (by omega)) rest_ne
        | succ index =>
          refine ⟨index, by omega, ?_⟩
          simpa only [Nat.mul_succ, getD_cons_succ] using same
    · exact rest_ne

/-- Rows that do not end twice are determined by the pairs they are hashed in. -/
theorem eq_of_pairs_eq {row other : List Hash} (clean : ¬ EndsTwice row)
    (cleanOther : ¬ EndsTwice other) (same : pairs row = pairs other) : row = other := by
  induction row using EndsTwice.induct generalizing other with
  | case1 =>
    cases other using EndsTwice.induct with
    | case1 => rfl
    | _ => simp [pairs] at same
  | case2 last =>
    cases other using EndsTwice.induct with
    | case1 => simp [pairs] at same
    | case2 otherLast => simpa [pairs] using same
    | case3 left right =>
      simp only [pairs, List.cons.injEq, Prod.mk.injEq] at same
      exact absurd (same.1.1.symm.trans same.1.2) cleanOther
    | case4 left right rest more =>
      obtain ⟨first, tail, rfl⟩ := exists_cons_of_ne_nil more
      cases tail <;> simp [pairs] at same
  | case3 left right =>
    cases other using EndsTwice.induct with
    | case1 => simp [pairs] at same
    | case2 last =>
      simp only [pairs, List.cons.injEq, Prod.mk.injEq] at same
      exact absurd (same.1.1.trans same.1.2.symm) clean
    | case3 otherLeft otherRight => simpa [pairs] using same
    | case4 otherLeft otherRight rest more =>
      obtain ⟨first, tail, rfl⟩ := exists_cons_of_ne_nil more
      cases tail <;> simp [pairs] at same
  | case4 left right rest more ih =>
    rw [EndsTwice] at clean
    · cases other using EndsTwice.induct with
      | case1 => simp [pairs] at same
      | case2 last =>
        obtain ⟨first, tail, rfl⟩ := exists_cons_of_ne_nil more
        cases tail <;> simp [pairs] at same
      | case3 otherLeft otherRight =>
        obtain ⟨first, tail, rfl⟩ := exists_cons_of_ne_nil more
        cases tail <;> simp [pairs] at same
      | case4 otherLeft otherRight otherRest otherMore =>
        rw [EndsTwice] at cleanOther
        · simp only [pairs, List.cons.injEq, Prod.mk.injEq] at same
          rw [same.1.1, same.1.2, ih clean cleanOther same.2]
        · exact otherMore
    · exact more

theorem eq_of_map_eq {Entry Image : Type} {image : Entry → Image} {entries others : List Entry}
    (apart : ∀ entry ∈ entries, ∀ other ∈ others, image entry = image other → entry = other)
    (same : entries.map image = others.map image) : entries = others := by
  induction entries generalizing others with
  | nil => exact (map_eq_nil_iff.mp same.symm).symm
  | cons entry rest ih =>
    cases others with
    | nil => simp at same
    | cons other tail =>
      simp only [map_cons, List.cons.injEq] at same
      rw [apart entry (by simp) other (by simp) same.1,
        ih (fun entry mem other memOther => apart entry (by simp [mem]) other (by simp [memOther]))
          same.2]

variable (combine : Hash → Hash → Hash)

/-- The row above a row. -/
def up (row : List Hash) : List Hash := (pairs row).map fun pair => combine pair.1 pair.2

def row (leaves : List Hash) : Nat → List Hash
  | 0 => leaves
  | height + 1 => up combine (row leaves height)

/-- The number of nodes at a height over some leaves. -/
def width (count height : Nat) : Nat := (count + 2 ^ height - 1) / 2 ^ height

/-- The pairs hashed in a tree. -/
def inputs (leaves : List Hash) : List (Hash × Hash) :=
  (List.range (Nat.clog 2 leaves.length)).flatMap fun height => pairs (row combine leaves height)

/-- No two of some pairs have the same hash. -/
def CollisionFree (hashed : List (Hash × Hash)) : Prop :=
  ∀ pair ∈ hashed, ∀ other ∈ hashed, combine pair.1 pair.2 = combine other.1 other.2 → pair = other

instance [DecidableEq Hash] (hashed : List (Hash × Hash)) :
    Decidable (CollisionFree combine hashed) :=
  inferInstanceAs (Decidable (∀ pair ∈ hashed, ∀ other ∈ hashed,
    combine pair.1 pair.2 = combine other.1 other.2 → pair = other))

/-- No row of the tree ends in two equal nodes that are hashed together. -/
def Clean (leaves : List Hash) : Prop :=
  ∀ height < Nat.clog 2 leaves.length, ¬ EndsTwice (row combine leaves height)

section

variable (leaves : List Hash) (count height pos : Nat)

@[simp]
theorem width_zero : width count 0 = count := by simp [width]

theorem width_succ :
    width count (height + 1) = (width count height + 1) / 2 := by
  have positive : 0 < 2 ^ height := Nat.two_pow_pos height
  have carried : (count + 2 ^ height - 1) / 2 ^ height + 1 =
      (count + 2 ^ height * 2 - 1) / 2 ^ height := by
    rw [← Nat.add_div_right _ positive]
    congr 1
    omega
  unfold width
  rw [carried, Nat.div_div_eq_div_mul, Nat.pow_succ]

theorem width_le_one_iff :
    width count height ≤ 1 ↔ Nat.clog 2 count ≤ height := by
  have positive : 0 < 2 ^ height := Nat.two_pow_pos height
  rw [Nat.clog_le_iff_le_pow (by decide), width, Nat.div_le_iff_le_mul_add_pred positive]
  omega

theorem lt_width_iff :
    pos < width count height ↔ pos * 2 ^ height < count := by
  have positive : 0 < 2 ^ height := Nat.two_pow_pos height
  rw [width, Nat.lt_div_iff_mul_lt positive]
  omega

theorem width_pos {count : Nat} (some : 0 < count) (height : Nat) : 0 < width count height :=
  Nat.div_pos (by omega) (Nat.two_pow_pos height)

theorem width_clog {count : Nat} (some : 0 < count) : width count (Nat.clog 2 count) = 1 :=
  Nat.le_antisymm ((width_le_one_iff count _).mpr le_rfl) (width_pos some _)

theorem length_row :
    (row combine leaves height).length = width leaves.length height := by
  induction height with
  | zero => simp [row]
  | succ height ih => rw [row, up, length_map, length_pairs, ih, width_succ]

theorem getD_row_succ (blank : Hash) {height index : Nat}
    (inside : index < width leaves.length (height + 1)) :
    (row combine leaves (height + 1)).getD index blank =
      combine ((row combine leaves height).getD (2 * index) blank)
        ((row combine leaves height).getD
          (min (2 * index + 1) (width leaves.length height - 1)) blank) := by
  have below : 2 * index < (row combine leaves height).length := by
    rw [length_row]
    rw [width_succ] at inside
    omega
  rw [row, up, getD_eq_getElem?_getD, getElem?_map, getElem?_pairs blank below,
    length_row]
  rfl

theorem mem_inputs {leaves : List Hash} {height : Nat} (below : height < Nat.clog 2 leaves.length)
    {pair : Hash × Hash} (hashed : pair ∈ pairs (row combine leaves height)) :
    pair ∈ inputs combine leaves :=
  mem_flatMap.mpr ⟨height, mem_range.mpr below, hashed⟩

end

variable {combine}

theorem CollisionFree.mono {hashed more : List (Hash × Hash)} (free : CollisionFree combine more)
    (fewer : ∀ pair ∈ hashed, pair ∈ more) : CollisionFree combine hashed :=
  fun pair mem other memOther same => free pair (fewer pair mem) other (fewer other memOther) same

theorem CollisionFree.eq_of_map_eq {hashed others : List (Hash × Hash)}
    (free : CollisionFree combine (hashed ++ others))
    (same : (hashed.map fun pair => combine pair.1 pair.2) =
      others.map fun pair => combine pair.1 pair.2) : hashed = others :=
  HashTree.eq_of_map_eq
    (fun pair mem other memOther => free pair (mem_append_left _ mem) other
      (mem_append_right _ memOther)) same

section Commitment

variable {leaves others : List Hash}

section

variable (free : CollisionFree combine (inputs combine leaves ++ inputs combine others))
  (clean : Clean combine leaves) (cleanOthers : Clean combine others)

include free clean cleanOthers

/-- Two clean trees with one root agree row by row, counted from the root. -/
theorem row_eq_of_root_eq (root : row combine leaves (Nat.clog 2 leaves.length) =
      row combine others (Nat.clog 2 others.length))
    (depth : Nat) (high : depth ≤ Nat.clog 2 leaves.length)
    (highOthers : depth ≤ Nat.clog 2 others.length) :
    row combine leaves (Nat.clog 2 leaves.length - depth) =
      row combine others (Nat.clog 2 others.length - depth) := by
  induction depth with
  | zero => exact root
  | succ depth ih =>
    have above := ih (by omega) (by omega)
    generalize below : Nat.clog 2 leaves.length - (depth + 1) = height
    generalize belowOthers : Nat.clog 2 others.length - (depth + 1) = heightOthers
    rw [show Nat.clog 2 leaves.length - depth = height + 1 by omega,
      show Nat.clog 2 others.length - depth = heightOthers + 1 by omega, row, row] at above
    apply eq_of_pairs_eq (clean height (by omega)) (cleanOthers heightOthers (by omega))
    apply CollisionFree.eq_of_map_eq _ above
    apply free.mono
    intro pair mem
    rcases mem_append.mp mem with mem | mem
    · exact mem_append_left _ (mem_inputs combine (by omega) mem)
    · exact mem_append_right _ (mem_inputs combine (by omega) mem)

theorem leaves_eq_of_root_eq (height : Nat.clog 2 leaves.length = Nat.clog 2 others.length)
    (root : row combine leaves (Nat.clog 2 leaves.length) =
      row combine others (Nat.clog 2 others.length)) : leaves = others := by
  have bottom := row_eq_of_root_eq free clean cleanOthers root (Nat.clog 2 leaves.length) le_rfl
    height.le
  rwa [← height, Nat.sub_self] at bottom

theorem height_le_of_root_eq (some : leaves ≠ [])
    (fresh : ∀ pair ∈ inputs combine others, combine pair.1 pair.2 ∉ leaves)
    (root : row combine leaves (Nat.clog 2 leaves.length) =
      row combine others (Nat.clog 2 others.length)) :
    Nat.clog 2 others.length ≤ Nat.clog 2 leaves.length := by
  by_contra higher
  have bottom := row_eq_of_root_eq free clean cleanOthers root (Nat.clog 2 leaves.length) le_rfl
    (by omega)
  generalize rest : Nat.clog 2 others.length - Nat.clog 2 leaves.length = height at bottom
  obtain ⟨below, rfl⟩ : ∃ below, height = below + 1 := ⟨height - 1, by omega⟩
  rw [Nat.sub_self, row, row, up] at bottom
  obtain ⟨leaf, mem⟩ := exists_mem_of_ne_nil leaves some
  have hashed := mem
  rw [bottom] at hashed
  obtain ⟨pair, paired, rfl⟩ := mem_map.mp hashed
  exact fresh pair (mem_inputs combine (by omega) paired) mem

end

end Commitment

end HashTree
