import Mathlib.Data.List.Nodup

/-!
# Forests of parent pointers

A forest is given by the parent of each node.  `Below parent node elder` says
that `elder` is `node` or one of its ancestors, and `climb` lists a node and its
ancestors as a loop over the parent pointers meets them.  The nodes in use carry
a rank that grows by one from a parent to its child.
-/

namespace Forest

open List Option

variable {Node : Type} {parent : Node → Option Node} {known : Node → Prop} {rank : Node → Nat}

inductive Below (parent : Node → Option Node) : Node → Node → Prop where
  | refl (node : Node) : Below parent node node
  | step {node up elder : Node} (edge : parent node = some up) (above : Below parent up elder) :
      Below parent node elder

/-- At most `fuel` nodes of the way from `start` up to its root. -/
def climb (parent : Node → Option Node) : Nat → Option Node → List Node
  | 0, _ => []
  | _ + 1, none => []
  | fuel + 1, some node => node :: climb parent fuel (parent node)

/-- The node that `count` steps over the parents lead to. -/
def ascend (parent : Node → Option Node) : Nat → Node → Option Node
  | 0, node => some node
  | count + 1, node => (parent node).bind (ascend parent count)

/-- The nodes in use are closed under `parent`, and ranked by their depth. -/
structure Ranked (parent : Node → Option Node) (known : Node → Prop) (rank : Node → Nat) :
    Prop where
  parent_known : ∀ {node up}, known node → parent node = some up → known up
  rank_parent : ∀ {node up}, known node → parent node = some up → rank node = rank up + 1
  rank_root : ∀ {node}, known node → parent node = none → rank node = 0

namespace Below

variable {node elder : Node}

theorem trans {middle : Node} (lower : Below parent node middle)
    (upper : Below parent middle elder) : Below parent node elder := by
  induction lower with
  | refl => exact upper
  | step edge _ ih => exact .step edge (ih upper)

theorem parent_of {up : Node} (edge : parent node = some up) : Below parent node up :=
  .step edge (.refl up)

theorem of_root (root : parent node = none) (above : Below parent node elder) : elder = node := by
  cases above with
  | refl => rfl
  | step edge _ => rw [root] at edge; cases edge

theorem cases_parent (above : Below parent node elder) :
    elder = node ∨ ∃ up, parent node = some up ∧ Below parent up elder := by
  cases above with
  | refl => exact .inl rfl
  | step edge above => exact .inr ⟨_, edge, above⟩

theorem exists_child (above : Below parent node elder) (differ : node ≠ elder) :
    ∃ child, Below parent node child ∧ parent child = some elder := by
  induction above with
  | refl => exact absurd rfl differ
  | @step node up elder edge above ih =>
    by_cases last : up = elder
    · subst last
      exact ⟨node, .refl node, edge⟩
    · obtain ⟨child, low, childEdge⟩ := ih last
      exact ⟨child, .step edge low, childEdge⟩

theorem comparable {left right : Node} (first : Below parent node left)
    (second : Below parent node right) : Below parent left right ∨ Below parent right left := by
  induction first with
  | refl => exact .inl second
  | step edge above ih =>
    cases second with
    | refl => exact .inr (.step edge above)
    | step edgeToo aboveToo =>
      rw [edge] at edgeToo
      cases edgeToo
      exact ih aboveToo

theorem congr {other : Node → Option Node} (closed : ∀ {node up}, known node →
      parent node = some up → known up) (agree : ∀ node, known node → other node = parent node)
    (here : known node) (above : Below parent node elder) : Below other node elder := by
  induction above with
  | refl => exact .refl _
  | step edge _ ih => exact .step ((agree _ here).trans edge) (ih (closed here edge))

end Below

namespace Ranked

variable {node elder : Node}

section

variable (ranked : Ranked parent known rank)

include ranked

theorem known_of_below (here : known node)
    (above : Below parent node elder) : known elder := by
  induction above with
  | refl => exact here
  | step edge _ ih => exact ih (ranked.parent_known here edge)

theorem rank_le (here : known node)
    (above : Below parent node elder) : rank elder ≤ rank node := by
  induction above with
  | refl => exact Nat.le_refl _
  | step edge _ ih =>
    have grows := ranked.rank_parent here edge
    have below := ih (ranked.parent_known here edge)
    omega

theorem eq_of_rank_le (here : known node)
    (above : Below parent node elder) (same : rank node ≤ rank elder) : elder = node := by
  obtain rfl | ⟨up, edge, above⟩ := above.cases_parent
  · rfl
  · have grows := ranked.rank_parent here edge
    have below := ranked.rank_le (ranked.parent_known here edge) above
    omega

theorem eq_of_rank_eq {left right : Node} (here : known node)
    (first : Below parent node left) (second : Below parent node right)
    (same : rank left = rank right) : left = right := by
  obtain below | below := first.comparable second
  · exact (ranked.eq_of_rank_le (ranked.known_of_below here first) below (Nat.le_of_eq same)).symm
  · exact ranked.eq_of_rank_le (ranked.known_of_below here second) below (Nat.le_of_eq same.symm)

theorem below_of_rank_le {left right : Node}
    (here : known node) (first : Below parent node left) (second : Below parent node right)
    (order : rank left ≤ rank right) : Below parent right left := by
  obtain below | below := first.comparable second
  · have same : right = left := ranked.eq_of_rank_le (ranked.known_of_below here first) below order
    rw [same]
    exact .refl left
  · exact below

theorem exists_of_rank (here : known node) {height : Nat}
    (low : height ≤ rank node) : ∃ elder, Below parent node elder ∧ rank elder = height := by
  induction depth : rank node generalizing node with
  | zero => exact ⟨node, .refl node, by omega⟩
  | succ depth ih =>
    by_cases same : height = rank node
    · exact ⟨node, .refl node, same.symm⟩
    · cases edge : parent node with
      | none =>
        have root := ranked.rank_root here edge
        omega
      | some up =>
        have grows := ranked.rank_parent here edge
        obtain ⟨elder, above, found⟩ := ih (ranked.parent_known here edge) (by omega) (by omega)
        exact ⟨elder, .step edge above, found⟩

theorem ascend_eq_some_iff {count : Nat} (here : known node) :
    ascend parent count node = some elder ↔
      Below parent node elder ∧ rank elder + count = rank node := by
  induction count generalizing node with
  | zero =>
    constructor
    · intro same
      cases same
      exact ⟨.refl _, rfl⟩
    · rintro ⟨above, same⟩
      rw [ranked.eq_of_rank_le here above (Nat.le_of_eq same.symm)]
      rfl
  | succ count ih =>
    cases edge : parent node with
    | none =>
      have root := ranked.rank_root here edge
      simp only [ascend, edge, bind_none]
      constructor
      · intro absurdity
        cases absurdity
      · rintro ⟨_, grows⟩
        omega
    | some up =>
      have grows := ranked.rank_parent here edge
      simp only [ascend, edge, bind_some, ih (ranked.parent_known here edge)]
      constructor
      · rintro ⟨above, rest⟩
        exact ⟨.step edge above, by omega⟩
      · rintro ⟨above, rest⟩
        obtain rfl | ⟨other, edgeToo, above⟩ := above.cases_parent
        · omega
        · cases edge.symm.trans edgeToo
          exact ⟨above, by omega⟩

end

/-! ## Climbing with enough fuel -/

theorem mem_climb (ranked : Ranked parent known rank) (here : known node) {fuel : Nat}
    (enough : rank node < fuel) :
    elder ∈ climb parent fuel (some node) ↔ Below parent node elder := by
  induction fuel generalizing node with
  | zero => omega
  | succ fuel ih =>
    rw [climb, mem_cons]
    cases edge : parent node with
    | none =>
      have nothing : climb parent fuel none = [] := by cases fuel <;> rfl
      rw [nothing]
      constructor
      · rintro (rfl | absent)
        · exact .refl elder
        · cases absent
      · exact fun above => .inl (above.of_root edge)
    | some up =>
      have grows := ranked.rank_parent here edge
      rw [ih (ranked.parent_known here edge) (by omega)]
      constructor
      · rintro (rfl | above)
        · exact .refl elder
        · exact .step edge above
      · intro above
        obtain same | ⟨other, edgeToo, above⟩ := above.cases_parent
        · exact .inl same
        · rw [edge] at edgeToo
          cases edgeToo
          exact .inr above

theorem climb_congr (ranked : Ranked parent known rank) {other : Node → Option Node}
    (agree : ∀ node, known node → other node = parent node) (fuel : Nat) (here : known node) :
    climb other fuel (some node) = climb parent fuel (some node) := by
  induction fuel generalizing node with
  | zero => rfl
  | succ fuel ih =>
    rw [climb, climb, agree node here]
    cases edge : parent node with
    | none => cases fuel <;> rfl
    | some up => rw [ih (ranked.parent_known here edge)]

end Ranked

/-! ## Depth-first traversal -/

section Traversal

variable {Context : Type} {children : Node → List Node} {note : Context → Node → Context}

/-- The nodes under `node` in the order a depth-first search enters them, each
with its depth and what `note` has collected on the way down to it. -/
def traverse (children : Node → List Node) (note : Context → Node → Context) :
    Nat → Nat → Context → Node → List (Context × Nat × Node)
  | 0, _, _, _ => []
  | fuel + 1, depth, context, node =>
    (note context node, depth, node) ::
      (children node).flatMap (traverse children note fuel (depth + 1) (note context node))

variable {fuel depth : Nat} {context : Context} {node : Node}

theorem traverse_invariant {Invariant : Context → Nat → Node → Prop}
    (passes : ∀ context depth node child, Invariant context depth node →
      child ∈ children node → Invariant (note context node) (depth + 1) child)
    (holds : Invariant context depth node) {visit : Context × Nat × Node}
    (visited : visit ∈ traverse children note fuel depth context node) :
    ∃ before, visit.1 = note before visit.2.2 ∧ Invariant before visit.2.1 visit.2.2 := by
  induction fuel generalizing depth context node with
  | zero => cases visited
  | succ fuel ih =>
    rw [traverse, mem_cons, mem_flatMap] at visited
    obtain rfl | ⟨child, isChild, visited⟩ := visited
    · exact ⟨context, rfl, holds⟩
    · exact ih (passes context depth node child holds isChild) visited

section

variable (ranked : Ranked parent known rank)
  (isChild : ∀ {node child}, child ∈ children node ↔ known child ∧ parent child = some node)

include ranked isChild

/-- The traversal visits exactly the nodes in use under its start. -/
theorem mem_traverse {elder : Node} (here : known node)
    (bounded : ∀ {other}, known other → rank other < rank node + fuel) :
    elder ∈ (traverse children note fuel depth context node).map (·.2.2) ↔
      known elder ∧ Below parent elder node := by
  induction fuel generalizing depth context node with
  | zero => exact absurd (bounded here) (by omega)
  | succ fuel ih =>
    have under : ∀ child, child ∈ children node →
        (elder ∈ (traverse children note fuel (depth + 1) (note context node) child).map (·.2.2) ↔
          known elder ∧ Below parent elder child) := by
      intro child inside
      obtain ⟨childKnown, edge⟩ := isChild.mp inside
      refine ih childKnown (fun otherKnown => ?_)
      have limit := bounded otherKnown
      have grows := ranked.rank_parent childKnown edge
      omega
    rw [traverse, map_cons, mem_cons, map_flatMap, mem_flatMap]
    constructor
    · rintro (rfl | ⟨child, inside, visited⟩)
      · exact ⟨here, .refl _⟩
      · obtain ⟨overKnown, above⟩ := (under child inside).mp visited
        exact ⟨overKnown, above.trans (.parent_of (isChild.mp inside).2)⟩
    · rintro ⟨overKnown, above⟩
      by_cases same : elder = node
      · exact .inl same
      · obtain ⟨child, low, edge⟩ := above.exists_child same
        have childKnown := ranked.known_of_below overKnown low
        have inside := isChild.mpr ⟨childKnown, edge⟩
        exact .inr ⟨child, inside, (under child inside).mpr ⟨overKnown, low⟩⟩

/-- The traversal visits no node twice: the subtrees of two children of one
node have no node in common. -/
theorem nodup_traverse (distinct : ∀ node, (children node).Nodup) (here : known node)
    (bounded : ∀ {other}, known other → rank other < rank node + fuel) :
    ((traverse children note fuel depth context node).map (·.2.2)).Nodup := by
  induction fuel generalizing depth context node with
  | zero => exact nodup_nil
  | succ fuel ih =>
    have childBounded : ∀ {child}, child ∈ children node →
        ∀ {other}, known other → rank other < rank child + fuel := by
      intro child inside other otherKnown
      have limit := bounded otherKnown
      have grows := ranked.rank_parent (isChild.mp inside).1 (isChild.mp inside).2
      omega
    have visits : ∀ {child elder}, child ∈ children node →
        elder ∈ (traverse children note fuel (depth + 1) (note context node) child).map (·.2.2) →
        known elder ∧ Below parent elder child :=
      fun inside => (mem_traverse ranked isChild (isChild.mp inside).1 (childBounded inside)).mp
    rw [traverse, map_cons, nodup_cons, map_flatMap, nodup_flatMap]
    refine ⟨?_, fun child inside => ih (isChild.mp inside).1 (childBounded inside), ?_⟩
    · intro again
      obtain ⟨child, inside, visited⟩ := mem_flatMap.mp again
      have low := ranked.rank_le here (visits inside visited).2
      have grows := ranked.rank_parent (isChild.mp inside).1 (isChild.mp inside).2
      omega
    · refine (distinct node).imp_of_mem ?_
      intro left right leftInside rightInside differ elder inLeft inRight
      obtain ⟨overKnown, first⟩ := visits leftInside inLeft
      obtain ⟨_, second⟩ := visits rightInside inRight
      refine differ (ranked.eq_of_rank_eq overKnown first second ?_)
      have leftGrows := ranked.rank_parent (isChild.mp leftInside).1 (isChild.mp leftInside).2
      have rightGrows := ranked.rank_parent (isChild.mp rightInside).1 (isChild.mp rightInside).2
      omega

end

end Traversal

end Forest
