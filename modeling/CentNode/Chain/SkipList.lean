import CentNode.Chain.ReachableIndex

/-!
# The skip list of ancestors

An entry is linked under its parent and `BuildSkip` then looks up, with the skip
pointers built so far, the ancestor that its own pointer jumps to.
-/

namespace CentNode

open Function Prod List

namespace BlockTree

def buildSkip (tree : BlockTree) (pindex : BlockPtr) : BlockTree :=
  match tree.pprev pindex with
  | none => tree
  | some parent =>
    { tree with
      pskip := Function.update tree.pskip pindex
        (tree.getAncestor parent (getSkipHeight (tree.nHeight pindex))) }

/-- A new entry under its parent; its skip pointer is still NULL. -/
def placeEntry (tree : BlockTree) (pindexNew : BlockPtr) (pprev : Option BlockPtr) : BlockTree :=
  { tree with
    pprev := Function.update tree.pprev pindexNew pprev
    pskip := Function.update tree.pskip pindexNew none
    nHeight := Function.update tree.nHeight pindexNew
      ((pprev.map fun parent => tree.nHeight parent + 1).getD 0) }

def linkBlock (tree : BlockTree) (pindexNew : BlockPtr) (pprev : Option BlockPtr) : BlockTree :=
  (tree.placeEntry pindexNew pprev).buildSkip pindexNew

/-- The entries are linked one after the other. -/
def linkBlocks (tree : BlockTree) (links : List (BlockPtr × Option BlockPtr)) : BlockTree :=
  links.foldl (fun tree link => tree.linkBlock link.1 link.2) tree

/-- Every entry comes at an address of its own, after its parent. -/
def ParentFirst (linked : List BlockPtr) : List (BlockPtr × Option BlockPtr) → Prop
  | [] => True
  | (pindexNew, pprev) :: rest =>
    (pindexNew ∉ linked ∧ ∀ parent ∈ pprev, parent ∈ linked) ∧
      ParentFirst (pindexNew :: linked) rest

instance : (linked : List BlockPtr) → (links : List (BlockPtr × Option BlockPtr)) →
    Decidable (ParentFirst linked links)
  | _, [] => isTrue True.intro
  | linked, (pindexNew, pprev) :: rest =>
    have : Decidable (ParentFirst (pindexNew :: linked) rest) :=
      instDecidableParentFirst (pindexNew :: linked) rest
    inferInstanceAs (Decidable ((pindexNew ∉ linked ∧ ∀ parent ∈ pprev, parent ∈ linked) ∧ _))

variable {tree : BlockTree}

theorem placeEntry_old (tree : BlockTree) (pprev : Option BlockPtr) {pindexNew other : BlockPtr}
    (differ : other ≠ pindexNew) :
    (tree.placeEntry pindexNew pprev).pprev other = tree.pprev other ∧
      (tree.placeEntry pindexNew pprev).pskip other = tree.pskip other ∧
      (tree.placeEntry pindexNew pprev).nHeight other = tree.nHeight other :=
  ⟨update_of_ne differ _ _, update_of_ne differ _ _,
    update_of_ne differ _ _⟩

theorem placeEntry_new (tree : BlockTree) (pindexNew : BlockPtr) (pprev : Option BlockPtr) :
    (tree.placeEntry pindexNew pprev).pprev pindexNew = pprev ∧
      (tree.placeEntry pindexNew pprev).pskip pindexNew = none ∧
      (tree.placeEntry pindexNew pprev).nHeight pindexNew =
        (pprev.map fun parent => tree.nHeight parent + 1).getD 0 :=
  ⟨update_self _ _ _, update_self _ _ _, update_self _ _ _⟩

/-- What `BuildSkip` leaves in the skip pointer of the entry. -/
theorem buildSkip_pskip (tree : BlockTree) (pindex : BlockPtr) :
    (tree.buildSkip pindex).pskip pindex =
      match tree.pprev pindex with
      | none => tree.pskip pindex
      | some parent => tree.getAncestor parent (getSkipHeight (tree.nHeight pindex)) := by
  unfold buildSkip
  cases tree.pprev pindex with
  | none => rfl
  | some parent => exact update_self pindex _ tree.pskip

/-- `BuildSkip` changes nothing but that skip pointer. -/
theorem buildSkip_frame (tree : BlockTree) (pindex : BlockPtr) :
    (tree.buildSkip pindex).pprev = tree.pprev ∧ (tree.buildSkip pindex).nHeight = tree.nHeight ∧
      ∀ other, other ≠ pindex → (tree.buildSkip pindex).pskip other = tree.pskip other := by
  unfold buildSkip
  cases tree.pprev pindex with
  | none => exact ⟨rfl, rfl, fun other _ => rfl⟩
  | some parent => exact ⟨rfl, rfl, fun other differ => update_of_ne differ _ _⟩

namespace SkipLinked

variable {linked : BlockPtr → Prop}

/-- `BuildSkip` on an entry that is not linked yet, under a linked parent. -/
theorem buildSkip (links : tree.SkipLinked linked) {pindexNew : BlockPtr}
    (unused : ¬linked pindexNew) (root : tree.pprev pindexNew = none → tree.nHeight pindexNew = 0)
    (edge : ∀ {parent}, tree.pprev pindexNew = some parent →
      linked parent ∧ tree.nHeight pindexNew = tree.nHeight parent + 1) :
    (tree.buildSkip pindexNew).SkipLinked fun pindex => pindex = pindexNew ∨ linked pindex := by
  obtain ⟨pprev, nHeight, pskip⟩ := buildSkip_frame tree pindexNew
  have kept : (tree.buildSkip pindexNew).SkipLinked linked := by
    refine links.congr (fun _ _ => by rw [pprev]) (fun pindex here => pskip pindex ?_)
      fun _ _ => by rw [nHeight]
    rintro rfl
    exact unused here
  apply kept.insert
  · rw [pprev, nHeight]
    exact root
  · intro parent up
    rw [pprev] at up
    obtain ⟨parentHere, grows⟩ := edge up
    have shorter : getSkipHeight (tree.nHeight pindexNew) < tree.nHeight pindexNew :=
      getSkipHeight_lt (by omega)
    have low : getSkipHeight (tree.nHeight pindexNew) ≤ tree.nHeight parent := by omega
    obtain ⟨elder, found, above, height⟩ := links.getAncestor_spec parentHere low
    refine ⟨parentHere, by rw [nHeight, grows], elder, ?_, ?_, by rw [nHeight, height]⟩
    · rw [buildSkip_pskip, up]
      exact found
    · unfold Below
      rw [pprev]
      exact above

theorem linkBlock (links : tree.SkipLinked linked) {pindexNew : BlockPtr}
    {pprev : Option BlockPtr} (unused : ¬linked pindexNew)
    (older : ∀ parent ∈ pprev, linked parent) :
    (tree.linkBlock pindexNew pprev).SkipLinked
      fun pindex => pindex = pindexNew ∨ linked pindex := by
  have differ : ∀ pindex, linked pindex → pindex ≠ pindexNew := by
    rintro pindex here rfl
    exact unused here
  have placed := links.congr
    (fun pindex here => (placeEntry_old tree pprev (differ pindex here)).1)
    (fun pindex here => (placeEntry_old tree pprev (differ pindex here)).2.1)
    (fun pindex here => (placeEntry_old tree pprev (differ pindex here)).2.2)
  obtain ⟨parentNew, _, heightNew⟩ := placeEntry_new tree pindexNew pprev
  apply placed.buildSkip unused
  · intro root
    rw [heightNew, parentNew.symm.trans root]
    rfl
  · intro parent up
    have under := parentNew.symm.trans up
    have parentHere := older parent under
    refine ⟨parentHere, ?_⟩
    rw [heightNew, under, (placeEntry_old tree _ (differ parent parentHere)).2.2]
    rfl

theorem linkBlocks {held : List BlockPtr} {links : List (BlockPtr × Option BlockPtr)}
    (before : tree.SkipLinked (· ∈ held)) (first : ParentFirst held links) :
    (tree.linkBlocks links).SkipLinked
      fun pindex => pindex ∈ held ∨ pindex ∈ links.map Prod.fst := by
  induction links generalizing tree held with
  | nil => simpa [BlockTree.linkBlocks] using before
  | cons link rest ih =>
    obtain ⟨⟨unused, older⟩, later⟩ := first
    have next := before.linkBlock unused older
    have known : (fun pindex => pindex = link.1 ∨ pindex ∈ held) = (· ∈ link.1 :: held) := by
      funext pindex
      exact propext mem_cons.symm
    rw [known] at next
    have final := ih next later
    have same : (fun pindex => pindex ∈ link.1 :: held ∨ pindex ∈ rest.map fst) =
        fun pindex => pindex ∈ held ∨ pindex ∈ (link :: rest).map fst := by
      funext pindex
      simp only [map_cons, mem_cons]
      exact propext (by rw [or_assoc, or_left_comm])
    rwa [same] at final

end SkipLinked

/-- A root keeps no skip pointer. -/
theorem linkBlocks_root {held : List BlockPtr} {links : List (BlockPtr × Option BlockPtr)}
    (before : ∀ pindex ∈ held, tree.pprev pindex = none → tree.pskip pindex = none)
    (first : ParentFirst held links) {pindex : BlockPtr}
    (linked : pindex ∈ held ∨ pindex ∈ links.map Prod.fst)
    (root : (tree.linkBlocks links).pprev pindex = none) :
    (tree.linkBlocks links).pskip pindex = none := by
  induction links generalizing tree held with
  | nil => exact before pindex (by simpa using linked) root
  | cons link rest ih =>
    obtain ⟨⟨unused, _⟩, later⟩ := first
    refine ih ?_ later (by simpa [or_assoc, or_left_comm] using linked) root
    intro other member top
    obtain ⟨pprev, _, pskip⟩ := buildSkip_frame (tree.placeEntry link.1 link.2) link.1
    have topPlaced : (tree.placeEntry link.1 link.2).pprev other = none := by
      rw [← pprev]
      exact top
    by_cases new : other = link.1
    · subst new
      unfold linkBlock
      rw [buildSkip_pskip, topPlaced]
      exact (placeEntry_new tree link.1 link.2).2.1
    · obtain ⟨sameParent, sameSkip, _⟩ := placeEntry_old tree link.2 new
      have earlier : other ∈ held := by simpa [new] using member
      unfold linkBlock
      rw [pskip other new, sameSkip]
      exact before other earlier (sameParent.symm.trans topPlaced)

/-- The lookup through the skip pointers against the walk over `pprev`: for
every height the loop ends, on the entry of that height above the one it started from. -/
theorem SkipLinked.getAncestor_eq {linked : BlockPtr → Prop} (links : tree.SkipLinked linked)
    {pindex : BlockPtr} (here : linked pindex) (height : Int) :
    tree.getAncestor pindex height =
      if height < 0 ∨ (tree.nHeight pindex : Int) < height then none
      else Forest.ascend tree.pprev (tree.nHeight pindex - height.toNat) pindex := by
  by_cases outside : height < 0 ∨ (tree.nHeight pindex : Int) < height
  · rw [if_pos outside, getAncestor, if_pos outside.symm]
  · rw [if_neg outside]
    obtain ⟨target, rfl⟩ := Int.eq_ofNat_of_zero_le (show 0 ≤ height by omega)
    obtain ⟨elder, found, above, same⟩ :=
      links.getAncestor_spec here (show target ≤ tree.nHeight pindex by omega)
    rw [found, eq_comm, links.ranked.ascend_eq_some_iff here]
    refine ⟨above, ?_⟩
    simp only [Int.toNat_natCast]
    omega

/-- Whatever entries are linked parent first, `GetAncestor` is the plain walk
and every skip pointer leads to a strict ancestor. -/
theorem getAncestor_linkBlocks (tree : BlockTree) {links : List (BlockPtr × Option BlockPtr)}
    (first : ParentFirst [] links) {pindex : BlockPtr} (linked : pindex ∈ links.map Prod.fst) :
    (∀ height : Int,
      (tree.linkBlocks links).getAncestor pindex height =
        if height < 0 ∨ ((tree.linkBlocks links).nHeight pindex : Int) < height then none
        else Forest.ascend (tree.linkBlocks links).pprev
          ((tree.linkBlocks links).nHeight pindex - height.toNat) pindex) ∧
    (∀ height ≤ (tree.linkBlocks links).nHeight pindex,
      ∃ elder, (tree.linkBlocks links).nHeight elder = height ∧
        ∀ fuel, (tree.linkBlocks links).nHeight pindex ≤ fuel →
          (tree.linkBlocks links).walkBack height fuel (some pindex)
            ((tree.linkBlocks links).nHeight pindex) = some elder) ∧
    ∀ elder, (tree.linkBlocks links).pskip pindex = some elder →
      (tree.linkBlocks links).Below pindex elder ∧
        (tree.linkBlocks links).nHeight elder < (tree.linkBlocks links).nHeight pindex := by
  have empty : tree.SkipLinked (· ∈ ([] : List BlockPtr)) := by
    refine ⟨⟨?_, ?_, ?_⟩, ?_⟩ <;> simp
  have grown := empty.linkBlocks first
  have here : pindex ∈ ([] : List BlockPtr) ∨ pindex ∈ links.map fst := .inr linked
  refine ⟨grown.getAncestor_eq here, fun height low => ?_, fun elder pointer => ?_⟩
  · obtain ⟨elder, _, above, found⟩ := grown.walkBack_spec here low (Nat.le_refl _)
    refine ⟨elder, found, fun fuel enough => ?_⟩
    obtain ⟨other, walked, aboveToo, foundToo⟩ := grown.walkBack_spec here low enough
    rw [walked, grown.ranked.eq_of_rank_eq here aboveToo above (foundToo.trans found.symm)]
  · cases edge : (tree.linkBlocks links).pprev pindex with
    | none =>
      have nothing : ∀ pindex ∈ ([] : List BlockPtr),
          tree.pprev pindex = none → tree.pskip pindex = none := by simp
      rw [linkBlocks_root nothing first here edge] at pointer
      cases pointer
    | some parent =>
      obtain ⟨skipped, pointerToo, above, height⟩ := grown.skip here edge
      cases pointer.symm.trans pointerToo
      have grows := grown.ranked.rank_parent here edge
      exact ⟨above, height ▸ getSkipHeight_lt (by omega)⟩

/-- The tree before any entry is linked. -/
def unlinked : BlockTree where
  mapBlockIndex := ∅
  phashBlock := fun _ => 0
  pprev := fun _ => none
  pskip := fun _ => none
  nHeight := fun _ => 0
  nChainWork := fun _ => 0

/-- On a chain of five entries with a fork over the second, the lookup from the last one
jumps over the fork. -/
theorem getAncestor_linkBlocks_fork :
    (unlinked.linkBlocks [(1, none), (2, some 1), (9, some 2), (3, some 2), (4, some 3),
      (5, some 4)]).getAncestor 5 1 = some 2 :=
  ((getAncestor_linkBlocks unlinked (by decide) (by decide)).1 1).trans (by decide)

end BlockTree

end CentNode
