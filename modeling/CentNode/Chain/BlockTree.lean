import CentNode.Chain.BlockIndex
import CentNode.Library.Forest
import CentNode.Library.StdMap

/-!
# The tree of block index entries

`mapBlockIndex` owns the entries.  The fields below are set when `AddToBlockIndex`
creates an entry and stay as they are: its hash, its parent, the skip pointer
towards an older ancestor, the height and the work of the chain that ends in it.
-/

namespace CentNode

open Function AList List StdMap Option

/-! ## Work -/

/-- `uint256::SetCompact`: the target, and whether it is negative or too large. -/
def setCompact (nCompact : Nat) : Nat × Bool × Bool :=
  let nSize := nCompact >>> 24
  let nWord := nCompact &&& 0x007fffff
  let nWord := if nSize ≤ 3 then nWord >>> (8 * (3 - nSize)) else nWord
  let target := if nSize ≤ 3 then nWord else (nWord <<< (8 * (nSize - 3))) % 2 ^ 256
  (target, nWord ≠ 0 && nCompact &&& 0x00800000 ≠ 0,
    nWord ≠ 0 && (34 < nSize || (0xff < nWord && 33 < nSize) || (0xffff < nWord && 32 < nSize)))

def getBlockProof (nBits : Nat) : Nat :=
  let (bnTarget, fNegative, fOverflow) := setCompact nBits
  if fNegative || fOverflow || bnTarget = 0 then 0
  else ((2 ^ 256 - 1 - bnTarget) / (bnTarget + 1) + 1) % 2 ^ 256

/-! ## Skip pointers -/

/-- Turn the lowest one in the binary representation of a number into a zero. -/
def invertLowestOne (n : Nat) : Nat := n &&& (n - 1)

/-- The height that the skip pointer of an entry jumps back to. -/
def getSkipHeight (height : Nat) : Nat :=
  if height < 2 then 0
  else if height % 2 = 1 then invertLowestOne (invertLowestOne (height - 1)) + 1
  else invertLowestOne height

theorem invertLowestOne_le (n : Nat) : invertLowestOne n ≤ n - 1 := Nat.and_le_right

theorem getSkipHeight_lt {height : Nat} (positive : 0 < height) : getSkipHeight height < height := by
  have once := invertLowestOne_le (height - 1)
  have twice := invertLowestOne_le (invertLowestOne (height - 1))
  have direct := invertLowestOne_le height
  unfold getSkipHeight
  split
  · omega
  · split <;> omega

/-- The entries, by address. -/
structure BlockTree where
  mapBlockIndex : StdMap Uint256 BlockPtr
  phashBlock : BlockPtr → Uint256
  pprev : BlockPtr → Option BlockPtr
  pskip : BlockPtr → Option BlockPtr
  nHeight : BlockPtr → Nat
  nChainWork : BlockPtr → Nat

namespace BlockTree

/-- The entries in the order the map is iterated. -/
def entries (tree : BlockTree) : List BlockPtr := tree.mapBlockIndex.entries.map (·.2)

/-- The map holds the entry. -/
def Known (tree : BlockTree) (pindex : BlockPtr) : Prop :=
  tree.mapBlockIndex.lookup (tree.phashBlock pindex) = some pindex

instance (tree : BlockTree) (pindex : BlockPtr) : Decidable (tree.Known pindex) :=
  inferInstanceAs (Decidable (_ = _))

/-- The second is the first or one of its ancestors. -/
abbrev Below (tree : BlockTree) (pindex elder : BlockPtr) : Prop :=
  Forest.Below tree.pprev pindex elder

/-- The entries that a loop over `pprev` visits, from `start` up. -/
def path (tree : BlockTree) (start : BlockPtr) : List BlockPtr :=
  Forest.climb tree.pprev (tree.nHeight start + 1) (some start)

/-- The loop of `GetAncestor`. -/
def walkBack (tree : BlockTree) (height : Nat) : Nat → Option BlockPtr → Nat → Option BlockPtr
  | 0, pindexWalk, _ => pindexWalk
  | fuel + 1, pindexWalk, heightWalk =>
    if height < heightWalk then
      let heightSkip := getSkipHeight heightWalk
      let heightSkipPrev := getSkipHeight (heightWalk - 1)
      -- Only follow pskip if pprev->pskip isn't better than pskip->pprev.
      if heightSkip = height ∨
          (height < heightSkip ∧ ¬(heightSkipPrev + 2 < heightSkip ∧ height ≤ heightSkipPrev)) then
        walkBack tree height fuel (pindexWalk.bind tree.pskip) heightSkip
      else walkBack tree height fuel (pindexWalk.bind tree.pprev) (heightWalk - 1)
    else pindexWalk

def getAncestor (tree : BlockTree) (pindex : BlockPtr) (height : Int) : Option BlockPtr :=
  if (tree.nHeight pindex : Int) < height ∨ height < 0 then none
  else tree.walkBack height.toNat (tree.nHeight pindex) (some pindex) (tree.nHeight pindex)

/-- The part of `AddToBlockIndex` that links a new entry, at the address `new`
gave, into the tree. -/
def insertBlock (tree : BlockTree) (pindexNew : BlockPtr) (block : CBlock) : BlockTree :=
  let mapBlockIndex := tree.mapBlockIndex.insertNew block.hash pindexNew
  let pprev := mapBlockIndex.lookup block.hashPrevBlock
  let nHeight := match pprev with
    | some parent => tree.nHeight parent + 1
    | none => 0
  { mapBlockIndex := mapBlockIndex
    phashBlock := Function.update tree.phashBlock pindexNew block.hash
    pprev := Function.update tree.pprev pindexNew pprev
    pskip := Function.update tree.pskip pindexNew
      (pprev.bind fun parent => tree.getAncestor parent (getSkipHeight nHeight))
    nHeight := Function.update tree.nHeight pindexNew nHeight
    nChainWork := Function.update tree.nChainWork pindexNew
      (((pprev.map tree.nChainWork).getD 0 + getBlockProof block.nBits) % 2 ^ 256) }

/-- The map and the entries form one tree under the genesis block, in which
every block adds work to its chain. -/
structure WellFormed (tree : BlockTree) (hashGenesisBlock : Uint256) : Prop where
  keyed : ∀ {hash pindex}, tree.mapBlockIndex.lookup hash = some pindex →
    tree.phashBlock pindex = hash
  ranked : Forest.Ranked tree.pprev tree.Known tree.nHeight
  root : ∀ {pindex}, tree.Known pindex → tree.pprev pindex = none →
    tree.phashBlock pindex = hashGenesisBlock
  genesis : ∃ pindex, tree.mapBlockIndex.lookup hashGenesisBlock = some pindex ∧
    tree.pprev pindex = none
  work : ∀ {pindex parent}, tree.Known pindex → tree.pprev pindex = some parent →
    tree.nChainWork parent < tree.nChainWork pindex
  skip : ∀ {pindex parent}, tree.Known pindex → tree.pprev pindex = some parent →
    ∃ elder, tree.pskip pindex = some elder ∧ tree.Below pindex elder ∧
      tree.nHeight elder = getSkipHeight (tree.nHeight pindex)
  bounded : ∀ {pindex}, tree.Known pindex → tree.nHeight pindex < tree.entries.length

/-- The map finds the entries by their hashes, and each is one above its parent. -/
structure Linked (tree : BlockTree) : Prop where
  keyed : ∀ {hash pindex}, tree.mapBlockIndex.lookup hash = some pindex →
    tree.phashBlock pindex = hash
  ranked : Forest.Ranked tree.pprev tree.Known tree.nHeight

/-- The linked entries form a forest, and the skip pointer of each that has a
parent leads to its ancestor at the height `getSkipHeight` names. -/
structure SkipLinked (tree : BlockTree) (linked : BlockPtr → Prop) : Prop where
  ranked : Forest.Ranked tree.pprev linked tree.nHeight
  skip : ∀ {pindex parent}, linked pindex → tree.pprev pindex = some parent →
    ∃ elder, tree.pskip pindex = some elder ∧ tree.Below pindex elder ∧
      tree.nHeight elder = getSkipHeight (tree.nHeight pindex)

variable {tree : BlockTree} {hashGenesisBlock : Uint256}

namespace SkipLinked

variable {linked : BlockPtr → Prop}

section

variable (links : tree.SkipLinked linked)

include links

/-- The walk of `GetAncestor` stays on the chain and ends at the height it was asked for. -/
theorem walkBack_spec {height fuel : Nat} {pindex : BlockPtr}
    (here : linked pindex) (low : height ≤ tree.nHeight pindex)
    (enough : tree.nHeight pindex ≤ fuel) :
    ∃ elder, tree.walkBack height fuel (some pindex) (tree.nHeight pindex) = some elder ∧
      tree.Below pindex elder ∧ tree.nHeight elder = height := by
  induction fuel generalizing pindex with
  | zero => exact ⟨pindex, rfl, .refl pindex, by omega⟩
  | succ fuel ih =>
    unfold walkBack
    by_cases further : height < tree.nHeight pindex
    · rw [if_pos further]
      cases edge : tree.pprev pindex with
      | none =>
        have root := links.ranked.rank_root here edge
        omega
      | some parent =>
        have grows := links.ranked.rank_parent here edge
        have parentHere := links.ranked.parent_known here edge
        obtain ⟨skipped, pointer, above, skipHeight⟩ := links.skip here edge
        have shorter : getSkipHeight (tree.nHeight pindex) < tree.nHeight pindex :=
          getSkipHeight_lt (by omega)
        dsimp only
        split
        case isTrue jump =>
          have skippedHere := links.ranked.known_of_below here above
          obtain ⟨elder, walked, upper, found⟩ := ih skippedHere (by omega) (by omega)
          rw [bind_some, pointer, ← skipHeight]
          exact ⟨elder, walked, above.trans upper, found⟩
        case isFalse =>
          obtain ⟨elder, walked, upper, found⟩ := ih parentHere (by omega) (by omega)
          have back : tree.nHeight pindex - 1 = tree.nHeight parent := by omega
          rw [bind_some, edge, back]
          exact ⟨elder, walked, .step edge upper, found⟩
    · rw [if_neg further]
      exact ⟨pindex, rfl, .refl pindex, by omega⟩

theorem getAncestor_spec {pindex : BlockPtr}
    (here : linked pindex) {height : Nat} (low : height ≤ tree.nHeight pindex) :
    ∃ elder, tree.getAncestor pindex height = some elder ∧ tree.Below pindex elder ∧
      tree.nHeight elder = height := by
  unfold getAncestor
  rw [if_neg (by omega)]
  exact links.walkBack_spec here low (Nat.le_refl _)

theorem congr {other : BlockTree}
    (pprev : ∀ pindex, linked pindex → other.pprev pindex = tree.pprev pindex)
    (pskip : ∀ pindex, linked pindex → other.pskip pindex = tree.pskip pindex)
    (nHeight : ∀ pindex, linked pindex → other.nHeight pindex = tree.nHeight pindex) :
    other.SkipLinked linked := by
  refine ⟨⟨?parentKnown, ?rankParent, ?rankRoot⟩, ?skip⟩
  case parentKnown =>
    intro node up here edge
    rw [pprev node here] at edge
    exact links.ranked.parent_known here edge
  case rankParent =>
    intro node up here edge
    rw [pprev node here] at edge
    rw [nHeight node here, nHeight up (links.ranked.parent_known here edge)]
    exact links.ranked.rank_parent here edge
  case rankRoot =>
    intro node here root
    rw [pprev node here] at root
    rw [nHeight node here]
    exact links.ranked.rank_root here root
  case skip =>
    intro pindex parent here edge
    rw [pprev pindex here] at edge
    obtain ⟨elder, pointer, above, height⟩ := links.skip here edge
    refine ⟨elder, (pskip pindex here).trans pointer, ?_, ?_⟩
    · exact Forest.Below.congr (fun nodeHere => links.ranked.parent_known nodeHere) pprev here above
    · rw [nHeight elder (links.ranked.known_of_below here above), nHeight pindex here, height]

theorem insert {pindexNew : BlockPtr}
    (root : tree.pprev pindexNew = none → tree.nHeight pindexNew = 0)
    (edge : ∀ {parent}, tree.pprev pindexNew = some parent →
      linked parent ∧ tree.nHeight pindexNew = tree.nHeight parent + 1 ∧
        ∃ elder, tree.pskip pindexNew = some elder ∧ tree.Below parent elder ∧
          tree.nHeight elder = getSkipHeight (tree.nHeight pindexNew)) :
    tree.SkipLinked fun pindex => pindex = pindexNew ∨ linked pindex := by
  refine ⟨⟨?parentKnown, ?rankParent, ?rankRoot⟩, ?skip⟩
  case parentKnown =>
    rintro node up (rfl | here) parent
    · exact .inr (edge parent).1
    · exact .inr (links.ranked.parent_known here parent)
  case rankParent =>
    rintro node up (rfl | here) parent
    · exact (edge parent).2.1
    · exact links.ranked.rank_parent here parent
  case rankRoot =>
    rintro node (rfl | here) top
    · exact root top
    · exact links.ranked.rank_root here top
  case skip =>
    rintro pindex parent (rfl | here) up
    · obtain ⟨_, _, elder, pointer, above, height⟩ := edge up
      exact ⟨elder, pointer, .step up above, height⟩
    · exact links.skip here up

end

end SkipLinked

namespace Linked

theorem known_of_lookup (linked : tree.Linked) {hash : Uint256} {pindex : BlockPtr}
    (found : tree.mapBlockIndex.lookup hash = some pindex) : tree.Known pindex := by
  unfold Known
  rw [linked.keyed found]
  exact found

theorem mem_entries (linked : tree.Linked) {pindex : BlockPtr} :
    pindex ∈ tree.entries ↔ tree.Known pindex := by
  unfold entries
  rw [List.mem_map]
  constructor
  · rintro ⟨⟨hash, _⟩, inside, rfl⟩
    exact linked.known_of_lookup (mem_lookup_iff.mpr inside)
  · intro known
    exact ⟨⟨tree.phashBlock pindex, pindex⟩, mem_lookup_iff.mp known, rfl⟩

theorem entries_nodup (linked : tree.Linked) : tree.entries.Nodup := by
  refine List.Nodup.map_on ?_ tree.mapBlockIndex.nodupKeys.nodup
  rintro ⟨hash, pindex⟩ inside ⟨other, same⟩ insideToo equal
  cases equal
  have first := linked.keyed (mem_lookup_iff.mpr inside)
  have second := linked.keyed (mem_lookup_iff.mpr insideToo)
  rw [← first, ← second]

end Linked

namespace WellFormed

theorem linked (formed : tree.WellFormed hashGenesisBlock) : tree.Linked :=
  ⟨formed.keyed, formed.ranked⟩

variable {pindex : BlockPtr}

section

variable (formed : tree.WellFormed hashGenesisBlock)

include formed

theorem known_of_lookup {hash : Uint256}
    (found : tree.mapBlockIndex.lookup hash = some pindex) : tree.Known pindex := formed.linked.known_of_lookup found

theorem mem_entries : pindex ∈ tree.entries ↔ tree.Known pindex := formed.linked.mem_entries

theorem entries_nodup : tree.entries.Nodup := formed.linked.entries_nodup

theorem root_unique {left right : BlockPtr}
    (leftKnown : tree.Known left) (rightKnown : tree.Known right)
    (leftRoot : tree.pprev left = none) (rightRoot : tree.pprev right = none) : left = right := by
  unfold Known at leftKnown rightKnown
  rw [formed.root leftKnown leftRoot] at leftKnown
  rw [formed.root rightKnown rightRoot, leftKnown] at rightKnown
  exact Option.some.inj rightKnown

theorem mem_children {child : BlockPtr} :
    (child ∈ tree.entries.filter fun child => tree.pprev child = some pindex) ↔
      tree.Known child ∧ tree.pprev child = some pindex := by
  rw [mem_filter, formed.mem_entries, decide_eq_true_eq]

theorem below_root {genesis : BlockPtr}
    (known : tree.Known genesis) (root : tree.pprev genesis = none)
    (pindexKnown : tree.Known pindex) : tree.Below pindex genesis := by
  obtain ⟨elder, above, height⟩ :=
    formed.ranked.exists_of_rank pindexKnown (Nat.zero_le (tree.nHeight pindex))
  have overKnown := formed.ranked.known_of_below pindexKnown above
  have overRoot : tree.pprev elder = none := by
    cases edge : tree.pprev elder with
    | none => rfl
    | some parent =>
      have grows := formed.ranked.rank_parent overKnown edge
      omega
  rw [formed.root_unique known overKnown root overRoot]
  exact above

end

variable {elder : BlockPtr}

theorem work_le (formed : tree.WellFormed hashGenesisBlock) (known : tree.Known pindex)
    (above : tree.Below pindex elder) :
    elder = pindex ∨ tree.nChainWork elder < tree.nChainWork pindex := by
  induction above with
  | refl => exact .inl rfl
  | step edge _ ih =>
    have grows := formed.work known edge
    obtain rfl | less := ih (formed.ranked.parent_known known edge)
    · exact .inr grows
    · exact .inr (Nat.lt_trans less grows)

theorem mem_path (formed : tree.WellFormed hashGenesisBlock) (known : tree.Known pindex) :
    elder ∈ tree.path pindex ↔ tree.Below pindex elder :=
  formed.ranked.mem_climb known (Nat.lt_succ_self _)

theorem path_root (pindex : BlockPtr) (root : tree.pprev pindex = none) :
    tree.path pindex = [pindex] := by
  unfold path
  rw [Forest.climb, root]
  cases tree.nHeight pindex <;> rfl

section

variable (formed : tree.WellFormed hashGenesisBlock)

include formed

theorem path_parent {parent : BlockPtr}
    (known : tree.Known pindex) (edge : tree.pprev pindex = some parent) :
    tree.path pindex = pindex :: tree.path parent := by
  unfold path
  rw [Forest.climb, edge, formed.ranked.rank_parent known edge]

theorem skipLinked : tree.SkipLinked tree.Known := ⟨formed.ranked, formed.skip⟩

theorem getAncestor_spec (known : tree.Known pindex)
    {height : Nat} (low : height ≤ tree.nHeight pindex) :
    ∃ elder, tree.getAncestor pindex height = some elder ∧ tree.Below pindex elder ∧
      tree.nHeight elder = height :=
  formed.skipLinked.getAncestor_spec known low

/-- `GetAncestor` at the height of another entry tells whether that is an ancestor. -/
theorem getAncestor_eq_iff (known : tree.Known pindex) :
    tree.getAncestor pindex (tree.nHeight elder) = some elder ↔ tree.Below pindex elder := by
  constructor
  · intro found
    by_cases low : tree.nHeight elder ≤ tree.nHeight pindex
    · obtain ⟨same, foundToo, above, _⟩ := formed.getAncestor_spec known low
      rw [found] at foundToo
      cases foundToo
      exact above
    · unfold getAncestor at found
      rw [if_pos (by omega)] at found
      cases found
  · intro above
    obtain ⟨same, found, aboveToo, height⟩ :=
      formed.getAncestor_spec known (formed.ranked.rank_le known above)
    rw [found, formed.ranked.eq_of_rank_eq known aboveToo above height]

end

end WellFormed

/-! ## A new entry -/

/-- What `AddToBlockIndex` finds when `AcceptBlockHeader` calls it: the hash is
new, the parent is known, and `new` gives an address that is not in use. -/
structure Fresh (tree : BlockTree) (pindexNew : BlockPtr) (block : CBlock) (parent : BlockPtr) :
    Prop where
  unknown : tree.mapBlockIndex.lookup block.hash = none
  found : tree.mapBlockIndex.lookup block.hashPrevBlock = some parent
  unused : pindexNew ∉ tree.entries

/-- The block adds work to the chain of its parent, and the sum fits a `uint256`. -/
def AddsWork (tree : BlockTree) (block : CBlock) (parent : BlockPtr) : Prop :=
  0 < getBlockProof block.nBits ∧ tree.nChainWork parent + getBlockProof block.nBits < 2 ^ 256

namespace Fresh

variable {pindexNew parent : BlockPtr} {block : CBlock}

theorem lookup_insertBlock (fresh : tree.Fresh pindexNew block parent) (hash : Uint256) :
    (tree.insertBlock pindexNew block).mapBlockIndex.lookup hash =
      if hash = block.hash then some pindexNew else tree.mapBlockIndex.lookup hash := by
  rw [insertBlock, lookup_insertNew, fresh.unknown]
  simp only [and_true]

variable {pindex : BlockPtr}

section

variable (fresh : tree.Fresh pindexNew block parent)

include fresh

theorem ne_of_known (formed : tree.WellFormed hashGenesisBlock) (known : tree.Known pindex) :
    pindex ≠ pindexNew :=
  fun same => fresh.unused (same ▸ formed.mem_entries.mpr known)

theorem parent_known (formed : tree.WellFormed hashGenesisBlock) : tree.Known parent :=
  formed.known_of_lookup fresh.found

theorem lookup_parent :
    (tree.mapBlockIndex.insertNew block.hash pindexNew).lookup block.hashPrevBlock =
      some parent := by
  rw [lookup_insertNew, if_neg, fresh.found]
  rintro ⟨same, absent⟩
  rw [← same, fresh.found] at absent
  cases absent

theorem pprev_new :
    (tree.insertBlock pindexNew block).pprev pindexNew = some parent := by
  simp [insertBlock, fresh.lookup_parent]

theorem new_fields :
    (tree.insertBlock pindexNew block).phashBlock pindexNew = block.hash ∧
    (tree.insertBlock pindexNew block).nHeight pindexNew = tree.nHeight parent + 1 ∧
    (tree.insertBlock pindexNew block).pskip pindexNew =
      tree.getAncestor parent (getSkipHeight (tree.nHeight parent + 1)) ∧
    (tree.insertBlock pindexNew block).nChainWork pindexNew =
      (tree.nChainWork parent + getBlockProof block.nBits) % 2 ^ 256 := by
  simp [insertBlock, fresh.lookup_parent]

theorem known_insertBlock :
    (tree.insertBlock pindexNew block).Known pindex ↔ pindex = pindexNew ∨ tree.Known pindex := by
  unfold Known
  rw [fresh.lookup_insertBlock]
  by_cases isNew : pindex = pindexNew
  · subst isNew
    rw [fresh.new_fields.1, if_pos rfl]
    simp
  · have hash : (tree.insertBlock pindexNew block).phashBlock pindex = tree.phashBlock pindex :=
      update_of_ne isNew _ _
    rw [hash]
    by_cases taken : tree.phashBlock pindex = block.hash
    · rw [if_pos taken, taken, fresh.unknown]
      simp [Ne.symm isNew, isNew]
    · rw [if_neg taken]
      simp [isNew]

theorem below_insertBlock
    (formed : tree.WellFormed hashGenesisBlock) {elder : BlockPtr} (known : tree.Known pindex) :
    (tree.insertBlock pindexNew block).Below pindex elder ↔ tree.Below pindex elder := by
  have agree : ∀ node, tree.Known node →
      (tree.insertBlock pindexNew block).pprev node = tree.pprev node :=
    fun node nodeKnown => update_of_ne (fresh.ne_of_known formed nodeKnown) _ _
  constructor
  · refine Forest.Below.congr (fun nodeKnown edge => ?_) (fun node nodeKnown => (agree node nodeKnown).symm) known
    rw [agree _ nodeKnown] at edge
    exact formed.ranked.parent_known nodeKnown edge
  · exact Forest.Below.congr (fun nodeKnown => formed.ranked.parent_known nodeKnown) agree known

theorem path_insertBlock (formed : tree.WellFormed hashGenesisBlock) (known : tree.Known pindex) :
    (tree.insertBlock pindexNew block).path pindex = tree.path pindex := by
  have height : (tree.insertBlock pindexNew block).nHeight pindex = tree.nHeight pindex :=
    update_of_ne (fresh.ne_of_known formed known) _ _
  rw [path, path, height]
  exact formed.ranked.climb_congr
    (fun node nodeKnown => update_of_ne (fresh.ne_of_known formed nodeKnown) _ _) _ known

theorem length_insertBlock :
    (tree.insertBlock pindexNew block).entries.length = tree.entries.length + 1 := by
  have absent : block.hash ∉ tree.mapBlockIndex := by
    rw [← lookup_eq_none]
    exact fresh.unknown
  have inserted : (tree.insertBlock pindexNew block).mapBlockIndex =
      tree.mapBlockIndex.insert block.hash pindexNew := by
    simp [insertBlock, StdMap.insertNew, fresh.unknown]
  rw [entries, entries, inserted, length_map, length_map,
    entries_insert_of_notMem absent, length_cons]

theorem wellFormed_insertBlock
    (formed : tree.WellFormed hashGenesisBlock) (adds : tree.AddsWork block parent) :
    (tree.insertBlock pindexNew block).WellFormed hashGenesisBlock := by
  have parentKnown := fresh.parent_known formed
  obtain ⟨newHash, newHeight, newSkip, newWork⟩ := fresh.new_fields
  have edgeNew := fresh.pprev_new
  have old : ∀ {pindex}, tree.Known pindex → pindex ≠ pindexNew :=
    fun known => fresh.ne_of_known formed known
  have pprevOld : ∀ {pindex}, tree.Known pindex →
      (tree.insertBlock pindexNew block).pprev pindex = tree.pprev pindex :=
    fun known => update_of_ne (old known) _ _
  have heightOld : ∀ {pindex}, tree.Known pindex →
      (tree.insertBlock pindexNew block).nHeight pindex = tree.nHeight pindex :=
    fun known => update_of_ne (old known) _ _
  have workOld : ∀ {pindex}, tree.Known pindex →
      (tree.insertBlock pindexNew block).nChainWork pindex = tree.nChainWork pindex :=
    fun known => update_of_ne (old known) _ _
  have skipOld : ∀ {pindex}, tree.Known pindex →
      (tree.insertBlock pindexNew block).pskip pindex = tree.pskip pindex :=
    fun known => update_of_ne (old known) _ _
  have hashOld : ∀ {pindex}, tree.Known pindex →
      (tree.insertBlock pindexNew block).phashBlock pindex = tree.phashBlock pindex :=
    fun known => update_of_ne (old known) _ _
  refine ⟨?keyed, ⟨?parentKnown, ?rankParent, ?rankRoot⟩, ?root, ?genesis, ?work, ?skip, ?bounded⟩
  case keyed =>
    intro hash pindex found
    rw [fresh.lookup_insertBlock] at found
    split at found
    case isTrue same =>
      cases found
      rw [newHash, same]
    case isFalse =>
      rw [hashOld (formed.known_of_lookup found)]
      exact formed.keyed found
  case parentKnown =>
    intro node up known edge
    rw [fresh.known_insertBlock] at known ⊢
    obtain rfl | known := known
    · rw [edgeNew] at edge
      cases edge
      exact .inr parentKnown
    · rw [pprevOld known] at edge
      exact .inr (formed.ranked.parent_known known edge)
  case rankParent =>
    intro node up known edge
    obtain rfl | known := fresh.known_insertBlock.mp known
    · rw [edgeNew] at edge
      cases edge
      rw [newHeight, heightOld parentKnown]
    · rw [pprevOld known] at edge
      rw [heightOld known, heightOld (formed.ranked.parent_known known edge)]
      exact formed.ranked.rank_parent known edge
  case rankRoot =>
    intro node known edge
    obtain rfl | known := fresh.known_insertBlock.mp known
    · rw [edgeNew] at edge
      cases edge
    · rw [pprevOld known] at edge
      rw [heightOld known]
      exact formed.ranked.rank_root known edge
  case root =>
    intro node known edge
    obtain rfl | known := fresh.known_insertBlock.mp known
    · rw [edgeNew] at edge
      cases edge
    · rw [pprevOld known] at edge
      rw [hashOld known]
      exact formed.root known edge
  case genesis =>
    obtain ⟨genesis, found, root⟩ := formed.genesis
    refine ⟨genesis, ?_, by rw [pprevOld (formed.known_of_lookup found), root]⟩
    rw [fresh.lookup_insertBlock, if_neg, found]
    intro same
    rw [same, fresh.unknown] at found
    cases found
  case work =>
    intro node up known edge
    obtain rfl | known := fresh.known_insertBlock.mp known
    · rw [edgeNew] at edge
      cases edge
      rw [newWork, workOld parentKnown, Nat.mod_eq_of_lt adds.2]
      have positive := adds.1
      omega
    · rw [pprevOld known] at edge
      rw [workOld known, workOld (formed.ranked.parent_known known edge)]
      exact formed.work known edge
  case skip =>
    intro node up known edge
    obtain rfl | known := fresh.known_insertBlock.mp known
    · have low : getSkipHeight (tree.nHeight parent + 1) ≤ tree.nHeight parent :=
        Nat.lt_succ_iff.mp (getSkipHeight_lt (Nat.succ_pos _))
      obtain ⟨elder, found, above, height⟩ := formed.getAncestor_spec parentKnown low
      refine ⟨elder, newSkip.trans found,
        .step edgeNew ((fresh.below_insertBlock formed parentKnown).mpr above), ?_⟩
      rw [heightOld (formed.ranked.known_of_below parentKnown above), height, newHeight]
    · rw [pprevOld known] at edge
      obtain ⟨elder, pointer, above, height⟩ := formed.skip known edge
      refine ⟨elder, by rw [skipOld known, pointer],
        (fresh.below_insertBlock formed known).mpr above, ?_⟩
      rw [heightOld (formed.ranked.known_of_below known above), heightOld known, height]
  case bounded =>
    intro node known
    rw [fresh.length_insertBlock]
    obtain rfl | known := fresh.known_insertBlock.mp known
    · rw [newHeight]
      have limit := formed.bounded parentKnown
      omega
    · rw [heightOld known]
      have limit := formed.bounded known
      omega

end

end Fresh

end BlockTree

end CentNode
