import CentNode.Chain.BlockTree
import CentNode.Validation.Accepted
import Mathlib.Data.List.Chain

/-!
# Replaying blocks after a crash

After a shutdown that was not prepared, `LoadBlockIndexDB` goes over the index
entries sorted by height, from the first one above the best block of the coins,
and applies their blocks until it reaches the height of an entry that it picks
by the last height of the last block file.  It never looks at the parents.
-/

namespace CentNode

open List AList Option

/-! ## The code -/

/-- The order of the pairs of height and address. -/
def BlockTree.sortedLE (tree : BlockTree) (left right : BlockPtr) : Prop :=
  tree.nHeight left < tree.nHeight right ∨ (tree.nHeight left = tree.nHeight right ∧ left ≤ right)

instance (tree : BlockTree) : DecidableRel tree.sortedLE :=
  fun _ _ => inferInstanceAs (Decidable (_ ∨ _))

def BlockTree.vSortedByHeight (tree : BlockTree) : List BlockPtr :=
  tree.entries.insertionSort tree.sortedLE

/-- What `LoadBlockIndexDB` has before it looks at the last shutdown. -/
structure LoadedDb where
  tree : BlockTree
  /-- The block that the block files hold at the position of an entry, when it can be
  read and its header is good. -/
  blockFile : BlockPtr → Option CBlock
  pcoinsTip : FlatCoins
  /-- `vinfoBlockFile[nLastBlockFile].nHeightLast`. -/
  nHeightLast : Nat
  fLastShutdownWasPrepared : Bool := false
  forcestart : Bool := false
  reindex : Bool := false
  /-- The database takes the coins; otherwise the write throws. -/
  flushes : Bool := true

/-- How the recovery ends; a replay also tells the entries it went over. -/
inductive LoadOutcome where
  | skipped
  | returnedFalse
  | crashed
  | outOfBounds
  | replayed (pcoinsTip : FlatCoins) (entries : List BlockPtr)

namespace LoadedDb

def readBlockFromDisk (db : LoadedDb) (pindex : BlockPtr) : Option CBlock :=
  (db.blockFile pindex).filter fun block => block.hash = db.tree.phashBlock pindex

/-- The transactions of one block; `none` is the failed assertion of `UpdateCoins`, or the
exception of reserving the undo data of a block without transactions. -/
def applyBlock (db : LoadedDb) (pindex : BlockPtr) (block : CBlock) (view : FlatCoins) :
    Option FlatCoins :=
  if block.vtx.isEmpty then none
  else (coinsAfter (db.tree.nHeight pindex) view block.vtx).map (·.setBestBlock block.hash)

/-- The loop of the replay, at an entry and with the entries after it in the sorted vector.
At the end of the vector it reads one more. -/
def replayLoop (db : LoadedDb) (lastHeight : Nat) :
    BlockPtr → List BlockPtr → FlatCoins → List BlockPtr → LoadOutcome
  | pindex, later, view, replayed =>
    match db.readBlockFromDisk pindex with
    | none => .returnedFalse
    | some block =>
      match db.applyBlock pindex block view with
      | none => .crashed
      | some next =>
        if lastHeight ≤ db.tree.nHeight pindex then
          if db.flushes then .replayed next (replayed ++ [pindex]) else .crashed
        else
          match later with
          | [] => .outOfBounds
          | pindexNext :: rest =>
            replayLoop db lastHeight pindexNext rest next (replayed ++ [pindex])

/-- The entries from the first one above the best block on.  Where there is none, the entry
is the first of all and the position the last one. -/
def entriesFrom (db : LoadedDb) (best : BlockPtr) : List BlockPtr :=
  match db.tree.vSortedByHeight.dropWhile fun pindex =>
      db.tree.nHeight pindex ≠ db.tree.nHeight best + 1 with
  | [] => db.tree.vSortedByHeight.take 1
  | found => found

/-- The entry that the branch for an unprepared shutdown goes up to; `none` where the
branch is not taken. -/
def pindexLastMeta (db : LoadedDb) : Option BlockPtr :=
  if db.fLastShutdownWasPrepared || db.forcestart || db.reindex then none
  else
    db.tree.vSortedByHeight[db.nHeightLast + 1]?.filter fun pindex =>
      db.pcoinsTip.bestBlock ≠ db.tree.phashBlock pindex

def loadBlockIndexDB (db : LoadedDb) : LoadOutcome :=
  match db.pindexLastMeta with
  | none => .skipped
  | some pindexLastMeta =>
    match db.tree.mapBlockIndex.lookup db.pcoinsTip.bestBlock with
    | none => .returnedFalse
    | some best =>
      match db.entriesFrom best with
      | [] => .outOfBounds
      | pindex :: later =>
        db.replayLoop (db.tree.nHeight pindexLastMeta) pindex later db.pcoinsTip []

/-! ## What it should do -/

/-- How far the blocks of some entries can be applied. -/
inductive EntriesRun where
  | unreadable
  | failed
  | applied (view : FlatCoins)

def runEntries (db : LoadedDb) : List BlockPtr → FlatCoins → EntriesRun
  | [], view => .applied view
  | pindex :: rest, view =>
    match db.readBlockFromDisk pindex with
    | none => .unreadable
    | some block =>
      match db.applyBlock pindex block view with
      | none => .failed
      | some next => runEntries db rest next

/-- The entries are the way from the old best block to the new one, and the coins those of
applying their blocks. -/
structure PathReplayed (db : LoadedDb) (best : BlockPtr) (entries : List BlockPtr)
    (view : FlatCoins) : Prop where
  path : (best :: entries).IsChain fun parent child => db.tree.pprev child = some parent
  coins : db.runEntries entries db.pcoinsTip = .applied view
  descends : ∃ pindex, view.bestBlock = db.tree.phashBlock pindex ∧ db.tree.Below pindex best

/-- Where the branch is taken and does not return false, it replays a path. -/
def FollowsPath (db : LoadedDb) : Prop :=
  match db.loadBlockIndexDB with
  | .skipped | .returnedFalse => True
  | .crashed | .outOfBounds => False
  | .replayed view entries =>
    ∃ best, db.tree.mapBlockIndex.lookup db.pcoinsTip.bestBlock = some best ∧
      db.PathReplayed best entries view

/-- The entries up to the first one that reaches the height. -/
def upTo (tree : BlockTree) (lastHeight : Nat) : List BlockPtr → List BlockPtr
  | [] => []
  | pindex :: rest =>
    if lastHeight ≤ tree.nHeight pindex then [pindex] else pindex :: upTo tree lastHeight rest

/-- The first entry above the best block is its child, and up to the height of the last
entry the index has no fork. -/
structure Unforked (db : LoadedDb) (best last : BlockPtr) : Prop where
  child : ∃ pindex, db.tree.vSortedByHeight.find? (fun pindex =>
      db.tree.nHeight pindex = db.tree.nHeight best + 1) = some pindex ∧
    db.tree.pprev pindex = some best
  single : ∀ left right, db.tree.Known left → db.tree.Known right →
    db.tree.nHeight left = db.tree.nHeight right → db.tree.nHeight best < db.tree.nHeight left →
      db.tree.nHeight left < db.tree.nHeight last → left = right

/-- A block on the way cannot be read, or all can be applied, the coins are written, and
there is no fork. -/
def SoundFrom (db : LoadedDb) (best last : BlockPtr) : Prop :=
  match db.runEntries (upTo db.tree (db.tree.nHeight last) (db.entriesFrom best))
      db.pcoinsTip with
  | .unreadable => True
  | .failed => False
  | .applied _ => db.flushes = true ∧ db.Unforked best last

/-- When the replay follows a path. -/
def ReplaySound (db : LoadedDb) : Prop :=
  ∀ last best, db.pindexLastMeta = some last →
    db.tree.mapBlockIndex.lookup db.pcoinsTip.bestBlock = some best → db.SoundFrom best last

/-! ## The loop -/

/-- The outcome of the loop, by how far the blocks up to the height can be applied. -/
def outcomeOf (db : LoadedDb) (reaches : Bool) (replayed : List BlockPtr) : EntriesRun → LoadOutcome
  | .unreadable => .returnedFalse
  | .failed => .crashed
  | .applied view =>
    if reaches then if db.flushes then .replayed view replayed else .crashed else .outOfBounds

theorem replayLoop_reached {db : LoadedDb} {lastHeight : Nat} {pindex : BlockPtr}
    (reached : lastHeight ≤ db.tree.nHeight pindex) (later : List BlockPtr) (view : FlatCoins)
    (replayed : List BlockPtr) :
    db.replayLoop lastHeight pindex later view replayed =
      db.outcomeOf true (replayed ++ [pindex]) (db.runEntries [pindex] view) := by
  rw [replayLoop.eq_def, runEntries]
  dsimp only
  cases db.readBlockFromDisk pindex with
  | none => rfl
  | some block =>
    dsimp only
    cases db.applyBlock pindex block view with
    | none => rfl
    | some next =>
      dsimp only
      rw [if_pos reached]
      rfl

theorem replayLoop_eq (db : LoadedDb) (lastHeight : Nat) (pindex : BlockPtr)
    (later : List BlockPtr) (view : FlatCoins) (replayed : List BlockPtr) :
    db.replayLoop lastHeight pindex later view replayed =
      db.outcomeOf ((pindex :: later).any fun entry => decide (lastHeight ≤ db.tree.nHeight entry))
        (replayed ++ upTo db.tree lastHeight (pindex :: later))
        (db.runEntries (upTo db.tree lastHeight (pindex :: later)) view) := by
  induction later generalizing pindex view replayed with
  | nil =>
    by_cases reached : lastHeight ≤ db.tree.nHeight pindex
    · rw [replayLoop_reached reached, upTo, if_pos reached]
      simp [reached]
    · rw [replayLoop, upTo, if_neg reached, runEntries]
      cases db.readBlockFromDisk pindex with
      | none => rfl
      | some block =>
        dsimp only
        cases db.applyBlock pindex block view with
        | none => rfl
        | some next => simp [reached, outcomeOf, runEntries, upTo]
  | cons pindexNext rest ih =>
    by_cases reached : lastHeight ≤ db.tree.nHeight pindex
    · rw [replayLoop_reached reached, upTo, if_pos reached]
      simp [reached]
    · rw [replayLoop, upTo, if_neg reached, runEntries]
      cases db.readBlockFromDisk pindex with
      | none => rfl
      | some block =>
        dsimp only
        cases db.applyBlock pindex block view with
        | none => rfl
        | some next =>
          dsimp only
          rw [if_neg reached, ih, append_assoc, singleton_append,
            any_cons (l := pindexNext :: rest), decide_eq_false reached, Bool.false_or]

end LoadedDb

/-! ## The sorted index -/

namespace BlockTree

variable {tree : BlockTree}

theorem pairwise_vSortedByHeight (tree : BlockTree) :
    tree.vSortedByHeight.Pairwise fun left right => tree.nHeight left ≤ tree.nHeight right := by
  have total : Std.Total tree.sortedLE := by
    refine ⟨fun left right => ?_⟩
    rcases Nat.lt_trichotomy (tree.nHeight left) (tree.nHeight right) with less | same | more
    · exact Or.inl (Or.inl less)
    · rcases Nat.le_total left right with low | high
      · exact Or.inl (Or.inr ⟨same, low⟩)
      · exact Or.inr (Or.inr ⟨same.symm, high⟩)
    · exact Or.inr (Or.inl more)
  have trans : IsTrans BlockPtr tree.sortedLE := by
    refine ⟨fun first second third => ?_⟩
    rintro (less | ⟨same, low⟩) (lessToo | ⟨sameToo, lowToo⟩)
    · exact Or.inl (less.trans lessToo)
    · exact Or.inl (sameToo ▸ less)
    · exact Or.inl (same ▸ lessToo)
    · exact Or.inr ⟨same.trans sameToo, Nat.le_trans low lowToo⟩
  refine (pairwise_insertionSort tree.sortedLE tree.entries).imp fun ordered => ?_
  unfold sortedLE at ordered
  omega

theorem mem_vSortedByHeight (linked : tree.Linked) {pindex : BlockPtr} :
    pindex ∈ tree.vSortedByHeight ↔ tree.Known pindex := by
  rw [vSortedByHeight, mem_insertionSort, linked.mem_entries]

theorem linked_of_entries (entries : ∀ entry ∈ tree.mapBlockIndex.entries,
    tree.phashBlock entry.2 = entry.1 ∧
      (∀ parent ∈ tree.pprev entry.2,
        tree.Known parent ∧ tree.nHeight entry.2 = tree.nHeight parent + 1) ∧
      (tree.pprev entry.2 = none → tree.nHeight entry.2 = 0)) : tree.Linked := by
  refine ⟨fun found => (entries _ (mem_lookup_iff.mp found)).1, ?_, ?_, ?_⟩
  · intro pindex parent known edge
    obtain ⟨_, child, _⟩ := entries _ (mem_lookup_iff.mp known)
    exact (child parent edge).1
  · intro pindex parent known edge
    obtain ⟨_, child, _⟩ := entries _ (mem_lookup_iff.mp known)
    exact (child parent edge).2
  · intro pindex known edge
    obtain ⟨_, _, root⟩ := entries _ (mem_lookup_iff.mp known)
    exact root edge

theorem vSortedByHeight_nodup (linked : tree.Linked) : tree.vSortedByHeight.Nodup :=
  (perm_insertionSort tree.sortedLE tree.entries).nodup_iff.mpr linked.entries_nodup

end BlockTree

open BlockTree

namespace LoadedDb

variable {db : LoadedDb} {best last : BlockPtr}

/-- Where the replay starts: after entries of at most the height of the best block, at an
entry right above it. -/
structure StartsAt (db : LoadedDb) (best : BlockPtr) (earlier : List BlockPtr) (start : BlockPtr)
    (later : List BlockPtr) : Prop where
  split : db.tree.vSortedByHeight = earlier ++ start :: later
  height : db.tree.nHeight start = db.tree.nHeight best + 1
  below : ∀ pindex ∈ earlier, db.tree.nHeight pindex ≤ db.tree.nHeight best
  from_eq : db.entriesFrom best = start :: later
  first : db.tree.vSortedByHeight.find? (fun pindex =>
    db.tree.nHeight pindex = db.tree.nHeight best + 1) = some start

/-- The start, or that no entry is right above the best block. -/
theorem starts_or_none (db : LoadedDb) (best : BlockPtr) :
    (∃ earlier start later, db.StartsAt best earlier start later) ∨
      (∀ pindex ∈ db.tree.vSortedByHeight,
        db.tree.nHeight pindex ≠ db.tree.nHeight best + 1) ∧
        db.entriesFrom best = db.tree.vSortedByHeight.take 1 := by
  cases first : db.tree.vSortedByHeight.find? fun pindex =>
      decide (db.tree.nHeight pindex = db.tree.nHeight best + 1) with
  | none =>
    have absent : ∀ pindex ∈ db.tree.vSortedByHeight,
        db.tree.nHeight pindex ≠ db.tree.nHeight best + 1 := fun pindex member => by
      simpa using find?_eq_none.mp first pindex member
    refine Or.inr ⟨absent, ?_⟩
    rw [entriesFrom, dropWhile_eq_nil_iff.mpr]
    exact fun pindex member => decide_eq_true (absent pindex member)
  | some start =>
    obtain ⟨found, earlier, later, split, others⟩ := find?_eq_some_iff_append.mp first
    have height := of_decide_eq_true found
    have apart : ∀ pindex ∈ earlier, db.tree.nHeight pindex ≠ db.tree.nHeight best + 1 :=
      fun pindex member => by simpa using others pindex member
    have sorted := db.tree.pairwise_vSortedByHeight
    rw [split, pairwise_append] at sorted
    refine Or.inl ⟨earlier, start, later, split, height, fun pindex member => ?_, ?_, first⟩
    · have low := sorted.2.2 pindex member start mem_cons_self
      have different := apart pindex member
      omega
    · rw [entriesFrom, split, dropWhile_append_of_pos, dropWhile_cons_of_neg]
      · simpa using height
      · exact fun pindex member => decide_eq_true (apart pindex member)

variable {earlier later : List BlockPtr} {start : BlockPtr}

theorem StartsAt.reaches (starts : db.StartsAt best earlier start later)
    (member : last ∈ db.tree.vSortedByHeight) :
    ∃ entry ∈ start :: later, db.tree.nHeight last ≤ db.tree.nHeight entry := by
  rw [starts.split] at member
  rcases mem_append.mp member with low | high
  · have bounded := starts.below last low
    have height := starts.height
    exact ⟨start, mem_cons_self, by omega⟩
  · exact ⟨last, high, Nat.le_refl _⟩

/-! ## Paths of the sorted index -/

theorem upTo_cons (tree : BlockTree) (lastHeight : Nat) (pindex : BlockPtr)
    (rest : List BlockPtr) :
    ∃ tail, upTo tree lastHeight (pindex :: rest) = pindex :: tail := by
  rw [upTo]
  split <;> exact ⟨_, rfl⟩

theorem upTo_subset (tree : BlockTree) (lastHeight : Nat) (entries : List BlockPtr) :
    upTo tree lastHeight entries ⊆ entries := by
  induction entries with
  | nil => exact List.Subset.refl _
  | cons pindex rest ih =>
    rw [upTo]
    split
    · exact cons_subset_cons _ (nil_subset _)
    · exact cons_subset_cons _ ih

variable {entries : List BlockPtr} {pindex : BlockPtr}

theorem mem_upTo {tree : BlockTree} {lastHeight : Nat}
    (sorted : entries.Pairwise fun left right => tree.nHeight left ≤ tree.nHeight right)
    (member : pindex ∈ entries) (low : tree.nHeight pindex < lastHeight) :
    pindex ∈ upTo tree lastHeight entries := by
  induction entries with
  | nil => cases member
  | cons head rest ih =>
    obtain ⟨ordered, sortedRest⟩ := pairwise_cons.mp sorted
    rw [upTo]
    split
    · next reached =>
        rcases mem_cons.mp member with rfl | later
        · exact mem_singleton.mpr rfl
        · have above := ordered pindex later
          omega
    · rcases mem_cons.mp member with rfl | later
      · exact mem_cons_self
      · exact mem_cons_of_mem _ (ih sortedRest later)

/-- Without a fork, an entry follows its parent in the sorted vector. -/
theorem parent_of_adjacent (linked : db.tree.Linked) {rest : List BlockPtr} {next : BlockPtr}
    (split : db.tree.vSortedByHeight = earlier ++ pindex :: next :: rest)
    (alone : ∀ other, db.tree.Known other → db.tree.nHeight other = db.tree.nHeight pindex →
      other = pindex) : db.tree.pprev next = some pindex := by
  have sorted := db.tree.pairwise_vSortedByHeight
  have distinct := vSortedByHeight_nodup linked
  have nextKnown : db.tree.Known next := by
    rw [← mem_vSortedByHeight linked, split]
    simp
  rw [split] at sorted distinct
  obtain ⟨_, upper, crossing⟩ := pairwise_append.mp sorted
  obtain ⟨ordered, upperRest⟩ := pairwise_cons.mp upper
  have apart : next ≠ pindex := by
    rintro rfl
    simpa using (nodup_append.mp distinct).2.1
  have higher : db.tree.nHeight pindex < db.tree.nHeight next := by
    have weakly := ordered next mem_cons_self
    have unequal : db.tree.nHeight next ≠ db.tree.nHeight pindex := fun same =>
      apart (alone next nextKnown same)
    omega
  cases edge : db.tree.pprev next with
  | none =>
    have bottom := linked.ranked.rank_root nextKnown edge
    omega
  | some parent =>
    have height := linked.ranked.rank_parent nextKnown edge
    have parentKnown := linked.ranked.parent_known nextKnown edge
    have member := (mem_vSortedByHeight linked).mpr parentKnown
    rw [split] at member
    -- the parent is not after its child, and not below the entry before the child
    have level : db.tree.nHeight parent = db.tree.nHeight pindex := by
      rcases mem_append.mp member with low | high
      · have bounded := crossing parent low pindex mem_cons_self
        omega
      · rcases mem_cons.mp high with rfl | above
        · rfl
        · rcases mem_cons.mp above with rfl | later
          · omega
          · have bounded := (pairwise_cons.mp upperRest).1 parent later
            omega
    rw [alone parent parentKnown level]

/-- Without a fork below the height, the entries up to it form a chain. -/
theorem isChain_upTo (linked : db.tree.Linked) {lastHeight lowest : Nat}
    (single : ∀ left right, db.tree.Known left → db.tree.Known right →
      db.tree.nHeight left = db.tree.nHeight right → lowest < db.tree.nHeight left →
        db.tree.nHeight left < lastHeight → left = right)
    (split : db.tree.vSortedByHeight = earlier ++ pindex :: later)
    (above : lowest < db.tree.nHeight pindex) :
    (upTo db.tree lastHeight (pindex :: later)).IsChain fun parent child =>
      db.tree.pprev child = some parent := by
  induction later generalizing earlier pindex with
  | nil =>
    rw [upTo]
    split <;> exact List.IsChain.singleton _
  | cons next rest ih =>
    rw [upTo]
    split
    · exact List.IsChain.singleton _
    · next low =>
        have pindexKnown : db.tree.Known pindex := by
          rw [← mem_vSortedByHeight linked, split]
          simp
        have edge : db.tree.pprev next = some pindex :=
          parent_of_adjacent linked split fun other known level =>
            single other pindex known pindexKnown level (by omega) (by omega)
        have nextKnown : db.tree.Known next := by
          rw [← mem_vSortedByHeight linked, split]
          simp
        have grows := linked.ranked.rank_parent nextKnown edge
        have moved : db.tree.vSortedByHeight = (earlier ++ [pindex]) ++ next :: rest := by
          rw [split, append_assoc, singleton_append]
        have chained := ih moved (by omega)
        obtain ⟨tail, shape⟩ := upTo_cons db.tree lastHeight next rest
        rw [shape] at chained ⊢
        exact isChain_cons_cons.mpr ⟨edge, chained⟩

theorem heights_of_isChain (linked : db.tree.Linked)
    (known : ∀ pindex ∈ entries, db.tree.Known pindex)
    (chained : entries.IsChain fun parent child => db.tree.pprev child = some parent) :
    entries.Pairwise fun left right => db.tree.nHeight left < db.tree.nHeight right := by
  let trans : Trans (fun left right => db.tree.nHeight left < db.tree.nHeight right)
      (fun left right => db.tree.nHeight left < db.tree.nHeight right)
      (fun left right => db.tree.nHeight left < db.tree.nHeight right) := ⟨Nat.lt_trans⟩
  refine isChain_iff_pairwise.mp (chained.imp_of_mem_imp fun parent child _ member edge => ?_)
  have grows := linked.ranked.rank_parent (known child member) edge
  omega

theorem below_of_isChain
    (chained : (start :: entries).IsChain fun parent child => db.tree.pprev child = some parent) :
    ∀ pindex ∈ start :: entries, db.tree.Below pindex start := by
  induction entries generalizing start with
  | nil =>
    intro pindex member
    rw [mem_singleton.mp member]
    exact .refl start
  | cons child rest ih =>
    obtain ⟨edge, chainedRest⟩ := isChain_cons_cons.mp chained
    intro pindex member
    rcases mem_cons.mp member with rfl | later
    · exact .refl pindex
    · exact (ih chainedRest pindex later).trans (Forest.Below.parent_of edge)

/-- From a start above the best block, the replayed entries form a path exactly when there
is no fork. -/
theorem StartsAt.isChain_iff (linked : db.tree.Linked)
    (starts : db.StartsAt best earlier start later) :
    ((best :: upTo db.tree (db.tree.nHeight last) (start :: later)).IsChain fun parent child =>
      db.tree.pprev child = some parent) ↔ db.Unforked best last := by
  obtain ⟨tail, shape⟩ := upTo_cons db.tree (db.tree.nHeight last) start later
  have height := starts.height
  constructor
  · intro chained
    rw [shape] at chained
    obtain ⟨edge, chainedRest⟩ := isChain_cons_cons.mp chained
    refine ⟨⟨start, starts.first, edge⟩, fun left right leftKnown rightKnown level elder under => ?_⟩
    have sorted := db.tree.pairwise_vSortedByHeight
    rw [starts.split] at sorted
    have sortedUpper := (pairwise_append.mp sorted).2.1
    have replayed : ∀ pindex, db.tree.Known pindex → db.tree.nHeight best < db.tree.nHeight pindex →
        db.tree.nHeight pindex < db.tree.nHeight last → pindex ∈ start :: tail := by
      intro pindex known elder under
      have member := (mem_vSortedByHeight linked).mpr known
      rw [starts.split] at member
      rw [← shape]
      rcases mem_append.mp member with low | high
      · have bounded := starts.below pindex low
        omega
      · exact mem_upTo sortedUpper high under
    have known : ∀ pindex ∈ start :: tail, db.tree.Known pindex := by
      intro pindex member
      rw [← mem_vSortedByHeight linked, starts.split]
      rw [← shape] at member
      exact mem_append_right _ (upTo_subset db.tree _ _ member)
    have heights := (heights_of_isChain linked known chainedRest).imp
      fun less : db.tree.nHeight _ < db.tree.nHeight _ => Nat.ne_of_lt less
    have symm : Std.Symm fun left right => db.tree.nHeight left ≠ db.tree.nHeight right :=
      ⟨fun _ _ unequal => Ne.symm unequal⟩
    by_contra differ
    exact heights.forall (replayed left leftKnown elder under)
      (replayed right rightKnown (level ▸ elder) (level ▸ under)) differ level
  · rintro ⟨⟨pindex, first, edge⟩, single⟩
    cases starts.first.symm.trans first
    have chained := isChain_upTo linked single starts.split (by omega)
    rw [shape] at chained ⊢
    exact isChain_cons_cons.mpr ⟨edge, chained⟩

theorem readBlockFromDisk_hash {block : CBlock} (read : db.readBlockFromDisk pindex = some block) :
    block.hash = db.tree.phashBlock pindex := by
  have checked := (filter_eq_some_iff.mp read).2
  exact of_decide_eq_true checked

theorem runEntries_bestBlock {start view : FlatCoins}
    (ran : db.runEntries entries start = .applied view) (some_entry : entries ≠ []) :
    ∃ pindex ∈ entries, view.bestBlock = db.tree.phashBlock pindex := by
  induction entries generalizing start with
  | nil => exact absurd rfl some_entry
  | cons pindex rest ih =>
    rw [runEntries] at ran
    cases read : db.readBlockFromDisk pindex with
    | none =>
      rw [read] at ran
      cases ran
    | some block =>
      rw [read] at ran
      dsimp only at ran
      cases applied : db.applyBlock pindex block start with
      | none =>
        rw [applied] at ran
        cases ran
      | some next =>
        rw [applied] at ran
        dsimp only at ran
        cases rest with
        | nil =>
          cases ran
          unfold applyBlock at applied
          split at applied
          · cases applied
          · obtain ⟨middle, _, rfl⟩ := map_eq_some_iff.mp applied
            exact ⟨pindex, mem_cons_self, readBlockFromDisk_hash read⟩
        | cons second later =>
          obtain ⟨entry, member, same⟩ := ih ran (cons_ne_nil _ _)
          exact ⟨entry, mem_cons_of_mem _ member, same⟩

theorem pindexLastMeta_mem (branch : db.pindexLastMeta = some last) :
    last ∈ db.tree.vSortedByHeight := by
  unfold pindexLastMeta at branch
  split at branch
  · cases branch
  · exact mem_of_getElem? (filter_eq_some_iff.mp branch).1

/-- Where an entry is above the best block, the outcome is that of the blocks up to the
height of the last entry, and a replay follows a path exactly when there is no fork. -/
theorem StartsAt.follows_iff (linked : db.tree.Linked)
    (starts : db.StartsAt best earlier start later) (branch : db.pindexLastMeta = some last)
    (found : db.tree.mapBlockIndex.lookup db.pcoinsTip.bestBlock = some best) :
    db.FollowsPath ↔ db.SoundFrom best last := by
  have reaches : ((start :: later).any fun entry =>
      decide (db.tree.nHeight last ≤ db.tree.nHeight entry)) = true := by
    obtain ⟨entry, member, reached⟩ := starts.reaches (pindexLastMeta_mem branch)
    exact List.any_eq_true.mpr ⟨entry, member, decide_eq_true reached⟩
  have outcome : db.loadBlockIndexDB =
      db.outcomeOf true (upTo db.tree (db.tree.nHeight last) (start :: later))
        (db.runEntries (upTo db.tree (db.tree.nHeight last) (start :: later)) db.pcoinsTip) := by
    rw [loadBlockIndexDB, branch]
    dsimp only
    rw [found]
    dsimp only
    rw [starts.from_eq]
    dsimp only
    rw [replayLoop_eq, reaches, nil_append]
  rw [FollowsPath, SoundFrom, outcome, starts.from_eq]
  cases ran : db.runEntries (upTo db.tree (db.tree.nHeight last) (start :: later))
      db.pcoinsTip with
  | unreadable => exact Iff.rfl
  | failed => exact Iff.rfl
  | applied view =>
    cases flushed : db.flushes with
    | false => simp [outcomeOf, flushed]
    | true =>
      simp only [outcomeOf, flushed, if_true, true_and]
      constructor
      · rintro ⟨other, foundToo, replayed⟩
        cases found.symm.trans foundToo
        exact (starts.isChain_iff linked).mp replayed.path
      · intro unforked
        have path := (starts.isChain_iff linked).mpr unforked
        obtain ⟨tail, shape⟩ := upTo_cons db.tree (db.tree.nHeight last) start later
        have nonempty : upTo db.tree (db.tree.nHeight last) (start :: later) ≠ [] := by
          rw [shape]
          exact cons_ne_nil _ _
        obtain ⟨pindex, member, tip⟩ := runEntries_bestBlock ran nonempty
        exact ⟨best, found, path, ran, pindex, tip,
          below_of_isChain path pindex (mem_cons_of_mem _ member)⟩

/-- Where no entry is right above the best block, the code applies the first block of all,
or reads past the vector: neither is a path. -/
theorem follows_iff_of_none (linked : db.tree.Linked)
    (absent : ∀ pindex ∈ db.tree.vSortedByHeight,
      db.tree.nHeight pindex ≠ db.tree.nHeight best + 1)
    (entries : db.entriesFrom best = db.tree.vSortedByHeight.take 1)
    (branch : db.pindexLastMeta = some last)
    (found : db.tree.mapBlockIndex.lookup db.pcoinsTip.bestBlock = some best) :
    db.FollowsPath ↔ db.SoundFrom best last := by
  have nowhere : ¬ db.Unforked best last := by
    rintro ⟨⟨pindex, first, _⟩, _⟩
    have height := find?_some first
    exact absent pindex (mem_of_find?_eq_some first) (of_decide_eq_true height)
  have member := pindexLastMeta_mem branch
  cases sorted : db.tree.vSortedByHeight with
  | nil =>
    rw [sorted] at member
    cases member
  | cons head rest =>
    have headMember : head ∈ db.tree.vSortedByHeight := by
      rw [sorted]
      exact mem_cons_self
    have single : db.entriesFrom best = [head] := by
      rw [entries, sorted]
      rfl
    have shape : upTo db.tree (db.tree.nHeight last) [head] = [head] := by
      rw [upTo, upTo, ite_self]
    have outcome : db.loadBlockIndexDB =
        db.outcomeOf ([head].any fun entry =>
          decide (db.tree.nHeight last ≤ db.tree.nHeight entry)) [head]
          (db.runEntries [head] db.pcoinsTip) := by
      rw [loadBlockIndexDB, branch]
      dsimp only
      rw [found]
      dsimp only
      rw [single]
      dsimp only
      rw [replayLoop_eq, shape, nil_append]
    rw [FollowsPath, SoundFrom, outcome, single, shape]
    cases db.runEntries [head] db.pcoinsTip with
    | unreadable => exact Iff.rfl
    | failed => exact Iff.rfl
    | applied view =>
      refine iff_of_false (fun follows => ?_) (fun sound => nowhere sound.2)
      simp only [outcomeOf] at follows
      split_ifs at follows
      · obtain ⟨other, foundToo, replayed⟩ := follows
        cases found.symm.trans foundToo
        have edge := (isChain_cons_cons.mp replayed.path).1
        have headKnown := (mem_vSortedByHeight linked).mp headMember
        exact absent head headMember (linked.ranked.rank_parent headKnown edge)
      · exact follows
      · exact follows

/-- In every index, the recovery follows the path from the best block exactly when a block
cannot be read, or all can be applied and the index has no fork on the way. -/
theorem replay_follows_path_iff (linked : db.tree.Linked) :
    db.FollowsPath ↔ db.ReplaySound := by
  unfold ReplaySound
  cases branch : db.pindexLastMeta with
  | none => simp [FollowsPath, loadBlockIndexDB, branch]
  | some last =>
    cases found : db.tree.mapBlockIndex.lookup db.pcoinsTip.bestBlock with
    | none => simp [FollowsPath, loadBlockIndexDB, branch, found]
    | some best =>
      have follows : db.FollowsPath ↔ db.SoundFrom best last := by
        rcases db.starts_or_none best with ⟨earlier, start, later, starts⟩ | ⟨absent, entries⟩
        · exact starts.follows_iff linked branch found
        · exact follows_iff_of_none linked absent entries branch found
      rw [follows]
      constructor
      · intro sound last' best' same sameToo
        cases same
        cases sameToo
        exact sound
      · intro sound
        exact sound last best rfl rfl

/-- An index into which the blocks were put in their order, at the addresses after the
given one. -/
def indexOf : List CBlock → BlockPtr → BlockTree → BlockTree
  | [], _, tree => tree
  | block :: rest, pindexNew, tree => indexOf rest (pindexNew + 1) (tree.insertBlock pindexNew block)

/-- The state after a crash right after the genesis block was flushed. -/
def afterGenesis (blocks : List CBlock) (nHeightLast : Nat) : LoadedDb where
  tree := indexOf blocks 0
    { mapBlockIndex := ∅, phashBlock := fun _ => 0, pprev := fun _ => none,
      pskip := fun _ => none, nHeight := fun _ => 0, nChainWork := fun _ => 0 }
  blockFile := fun pindex => blocks[pindex]?
  pcoinsTip := ⟨fun _ => CCoins.cleared, mainParams.hashGenesisBlock⟩
  nHeightLast := nHeightLast

/-- A block that only has a coinbase. -/
def coinbaseBlock (hash hashPrevBlock : Uint256) : CBlock :=
  { hash := hash, hashPrevBlock := hashPrevBlock
    vtx := [{ hash := 50 + hash
              vin := [{ prevout := COutPoint.null, scriptSig := [0, 0] }]
              vout := [⟨coin, [1]⟩] }] }

/-- Two blocks on the genesis block, and the file info of the first. -/
def straightCrash : LoadedDb :=
  afterGenesis [coinbaseBlock mainParams.hashGenesisBlock 0,
    coinbaseBlock 1 mainParams.hashGenesisBlock, coinbaseBlock 2 1] 1

/-- Two blocks on the genesis block, one on the first of them, and the file info of all. -/
def forkedCrash : LoadedDb :=
  afterGenesis [coinbaseBlock mainParams.hashGenesisBlock 0,
    coinbaseBlock 1 mainParams.hashGenesisBlock, coinbaseBlock 2 mainParams.hashGenesisBlock,
    coinbaseBlock 3 1] 2

/-- Without a fork the two blocks are applied. -/
theorem straightCrash_follows : straightCrash.tree.Linked ∧
    straightCrash.pindexLastMeta = some 2 ∧ straightCrash.FollowsPath := by
  have linked : straightCrash.tree.Linked := linked_of_entries (by decide)
  have taken : straightCrash.pindexLastMeta = some 2 := by decide
  refine ⟨linked, taken, (replay_follows_path_iff linked).mpr ?_⟩
  intro last best branch found
  cases branch.symm.trans taken
  cases found.symm.trans (show _ = some 0 by decide)
  refine ⟨rfl, ⟨1, by decide, by decide⟩, ?_⟩
  intro left right leftKnown rightKnown level _ _
  have single : ∀ left ∈ straightCrash.tree.entries, ∀ right ∈ straightCrash.tree.entries,
      straightCrash.tree.nHeight left = straightCrash.tree.nHeight right → left = right := by
    decide
  exact single left (linked.mem_entries.mpr leftKnown) right (linked.mem_entries.mpr rightKnown)
    level

/-- The blocks of both branches are applied. -/
theorem forkedCrash_strays : forkedCrash.tree.Linked ∧
    (∃ view, forkedCrash.loadBlockIndexDB = .replayed view [1, 2, 3] ∧
      forkedCrash.tree.pprev 1 = some 0 ∧ forkedCrash.tree.pprev 2 = some 0) ∧
    ¬ forkedCrash.FollowsPath := by
  have replayed : ∃ view, forkedCrash.loadBlockIndexDB = .replayed view [1, 2, 3] := ⟨_, rfl⟩
  refine ⟨linked_of_entries (by decide), ?_, ?_⟩
  · obtain ⟨view, outcome⟩ := replayed
    exact ⟨view, outcome, by decide, by decide⟩
  · obtain ⟨view, outcome⟩ := replayed
    rw [FollowsPath, outcome]
    rintro ⟨best, _, path⟩
    have step := (isChain_cons_cons.mp path.path).2
    have edge : forkedCrash.tree.pprev 2 = some 1 := (isChain_cons_cons.mp step).1
    exact absurd edge (by decide)

end LoadedDb

end CentNode
