import CentNode.Coins.Refinement
import CentNode.Coins.FlatCoins

/-!
# Operations on the top of a stack of caches

A stack is driven by operations on its topmost cache, side by side with a flat
map to which the same changes are made.  The coins agree along every run.  The
best block agrees exactly along the runs in which no cache hands a zero hash
down to a cache that knows better: `CCoinsViewDB::BatchWrite` guards against
that, `CCoinsViewCache::BatchWrite` does not.
-/

namespace CentNode

inductive CacheOp where
  | getCoins (txid : Uint256)
  | haveCoins (txid : Uint256)
  | getBestBlock
  | modifyCoins (txid : Uint256) (change : CCoins → CCoins)
  | setBestBlock (hash : Uint256)
  | flush
  | push
  | pop

/-- The stack, for each of its caches whether it is flushed (nothing was
changed in it since its construction or its last `Flush`), and the flat map. -/
structure CacheStack where
  view : CCoinsView
  flushed : List Bool
  flat : FlatCoins

namespace CacheStack

open CCoinsView Runs

/-- No cache yet, over a store of any content. -/
def overStore (store : CCoinsViewDB) : CacheStack where
  view := .db store
  flushed := []
  flat := { coins := (CCoinsView.db store).coinsAt, bestBlock := store.hashBestChain }

def step (stack : CacheStack) : CacheOp → Option CacheStack
  | .getCoins txid => some { stack with view := (stack.view.getCoins txid).2 }
  | .haveCoins txid => some { stack with view := (stack.view.haveCoins txid).2 }
  | .getBestBlock => some { stack with view := stack.view.getBestBlock.2 }
  | .modifyCoins txid change =>
    some { view := stack.view.modifyCoins txid change
           flushed := false :: stack.flushed.tail
           flat := stack.flat.modifyCoins txid change }
  | .setBestBlock hash =>
    some { view := stack.view.setBestBlock hash
           flushed := false :: stack.flushed.tail
           flat := { stack.flat with bestBlock := hash } }
  | .flush =>
    stack.view.flush.map fun view =>
      { stack with
        view := view
        flushed := true :: match stack.flushed.tail with
          | [] => []
          | _ :: rest => false :: rest }
  | .push => some { stack with view := stack.view.push, flushed := true :: stack.flushed }
  | .pop => some { stack with view := stack.view.pop, flushed := stack.flushed.tail }

/-- Only a cache is changed or flushed, and only a flushed cache is popped. -/
def Admitted (stack : CacheStack) : CacheOp → Prop
  | .modifyCoins _ _ => stack.flushed ≠ []
  | .setBestBlock _ => stack.flushed ≠ []
  | .flush => stack.flushed ≠ []
  | .pop => stack.flushed.head? = some true
  | _ => True

def CoinsAgree (stack : CacheStack) : Prop :=
  ∀ txid, (stack.view.coinsAt txid).same (stack.flat.coins txid) = true

def BestAgree (stack : CacheStack) : Prop := stack.view.best = stack.flat.bestBlock

/-- A change does not tell one empty record from another. -/
def IgnoresEmpty (change : CCoins → CCoins) : Prop :=
  ∀ left right, left.isPruned = true → right.isPruned = true →
    (change left).same (change right) = true

/-- Where pruned and absent are one, a change of an empty record takes all
empty records alike. -/
def ChangesRecords (stack : CacheStack) : CacheOp → Prop
  | .modifyCoins txid change => (stack.view.coinsAt txid).isPruned = true → IgnoresEmpty change
  | _ => True

/-- The steps that keep the best block: `SetBestBlock` is not given zero over a
base that has a best block, and a cache that never learnt its best block is not
flushed into a cache that holds another one than its own base. -/
def KeepsBest (stack : CacheStack) : CacheOp → Prop
  | .setBestBlock hash => hash = 0 → stack.view.pop.best = 0
  | .flush =>
    match stack.view with
    | .cache self (.cache below base) =>
      self.hashBlock = 0 → below.hashBlock = 0 ∨ below.hashBlock = base.best
    | _ => True
  | _ => True

instance (stack : CacheStack) : DecidablePred (Admitted stack)
  | .modifyCoins _ _ => inferInstanceAs (Decidable (stack.flushed ≠ []))
  | .setBestBlock _ => inferInstanceAs (Decidable (stack.flushed ≠ []))
  | .flush => inferInstanceAs (Decidable (stack.flushed ≠ []))
  | .pop => inferInstanceAs (Decidable (stack.flushed.head? = some true))
  | .getCoins _ | .haveCoins _ | .getBestBlock | .push => inferInstanceAs (Decidable True)

instance (stack : CacheStack) : Decidable (BestAgree stack) :=
  inferInstanceAs (Decidable (stack.view.best = stack.flat.bestBlock))

instance (stack : CacheStack) : DecidablePred (KeepsBest stack)
  | .setBestBlock hash => inferInstanceAs (Decidable (hash = 0 → stack.view.pop.best = 0))
  | .flush =>
    match stack with
    | ⟨.cache self (.cache below base), _, _⟩ =>
      inferInstanceAs (Decidable
        (self.hashBlock = 0 → below.hashBlock = 0 ∨ below.hashBlock = base.best))
    | ⟨.cache _ (.db _), _, _⟩ | ⟨.db _, _, _⟩ => inferInstanceAs (Decidable True)
  | .getCoins _ | .haveCoins _ | .getBestBlock | .modifyCoins _ _ | .push | .pop =>
    inferInstanceAs (Decidable True)

/-! ## The invariant -/

/-- A flushed cache has no dirty entry and shows the best block of its base. -/
def Settled : CCoinsView → List Bool → Prop
  | .db _, flags => flags = []
  | .cache _ _, [] => False
  | .cache self base, flag :: flags =>
    Settled base flags ∧
      (flag = true →
        (∀ txid entry, self.cacheCoins.lookup txid = some entry → entry.dirty = false) ∧
          (CCoinsView.cache self base).best = base.best)

structure Invariant (stack : CacheStack) : Prop where
  wellFormed : stack.view.WellFormed
  settled : Settled stack.view stack.flushed

theorem Invariant.of_overStore (store : CCoinsViewDB) : Invariant (overStore store) := ⟨trivial, rfl⟩

variable {view : CCoinsView} {flags : List Bool}

theorem Settled.cache_of_flag (settled : Settled view flags) (some_flag : flags ≠ []) :
    ∃ self base flag rest, view = .cache self base ∧ flags = flag :: rest := by
  cases view with
  | db store => exact absurd settled some_flag
  | cache self base =>
    cases flags with
    | nil => exact absurd rfl some_flag
    | cons flag rest => exact ⟨self, base, flag, rest, rfl, rfl⟩

theorem remember_clean {self : CCoinsViewCache} (txid : Uint256) (coins : CCoins)
    (clean : ∀ other entry, self.cacheCoins.lookup other = some entry → entry.dirty = false) :
    ∀ other entry, (self.remember txid coins).cacheCoins.lookup other = some entry →
      entry.dirty = false := by
  intro other entry held
  rw [CCoinsViewCache.remember, StdMap.lookup_insert_ite] at held
  split at held
  · cases held
    rfl
  · exact clean other entry held

/-- Reading adds clean entries only. -/
theorem Settled.getCoins (ok : view.WellFormed) (settled : Settled view flags) (txid : Uint256) :
    Settled (view.getCoins txid).2 flags := by
  induction view generalizing flags with
  | db store => exact settled
  | cache self base ih =>
    cases flags with
    | nil => exact settled.elim
    | cons flag rest =>
      have keptBest := (getCoins_keeps base ok.1 txid).1.best_eq
      have below := ih ok.1 settled.1
      rw [CCoinsView.getCoins]
      cases self.cacheCoins.lookup txid with
      | some entry => exact settled
      | none =>
        rcases fetch : base.getCoins txid with ⟨result, fetched⟩
        rw [fetch] at below keptBest
        have best_eq : ∀ other : CCoinsViewCache, other.hashBlock = self.hashBlock →
            (CCoinsView.cache self base).best = base.best →
              (CCoinsView.cache other fetched).best = fetched.best := by
          intro other sameHash shown
          rw [best_cache] at shown ⊢
          rw [sameHash, keptBest, shown]
        cases result with
        | none => exact ⟨below, fun up => ⟨(settled.2 up).1, best_eq self rfl (settled.2 up).2⟩⟩
        | some coins =>
          exact ⟨below, fun up => ⟨remember_clean txid coins (settled.2 up).1,
            best_eq (self.remember txid coins) rfl (settled.2 up).2⟩⟩

theorem Settled.getBestBlock (ok : view.WellFormed) (settled : Settled view flags) :
    Settled view.getBestBlock.2 flags := by
  induction view generalizing flags with
  | db store => exact settled
  | cache self base ih =>
    cases flags with
    | nil => exact settled.elim
    | cons flag rest =>
      have kept := getBestBlock_keeps (.cache self base) ok
      rw [CCoinsView.getBestBlock] at kept ⊢
      split
      · next unset =>
          rw [if_pos unset] at kept
          refine ⟨ih ok.1 settled.1, fun up => ⟨(settled.2 up).1, ?_⟩⟩
          rw [kept.best_eq, (getBestBlock_keeps base ok.1).best_eq]
          exact (settled.2 up).2
      · exact settled

theorem haveCoins_snd (view : CCoinsView) (txid : Uint256) :
    (view.haveCoins txid).2 = (view.getCoins txid).2 := by
  unfold haveCoins
  rcases view.getCoins txid with ⟨result, fetched⟩
  cases result <;> rfl

theorem Settled.modifyCoins {self : CCoinsViewCache} {base : CCoinsView} {flag : Bool}
    (ok : (CCoinsView.cache self base).WellFormed)
    (settled : Settled (.cache self base) (flag :: flags)) (txid : Uint256)
    (change : CCoins → CCoins) :
    Settled ((CCoinsView.cache self base).modifyCoins txid change) (false :: flags) := by
  refine ⟨?_, fun impossible => (nomatch impossible)⟩
  unfold openModifier
  cases self.cacheCoins.lookup txid with
  | some entry => exact settled.1
  | none =>
    have below := settled.1.getCoins ok.1 txid
    rcases fetch : base.getCoins txid with ⟨result, fetched⟩
    rw [fetch] at below
    cases result <;> exact below

/-! ## One step -/

/-- What one step does to a stack that satisfies the invariant: it is defined,
it keeps the invariant, and it follows the flat map. -/
structure Follows (stack : CacheStack) (op : CacheOp) (next : CacheStack) : Prop where
  stepped : step stack op = some next
  invariant : Invariant next
  coins : ChangesRecords stack op → CoinsAgree stack → CoinsAgree next
  best : BestAgree stack → (BestAgree next ↔ KeepsBest stack op)

variable {stack : CacheStack}

theorem follows_of_reads {op : CacheOp} (keeps : ReadKeeps stack.view view)
    (settled : Settled view stack.flushed)
    (stepped : step stack op = some { stack with view := view }) (harmless : KeepsBest stack op) :
    Follows stack op { stack with view := view } where
  stepped := stepped
  invariant := ⟨keeps.wellFormed, settled⟩
  coins := fun _ agree txid => by
    change (view.coinsAt txid).same _ = true
    rw [keeps.coinsAt_eq]
    exact agree txid
  best := fun agree => iff_of_true (keeps.best_eq.trans agree) harmless

section

variable (inv : Invariant stack)

include inv

theorem follows_modifyCoins (txid : Uint256) (change : CCoins → CCoins)
    (admitted : Admitted stack (.modifyCoins txid change)) :
    ∃ next, Follows stack (.modifyCoins txid change) next := by
  obtain ⟨view, flags, flat⟩ := stack
  obtain ⟨self, base, flag, rest, rfl, rfl⟩ := inv.settled.cache_of_flag admitted
  obtain ⟨wellFormed, changed, untouched, best_eq⟩ := modifyCoins_spec txid change inv.wellFormed
  refine ⟨_, rfl, ⟨wellFormed, inv.settled.modifyCoins inv.wellFormed txid change⟩, ?_,
    fun agree => iff_of_true (best_eq.trans agree) trivial⟩
  intro respects agree other
  by_cases same : other = txid
  · subst same
    have shown := agree other
    have alike : (change ((CCoinsView.cache self base).coinsAt other)).same
        (change (flat.coins other)) = true := by
      rcases CCoins.same_iff.mp shown with ⟨hview, hflat⟩ | equal
      · exact respects hview _ _ hview hflat
      · change (CCoinsView.cache self base).coinsAt other = flat.coins other at equal
        rw [equal]
        exact CCoins.same_refl _
    simpa [FlatCoins.modifyCoins] using CCoins.same_trans changed (CCoins.same_cleanup alike)
  · simpa [FlatCoins.modifyCoins, Function.update_of_ne same, untouched other same]
      using agree other

theorem follows_setBestBlock (hash : Uint256)
    (admitted : Admitted stack (.setBestBlock hash)) :
    ∃ next, Follows stack (.setBestBlock hash) next := by
  obtain ⟨view, flags, flat⟩ := stack
  obtain ⟨self, base, flag, rest, rfl, rfl⟩ := inv.settled.cache_of_flag admitted
  obtain ⟨wellFormed, shows, best_eq⟩ := setBestBlock_spec hash inv.wellFormed
  refine ⟨_, rfl, ⟨wellFormed, inv.settled.1, fun impossible => (nomatch impossible)⟩,
    fun _ agree txid => ?_, fun _ => ?_⟩
  · simpa [shows txid] using agree txid
  · simp only [BestAgree, KeepsBest, best_eq, pop]
    by_cases zero : hash = 0
    · rw [if_pos zero, zero]
      exact ⟨fun agree _ => agree, fun kept => kept rfl⟩
    · rw [if_neg zero]
      exact iff_of_true rfl fun impossible => absurd impossible zero

theorem follows_flush (admitted : Admitted stack .flush) :
    ∃ next, Follows stack .flush next := by
  obtain ⟨view, flags, flat⟩ := stack
  obtain ⟨self, base, flag, rest, rfl, rfl⟩ := inv.settled.cache_of_flag admitted
  -- The cleared cache shows what was written, whatever it was written to.
  have cleared : ∀ written, Written self base written →
      (CCoinsView.cache { self with cacheCoins := ∅ } written).WellFormed ∧
        ∀ txid, ((CCoinsView.cache { self with cacheCoins := ∅ } written).coinsAt txid).same
          ((CCoinsView.cache self base).coinsAt txid) = true := by
    intro written wrote
    refine ⟨⟨wrote.wellFormed, fun txid entry held => by simp at held⟩, fun txid => ?_⟩
    rw [coinsAt_of_none (AList.lookup_empty txid)]
    exact wrote.shows txid
  cases base with
  | db store =>
    obtain ⟨after, wrote, hashed, written⟩ := batchWrite_db self.hashBlock inv.wellFormed
    obtain ⟨wellFormed, shows⟩ := cleared _ written
    have rest_nil : rest = [] := inv.settled.1
    subst rest_nil
    have best_eq : (CCoinsView.cache { self with cacheCoins := ∅ } (.db after)).best =
        (CCoinsView.cache self (.db store)).best := by
      rw [best_cache, best_cache, best_db, best_db, hashed]
      split <;> rfl
    refine ⟨⟨.cache { self with cacheCoins := ∅ } (.db after), [true], flat⟩,
      by simp only [step, flush, wrote, Option.map_some]; rfl,
      ⟨wellFormed, rfl, fun _ => ⟨fun txid entry held => by simp at held, ?_⟩⟩,
      fun _ agree txid => CCoins.same_trans (shows txid) (agree txid),
      fun agree => iff_of_true (best_eq.trans agree) trivial⟩
    rw [best_cache, best_db, hashed]
    split <;> rfl
  | cache below under =>
    obtain ⟨after, wrote, hashed, written⟩ := batchWrite_cache self.hashBlock inv.wellFormed
    obtain ⟨wellFormed, shows⟩ := cleared _ written
    obtain ⟨belowFlag, deeper, rfl⟩ : ∃ belowFlag deeper, rest = belowFlag :: deeper := by
      cases rest with
      | nil => exact inv.settled.1.elim
      | cons belowFlag deeper => exact ⟨belowFlag, deeper, rfl⟩
    refine ⟨⟨.cache { self with cacheCoins := ∅ } (.cache after under),
        true :: false :: deeper, flat⟩,
      by simp only [step, flush, wrote, Option.map_some]; rfl,
      ⟨wellFormed, ⟨inv.settled.1.1, fun impossible => (nomatch impossible)⟩,
        fun _ => ⟨fun txid entry held => by simp at held, ?_⟩⟩,
      fun _ agree txid => CCoins.same_trans (shows txid) (agree txid), fun agree => ?_⟩
    · rw [best_cache, best_cache, hashed]
      split <;> rfl
    · simp only [BestAgree, best_cache] at agree
      simp only [BestAgree, KeepsBest, best_cache, hashed]
      by_cases zero : self.hashBlock = 0
      · rw [if_pos zero] at agree
        rw [if_pos zero, if_pos zero, ← agree]
        split
        · next belowZero => exact iff_of_true rfl fun _ => Or.inl belowZero
        · next belowSet =>
            exact ⟨fun shown _ => Or.inr shown.symm,
              fun kept => ((kept zero).resolve_left belowSet).symm⟩
      · rw [if_neg zero] at agree
        rw [if_neg zero]
        exact iff_of_true agree fun impossible => absurd impossible zero

theorem follows_pop (admitted : Admitted stack .pop) :
    ∃ next, Follows stack .pop next := by
  obtain ⟨view, flags, flat⟩ := stack
  have some_flag : flags ≠ [] := by
    rintro rfl
    cases admitted
  obtain ⟨self, base, flag, rest, rfl, rfl⟩ := inv.settled.cache_of_flag some_flag
  obtain ⟨clean, best_eq⟩ := inv.settled.2 (Option.some.inj admitted)
  refine ⟨_, rfl, ⟨inv.wellFormed.1, inv.settled.1⟩, fun _ agree txid => ?_,
    fun agree => iff_of_true (best_eq.symm.trans agree) trivial⟩
  refine CCoins.same_trans ?_ (agree txid)
  change (base.coinsAt txid).same ((CCoinsView.cache self base).coinsAt txid) = true
  cases held : self.cacheCoins.lookup txid with
  | none =>
    rw [coinsAt_of_none held]
    exact CCoins.same_refl _
  | some entry =>
    rw [coinsAt_of_entry held]
    exact CCoins.same_symm ((inv.wellFormed.2 txid entry held).clean (clean txid entry held))

end

theorem exists_follows {op : CacheOp} (inv : Invariant stack) (admitted : Admitted stack op) :
    ∃ next, Follows stack op next := by
  cases op with
  | getCoins txid =>
    exact ⟨_, follows_of_reads (getCoins_keeps _ inv.wellFormed txid).1
      (inv.settled.getCoins inv.wellFormed txid) rfl trivial⟩
  | haveCoins txid =>
    have read := haveCoins_snd stack.view txid
    exact ⟨_, follows_of_reads (read ▸ (getCoins_keeps _ inv.wellFormed txid).1)
      (read ▸ inv.settled.getCoins inv.wellFormed txid) rfl trivial⟩
  | getBestBlock =>
    exact ⟨_, follows_of_reads (getBestBlock_keeps _ inv.wellFormed)
      (inv.settled.getBestBlock inv.wellFormed) rfl trivial⟩
  | modifyCoins txid change => exact follows_modifyCoins inv txid change admitted
  | setBestBlock hash => exact follows_setBestBlock inv hash admitted
  | flush => exact follows_flush inv admitted
  | push =>
    obtain ⟨wellFormed, shows, best_eq⟩ := push_spec inv.wellFormed
    refine ⟨_, rfl, ⟨wellFormed, inv.settled, fun _ => ⟨fun txid entry held => ?_, best_eq⟩⟩,
      fun _ agree txid => ?_, fun agree => iff_of_true (best_eq.trans agree) trivial⟩
    · simp at held
    · simpa [shows txid] using agree txid
  | pop => exact follows_pop inv admitted

/-! ## Whole runs -/

/-- The top of the stack shows the coins and the best block of the flat map. -/
def Refines (stack : CacheStack) : Prop := CoinsAgree stack ∧ BestAgree stack

/-- No run trips the assertion of `BatchWrite`, and a run that changes records
refines the flat map throughout exactly when its steps keep the best block. -/
theorem cacheStack_refines_flat (store : CCoinsViewDB) (ops : List CacheOp)
    (admitted : Meets step Admitted (overStore store) ops) :
    (∃ final, run step (overStore store) ops = some final) ∧
      (Meets step ChangesRecords (overStore store) ops →
        (Always step Refines (overStore store) ops ↔ Meets step KeepsBest (overStore store) ops)) := by
  have progress : ∀ stack op, Invariant stack → Admitted stack op →
      ∃ next, step stack op = some next ∧ Invariant next := by
    intro stack op inv ok
    obtain ⟨next, follows⟩ := exists_follows inv ok
    exact ⟨next, follows.stepped, follows.invariant⟩
  refine ⟨?_, fun changes => ?_⟩
  · obtain ⟨final, ran, _⟩ := run_succeeds progress (Invariant.of_overStore store) admitted
    exact ⟨final, ran⟩
  · refine always_iff_meets
      (fun stack op inv ok => progress stack op inv ok.1) ?_ (Invariant.of_overStore store)
      ⟨fun _ => CCoins.same_refl _, rfl⟩ (admitted.and changes)
    intro stack op next inv ok refines stepped
    obtain ⟨after, follows⟩ := exists_follows inv ok.1
    cases follows.stepped.symm.trans stepped
    have coins := follows.coins ok.2 refines.1
    exact ⟨fun both => (follows.best refines.2).mp both.2,
      fun kept => ⟨coins, (follows.best refines.2).mpr kept⟩⟩

/-- One record, one block, handed down through two caches into the store. -/
def handDown : List CacheOp :=
  [.push, .push, .modifyCoins 7 (fun _ => { vout := [⟨5, []⟩] }), .setBestBlock 3, .flush,
    .pop, .getCoins 7, .flush, .pop, .getBestBlock]

theorem cacheStack_refines_flat_handDown :
    Always step Refines (overStore {}) handDown := by
  have admitted : Meets step Admitted (overStore {}) handDown := by
    iterate 10 refine Meets.cons (by decide) rfl ?_
    trivial
  have changes : Meets step ChangesRecords (overStore {}) handDown := by
    iterate 10
      refine Meets.cons (by first | trivial | exact fun _ _ _ _ _ => CCoins.same_refl _) rfl ?_
    trivial
  refine ((cacheStack_refines_flat {} handDown admitted).2 changes).mpr ?_
  iterate 10 refine Meets.cons (by decide) rfl ?_
  trivial

/-- A new cache over one that holds block 3 is flushed before it was read: the
stack then shows the best block of the store, which has none. -/
theorem not_refines_after_zero_flush :
    ∃ final, run step (overStore {}) [.push, .setBestBlock 3, .push, .flush, .pop] = some final ∧
      Meets step Admitted (overStore {}) [.push, .setBestBlock 3, .push, .flush, .pop] ∧
        final.view.best = 0 ∧ final.flat.bestBlock = 3 ∧ ¬ Refines final := by
  refine ⟨_, rfl, ?_, rfl, rfl, fun refines => ?_⟩
  · iterate 5 refine Meets.cons (by decide) rfl ?_
    trivial
  · exact absurd refines.2 (by decide)

end CacheStack

end CentNode
