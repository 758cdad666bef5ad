import CentNode.Library.Runs
import CentNode.Coins.ViewCache

/-!
# A stack of caches behaves as one flat map

The invariant of a cache entry says what its flags promise about the base: a
clean entry repeats the base, a fresh one stands over nothing, and an entry
that is not fresh was once fetched, so that a cache below holds an entry too.
-/

namespace CentNode

open CCoins

namespace CCoinsView

/-- The result of `GetCoins`. -/
def found (view : CCoinsView) (txid : Uint256) : Option CCoins := (view.getCoins txid).1

/-- The coins seen at the top of the stack; an absent record is an empty one. -/
def coinsAt (view : CCoinsView) (txid : Uint256) : CCoins := (view.found txid).getD CCoins.cleared

/-- The result of `GetBestBlock`. -/
def best (view : CCoinsView) : Uint256 := view.getBestBlock.1

/-- A cache holds an entry for the transaction; the database needs none. -/
def Knows : CCoinsView → Uint256 → Prop
  | .db _, _ => True
  | .cache self _, txid => self.cacheCoins.lookup txid ≠ none

structure EntryOk (base : CCoinsView) (txid : Uint256) (entry : CCoinsCacheEntry) : Prop where
  clean : entry.dirty = false → entry.coins.same (base.coinsAt txid) = true
  fresh : entry.fresh = true → (base.coinsAt txid).isPruned = true
  known : entry.fresh = false → base.Knows txid

def WellFormed : CCoinsView → Prop
  | .db _ => True
  | .cache self base =>
    WellFormed base ∧
      ∀ txid entry, self.cacheCoins.lookup txid = some entry → EntryOk base txid entry

/-! ## Reading -/

@[simp]
theorem found_db (store : CCoinsViewDB) (txid : Uint256) :
    (CCoinsView.db store).found txid = store.coins.lookup txid := rfl

theorem found_cache (self : CCoinsViewCache) (base : CCoinsView) (txid : Uint256) :
    (CCoinsView.cache self base).found txid =
      match self.cacheCoins.lookup txid with
      | some entry => some entry.coins
      | none => base.found txid := by
  unfold found
  rw [getCoins]
  cases self.cacheCoins.lookup txid with
  | some entry => rfl
  | none =>
    rcases base.getCoins txid with ⟨result, fetched⟩
    cases result <;> rfl

variable {self : CCoinsViewCache} {base : CCoinsView} {txid : Uint256} {entry : CCoinsCacheEntry}

theorem coinsAt_of_entry (held : self.cacheCoins.lookup txid = some entry) :
    (CCoinsView.cache self base).coinsAt txid = entry.coins := by
  simp [coinsAt, found_cache, held]

theorem coinsAt_of_none (missing : self.cacheCoins.lookup txid = none) :
    (CCoinsView.cache self base).coinsAt txid = base.coinsAt txid := by
  simp [coinsAt, found_cache, missing]

@[simp]
theorem best_db (store : CCoinsViewDB) : (CCoinsView.db store).best = store.hashBestChain := rfl

theorem best_cache (self : CCoinsViewCache) (base : CCoinsView) :
    (CCoinsView.cache self base).best =
      if self.hashBlock = 0 then base.best else self.hashBlock := by
  unfold best
  rw [getBestBlock]
  split <;> rfl

theorem EntryOk.transport {other : CCoinsView} (ok : EntryOk base txid entry)
    (shows : other.coinsAt txid = base.coinsAt txid) (holds : base.Knows txid → other.Knows txid) :
    EntryOk other txid entry where
  clean := by rw [shows]; exact ok.clean
  fresh := by rw [shows]; exact ok.fresh
  known := fun stale => holds (ok.known stale)

/-- What reading does not change, and what it adds. -/
structure ReadKeeps (view read : CCoinsView) : Prop where
  wellFormed : read.WellFormed
  found_eq : ∀ txid, read.found txid = view.found txid
  knows : ∀ txid, view.Knows txid → read.Knows txid
  best_eq : read.best = view.best

variable {view read : CCoinsView}

theorem ReadKeeps.coinsAt_eq (keeps : ReadKeeps view read) (txid : Uint256) :
    read.coinsAt txid = view.coinsAt txid := by
  rw [coinsAt, coinsAt, keeps.found_eq]

theorem ReadKeeps.refl (ok : view.WellFormed) : ReadKeeps view view :=
  ⟨ok, fun _ => rfl, fun _ => id, rfl⟩

theorem ReadKeeps.under (keeps : ReadKeeps base read)
    (ok : (CCoinsView.cache self base).WellFormed) :
    ReadKeeps (.cache self base) (.cache self read) where
  wellFormed := ⟨keeps.wellFormed, fun txid entry held =>
    (ok.2 txid entry held).transport (keeps.coinsAt_eq txid) (keeps.knows txid)⟩
  found_eq := fun txid => by rw [found_cache, found_cache, keeps.found_eq]
  knows := fun _ => id
  best_eq := by rw [best_cache, best_cache, keeps.best_eq]

theorem ReadKeeps.trans {middle : CCoinsView} (first : ReadKeeps view middle)
    (second : ReadKeeps middle read) : ReadKeeps view read where
  wellFormed := second.wellFormed
  found_eq := fun txid => (second.found_eq txid).trans (first.found_eq txid)
  knows := fun txid held => second.knows txid (first.knows txid held)
  best_eq := second.best_eq.trans first.best_eq

theorem remember_keeps {coins : CCoins} (ok : (CCoinsView.cache self base).WellFormed)
    (missing : self.cacheCoins.lookup txid = none) (shown : base.found txid = some coins)
    (known : base.Knows txid) :
    ReadKeeps (.cache self base) (.cache (self.remember txid coins) base) := by
  have visible : base.coinsAt txid = coins := by simp [coinsAt, shown]
  have lookup_eq : ∀ other, (self.remember txid coins).cacheCoins.lookup other =
      if other = txid then some ⟨coins, false, coins.isPruned⟩
      else self.cacheCoins.lookup other :=
    fun other => StdMap.lookup_insert_ite txid other _ self.cacheCoins
  refine ⟨⟨ok.1, fun other entry held => ?_⟩, fun other => ?_, fun other held => ?_, ?_⟩
  · rw [lookup_eq other] at held
    split at held
    · next same =>
        cases held
        subst same
        exact ⟨fun _ => by simp [visible], fun pruned => by simpa [visible] using pruned,
          fun _ => known⟩
    · exact ok.2 other entry held
  · rw [found_cache, found_cache, lookup_eq other]
    by_cases same : other = txid
    · subst same
      simp [missing, shown]
    · simp [same]
  · change (self.remember txid coins).cacheCoins.lookup other ≠ none
    rw [lookup_eq other]
    split
    · simp
    · exact held
  · rw [best_cache, best_cache]
    rfl

theorem getCoins_keeps (view : CCoinsView) (ok : view.WellFormed) (txid : Uint256) :
    ReadKeeps view (view.getCoins txid).2 ∧
      (view.found txid ≠ none → (view.getCoins txid).2.Knows txid) := by
  induction view with
  | db store => exact ⟨ReadKeeps.refl ok, fun _ => trivial⟩
  | cache self base ih =>
    obtain ⟨baseKeeps, baseKnows⟩ := ih ok.1
    have lifted := baseKeeps.under ok
    rw [getCoins, found_cache]
    cases missing : self.cacheCoins.lookup txid with
    | some entry => exact ⟨ReadKeeps.refl ok, fun _ => by simp [Knows, missing]⟩
    | none =>
      have shown := baseKeeps.found_eq txid
      rcases fetch : base.getCoins txid with ⟨result, fetched⟩
      have seen : base.found txid = result := by rw [found, fetch]
      rw [fetch] at baseKnows lifted shown
      rw [seen] at baseKnows shown ⊢
      cases result with
      | none => exact ⟨lifted, fun impossible => absurd rfl impossible⟩
      | some coins =>
        have remembered := remember_keeps lifted.wellFormed missing shown
          (baseKnows (by simp))
        refine ⟨lifted.trans remembered, fun _ => ?_⟩
        simp [Knows, CCoinsViewCache.remember]

theorem getBestBlock_keeps (view : CCoinsView) (ok : view.WellFormed) :
    ReadKeeps view view.getBestBlock.2 := by
  induction view with
  | db store => exact ReadKeeps.refl ok
  | cache self base ih =>
    rw [getBestBlock]
    split
    · next unset =>
        have lifted := (ih ok.1).under ok
        refine ⟨lifted.wellFormed, fun txid => ?_, lifted.knows, ?_⟩
        · rw [← lifted.found_eq txid, found_cache, found_cache]
        · rw [best_cache, best_cache, if_pos unset]
          change (if base.best = 0 then _ else base.best) = base.best
          split
          · exact (ih ok.1).best_eq
          · rfl
    · exact ReadKeeps.refl ok

/-! ## Writing -/

/-- The entry a modifier opens shows the coins of the view, and keeps its
promises about the base as `ModifyCoins` leaves it. -/
theorem openModifier_spec (txid : Uint256) (ok : (CCoinsView.cache self base).WellFormed) :
    (openModifier self base txid).1.coins = (CCoinsView.cache self base).coinsAt txid ∧
      EntryOk (openModifier self base txid).2 txid (openModifier self base txid).1 ∧
        (openModifier self base txid).1.dirty = true ∧
          ReadKeeps base (openModifier self base txid).2 := by
  unfold openModifier
  cases held : self.cacheCoins.lookup txid with
  | some entry =>
    have promises := ok.2 txid entry held
    exact ⟨(coinsAt_of_entry held).symm,
      ⟨fun impossible => (nomatch impossible), promises.fresh, promises.known⟩, rfl,
      ReadKeeps.refl ok.1⟩
  | none =>
    obtain ⟨keeps, knows⟩ := getCoins_keeps base ok.1 txid
    rw [coinsAt_of_none held]
    rcases fetch : base.getCoins txid with ⟨result, fetched⟩
    have seen : base.found txid = result := by rw [found, fetch]
    have visible : base.coinsAt txid = result.getD cleared := by rw [coinsAt, seen]
    have after := (keeps.coinsAt_eq txid).trans visible
    rw [fetch] at keeps knows after
    rw [seen] at knows
    rw [visible]
    cases result with
    | none =>
      exact ⟨rfl, ⟨fun impossible => (nomatch impossible), fun _ => by simp [after],
        fun impossible => (nomatch impossible)⟩, rfl, keeps⟩
    | some coins =>
      exact ⟨rfl, ⟨fun impossible => (nomatch impossible), fun pruned => by simpa [after] using pruned,
        fun _ => knows (by simp)⟩, rfl, keeps⟩

theorem EntryOk.rewrite (ok : EntryOk base txid entry) (dirty : entry.dirty = true)
    (coins : CCoins) :
    EntryOk base txid { entry with coins := coins } where
  clean := fun impossible => by simp [dirty] at impossible
  fresh := ok.fresh
  known := ok.known

/-- Closing a modifier keeps the cache well formed, shows the trimmed coins for
the transaction, and what the base and the other entries show elsewhere. -/
theorem closeModifier_spec (ok : (CCoinsView.cache self base).WellFormed)
    (promises : EntryOk base txid entry) (dirty : entry.dirty = true) :
    (CCoinsView.cache (closeModifier self txid entry) base).WellFormed ∧
      ((CCoinsView.cache (closeModifier self txid entry) base).coinsAt txid).same
          entry.coins.cleanup = true ∧
        ∀ other, other ≠ txid →
          (CCoinsView.cache (closeModifier self txid entry) base).coinsAt other =
            (CCoinsView.cache self base).coinsAt other := by
  simp only [closeModifier]
  split
  · next dropped =>
      rw [Bool.and_eq_true] at dropped
      have lookup_eq := fun other => StdMap.lookup_erase_ite txid other self.cacheCoins
      refine ⟨⟨ok.1, fun other found held => ?_⟩, ?_, fun other differs => ?_⟩
      · rw [lookup_eq other] at held
        split at held
        · cases held
        · exact ok.2 other found held
      · rw [coinsAt_of_none (by simp)]
        exact same_of_pruned (promises.fresh dropped.1) dropped.2
      · simp only [coinsAt, found_cache, lookup_eq other, if_neg differs]
  · have lookup_eq := fun other =>
      StdMap.lookup_insert_ite txid other { entry with coins := entry.coins.cleanup }
        self.cacheCoins
    refine ⟨⟨ok.1, fun other found held => ?_⟩, ?_, fun other differs => ?_⟩
    · rw [lookup_eq other] at held
      split at held
      · next same =>
          cases held
          subst same
          exact promises.rewrite dirty _
      · exact ok.2 other found held
    · rw [coinsAt_of_entry (AList.lookup_insert self.cacheCoins)]
      exact same_refl _
    · simp only [coinsAt, found_cache, lookup_eq other, if_neg differs]

theorem closeModifier_hashBlock (self : CCoinsViewCache) (txid : Uint256)
    (entry : CCoinsCacheEntry) : (closeModifier self txid entry).hashBlock = self.hashBlock := by
  simp only [closeModifier]
  split <;> rfl

/-- `ModifyCoins` changes the coins of its transaction and nothing else. -/
theorem modifyCoins_spec (txid : Uint256) (change : CCoins → CCoins)
    (ok : (CCoinsView.cache self base).WellFormed) :
    ((CCoinsView.cache self base).modifyCoins txid change).WellFormed ∧
      (((CCoinsView.cache self base).modifyCoins txid change).coinsAt txid).same
          (change ((CCoinsView.cache self base).coinsAt txid)).cleanup = true ∧
        (∀ other, other ≠ txid →
          ((CCoinsView.cache self base).modifyCoins txid change).coinsAt other =
            (CCoinsView.cache self base).coinsAt other) ∧
          ((CCoinsView.cache self base).modifyCoins txid change).best =
            (CCoinsView.cache self base).best := by
  obtain ⟨shown, promises, dirty, keeps⟩ := openModifier_spec txid ok
  have lifted := keeps.under ok
  obtain ⟨wellFormed, changed, untouched⟩ :=
    closeModifier_spec lifted.wellFormed
      (promises.rewrite dirty (change (openModifier self base txid).1.coins)) dirty
  rw [modifyCoins]
  refine ⟨wellFormed, ?_, fun other differs => ?_, ?_⟩
  · rw [← shown]
    exact changed
  · rw [untouched other differs, lifted.coinsAt_eq other]
  · rw [best_cache, best_cache, closeModifier_hashBlock, keeps.best_eq]

variable (hash : Uint256)

theorem setBestBlock_spec (ok : (CCoinsView.cache self base).WellFormed) :
    ((CCoinsView.cache self base).setBestBlock hash).WellFormed ∧
      (∀ txid, ((CCoinsView.cache self base).setBestBlock hash).coinsAt txid =
        (CCoinsView.cache self base).coinsAt txid) ∧
        ((CCoinsView.cache self base).setBestBlock hash).best =
          if hash = 0 then base.best else hash := by
  refine ⟨⟨ok.1, ok.2⟩, fun txid => ?_, ?_⟩
  · simp only [coinsAt, setBestBlock, found_cache]
  · rw [setBestBlock, best_cache]

theorem push_spec (ok : view.WellFormed) :
    view.push.WellFormed ∧ (∀ txid, view.push.coinsAt txid = view.coinsAt txid) ∧
      view.push.best = view.best := by
  refine ⟨⟨ok, fun txid entry held => ?_⟩, fun txid => ?_, ?_⟩
  · simp at held
  · exact coinsAt_of_none (by simp)
  · rw [push, best_cache, if_pos rfl]

/-- What `BatchWrite` makes of the base of a well-formed cache. -/
structure Written (top : CCoinsViewCache) (base written : CCoinsView) : Prop where
  wellFormed : written.WellFormed
  shows : ∀ txid, (written.coinsAt txid).same ((CCoinsView.cache top base).coinsAt txid) = true

theorem writeEntry_shows {store : CCoinsViewDB} (promises : EntryOk (.db store) txid entry) :
    ∃ after, writeEntry (store.coins.lookup txid) entry = some after ∧
      (after.getD cleared).same entry.coins = true := by
  unfold writeEntry
  cases dirty : entry.dirty with
  | false => exact ⟨store.coins.lookup txid, by simp, same_symm (promises.clean dirty)⟩
  | true =>
    cases pruned : entry.coins.isPruned with
    | true => exact ⟨none, by simp, same_of_pruned rfl pruned⟩
    | false => exact ⟨some entry.coins, by simp, same_refl _⟩

theorem batchWrite_db {store : CCoinsViewDB} (ok : (CCoinsView.cache self (.db store)).WellFormed) :
    ∃ after, (CCoinsView.db store).batchWrite self.cacheCoins hash = some (.db after) ∧
      after.hashBestChain = (if hash = 0 then store.hashBestChain else hash) ∧
        Written self (.db store) (.db after) := by
  obtain ⟨coins, merged, spec⟩ := StdMap.merge_spec writeEntry store.coins self.cacheCoins
    (by
      intro txid entry held
      obtain ⟨after, result, _⟩ := writeEntry_shows (ok.2 txid entry held)
      rw [result]
      simp)
  refine ⟨_, by rw [batchWrite, merged]; rfl, rfl, ⟨trivial, fun txid => ?_⟩⟩
  have here := spec txid
  cases held : self.cacheCoins.lookup txid with
  | none =>
    rw [held] at here
    rw [coinsAt_of_none held, coinsAt, coinsAt, found_db, found_db, Option.some.inj here]
    exact same_refl _
  | some entry =>
    obtain ⟨after, result, shows⟩ := writeEntry_shows (ok.2 txid entry held)
    rw [held] at here
    rw [coinsAt_of_entry held, coinsAt, found_db, Option.some.inj (here.trans result)]
    exact shows

/-- The element of a cache after a write: the assertion on `FRESH` holds, the
promises about the next base are kept, and the coins shown are those written. -/
theorem mergeEntry_shows {below : CCoinsViewCache} (ok : (CCoinsView.cache below base).WellFormed)
    (promises : EntryOk (.cache below base) txid entry) :
    ∃ after, mergeEntry (below.cacheCoins.lookup txid) entry = some after ∧
      (∀ kept, after = some kept → EntryOk base txid kept) ∧
        ((after.elim (base.coinsAt txid) (·.coins)).same entry.coins = true) := by
  unfold mergeEntry
  cases dirty : entry.dirty with
  | false =>
    refine ⟨below.cacheCoins.lookup txid, by simp, fun kept held => ok.2 txid kept held, ?_⟩
    have clean := same_symm (promises.clean dirty)
    cases held : below.cacheCoins.lookup txid with
    | none => rwa [coinsAt_of_none held] at clean
    | some ours => rwa [coinsAt_of_entry held] at clean
  | true =>
    cases held : below.cacheCoins.lookup txid with
    | none =>
      -- An entry that is not fresh was fetched through the cache below.
      have fresh : entry.fresh = true := by
        by_contra stale
        exact promises.known (by simpa using stale) held
      have empty := promises.fresh fresh
      rw [coinsAt_of_none held] at empty
      cases pruned : entry.coins.isPruned with
      | true =>
        exact ⟨none, by simp, fun kept absent => (nomatch absent),
          same_of_pruned empty pruned⟩
      | false =>
        refine ⟨some ⟨entry.coins, true, true⟩, by simp [fresh], ?_, same_refl _⟩
        rintro kept ⟨⟩
        exact ⟨fun impossible => (nomatch impossible), fun _ => empty,
          fun impossible => (nomatch impossible)⟩
    | some ours =>
      have oursOk := ok.2 txid ours held
      cases dropped : ours.fresh && entry.coins.isPruned with
      | true =>
        rw [Bool.and_eq_true] at dropped
        exact ⟨none, by simp [dropped], fun kept absent => (nomatch absent),
          same_of_pruned (oursOk.fresh dropped.1) dropped.2⟩
      | false =>
        refine ⟨some { ours with coins := entry.coins, dirty := true }, ?_, ?_,
          same_refl _⟩
        · simp [dropped]
        · rintro kept ⟨⟩
          exact ⟨fun impossible => (nomatch impossible), oursOk.fresh, oursOk.known⟩

theorem batchWrite_cache {below : CCoinsViewCache}
    (ok : (CCoinsView.cache self (.cache below base)).WellFormed) :
    ∃ after, (CCoinsView.cache below base).batchWrite self.cacheCoins hash =
        some (.cache after base) ∧
      after.hashBlock = hash ∧ Written self (.cache below base) (.cache after base) := by
  have shows := fun txid entry (held : self.cacheCoins.lookup txid = some entry) =>
    mergeEntry_shows ok.1 (ok.2 txid entry held)
  obtain ⟨coins, merged, spec⟩ := StdMap.merge_spec mergeEntry below.cacheCoins self.cacheCoins
    (by
      intro txid entry held
      obtain ⟨after, result, _⟩ := shows txid entry held
      rw [result]
      simp)
  have element : ∀ txid, (∀ kept, coins.lookup txid = some kept → EntryOk base txid kept) ∧
      (((coins.lookup txid).elim (base.coinsAt txid) (·.coins)).same
        ((CCoinsView.cache self (.cache below base)).coinsAt txid) = true) := by
    intro txid
    have here := spec txid
    cases held : self.cacheCoins.lookup txid with
    | none =>
      rw [held] at here
      rw [Option.some.inj here, coinsAt_of_none held]
      refine ⟨ok.1.2 txid, ?_⟩
      cases ours : below.cacheCoins.lookup txid with
      | none => simp [coinsAt_of_none ours]
      | some entry => simp [coinsAt_of_entry ours]
    | some entry =>
      obtain ⟨after, result, promises, agree⟩ := shows txid entry held
      rw [held] at here
      rw [Option.some.inj (here.trans result), coinsAt_of_entry held]
      exact ⟨promises, agree⟩
  refine ⟨_, by rw [batchWrite, merged]; rfl, rfl, ⟨ok.1.1, fun txid => (element txid).1⟩,
    fun txid => ?_⟩
  have agree := (element txid).2
  cases held : coins.lookup txid with
  | none => rwa [coinsAt_of_none (by exact held), ← Option.elim_none (base.coinsAt txid), ← held]
  | some entry => rwa [coinsAt_of_entry (by exact held), ← Option.elim_some (base.coinsAt txid) (·.coins) entry, ← held]

end CCoinsView

end CentNode
