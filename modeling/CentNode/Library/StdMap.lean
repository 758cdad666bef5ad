import Mathlib.Algebra.GroupWithZero.Nat
import Mathlib.Data.List.AList
import Mathlib.Data.List.Sort

/-!
# Keyed containers

A map of the C++ standard library is an association list without repeated
keys.  The operations below follow the container interface: `insertNew` is
`insert`, which keeps an existing value, `AList.insert` is assignment through
`operator[]`, and `merge` is a loop that moves the elements of one map into
another, one key at a time.
-/

/-- `std::map<K, V>` or `boost::unordered_map<K, V>`. -/
abbrev StdMap (K V : Type) : Type := AList (fun _ : K => V)

namespace StdMap

open List AList Option

variable {K V W : Type} [DecidableEq K]

theorem lookup_insert_ite (key other : K) (value : V) (map : StdMap K V) :
    (map.insert key value).lookup other =
      if other = key then some value else map.lookup other := by
  by_cases same : other = key
  · subst same
    simp
  · rw [lookup_insert_ne same, if_neg same]

theorem lookup_erase_ite (key other : K) (map : StdMap K V) :
    (map.erase key).lookup other =
      if other = key then none else map.lookup other := by
  by_cases same : other = key
  · subst same
    simp
  · rw [lookup_erase_ne same, if_neg same]

variable {key : K}

theorem lookup_eq_ite {map : StdMap K V} {found : Option V} (here : map.lookup key = found)
    (other : K) : map.lookup other = if other = key then found else map.lookup other := by
  split
  case isTrue same => rw [same, here]
  case isFalse => rfl

theorem mem_of_lookup {map : StdMap K V} {value : V} (found : map.lookup key = some value) :
    key ∈ map := lookup_isSome.mp (isSome_of_mem found)

theorem length_keys_insert {map : StdMap K V} (new : key ∉ map) (value : V) :
    (map.insert key value).keys.length = map.keys.length + 1 := by
  rw [keys_insert, erase_of_not_mem (mt AList.mem_keys.mpr new), length_cons]

theorem length_keys_erase {map : StdMap K V} (known : key ∈ map) :
    (map.erase key).keys.length = map.keys.length - 1 := by
  rw [keys_erase, length_erase_of_mem (AList.mem_keys.mp known)]

/-- `map.insert(make_pair(key, value))`: an existing value stays. -/
def insertNew (map : StdMap K V) (key : K) (value : V) : StdMap K V :=
  if (map.lookup key).isSome then map else map.insert key value

variable (map : StdMap K V)

theorem lookup_insertNew (key other : K) (value : V) :
    (map.insertNew key value).lookup other =
      if other = key ∧ map.lookup key = none then some value else map.lookup other := by
  unfold insertNew
  cases found : map.lookup key with
  | some old => simp
  | none => simp [lookup_insert_ite]

theorem isSome_lookup_insertNew (key other : K) (value : V) :
    ((map.insertNew key value).lookup other).isSome =
      (decide (other = key) || (map.lookup other).isSome) := by
  rw [lookup_insertNew]
  by_cases same : other = key
  · subst same
    cases map.lookup other <;> simp
  · simp [same]

/-- A loop of `insert` over keys that all get one value. -/
def insertAll (map : StdMap K V) (keys : List K) (value : V) : StdMap K V :=
  keys.foldl (fun current key => current.insertNew key value) map

theorem lookup_insertAll (keys : List K) (value : V) (other : K) :
    (map.insertAll keys value).lookup other =
      if other ∈ keys ∧ map.lookup other = none then some value else map.lookup other := by
  induction keys generalizing map with
  | nil => simp [insertAll]
  | cons key rest ih =>
    have step : map.insertAll (key :: rest) value =
        (map.insertNew key value).insertAll rest value := rfl
    rw [step, ih, lookup_insertNew]
    by_cases same : other = key
    · subst same
      cases map.lookup other <;> simp
    · simp [same]

/-- A loop of `erase` over keys. -/
def eraseAll (map : StdMap K V) (keys : List K) : StdMap K V :=
  keys.foldl (fun current key => current.erase key) map

theorem lookup_eraseAll (keys : List K) (other : K) :
    (map.eraseAll keys).lookup other = if other ∈ keys then none else map.lookup other := by
  induction keys generalizing map with
  | nil => simp [eraseAll]
  | cons key rest ih =>
    have step : map.eraseAll (key :: rest) = eraseAll (map.erase key) rest := rfl
    rw [step, ih, lookup_erase_ite]
    by_cases same : other = key
    · simp [same]
    · simp [same]

/-- What is left of a map when the elements under some keys are erased. -/
def Without (erased : K → Prop) (map left : StdMap K V) : Prop :=
  ∀ key, (erased key → left.lookup key = none) ∧ (¬ erased key → left.lookup key = map.lookup key)

theorem without_none : Without (fun _ => False) map map :=
  fun _ => ⟨fun impossible => impossible.elim, fun _ => rfl⟩

theorem without_erase (key : K) (map : StdMap K V) :
    Without (fun other => other = key) map (map.erase key) := by
  intro other
  rw [lookup_erase_ite]
  exact ⟨fun same => if_pos same, fun different => if_neg different⟩

variable {first second : K → Prop} {left : StdMap K V}

theorem Without.trans {map middle : StdMap K V} (before : Without first map middle)
    (after : Without second middle left) :
    Without (fun key => first key ∨ second key) map left := by
  intro key
  refine ⟨?_, fun neither => ?_⟩
  · intro erased
    by_cases later : second key
    · exact (after key).1 later
    · rw [(after key).2 later]
      exact (before key).1 (erased.resolve_right later)
  · rw [(after key).2 fun later => neither (Or.inr later)]
    exact (before key).2 fun earlier => neither (Or.inl earlier)

theorem Without.congr {map : StdMap K V} (without : Without first map left)
    (same : ∀ key, first key ↔ second key) : Without second map left :=
  fun key => ⟨fun erased => (without key).1 ((same key).mpr erased),
    fun kept => (without key).2 fun erased => kept ((same key).mp erased)⟩

theorem Without.other_iff {map : StdMap K V} (without : Without first map left) :
    Without second map left ↔ ∀ key, (map.lookup key).isSome → (first key ↔ second key) := by
  constructor
  · intro other key present
    constructor
    · intro erased
      by_contra kept
      rw [← (other key).2 kept, (without key).1 erased] at present
      cases present
    · intro erased
      by_contra kept
      rw [← (without key).2 kept, (other key).1 erased] at present
      cases present
  · intro same key
    cases found : map.lookup key with
    | none =>
      have gone : left.lookup key = none := by
        by_cases erased : first key
        · exact (without key).1 erased
        · exact ((without key).2 erased).trans found
      exact ⟨fun _ => gone, fun _ => gone⟩
    | some value =>
      have here := same key (isSome_of_mem found)
      rw [← here, ← found]
      exact without key

/-- A loop of assignments: each item leaves its value under its key, if items
with one key have one value. -/
theorem lookup_insertEach {I : Type} (key : I → K) (value : I → V) (items : List I)
    (map : StdMap K V)
    (single : ∀ first ∈ items, ∀ second ∈ items, key first = key second →
      value first = value second) :
    (∀ item ∈ items, AList.lookup (key item) (items.foldl
      (fun current item => current.insert (key item) (value item)) map) = some (value item)) ∧
      ∀ other, (∀ item ∈ items, key item ≠ other) → AList.lookup other (items.foldl
        (fun current item => current.insert (key item) (value item)) map) = map.lookup other := by
  induction items generalizing map with
  | nil => exact ⟨fun item inside => absurd inside not_mem_nil, fun _ _ => rfl⟩
  | cons head rest ih =>
    obtain ⟨here, elsewhere⟩ := ih (map.insert (key head) (value head))
      fun first inside second insideToo =>
        single first (mem_cons_of_mem _ inside) second (mem_cons_of_mem _ insideToo)
    refine ⟨fun item inside => ?_, fun other apart => ?_⟩
    · by_cases again : ∃ later ∈ rest, key later = key item
      · obtain ⟨later, insideRest, same⟩ := again
        have found := here later insideRest
        rw [same, single later (mem_cons_of_mem _ insideRest) item inside same] at found
        exact found
      · rcases mem_cons.mp inside with rfl | insideRest
        · rw [foldl_cons, elsewhere (key item) fun later member same => again ⟨later, member, same⟩]
          exact lookup_insert _
        · exact absurd ⟨item, insideRest, rfl⟩ again
    · rw [foldl_cons, elsewhere other fun item inside => apart item (mem_cons_of_mem _ inside),
        lookup_insert_ite, if_neg fun same => apart head mem_cons_self same.symm]

/-- A loop that erases every element the predicate does not keep. -/
def keep (map : StdMap K V) (kept : K → V → Bool) : StdMap K V :=
  ⟨map.entries.filter fun entry => kept entry.1 entry.2,
    map.nodupKeys.sublist List.filter_sublist⟩

theorem lookup_keep_eq_some {map : StdMap K V} {kept : K → V → Bool} {value : V} :
    (map.keep kept).lookup key = some value ↔ map.lookup key = some value ∧ kept key value = true := by
  rw [← mem_def, ← mem_def, mem_lookup_iff, mem_lookup_iff]
  exact mem_filter

/-- A loop that changes every value in place. -/
def mapValues (map : StdMap K V) (change : V → V) : StdMap K V where
  entries := map.entries.map (Sigma.map id fun _ => change)
  nodupKeys := by
    rw [List.NodupKeys, List.map₂_keys]
    exact map.nodupKeys

theorem lookup_mapValues (change : V → V) (key : K) :
    (map.mapValues change).lookup key = (map.lookup key).map change :=
  List.dlookup_map₂ key

theorem lookup_mapValues_eq_some {map : StdMap K V} {change : V → V} {value : V} :
    (map.mapValues change).lookup key = some value ↔
      ∃ old, map.lookup key = some old ∧ change old = value := by
  rw [lookup_mapValues, map_eq_some_iff]

/-- What a map shows of its values. -/
def image (map : StdMap K V) (shown : V → W) : StdMap K W where
  entries := map.entries.map (Sigma.map id fun _ => shown)
  nodupKeys := by
    rw [List.NodupKeys, List.map₂_keys]
    exact map.nodupKeys

theorem lookup_image (shown : V → W) (key : K) :
    (map.image shown).lookup key = (map.lookup key).map shown :=
  List.dlookup_map₂ key

theorem erase_insert {map : StdMap K V} (absent : key ∉ map) (value : V) :
    (map.insert key value).erase key = map := by
  refine AList.ext ?_
  change kerase key (AList.entries (map.insert key value)) = map.entries
  rw [entries_insert_of_notMem absent]
  exact kerase_cons_eq rfl

/-! ## Counting the elements -/

theorem perm_erase {map : StdMap K V} {value : V} (found : map.lookup key = some value) :
    map.entries.Perm (⟨key, value⟩ :: AList.entries (map.erase key)) := by
  have member : key ∈ map.entries.keys := AList.mem_keys.mp (mem_of_lookup found)
  obtain ⟨stored, before, after, _, split, erased⟩ := exists_of_kerase member
  have there : (⟨key, stored⟩ : Sigma fun _ : K => V) ∈ map.entries := by
    rw [split]
    exact mem_append_right before mem_cons_self
  cases found.symm.trans (mem_lookup_iff.mpr there)
  have entries_eq : AList.entries (map.erase key) = before ++ after := erased
  rw [entries_eq, split]
  exact perm_middle

theorem countP_erase {map : StdMap K V} {value : V} (found : map.lookup key = some value)
    (property : (Sigma fun _ : K => V) → Bool) :
    map.entries.countP property =
      (AList.entries (map.erase key)).countP property +
        if property ⟨key, value⟩ then 1 else 0 := by
  rw [(perm_erase found).countP_eq, countP_cons]

theorem countP_insert (key : K) (value : V) (property : (Sigma fun _ : K => V) → Bool) :
    (AList.entries (map.insert key value)).countP property =
      (AList.entries (map.erase key)).countP property +
        if property ⟨key, value⟩ then 1 else 0 := by
  have entries_eq : AList.entries (map.insert key value) =
      ⟨key, value⟩ :: AList.entries (map.erase key) := rfl
  rw [entries_eq, countP_cons]

/-! ## Iteration -/

/-- The elements in the order in which an iterator meets them. -/
def inOrder [LinearOrder K] (map : StdMap K V) : List (Sigma fun _ : K => V) :=
  map.entries.insertionSort fun first second => first.1 ≤ second.1

omit [DecidableEq K] in
theorem inOrder_perm [LinearOrder K] (map : StdMap K V) : map.inOrder.Perm map.entries :=
  perm_insertionSort _ map.entries

theorem mem_inOrder [LinearOrder K] {map : StdMap K V} {key : K} {value : V} :
    (⟨key, value⟩ : Sigma fun _ : K => V) ∈ map.inOrder ↔ map.lookup key = some value :=
  (inOrder_perm map).mem_iff.trans mem_lookup_iff.symm

omit [DecidableEq K] in
theorem nodup_inOrder [LinearOrder K] (map : StdMap K V) : (map.inOrder.map Sigma.fst).Nodup :=
  ((inOrder_perm map).map Sigma.fst).nodup_iff.mpr map.nodupKeys

omit [DecidableEq K] in
theorem sorted_inOrder [LinearOrder K] (map : StdMap K V) :
    map.inOrder.Pairwise fun first second => first.1 ≤ second.1 := by
  have total : Std.Total fun first second : Sigma fun _ : K => V => first.1 ≤ second.1 :=
    ⟨fun first second => le_total first.1 second.1⟩
  have transitive : IsTrans (Sigma fun _ : K => V) fun first second => first.1 ≤ second.1 :=
    ⟨fun _ _ _ => le_trans⟩
  exact pairwise_insertionSort _ map.entries

theorem inOrder_eq [LinearOrder K] {map : StdMap K V} {elements : List (Sigma fun _ : K => V)}
    (sorted : elements.Pairwise fun first second => first.1 ≤ second.1) (nodup : elements.Nodup)
    (same : ∀ key value, (⟨key, value⟩ : Sigma fun _ : K => V) ∈ elements ↔
      map.lookup key = some value) :
    map.inOrder = elements := by
  have perm : map.inOrder.Perm elements := by
    rw [perm_ext_iff_of_nodup (List.Nodup.of_map Sigma.fst (nodup_inOrder map)) nodup]
    rintro ⟨key, value⟩
    rw [mem_inOrder, same]
  refine perm.eq_of_pairwise ?_ (sorted_inOrder map) sorted
  rintro ⟨key, value⟩ ⟨other, different⟩ here there below above
  obtain rfl : key = other := le_antisymm below above
  have one : map.lookup key = some value := mem_inOrder.mp here
  have two : map.lookup key = some different := (same key different).mp there
  rw [Option.some.inj (one.symm.trans two)]

/-! ## Sums over a map -/

/-- The sum of a measure over the values of a map. -/
def sumOf (map : StdMap K V) (measure : V → Nat) : Nat :=
  (map.entries.map fun entry => measure entry.2).sum

theorem sumOf_insert {map : StdMap K V} (new : map.lookup key = none) (value : V)
    (measure : V → Nat) :
    sumOf (map.insert key value) measure = measure value + map.sumOf measure := by
  rw [sumOf, entries_insert_of_notMem (lookup_eq_none.mp new), map_cons,
    sum_cons]
  rfl

theorem sumOf_erase {map : StdMap K V} {value : V} (found : map.lookup key = some value)
    (measure : V → Nat) : map.sumOf measure = measure value + sumOf (map.erase key) measure := by
  have parts := ((perm_erase found).map fun entry => measure entry.2).sum_nat
  rw [map_cons, sum_cons] at parts
  exact parts

/-! ## Moving one map into another -/

/-- What a loop over the source map does to the target's element of one key:
the new element, `none` to erase it, and `none` outside for a failed assertion. -/
abbrev MergeRule (V W : Type) : Type := Option V → W → Option (Option V)

/-- One iteration of the loop, for one element of the source map. -/
def mergeOne (rule : MergeRule V W) (target : StdMap K V) (key : K) (element : W) :
    Option (StdMap K V) :=
  match rule (target.lookup key) element with
  | none => none
  | some none => some (target.erase key)
  | some (some value) => some (target.insert key value)

/-- The loop over all elements of the source map. -/
def mergeEntries (rule : MergeRule V W) (target : StdMap K V) :
    List (Sigma fun _ : K => W) → Option (StdMap K V)
  | [] => some target
  | ⟨key, element⟩ :: rest =>
    (mergeOne rule target key element).bind fun next => mergeEntries rule next rest

def merge (rule : MergeRule V W) (target : StdMap K V) (source : StdMap K W) :
    Option (StdMap K V) :=
  mergeEntries rule target source.entries

theorem lookup_mergeOne {rule : MergeRule V W} {target next : StdMap K V} {element : W}
    (merged : mergeOne rule target key element = some next) (other : K) :
    some (next.lookup other) =
      if other = key then rule (target.lookup key) element else some (target.lookup other) := by
  unfold mergeOne at merged
  cases result : rule (target.lookup key) element with
  | none => rw [result] at merged; cases merged
  | some value =>
    rw [result] at merged
    cases value with
    | none =>
      cases merged
      rw [lookup_erase_ite]
      split <;> rfl
    | some value =>
      cases merged
      rw [lookup_insert_ite]
      split <;> rfl

/-- Every iteration succeeds when the rule succeeds at each key of the source:
the keys are distinct, so no iteration sees the effect of another. -/
theorem mergeEntries_spec (rule : MergeRule V W) (entries : List (Sigma fun _ : K => W))
    (distinct : entries.NodupKeys) (target : StdMap K V)
    (succeeds : ∀ key element, entries.dlookup key = some element →
      rule (target.lookup key) element ≠ none) :
    ∃ next, mergeEntries rule target entries = some next ∧
      ∀ key, some (next.lookup key) =
        match entries.dlookup key with
        | none => some (target.lookup key)
        | some element => rule (target.lookup key) element := by
  induction entries generalizing target with
  | nil => exact ⟨target, rfl, fun key => rfl⟩
  | cons head rest ih =>
    obtain ⟨key, element⟩ := head
    obtain ⟨fresh, restDistinct⟩ := nodupKeys_cons.mp distinct
    have absent : rest.dlookup key = none := dlookup_eq_none.mpr fresh
    have ok := succeeds key element (dlookup_cons_eq rest key element)
    obtain ⟨middle, merged⟩ : ∃ middle, mergeOne rule target key element = some middle := by
      unfold mergeOne
      cases result : rule (target.lookup key) element with
      | none => exact absurd result ok
      | some value => cases value <;> exact ⟨_, rfl⟩
    have middleLookup := lookup_mergeOne merged
    have untouched : ∀ other, other ≠ key → middle.lookup other = target.lookup other := by
      intro other differs
      have found := middleLookup other
      rw [if_neg differs] at found
      exact Option.some.inj found
    obtain ⟨next, ran, spec⟩ := ih restDistinct middle (by
      intro other value found
      have differs : other ≠ key := by
        intro same
        subst same
        rw [absent] at found
        cases found
      rw [untouched other differs]
      exact succeeds other value (by rw [dlookup_cons_ne rest ⟨key, element⟩ differs]; exact found))
    refine ⟨next, ?_, ?_⟩
    · simp only [mergeEntries, merged, bind_some, ran]
    · intro other
      rw [spec other]
      by_cases same : other = key
      · subst same
        have found := middleLookup other
        rw [if_pos rfl] at found
        rw [absent, dlookup_cons_eq]
        exact found
      · rw [dlookup_cons_ne rest ⟨key, element⟩ same, untouched other same]

theorem merge_spec (rule : MergeRule V W) (target : StdMap K V) (source : StdMap K W)
    (succeeds : ∀ key element, source.lookup key = some element →
      rule (target.lookup key) element ≠ none) :
    ∃ next, merge rule target source = some next ∧
      ∀ key, some (next.lookup key) =
        match source.lookup key with
        | none => some (target.lookup key)
        | some element => rule (target.lookup key) element :=
  mergeEntries_spec rule source.entries source.nodupKeys target succeeds

end StdMap
