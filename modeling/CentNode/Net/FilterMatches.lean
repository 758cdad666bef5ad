import CentNode.Library.Runs
import CentNode.Net.BloomFilter

/-!
# What a filter matches

A key that was inserted into a filter is contained in it, and an output that was
matched is matched again by the transaction that spends it, until the filter is
replaced.
-/

namespace CentNode

open Option List

namespace CBloomFilter

/-- The bits that `contains` reads can be read. -/
def Readable (filter : CBloomFilter) : Prop := filter.isFull = false → filter.vData ≠ []

/-- The bits of a key. -/
def indices (filter : CBloomFilter) (vKey : List UInt8) : List Nat :=
  (List.range filter.nHashFuncs.toNat).map fun i =>
    (murmurHash3 (UInt32.ofNat i * 0xFBA4C795 + filter.nTweak) vKey).toNat %
      (filter.vData.length * 8)

variable {filter : CBloomFilter}

section

variable (filled : filter.vData ≠ [])

include filled

theorem bits_pos : 0 < filter.vData.length * 8 :=
  Nat.mul_pos (length_pos_of_ne_nil filled) (by decide)

theorem hash_eq (i : Nat) (vKey : List UInt8) :
    filter.hash i vKey =
      some ((murmurHash3 (UInt32.ofNat i * 0xFBA4C795 + filter.nTweak) vKey).toNat %
        (filter.vData.length * 8)) :=
  if_neg (Nat.ne_of_gt (bits_pos filled))

theorem indices_lt (vKey : List UInt8) :
    ∀ index ∈ filter.indices vKey, index < filter.vData.length * 8 := by
  intro index inside
  obtain ⟨i, _, rfl⟩ := List.mem_map.mp inside
  exact Nat.mod_lt _ (bits_pos filled)

theorem containsLoop_eq (vKey : List UInt8) (nums : List Nat) :
    filter.containsLoop vKey nums = BitTable.testAll filter.vData (nums.map fun i =>
      (murmurHash3 (UInt32.ofNat i * 0xFBA4C795 + filter.nTweak) vKey).toNat %
        (filter.vData.length * 8)) := by
  induction nums with
  | nil => rfl
  | cons i rest ih => rw [containsLoop, hash_eq filled, bind_some, map_cons, BitTable.testAll, ih]

end

theorem contains_eq (notFull : filter.isFull = false) (notEmpty : filter.isEmpty = false)
    (filled : filter.vData ≠ []) (vKey : List UInt8) :
    filter.contains vKey = BitTable.testAll filter.vData (filter.indices vKey) := by
  rw [contains, notFull, notEmpty, if_neg Bool.false_ne_true, if_neg Bool.false_ne_true,
    containsLoop_eq filled]
  rfl

theorem insert_eq (notFull : filter.isFull = false) (filled : filter.vData ≠ [])
    (vKey : List UInt8) :
    filter.insert vKey = (BitTable.setAll filter.vData (filter.indices vKey)).map
      fun vData => { filter with vData := vData, isEmpty := false } := by
  rw [insert, notFull, if_neg Bool.false_ne_true, BitTable.setAll, indices, foldlM_map]
  simp only [hash_eq filled, bind_some]

theorem contains_isSome (readable : filter.Readable) (vKey : List UInt8) :
    ∃ found, filter.contains vKey = some found := by
  cases full : filter.isFull with
  | true => exact ⟨true, by rw [contains, if_pos full]⟩
  | false =>
    cases empty : filter.isEmpty with
    | true => exact ⟨false, by rw [contains, full, if_neg Bool.false_ne_true, if_pos empty]⟩
    | false =>
      rw [contains_eq full empty (readable full)]
      exact BitTable.testAll_isSome (indices_lt (readable full) vKey)

/-! ## Filters with more bits -/

/-- A filter after insertions. -/
structure Grows (first second : CBloomFilter) : Prop where
  isFull : second.isFull = first.isFull
  isEmpty : first.isEmpty = false → second.isEmpty = false
  nHashFuncs : second.nHashFuncs = first.nHashFuncs
  nTweak : second.nTweak = first.nTweak
  nFlags : second.nFlags = first.nFlags
  vData : BitTable.Below first.vData second.vData

namespace Grows

variable {first second third : CBloomFilter}

theorem refl (filter : CBloomFilter) : Grows filter filter :=
  ⟨rfl, id, rfl, rfl, rfl, BitTable.Below.refl _⟩

theorem trans (before : Grows first second) (after : Grows second third) : Grows first third where
  isFull := after.isFull.trans before.isFull
  isEmpty := fun notEmpty => after.isEmpty (before.isEmpty notEmpty)
  nHashFuncs := after.nHashFuncs.trans before.nHashFuncs
  nTweak := after.nTweak.trans before.nTweak
  nFlags := after.nFlags.trans before.nFlags
  vData := before.vData.trans after.vData

theorem indices (grows : Grows first second) (vKey : List UInt8) :
    second.indices vKey = first.indices vKey := by
  rw [CBloomFilter.indices, CBloomFilter.indices, grows.nHashFuncs, grows.nTweak, grows.vData.1]

theorem readable (grows : Grows first second) (readable : first.Readable) : second.Readable := by
  intro notFull nothing
  apply readable (grows.isFull.symm.trans notFull)
  rw [← length_eq_zero_iff, grows.vData.1, nothing, length_nil]

theorem contains (grows : Grows first second) (readable : first.Readable) {vKey : List UInt8}
    (found : first.contains vKey = some true) : second.contains vKey = some true := by
  cases full : first.isFull with
  | true => rw [CBloomFilter.contains, if_pos (grows.isFull.trans full)]
  | false =>
    cases empty : first.isEmpty with
    | true =>
      rw [CBloomFilter.contains, full, if_neg Bool.false_ne_true, if_pos empty] at found
      cases found
    | false =>
      have notFull := grows.isFull.trans full
      rw [contains_eq full empty (readable full)] at found
      rw [contains_eq notFull (grows.isEmpty empty) (grows.readable readable notFull),
        grows.indices]
      exact grows.vData.testAll found

end Grows

theorem insert_spec (readable : filter.Readable) (vKey : List UInt8) :
    ∃ next, filter.insert vKey = some next ∧ Grows filter next ∧
      next.contains vKey = some true := by
  cases full : filter.isFull with
  | true =>
    refine ⟨filter, by rw [insert, if_pos full], Grows.refl filter, ?_⟩
    rw [contains, if_pos full]
  | false =>
    have filled := readable full
    obtain ⟨vData, set, below, all⟩ := BitTable.setAll_spec (indices_lt filled vKey)
    have grows : Grows filter { filter with vData := vData, isEmpty := false } :=
      ⟨rfl, fun _ => rfl, rfl, rfl, rfl, below⟩
    refine ⟨_, by rw [insert_eq full filled, set, map_some], grows, ?_⟩
    have notFull : ({ filter with vData := vData, isEmpty := false } : CBloomFilter).isFull =
        false := full
    rw [contains_eq notFull rfl (grows.readable readable notFull), grows.indices]
    exact all

/-! ## `IsRelevantAndUpdate` -/

theorem matchesPush_isSome (readable : filter.Readable) (pc : CScript) :
    ∃ found, filter.matchesPush pc = some found := by
  induction size : pc.length using Nat.strongRecOn generalizing pc with
  | ind size ih =>
    unfold matchesPush
    split
    case h_1 => exact ⟨false, rfl⟩
    case h_2 opcode data rest read =>
      have later : ∃ found, filter.matchesPush rest = some found :=
        ih rest.length (by rw [← size]; exact CScript.getOp_length_lt read) rest rfl
      dsimp only
      split
      · obtain ⟨found, contained⟩ := contains_isSome readable data
        rw [contained, bind_some]
        cases found with
        | true => exact ⟨true, rfl⟩
        | false => exact later
      · exact later

theorem updates_isSome (filter : CBloomFilter) (scriptPubKey : CScript) :
    ∃ update, filter.updates scriptPubKey = some update := by
  unfold updates
  split
  · exact ⟨true, rfl⟩
  split
  · obtain ⟨solved, found, _⟩ := solver_spec scriptPubKey
    rw [found]
    exact ⟨_, rfl⟩
  · exact ⟨false, rfl⟩

/-- What outputs that were read leave behind. -/
structure Reads (filter : CBloomFilter) (read : OutputsRead) : Prop where
  grows : Grows filter read.filter
  inserted : ∀ out ∈ read.inserted, read.filter.contains out.serialize = some true
  matched : filter.nFlags &&& bloomUpdateMask = bloomUpdateAll →
    ∀ out ∈ read.matched, out ∈ read.inserted

section

variable (readable : filter.Readable)

include readable

theorem readOutput_spec (out : COutPoint) (scriptPubKey : CScript) :
    ∃ read, filter.readOutput out scriptPubKey = some read ∧ Reads filter read := by
  have unchanged : ∀ matched : List COutPoint,
      (filter.nFlags &&& bloomUpdateMask = bloomUpdateAll → matched = []) →
      Reads filter ⟨matched, [], filter⟩ := by
    intro matched none
    refine ⟨Grows.refl filter, fun other inside => absurd inside not_mem_nil, ?_⟩
    intro all other inside
    rw [none all] at inside
    exact inside
  obtain ⟨found, matched⟩ := matchesPush_isSome readable scriptPubKey
  rw [readOutput, matched, bind_some]
  cases found with
  | false => exact ⟨_, rfl, unchanged [] fun _ => rfl⟩
  | true =>
    obtain ⟨update, flagged⟩ := filter.updates_isSome scriptPubKey
    rw [if_pos rfl, flagged, bind_some]
    cases update with
    | false =>
      refine ⟨_, rfl, unchanged [out] fun all => ?_⟩
      rw [updates, if_pos all] at flagged
      cases flagged
    | true =>
      obtain ⟨next, inserted, grows, found⟩ := insert_spec readable out.serialize
      rw [if_pos rfl, inserted, map_some]
      refine ⟨_, rfl, grows, ?_, fun _ other inside => inside⟩
      intro other inside
      rw [mem_singleton.mp inside]
      exact found

theorem readOutputs_spec (hash : Uint256) (i : Nat)
    (vout : List CTxOut) :
    ∃ read, readOutputs hash i vout filter = some read ∧ Reads filter read := by
  induction vout generalizing filter i with
  | nil =>
    refine ⟨_, rfl, Grows.refl filter, ?_, ?_⟩
    · exact fun out inside => absurd inside not_mem_nil
    · exact fun _ out inside => inside
  | cons txout rest ih =>
    obtain ⟨here, read, reads⟩ := readOutput_spec readable ⟨hash, i⟩ txout.scriptPubKey
    have readableNext := reads.grows.readable readable
    obtain ⟨later, readLater, readsLater⟩ := ih readableNext (i + 1)
    rw [readOutputs, read, bind_some, readLater, map_some]
    refine ⟨_, rfl, reads.grows.trans readsLater.grows, ?_, ?_⟩
    · intro out inside
      rcases mem_append.mp inside with first | second
      · exact readsLater.grows.contains readableNext (reads.inserted out first)
      · exact readsLater.inserted out second
    · intro all out inside
      rcases mem_append.mp inside with first | second
      · exact mem_append_left _ (reads.matched all out first)
      · refine mem_append_right _ (readsLater.matched ?_ out second)
        rw [reads.grows.nFlags]
        exact all

theorem readInputs_isSome (vin : List CTxIn) :
    ∃ found, filter.readInputs vin = some found := by
  induction vin with
  | nil => exact ⟨false, rfl⟩
  | cons txin rest ih =>
    obtain ⟨spends, contained⟩ := contains_isSome readable txin.prevout.serialize
    rw [readInputs, contained, bind_some]
    cases spends with
    | true => exact ⟨true, rfl⟩
    | false =>
      obtain ⟨found, matched⟩ := matchesPush_isSome readable txin.scriptSig
      rw [if_neg Bool.false_ne_true, matched, bind_some]
      cases found with
      | true => exact ⟨true, rfl⟩
      | false => exact ih

theorem readInputs_eq_true {vin : List CTxIn} {out : COutPoint}
    (spent : ∃ txin ∈ vin, txin.prevout = out)
    (contained : filter.contains out.serialize = some true) : filter.readInputs vin = some true := by
  induction vin with
  | nil =>
    obtain ⟨txin, inside, _⟩ := spent
    cases inside
  | cons head rest ih =>
    obtain ⟨spends, read⟩ := contains_isSome readable head.prevout.serialize
    rw [readInputs, read, bind_some]
    cases spends with
    | true => rfl
    | false =>
      obtain ⟨found, matched⟩ := matchesPush_isSome readable head.scriptSig
      rw [if_neg Bool.false_ne_true, matched, bind_some]
      cases found with
      | true => rfl
      | false =>
        obtain ⟨txin, inside, named⟩ := spent
        rcases mem_cons.mp inside with rfl | later
        · rw [named, contained] at read
          cases read
        · exact ih ⟨txin, later, named⟩

theorem isRelevantAndUpdate_spec (tx : CTransaction) :
    ∃ seen, filter.isRelevantAndUpdate tx = some seen ∧ Reads filter seen.toOutputsRead := by
  have nothing : Reads filter { filter := filter } := by
    refine ⟨Grows.refl filter, ?_, ?_⟩
    · exact fun out inside => absurd inside not_mem_nil
    · exact fun _ out inside => inside
  unfold isRelevantAndUpdate
  split
  · exact ⟨_, rfl, nothing⟩
  split
  · exact ⟨_, rfl, nothing⟩
  obtain ⟨txid, found⟩ := contains_isSome readable (writeUint256 tx.hash)
  obtain ⟨outputs, read, reads⟩ := readOutputs_spec readable tx.hash 0 tx.vout
  rw [found, bind_some, read, bind_some]
  split
  · exact ⟨_, rfl, reads⟩
  · obtain ⟨spends, inputs⟩ := readInputs_isSome (reads.grows.readable readable) tx.vin
    rw [inputs, map_some]
    exact ⟨_, rfl, reads⟩

theorem relevant_of_spends {tx : CTransaction} {out : COutPoint}
    (spent : out ∈ tx.prevouts) (contained : filter.contains out.serialize = some true) :
    ∃ seen, filter.isRelevantAndUpdate tx = some seen ∧ seen.relevant = true := by
  cases full : filter.isFull with
  | true => exact ⟨_, by rw [isRelevantAndUpdate, if_pos full], rfl⟩
  | false =>
    cases empty : filter.isEmpty with
    | true =>
      rw [contains, full, if_neg Bool.false_ne_true, if_pos empty] at contained
      cases contained
    | false =>
      obtain ⟨txid, found⟩ := contains_isSome readable (writeUint256 tx.hash)
      obtain ⟨outputs, read, reads⟩ := readOutputs_spec readable tx.hash 0 tx.vout
      rw [isRelevantAndUpdate, full, empty, if_neg Bool.false_ne_true,
        if_neg Bool.false_ne_true, found, bind_some, read, bind_some]
      split
      · exact ⟨_, rfl, rfl⟩
      · rw [readInputs_eq_true (reads.grows.readable readable) (List.mem_map.mp spent)
          (reads.grows.contains readable contained), map_some]
        exact ⟨_, rfl, rfl⟩

end

end CBloomFilter

/-! ## Messages and transactions -/

/-- The filter messages of a peer, and a transaction that is held against its filter. -/
inductive FilterInput where
  | filterload (load : FilterLoad)
  | filteradd (vData : List UInt8)
  | filterclear
  | transaction (tx : CTransaction)

/-- A peer, and since its filter was replaced the keys that were inserted and the
outputs that were matched. -/
structure FilterRun where
  peer : FilterPeer := {}
  inserted : List (List UInt8) := []
  matched : List COutPoint := []

namespace FilterRun

/-- One input, when the node serves filters (`NODE_BLOOM`) and when it does not. -/
def step (nodeBloom : Bool) (run : FilterRun) : FilterInput → Option FilterRun
  | .filterload load =>
    if !nodeBloom then some { run with peer := run.peer.misbehaving 100 }
    else if !(FilterPeer.readFilter load).isWithinSizeConstraints then
      some { run with peer := run.peer.filterload load }
    else some { peer := run.peer.filterload load }
  | .filteradd vData =>
    if !nodeBloom then some { run with peer := run.peer.misbehaving 100 }
    else
      (run.peer.filteradd vData).map fun peer =>
        { run with
          peer := peer
          inserted := if maxScriptElementSize < vData.length then run.inserted
            else vData :: run.inserted }
  | .filterclear =>
    if !nodeBloom then some { run with peer := run.peer.misbehaving 100 }
    else some { peer := run.peer.filterclear }
  | .transaction tx =>
    (run.peer.pfilter.isRelevantAndUpdate tx).map fun seen =>
      { peer := { run.peer with pfilter := seen.filter }
        inserted := seen.inserted.map COutPoint.serialize ++ run.inserted
        matched := seen.matched ++ run.matched }

/-- Every key that was inserted is contained, and with `BLOOM_UPDATE_ALL` every
transaction that spends an output which was matched is relevant. -/
structure NeverMisses (run : FilterRun) : Prop where
  contained : ∀ vKey ∈ run.inserted, run.peer.pfilter.contains vKey = some true
  spent : run.peer.pfilter.nFlags &&& bloomUpdateMask = bloomUpdateAll →
    ∀ out ∈ run.matched, ∀ tx : CTransaction, out ∈ tx.prevouts →
      ∃ seen, run.peer.pfilter.isRelevantAndUpdate tx = some seen ∧ seen.relevant = true

/-- What every step keeps. -/
structure Kept (run : FilterRun) : Prop where
  readable : run.peer.pfilter.Readable
  contained : ∀ vKey ∈ run.inserted, run.peer.pfilter.contains vKey = some true
  matched : run.peer.pfilter.nFlags &&& bloomUpdateMask = bloomUpdateAll →
    ∀ out ∈ run.matched, out.serialize ∈ run.inserted

namespace Kept

variable {run : FilterRun}

theorem neverMisses (kept : run.Kept) : run.NeverMisses where
  contained := kept.contained
  spent := fun all out inside _ spent =>
    CBloomFilter.relevant_of_spends kept.readable spent
      (kept.contained _ (kept.matched all out inside))

theorem replaced {peer : FilterPeer} (readable : peer.pfilter.Readable) :
    Kept { peer := peer } where
  readable := readable
  contained := fun _ inside => absurd inside not_mem_nil
  matched := fun _ _ inside => absurd inside not_mem_nil

theorem start : Kept {} := replaced fun notFull => by cases notFull

theorem same (kept : run.Kept) {peer : FilterPeer} (here : peer.pfilter = run.peer.pfilter) :
    Kept { run with peer := peer } where
  readable := by rw [here]; exact kept.readable
  contained := by rw [here]; exact kept.contained
  matched := by rw [here]; exact kept.matched

theorem grow (kept : run.Kept) {next : CBloomFilter}
    (grows : CBloomFilter.Grows run.peer.pfilter next) {inserted : List (List UInt8)}
    {matched : List COutPoint} (contained : ∀ vKey ∈ inserted, next.contains vKey = some true)
    (all : next.nFlags &&& bloomUpdateMask = bloomUpdateAll →
      ∀ out ∈ matched, out.serialize ∈ inserted) :
    Kept { peer := { run.peer with pfilter := next }
           inserted := inserted ++ run.inserted
           matched := matched ++ run.matched } where
  readable := grows.readable kept.readable
  contained := by
    intro vKey inside
    rcases mem_append.mp inside with new | old
    · exact contained vKey new
    · exact grows.contains kept.readable (kept.contained vKey old)
  matched := by
    intro flagged out inside
    rcases mem_append.mp inside with new | old
    · exact mem_append_left _ (all flagged out new)
    · refine mem_append_right _ (kept.matched ?_ out old)
      rw [← grows.nFlags]
      exact flagged

theorem readable_load (load : FilterLoad) :
    (FilterPeer.readFilter load).updateEmptyFull.Readable := by
  intro notFull nothing
  have empty : load.vData = [] := nothing
  have full : (load.vData.all fun byte => byte = 0xff) = false := notFull
  rw [empty] at full
  cases full

/-- Every input is taken, and what every step keeps is kept. -/
theorem progress (nodeBloom : Bool) (kept : run.Kept) (input : FilterInput) :
    ∃ next, step nodeBloom run input = some next ∧ next.Kept := by
  cases input with
  | filterload load =>
    rw [step]
    split
    · exact ⟨_, rfl, kept.same rfl⟩
    split
    · next tooLarge =>
        refine ⟨_, rfl, kept.same ?_⟩
        unfold FilterPeer.filterload
        dsimp only
        rw [if_pos tooLarge]
        rfl
    · next fits =>
        refine ⟨_, rfl, replaced ?_⟩
        unfold FilterPeer.filterload
        dsimp only
        rw [if_neg fits]
        exact readable_load load
  | filteradd vData =>
    rw [step]
    split
    · exact ⟨_, rfl, kept.same rfl⟩
    · rw [FilterPeer.filteradd]
      by_cases tooLong : maxScriptElementSize < vData.length
      · rw [if_pos tooLong, if_pos tooLong, map_some]
        exact ⟨_, rfl, kept.same rfl⟩
      · obtain ⟨next, inserted, grows, found⟩ := CBloomFilter.insert_spec kept.readable vData
        rw [if_neg tooLong, if_neg tooLong, inserted, map_some, map_some]
        refine ⟨_, rfl, @grow run kept next grows [vData] [] ?_ ?_⟩
        · intro vKey inside
          rw [mem_singleton.mp inside]
          exact found
        · exact fun _ out inside => absurd inside not_mem_nil
  | filterclear =>
    rw [step]
    split
    · exact ⟨_, rfl, kept.same rfl⟩
    · exact ⟨_, rfl, replaced fun notFull => by cases notFull⟩
  | transaction tx =>
    obtain ⟨seen, read, reads⟩ := CBloomFilter.isRelevantAndUpdate_spec kept.readable tx
    rw [step, read, map_some]
    refine ⟨_, rfl, kept.grow reads.grows ?_ fun flagged out inside => ?_⟩
    · intro vKey inside
      obtain ⟨out, here, rfl⟩ := List.mem_map.mp inside
      exact reads.inserted out here
    · refine List.mem_map_of_mem (reads.matched ?_ out inside)
      rw [← reads.grows.nFlags]
      exact flagged

end Kept

/-- From the filter a peer begins with, every sequence of filter messages and
transactions is taken, and the filter never misses what was inserted or matched. -/
theorem filter_never_misses (nodeBloom : Bool) (inputs : List FilterInput) :
    Runs.Always (step nodeBloom) NeverMisses {} inputs := by
  refine Runs.always_of_progress (fun _ => Kept.neverMisses) ?_ Kept.start
    (Runs.Meets.trivial _ _ _)
  intro run input kept _
  exact kept.progress nodeBloom input

end FilterRun

end CentNode
