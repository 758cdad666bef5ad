import CentNode.Library.Median
import CentNode.Net.NetAddr

/-!
# Network time

`CMedianFilter` and `AddTimeData` of `timedata.cpp`.  The guard on the median takes an
absolute value in 64 bits, and the least of them has none.
-/

namespace CentNode

open List

open Median

/-- `CMedianFilter<int64_t>`; `vSorted` is what the last `input` left. -/
structure CMedianFilter where
  vValues : List Int
  vSorted : List Int
  nSize : Nat
  filled : vSorted ≠ []
  sorted : vSorted = vValues.insertionSort (· ≤ ·)

namespace CMedianFilter

def new (size : Nat) (initial_value : Int) : CMedianFilter where
  vValues := [initial_value]
  vSorted := [initial_value]
  nSize := size
  filled := List.cons_ne_nil _ _
  sorted := rfl

def input (filter : CMedianFilter) (value : Int) : CMedianFilter where
  vValues :=
    (if filter.vValues.length = filter.nSize then filter.vValues.tail else filter.vValues) ++ [value]
  vSorted :=
    ((if filter.vValues.length = filter.nSize then filter.vValues.tail else filter.vValues) ++
      [value]).insertionSort (· ≤ ·)
  nSize := filter.nSize
  filled := by
    apply List.ne_nil_of_length_pos
    simp
  sorted := rfl

/-- `median`; an index into `vSorted` is below its size. -/
def median (filter : CMedianFilter) : Int :=
  have positive := List.length_pos_of_ne_nil filter.filled
  let size := filter.vSorted.length
  let upper := filter.vSorted.get ⟨size / 2, Nat.div_lt_self positive (by decide)⟩
  if size % 2 = 1 then upper
  else
    let lower := filter.vSorted.get ⟨size / 2 - 1, by omega⟩
    (toInt64 (lower + upper)).tdiv 2

def size (filter : CMedianFilter) : Nat := filter.vValues.length

theorem length_vSorted (filter : CMedianFilter) : filter.vSorted.length = filter.size := by
  rw [filter.sorted, length_insertionSort]
  rfl

end CMedianFilter

def abs64 (n : Int) : Int := if n ≥ 0 then n else toInt64 (-n)

/-- The static variables of `timedata.cpp`. -/
structure TimeData where
  nTimeOffset : Int := 0
  setKnown : List CNetAddr := []
  vTimeOffsets : CMedianFilter := .new 200 0
  fDone : Bool := false
  strMiscWarning : String := ""

/-- A call of `AddTimeData`, and what `GetTime` returns in it. -/
structure TimeCall where
  ip : CNetAddr
  nTime : Int
  now : Int

/-- `nOffsetSample`. -/
def TimeCall.sample (call : TimeCall) : Int := toInt64 (call.nTime - call.now)

namespace TimeData

/-- The warning, once, when nobody has nearly our time. -/
def warn (data : TimeData) : TimeData :=
  if data.fDone then data
  else
    let fMatch := data.vTimeOffsets.vSorted.any fun nOffset =>
      nOffset ≠ 0 && decide (abs64 nOffset < 5 * 60)
    if fMatch then data
    else
      { data with
        fDone := true
        strMiscWarning := "Warning: Please check that your computer's date and time are correct! " ++
          "If your clock is wrong Cent Core will not work properly." }

/-- Only let other nodes change our time by so much. -/
def update (data : TimeData) : TimeData :=
  let nMedian := data.vTimeOffsets.median
  if abs64 nMedian < 70 * 60 then { data with nTimeOffset := nMedian }
  else { data with nTimeOffset := 0 }.warn

def addTimeData (data : TimeData) (call : TimeCall) : TimeData :=
  if call.ip ∈ data.setKnown then data
  else
    let data :=
      { data with
        setKnown := call.ip :: data.setKnown
        vTimeOffsets := data.vTimeOffsets.input call.sample }
    if data.vTimeOffsets.size ≥ 5 ∧ data.vTimeOffsets.size % 2 = 1 then data.update else data

/-- The state after a number of calls. -/
def after (calls : List TimeCall) : TimeData := calls.foldl addTimeData {}

theorem after_snoc (calls : List TimeCall) (call : TimeCall) :
    after (calls ++ [call]) = (after calls).addTimeData call := by
  simp [after]

end TimeData

/-! ## The samples held -/

/-- The calls with an address that no call before them had. -/
def heard (calls : List TimeCall) : List TimeCall :=
  calls.foldl (fun before call =>
    if call.ip ∈ before.map TimeCall.ip then before else before ++ [call]) []

/-- The initial 0 and the samples of distinct addresses, the latest 200. -/
def samplesHeld (calls : List TimeCall) : List Int :=
  (0 :: (heard calls).map TimeCall.sample).rtake 200

theorem heard_snoc (calls : List TimeCall) (call : TimeCall) :
    heard (calls ++ [call]) =
      if call.ip ∈ (heard calls).map TimeCall.ip then heard calls else heard calls ++ [call] := by
  simp [heard]

theorem rtake_snoc (count : Nat) (values : List Int) (value : Int) :
    (values ++ [value]).rtake (count + 1) =
      (if (values.rtake (count + 1)).length = count + 1 then (values.rtake (count + 1)).tail
        else values.rtake (count + 1)) ++ [value] := by
  unfold rtake
  rw [length_append, length_singleton, length_drop]
  split
  case isTrue full =>
    rw [tail_drop, drop_append_of_le_length (by omega)]
    congr 2
    omega
  case isFalse short =>
    rw [drop_append_of_le_length (by omega)]
    congr 2
    omega

/-- The last call gives a sample, and the samples are odd in number and five at least. -/
def Updates (calls : List TimeCall) : Prop :=
  ∃ earlier call, calls = earlier ++ [call] ∧ call.ip ∉ (heard earlier).map TimeCall.ip ∧
    5 ≤ (samplesHeld calls).length ∧ (samplesHeld calls).length % 2 = 1

namespace TimeData

/-- The static variables hold what the calls gave. -/
structure Tracks (calls : List TimeCall) (data : TimeData) : Prop where
  known : ∀ ip, ip ∈ data.setKnown ↔ ip ∈ (heard calls).map TimeCall.ip
  values : data.vTimeOffsets.vValues = samplesHeld calls
  size : data.vTimeOffsets.nSize = 200

theorem warn_keeps (data : TimeData) : data.warn.nTimeOffset = data.nTimeOffset ∧
    data.warn.vTimeOffsets = data.vTimeOffsets ∧ data.warn.setKnown = data.setKnown := by
  unfold warn
  dsimp only
  split_ifs <;> exact ⟨rfl, rfl, rfl⟩

theorem update_filter (data : TimeData) :
    data.update.vTimeOffsets = data.vTimeOffsets ∧ data.update.setKnown = data.setKnown := by
  unfold update
  dsimp only
  split
  case isTrue => exact ⟨rfl, rfl⟩
  case isFalse => exact (warn_keeps _).2

theorem addTimeData_known {data : TimeData} {call : TimeCall} (known : call.ip ∈ data.setKnown) :
    data.addTimeData call = data := by
  simp [addTimeData, known]

theorem addTimeData_new {data : TimeData} {call : TimeCall} (unknown : call.ip ∉ data.setKnown) :
    (data.addTimeData call).setKnown = call.ip :: data.setKnown ∧
      (data.addTimeData call).vTimeOffsets = data.vTimeOffsets.input call.sample := by
  unfold addTimeData
  rw [if_neg unknown]
  dsimp only
  split
  case isTrue => exact ⟨(update_filter _).2, (update_filter _).1⟩
  case isFalse => exact ⟨rfl, rfl⟩

theorem tracks_addTimeData {calls : List TimeCall} {data : TimeData} (tracks : Tracks calls data)
    (call : TimeCall) : Tracks (calls ++ [call]) (data.addTimeData call) := by
  by_cases known : call.ip ∈ data.setKnown
  · have before := (tracks.known call.ip).mp known
    have same : heard (calls ++ [call]) = heard calls := by rw [heard_snoc, if_pos before]
    rw [addTimeData_known known]
    refine ⟨fun ip => ?_, ?_, tracks.size⟩
    · rw [same]
      exact tracks.known ip
    · rw [samplesHeld, same]
      exact tracks.values
  · have new := mt (tracks.known call.ip).mpr known
    have more : heard (calls ++ [call]) = heard calls ++ [call] := by rw [heard_snoc, if_neg new]
    obtain ⟨keys, filter⟩ := addTimeData_new known
    refine ⟨fun ip => ?_, ?_, ?_⟩
    · rw [keys, more, mem_cons, tracks.known ip]
      simp [or_comm]
    · rw [filter, samplesHeld, more, map_append, map_singleton, ← cons_append,
        rtake_snoc]
      simp only [CMedianFilter.input, tracks.values, tracks.size]
      rfl
    · rw [filter]
      exact tracks.size

theorem tracks_after (calls : List TimeCall) : Tracks calls (after calls) := by
  induction calls using reverseRecOn with
  | nil => exact ⟨fun ip => by simp [after, heard], rfl, rfl⟩
  | append_singleton calls call ih =>
    rw [after_snoc]
    exact tracks_addTimeData ih call

/-! ## The median that is taken -/

theorem sample_range (call : TimeCall) : -2 ^ 63 ≤ call.sample ∧ call.sample < 2 ^ 63 := by
  unfold TimeCall.sample toInt64
  omega

theorem samplesHeld_range {calls : List TimeCall} :
    ∀ value ∈ samplesHeld calls, -2 ^ 63 ≤ value ∧ value < 2 ^ 63 := by
  intro value member
  rcases mem_cons.mp (drop_subset _ _ member) with rfl | sampled
  · decide
  · obtain ⟨call, _, rfl⟩ := mem_map.mp sampled
    exact sample_range call

end TimeData

namespace CMedianFilter

variable {filter : CMedianFilter} (odd : filter.vValues.length % 2 = 1)

include odd

theorem median_of_odd : ∃ inside : filter.vValues.length / 2 < filter.vSorted.length,
    filter.median = filter.vSorted[filter.vValues.length / 2] := by
  have length : filter.vSorted.length = filter.vValues.length := filter.length_vSorted
  refine ⟨by omega, ?_⟩
  unfold median
  simp only [length, odd, if_true]
  rfl

theorem isMedian_median : IsMedian filter.vValues filter.median := by
  obtain ⟨inside, median_eq⟩ := median_of_odd odd
  have length : filter.vSorted.length = filter.vValues.length := filter.length_vSorted
  have perm : filter.vSorted.Perm filter.vValues := by
    rw [filter.sorted]
    exact perm_insertionSort _ _
  have sorted : filter.vSorted.Pairwise (· ≤ ·) := by
    rw [filter.sorted]
    exact pairwise_insertionSort _ _
  rw [median_eq]
  exact (isMedian_middle sorted inside (by omega)).perm perm

theorem median_eq_least_iff (bottom : ∀ value ∈ filter.vValues, -2 ^ 63 ≤ value) :
    filter.median = -2 ^ 63 ↔
      filter.vValues.length < 2 * filter.vValues.countP (fun value => value = -2 ^ 63) := by
  obtain ⟨inside, median_eq⟩ := median_of_odd odd
  have length : filter.vSorted.length = filter.vValues.length := filter.length_vSorted
  have perm : filter.vSorted.Perm filter.vValues := by
    rw [filter.sorted]
    exact perm_insertionSort _ _
  have sorted : filter.vSorted.Pairwise (· ≤ ·) := by
    rw [filter.sorted]
    exact pairwise_insertionSort _ _
  rw [median_eq, middle_eq_least_iff sorted inside
    (fun value member => bottom value (perm.mem_iff.mp member)) (by omega), length,
    perm.countP_eq]

end CMedianFilter

namespace TimeData

/-- After the calls the offset is below 70 minutes, and it is 0 or the median of the samples
if the last call updated it. -/
structure Close (calls : List TimeCall) : Prop where
  bounded : |(after calls).nTimeOffset| < 70 * 60
  median : Updates calls →
    (after calls).nTimeOffset = 0 ∨ IsMedian (samplesHeld calls) (after calls).nTimeOffset

/-- Not more than half of the samples are the least 64-bit number. -/
def FewLeast (calls : List TimeCall) : Prop :=
  2 * (samplesHeld calls).countP (fun value => value = -2 ^ 63) ≤ (samplesHeld calls).length

theorem update_offset (data : TimeData) : data.update.nTimeOffset =
    if abs64 data.vTimeOffsets.median < 70 * 60 then data.vTimeOffsets.median else 0 := by
  unfold update
  dsimp only
  split
  case isTrue => rfl
  case isFalse => exact (warn_keeps _).1

theorem guarded_offset {median : Int} (range : -2 ^ 63 ≤ median ∧ median < 2 ^ 63) :
    |(if abs64 median < 70 * 60 then median else 0)| < 70 * 60 ↔ median ≠ -2 ^ 63 := by
  unfold abs64 toInt64
  constructor
  · rintro bounded rfl
    revert bounded
    decide
  · intro other
    split_ifs with small sign <;> rw [abs_lt] <;> omega

theorem after_of_updates {calls : List TimeCall} (updates : Updates calls) :
    ∃ median, IsMedian (samplesHeld calls) median ∧ (median = -2 ^ 63 ↔ ¬ FewLeast calls) ∧
      (after calls).nTimeOffset = if abs64 median < 70 * 60 then median else 0 := by
  obtain ⟨earlier, call, rfl, new, enough, odd⟩ := updates
  have tracks := tracks_after (earlier ++ [call])
  have unknown := mt ((tracks_after earlier).known call.ip).mp new
  have filter := (addTimeData_new unknown).2
  rw [← after_snoc] at filter
  rw [← tracks.values] at enough odd
  refine ⟨(after (earlier ++ [call])).vTimeOffsets.median, ?_, ?_, ?_⟩
  · rw [← tracks.values]
    exact CMedianFilter.isMedian_median odd
  · rw [CMedianFilter.median_eq_least_iff odd
      (fun value member => (samplesHeld_range value (tracks.values ▸ member)).1), FewLeast,
      ← tracks.values, not_le]
  · rw [filter] at enough odd ⊢
    rw [after_snoc, addTimeData, if_neg unknown]
    dsimp only
    rw [if_pos ⟨enough, odd⟩, update_offset]

theorem after_of_not_updates {earlier : List TimeCall} {call : TimeCall}
    (quiet : ¬ Updates (earlier ++ [call])) :
    (after (earlier ++ [call])).nTimeOffset = (after earlier).nTimeOffset := by
  rw [after_snoc]
  by_cases known : call.ip ∈ (after earlier).setKnown
  · rw [addTimeData_known known]
  · have tracks := tracks_after (earlier ++ [call])
    have filter := (addTimeData_new known).2
    have new := mt ((tracks_after earlier).known call.ip).mpr known
    rw [after_snoc] at tracks
    rw [addTimeData, if_neg known]
    dsimp only
    split
    case isTrue counts =>
      refine absurd ⟨earlier, call, rfl, new, ?_⟩ quiet
      rw [← tracks.values, filter]
      exact counts
    case isFalse => rfl

theorem close_iff_of_updates {calls : List TimeCall} (updates : Updates calls) :
    Close calls ↔ FewLeast calls := by
  obtain ⟨median, isMedian, least, offset⟩ := after_of_updates updates
  have guarded := guarded_offset (samplesHeld_range median isMedian.mem)
  rw [← offset] at guarded
  constructor
  · intro close
    by_contra many
    exact guarded.mp close.bounded (least.mpr many)
  · intro few
    refine ⟨guarded.mpr fun same => least.mp same few, fun _ => ?_⟩
    rw [offset]
    split
    · exact .inr isMedian
    · exact .inl rfl

/-- Along a run the offset stays close to 0 and follows the median, exactly if no call
updates it while most samples are the least 64-bit number. -/
theorem timeOffset_close_iff (calls : List TimeCall) :
    (∀ earlier, earlier <+: calls → Close earlier) ↔
      ∀ earlier, earlier <+: calls → Updates earlier → FewLeast earlier := by
  constructor
  · intro close earlier before updates
    exact (close_iff_of_updates updates).mp (close earlier before)
  · intro few earlier before
    induction earlier using reverseRecOn with
    | nil => exact ⟨by decide, fun ⟨_, _, impossible, _⟩ => absurd impossible (by simp)⟩
    | append_singleton earlier call ih =>
      by_cases updates : Updates (earlier ++ [call])
      · exact (close_iff_of_updates updates).mpr (few _ before updates)
      · have close := ih ((prefix_append earlier [call]).trans before)
        exact ⟨after_of_not_updates updates ▸ close.bounded, fun holds => absurd holds updates⟩

/-- A peer with the last byte of its address, which says that it is the least time there is. -/
def leastCall (n : UInt8) : TimeCall where
  ip := ⟨List.replicate 15 0 ++ [n], by simp⟩
  nTime := -2 ^ 63 + 1500000000
  now := 1500000000

/-- Three such peers out of four move the offset out of any bound. -/
theorem timeOffset_least :
    (after [leastCall 1, leastCall 2, leastCall 3,
      { leastCall 4 with nTime := 1500000000 }]).nTimeOffset = -2 ^ 63 ∧
      ¬ Close [leastCall 1, leastCall 2, leastCall 3, { leastCall 4 with nTime := 1500000000 }] := by
  have offset : (after [leastCall 1, leastCall 2, leastCall 3,
      { leastCall 4 with nTime := 1500000000 }]).nTimeOffset = -2 ^ 63 := by decide +kernel
  refine ⟨offset, fun close => ?_⟩
  have bounded := close.bounded
  rw [offset] at bounded
  exact absurd bounded (by decide)

end TimeData

end CentNode
