import CentNode.Library.Reading
import CentNode.Library.RingBuffer

/-!
# Files read through a ring buffer

`CBufferedFile` of `streams.h`.  An operation that throws leaves a state behind, so
each comes with the state after it.  No read of the file fails, but the file ends.
-/

namespace CentNode

open List Option

open Wire

/-- `CBufferedFile` on the content of a file, with the sizes given to the constructor. -/
structure CBufferedFile (src : List UInt8) (nBufSize nRewind : Nat) where
  nSrcPos : Nat := 0
  nReadPos : Nat := 0
  /-- `none` is `(uint64_t)(-1)`. -/
  nReadLimit : Option Nat := none
  vchBuf : Nat → UInt8 := fun _ => 0
  /-- The end-of-file indicator of the C stream. -/
  feof : Bool := false

namespace CBufferedFile

variable {src : List UInt8} {nBufSize nRewind : Nat}

/-- The byte of the file at a position. -/
def content (src : List UInt8) (index : Nat) : UInt8 := src.getD index 0

/-- `Fill`; `false` where it throws.  Without room it returns and changes nothing. -/
def fill (file : CBufferedFile src nBufSize nRewind) :
    Bool × CBufferedFile src nBufSize nRewind :=
  let pos := file.nSrcPos % nBufSize
  let nAvail := nBufSize - (file.nSrcPos - file.nReadPos) - nRewind
  let readNow := min (nBufSize - pos) nAvail
  if readNow = 0 then (true, file)
  else
    -- `fread` sets the indicator when it gets fewer bytes than it asks for
    let read := min readNow (src.length - file.nSrcPos)
    let feof := file.feof || decide (read < readNow)
    if read = 0 then (false, { file with feof := feof })
    else
      (true,
        { file with
          vchBuf := RingBuffer.store nBufSize file.nSrcPos read (content src) file.vchBuf
          nSrcPos := file.nSrcPos + read
          feof := feof })

def eof (file : CBufferedFile src nBufSize nRewind) : Bool :=
  file.nReadPos = file.nSrcPos && file.feof

/-- What both loops begin with: `Fill` when nothing is left in the buffer. -/
def ensure (file : CBufferedFile src nBufSize nRewind) :
    Bool × CBufferedFile src nBufSize nRewind :=
  if file.nReadPos = file.nSrcPos then file.fill else (true, file)

/-- The loop of `read` for a number of turns, with the bytes still to be read. -/
def readLoop : Nat → Nat → CBufferedFile src nBufSize nRewind →
    Option (List UInt8) × CBufferedFile src nBufSize nRewind
  | 0, nSize, file => (if nSize = 0 then some [] else none, file)
  | turns + 1, nSize, file =>
    if nSize = 0 then (some [], file)
    else
      let filled := file.ensure
      if !filled.1 then (none, filled.2)
      else
        let pos := filled.2.nReadPos % nBufSize
        let nNow := min (min nSize (nBufSize - pos)) (filled.2.nSrcPos - filled.2.nReadPos)
        let rest := readLoop turns (nSize - nNow)
          { filled.2 with nReadPos := filled.2.nReadPos + nNow }
        (rest.1.map (((List.range nNow).map fun i => filled.2.vchBuf (pos + i)) ++ ·), rest.2)

def read (nSize : Nat) (file : CBufferedFile src nBufSize nRewind) :
    Option (List UInt8) × CBufferedFile src nBufSize nRewind :=
  if file.nReadLimit.any fun limit => limit < nSize + file.nReadPos then (none, file)
  else if nBufSize < nSize + nRewind then (none, file)
  else readLoop nSize nSize file

def setPos (nPos : Nat) (file : CBufferedFile src nBufSize nRewind) :
    CBufferedFile src nBufSize nRewind :=
  if nPos + nRewind < file.nSrcPos then { file with nReadPos := file.nSrcPos - nRewind }
  else if file.nSrcPos < nPos then { file with nReadPos := file.nSrcPos }
  else { file with nReadPos := nPos }

def setLimit (nPos : Option Nat) (file : CBufferedFile src nBufSize nRewind) :
    CBufferedFile src nBufSize nRewind :=
  if nPos.any fun limit => limit < file.nReadPos then file else { file with nReadLimit := nPos }

/-- The loop of `FindByte` for a number of turns; `false` where it throws. -/
def findByte (ch : UInt8) : Nat → CBufferedFile src nBufSize nRewind →
    Bool × CBufferedFile src nBufSize nRewind
  | 0, file => (false, file)
  | turns + 1, file =>
    let filled := file.ensure
    if !filled.1 then (false, filled.2)
    else if filled.2.vchBuf (filled.2.nReadPos % nBufSize) = ch then (true, filled.2)
    else findByte ch turns { filled.2 with nReadPos := filled.2.nReadPos + 1 }

/-- `operator>>`, for what unserializes with the reading. -/
def unserialize {α : Type} : Reading α → CBufferedFile src nBufSize nRewind →
    Option α × CBufferedFile src nBufSize nRewind
  | .done value, file => (some value, file)
  | .fail, file => (none, file)
  | .read size next, file =>
    match file.read size with
    | (none, file) => (none, file)
    | (some bytes, file) => unserialize (next bytes) file

/-! ## The source is only read forward -/

section

variable {α : Type} (reading : Reading α) (turns nSize : Nat)
  (file : CBufferedFile src nBufSize nRewind)

theorem nSrcPos_fill :
    file.nSrcPos ≤ file.fill.2.nSrcPos := by
  unfold fill
  dsimp only
  split_ifs
  · exact Nat.le_refl _
  · exact Nat.le_refl _
  · exact Nat.le_add_right _ _

theorem nSrcPos_ensure :
    file.nSrcPos ≤ file.ensure.2.nSrcPos := by
  unfold ensure
  split
  · exact file.nSrcPos_fill
  · exact Nat.le_refl _

theorem nSrcPos_readLoop :
    file.nSrcPos ≤ (file.readLoop turns nSize).2.nSrcPos := by
  induction turns generalizing nSize file with
  | zero => exact Nat.le_refl _
  | succ turns ih =>
    unfold readLoop
    split
    · exact Nat.le_refl _
    · dsimp only
      split
      · exact file.nSrcPos_ensure
      · refine Nat.le_trans ?_ (ih _ _)
        exact file.nSrcPos_ensure

theorem nSrcPos_read :
    file.nSrcPos ≤ (file.read nSize).2.nSrcPos := by
  unfold read
  split_ifs
  · exact Nat.le_refl _
  · exact Nat.le_refl _
  · exact file.nSrcPos_readLoop nSize nSize

theorem nSrcPos_unserialize :
    file.nSrcPos ≤ (file.unserialize reading).2.nSrcPos := by
  induction reading generalizing file with
  | done value => exact Nat.le_refl _
  | fail => exact Nat.le_refl _
  | read size more ih =>
    have first := file.nSrcPos_read size
    rw [unserialize]
    split
    · next next read_eq =>
        rw [read_eq] at first
        exact first
    · next bytes next read_eq =>
        rw [read_eq] at first
        exact Nat.le_trans first (ih bytes next)

end

/-! ## What the operations keep -/

/-- The buffer holds the bytes before the position in the source, far enough back to
rewind and to read on. -/
structure Sound (file : CBufferedFile src nBufSize nRewind) : Prop where
  nReadPos_le : file.nReadPos ≤ file.nSrcPos
  nSrcPos_le : file.nSrcPos ≤ src.length
  near : file.nSrcPos ≤ file.nReadPos + nRewind
  holds : RingBuffer.Holds nBufSize file.nSrcPos (content src) file.vchBuf

/-- The room beside what can be rewound is not empty, and not larger than it. -/
structure Sizes (nBufSize nRewind : Nat) : Prop where
  room : nRewind < nBufSize
  half : nBufSize ≤ 2 * nRewind

/-- What may be read of the file. -/
def window (file : CBufferedFile src nBufSize nRewind) : List UInt8 :=
  match file.nReadLimit with
  | none => src.drop file.nReadPos
  | some limit => (src.drop file.nReadPos).take (limit - file.nReadPos)

theorem window_none {file : CBufferedFile src nBufSize nRewind} (limited : file.nReadLimit = none) :
    file.window = src.drop file.nReadPos := by
  rw [window, limited]

theorem window_some {file : CBufferedFile src nBufSize nRewind} {limit : Nat}
    (limited : file.nReadLimit = some limit) :
    file.window = (src.drop file.nReadPos).take (limit - file.nReadPos) := by
  rw [window, limited]

theorem sound_start : ({} : CBufferedFile src nBufSize nRewind).Sound where
  nReadPos_le := Nat.le_refl 0
  nSrcPos_le := Nat.zero_le _
  near := Nat.zero_le _
  holds := RingBuffer.holds_nothing _ _ _

namespace Sound

variable {file : CBufferedFile src nBufSize nRewind}

/-- A state with a byte to be read, in which nothing else has changed. -/
structure Filled (file next : CBufferedFile src nBufSize nRewind) : Prop where
  sound : next.Sound
  nReadPos : next.nReadPos = file.nReadPos
  nReadLimit : next.nReadLimit = file.nReadLimit
  inside : next.nReadPos < next.nSrcPos

section

variable (sound : file.Sound) (sizes : Sizes nBufSize nRewind)

include sound sizes

theorem fill (empty : file.nReadPos = file.nSrcPos) :
    (file.nReadPos < src.length ∧ ∃ next, file.fill = (true, next) ∧ Filled file next) ∨
      (src.length ≤ file.nReadPos ∧ ∃ next, file.fill = (false, next) ∧ next.Sound) := by
  have room := sizes.room
  have half := sizes.half
  have le := sound.nSrcPos_le
  have inside : file.nSrcPos % nBufSize < nBufSize := Nat.mod_lt _ (by omega)
  have asked : 0 < min (nBufSize - file.nSrcPos % nBufSize)
      (nBufSize - (file.nSrcPos - file.nReadPos) - nRewind) := by omega
  rw [CBufferedFile.fill]
  rw [if_neg (Nat.pos_iff_ne_zero.mp asked)]
  by_cases more : file.nReadPos < src.length
  · refine .inl ⟨more, ?_⟩
    rw [if_neg (by omega)]
    refine ⟨_, rfl, ?_, rfl, rfl, ?_⟩
    · constructor
      · exact Nat.le_trans sound.nReadPos_le (Nat.le_add_right _ _)
      · dsimp only
        omega
      · dsimp only
        omega
      · exact sound.holds.store (by omega)
    · dsimp only
      omega
  · refine .inr ⟨Nat.le_of_not_lt more, ?_⟩
    have nothing : src.length - file.nSrcPos = 0 := by omega
    rw [nothing, Nat.min_zero, if_pos rfl, decide_eq_true asked, Bool.or_true]
    exact ⟨_, rfl, sound.nReadPos_le, le, sound.near, sound.holds⟩

theorem ensure :
    (file.nReadPos < src.length ∧ ∃ next, file.ensure = (true, next) ∧ Filled file next) ∨
      (src.length ≤ file.nReadPos ∧ ∃ next, file.ensure = (false, next) ∧ next.Sound) := by
  rw [CBufferedFile.ensure]
  by_cases empty : file.nReadPos = file.nSrcPos
  · rw [if_pos empty]
    exact sound.fill sizes empty
  · have inside : file.nReadPos < file.nSrcPos := Nat.lt_of_le_of_ne sound.nReadPos_le empty
    rw [if_neg empty]
    exact .inl ⟨Nat.lt_of_lt_of_le inside sound.nSrcPos_le, file, rfl, sound, rfl, rfl, inside⟩

theorem read_buffer {index : Nat}
    (from_ : file.nReadPos ≤ index) (before : index < file.nSrcPos) :
    file.vchBuf (index % nBufSize) = content src index := by
  have near := sound.near
  have room := sizes.room
  exact sound.holds index before (by omega)

theorem portion {nNow : Nat}
    (fits : nNow ≤ nBufSize - file.nReadPos % nBufSize)
    (there : nNow ≤ file.nSrcPos - file.nReadPos) :
    ((List.range nNow).map fun i => file.vchBuf (file.nReadPos % nBufSize + i)) =
      (src.drop file.nReadPos).take nNow := by
  have le := sound.nSrcPos_le
  have lengths : ((src.drop file.nReadPos).take nNow).length = nNow := by
    rw [length_take, length_drop]
    omega
  refine ext_getElem (by rw [length_map, length_range, lengths]) ?_
  intro i inRange inWindow
  rw [lengths] at inWindow
  have turns := Nat.div_add_mod file.nReadPos nBufSize
  have place : file.nReadPos % nBufSize + i = (file.nReadPos + i) % nBufSize := by
    have here : file.nReadPos + i =
        nBufSize * (file.nReadPos / nBufSize) + (file.nReadPos % nBufSize + i) := by omega
    rw [here, RingBuffer.place_eq (by omega)]
  have inside : file.nReadPos + i < src.length := by omega
  rw [getElem_map, getElem_range, place,
    sound.read_buffer sizes (Nat.le_add_right _ _) (by omega), getElem_take,
    getElem_drop, content, getD_eq_getElem?_getD, getElem?_eq_getElem inside,
    getD_some]

end

theorem forward (sound : file.Sound) {nNow : Nat} (there : nNow ≤ file.nSrcPos - file.nReadPos) :
    ({ file with nReadPos := file.nReadPos + nNow } : CBufferedFile src nBufSize nRewind).Sound := by
  have le := sound.nReadPos_le
  have near := sound.near
  constructor
  · dsimp only
    omega
  · exact sound.nSrcPos_le
  · dsimp only
    omega
  · exact sound.holds

/-- What is read is what the file has at the position. -/
structure ReadTo (file : CBufferedFile src nBufSize nRewind) (nSize : Nat)
    (next : CBufferedFile src nBufSize nRewind) : Prop where
  sound : next.Sound
  nReadPos : next.nReadPos = file.nReadPos + nSize
  nReadLimit : next.nReadLimit = file.nReadLimit

variable {nPos size turns nSize : Nat}

theorem readLoop (sound : file.Sound) (sizes : Sizes nBufSize nRewind)
    (enough : nSize ≤ turns) :
    (file.nReadPos + nSize ≤ src.length ∧ ∃ next,
      file.readLoop turns nSize = (some ((src.drop file.nReadPos).take nSize), next) ∧
        ReadTo file nSize next) ∨
    (src.length < file.nReadPos + nSize ∧ ∃ next,
      file.readLoop turns nSize = (none, next) ∧ next.Sound) := by
  have here : file.nReadPos ≤ src.length := Nat.le_trans sound.nReadPos_le sound.nSrcPos_le
  induction turns generalizing file nSize with
  | zero =>
    obtain rfl : nSize = 0 := Nat.le_zero.mp enough
    exact .inl ⟨here, file, rfl, sound, rfl, rfl⟩
  | succ turns ih =>
    rw [CBufferedFile.readLoop]
    by_cases nothing : nSize = 0
    · rw [if_pos nothing, nothing]
      exact .inl ⟨here, file, rfl, sound, rfl, rfl⟩
    · rw [if_neg nothing]
      rcases sound.ensure sizes with ⟨_, filled, filled_eq, full⟩ | ⟨out, filled, filled_eq, left⟩
      · rw [filled_eq]
        dsimp only
        rw [Bool.not_true, if_neg Bool.false_ne_true]
        have inside := full.inside
        have room : filled.nReadPos % nBufSize < nBufSize :=
          Nat.mod_lt _ (Nat.lt_of_le_of_lt (Nat.zero_le _) sizes.room)
        -- what is taken now, at least one byte
        generalize now_eq : min (min nSize (nBufSize - filled.nReadPos % nBufSize))
          (filled.nSrcPos - filled.nReadPos) = nNow
        have there : nNow ≤ filled.nSrcPos - filled.nReadPos := by omega
        have le := full.sound.nSrcPos_le
        have less : nSize - nNow ≤ turns := by omega
        have bytes := full.sound.portion sizes (by omega) there
        have moved := full.sound.forward there
        have same := full.nReadPos
        rcases ih moved less (by dsimp only; omega) with
          ⟨fits, next, rest_eq, read⟩ | ⟨short, next, rest_eq, left⟩
        · refine .inl ⟨by dsimp only at fits; omega, next, ?_, read.sound, ?_, ?_⟩
          · have whole : nNow + (nSize - nNow) = nSize := by omega
            rw [rest_eq, bytes, map_some, same, ← drop_drop, ← take_add, whole]
          · have reached := read.nReadPos
            dsimp only at reached
            omega
          · exact read.nReadLimit.trans full.nReadLimit
        · refine .inr ⟨by dsimp only at short; omega, next, ?_, left⟩
          rw [rest_eq, map_none]
      · rw [filled_eq]
        dsimp only
        rw [Bool.not_false, if_pos rfl]
        exact .inr ⟨by omega, filled, rfl, left⟩

theorem read (sound : file.Sound) (sizes : Sizes nBufSize nRewind)
    (allowed : ∀ limit ∈ file.nReadLimit, nSize + file.nReadPos ≤ limit)
    (small : nSize + nRewind ≤ nBufSize) :
    (file.nReadPos + nSize ≤ src.length ∧ ∃ next,
      file.read nSize = (some ((src.drop file.nReadPos).take nSize), next) ∧
        ReadTo file nSize next) ∨
    (src.length < file.nReadPos + nSize ∧ ∃ next,
      file.read nSize = (none, next) ∧ next.Sound) := by
  have inLimit : ¬ (file.nReadLimit.any fun limit => limit < nSize + file.nReadPos) = true := by
    intro refused
    obtain ⟨limit, less⟩ := (any_eq_true_iff_get _ _).mp refused
    exact Nat.not_le.mpr (of_decide_eq_true less) (allowed _ (Option.get_mem limit))
  rw [CBufferedFile.read, if_neg inLimit, if_neg (Nat.not_lt.mpr small)]
  exact sound.readLoop sizes (Nat.le_refl nSize)

theorem setPos (sound : file.Sound) (before : nPos ≤ file.nSrcPos) :
    (file.setPos nPos).Sound ∧ (file.setPos nPos).nReadPos = max nPos (file.nSrcPos - nRewind) := by
  have le := sound.nSrcPos_le
  rw [CBufferedFile.setPos]
  by_cases far : nPos + nRewind < file.nSrcPos
  · rw [if_pos far]
    refine ⟨⟨Nat.sub_le _ _, le, ?_, sound.holds⟩, ?_⟩
    · dsimp only
      omega
    · dsimp only
      omega
  · rw [if_neg far, if_neg (Nat.not_lt.mpr before)]
    refine ⟨⟨before, le, Nat.not_lt.mp far, sound.holds⟩, ?_⟩
    dsimp only
    omega

theorem setPos_nReadPos (sound : file.Sound) : file.setPos file.nReadPos = file := by
  rw [CBufferedFile.setPos, if_neg (Nat.not_lt.mpr sound.near),
    if_neg (Nat.not_lt.mpr sound.nReadPos_le)]

/-- The same position, with the limit. -/
structure Limited (file : CBufferedFile src nBufSize nRewind) (limit : Option Nat)
    (next : CBufferedFile src nBufSize nRewind) : Prop where
  sound : next.Sound
  nReadPos : next.nReadPos = file.nReadPos
  nSrcPos : next.nSrcPos = file.nSrcPos
  nReadLimit : next.nReadLimit = limit

theorem setLimit (sound : file.Sound) {nPos : Option Nat}
    (ahead : ∀ limit ∈ nPos, file.nReadPos ≤ limit) : Limited file nPos (file.setLimit nPos) := by
  have allowed : ¬ (nPos.any fun limit => limit < file.nReadPos) = true := by
    intro refused
    obtain ⟨limit, less⟩ := (any_eq_true_iff_get _ _).mp refused
    exact Nat.not_le.mpr (of_decide_eq_true less) (ahead _ (Option.get_mem limit))
  rw [CBufferedFile.setLimit, if_neg allowed]
  exact ⟨⟨sound.nReadPos_le, sound.nSrcPos_le, sound.near, sound.holds⟩, rfl, rfl, rfl⟩

/-- The first byte of the kind, from the position on. -/
structure Found (file : CBufferedFile src nBufSize nRewind) (ch : UInt8)
    (next : CBufferedFile src nBufSize nRewind) : Prop where
  sound : next.Sound
  nReadLimit : next.nReadLimit = file.nReadLimit
  le : file.nReadPos ≤ next.nReadPos
  inside : next.nReadPos < src.length
  here : content src next.nReadPos = ch
  first : ∀ index, file.nReadPos ≤ index → index < next.nReadPos → content src index ≠ ch

theorem findByte (sound : file.Sound) (sizes : Sizes nBufSize nRewind) (ch : UInt8)
    (enough : src.length < file.nReadPos + turns) :
    (∃ next, file.findByte ch turns = (true, next) ∧ Found file ch next) ∨
    ((∀ index, file.nReadPos ≤ index → index < src.length → content src index ≠ ch) ∧
      ∃ next, file.findByte ch turns = (false, next)) := by
  induction turns generalizing file with
  | zero =>
    have here := Nat.le_trans sound.nReadPos_le sound.nSrcPos_le
    omega
  | succ turns ih =>
    rw [CBufferedFile.findByte]
    rcases sound.ensure sizes with ⟨_, filled, filled_eq, full⟩ | ⟨out, filled, filled_eq, _⟩
    · rw [filled_eq]
      dsimp only
      rw [Bool.not_true, if_neg Bool.false_ne_true,
        full.sound.read_buffer sizes (Nat.le_refl _) full.inside]
      have le := full.sound.nSrcPos_le
      have inside := full.inside
      have same := full.nReadPos
      by_cases here : content src filled.nReadPos = ch
      · rw [if_pos here]
        exact .inl ⟨filled, rfl, full.sound, full.nReadLimit, Nat.le_of_eq same.symm,
          Nat.lt_of_lt_of_le inside le, here, fun index from_ before => by omega⟩
      · rw [if_neg here]
        have moved := @forward _ _ _ _ full.sound 1 (by omega)
        -- the byte passed over is not the one
        have passed : ∀ index, file.nReadPos ≤ index →
            (filled.nReadPos + 1 ≤ index → content src index ≠ ch) → content src index ≠ ch := by
          intro index from_ later
          by_cases at_ : index = filled.nReadPos
          · rw [at_]
            exact here
          · exact later (by omega)
        rcases ih moved (by dsimp only; omega) with
          ⟨next, found_eq, found⟩ | ⟨none_, next, lost_eq⟩
        · refine .inl ⟨next, found_eq, found.sound, found.nReadLimit.trans full.nReadLimit, ?_,
            found.inside, found.here, fun index from_ before =>
              passed index from_ fun later => found.first index later before⟩
          have after := found.le
          dsimp only at after
          omega
        · exact .inr ⟨fun index from_ before =>
            passed index from_ fun later => none_ index later before, next, lost_eq⟩
    · rw [filled_eq]
      dsimp only
      rw [Bool.not_false, if_pos rfl]
      exact .inr ⟨fun index from_ before => by omega, filled, rfl⟩

/-- A read of what the window has succeeds, and leaves the rest of the window. -/
theorem read_window (sound : file.Sound) (sizes : Sizes nBufSize nRewind)
    (bounded : ∀ limit ∈ file.nReadLimit, file.nReadPos ≤ limit)
    (served : size ≤ file.window.length) (small : size + nRewind ≤ nBufSize) :
    ∃ next, file.read size = (some (file.window.take size), next) ∧ ReadTo file size next ∧
      next.window = file.window.drop size ∧
      ∀ limit ∈ next.nReadLimit, next.nReadPos ≤ limit := by
  have here := Nat.le_trans sound.nReadPos_le sound.nSrcPos_le
  cases limited : file.nReadLimit with
  | none =>
    rw [window_none limited, length_drop] at served
    rcases sound.read sizes (fun limit isLimit => by rw [limited] at isLimit; cases isLimit)
      small with ⟨_, next, read_eq, read⟩ | ⟨short, _⟩
    · have unlimited := read.nReadLimit.trans limited
      refine ⟨next, ?_, read, ?_, fun limit isLimit => ?_⟩
      · rw [window_none limited]
        exact read_eq
      · rw [window_none limited, window_none unlimited, read.nReadPos, drop_drop]
      · rw [unlimited] at isLimit
        cases isLimit
    · omega
  | some limit =>
    have before := bounded limit limited
    rw [window_some limited, length_take, length_drop] at served
    have allowed : ∀ bound ∈ file.nReadLimit, size + file.nReadPos ≤ bound := by
      intro bound isBound
      obtain rfl := Option.some.inj (limited.symm.trans isBound)
      omega
    rcases sound.read sizes allowed small with ⟨_, next, read_eq, read⟩ | ⟨short, _⟩
    · have still := read.nReadLimit.trans limited
      have left : limit - file.nReadPos - size = limit - (file.nReadPos + size) := by omega
      refine ⟨next, ?_, read, ?_, fun bound isBound => ?_⟩
      · rw [window_some limited, take_take, Nat.min_eq_left (by omega)]
        exact read_eq
      · rw [window_some limited, window_some still, read.nReadPos, drop_take,
          drop_drop, left]
      · obtain rfl := Option.some.inj (still.symm.trans isBound)
        have reached := read.nReadPos
        omega
    · omega

theorem read_past_window (sound : file.Sound) (sizes : Sizes nBufSize nRewind)
    (past : file.window.length < size) :
    ∃ next, file.read size = (none, next) ∧ next.Sound := by
  by_cases refused : (file.nReadLimit.any fun limit => limit < size + file.nReadPos) = true
  · exact ⟨file, by rw [CBufferedFile.read, if_pos refused], sound⟩
  by_cases large : nBufSize < size + nRewind
  · exact ⟨file, by rw [CBufferedFile.read, if_neg refused, if_pos large], sound⟩
  rw [CBufferedFile.read, if_neg refused, if_neg large]
  rcases sound.readLoop sizes (Nat.le_refl size) with ⟨fits, _⟩ | ⟨_, failed⟩
  · -- the window is as long as what is left of the file, or ends at the limit
    exfalso
    cases limited : file.nReadLimit with
    | none =>
      rw [window_none limited, length_drop] at past
      omega
    | some limit =>
      rw [window_some limited, length_take, length_drop] at past
      rw [limited, any_some, decide_eq_true_iff] at refused
      omega
  · exact failed

/-- An object is unserialized off the file as off what may be read of it. -/
theorem unserialize {α : Type} {reading : Reading α} (sound : file.Sound)
    (sizes : Sizes nBufSize nRewind)
    (bounded : ∀ limit ∈ file.nReadLimit, file.nReadPos ≤ limit)
    (modest : reading.Modest (nBufSize - nRewind) file.window) :
    (∃ value rest next, reading.onStream file.window = some (value, rest) ∧
      file.unserialize reading = (some value, next) ∧ next.Sound ∧
      next.nReadPos + rest.length = file.nReadPos + file.window.length) ∨
    (reading.onStream file.window = none ∧
      ∃ next, file.unserialize reading = (none, next) ∧ next.Sound) := by
  induction reading generalizing file with
  | done value => exact .inl ⟨value, file.window, file, rfl, rfl, sound, rfl⟩
  | fail => exact .inr ⟨rfl, file, rfl, sound⟩
  | read size more ih =>
    have room := sizes.room
    rw [Reading.onStream_read, CBufferedFile.unserialize]
    by_cases past : file.window.length < size
    · obtain ⟨next, read_eq, left⟩ := sound.read_past_window sizes past
      rw [if_pos past, read_eq]
      exact .inr ⟨rfl, next, rfl, left⟩
    · have served := Nat.le_of_not_lt past
      obtain ⟨small, modestRest⟩ := modest served
      obtain ⟨next, read_eq, read, window_eq, boundedNext⟩ :=
        sound.read_window sizes bounded served (by omega)
      rw [if_neg past, read_eq]
      rw [← window_eq] at modestRest
      rcases ih _ read.sound boundedNext modestRest with
        ⟨value, rest, last, got, unserialized, left, reached⟩ | ⟨lost, failed⟩
      · refine .inl ⟨value, rest, last, ?_, unserialized, left, ?_⟩
        · rw [← window_eq]
          exact got
        · rw [window_eq, read.nReadPos, length_drop] at reached
          omega
      · refine .inr ⟨?_, failed⟩
        rw [← window_eq]
        exact lost

end Sound

end CBufferedFile

end CentNode
