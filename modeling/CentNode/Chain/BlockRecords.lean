import CentNode.Chain.ExternalBlocks

/-!
# What a scan of a block file finds

A turn of the scan leaves the loop where no record is left, passes over the first byte
of what is no record, or takes a record to its end.
-/

namespace CentNode

open List Option

open Wire

namespace BlockLoader

variable {Node : Type} {loader : BlockLoader Node} {content : List UInt8}
  {nBufSize nRewindIn : Nat}

/-- Twice the size of a block, of which the header of a record beside one block is kept. -/
structure BlockSizes (nBufSize nRewindIn : Nat) : Prop
    extends CBufferedFile.Sizes nBufSize nRewindIn where
  beside : nBufSize - nRewindIn = maxBlockSize - 8

theorem blockSizes : BlockSizes (2 * maxBlockSize) (maxBlockSize + 8) :=
  ⟨⟨by decide, by decide⟩, by omega⟩

/-! ## Records -/

variable {nSize : Nat}

theorem length_of_uint {width : Nat} {stream rest : List UInt8}
    (run : (Wire.uint width).run stream = some (nSize, rest)) :
    width ≤ stream.length ∧ rest = stream.drop width := by
  rw [Reading.run_uint] at run
  by_cases short : stream.length < width
  · rw [if_pos short] at run
    cases run
  · rw [if_neg short] at run
    cases run
    exact ⟨Nat.le_of_not_lt short, rfl⟩

variable {offset : Nat}

theorem Intact.inside {block : WireBlock} (intact : loader.Intact content offset block) :
    offset + 8 ≤ content.length := by
  obtain ⟨nSize, rest, run, _⟩ := intact.parses
  have long := (length_of_uint run).1
  rw [length_drop] at long
  omega

theorem Intact.first {block : WireBlock} (intact : loader.Intact content offset block) :
    CBufferedFile.content content offset = loader.messageStart.headD 0 := by
  have inside := intact.inside
  rw [← intact.magic, drop_eq_getElem_cons (by omega), take_succ_cons, headD_cons,
    CBufferedFile.content, getD_eq_getElem?_getD, getElem?_eq_getElem (by omega),
    getD_some]

theorem Intact.unique {block other : WireBlock} (intact : loader.Intact content offset block)
    (intactToo : loader.Intact content offset other) : block = other := by
  obtain ⟨nSize, rest, sized, _, _, run⟩ := intact.parses
  obtain ⟨size, more, sizedToo, _, _, runToo⟩ := intactToo.parses
  cases sized.symm.trans sizedToo
  cases run.symm.trans runToo
  rfl

/-- What was read is a record, and was not dropped. -/
structure Genuine (loader : BlockLoader Node) (content : List UInt8) (record : BlockRecord) :
    Prop where
  intact : loader.Intact content record.start record.block
  inside : record.start < record.stop
  kept : record.fate ≠ .dropped

/-- What holds at the start of every turn of a reindexing. -/
structure Steady (loader : BlockLoader Node) (state : LoadState Node content nBufSize nRewindIn) :
    Prop where
  sound : state.blkdat.Sound
  nRewind_le : state.nRewind ≤ state.blkdat.nSrcPos
  reindexes : state.dbp.isSome = true
  genuine : ∀ record ∈ state.records, loader.Genuine content record

variable {state : LoadState Node content nBufSize nRewindIn}

theorem Steady.nRewind_le_length (steady : loader.Steady state) :
    state.nRewind ≤ content.length :=
  Nat.le_trans steady.nRewind_le steady.sound.nSrcPos_le

/-- Where `SetPos` goes. -/
def position (state : LoadState Node content nBufSize nRewindIn) : Nat :=
  max state.nRewind (state.blkdat.nSrcPos - nRewindIn)

/-- No record starts from the one offset up to the other. -/
def Without (loader : BlockLoader Node) (content : List UInt8) (lower upper : Nat) : Prop :=
  ∀ offset block, lower ≤ offset → offset < upper → ¬ loader.Intact content offset block

/-- What one turn does. -/
inductive Turned (loader : BlockLoader Node) (state : LoadState Node content nBufSize nRewindIn) :
    Bool × LoadState Node content nBufSize nRewindIn → Prop
  | leaves {final : LoadState Node content nBufSize nRewindIn}
      (same : final.records = state.records)
      (nothing : loader.Without content (position state) content.length) :
      Turned loader state (false, final)
  | skips {next : LoadState Node content nBufSize nRewindIn} {offset : Nat}
      (steady : loader.Steady next)
      (same : next.records = state.records) (restart : next.nRewind = offset + 1)
      (from_ : position state ≤ offset)
      (nothing : loader.Without content (position state) (offset + 1)) :
      Turned loader state (true, next)
  | takes {next : LoadState Node content nBufSize nRewindIn} (record : BlockRecord)
      (steady : loader.Steady next)
      (added : next.records = state.records ++ [record]) (restart : record.stop = next.nRewind)
      (from_ : position state ≤ record.start) (inside : record.start < record.stop)
      (nothing : loader.Without content (position state) record.start) :
      Turned loader state (true, next)

/-! ## Blocks -/

variable {dbp : Option CDiskBlockPos}

theorem blockFate_kept {node : Node} {block : WireBlock} (reindexes : dbp.isSome = true) :
    loader.blockFate node dbp block ≠ .dropped := by
  unfold blockFate
  rw [if_pos reindexes]
  dsimp only
  split_ifs <;> decide

theorem takeBlock_spec
    (noError : ∀ node block dbp, (loader.processNewBlock node block dbp).isError = false)
    (state : LoadState Node content nBufSize nRewindIn) (block : WireBlock) :
    ∃ next, loader.takeBlock state block = (true, next) ∧ next.blkdat = state.blkdat ∧
      next.nRewind = state.nRewind ∧ next.dbp = state.dbp ∧ next.records = state.records := by
  unfold takeBlock
  dsimp only
  cases loader.blockFate state.node state.dbp block with
  | stored => exact ⟨_, rfl, rfl, rfl, rfl, rfl⟩
  | dropped => exact ⟨_, rfl, rfl, rfl, rfl, rfl⟩
  | known => exact ⟨_, rfl, rfl, rfl, rfl, rfl⟩
  | processed =>
    rw [noError, if_neg Bool.false_ne_true]
    exact ⟨_, rfl, rfl, rfl, rfl, rfl⟩

theorem isSome_diskPos (reindexes : dbp.isSome = true) (nBlockPos : Nat) :
    (diskPos dbp nBlockPos).isSome = true := by
  rw [diskPos, isSome_map]
  exact reindexes

/-- A block is read if it parses within the size, and else nothing but the file moves. -/
theorem readRecord_spec
    (noError : ∀ node block dbp, (loader.processNewBlock node block dbp).isError = false)
    (sizes : BlockSizes nBufSize nRewindIn) {state : LoadState Node content nBufSize nRewindIn}
    {offset nSize : Nat} (sound : state.blkdat.Sound)
    (here : state.blkdat.nReadPos = offset + 8) (reindexes : state.dbp.isSome = true)
    (high : nSize ≤ maxBlockSize) :
    ∃ next, loader.readRecord state nSize = (true, next) ∧ next.blkdat.Sound ∧
      next.dbp.isSome = true ∧
      (((readBlock loader.hashOf).run ((content.drop (offset + 8)).take nSize) = none ∧
          state.blkdat.nSrcPos ≤ next.blkdat.nSrcPos ∧ next.nRewind = state.nRewind ∧
          next.records = state.records) ∨
        ∃ record rest, (readBlock loader.hashOf).run ((content.drop (offset + 8)).take nSize) =
            some (record.block, rest) ∧
          next.nRewind = next.blkdat.nReadPos ∧ record.start = offset ∧
          record.stop = next.nRewind ∧ record.start < record.stop ∧ record.fate ≠ .dropped ∧
          next.records = state.records ++ [record]) := by
  have ahead : ∀ limit ∈ some (state.blkdat.nReadPos + nSize), state.blkdat.nReadPos ≤ limit := by
    intro limit isLimit
    cases isLimit
    exact Nat.le_add_right _ _
  have limited := sound.setLimit ahead
  have kept := limited.sound.setPos_nReadPos
  rw [limited.nReadPos] at kept
  rw [readRecord]
  dsimp only
  rw [kept]
  generalize state.blkdat.setLimit (some (state.blkdat.nReadPos + nSize)) = file at limited
  -- what may be read is what the size says
  have window : file.window = (content.drop (offset + 8)).take nSize := by
    rw [CBufferedFile.window_some limited.nReadLimit, limited.nReadPos, here,
      Nat.add_sub_cancel_left]
  have bounded : ∀ limit ∈ file.nReadLimit, file.nReadPos ≤ limit := by
    rw [limited.nReadLimit, limited.nReadPos]
    exact ahead
  have short : file.window.length ≤ maxBlockSize := by
    rw [window, length_take]
    omega
  have modest : (Unserialize.block loader.hashOf).Modest
      (nBufSize - nRewindIn) file.window := by
    rw [sizes.beside]
    exact Unserialize.modest_block loader.hashOf short (by decide)
  have forward := file.nSrcPos_unserialize (Unserialize.block loader.hashOf)
  rcases limited.sound.unserialize sizes.toSizes bounded modest with
    ⟨block, rest, blkdat, run, unserialized, soundNext, reached⟩ |
      ⟨run, blkdat, unserialized, soundNext⟩
  · rw [Unserialize.implements_block] at run
    obtain ⟨bytes, split_, _⟩ := takes_block _ _ _ run
    have inWindow := congrArg List.length split_
    rw [length_append] at inWindow
    rw [window] at run
    rw [unserialized]
    dsimp only
    obtain ⟨next, taken, blkdat_eq, restart, dbp_eq, records⟩ :=
      takeBlock_spec noError
        { state with
          blkdat := blkdat
          nRewind := blkdat.nReadPos
          dbp := diskPos state.dbp state.blkdat.nReadPos
          records := state.records ++ [_] } block
    refine ⟨next, taken, ?_, ?_, .inr ⟨_, rest, run, ?_, ?_, ?_, ?_, ?_, records⟩⟩
    · rw [blkdat_eq]
      exact soundNext
    · rw [dbp_eq]
      exact isSome_diskPos reindexes _
    · rw [restart, blkdat_eq]
    · dsimp only
      omega
    · rw [restart]
    · have moved := limited.nReadPos
      dsimp only
      omega
    · exact blockFate_kept (isSome_diskPos reindexes _)
  · rw [window, Unserialize.implements_block] at run
    rw [unserialized, limited.nSrcPos] at forward
    rw [unserialized]
    exact ⟨_, rfl, soundNext, isSome_diskPos reindexes _, .inl ⟨run, forward, rfl, rfl⟩⟩

/-! ## Turns -/

variable {lower : Nat}

theorem Without.succ (before : loader.Without content lower offset)
    (here : ∀ block, ¬ loader.Intact content offset block) :
    loader.Without content lower (offset + 1) := by
  intro other block least less
  rcases Nat.lt_succ_iff_lt_or_eq.mp less with less | rfl
  · exact before other block least less
  · exact here block

theorem Without.short (before : loader.Without content lower offset)
    (short : content.length < offset + 8) : loader.Without content lower content.length := by
  intro other block least less intact
  have inside := intact.inside
  exact before other block least (by omega) intact

theorem Intact.sized {block : WireBlock} (intact : loader.Intact content offset block)
    {rest : List UInt8} (run : (Wire.uint 4).run (content.drop (offset + 4)) = some (nSize, rest)) :
    80 ≤ nSize ∧ nSize ≤ maxBlockSize ∧
      ∃ more, (readBlock loader.hashOf).run ((content.drop (offset + 8)).take nSize) =
        some (block, more) := by
  obtain ⟨size, more, sized, low, high, parsed⟩ := intact.parses
  cases sized.symm.trans run
  exact ⟨low, high, more, parsed⟩

section

variable (noError : ∀ node block dbp, (loader.processNewBlock node block dbp).isError = false)
  (sizes : BlockSizes nBufSize nRewindIn) (steady : loader.Steady state)

include noError sizes steady

/-- The rest of a turn, after the magic and the size at an offset. -/
theorem sized_spec
    (from_ : position state ≤ offset) (below : loader.Without content (position state) offset)
    (magic : (content.drop offset).take 4 = loader.messageStart)
    (run : (Wire.uint 4).run (content.drop (offset + 4)) =
      some (nSize, content.drop (offset + 4 + 4)))
    {sized : CBufferedFile content nBufSize nRewindIn} (sound : sized.Sound)
    (here : sized.nReadPos = offset + 8) :
    Turned loader state
      (if nSize < 80 ∨ nSize > maxBlockSize then
        (true, { state with blkdat := sized, nRewind := offset + 1 })
      else loader.readRecord { state with blkdat := sized, nRewind := offset + 1 } nSize) := by
  have le := sound.nReadPos_le
  by_cases bad : nSize < 80 ∨ nSize > maxBlockSize
  · rw [if_pos bad]
    refine .skips ⟨sound, ?_, steady.reindexes, steady.genuine⟩ rfl rfl from_
      (below.succ fun block intact => ?_)
    · dsimp only
      omega
    · obtain ⟨low, high, _⟩ := intact.sized run
      omega
  · rw [if_neg bad]
    obtain ⟨next, record_eq, soundNext, reindexes, unparsed | taken⟩ :=
      @readRecord_spec _ _ _ _ _ noError sizes
        { state with blkdat := sized, nRewind := offset + 1 } offset nSize sound here
        steady.reindexes (by omega)
    · obtain ⟨failed, forward, restart, same⟩ := unparsed
      dsimp only at forward restart same
      rw [record_eq]
      refine .skips ⟨soundNext, by omega, reindexes, ?_⟩ same restart from_
        (below.succ fun block intact => ?_)
      · rw [same]
        exact steady.genuine
      · obtain ⟨_, _, more, parsed⟩ := intact.sized run
        cases failed.symm.trans parsed
    · obtain ⟨record, rest, parsed, restart, start_eq, stop_eq, inside, kept, added⟩ := taken
      dsimp only at added
      have intact : loader.Intact content record.start record.block := by
        rw [start_eq]
        exact ⟨magic, nSize, rest, run, by omega, by omega, parsed⟩
      rw [record_eq]
      refine .takes record ⟨soundNext, ?_, reindexes, ?_⟩ added stop_eq (start_eq ▸ from_) inside
        (start_eq ▸ below)
      · rw [restart]
        exact soundNext.nReadPos_le
      · rw [added]
        intro other member
        rcases mem_append.mp member with old | new
        · exact steady.genuine other old
        · rw [mem_singleton.mp new]
          exact ⟨intact, inside, kept⟩

theorem turn_spec :
    Turned loader state (loader.turn state) := by
  obtain ⟨soundHere, here⟩ := steady.sound.setPos steady.nRewind_le
  have unlimited := @CBufferedFile.Sound.setLimit _ _ _ _ soundHere none
    fun limit isLimit => by cases isLimit
  rw [turn]
  generalize (state.blkdat.setPos state.nRewind).setLimit none = file at unlimited
  have start : file.nReadPos = position state := unlimited.nReadPos.trans here
  have small : 4 ≤ nBufSize - nRewindIn := by
    rw [sizes.beside]
    decide
  have enough : content.length < file.nReadPos + (content.length + 1) := by omega
  rcases unlimited.sound.findByte sizes.toSizes (loader.messageStart.headD 0) enough with
    ⟨found, found_eq, byte⟩ | ⟨lost, next, lost_eq⟩
  · rw [found_eq]
    dsimp only
    have below : loader.Without content (position state) found.nReadPos :=
      fun offset _ least less intact => byte.first offset (start ▸ least) less intact.first
    have from_ : position state ≤ found.nReadPos := start ▸ byte.le
    have free : found.nReadLimit = none := byte.nReadLimit.trans unlimited.nReadLimit
    -- the magic
    rcases byte.sound.read sizes.toSizes
      (fun limit isLimit => by rw [free] at isLimit; cases isLimit)
      (show 4 + nRewindIn ≤ nBufSize by omega) with ⟨_, buf, read_eq, read⟩ | ⟨short, _, failed, _⟩
    · rw [read_eq]
      dsimp only
      have reached := read.nReadPos
      have le := read.sound.nReadPos_le
      by_cases magic : (content.drop found.nReadPos).take 4 = loader.messageStart
      · rw [if_neg (not_not.mpr magic)]
        -- the size
        have unbound : buf.nReadLimit = none := read.nReadLimit.trans free
        have window : buf.window = content.drop (found.nReadPos + 4) := by
          rw [CBufferedFile.window_none unbound, reached]
        have modest : (Reading.uint 4).Modest (nBufSize - nRewindIn) buf.window :=
          Reading.modest_read small fun _ => trivial
        rcases read.sound.unserialize sizes.toSizes
            (fun limit isLimit => by rw [unbound] at isLimit; cases isLimit) modest with
          ⟨nSize, rest, sized, run, unserialized, soundSized, passed⟩ | ⟨run, _, unserialized, _⟩
        · rw [unserialized]
          dsimp only
          rw [window, Reading.implements_uint] at run
          obtain ⟨long, rest_eq⟩ := length_of_uint run
          rw [drop_drop] at rest_eq
          rw [length_drop] at long
          rw [window, rest_eq, reached, length_drop, length_drop] at passed
          exact sized_spec noError sizes steady from_ below magic (rest_eq ▸ run) soundSized
            (by omega)
        · rw [unserialized]
          rw [window, Reading.implements_uint, Reading.run_uint, length_drop] at run
          refine .leaves rfl (below.short ?_)
          by_contra long
          rw [if_neg (by omega)] at run
          cases run
      · rw [if_pos magic]
        refine .skips ⟨read.sound, ?_, steady.reindexes, steady.genuine⟩ rfl rfl from_
          (below.succ fun _ intact => magic intact.magic)
        dsimp only
        omega
    · rw [failed]
      exact .leaves rfl (below.short (by omega))
  · rw [lost_eq]
    refine .leaves rfl fun offset block least less intact => ?_
    exact lost offset (start ▸ least) less intact.first

end

/-! ## Runs of the loop -/

/-- A record of some block starts at the offset. -/
def Marked (loader : BlockLoader Node) (content : List UInt8) (offset : Nat) : Prop :=
  ∃ block, loader.Intact content offset block

theorem Without.bare {upper : Nat} (nothing : loader.Without content lower upper) :
    Scan.Bare (loader.Marked content) lower upper := by
  rintro offset least less ⟨block, intact⟩
  exact nothing offset block least less intact

theorem lawful
    (noError : ∀ node block dbp, (loader.processNewBlock node block dbp).isError = false)
    (sizes : BlockSizes nBufSize nRewindIn) :
    (loader.scanner : Scan.Scanner (LoadState Node content nBufSize nRewindIn) _).Lawful
      (loader.Marked content) content.length loader.Steady := by
  have going : ∀ {state : LoadState Node content nBufSize nRewindIn}, state.blkdat.eof = false →
      resume state = position state := by
    intro state goesOn
    rw [resume, goesOn, if_neg Bool.false_ne_true]
    rfl
  have turned : ∀ {state : LoadState Node content nBufSize nRewindIn} {result},
      loader.Steady state → loader.turn state = result → loader.Turned state result :=
    fun steady turned_eq => turned_eq ▸ turn_spec noError sizes steady
  have inside : ∀ {offset}, loader.Marked content offset → offset < content.length := by
    rintro offset ⟨block, intact⟩
    have le := intact.inside
    omega
  constructor
  · -- the scan does not go on before the restart
    intro state steady
    change state.nRewind ≤ resume state
    rw [resume]
    split
    · exact steady.nRewind_le_length
    · exact Nat.le_max_left _ _
  · intro state steady ended offset marked
    change offset < resume state
    rw [resume, if_pos (show state.blkdat.eof = true from ended)]
    exact inside marked
  · intro state after steady goesOn turned_eq
    change after.records = state.records ∧ ∀ offset, _ → offset < resume state
    rw [going goesOn]
    cases turned steady turned_eq with
    | leaves same nothing =>
      refine ⟨same, fun offset marked => Nat.lt_of_not_le fun least => ?_⟩
      exact nothing.bare offset least (inside marked) marked
  · intro state after steady next
    cases turned steady next.2 with
    | skips steadyNext => exact steadyNext
    | takes _ steadyNext => exact steadyNext
  · intro state after steady next
    change resume state < after.nRewind ∧ _
    rw [going next.1]
    cases turned steady next.2 with
    | skips steadyNext _ restart from_ => exact ⟨by omega, steadyNext.nRewind_le_length⟩
    | takes record steadyNext _ restart from_ within =>
      exact ⟨by omega, steadyNext.nRewind_le_length⟩
  · intro state after steady next
    cases turned steady next.2 with
    | @skips _ offset _ same restart from_ nothing =>
      refine .skip same ?_
      change Scan.Bare _ (resume state) after.nRewind
      rw [going next.1, restart]
      exact nothing.bare
    | takes record _ added restart from_ _ nothing =>
      refine .take record added ?_ ?_ restart
      · change resume state ≤ _
        rw [going next.1]
        exact from_
      · change Scan.Bare _ (resume state) _
        rw [going next.1]
        exact nothing.bare

theorem covers_iff_findsEvery {records : List BlockRecord}
    (genuine : ∀ record ∈ records, loader.Genuine content record) :
    (loader.scanner : Scan.Scanner (LoadState Node content nBufSize nRewindIn) _).Covers
      (loader.Marked content) records ↔ loader.FindsEvery content records := by
  constructor
  · intro covers offset block intact
    obtain ⟨record, member, started, stopped⟩ := covers offset ⟨block, intact⟩
    rcases Nat.lt_or_eq_of_le started with before | rfl
    · exact .inl ⟨record, member, before, stopped⟩
    · have read := genuine record member
      exact .inr ⟨record, member, rfl, read.intact.unique intact, read.kept⟩
  · rintro finds offset ⟨block, intact⟩
    rcases finds offset block intact with
      ⟨record, member, before, stopped⟩ | ⟨record, member, rfl, _⟩
    · exact ⟨record, member, Nat.le_of_lt before, stopped⟩
    · exact ⟨record, member, Nat.le_refl _, (genuine record member).inside⟩

theorem steady_start (dbp : CDiskBlockPos) (node : Node)
    (mapBlocksUnknownParent : List (Uint256 × CDiskBlockPos)) :
    loader.Steady (start (some dbp) node mapBlocksUnknownParent :
      LoadState Node content nBufSize nRewindIn) where
  sound := CBufferedFile.sound_start
  nRewind_le := Nat.le_refl 0
  reindexes := rfl
  genuine := fun _ member => absurd member not_mem_nil

theorem scan_findsEvery_iff
    (noError : ∀ node block dbp, (loader.processNewBlock node block dbp).isError = false)
    (sizes : BlockSizes nBufSize nRewindIn) (dbp : CDiskBlockPos) (node : Node)
    (mapBlocksUnknownParent : List (Uint256 × CDiskBlockPos)) :
    (∃ final : LoadState Node content nBufSize nRewindIn,
      loader.scanner.loop (content.length + 1) (start (some dbp) node mapBlocksUnknownParent) =
        some final ∧ loader.FindsEvery content final.records) ↔
      ∀ state : LoadState Node content nBufSize nRewindIn,
        loader.scanner.Reached (start (some dbp) node mapBlocksUnknownParent) state →
          loader.NoGap state := by
  have law := @lawful _ loader content _ _ noError sizes
  have steady := @steady_start _ loader content nBufSize nRewindIn dbp node mapBlocksUnknownParent
  obtain ⟨before, final, looped, reached, leaves⟩ :=
    law.loop_leaves steady (Nat.lt_succ_of_le (Nat.sub_le _ _))
  have covered := leaves.covers_iff law steady rfl rfl reached
  have genuine : ∀ record ∈ final.records, loader.Genuine content record := by
    have same : final.records = before.records :=
      leaves.entries_eq law (reached.invariant law steady)
    rw [same]
    exact (reached.invariant law steady).genuine
  have finds := @covers_iff_findsEvery _ loader content nBufSize nRewindIn _ genuine
  constructor
  · rintro ⟨other, loopedToo, every⟩ state reachedToo offset block least less intact
    cases looped.symm.trans loopedToo
    exact covered.mp (finds.mpr every) state reachedToo offset least less ⟨block, intact⟩
  · intro noGap
    refine ⟨final, looped, finds.mp (covered.mpr fun state reachedToo => ?_)⟩
    rintro offset least less ⟨block, intact⟩
    exact noGap state reachedToo offset block least less intact

/-- A reindexing ends, and it finds every record exactly if no turn of its loop goes on
behind a record that starts at or after the restart: neither past what the buffer can be
rewound to, nor at the end of the file. -/
theorem loadExternalBlockFile_findsEvery_iff (loader : BlockLoader Node)
    (noError : ∀ node block dbp, (loader.processNewBlock node block dbp).isError = false)
    (content : List UInt8) (dbp : CDiskBlockPos) (node : Node)
    (mapBlocksUnknownParent : List (Uint256 × CDiskBlockPos)) :
    (∃ final, loader.loadExternalBlockFile (content.length + 1) (some dbp) node
        mapBlocksUnknownParent content = some final ∧ loader.FindsEvery content final.records) ↔
      ∀ state : Loading Node content,
        loader.scanner.Reached (start (some dbp) node mapBlocksUnknownParent) state →
          loader.NoGap state :=
  scan_findsEvery_iff noError blockSizes dbp node mapBlocksUnknownParent

namespace Sample

/-- A node without blocks that takes every block. -/
def blockLoader : BlockLoader Unit where
  messageStart := [0xf8, 0xba, 0xb3, 0xd8]
  messageStart_length := rfl
  hashGenesisBlock := 0
  hashOf := fun _ => 0
  getHash := fun header => header.hashMerkleRoot
  index := fun _ => StoredIndex.empty.index
  processNewBlock := fun node _ _ => { accepted := true, isError := false, node := node }
  readBlockFromDisk := fun _ _ => none

/-- A block of a header and no transactions. -/
def block : WireBlock :=
  { header :=
      { nVersion := 0, hashPrevBlock := 0, hashMerkleRoot := 0, nTime := 0, nBits := 1,
        nNonce := 256 }
    vtx := [] }

def record : List UInt8 := blockLoader.messageStart ++ leBytes 4 81 ++ block.serialize

/-- A record that was only begun, and one after it. -/
def truncated : List UInt8 := blockLoader.messageStart ++ leBytes 4 1000 ++ record

end Sample

/-- The block of the second record is taken for the transactions of the first, up to the
end of the file, and the loop is left there. -/
theorem truncated_hides_record :
    ∃ final, Sample.blockLoader.loadExternalBlockFile (Sample.truncated.length + 1) (some ⟨0, 0⟩)
        () [] Sample.truncated = some final ∧
      ¬ Sample.blockLoader.FindsEvery Sample.truncated final.records := by
  have none_ : (Sample.blockLoader.loadExternalBlockFile (Sample.truncated.length + 1)
      (some ⟨0, 0⟩) () [] Sample.truncated).map (fun final => final.records.map BlockRecord.start) = some [] := by
    decide +kernel
  obtain ⟨final, loaded, empty⟩ := map_eq_some_iff.mp none_
  have valid : Sample.block.Serializable Sample.blockLoader.hashOf := by
    refine ⟨Nat.zero_le _, fun tx member => absurd member not_mem_nil, Nat.zero_le _, ?_⟩
    exact fun _ => rfl
  have intact : Sample.blockLoader.Intact Sample.truncated 8 Sample.block := by
    have bytes : (Sample.truncated.drop (8 + 8)).take 81 = Sample.block.serialize ++ [] := by
      decide +kernel
    refine ⟨by decide +kernel, 81, [], by decide +kernel, by decide, by decide, ?_⟩
    rw [bytes]
    exact valid.reads []
  refine ⟨final, loaded, fun finds => ?_⟩
  rw [map_eq_nil_iff.mp empty] at finds
  rcases finds 8 Sample.block intact with ⟨_, member, _⟩ | ⟨_, member, _⟩
  · exact not_mem_nil member
  · exact not_mem_nil member

theorem loadExternalBlockFile_findsEvery_iff_truncated :
    (∃ final, Sample.blockLoader.loadExternalBlockFile (Sample.truncated.length + 1) (some ⟨0, 0⟩)
        () [] Sample.truncated = some final ∧
      Sample.blockLoader.FindsEvery Sample.truncated final.records) ↔
      ∀ state : Loading Unit Sample.truncated,
        Sample.blockLoader.scanner.Reached (start (some ⟨0, 0⟩) () []) state →
          Sample.blockLoader.NoGap state :=
  loadExternalBlockFile_findsEvery_iff Sample.blockLoader (fun _ _ _ => rfl) Sample.truncated
    ⟨0, 0⟩ () []

end BlockLoader

end CentNode
