import CentNode.Chain.BlockFormat
import CentNode.Library.Scan
import CentNode.Primitives.BufferedFile

/-!
# Loading a block file

`LoadExternalBlockFile` of `main.cpp`.  The file is scanned for records of a block: the
network magic, a size and the block itself.  After a record that does not parse the scan
is to go on one byte after its start, as far back as the buffer can be rewound.
-/

namespace CentNode

open Wire

/-- What `ProcessNewBlock` returns, sets and leaves behind. -/
structure Processing (Node : Type) where
  accepted : Bool
  isError : Bool
  node : Node

/-- The chain parameters and the functions of a node that the loader calls. -/
structure BlockLoader (Node : Type) where
  messageStart : List UInt8
  messageStart_length : messageStart.length = 4
  hashGenesisBlock : Uint256
  /-- The hash of serialized data, and `CBlock::GetHash`. -/
  hashOf : List UInt8 → Uint256
  getHash : CBlockHeader → Uint256
  index : Node → IndexState
  processNewBlock : Node → WireBlock → Option CDiskBlockPos → Processing Node
  readBlockFromDisk : Node → CDiskBlockPos → Option WireBlock

inductive BlockFate where
  /-- In `mapBlocksUnknownParent`, as an out-of-order child. -/
  | stored
  /-- Out of order, with no position to store. -/
  | dropped
  | processed
  | known
  deriving DecidableEq, Repr

/-- A record that was read, from its magic to the end of its block. -/
structure BlockRecord where
  start : Nat
  stop : Nat
  block : WireBlock
  fate : BlockFate

/-- The blocks of other positions that a block brings in: `queue` and the static
`mapBlocksUnknownParent`, in the order of insertion. -/
structure Successors (Node : Type) where
  node : Node
  nLoaded : Nat
  queue : List Uint256
  unknownParent : List (Uint256 × CDiskBlockPos)

namespace BlockLoader

variable {Node : Type} (loader : BlockLoader Node)

/-- `mapBlockIndex.count(hash)`. -/
def inIndex (node : Node) (hash : Uint256) : Bool :=
  ((loader.index node).tree.mapBlockIndex.lookup hash).isSome

def haveBlock (node : Node) (hash : Uint256) : Bool :=
  match (loader.index node).tree.mapBlockIndex.lookup hash with
  | none => false
  | some pindex => ((loader.index node).nStatus pindex).haveData

def blockFate (node : Node) (dbp : Option CDiskBlockPos) (block : WireBlock) : BlockFate :=
  let hash := loader.getHash block.header
  if hash ≠ loader.hashGenesisBlock ∧ !loader.inIndex node block.header.hashPrevBlock then
    if dbp.isSome then .stored else .dropped
  else if loader.haveBlock node hash then .known
  else .processed

/-! ## Out-of-order children -/

/-- One turn of the inner loop, without the `erase`. -/
def processSuccessor (successors : Successors Node) (pos : CDiskBlockPos) : Successors Node :=
  match loader.readBlockFromDisk successors.node pos with
  | none => successors
  | some block =>
    let done := loader.processNewBlock successors.node block (some pos)
    if done.accepted then
      { successors with
        node := done.node
        nLoaded := successors.nLoaded + 1
        queue := successors.queue ++ [loader.getHash block.header] }
    else { successors with node := done.node }

/-- The inner loop: the children of a hash, which leave the map. -/
def processRange (head : Uint256) (successors : Successors Node) : Successors Node :=
  let range := successors.unknownParent.filter fun entry => entry.1 = head
  { (range.map (·.2)).foldl loader.processSuccessor successors with
    unknownParent := successors.unknownParent.filter fun entry => !decide (entry.1 = head) }

variable (head : Uint256) (range : List CDiskBlockPos) (successors : Successors Node)

theorem length_queue_processSuccessor (pos : CDiskBlockPos) :
    (loader.processSuccessor successors pos).queue.length ≤ successors.queue.length + 1 := by
  unfold processSuccessor
  split
  · exact Nat.le_succ _
  · dsimp only
    split
    · exact Nat.le_of_eq List.length_append
    · exact Nat.le_succ _

theorem length_queue_foldl :
    (range.foldl loader.processSuccessor successors).queue.length ≤
      successors.queue.length + range.length := by
  induction range generalizing successors with
  | nil => exact Nat.le_refl _
  | cons pos rest ih =>
    have first := loader.length_queue_processSuccessor successors pos
    have others := ih (loader.processSuccessor successors pos)
    rw [List.foldl_cons, List.length_cons]
    omega

theorem size_processRange :
    (loader.processRange head successors).queue.length +
        (loader.processRange head successors).unknownParent.length ≤
      successors.queue.length + successors.unknownParent.length := by
  have queue := loader.length_queue_foldl
    ((successors.unknownParent.filter fun entry => entry.1 = head).map (·.2)) successors
  have parts := @List.length_eq_length_filter_add _ successors.unknownParent
    fun entry => decide (entry.1 = head)
  rw [List.length_map] at queue
  change ((_ : List CDiskBlockPos).foldl loader.processSuccessor successors).queue.length +
    (successors.unknownParent.filter fun entry => !decide (entry.1 = head)).length ≤ _
  omega

def processQueue (successors : Successors Node) : Successors Node :=
  match _ : successors.queue with
  | [] => successors
  | head :: queue => processQueue (loader.processRange head { successors with queue := queue })
termination_by successors.queue.length + successors.unknownParent.length
decreasing_by
  have le := loader.size_processRange head { successors with queue := queue }
  have counted : successors.queue.length = queue.length + 1 :=
    congrArg List.length ‹successors.queue = head :: queue›
  dsimp only at le
  omega

end BlockLoader

/-! ## The scan -/

/-- The variables of the loop, with the sizes that `blkdat` is constructed with; `records`
lists what was read so far. -/
structure LoadState (Node : Type) (content : List UInt8) (nBufSize nRewindIn : Nat) where
  blkdat : CBufferedFile content nBufSize nRewindIn
  nRewind : Nat
  dbp : Option CDiskBlockPos
  node : Node
  nLoaded : Nat
  mapBlocksUnknownParent : List (Uint256 × CDiskBlockPos)
  records : List BlockRecord

namespace BlockLoader

variable {Node : Type} (loader : BlockLoader Node) {content : List UInt8}
  {nBufSize nRewindIn : Nat}

/-- The first turn starts with a new file, and with what earlier files left behind. -/
def start (dbp : Option CDiskBlockPos) (node : Node)
    (mapBlocksUnknownParent : List (Uint256 × CDiskBlockPos)) :
    LoadState Node content nBufSize nRewindIn where
  blkdat := {}
  nRewind := 0
  dbp := dbp
  node := node
  nLoaded := 0
  mapBlocksUnknownParent := mapBlocksUnknownParent
  records := []

/-- The successors of a block that is known by now. -/
def takeSuccessors (state : LoadState Node content nBufSize nRewindIn) (hash : Uint256) :
    LoadState Node content nBufSize nRewindIn :=
  let done := loader.processQueue
    { node := state.node, nLoaded := state.nLoaded, queue := [hash],
      unknownParent := state.mapBlocksUnknownParent }
  { state with
    node := done.node
    nLoaded := done.nLoaded
    mapBlocksUnknownParent := done.unknownParent }

/-- A block that was read; `false` where the loop is left. -/
def takeBlock (state : LoadState Node content nBufSize nRewindIn) (block : WireBlock) :
    Bool × LoadState Node content nBufSize nRewindIn :=
  let hash := loader.getHash block.header
  match loader.blockFate state.node state.dbp block with
  | .stored =>
    (true,
      { state with
        mapBlocksUnknownParent := state.mapBlocksUnknownParent ++
          state.dbp.toList.map fun pos => (block.header.hashPrevBlock, pos) })
  | .dropped => (true, state)
  | .known => (true, loader.takeSuccessors state hash)
  | .processed =>
    let done := loader.processNewBlock state.node block state.dbp
    let state := { state with
      node := done.node
      nLoaded := if done.accepted then state.nLoaded + 1 else state.nLoaded }
    if done.isError then (false, state) else (true, loader.takeSuccessors state hash)

/-- `dbp->nPos = nBlockPos`. -/
def diskPos (dbp : Option CDiskBlockPos) (nBlockPos : Nat) : Option CDiskBlockPos :=
  dbp.map fun pos => { nFile := pos.nFile, nPos := nBlockPos % 2 ^ 32 }

/-- The `try` block that reads a block of a size, from the position of the file on. -/
def readRecord (state : LoadState Node content nBufSize nRewindIn) (nSize : Nat) :
    Bool × LoadState Node content nBufSize nRewindIn :=
  let nBlockPos := state.blkdat.nReadPos
  let dbp := diskPos state.dbp nBlockPos
  let limited := (state.blkdat.setLimit (some (nBlockPos + nSize))).setPos nBlockPos
  match limited.unserialize (Unserialize.block loader.hashOf) with
  | (none, blkdat) => (true, { state with blkdat := blkdat, dbp := dbp })
  | (some block, blkdat) =>
    let record : BlockRecord :=
      { start := nBlockPos - 8, stop := blkdat.nReadPos, block := block
        fate := loader.blockFate state.node dbp block }
    loader.takeBlock
      { state with
        blkdat := blkdat
        nRewind := blkdat.nReadPos
        dbp := dbp
        records := state.records ++ [record] }
      block

/-- The body of the `while` loop; `false` where the loop is left. -/
def turn (state : LoadState Node content nBufSize nRewindIn) :
    Bool × LoadState Node content nBufSize nRewindIn :=
  match ((state.blkdat.setPos state.nRewind).setLimit none).findByte
      (loader.messageStart.headD 0) (content.length + 1) with
  | (false, blkdat) => (false, { state with blkdat := blkdat, nRewind := state.nRewind + 1 })
  | (true, found) =>
    let nRewind := found.nReadPos + 1
    match found.read 4 with
    | (none, blkdat) => (false, { state with blkdat := blkdat, nRewind := nRewind })
    | (some buf, blkdat) =>
      if buf ≠ loader.messageStart then (true, { state with blkdat := blkdat, nRewind := nRewind })
      else
        match blkdat.unserialize (Reading.uint 4) with
        | (none, blkdat) => (false, { state with blkdat := blkdat, nRewind := nRewind })
        | (some nSize, blkdat) =>
          if nSize < 80 ∨ nSize > maxBlockSize then
            (true, { state with blkdat := blkdat, nRewind := nRewind })
          else loader.readRecord { state with blkdat := blkdat, nRewind := nRewind } nSize

/-- Where a turn goes on: `SetPos` does not rewind further than the buffer allows, and at
the end of the file there is no other turn. -/
def resume (state : LoadState Node content nBufSize nRewindIn) : Nat :=
  if state.blkdat.eof then content.length
  else max state.nRewind (state.blkdat.nSrcPos - nRewindIn)

/-- The scan of `LoadExternalBlockFile`. -/
def scanner : Scan.Scanner (LoadState Node content nBufSize nRewindIn) BlockRecord where
  ends state := state.blkdat.eof
  turn := loader.turn
  restart := LoadState.nRewind
  resume := resume
  entries := LoadState.records
  start := BlockRecord.start
  stop := BlockRecord.stop

/-- The state with the buffer of `LoadExternalBlockFile`. -/
abbrev Loading (Node : Type) (content : List UInt8) : Type :=
  LoadState Node content (2 * maxBlockSize) (maxBlockSize + 8)

/-- `LoadExternalBlockFile` in at most a number of turns, up to the value it returns. -/
def loadExternalBlockFile (turns : Nat) (dbp : Option CDiskBlockPos) (node : Node)
    (mapBlocksUnknownParent : List (Uint256 × CDiskBlockPos)) (content : List UInt8) :
    Option (Loading Node content) :=
  loader.scanner.loop turns (start dbp node mapBlocksUnknownParent)

/-! ## The records of a file -/

/-- The network magic, a size and a block that unserializes within the size. -/
structure Intact (content : List UInt8) (offset : Nat) (block : WireBlock) : Prop where
  magic : (content.drop offset).take 4 = loader.messageStart
  parses : ∃ nSize rest, (Wire.uint 4).run (content.drop (offset + 4)) =
      some (nSize, content.drop (offset + 8)) ∧ 80 ≤ nSize ∧ nSize ≤ maxBlockSize ∧
    (readBlock loader.hashOf).run ((content.drop (offset + 8)).take nSize) = some (block, rest)

/-- Every record that is not inside one that was read was read itself, and its block was
processed, known or stored. -/
def FindsEvery (content : List UInt8) (records : List BlockRecord) : Prop :=
  ∀ offset block, loader.Intact content offset block →
    (∃ record ∈ records, record.start < offset ∧ offset < record.stop) ∨
      ∃ record ∈ records, record.start = offset ∧ record.block = block ∧ record.fate ≠ .dropped

/-- No record lies between where the scan is meant to go on and where it does. -/
def NoGap (state : LoadState Node content nBufSize nRewindIn) : Prop :=
  ∀ offset block, state.nRewind ≤ offset → offset < resume state →
    ¬ loader.Intact content offset block

end BlockLoader

end CentNode
