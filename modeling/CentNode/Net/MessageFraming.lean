import CentNode.Library.Runs
import CentNode.Net.ReceivedMessages
import Mathlib.Data.List.Forall2

/-!
# Messages do not depend on packets

The messages of a stream are told by taking it byte by byte.  `ReceiveMsgBytes`
makes the same of any way to cut the stream, while the buffers of a message grow
ahead of its bytes.
-/

namespace CentNode

open List Option

open Wire

/-- The header that 24 bytes stand for. -/
def headerOf (bytes : List UInt8) : Option CMessageHeader :=
  (readMessageHeader.run bytes).map Prod.fst

/-! ## A stream, byte by byte -/

/-- The frames of a stream so far, header and payload, and the bytes after the last of them. -/
structure Framing where
  frames : List (List UInt8) := []
  pending : List UInt8 := []
  /-- A header was too long for a message, or none. -/
  refused : Bool := false

namespace Framing

/-- What happens at a byte that makes the pending bytes these. -/
def settle (framing : Framing) (pending : List UInt8) : Framing :=
  if pending.length < 24 then { framing with pending := pending }
  else
    match headerOf (pending.take 24) with
    | none => { framing with pending := pending, refused := true }
    | some hdr =>
      if maxProtocolMessageLength < hdr.nMessageSize then
        { framing with pending := pending, refused := true }
      else if pending.length = 24 + hdr.nMessageSize then
        { framing with frames := framing.frames ++ [pending], pending := [] }
      else { framing with pending := pending }

def byte (framing : Framing) (next : UInt8) : Framing :=
  if framing.refused then framing else framing.settle (framing.pending ++ [next])

def absorb (framing : Framing) (bytes : List UInt8) : Framing := bytes.foldl byte framing

variable {framing : Framing} {bytes : List UInt8}

theorem absorb_append (framing : Framing) (first second : List UInt8) :
    framing.absorb (first ++ second) = (framing.absorb first).absorb second :=
  foldl_append

theorem absorb_of_refused (refused : framing.refused = true) : framing.absorb bytes = framing := by
  induction bytes with
  | nil => rfl
  | cons next rest ih =>
    have stays : framing.byte next = framing := if_pos refused
    rw [absorb, foldl_cons, stays]
    exact ih

theorem absorb_last (taking : framing.refused = false) (last : UInt8)
    (before : framing.absorb bytes = { framing with pending := framing.pending ++ bytes }) :
    framing.absorb (bytes ++ [last]) = framing.settle (framing.pending ++ (bytes ++ [last])) := by
  rw [absorb_append, before, ← append_assoc]
  exact if_neg (ne_true_of_eq_false taking)

theorem absorb_open (taking : framing.refused = false)
    (stays : ∀ count, 0 < count → count ≤ bytes.length →
      framing.settle (framing.pending ++ bytes.take count) =
        { framing with pending := framing.pending ++ bytes.take count }) :
    framing.absorb bytes = { framing with pending := framing.pending ++ bytes } := by
  induction bytes using reverseRecOn with
  | nil =>
    rw [append_nil]
    rfl
  | append_singleton bytes last ih =>
    have before := ih fun count positive within => by
      have stay := stays count positive (by rw [length_append]; omega)
      rwa [take_append_of_le_length within] at stay
    have here := stays (bytes ++ [last]).length (by rw [length_append]; simp) (Nat.le_refl _)
    rw [take_length] at here
    rw [absorb_last taking last before, here]

theorem settle_header {pending : List UInt8} (short : pending.length < 24) :
    framing.settle pending = { framing with pending := pending } := if_pos short

theorem settle_data {pending : List UInt8} {hdr : CMessageHeader} (headed : 24 ≤ pending.length)
    (header : headerOf (pending.take 24) = some hdr)
    (size_le : hdr.nMessageSize ≤ maxProtocolMessageLength) :
    framing.settle pending =
      if pending.length = 24 + hdr.nMessageSize then
        { framing with frames := framing.frames ++ [pending], pending := [] }
      else { framing with pending := pending } := by
  rw [settle, if_neg (Nat.not_lt.mpr headed), header]
  exact if_neg (Nat.not_lt.mpr size_le)

theorem absorb_header (taking : framing.refused = false)
    (short : framing.pending.length + bytes.length < 24) :
    framing.absorb bytes = { framing with pending := framing.pending ++ bytes } := by
  refine absorb_open taking fun count _ within => settle_header ?_
  rw [length_append, length_take]
  omega

theorem absorb_data {hdr : CMessageHeader} (taking : framing.refused = false)
    (headed : 24 ≤ framing.pending.length)
    (header : headerOf (framing.pending.take 24) = some hdr)
    (size_le : hdr.nMessageSize ≤ maxProtocolMessageLength)
    (short : framing.pending.length + bytes.length < 24 + hdr.nMessageSize) :
    framing.absorb bytes = { framing with pending := framing.pending ++ bytes } := by
  refine absorb_open taking fun count _ within => ?_
  have length_eq : (framing.pending ++ bytes.take count).length = framing.pending.length + count := by
    rw [length_append, length_take, Nat.min_eq_left within]
  rw [settle_data (by omega) (by rwa [take_append_of_le_length headed]) size_le,
    if_neg (by omega)]

theorem absorb_settle (taking : framing.refused = false) (filled : bytes ≠ [])
    (before : framing.absorb bytes.dropLast =
      { framing with pending := framing.pending ++ bytes.dropLast }) :
    framing.absorb bytes = framing.settle (framing.pending ++ bytes) := by
  have last := absorb_last taking (bytes.getLast filled) before
  rwa [dropLast_append_getLast filled] at last

theorem flatten_absorb (taking : (framing.absorb bytes).refused = false) :
    (framing.absorb bytes).frames.flatten ++ (framing.absorb bytes).pending =
      framing.frames.flatten ++ (framing.pending ++ bytes) := by
  induction bytes generalizing framing with
  | nil => rw [append_nil, absorb, foldl_nil]
  | cons next rest ih =>
    have step : framing.absorb (next :: rest) = (framing.byte next).absorb rest := rfl
    rw [step] at taking ⊢
    rw [ih taking]
    have clear : framing.refused = false := by
      by_contra refused
      have stays : framing.byte next = framing := if_pos (by simpa using refused)
      rw [stays, absorb_of_refused (by simpa using refused)] at taking
      exact refused taking
    have settled : (framing.settle (framing.pending ++ [next])).frames.flatten ++
        (framing.settle (framing.pending ++ [next])).pending =
          framing.frames.flatten ++ (framing.pending ++ [next]) := by
      unfold settle
      split
      · rfl
      · split
        · rfl
        · split
          · rfl
          · split
            · simp
            · rfl
    have byte_eq : framing.byte next = framing.settle (framing.pending ++ [next]) :=
      if_neg (ne_true_of_eq_false clear)
    rw [byte_eq, ← append_assoc, settled]
    simp

theorem absorb_prepend (before : List (List UInt8)) (framing : Framing) (bytes : List UInt8) :
    ({ framing with frames := before ++ framing.frames } : Framing).absorb bytes =
      { framing.absorb bytes with frames := before ++ (framing.absorb bytes).frames } := by
  induction bytes generalizing framing with
  | nil => rfl
  | cons next rest ih =>
    have one : ({ framing with frames := before ++ framing.frames } : Framing).byte next =
        { framing.byte next with frames := before ++ (framing.byte next).frames } := by
      unfold byte
      dsimp only
      split
      · rfl
      · unfold settle
        dsimp only
        split
        · rfl
        · split
          · rfl
          · split
            · rfl
            · split
              · rw [append_assoc]
              · rfl
    rw [absorb, foldl_cons, one]
    exact ih (framing.byte next)

end Framing

open Framing

/-! ## Buffers -/

theorem copyInto_eq_some {buffer bytes : List UInt8} {pos : Nat}
    (fits : pos + bytes.length ≤ buffer.length) :
    ∃ copied, copyInto buffer pos bytes = some copied ∧ copied.length = buffer.length ∧
      copied.take (pos + bytes.length) = buffer.take pos ++ bytes := by
  have head : (buffer.take pos ++ bytes).length = pos + bytes.length := by
    rw [length_append, length_take, Nat.min_eq_left (by omega)]
  refine ⟨_, if_pos fits, ?_, ?_⟩
  · rw [← append_assoc, length_append, head, length_drop]
    omega
  · rw [← append_assoc, ← head, take_left']
    rfl

theorem length_resized (buffer : List UInt8) (size : Nat) : (resized buffer size).length = size := by
  rw [resized, length_append, length_take, length_replicate]
  omega

theorem take_resized {buffer : List UInt8} {size count : Nat} (kept : count ≤ buffer.length)
    (within : count ≤ size) : (resized buffer size).take count = buffer.take count := by
  rw [resized, take_append_of_le_length (by rw [length_take]; omega), take_take,
    Nat.min_eq_left within]

/-! ## Messages -/

namespace CNetMessage

structure InHeader (msg : CNetMessage) (bytes : List UInt8) : Prop where
  short : bytes.length < 24
  inData : msg.inData = false
  nHdrPos : msg.nHdrPos = bytes.length
  hdrbuf_length : msg.hdrbuf.length = 24
  hdrbuf : msg.hdrbuf.take bytes.length = bytes
  vRecv : msg.vRecv = []
  nDataPos : msg.nDataPos = 0

structure InData (msg : CNetMessage) (bytes : List UInt8) : Prop where
  headed : 24 ≤ bytes.length
  inData : msg.inData = true
  header : headerOf (bytes.take 24) = some msg.hdr
  size_le : msg.hdr.nMessageSize ≤ maxProtocolMessageLength
  within : bytes.length ≤ 24 + msg.hdr.nMessageSize
  nDataPos : msg.nDataPos + 24 = bytes.length
  vRecv : msg.vRecv.take msg.nDataPos = bytes.drop 24
  vRecv_ge : msg.nDataPos ≤ msg.vRecv.length
  vRecv_le : msg.vRecv.length ≤ msg.hdr.nMessageSize

/-- The message is one with these bytes to the last. -/
structure HasFrame (msg : CNetMessage) (frame : List UInt8) : Prop extends InData msg frame where
  ended : frame.length = 24 + msg.hdr.nMessageSize

def Waits (msg : CNetMessage) (bytes : List UInt8) : Prop :=
  InHeader msg bytes ∨ (InData msg bytes ∧ bytes.length < 24 + msg.hdr.nMessageSize)

theorem waits_new : Waits {} [] := Or.inl ⟨by decide, rfl, rfl, rfl, rfl, rfl, rfl⟩

variable {msg : CNetMessage} {bytes : List UInt8}

theorem Waits.complete_eq_false (waits : msg.Waits bytes) : msg.complete = false := by
  unfold complete
  rcases waits with header | ⟨data, short⟩
  · rw [header.inData]
    rfl
  · have nDataPos := data.nDataPos
    rw [data.inData]
    exact decide_eq_false (by omega)

theorem HasFrame.complete_eq_true (has : msg.HasFrame bytes) : msg.complete = true := by
  have nDataPos := has.nDataPos
  have ended := has.ended
  unfold complete
  rw [has.inData]
  exact decide_eq_true (by omega)

theorem HasFrame.vRecv_eq (has : msg.HasFrame bytes) : msg.vRecv = bytes.drop 24 := by
  have nDataPos := has.nDataPos
  have ended := has.ended
  have upper := has.vRecv_le
  rw [← has.vRecv, take_of_length_le (by omega)]

/-- The bytes are handled, and the message has them or is one to the last of them. -/
def Takes (framing : Framing) (pch : List UInt8) (next : CNetMessage) (handled : Int) : Prop :=
  ∃ count, 0 < count ∧ count ≤ pch.length ∧ handled = count ∧
    (next.inData && decide (maxProtocolMessageLength < next.hdr.nMessageSize)) = false ∧
    (framing.absorb (pch.take count)).refused = false ∧
    (((framing.absorb (pch.take count)).frames = framing.frames ∧
        next.Waits (framing.absorb (pch.take count)).pending) ∨
      ∃ frame, framing.absorb (pch.take count) =
          { framing with frames := framing.frames ++ [frame], pending := [] } ∧
        next.HasFrame frame)

/-- The bytes end a header that is refused. -/
def Refuses (framing : Framing) (pch : List UInt8) (next : CNetMessage) (handled : Int) : Prop :=
  (handled < 0 ∨ (next.inData && decide (maxProtocolMessageLength < next.hdr.nMessageSize)) = true) ∧
    (framing.absorb pch).refused = true ∧ (framing.absorb pch).frames = framing.frames ∧
    next.complete = false ∧ next.vRecv = []

variable {framing : Framing} {pch : List UInt8}

theorem InHeader.readHeader (header : msg.InHeader framing.pending)
    (taking : framing.refused = false) (filled : pch ≠ []) :
    ∃ next handled, msg.readHeader pch = some (next, handled) ∧
      (Takes framing pch next handled ∨ Refuses framing pch next handled) := by
  have positive : 0 < pch.length := length_pos_of_ne_nil filled
  have short := header.short
  have nHdrPos := header.nHdrPos
  obtain ⟨count, count_eq⟩ : ∃ count, min (24 - msg.nHdrPos) pch.length = count := ⟨_, rfl⟩
  have taken_length : (pch.take count).length = count := by
    rw [length_take]
    omega
  have full_length : (framing.pending ++ pch.take count).length = framing.pending.length + count := by
    rw [length_append, taken_length]
  obtain ⟨copied, copied_eq, copied_length, copied_take⟩ :=
    @copyInto_eq_some msg.hdrbuf (pch.take count) msg.nHdrPos (by
      rw [header.hdrbuf_length]
      omega)
  rw [header.hdrbuf_length] at copied_length
  rw [taken_length, nHdrPos, header.hdrbuf] at copied_take
  rw [CNetMessage.readHeader, count_eq, copied_eq, map_some]
  by_cases more : msg.nHdrPos + count < 24
  · refine ⟨_, _, congrArg some (if_pos more), Or.inl ⟨count, by omega, by omega, rfl, ?_, ?_⟩⟩
    · dsimp only
      rw [header.inData, Bool.false_and]
    · have absorbed := @Framing.absorb_header framing (pch.take count) taking (by omega)
      rw [absorbed]
      refine ⟨taking, Or.inl ⟨rfl, Or.inl ⟨by dsimp only; omega, header.inData, ?_, copied_length, ?_,
        header.vRecv, header.nDataPos⟩⟩⟩
      · dsimp only
        omega
      · dsimp only
        rw [full_length]
        exact copied_take
  · have whole : framing.pending.length + count = 24 := by omega
    have hdrbuf_eq : copied = framing.pending ++ pch.take count := by
      rw [← copied_take, whole, take_of_length_le (by omega)]
    have before := @Framing.absorb_header framing (pch.take count).dropLast taking (by
      rw [length_dropLast]
      omega)
    have nonempty : pch.take count ≠ [] := ne_nil_of_length_pos (by omega)
    have absorbed := absorb_settle taking nonempty before
    have headed : (framing.pending ++ pch.take count).take 24 = framing.pending ++ pch.take count :=
      take_of_length_le (by omega)
    rw [settle, if_neg (by omega), headed] at absorbed
    -- once the header is refused the rest of the bytes changes nothing
    have refusing : framing.absorb (pch.take count) =
          { framing with pending := framing.pending ++ pch.take count, refused := true } →
        (framing.absorb pch).refused = true ∧ (framing.absorb pch).frames = framing.frames := by
      intro refused
      have rest := absorb_append framing (pch.take count) (pch.drop count)
      rw [take_append_drop, refused] at rest
      rw [rest.trans (absorb_of_refused rfl)]
      exact ⟨rfl, rfl⟩
    dsimp only
    rw [if_neg more, hdrbuf_eq]
    cases parsed : readMessageHeader.run (framing.pending ++ pch.take count) with
    | none =>
      have unread : headerOf (framing.pending ++ pch.take count) = none := by
        rw [headerOf, parsed, map_none]
      rw [unread] at absorbed
      obtain ⟨refused, frames⟩ := refusing absorbed
      refine ⟨_, _, rfl, Or.inr ⟨Or.inl (by decide), refused, frames, ?_, header.vRecv⟩⟩
      unfold complete
      dsimp only
      rw [header.inData]
      rfl
    | some read =>
      have hdr_eq : headerOf (framing.pending ++ pch.take count) = some read.1 := by
        rw [headerOf, parsed, map_some]
      rw [hdr_eq] at absorbed
      dsimp only at absorbed ⊢
      by_cases huge : maxSize < read.1.nMessageSize
      · have large : maxProtocolMessageLength < read.1.nMessageSize := by
          unfold maxSize at huge
          unfold maxProtocolMessageLength
          omega
        rw [if_pos large] at absorbed
        obtain ⟨refused, frames⟩ := refusing absorbed
        rw [if_pos huge]
        refine ⟨_, _, rfl, Or.inr ⟨Or.inl (by decide), refused, frames, ?_, header.vRecv⟩⟩
        unfold complete
        dsimp only
        rw [header.inData]
        rfl
      · rw [if_neg huge]
        refine ⟨_, _, rfl, ?_⟩
        by_cases large : maxProtocolMessageLength < read.1.nMessageSize
        · rw [if_pos large] at absorbed
          obtain ⟨refused, frames⟩ := refusing absorbed
          refine Or.inr ⟨Or.inr (decide_eq_true large), refused, frames, ?_, header.vRecv⟩
          unfold complete
          dsimp only
          rw [header.nDataPos]
          unfold maxProtocolMessageLength at large
          exact decide_eq_false (by omega)
        · rw [if_neg large] at absorbed
          refine Or.inl ⟨count, by omega, by omega, rfl, decide_eq_false large, ?_⟩
          have begun : InData
              { msg with
                hdrbuf := framing.pending ++ pch.take count, nHdrPos := msg.nHdrPos + count,
                hdr := read.1, inData := true }
              (framing.pending ++ pch.take count) := by
            refine ⟨by omega, rfl, ?_, Nat.not_lt.mp large, ?_, ?_, ?_, ?_, ?_⟩
            · rw [headed]
              exact hdr_eq
            all_goals dsimp only
            · omega
            · rw [header.nDataPos]
              omega
            · rw [header.vRecv, take_nil, drop_eq_nil_of_le (by omega)]
            · rw [header.nDataPos]
              exact Nat.zero_le _
            · rw [header.vRecv]
              exact Nat.zero_le _
          by_cases empty : (framing.pending ++ pch.take count).length = 24 + read.1.nMessageSize
          · rw [if_pos empty] at absorbed
            rw [absorbed]
            exact ⟨taking, Or.inr ⟨_, rfl, begun, empty⟩⟩
          · rw [if_neg empty] at absorbed
            rw [absorbed]
            exact ⟨taking, Or.inl ⟨rfl, Or.inr ⟨begun, by dsimp only; omega⟩⟩⟩

theorem InData.readData (data : msg.InData framing.pending)
    (short : framing.pending.length < 24 + msg.hdr.nMessageSize)
    (taking : framing.refused = false) (filled : pch ≠ []) :
    ∃ next handled, msg.readData pch = some (next, handled) ∧ Takes framing pch next handled := by
  have positive : 0 < pch.length := length_pos_of_ne_nil filled
  have nDataPos := data.nDataPos
  have vRecv_ge := data.vRecv_ge
  have vRecv_le := data.vRecv_le
  obtain ⟨count, count_eq⟩ : ∃ count, min (msg.hdr.nMessageSize - msg.nDataPos) pch.length = count :=
    ⟨_, rfl⟩
  have taken_length : (pch.take count).length = count := by
    rw [length_take]
    omega
  -- the buffer is as long as what will be in it, and keeps what is in it
  obtain ⟨buffer, buffer_eq, long, bounded, kept⟩ : ∃ buffer,
      (if msg.vRecv.length < msg.nDataPos + count then
          resized msg.vRecv (min msg.hdr.nMessageSize (msg.nDataPos + count + 256 * 1024))
        else msg.vRecv) = buffer ∧ msg.nDataPos + count ≤ buffer.length ∧
        buffer.length ≤ msg.hdr.nMessageSize ∧
        buffer.take msg.nDataPos = msg.vRecv.take msg.nDataPos := by
    refine ⟨_, rfl, ?_⟩
    split
    · rw [length_resized]
      exact ⟨by omega, by omega, take_resized vRecv_ge (by omega)⟩
    · exact ⟨by omega, vRecv_le, rfl⟩
  obtain ⟨copied, copied_eq, copied_length, copied_take⟩ :=
    @copyInto_eq_some buffer (pch.take count) msg.nDataPos (by omega)
  refine ⟨{ msg with vRecv := copied, nDataPos := msg.nDataPos + count }, count, ?_, ?_⟩
  · rw [CNetMessage.readData, count_eq, buffer_eq, copied_eq, map_some]
  · have headed := data.headed
    have full_length : (framing.pending ++ pch.take count).length = framing.pending.length + count := by
      rw [length_append, taken_length]
    have header : headerOf ((framing.pending ++ pch.take count).take 24) = some msg.hdr := by
      rw [take_append_of_le_length headed]
      exact data.header
    have next : InData { msg with vRecv := copied, nDataPos := msg.nDataPos + count }
        (framing.pending ++ pch.take count) := by
      refine ⟨by omega, data.inData, header, data.size_le, ?_, ?_, ?_, ?_, ?_⟩
      all_goals dsimp only
      · omega
      · omega
      · rw [taken_length] at copied_take
        rw [copied_take, kept, data.vRecv, drop_append_of_le_length headed]
      · omega
      · omega
    have accepted : ¬ maxProtocolMessageLength < msg.hdr.nMessageSize := Nat.not_lt.mpr data.size_le
    refine ⟨count, by omega, by omega, rfl, ?_, ?_⟩
    · rw [data.inData, Bool.true_and]
      exact decide_eq_false accepted
    · by_cases ends : framing.pending.length + count = 24 + msg.hdr.nMessageSize
      · have before := @Framing.absorb_data framing (pch.take count).dropLast msg.hdr taking headed
          data.header data.size_le (by rw [length_dropLast]; omega)
        have absorbed := absorb_settle taking
          (ne_nil_of_length_pos (by omega)) before
        rw [settle_data (by omega) header data.size_le,
          if_pos (full_length.trans ends)] at absorbed
        rw [absorbed]
        exact ⟨taking, Or.inr ⟨_, rfl, next, full_length.trans ends⟩⟩
      · have absorbed := @Framing.absorb_data framing (pch.take count) msg.hdr taking headed
          data.header data.size_le (by omega)
        rw [absorbed]
        exact ⟨taking, Or.inl ⟨rfl, Or.inr ⟨next, by dsimp only; omega⟩⟩⟩

theorem Waits.read (waits : msg.Waits framing.pending) (taking : framing.refused = false)
    (filled : pch ≠ []) :
    ∃ next handled,
      (if msg.inData then msg.readData pch else msg.readHeader pch) = some (next, handled) ∧
        (Takes framing pch next handled ∨ Refuses framing pch next handled) := by
  rcases waits with header | ⟨data, short⟩
  · rw [header.inData, if_neg Bool.false_ne_true]
    exact header.readHeader taking filled
  · rw [data.inData, if_pos rfl]
    obtain ⟨next, handled, read, takes⟩ := data.readData short taking filled
    exact ⟨next, handled, read, Or.inl takes⟩

end CNetMessage

/-! ## The queue -/

/-- The messages at the front are complete and have these frames; at most one
more has the pending bytes. -/
def Queued (vRecvMsg : List CNetMessage) (frames : List (List UInt8)) (pending : List UInt8) :
    Prop :=
  ∃ front back, vRecvMsg = front ++ back ∧ List.Forall₂ CNetMessage.HasFrame front frames ∧
    ((back = [] ∧ pending = []) ∨ ∃ msg, back = [msg] ∧ msg.Waits pending)

/-- After a header that is refused the last message is not complete, and nothing
of its payload is kept. -/
def QueuedRefused (vRecvMsg : List CNetMessage) (frames : List (List UInt8)) : Prop :=
  ∃ front bad, vRecvMsg = front ++ [bad] ∧ List.Forall₂ CNetMessage.HasFrame front frames ∧
    bad.complete = false ∧ bad.vRecv = []

variable {front : List CNetMessage} {frames : List (List UInt8)}

theorem complete_of_frames (has : List.Forall₂ CNetMessage.HasFrame front frames) :
    ∀ msg ∈ front, msg.complete = true := by
  induction has with
  | nil => exact fun _ member => absurd member not_mem_nil
  | cons first _ ih => exact forall_mem_cons.mpr ⟨first.complete_eq_true, ih⟩

theorem currentMessage_of_queued {vRecvMsg : List CNetMessage} {pending : List UInt8}
    (queued : Queued vRecvMsg frames pending) :
    ∃ front msg, currentMessage vRecvMsg = (front, msg) ∧
      List.Forall₂ CNetMessage.HasFrame front frames ∧ msg.Waits pending := by
  obtain ⟨front, back, rfl, complete, ⟨rfl, rfl⟩ | ⟨msg, rfl, waits⟩⟩ := queued
  · rw [append_nil]
    refine ⟨front, {}, ?_, complete, CNetMessage.waits_new⟩
    unfold currentMessage
    cases last : front.getLast? with
    | none => rfl
    | some back => exact if_pos (complete_of_frames complete back (mem_of_getLast? last))
  · refine ⟨front, msg, ?_, complete, waits⟩
    unfold currentMessage
    rw [getLast?_concat, dropLast_concat]
    exact if_neg (ne_true_of_eq_false waits.complete_eq_false)

/-- What `ReceiveMsgBytes` leaves in the queue. -/
def Received (vRecvMsg : List CNetMessage) (ok : Bool) (framing : Framing) : Prop :=
  framing.refused = !ok ∧ (ok = true → Queued vRecvMsg framing.frames framing.pending) ∧
    (ok = false → QueuedRefused vRecvMsg framing.frames)

/-- The loop of `ReceiveMsgBytes` ends, and makes of the bytes what they make one by one. -/
theorem receiveLoop_of_queued {fuel : Nat} {vRecvMsg : List CNetMessage} {framing : Framing}
    {pch : List UInt8} (enough : pch.length ≤ fuel) (taking : framing.refused = false)
    (queued : Queued vRecvMsg framing.frames framing.pending) :
    ∃ next ok, receiveLoop fuel vRecvMsg pch = some (next, ok) ∧
      Received next ok (framing.absorb pch) := by
  induction fuel generalizing vRecvMsg framing pch with
  | zero =>
    obtain rfl : pch = [] := length_eq_zero_iff.mp (Nat.le_zero.mp enough)
    exact ⟨vRecvMsg, true, rfl, taking, fun _ => queued,
      fun impossible => absurd impossible (by decide)⟩
  | succ fuel ih =>
    cases pch with
    | nil => exact ⟨vRecvMsg, true, rfl, taking, fun _ => queued,
    fun impossible => absurd impossible (by decide)⟩
    | cons first rest =>
      obtain ⟨front, msg, current, complete, waits⟩ := currentMessage_of_queued queued
      obtain ⟨next, handled, read, takes | refuses⟩ := waits.read taking (cons_ne_nil first rest)
      · obtain ⟨count, positive, within, handled_eq, small, takingOn, after⟩ := takes
        have queuedOn : Queued (front ++ [next]) (framing.absorb ((first :: rest).take count)).frames
            (framing.absorb ((first :: rest).take count)).pending := by
          rcases after with ⟨frames, waitsOn⟩ | ⟨frame, absorbed, has⟩
          · rw [frames]
            exact ⟨front, [next], rfl, complete, Or.inr ⟨next, rfl, waitsOn⟩⟩
          · rw [absorbed]
            refine ⟨front ++ [next], [], (append_nil _).symm, ?_, Or.inl ⟨rfl, rfl⟩⟩
            exact rel_append complete (List.Forall₂.cons has List.Forall₂.nil)
        have shorter : ((first :: rest).drop count).length ≤ fuel := by
          rw [length_drop]
          omega
        obtain ⟨final, ok, ran, received⟩ := ih shorter takingOn queuedOn
        rw [← absorb_append, take_append_drop] at received
        refine ⟨final, ok, ?_, received⟩
        rw [receiveLoop, current]
        dsimp only
        rw [read, bind_some]
        dsimp only
        rw [if_neg (by omega), if_neg (ne_true_of_eq_false small), handled_eq, Int.toNat_natCast]
        exact ran
      · obtain ⟨stops, refused, frames, incomplete, bare⟩ := refuses
        refine ⟨front ++ [next], false, ?_, refused,
          fun impossible => absurd impossible Bool.false_ne_true,
          fun _ => ⟨front, next, rfl, frames ▸ complete, incomplete, bare⟩⟩
        rw [receiveLoop, current]
        dsimp only
        rw [read, bind_some]
        dsimp only
        rcases stops with negative | oversized
        · rw [if_pos negative]
        · rw [if_pos oversized, ite_self]

/-! ## Connections -/

def framingOf (stream : List UInt8) : Framing := Framing.absorb {} stream

/-- The byte at a position ends a header that is refused. -/
def RefusedAt (stream : List UInt8) (position : Nat) : Prop :=
  (framingOf (stream.take position)).refused = false ∧
    (framingOf (stream.take (position + 1))).refused = true

theorem refused_of_take {stream : List UInt8} {count : Nat}
    (refused : (framingOf (stream.take count)).refused = true) :
    (framingOf stream).refused = true := by
  have parts := absorb_append {} (stream.take count) (stream.drop count)
  rw [take_append_drop] at parts
  rw [framingOf, parts]
  exact (congrArg Framing.refused (absorb_of_refused refused)).trans refused

theorem refused_iff (stream : List UInt8) :
    (framingOf stream).refused = true ↔ ∃ position < stream.length, RefusedAt stream position := by
  refine ⟨fun refused => ?_, fun ⟨_, _, _, refused⟩ => refused_of_take refused⟩
  induction stream using reverseRecOn with
  | nil => cases refused
  | append_singleton stream last ih =>
    cases before : (framingOf stream).refused with
    | true =>
      obtain ⟨position, within, clear, refusedAt⟩ := ih before
      refine ⟨position, by rw [length_append]; omega, ?_, ?_⟩
      · rwa [take_append_of_le_length (Nat.le_of_lt within)]
      · rwa [take_append_of_le_length within]
    | false =>
      refine ⟨stream.length, by simp, ?_, ?_⟩
      · rwa [take_left]
      · rwa [take_of_length_le (by simp)]

/-- The messages that have been consumed and those in the queue are the frames
of the stream. -/
structure Connection.Agrees (conn : Connection) (framing : Framing) : Prop where
  fDisconnect : conn.fDisconnect = framing.refused
  frames : ∃ popped queued, framing.frames = popped ++ queued ∧
    List.Forall₂ CNetMessage.HasFrame conn.consumed popped ∧
    (framing.refused = false → Queued conn.vRecvMsg queued framing.pending) ∧
    (framing.refused = true → QueuedRefused conn.vRecvMsg queued)

theorem completeFront_append {back : List CNetMessage}
    (complete : ∀ msg ∈ front, msg.complete = true)
    (waits : ∀ msg ∈ back.head?, msg.complete = false) :
    completeFront (front ++ back) = front := by
  unfold completeFront
  rw [takeWhile_append_of_pos complete]
  cases back with
  | nil => exact append_nil front
  | cons msg rest => rw [takeWhile_cons_of_neg (ne_true_of_eq_false (waits msg rfl)), append_nil]

variable {conn : Connection} {framing : Framing}

theorem Connection.Agrees.receive (agrees : conn.Agrees framing) (pch : List UInt8) :
    ∃ next, conn.event (.receive pch) = some next ∧ next.Agrees (framing.absorb pch) := by
  cases refused : framing.refused with
  | true =>
    refine ⟨conn, if_pos (agrees.fDisconnect.trans refused), ?_⟩
    rw [absorb_of_refused refused]
    exact agrees
  | false =>
    obtain ⟨popped, queued, frames, consumed, taking, _⟩ := agrees.frames
    obtain ⟨vRecvMsg, ok, received, refusedNow, onOk, onBad⟩ :=
      @receiveLoop_of_queued pch.length conn.vRecvMsg { framing with frames := queued } pch
        (Nat.le_refl _) refused (taking refused)
    have prepended := absorb_prepend popped { framing with frames := queued } pch
    dsimp only at prepended
    rw [← frames] at prepended
    refine ⟨{ conn with vRecvMsg := vRecvMsg, fDisconnect := !ok }, ?_, ?_⟩
    · rw [Connection.event, if_neg (ne_true_of_eq_false (agrees.fDisconnect.trans refused)),
        receiveMsgBytes, received, map_some]
    · rw [prepended]
      refine ⟨refusedNow.symm, popped, _, rfl, consumed, fun going => onOk ?_, fun stopped => onBad ?_⟩
      · rw [refusedNow] at going
        simpa using going
      · rw [refusedNow] at stopped
        simpa using stopped

/-- Complete messages taken off the front leave the others as they are. -/
theorem Connection.Agrees.consume (agrees : conn.Agrees framing) (count : Nat) :
    ∃ next, conn.event (.consume count) = some next ∧ next.Agrees framing := by
  refine ⟨_, rfl, agrees.fDisconnect, ?_⟩
  obtain ⟨popped, queued, frames, consumed, taking, stopped⟩ := agrees.frames
  refine ⟨popped ++ queued.take count, queued.drop count, ?_, ?_⟩
  · rw [frames, append_assoc, take_append_drop]
  -- what is before the messages that wait, in either case
  have parts : ∀ {front back : List CNetMessage}, conn.vRecvMsg = front ++ back →
      List.Forall₂ CNetMessage.HasFrame front queued →
      (∀ msg ∈ back.head?, msg.complete = false) →
      List.Forall₂ CNetMessage.HasFrame
          (conn.consumed ++ (completeFront conn.vRecvMsg).take count)
          (popped ++ queued.take count) ∧
        conn.vRecvMsg.drop ((completeFront conn.vRecvMsg).take count).length =
            front.drop count ++ back ∧
          List.Forall₂ CNetMessage.HasFrame (front.drop count) (queued.drop count) := by
    intro front back split complete waits
    rw [split, completeFront_append (complete_of_frames complete) waits]
    refine ⟨rel_append consumed (List.forall₂_take count complete), ?_,
      List.forall₂_drop count complete⟩
    rw [drop_append_of_le_length (by rw [length_take]; omega), length_take]
    congr 1
    rcases Nat.le_total count front.length with inside | past
    · rw [Nat.min_eq_left inside]
    · rw [Nat.min_eq_right past, drop_length, drop_eq_nil_of_le past]
  cases refused : framing.refused with
  | false =>
    obtain ⟨front, back, split, complete, ends⟩ := taking refused
    have waits : ∀ msg ∈ back.head?, msg.complete = false := by
      rcases ends with ⟨rfl, _⟩ | ⟨msg, rfl, waits⟩
      · exact fun _ none => by cases none
      · rintro _ ⟨rfl⟩
        exact waits.complete_eq_false
    obtain ⟨taken, left, complete'⟩ := parts split complete waits
    exact ⟨taken, fun _ => ⟨_, back, left, complete', ends⟩,
      fun impossible => absurd impossible Bool.false_ne_true⟩
  | true =>
    obtain ⟨front, bad, split, complete, incomplete, bare⟩ := stopped refused
    obtain ⟨taken, left, complete'⟩ := parts split complete (by
      rintro _ ⟨rfl⟩
      exact incomplete)
    exact ⟨taken, fun impossible => absurd impossible (by decide),
      fun _ => ⟨_, bad, left, complete', incomplete, bare⟩⟩

theorem Connection.Agrees.run (agrees : conn.Agrees framing) (events : List PeerEvent) :
    ∃ final, Runs.run Connection.event conn events = some final ∧
      final.Agrees (framing.absorb (streamOf events)) := by
  induction events generalizing conn framing with
  | nil => exact ⟨conn, rfl, agrees⟩
  | cons event rest ih =>
    cases event with
    | receive pch =>
      obtain ⟨next, stepped, agreesOn⟩ := agrees.receive pch
      obtain ⟨final, ran, agreesToo⟩ := ih agreesOn
      refine ⟨final, ?_, ?_⟩
      · rw [Runs.run, stepped, bind_some, ran]
      · rw [streamOf, absorb_append]
        exact agreesToo
    | consume count =>
      obtain ⟨next, stepped, agreesOn⟩ := agrees.consume count
      obtain ⟨final, ran, agreesToo⟩ := ih agreesOn
      refine ⟨final, ?_, agreesToo⟩
      rw [Runs.run, stepped, bind_some, ran]

theorem agrees_new : Connection.Agrees {} {} :=
  ⟨rfl, [], [], rfl, List.Forall₂.nil,
    fun _ => ⟨[], [], rfl, List.Forall₂.nil, Or.inl ⟨rfl, rfl⟩⟩,
    fun impossible => absurd impossible Bool.false_ne_true⟩

/-- The header and the payload of a message, and of a frame. -/
def CNetMessage.contents (msg : CNetMessage) : Option CMessageHeader × List UInt8 :=
  (some msg.hdr, msg.vRecv)

def frameContents (frame : List UInt8) : Option CMessageHeader × List UInt8 :=
  (headerOf (frame.take 24), frame.drop 24)

theorem contents_of_frames {messages : List CNetMessage}
    (has : List.Forall₂ CNetMessage.HasFrame messages frames) :
    messages.map CNetMessage.contents = frames.map frameContents ∧
      ∀ msg ∈ messages, msg.vRecv.length = msg.hdr.nMessageSize ∧
        msg.hdr.nMessageSize ≤ maxProtocolMessageLength := by
  induction has with
  | nil => exact ⟨rfl, fun _ member => absurd member not_mem_nil⟩
  | @cons msg frame _ _ first _ ih =>
    obtain ⟨same, sized⟩ := ih
    have payload := first.vRecv_eq
    have ended := first.ended
    constructor
    · rw [map_cons, map_cons, same, CNetMessage.contents, frameContents, first.header,
        payload]
    · refine forall_mem_cons.mpr ⟨⟨?_, first.size_le⟩, sized⟩
      rw [payload, length_drop]
      omega

/-- However a stream is cut and whenever its messages are taken: no write leaves
a buffer, the messages are the frames of the stream, and false is returned at
the byte where the stream has a header that is refused. -/
theorem messages_independent_of_packets (events : List PeerEvent) :
    ∃ conn, Runs.run Connection.event {} events = some conn ∧
      (conn.fDisconnect = true ↔
        ∃ position < (streamOf events).length, RefusedAt (streamOf events) position) ∧
      (conn.fDisconnect = false → streamOf events =
        (framingOf (streamOf events)).frames.flatten ++ (framingOf (streamOf events)).pending) ∧
      (conn.consumed ++ conn.vRecvMsg.filter CNetMessage.complete).map CNetMessage.contents =
        (framingOf (streamOf events)).frames.map frameContents ∧
      (∀ msg ∈ conn.consumed ++ conn.vRecvMsg.filter CNetMessage.complete,
        msg.vRecv.length = msg.hdr.nMessageSize) ∧
      (∀ msg ∈ conn.vRecvMsg.dropLast, msg.complete = true) ∧
      ∀ msg ∈ conn.consumed ++ conn.vRecvMsg, msg.inData = true →
        maxProtocolMessageLength < msg.hdr.nMessageSize →
          msg.complete = false ∧ msg.vRecv = [] := by
  obtain ⟨conn, ran, agrees⟩ := agrees_new.run events
  obtain ⟨popped, queued, frames, consumed, taking, stopped⟩ := agrees.frames
  -- the queue is complete messages and at most one that is not
  obtain ⟨front, back, split, complete, atMost, waits⟩ : ∃ front back,
      conn.vRecvMsg = front ++ back ∧ List.Forall₂ CNetMessage.HasFrame front queued ∧
      back.length ≤ 1 ∧ ∀ msg ∈ back, msg.complete = false ∧ (msg.inData = true →
        maxProtocolMessageLength < msg.hdr.nMessageSize → msg.vRecv = []) := by
    cases refused : (framingOf (streamOf events)).refused with
    | false =>
      obtain ⟨front, back, split, complete, ends⟩ := taking refused
      refine ⟨front, back, split, complete, ?_⟩
      rcases ends with ⟨rfl, _⟩ | ⟨msg, rfl, waits⟩
      · exact ⟨Nat.zero_le 1, fun _ member => absurd member not_mem_nil⟩
      · refine ⟨Nat.le_refl 1, forall_mem_singleton.mpr ⟨waits.complete_eq_false, ?_⟩⟩
        intro inData large
        rcases waits with header | ⟨data, _⟩
        · exact header.vRecv
        · exact absurd data.size_le (Nat.not_le.mpr large)
    | true =>
      obtain ⟨front, bad, split, complete, incomplete, bare⟩ := stopped refused
      exact ⟨front, [bad], split, complete, Nat.le_refl 1,
        forall_mem_singleton.mpr ⟨incomplete, fun _ _ => bare⟩⟩
  have filtered : conn.vRecvMsg.filter CNetMessage.complete = front := by
    have none : back.filter CNetMessage.complete = [] :=
      filter_eq_nil_iff.mpr fun msg member => ne_true_of_eq_false (waits msg member).1
    rw [split, filter_append, none, append_nil,
      filter_eq_self.mpr (complete_of_frames complete)]
  obtain ⟨contents, sized⟩ := contents_of_frames (rel_append consumed complete)
  refine ⟨conn, ran, ?_, ?_, ?_, ?_, ?_, ?_⟩
  · rw [agrees.fDisconnect]
    exact refused_iff _
  · intro going
    exact (flatten_absorb (agrees.fDisconnect.symm.trans going)).symm
  · rw [filtered]
    exact contents.trans (congrArg _ frames.symm)
  · rw [filtered]
    exact fun msg member => (sized msg member).1
  · intro msg member
    refine complete_of_frames complete msg ?_
    rw [split] at member
    cases back with
    | nil =>
      rw [append_nil] at member
      exact dropLast_subset _ member
    | cons last rest =>
      obtain rfl : rest = [] := length_eq_zero_iff.mp (by simpa using atMost)
      rwa [dropLast_concat] at member
  · intro msg member inData large
    rw [split, ← append_assoc, mem_append] at member
    rcases member with inFront | inBack
    · exact absurd (sized msg inFront).2 (Nat.not_le.mpr large)
    · exact ⟨(waits msg inBack).1, (waits msg inBack).2 inData large⟩

end CentNode
