import CentNode.Primitives.Stream

/-!
# Messages from the network

`CNode::ReceiveMsgBytes` with `readHeader` and `readData` of `CNetMessage`, and
the part of `ProcessMessages` that takes complete messages off the front of
`vRecvMsg`.  A write outside of a buffer and a loop that does not end are
failures of the model.
-/

namespace CentNode

open Wire

def maxProtocolMessageLength : Nat := 2 * 1024 * 1024

/-- The default is the one of a header that has not been read. -/
structure CMessageHeader where
  pchMessageStart : List UInt8 := []
  pchCommand : List UInt8 := List.replicate 12 0
  nMessageSize : Nat := 4294967295
  nChecksum : Nat := 0
  deriving DecidableEq, Repr

def readMessageHeader : Reader CMessageHeader := do
  let pchMessageStart ← times byte 4
  let pchCommand ← times byte 12
  let nMessageSize ← uint 4
  let nChecksum ← uint 4
  pure { pchMessageStart, pchCommand, nMessageSize, nChecksum }

/-- `memcpy` into a buffer, which the bytes must not leave. -/
def copyInto (buffer : List UInt8) (pos : Nat) (bytes : List UInt8) : Option (List UInt8) :=
  if pos + bytes.length ≤ buffer.length then
    some (buffer.take pos ++ (bytes ++ buffer.drop (pos + bytes.length)))
  else none

/-- `CDataStream::resize`. -/
def resized (buffer : List UInt8) (size : Nat) : List UInt8 :=
  buffer.take size ++ List.replicate (size - buffer.length) 0

structure CNetMessage where
  /-- Parsing the header (false) or the data (true). -/
  inData : Bool := false
  hdrbuf : List UInt8 := List.replicate 24 0
  hdr : CMessageHeader := {}
  nHdrPos : Nat := 0
  vRecv : List UInt8 := []
  nDataPos : Nat := 0
  deriving DecidableEq, Repr

namespace CNetMessage

def complete (msg : CNetMessage) : Bool :=
  if !msg.inData then false else decide (msg.hdr.nMessageSize = msg.nDataPos)

/-- The message and the number of bytes handled, negative for a header that is refused. -/
def readHeader (msg : CNetMessage) (pch : List UInt8) : Option (CNetMessage × Int) :=
  let nRemaining := 24 - msg.nHdrPos
  let nCopy := min nRemaining pch.length
  (copyInto msg.hdrbuf msg.nHdrPos (pch.take nCopy)).map fun hdrbuf =>
    let msg := { msg with hdrbuf := hdrbuf, nHdrPos := msg.nHdrPos + nCopy }
    if msg.nHdrPos < 24 then (msg, (nCopy : Int))
    else
      match readMessageHeader.run hdrbuf with
      | none => (msg, -1)
      | some (hdr, _) =>
        if maxSize < hdr.nMessageSize then ({ msg with hdr := hdr }, -1)
        else ({ msg with hdr := hdr, inData := true }, (nCopy : Int))

def readData (msg : CNetMessage) (pch : List UInt8) : Option (CNetMessage × Int) :=
  let nRemaining := msg.hdr.nMessageSize - msg.nDataPos
  let nCopy := min nRemaining pch.length
  let vRecv :=
    if msg.vRecv.length < msg.nDataPos + nCopy then
      -- up to 256 KiB ahead, but never more than the message
      resized msg.vRecv (min msg.hdr.nMessageSize (msg.nDataPos + nCopy + 256 * 1024))
    else msg.vRecv
  (copyInto vRecv msg.nDataPos (pch.take nCopy)).map fun vRecv =>
    ({ msg with vRecv := vRecv, nDataPos := msg.nDataPos + nCopy }, (nCopy : Int))

end CNetMessage

/-- The incomplete message at the end of the queue, or a new one, and what is before it. -/
def currentMessage (vRecvMsg : List CNetMessage) : List CNetMessage × CNetMessage :=
  match vRecvMsg.getLast? with
  | none => (vRecvMsg, {})
  | some back => if back.complete then (vRecvMsg, {}) else (vRecvMsg.dropLast, back)

/-- The loop of `ReceiveMsgBytes` for a number of iterations: the queue and what is returned. -/
def receiveLoop : Nat → List CNetMessage → List UInt8 → Option (List CNetMessage × Bool)
  | _, vRecvMsg, [] => some (vRecvMsg, true)
  | 0, _, _ :: _ => none
  | fuel + 1, vRecvMsg, pch@(_ :: _) =>
    let (before, msg) := currentMessage vRecvMsg
    (if msg.inData then msg.readData pch else msg.readHeader pch).bind fun (msg, handled) =>
      if handled < 0 then some (before ++ [msg], false)
      else if msg.inData && maxProtocolMessageLength < msg.hdr.nMessageSize then
        some (before ++ [msg], false)
      else receiveLoop fuel (before ++ [msg]) (pch.drop handled.toNat)

def receiveMsgBytes (vRecvMsg : List CNetMessage) (pch : List UInt8) :
    Option (List CNetMessage × Bool) :=
  receiveLoop pch.length vRecvMsg pch

/-! ## A connection -/

inductive PeerEvent where
  /-- The socket thread passes on what it has read. -/
  | receive (pch : List UInt8)
  /-- `ProcessMessages` takes up to some number of complete messages. -/
  | consume (count : Nat)

structure Connection where
  vRecvMsg : List CNetMessage := []
  consumed : List CNetMessage := []
  /-- `ReceiveMsgBytes` has returned false: nothing more is passed on. -/
  fDisconnect : Bool := false

def completeFront (vRecvMsg : List CNetMessage) : List CNetMessage :=
  vRecvMsg.takeWhile CNetMessage.complete

def Connection.event (conn : Connection) : PeerEvent → Option Connection
  | .receive pch =>
    if conn.fDisconnect then some conn
    else
      (receiveMsgBytes conn.vRecvMsg pch).map fun (vRecvMsg, ok) =>
        { conn with vRecvMsg := vRecvMsg, fDisconnect := !ok }
  | .consume count =>
    let front := (completeFront conn.vRecvMsg).take count
    some { conn with
      vRecvMsg := conn.vRecvMsg.drop front.length, consumed := conn.consumed ++ front }

def streamOf : List PeerEvent → List UInt8
  | [] => []
  | .receive pch :: rest => pch ++ streamOf rest
  | .consume _ :: rest => streamOf rest

end CentNode
