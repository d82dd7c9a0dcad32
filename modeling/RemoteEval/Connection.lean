import RemoteEval.Framing.Decoder
import RemoteEval.Request

/-!
A connection to an interpreter. What the remote end writes comes in piece by piece and is read
when no whole response is buffered. When the remote end has closed its output the rest of the
buffer is used up first; only then has the stream ended, and it stays so. Writing may be cut off
after any number of bytes, and what has been written may still fail to be flushed.
-/
namespace RemoteEval

open Framing

structure Connection where
  peer : String
  decoder : Decoder := {}
  unread : List (List UInt8) := []
  outputClosed : Bool := false
  atEnd : Bool := false
  readFault : Option Fault := none
  room : Option Nat := none
  flushFault : Option Fault := none

inductive Receipt where
  | response (response : Response)
  | ended
  | failed (fault : Fault)
  | waiting

def pipeCapacity : Nat := 64 * 1024

def pieces (size : Nat) (bytes : List UInt8) : List (List UInt8) :=
  if _h : size = 0 ∨ bytes = [] then if bytes = [] then [] else [bytes]
  else bytes.take size :: pieces size (bytes.drop size)
termination_by bytes.length
decreasing_by
  have := List.length_pos_iff.2 (not_or.1 _h).2
  have := Nat.pos_of_ne_zero (not_or.1 _h).1
  simp only [List.length_drop]
  omega

namespace Connection

/-- A piece comes in. Nothing comes in once the remote end has closed its output. -/
def arrive (c : Connection) (piece : List UInt8) : Connection :=
  if c.outputClosed then c else { c with unread := c.unread ++ [piece] }

def deliver (c : Connection) (bytes : List UInt8) : Connection :=
  { c with unread := pieces pipeCapacity (c.unread.flatten ++ bytes) }

def closeOutput (c : Connection) : Connection := { c with outputClosed := true }

def dropRemote (c : Connection) : Connection := { c with outputClosed := true, room := some 0 }

def receiveRest (c : Connection) : Receipt × Connection :=
  match c.decoder.nextAtEnd with
  | (some response, decoder) => (.response response, { c with decoder })
  | (none, decoder) => (.ended, { c with decoder })

/-- Receive from the buffer, and from pieces as long as no whole response is buffered. -/
def receivePieces (c : Connection) : List (List UInt8) → Receipt × Connection
  | [] =>
    match c.decoder.next with
    | (some response, decoder) => (.response response, { c with decoder, unread := [] })
    | (none, decoder) =>
      match c.readFault with
      | some fault => (.failed fault, { c with decoder, unread := [] })
      | none =>
        if c.outputClosed then { c with decoder, unread := [], atEnd := true }.receiveRest
        else (.waiting, { c with decoder, unread := [] })
  | piece :: rest =>
    match c.decoder.next with
    | (some response, decoder) => (.response response, { c with decoder, unread := piece :: rest })
    | (none, decoder) => { c with decoder := decoder.feed piece }.receivePieces rest

def receive (c : Connection) : Receipt × Connection :=
  if c.atEnd then c.receiveRest else c.receivePieces c.unread

/-- Write bytes and flush them. Answers what came through and whether that failed. -/
def write (c : Connection) (bytes : List UInt8) : List UInt8 × Option Fault × Connection :=
  match c.room with
  | none => (bytes, c.flushFault, c)
  | some room =>
    if bytes.length ≤ room then
      (bytes, c.flushFault, { c with room := some (room - bytes.length) })
    else (bytes.take room, some .brokenPipe, { c with room := some 0 })

def send (c : Connection) (request : Request) : List UInt8 × Option Fault × Connection :=
  c.write request.wire

def shown (c : Connection) : String := "Connection \x7b peer: " ++ c.peer ++ " \x7d"

def pending (c : Connection) : Nat := c.unread.flatten.length + c.decoder.buffer.length

end Connection

end RemoteEval
