import BitTorrent.Framing
import BitTorrent.Word

/-!
The far side of a stream: what it sends when it opens, what it has got from the engine, and which
requests it still has to answer.
-/

set_option autoImplicit false

namespace BitTorrent

/-- What a far side says at once. -/
structure Hello where
  handshake : Option Handshake
  messages : List Message
  raw : Bytes

/-- The bytes of a greeting. -/
def Hello.bytes (hello : Hello) : Bytes :=
  (match hello.handshake with
    | some handshake => handshake.encode
    | none => []) ++ hello.messages.flatMap Message.encode ++ hello.raw

/-- What a far side gets. -/
inductive Received where
  | handshake (handshake : Handshake)
  | message (message : Message)
  deriving DecidableEq, Repr

/-- A far side. A handshake comes first; `received` is what nobody has looked at yet, and `noticed`
says that the end of the stream was looked at. -/
structure FarSide where
  greeted : Bool := false
  unread : Bytes := []
  received : List Received := []
  requests : List BlockRequest := []
  noticed : Bool := false
  deriving Repr

namespace FarSide

/-- More bytes than any payload has. -/
def anyLength : Nat := Word.bound32

/-- Gets a message. -/
def get (side : FarSide) (message : Message) : FarSide :=
  { side with
    received := side.received ++ [.message message]
    requests := match message with
      | .request request => side.requests ++ [request]
      | _ => side.requests }

/-- Reads the complete messages. -/
def readMessages : Nat → FarSide → FarSide
  | 0, side => side
  | fuel + 1, side =>
    match Framing.nextMessage? anyLength false side.unread with
    | some (.payload _ (.ok message), rest) =>
      readMessages fuel ({ side with unread := rest }.get message)
    | _ => side

/-- Reads what has come. -/
def read (side : FarSide) (bytes : Bytes) : FarSide :=
  let side := { side with unread := side.unread ++ bytes }
  if side.greeted then readMessages side.unread.length side
  else
    match Framing.nextHandshake? false side.unread with
    | some (.ok handshake, rest) =>
      readMessages rest.length { side with
        greeted := true, unread := rest, received := side.received ++ [.handshake handshake] }
    | _ => side

end FarSide

end BitTorrent
