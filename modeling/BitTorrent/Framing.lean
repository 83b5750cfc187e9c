import BitTorrent.Handshake
import BitTorrent.Message

/-!
Reading handshakes and messages off the front of a byte stream. A read that fails says what it
consumed by what it leaves.
-/

set_option autoImplicit false

namespace BitTorrent.Framing

/-- The largest payload that is accepted by default: a block of 128 KiB and its header. -/
def defaultLimit : Nat := 128 * 1024 + 9

/-- Takes `count` bytes off a stream that will not grow; a stream that is too short is used up. -/
def takeExact (count : Nat) (stream : Bytes) : Except StreamEnd Bytes × Bytes :=
  if count ≤ stream.length then (.ok (stream.take count), stream.drop count)
  else (.error .endOfStream, [])

/-- Reads a handshake; a first byte other than the length of the protocol's name ends the read. -/
def readHandshake (stream : Bytes) : Except Failure Handshake × Bytes :=
  match takeExact 1 stream with
  | (.error cause, rest) => (.error (.stream cause), rest)
  | (.ok lead, rest) =>
    if lead ≠ [19] then
      (.error (.fault (.violation (.handshakeLead (lead.headD 0).toNat))), rest)
    else
      match takeExact 67 rest with
      | (.error cause, rest) => (.error (.stream cause), rest)
      | (.ok frame, rest) =>
        match Handshake.decode (lead ++ frame) with
        | .error violation => (.error (.fault (.violation violation)), rest)
        | .ok handshake => (.ok handshake, rest)

/-- What a read of one message took off the stream: nothing that counts as traffic, or a payload
and what it says. -/
inductive Arrival where
  | failed (cause : Failure)
  | payload (length : Nat) (message : Except Violation Message)

/-- Reads a message whose payload has at most `limit` bytes. -/
def readMessage (limit : Nat) (stream : Bytes) : Arrival × Bytes :=
  match takeExact 4 stream with
  | (.error cause, rest) => (.failed (.stream cause), rest)
  | (.ok lead, rest) =>
    let length := Bytes.toNat lead
    if limit < length then
      (.failed (.fault (.violation (.frameTooLarge length limit))), rest)
    else
      match takeExact length rest with
      | (.error cause, rest) => (.failed (.stream cause), rest)
      | (.ok payload, rest) => (.payload length (Message.decode payload), rest)

/-- Takes the next message off a stream that may still grow; none while it has to grow first. -/
def nextMessage? (limit : Nat) (ended : Bool) (stream : Bytes) : Option (Arrival × Bytes) :=
  match readMessage limit stream with
  | (.failed (.stream cause), rest) => if ended then some (.failed (.stream cause), rest) else none
  | arrival => some arrival

/-- Takes the handshake off a stream that may still grow; none while it has to grow first. -/
def nextHandshake? (ended : Bool) (stream : Bytes) : Option (Except Failure Handshake × Bytes) :=
  match readHandshake stream with
  | (.error (.stream cause), rest) => if ended then some (.error (.stream cause), rest) else none
  | arrival => some arrival

/-- The bytes that a payload takes up on the wire. -/
def frameLength (payloadLength : Nat) : Nat :=
  4 + payloadLength

/-- What became of reading messages until a stream is used up. -/
structure Reading where
  messages : List Message
  failure : Option Failure
  left : Bytes
  traffic : Nat

/-- Reads messages until the stream is used up or a read fails; at most `fuel` of them. -/
def readMessages (limit : Nat) : Nat → Bytes → Reading
  | 0, stream => ⟨[], none, stream, 0⟩
  | _, [] => ⟨[], none, [], 0⟩
  | fuel + 1, stream =>
    match readMessage limit stream with
    | (.failed cause, rest) => ⟨[], some cause, rest, 0⟩
    | (.payload length (.error violation), rest) =>
      ⟨[], some (.fault (.violation violation)), rest, frameLength length⟩
    | (.payload length (.ok message), rest) =>
      let later := readMessages limit fuel rest
      { later with
        messages := message :: later.messages, traffic := frameLength length + later.traffic }

/-- Reads every message of a stream. -/
def readAll (limit : Nat) (stream : Bytes) : Reading :=
  readMessages limit stream.length stream

end BitTorrent.Framing
