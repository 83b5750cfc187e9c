import BitTorrent.Fault
import BitTorrent.Word

/-!
The messages that peers exchange after the handshake, and their frames: four bytes with the length
of the payload, one byte for the opcode, and a body. Numbers are four bytes wide, ports two, all
big-endian.
-/

set_option autoImplicit false

namespace BitTorrent

/-- The kinds of messages that have an opcode. -/
inductive Opcode where
  | choke
  | unchoke
  | interested
  | notInterested
  | have_
  | bitfield
  | request
  | piece
  | cancel
  | port
  deriving DecidableEq, Repr

namespace Opcode

def toNat : Opcode → Nat
  | choke => 0
  | unchoke => 1
  | interested => 2
  | notInterested => 3
  | have_ => 4
  | bitfield => 5
  | request => 6
  | piece => 7
  | cancel => 8
  | port => 9

def ofNat? : Nat → Option Opcode
  | 0 => some choke
  | 1 => some unchoke
  | 2 => some interested
  | 3 => some notInterested
  | 4 => some have_
  | 5 => some bitfield
  | 6 => some request
  | 7 => some piece
  | 8 => some cancel
  | 9 => some port
  | _ => none

def name : Opcode → String
  | choke => "Choke"
  | unchoke => "Unchoke"
  | interested => "Interested"
  | notInterested => "NotInterested"
  | have_ => "Have"
  | bitfield => "Bitfield"
  | request => "Request"
  | piece => "Piece"
  | cancel => "Cancel"
  | port => "Port"

/-- The size of the body, and whether a larger body is allowed. -/
def bodySize : Opcode → Nat × Bool
  | choke | unchoke | interested | notInterested => (0, false)
  | have_ => (4, false)
  | bitfield => (0, true)
  | request | cancel => (12, false)
  | piece => (8, true)
  | port => (2, false)

/-- The opcode with a given number. -/
def read (value : Nat) : Except Violation Opcode :=
  match ofNat? value with
  | some opcode => .ok opcode
  | none => .error (.unknownOpcode value)

end Opcode

/-- A message between peers. -/
inductive Message where
  | keepAlive
  | choke
  | unchoke
  | interested
  | notInterested
  | have_ (piece : Nat)
  | bitfield (bytes : Bytes)
  | request (request : BlockRequest)
  | piece (index start : Nat) (data : Bytes)
  | cancel (request : BlockRequest)
  | port (number : Nat)
  deriving DecidableEq, Repr

namespace Message

/-- The opcode; a keep-alive has none. -/
def opcode? : Message → Option Opcode
  | keepAlive => none
  | choke => some .choke
  | unchoke => some .unchoke
  | interested => some .interested
  | notInterested => some .notInterested
  | have_ _ => some .have_
  | bitfield _ => some .bitfield
  | request _ => some .request
  | piece .. => some .piece
  | cancel _ => some .cancel
  | port _ => some .port

/-- The three numbers that name a block. -/
def requestBody (request : BlockRequest) : Bytes :=
  Bytes.ofNat 4 request.piece ++ Bytes.ofNat 4 request.start ++ Bytes.ofNat 4 request.length

/-- What follows the opcode. -/
def body : Message → Bytes
  | keepAlive | choke | unchoke | interested | notInterested => []
  | have_ index => Bytes.ofNat 4 index
  | bitfield bytes => bytes
  | request r => requestBody r
  | piece index start data => Bytes.ofNat 4 index ++ Bytes.ofNat 4 start ++ data
  | cancel r => requestBody r
  | port number => Bytes.ofNat 2 number

/-- Opcode and body. -/
def payload (message : Message) : Bytes :=
  match message.opcode? with
  | none => []
  | some opcode => UInt8.ofNat opcode.toNat :: message.body

/-- The frame: the length of the payload and the payload. -/
def encode (message : Message) : Bytes :=
  Bytes.ofNat 4 message.payload.length ++ message.payload

/-- Reads the three numbers that name a block from a body of twelve bytes. -/
def readRequest (body : Bytes) : BlockRequest :=
  ⟨Bytes.toNat (body.take 4), Bytes.toNat ((body.drop 4).take 4), Bytes.toNat (body.drop 8)⟩

/-- Reads a body of a size that its opcode allows. -/
def ofBody (body : Bytes) : Opcode → Message
  | .choke => choke
  | .unchoke => unchoke
  | .interested => interested
  | .notInterested => notInterested
  | .have_ => have_ (Bytes.toNat body)
  | .bitfield => bitfield body
  | .request => request (readRequest body)
  | .piece => piece (Bytes.toNat (body.take 4)) (Bytes.toNat ((body.drop 4).take 4)) (body.drop 8)
  | .cancel => cancel (readRequest body)
  | .port => port (Bytes.toNat body)

/-- Reads a payload. -/
def decode : Bytes → Except Violation Message
  | [] => .ok keepAlive
  | lead :: body =>
    match Opcode.read lead.toNat with
    | .error violation => .error violation
    | .ok opcode =>
      let (size, larger) := opcode.bodySize
      if body.length < size ∨ (larger = false ∧ body.length ≠ size) then
        .error (.malformedFrame opcode.name larger size body.length)
      else .ok (ofBody body opcode)

/-- Whether the numbers of a message fit their fields. -/
def Fits : Message → Prop
  | have_ index => index < Word.bound32
  | request r | cancel r =>
    r.piece < Word.bound32 ∧ r.start < Word.bound32 ∧ r.length < Word.bound32
  | piece index start _ => index < Word.bound32 ∧ start < Word.bound32
  | port number => number < Word.bound16
  | _ => True

end Message

end BitTorrent
