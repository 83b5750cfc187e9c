import BitTorrent.Download.Turn

/-! Turns of a connection whose waits are served at once by a store in memory. -/

set_option autoImplicit false

namespace BitTorrent

/-- What a turn leaves behind. -/
structure Outcome where
  store : MemoryStore
  turn : Turn
  result : Except Fault Flow

namespace Turn

/-- Hashes the piece that a turn waits for. -/
def settleChecksum (store : MemoryStore) (turn : Turn) (piece : Piece) : Outcome :=
  let (turn, result) := turn.afterChecksum piece (store.checksum piece.range)
  ⟨store, turn, result⟩

/-- Serves the waits of a turn until it is over. -/
def settle (store : MemoryStore) : Turn × Next → Outcome
  | (turn, .done result) => ⟨store, turn, result⟩
  | (turn, .wait (.checksum piece)) => settleChecksum store turn piece
  | (turn, .wait (.read request range)) =>
    let (turn, result) := turn.afterRead request (store.read range)
    ⟨store, turn, result⟩
  | (turn, .wait (.write request range data)) =>
    let (store, outcome) := match store.write range data with
      | .ok store => (store, Except.ok ())
      | .error fault => (store, Except.error fault)
    match turn.afterWrite request outcome with
    | (turn, .done result) => ⟨store, turn, result⟩
    | (turn, .wait (.checksum piece)) => settleChecksum store turn piece
    | (turn, .wait _) => ⟨store, turn, .ok .stay⟩

/-- Reacts to an event of the session. -/
def handleStored (store : MemoryStore) (turn : Turn) (event : Event) : Outcome :=
  settle store (turn.handle event)

/-- Serves the open request of the peer. -/
def serveStored (store : MemoryStore) (turn : Turn) : Outcome :=
  settle store turn.serve

/-- Receives a message and reacts to it. -/
def receiveStored (store : MemoryStore) (turn : Turn) (now : Nat) (message : Message) :
    Except Violation Event × Outcome :=
  match turn.session.receive now message with
  | (session, .error violation) =>
    (.error violation, ⟨store, { turn with session := session }, .error (.violation violation)⟩)
  | (session, .ok event) => (.ok event, handleStored store { turn with session := session } event)

end Turn

end BitTorrent
