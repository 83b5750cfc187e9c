import BitTorrent.Connection
import BitTorrent.Proofs.Codec
import BitTorrent.Proofs.Crowd
import BitTorrent.Proofs.Files
import BitTorrent.Proofs.Memory
import BitTorrent.Proofs.Peace
import Mathlib.Logic.Relation

/-!
One side of a connection, step by step. It runs its loop, which waits for the store, reads what
comes, and shares its pieces with other connections that do what they like meanwhile. A duty that is
done at once is a run of these steps.
-/

set_option autoImplicit false

namespace BitTorrent

open Relation (ReflTransGen)

/-- Whether a failure says that the peer has broken the protocol. -/
def Failure.accuses : Failure → Bool
  | .fault cause => cause.accuses
  | _ => false

/-- What a handler fails with, if it does. -/
def Next.failures : Next → List Failure
  | .done (.error fault) => [.fault fault]
  | _ => []

/-- Whether a handler asks to close the connection. -/
def Next.leaves : Next → Bool
  | .done (.ok .leave) => true
  | _ => false

namespace Duty

/-- The handler that a duty calls. -/
def deed (now : Nat) : Duty → Except Failure Deed
  | .command _ => .ok .obey
  | .upload => .ok .serve
  | .frame (.ok message) => .ok (.receive now message)
  | .frame (.error cause) => .error cause
  | .tick => .ok (.checkIdle now)

/-- What is taken off a connection when it turns to a duty. -/
def begin (now : Nat) (connection : Connection) : Duty → Connection
  | .frame _ => { connection with inbox := connection.inbox.tail }
  | .tick => { connection with
      tickAt := connection.tickAt.map fun due => Connection.nextTick due now }
  | _ => connection

end Duty

/-- How other connections may change what a connection shares with them: complete pieces stay
complete, and what they put into its mailbox is news of complete pieces. -/
structure Download.Drifts (number : Nat) (before after : Download) : Prop where
  torrent : after.torrent = before.torrent
  size : after.holdings.completed.size = before.holdings.completed.size
  grows : ∀ piece, before.Has piece → after.Has piece
  news : ∃ news, after.roster.queued number = before.roster.queued number ++ news ∧
    ∀ piece, .have_ piece ∈ news → after.Has piece

/-- Whatever a handler of another connection does is such a change. -/
theorem Worker.Tells.drifts {worker : Worker} {download : Download} {turn : Turn}
    (tells : worker.Tells download turn) (orderly : download.roster.Orderly) {number : Nat}
    (other : number ≠ worker.mailbox) : download.Drifts number turn.download := by
  have informs := @Tells.informs _ _ _ tells orderly worker.address number other
  refine ⟨informs.torrent, informs.size, fun _ => informs.grows, ?_⟩
  obtain ⟨news, queued, -, fresh, -⟩ := informs.news
  refine ⟨news, queued, ?_⟩
  intro piece member
  exact (fresh piece (List.mem_filterMap.mpr ⟨_, member, rfl⟩)).1

/-- Where a duty comes from. A command is the first in the mailbox, and a frame is the first that
was read; it waits until the open upload is served. -/
theorem Connection.duty?_cases {connection : Connection} {roster : Roster} {now : Nat}
    {duty : Duty} (found : connection.duty? roster now = some duty) :
    (∃ command rest, duty = .command command ∧
        roster.queued connection.mailbox = command :: rest) ∨
      duty = .upload ∨ duty = .tick ∨
      ∃ frame rest, duty = .frame frame ∧ connection.inbox = frame :: rest ∧
        connection.session.upload = none := by
  unfold duty? at found
  split at found
  · rename_i command rest queued
    cases found
    exact .inl ⟨command, rest, rfl, queued⟩
  · split at found
    · cases found
      exact .inr (.inl rfl)
    · rename_i idle
      split at found
      · rename_i frame rest waiting
        cases found
        exact .inr (.inr (.inr ⟨frame, rest, rfl, waiting, by simpa using idle⟩))
      · split at found
        · split at found
          · cases found
            exact .inr (.inr (.inl rfl))
          · cases found
        · cases found

/-- What a connection does for a duty is what its worker does, with the waits served at once. -/
theorem Connection.perform_worker {connection : Connection} {transfer : Transfer} {now : Nat}
    {duty : Duty} {deed : Deed} (written : connection.outbox = [])
    (found : connection.duty? transfer.download.roster now = some duty)
    (called : duty.deed now = .ok deed) :
    ∃ turn next, Worker.perform ⟨connection.session, connection.mailbox, [], none⟩
        transfer.download deed = some (turn, next) ∧
      connection.perform transfer now duty =
        (duty.begin now connection).settled transfer (Turn.settle transfer.store (turn, next)) := by
  obtain ⟨session, mailbox, inbox, outbox, tickAt, leaving⟩ := connection
  subst written
  rcases duty?_cases found with
    ⟨command, rest, rfl, queued⟩ | rfl | rfl | ⟨frame, rest, rfl, -, -⟩
  · cases called
    refine ⟨_, _, rfl, ?_⟩
    dsimp only at queued
    cases command <;> simp only [perform, takeCommand, queued, Worker.turn] <;> rfl
  · cases called
    exact ⟨_, _, rfl, rfl⟩
  · cases called
    exact ⟨_, _, rfl, rfl⟩
  · cases frame with
    | error cause => cases called
    | ok message =>
      cases called
      refine ⟨_, _, rfl, ?_⟩
      simp only [perform, Turn.receiveStored, Worker.turn, turn, Transfer.turn]
      rcases session.receive now message with ⟨later, violation | event⟩ <;> rfl

/-- One side of a connection, which reads payloads of at most `limit` bytes. `failures` is what its
reads and its handlers have failed with. A side that is closed does nothing any more but read, and
one that is deaf reads nothing any more. -/
structure Side where
  limit : Nat
  download : Download
  connection : Connection
  waiting : Option Awaiting
  failures : List Failure
  closed : Bool
  deaf : Bool

namespace Side

/-- A side whose handshakes are just exchanged; the greeting is in its outbox. -/
def start (transfer : Transfer) (address : Address) (peerId : PeerId)
    (capabilities : Capabilities) (mailbox now : Nat) : Side where
  limit := transfer.download.settings.maxFrameLength
  download := transfer.download
  connection := Connection.open_ transfer
    ((transfer.download.newSession address now).connecting.handshakeDone now peerId capabilities)
    mailbox
  waiting := none
  failures := []
  closed := false
  deaf := false

def worker (side : Side) : Worker :=
  ⟨side.connection.session, side.connection.mailbox, [], side.waiting⟩

def withConnection (side : Side) (connection : Connection) : Side :=
  { side with connection := connection }

/-- Takes over what a handler leaves behind at its end or at its next wait. -/
def after (side : Side) (turn : Turn) (next : Next) : Side :=
  { side with
    download := turn.download
    connection := { side.connection with
      session := turn.session
      outbox := side.connection.outbox ++ turn.outbox
      leaving := next.leaves }
    waiting := next.awaiting?
    failures := side.failures ++ next.failures
    closed := !next.failures.isEmpty }

/-- Puts what was read into the inbox; a failing read is the last. -/
def hear (side : Side) : Framing.Arrival → Side
  | .payload _ (.ok message) =>
    side.withConnection { side.connection with inbox := side.connection.inbox ++ [.ok message] }
  | .payload _ (.error violation) =>
    { side.withConnection { side.connection with
        inbox := side.connection.inbox ++ [.error (.fault (.violation violation))] } with
      failures := side.failures ++ [.fault (.violation violation)], deaf := true }
  | .failed cause =>
    { side.withConnection { side.connection with
        inbox := side.connection.inbox ++ [.error cause] } with
      failures := side.failures ++ [cause], deaf := true }

/-- The shared state behind the end of the connection. -/
def departed (side : Side) : Download :=
  let download := (side.worker.turn side.download).onDisconnect.download
  download.withRoster (download.roster.close side.connection.mailbox)

/-- Takes over what is left of a duty that was done at once. -/
def performed (side : Side) (done : Performed) : Side :=
  { side with
    download := done.transfer.download
    connection := { done.connection with
      leaving := match done.result with
        | .ok .leave => true
        | _ => false }
    failures := side.failures ++ match done.result with
      | .error cause => [cause]
      | .ok _ => []
    closed := match done.result with
      | .error _ => true
      | .ok _ => false }

/-- A side that is free for its next duty. -/
structure Idle (side : Side) : Prop where
  running : side.closed = false
  written : side.connection.outbox = []
  staying : side.connection.leaving = false
  free : side.waiting = none

end Side

/-- The store answers what it was asked for: no fault of it is the peer's, and it reads as many
bytes as the range has. -/
def Reply.Honest : Awaiting → Reply → Prop
  | _, .written (.error fault) | _, .hashed (.error fault) | _, .fetched (.error fault) =>
    fault.accuses = false
  | .read _ range, .fetched (.ok data) => data.length = range.length
  | _, _ => True

/-- What goes wrong in a store is not the peer's fault. -/
theorem StoreFault.innocent (fault : StoreFault) : (Fault.store fault).accuses = false := by
  cases fault with
  | device operation path cause =>
    simp only [Fault.accuses, Fault.report, StoreFault.report, Report.isViolation]
    split <;> rfl
  | _ => rfl

/-- The failures that a store in memory is made to have are not the peer's fault. -/
structure MemoryStore.Innocent (store : MemoryStore) : Prop where
  writes : ∀ {fault}, store.failWrites = some fault → fault.accuses = false
  reads : ∀ {fault}, store.failReads = some fault → fault.accuses = false

theorem MemoryStore.Innocent.write {store : MemoryStore} (innocent : store.Innocent)
    (range : ByteRange) (data : Bytes) :
    match store.write range data with
    | .ok kept => kept.Innocent
    | .error fault => fault.accuses = false := by
  unfold MemoryStore.write
  cases failing : store.failWrites with
  | some fault => exact innocent.writes failing
  | none =>
    dsimp only
    split <;> rename_i written
    · split at written
      · cases written
      · split at written <;> cases written
        refine ⟨?_, innocent.reads⟩
        intro fault injected
        cases injected
    · split at written
      · cases written
        rfl
      · split at written <;> cases written
        rfl

theorem MemoryStore.Innocent.read {store : MemoryStore} (innocent : store.Innocent)
    {range : ByteRange} {fault : Fault} (failed : store.read range = .error fault) :
    fault.accuses = false := by
  unfold MemoryStore.read at failed
  split at failed
  · rename_i cause failing
    cases failed
    exact innocent.reads failing
  · split at failed
    · cases failed
      rfl
    · split at failed <;> cases failed
      rfl

/-- A store in memory answers what it is asked. -/
theorem MemoryStore.Innocent.answer {store : MemoryStore} (innocent : store.Innocent)
    (awaiting : Awaiting) :
    (store.answer awaiting).1.Innocent ∧ (store.answer awaiting).2.Honest awaiting := by
  cases awaiting with
  | write request range data =>
    have kept := innocent.write range data
    cases written : store.write range data with
    | ok after =>
      rw [written] at kept
      simp only [MemoryStore.answer, written]
      exact ⟨kept, trivial⟩
    | error fault =>
      rw [written] at kept
      simp only [MemoryStore.answer, written]
      exact ⟨innocent, kept⟩
  | checksum piece =>
    refine ⟨innocent, ?_⟩
    change Reply.Honest _ (.hashed ((store.read piece.range).map sha1))
    cases read : store.read piece.range with
    | ok data => trivial
    | error fault => exact innocent.read read
  | read request range =>
    refine ⟨innocent, ?_⟩
    change Reply.Honest _ (.fetched (store.read range))
    cases read : store.read range with
    | ok data => exact (MemoryStore.read_ok read).1
    | error fault => exact innocent.read read

/-- What files on a disk answer. -/
def FileStore.answer (store : FileStore) (disk : Disk) : Awaiting → Disk × Reply
  | .write _ range data =>
    let (disk, outcome) := store.write disk range data
    (disk, .written (outcome.mapError .store))
  | .checksum piece => (disk, .hashed ((store.checksum disk piece.range).mapError .store))
  | .read _ range => (disk, .fetched ((store.read disk range).mapError .store))

/-- Files always answer what they are asked. -/
theorem FileStore.answer_honest (store : FileStore) (disk : Disk) (awaiting : Awaiting) :
    (store.answer disk awaiting).2.Honest awaiting := by
  cases awaiting with
  | write request range data =>
    change Reply.Honest _ (.written ((store.write disk range data).2.mapError .store))
    cases (store.write disk range data).2 with
    | ok written => trivial
    | error fault => exact fault.innocent
  | checksum piece =>
    change Reply.Honest _ (.hashed ((store.checksum disk piece.range).mapError .store))
    cases store.checksum disk piece.range with
    | ok digest => trivial
    | error fault => exact fault.innocent
  | read request range =>
    change Reply.Honest _ (.fetched ((store.read disk range).mapError .store))
    cases read : store.read disk range with
    | ok data => exact FileStore.length_read read
    | error fault => exact fault.innocent

/-- What one side can do next: what becomes of it and of the bytes that have come for it, and what
it writes. `gone` says that the other side writes no more. A side that is stopped may have written
a part of a message. -/
inductive Side.Step (gone : Bool) (side : Side) (incoming : Bytes) : Side → Bytes → Bytes → Prop
  | writes (now : Nat) (message : Message) (rest : List Message) :
      side.closed = false → side.waiting = none → side.connection.outbox = message :: rest →
      Step gone side incoming (side.withConnection { side.connection with
        outbox := rest, session := side.connection.session.sent now }) incoming message.encode
  | begins (now : Nat) :
      side.Idle → side.connection.tickAt = none →
      Step gone side incoming (side.withConnection { side.connection with tickAt := some now })
        incoming []
  | works (now : Nat) {duty : Duty} {deed : Deed} {turn : Turn} {next : Next} :
      side.Idle → side.connection.tickAt.isSome = true →
      side.connection.duty? side.download.roster now = some duty → duty.deed now = .ok deed →
      side.worker.perform side.download deed = some (turn, next) →
      Step gone side incoming
        ((side.withConnection (duty.begin now side.connection)).after turn next) incoming []
  | fails (now : Nat) {duty : Duty} {cause : Failure} :
      side.Idle → side.connection.tickAt.isSome = true →
      side.connection.duty? side.download.roster now = some duty → duty.deed now = .error cause →
      Step gone side incoming
        { side.withConnection (duty.begin now side.connection) with
          failures := side.failures ++ [cause], closed := true } incoming []
  | resumes {awaiting : Awaiting} (reply : Reply) {turn : Turn} {next : Next} :
      side.closed = false → side.waiting = some awaiting → reply.Honest awaiting →
      side.worker.perform side.download (.resume reply) = some (turn, next) →
      Step gone side incoming (side.after turn next) incoming []
  | reads {arrival : Framing.Arrival} {rest : Bytes} :
      side.deaf = false →
      Framing.nextMessage? side.limit gone incoming = some (arrival, rest) →
      Step gone side incoming (side.hear arrival) rest []
  | finishes :
      side.closed = false → side.waiting = none → side.connection.outbox = [] →
      side.connection.leaving = true →
      Step gone side incoming { side with closed := true } incoming []
  | stops (count : Nat) :
      side.closed = false →
      Step gone side incoming { side with closed := true } incoming
        ((Framing.frames (side.connection.outbox.take 1)).take count)
  | departs :
      side.closed = true →
      Step gone side incoming { side with download := side.departed } incoming []
  | others (download : Download) :
      side.download.Drifts side.connection.mailbox download →
      Step gone side incoming { side with download := download } incoming []

/-- How many waits of a handler are still to come, at most. -/
def Next.waits : Next → Nat
  | .done _ => 0
  | .wait (.write ..) => 2
  | .wait _ => 1

theorem Turn.resume_waits {turn after : Turn} {awaiting : Awaiting} {reply : Reply} {next : Next}
    (resumed : turn.resume awaiting reply = some (after, next)) :
    next.waits < (Next.wait awaiting).waits := by
  unfold resume at resumed
  split at resumed
  · rename_i request range data outcome
    rcases turn.afterWrite_next request outcome with
      ⟨later, result, same⟩ | ⟨later, piece, same⟩ <;> rw [same] at resumed <;> cases resumed
    · exact Nat.zero_lt_two
    · exact Nat.one_lt_two
  · cases resumed
    exact Nat.zero_lt_one
  · cases resumed
    exact Nat.zero_lt_one
  · cases resumed

namespace Side

/-- A step that neither reads nor writes. -/
def Works (before after : Side) : Prop :=
  ∀ gone incoming, before.Step gone incoming after incoming []

theorem after_after {side : Side} {turn later : Turn} {awaiting : Awaiting} {next : Next}
    (silent : turn.outbox = []) :
    (side.after turn (.wait awaiting)).after later next = side.after later next := by
  simp [after, silent, Next.failures]

/-- A handler whose waits are served at once by a store in memory. -/
theorem settles {store : MemoryStore} (innocent : store.Innocent) {side : Side} {deed : Deed}
    {turn : Turn} {next : Next}
    (performed : side.worker.perform side.download deed = some (turn, next)) :
    ReflTransGen Works (side.after turn next) (side.after
      (Turn.settle store (turn, next)).turn (.done (Turn.settle store (turn, next)).result)) := by
  induction left : next.waits using Nat.strongRecOn generalizing store side deed turn next with
  | ind waits ih =>
    cases next with
    | done result => exact .refl
    | wait awaiting =>
      obtain ⟨⟨later, behind⟩, resumed, settled⟩ := Worker.perform_wait store performed
      have silent := Worker.perform_silent performed
      have again : (side.after turn (.wait awaiting)).worker.perform
          (side.after turn (.wait awaiting)).download (.resume (store.answer awaiting).2) =
            some (later, behind) := resumed
      obtain ⟨kept, honest⟩ := innocent.answer awaiting
      have step : Works (side.after turn (.wait awaiting)) (side.after later behind) := by
        intro gone incoming
        rw [← @after_after side turn later awaiting behind silent]
        exact .resumes _ rfl rfl honest again
      have rest := ih behind.waits (left ▸ Turn.resume_waits resumed) kept again rfl
      rw [after_after silent, after_after silent] at rest
      rw [settled]
      exact .head step rest

/-- What the program does at once for a duty, with a store in memory, is a run of these steps. -/
theorem Idle.performs {side : Side} (idle : side.Idle)
    (begun : side.connection.tickAt.isSome = true) {transfer : Transfer}
    (same : transfer.download = side.download) (innocent : transfer.store.Innocent) {now : Nat}
    {duty : Duty} (found : side.connection.duty? side.download.roster now = some duty) :
    ReflTransGen Works side (side.performed (side.connection.perform transfer now duty)) := by
  cases called : duty.deed now with
  | error cause =>
    obtain ⟨limit, download, ⟨session, mailbox, inbox, outbox, tickAt, leaving⟩, waiting, failures,
      closed, deaf⟩ := side
    obtain ⟨rfl, rfl, rfl, rfl⟩ := idle
    cases duty with
    | frame frame =>
      cases frame with
      | error reason =>
        cases called
        refine .single fun gone incoming => ?_
        cases same
        exact .fails now ⟨rfl, rfl, rfl, rfl⟩ begun found rfl
      | ok message => cases called
    | command | upload | tick => cases called
  | ok deed =>
    obtain ⟨turn, next, performed, done⟩ :=
      Connection.perform_worker idle.written (same.symm ▸ found) called
    have mine : side.worker.perform side.download deed = some (turn, next) := by
      rw [worker, idle.free, ← same]
      exact performed
    have begins : (side.withConnection (duty.begin now side.connection)).worker.perform
        (side.withConnection (duty.begin now side.connection)).download deed =
          some (turn, next) := by
      cases duty <;> exact mine
    have empty : (duty.begin now side.connection).outbox = [] := by
      cases duty <;> exact idle.written
    refine .head (fun gone incoming => .works now idle begun found called mine) ?_
    have rest := settles innocent begins
    rw [done]
    generalize Turn.settle transfer.store (turn, next) = outcome at rest ⊢
    obtain ⟨store, turned, result⟩ := outcome
    have left : (side.withConnection (duty.begin now side.connection)).after turned
        (.done result) = side.performed
          ((duty.begin now side.connection).settled transfer ⟨store, turned, result⟩) := by
      rcases result with fault | flow | flow <;>
        simp [after, Side.performed, withConnection, Connection.settled, Connection.performed,
          Next.failures, Next.leaves, Next.awaiting?, empty, idle.free, Except.mapError]
    exact left ▸ rest

end Side

end BitTorrent
