import BitTorrent.Proofs.Pursuit

/-!
Handlers that wait for the store. A handler runs up to its first wait and goes on when the store has
answered, whatever it answers; meanwhile other connections work on what they share.
-/

set_option autoImplicit false

namespace BitTorrent

/-- What the store answers: whether a block is written, the hash of a piece, or the bytes that were
read. -/
inductive Reply where
  | written (outcome : Except Fault Unit)
  | hashed (outcome : Except Fault Digest)
  | fetched (outcome : Except Fault Bytes)

/-- What a handler is called for. -/
inductive Deed where
  | greet
  | receive (now : Nat) (message : Message)
  | serve
  | resume (reply : Reply)
  | obey
  | checkIdle (now : Nat)

/-- A connected peer: `sent` is what it was sent, `waiting` what its handler waits for. -/
structure Worker where
  session : Session
  mailbox : Nat
  sent : List Message
  waiting : Option Awaiting

/-- What is waited for, if the turn is not over. -/
def Next.awaiting? : Next → Option Awaiting
  | .done _ => none
  | .wait awaiting => some awaiting

/-- Whether a message says that we have a piece. -/
def Message.announces : Message → Bool
  | .have_ _ | .bitfield _ => true
  | _ => false

namespace Turn

/-- Receives a message and reacts to it. -/
def receive (turn : Turn) (now : Nat) (message : Message) : Turn × Next :=
  match turn.session.receive now message with
  | (session, .error violation) =>
    ({ turn with session := session }, .done (.error (.violation violation)))
  | (session, .ok event) => { turn with session := session }.handle event

/-- Goes on when the store has answered. -/
def resume (turn : Turn) : Awaiting → Reply → Option (Turn × Next)
  | .write request _ _, .written outcome => some (turn.afterWrite request outcome)
  | .checksum piece, .hashed outcome => some (ended (turn.afterChecksum piece outcome))
  | .read request _, .fetched outcome => some (ended (turn.afterRead request outcome))
  | _, _ => none

/-- A command is taken out of a mailbox. -/
def take (turn : Turn) (mailbox : Nat) (rest : List Command) : Turn :=
  { turn with download := turn.download.withRoster (turn.download.roster.setQueue mailbox rest) }

/-- Follows the first command in a mailbox. -/
def obey (turn : Turn) (mailbox : Nat) : Turn × Next :=
  match turn.download.roster.queued mailbox with
  | [] => ended turn.stay
  | .disconnect :: rest => ended (turn.take mailbox rest, .ok .leave)
  | .have_ piece :: rest => ended ((turn.take mailbox rest).onLocalHave piece)

end Turn

/-- What a store in memory answers. -/
def MemoryStore.answer (store : MemoryStore) : Awaiting → MemoryStore × Reply
  | .write _ range data =>
    match store.write range data with
    | .ok written => (written, .written (.ok ()))
    | .error fault => (store, .written (.error fault))
  | .checksum piece => (store, .hashed (store.checksum piece.range))
  | .read _ range => (store, .fetched (store.read range))

/-- Behind a block that is stored there is no wait but for the hash of its piece. -/
theorem Turn.afterWrite_next (turn : Turn) (request : BlockRequest)
    (outcome : Except Fault Unit) :
    (∃ after result, turn.afterWrite request outcome = (after, .done result)) ∨
      ∃ after piece, turn.afterWrite request outcome = (after, .wait (.checksum piece)) := by
  cases outcome with
  | error fault => exact .inl ⟨_, _, rfl⟩
  | ok written =>
    simp only [afterWrite]
    split
    · exact .inl ⟨_, _, rfl⟩
    · rename_i piece found
      cases piece.blockAt? request.start
      all_goals
        dsimp only
        split
        · exact .inr ⟨_, piece, rfl⟩
        · exact .inl ⟨_, _, rfl⟩

/-- To serve a wait at once is to go on with the answer. -/
theorem Turn.settle_wait (store : MemoryStore) (turn : Turn) (awaiting : Awaiting) :
    ∃ later, turn.resume awaiting (store.answer awaiting).2 = some later ∧
      settle store (turn, .wait awaiting) = settle (store.answer awaiting).1 later := by
  cases awaiting with
  | checksum piece => exact ⟨_, rfl, rfl⟩
  | read request range => exact ⟨_, rfl, rfl⟩
  | write request range data =>
    cases written : store.write range data with
    | ok kept =>
      simp only [MemoryStore.answer, settle, written]
      refine ⟨_, rfl, ?_⟩
      rcases turn.afterWrite_next request (.ok ()) with
        ⟨after, result, same⟩ | ⟨after, piece, same⟩ <;> rw [same]
    | error fault =>
      simp only [MemoryStore.answer, settle, written]
      refine ⟨_, rfl, ?_⟩
      rcases turn.afterWrite_next request (.error fault) with
        ⟨after, result, same⟩ | ⟨after, piece, same⟩ <;> rw [same]

namespace Turn

variable {turn after : Turn} {awaiting : Awaiting}

theorem handle_silent {event : Event} (handled : turn.handle event = (after, .wait awaiting)) :
    after.outbox = turn.outbox := by
  cases event with
  | block request data =>
    simp only [handle, onBlock] at handled
    split at handled
    · cases handled
    · split at handled
      · cases handled
      · split at handled <;> cases handled
        rfl
  | request request =>
    simp only [handle] at handled
    split at handled <;> cases handled
  | _ => cases handled

theorem receive_silent {now : Nat} {message : Message}
    (received : turn.receive now message = (after, .wait awaiting)) :
    after.outbox = turn.outbox := by
  unfold receive at received
  split at received
  · cases received
  · have heard := @handle_silent _ _ _ _ received
    exact heard

theorem serve_silent (served : turn.serve = (after, .wait awaiting)) :
    after.outbox = turn.outbox := by
  unfold serve at served
  split at served
  · cases served
  · dsimp only at served
    split at served
    · cases served
    · split at served <;> cases served
      rfl

theorem afterWrite_silent {request : BlockRequest} {outcome : Except Fault Unit}
    (stored : turn.afterWrite request outcome = (after, .wait awaiting)) :
    after.outbox = turn.outbox := by
  cases outcome with
  | error fault => cases stored
  | ok written =>
    simp only [afterWrite] at stored
    split at stored
    · cases stored
    · rename_i piece found
      cases located : piece.blockAt? request.start <;> simp only [located] at stored
      all_goals
        split at stored <;> cases stored
        rfl

theorem obey_ends (turn : Turn) (mailbox : Nat) {after : Turn} {awaiting : Awaiting} :
    turn.obey mailbox ≠ (after, .wait awaiting) := by
  intro obeyed
  unfold obey at obeyed
  split at obeyed <;> cases obeyed

end Turn

namespace Worker

def address (worker : Worker) : Address :=
  worker.session.address

def turn (worker : Worker) (download : Download) : Turn :=
  ⟨download, worker.session, []⟩

/-- Takes over a turn, whose outbox is sent. -/
def after (worker : Worker) (turn : Turn) (next : Next) : Worker :=
  { worker with
    session := turn.session, sent := worker.sent ++ turn.outbox, waiting := next.awaiting? }

/-- Runs a handler up to its next wait. While one waits, no other is called. -/
def perform (worker : Worker) (download : Download) (deed : Deed) : Option (Turn × Next) :=
  let turn := worker.turn download
  match worker.waiting, deed with
  | some awaiting, .resume reply => turn.resume awaiting reply
  | none, .greet => some (Turn.ended turn.greet.stay)
  | none, .receive now message => some (turn.receive now message)
  | none, .serve => some turn.serve
  | none, .obey => some (turn.obey worker.mailbox)
  | none, .checkIdle now => some ((turn.checkIdle now).1, .done (.ok (turn.checkIdle now).2))
  | _, _ => none

end Worker

namespace Turn

variable {turn middle after : Turn}

/-- A turn says nothing about our pieces, has no new ones, and leaves who is known as it is. -/
structure Quiet (turn after : Turn) : Prop where
  torrent : after.download.torrent = turn.download.torrent
  completed : after.download.holdings.completed = turn.download.holdings.completed
  mailboxes : after.download.roster.mailboxes = turn.download.roster.mailboxes
  lines : after.download.roster.lines = turn.download.roster.lines
  address : after.session.address = turn.session.address
  sized : after.session.bitfield.size = turn.session.bitfield.size
  outbox : ∃ said, after.outbox = turn.outbox ++ said ∧
    ∀ message ∈ said, message.announces = false

theorem Quiet.refl (turn : Turn) : turn.Quiet turn :=
  ⟨rfl, rfl, rfl, rfl, rfl, rfl, [], (List.append_nil _).symm, fun _ inside => nomatch inside⟩

theorem Quiet.trans (first : turn.Quiet middle) (second : middle.Quiet after) :
    turn.Quiet after where
  torrent := second.torrent.trans first.torrent
  completed := second.completed.trans first.completed
  mailboxes := second.mailboxes.trans first.mailboxes
  lines := second.lines.trans first.lines
  address := second.address.trans first.address
  sized := second.sized.trans first.sized
  outbox := by
    obtain ⟨said, left, quiet⟩ := first.outbox
    obtain ⟨more, right, later⟩ := second.outbox
    refine ⟨said ++ more, by rw [right, left, List.append_assoc], ?_⟩
    intro message inside
    exact (List.mem_append.mp inside).elim (quiet message) (later message)

/-- One message is said that is not about our pieces. -/
theorem Quiet.say (turn : Turn) {message : Message} (quiet : message.announces = false) :
    turn.Quiet (turn.say message) :=
  ⟨rfl, rfl, rfl, rfl, rfl, rfl, [message], rfl, fun _ inside =>
    List.mem_singleton.mp inside ▸ quiet⟩

/-- The session and the shared state change in nothing that others see. -/
theorem Quiet.change {download : Download} {session : Session}
    (torrent : download.torrent = turn.download.torrent)
    (completed : download.holdings.completed = turn.download.holdings.completed)
    (mailboxes : download.roster.mailboxes = turn.download.roster.mailboxes)
    (lines : download.roster.lines = turn.download.roster.lines)
    (address : session.address = turn.session.address)
    (sized : session.bitfield.size = turn.session.bitfield.size) :
    turn.Quiet ⟨download, session, turn.outbox⟩ :=
  ⟨torrent, completed, mailboxes, lines, address, sized, [], (List.append_nil _).symm,
    fun _ inside => nomatch inside⟩

theorem Courts.quiet {message : Message} (courts : turn.Courts message) :
    message.announces = false := by
  cases courts <;> rfl

theorem Pursues.quiet (pursues : turn.Pursues after) : turn.Quiet after where
  torrent := pursues.torrent
  completed := by rw [pursues.holdings]
  mailboxes := by rw [pursues.download]
  lines := by rw [pursues.download]
  address := pursues.address
  sized := by rw [pursues.bitfield]
  outbox := by
    obtain ⟨said, same, courts⟩ := pursues.outbox
    exact ⟨said, same, fun message inside => (courts message inside).quiet⟩

theorem publish_quiet (turn : Turn) : turn.Quiet turn.publish :=
  @Quiet.change turn turn.publish.download turn.session rfl rfl rfl
    (Roster.lines_modify (fun _ => rfl) (fun _ => rfl)) rfl rfl

theorem record_quiet (turn : Turn) (fault : Fault) :
    turn.Quiet { turn with download := turn.download.record fault } := by
  unfold Download.record
  split
  · exact .change rfl rfl rfl rfl rfl rfl
  · exact .refl turn

theorem Basis.quiet {event : Event} {base : Turn} (basis : turn.Basis event base) :
    turn.Quiet base := by
  cases basis with
  | same => exact .refl turn
  | published => exact turn.publish_quiet
  | unchoked =>
    have opened : turn.Quiet { turn with session := { turn.session with amChoking := false } } :=
      .change rfl rfl rfl rfl rfl rfl
    rw [Session.unchoke_eq]
    split
    · exact opened.trans (.say _ rfl)
    · exact opened
  | choked =>
    have closed : ∀ upload, turn.Quiet { turn with session := { turn.session with
        amChoking := true, upload := upload } } :=
      fun _ => .change rfl rfl rfl rfl rfl rfl
    rw [Session.choke_eq]
    split
    · exact closed _
    · exact (closed none).trans (.say _ rfl)

theorem handle_quiet (sized : turn.Sized) (event : Event) : turn.Quiet (turn.handle event).1 := by
  obtain ⟨base, basis, pursues, -⟩ := handle_pursues sized event
  exact basis.quiet.trans pursues.quiet

theorem receive_quiet (sized : turn.Sized) (now : Nat) (message : Message) :
    turn.Quiet (turn.receive now message).1 := by
  obtain ⟨-, address, size⟩ := turn.session.receive_keeps now message
  unfold receive
  split
  · rename_i session violation received
    rw [received] at address size
    exact .change rfl rfl rfl rfl address size
  · rename_i session event received
    rw [received] at address size
    have heard : turn.Quiet { turn with session := session } :=
      .change rfl rfl rfl rfl address size
    exact heard.trans (@handle_quiet { turn with session := session } (size.trans sized) event)

theorem Stores.quiet {request : BlockRequest} {outcome : Except Fault Unit} {base : Turn}
    {next : Next} (stores : turn.Stores request outcome base next) : turn.Quiet base := by
  cases stores with
  | lost fault => exact turn.record_quiet fault
  | unknown => exact .refl turn
  | stored piece => exact .change rfl (Holdings.completed_fetch _ _ _) rfl rfl rfl rfl
  | last piece => exact .change rfl (Holdings.completed_fetch _ _ _) rfl rfl rfl rfl

theorem afterWrite_quiet (sized : turn.Sized) (request : BlockRequest)
    (outcome : Except Fault Unit) : turn.Quiet (turn.afterWrite request outcome).1 := by
  obtain ⟨base, stores, pursues⟩ := afterWrite_pursues sized request outcome
  exact stores.quiet.trans pursues.quiet

theorem afterRead_quiet (turn : Turn) (request : BlockRequest) (outcome : Except Fault Bytes) :
    turn.Quiet (turn.afterRead request outcome).1 := by
  cases outcome with
  | error fault => exact turn.record_quiet fault
  | ok data => exact .say turn rfl

theorem reject_quiet (turn : Turn) (piece : Piece) (ip : IpAddress) :
    turn.Quiet { turn with download := turn.download.reject piece ip } := by
  have forgotten : turn.Quiet (turn.withHoldings
      (turn.download.holdings.markAll piece.index false)) := .change rfl rfl rfl rfl rfl rfl
  unfold Download.reject
  split
  · refine forgotten.trans ?_
    unfold Download.ban
    split
    · exact .refl _
    · exact .change rfl rfl rfl rfl rfl rfl
  · exact forgotten

/-- The hash of a piece changes nothing that others see unless it is right. -/
theorem Checks.quiet {piece : Piece} {outcome : Except Fault Digest} {base : Turn}
    (checks : turn.Checks piece outcome base) :
    turn.Quiet base ∨ base = { turn with download := turn.download.verify piece } := by
  cases checks with
  | unreadable fault =>
    have forgotten : turn.Quiet (turn.withHoldings
        (turn.download.holdings.markAll piece.index false)) := .change rfl rfl rfl rfl rfl rfl
    exact Or.inl (forgotten.trans (record_quiet _ fault))
  | intact => exact Or.inr rfl
  | corrupt digest => exact Or.inl (turn.reject_quiet piece _)

theorem afterChecksum_quiet (sized : turn.Sized) (piece : Piece)
    (outcome : Except Fault Digest) :
    turn.Quiet (turn.afterChecksum piece outcome).1 ∨
      Quiet { turn with download := turn.download.verify piece }
        (turn.afterChecksum piece outcome).1 := by
  obtain ⟨base, checks, pursues, -⟩ := afterChecksum_pursues sized piece outcome
  rcases checks.quiet with quiet | rfl
  · exact Or.inl (quiet.trans pursues.quiet)
  · exact Or.inr pursues.quiet

theorem serve_quiet (turn : Turn) : turn.Quiet turn.serve.1 := by
  have taken : turn.session.takeUpload = ({ turn.session with upload := none },
    turn.session.upload) := rfl
  unfold serve
  rw [taken]
  have dropped : turn.Quiet { turn with session := { turn.session with upload := none } } :=
    .change rfl rfl rfl rfl rfl rfl
  cases turn.session.upload with
  | none => exact .refl turn
  | some request =>
    dsimp only
    split
    · exact dropped
    · split <;> exact dropped

theorem checkIdle_quiet (turn : Turn) (now : Nat) : turn.Quiet (turn.checkIdle now).1 := by
  rcases turn.checkIdle_cases now with idle | idle | idle <;> rw [idle]
  · exact .refl turn
  · exact .say turn rfl
  · exact .refl turn

theorem onDisconnect_quiet (turn : Turn) : turn.Quiet turn.unassign :=
  turn.unassign_pursues.quiet

theorem lines_onDisconnect (turn : Turn) : turn.onDisconnect.download.roster.lines =
    turn.download.roster.lines.filter (·.1 ≠ turn.session.address) := by
  refine (Roster.lines_remove _ _).trans ?_
  rw [turn.onDisconnect_quiet.lines]

end Turn

namespace Worker

variable {worker : Worker} {download : Download} {after : Turn} {next : Next}

/-- What a handler says about our pieces, and what it changes for others. -/
inductive Tells (worker : Worker) (download : Download) : Turn → Prop
  | nothing {after : Turn} : (worker.turn download).Quiet after → Tells worker download after
  | pieces : Tells worker download (worker.turn download).greet
  | verified {after : Turn} (piece : Piece) :
      (worker.turn (download.verify piece)).Quiet after → Tells worker download after
  | news {middle after : Turn} (piece : Nat) (rest : List Command) :
      download.roster.queued worker.mailbox = .have_ piece :: rest →
      ((worker.turn download).take worker.mailbox rest).Quiet middle →
      (middle.say (.have_ piece)).Quiet after → Tells worker download after
  | dismissed (rest : List Command) :
      download.roster.queued worker.mailbox = .disconnect :: rest →
      Tells worker download ((worker.turn download).take worker.mailbox rest)

theorem obey_tells (sized : (worker.turn download).Sized) :
    worker.Tells download ((worker.turn download).obey worker.mailbox).1 := by
  unfold Turn.obey
  split
  · exact .nothing (.refl _)
  · rename_i rest queued
    exact .dismissed rest queued
  · rename_i piece rest queued
    have taken : ((worker.turn download).take worker.mailbox rest).Sized := sized
    obtain ⟨middle, before, later, -⟩ := Turn.onLocalHave_pursues taken piece
    exact .news piece rest queued before.quiet later.quiet

theorem resume_tells (sized : (worker.turn download).Sized) {awaiting : Awaiting} {reply : Reply}
    (resumed : (worker.turn download).resume awaiting reply = some (after, next)) :
    worker.Tells download after := by
  unfold Turn.resume at resumed
  split at resumed
  · obtain ⟨rfl, -⟩ := Prod.mk.inj (Option.some.inj resumed)
    exact .nothing (Turn.afterWrite_quiet sized _ _)
  · obtain ⟨rfl, -⟩ := Prod.mk.inj (Option.some.inj resumed)
    exact (Turn.afterChecksum_quiet sized _ _).elim .nothing (.verified _)
  · obtain ⟨rfl, -⟩ := Prod.mk.inj (Option.some.inj resumed)
    exact .nothing (Turn.afterRead_quiet _ _ _)
  · cases resumed

theorem perform_tells (sized : (worker.turn download).Sized) {deed : Deed}
    (performed : worker.perform download deed = some (after, next)) :
    worker.Tells download after := by
  unfold perform at performed
  dsimp only at performed
  split at performed
  · exact resume_tells sized performed
  all_goals first
    | (cases performed; done)
    | obtain ⟨rfl, -⟩ := Prod.mk.inj (Option.some.inj performed)
  · exact .pieces
  · exact .nothing (Turn.receive_quiet sized _ _)
  · exact .nothing (Turn.serve_quiet _)
  · exact obey_tells sized
  · exact .nothing (Turn.checkIdle_quiet _ _)

/-- Complete pieces stay complete. -/
theorem Tells.grows (tells : worker.Tells download after) {piece : Nat}
    (held : download.holdings.has piece = true) : after.download.holdings.has piece = true := by
  have kept : ∀ {first second : Turn}, first.Quiet second →
      first.download.holdings.has piece = true → second.download.holdings.has piece = true := by
    intro first second quiet
    rw [Holdings.has, Holdings.has, quiet.completed]
    exact id
  cases tells with
  | nothing quiet => exact kept quiet held
  | pieces | dismissed => exact held
  | verified info quiet => exact kept quiet ((download.verify_evolves info).complete held)
  | news index rest queued before later =>
    rename_i middle
    have between := kept before held
    exact @kept (middle.say (.have_ index)) _ later between

/-- What waits to be told to the peer of a worker is complete. -/
theorem Tells.waiting (tells : worker.Tells download after)
    (waiting : ∀ piece, .have_ piece ∈ download.roster.queued worker.mailbox →
      download.holdings.has piece = true)
    {piece : Nat} (queued : .have_ piece ∈ after.download.roster.queued worker.mailbox) :
    after.download.holdings.has piece = true := by
  cases tells with
  | nothing quiet =>
    rw [Roster.queued_congr quiet.mailboxes] at queued
    rw [Holdings.has, quiet.completed]
    exact waiting piece queued
  | pieces => exact waiting piece queued
  | verified info quiet =>
    have evolves := download.verify_evolves info
    rw [Roster.queued_congr quiet.mailboxes] at queued
    rw [Holdings.has, quiet.completed]
    change (download.verify info).holdings.has piece = true
    change .have_ piece ∈ (download.verify info).roster.queued worker.mailbox at queued
    unfold Download.verify at queued
    split at queued
    · rename_i fresh
      rcases Roster.mem_queued_broadcast queued with earlier | same
      · exact evolves.complete (waiting piece earlier)
      · cases same
        rw [Download.holdings_verify, Holdings.has_complete]
        simp only [Download.complete, Holdings.complete] at fresh
        split at fresh
        · rename_i inside
          simp [inside]
        · cases fresh
    · exact evolves.complete (waiting piece queued)
  | news index rest taken before later =>
    rename_i middle
    have left : after.download.roster.queued worker.mailbox = rest :=
      (Roster.queued_congr later.mailboxes _).trans
        ((Roster.queued_congr before.mailboxes _).trans (Roster.queued_rest taken))
    rw [left] at queued
    have held := waiting piece (taken ▸ List.mem_cons_of_mem _ queued)
    exact (Tells.news index rest taken before later).grows held
  | dismissed rest taken =>
    have left : ((worker.turn download).take worker.mailbox rest).download.roster.queued
        worker.mailbox = rest := Roster.queued_rest taken
    rw [left] at queued
    exact waiting piece (taken ▸ List.mem_cons_of_mem _ queued)

/-- A handler that waits has said nothing yet. -/
theorem perform_silent {deed : Deed} {awaiting : Awaiting}
    (performed : worker.perform download deed = some (after, .wait awaiting)) :
    after.outbox = [] := by
  unfold perform at performed
  dsimp only at performed
  split at performed
  · unfold Turn.resume at performed
    split at performed
    · exact Turn.afterWrite_silent (Option.some.inj performed)
    · cases performed
    · cases performed
    · cases performed
  all_goals first
    | cases performed
    | have same := Option.some.inj performed
  · exact Turn.receive_silent same
  · exact Turn.serve_silent same
  · exact absurd same (Turn.obey_ends _ _)

/-- To serve the wait of a handler at once is to go on with the answer. -/
theorem perform_wait (store : MemoryStore) {deed : Deed} {awaiting : Awaiting}
    (performed : worker.perform download deed = some (after, .wait awaiting)) :
    ∃ later, (worker.after after (.wait awaiting)).perform after.download
        (.resume (store.answer awaiting).2) = some later ∧
      Turn.settle store (after, .wait awaiting) =
        Turn.settle (store.answer awaiting).1 later := by
  obtain ⟨later, resumed, settled⟩ := Turn.settle_wait store after awaiting
  have fresh : (worker.after after (.wait awaiting)).turn after.download = after := by
    obtain ⟨shared, session, outbox⟩ := after
    cases perform_silent performed
    rfl
  refine ⟨later, ?_, settled⟩
  rw [← resumed, ← fresh]
  rfl

end Worker

end BitTorrent
