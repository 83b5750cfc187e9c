import BitTorrent.Proofs.Fates
import BitTorrent.Proofs.InFlight

/-!
What handlers leave alone that have nothing to do with the uploads of their peer: its pending
request, whether it is choked, and what is said about either.
-/

set_option autoImplicit false

namespace BitTorrent

/-- Messages that answer the peer or say whether it is choked. -/
def Message.isUpload : Message → Bool
  | .choke | .unchoke | .piece _ _ _ => true
  | _ => false

/-- Entries that matter for the uploads of the peer. -/
def Exchange.isUpload : Exchange → Bool
  | .accepted _ | .received (.cancel _) => true
  | .sent message => message.isUpload
  | _ => false

namespace Turn

variable {turn middle after : Turn} {store : MemoryStore}

/-- A turn leaves the uploads of its peer alone. -/
structure Bypasses (turn after : Turn) : Prop where
  evolves : turn.download.Evolves after.download
  upload : after.session.upload = turn.session.upload
  choking : after.session.amChoking = turn.session.amChoking
  field : after.session.bitfield.size = turn.session.bitfield.size
  outbox : ∃ said, after.outbox = turn.outbox ++ said ∧ ∀ message ∈ said, message.isUpload = false

/-- Nothing is said, and nothing is changed but the shared state. -/
theorem Bypasses.silent {download : Download} (evolves : turn.download.Evolves download) :
    turn.Bypasses { turn with download := download } :=
  ⟨evolves, rfl, rfl, rfl, [], (List.append_nil _).symm, List.forall_mem_nil _⟩

theorem Bypasses.refl (turn : Turn) : turn.Bypasses turn :=
  .silent (.refl _)

theorem Bypasses.trans (first : turn.Bypasses middle) (second : middle.Bypasses after) :
    turn.Bypasses after where
  evolves := first.evolves.trans second.evolves
  upload := second.upload.trans first.upload
  choking := second.choking.trans first.choking
  field := second.field.trans first.field
  outbox := by
    obtain ⟨said, left, quiet⟩ := first.outbox
    obtain ⟨more, right, silent⟩ := second.outbox
    exact ⟨said ++ more, by rw [right, left, List.append_assoc],
      List.forall_mem_append.mpr ⟨quiet, silent⟩⟩

theorem Bypasses.sized (bypasses : turn.Bypasses after) (sized : turn.Sized) : after.Sized := by
  rw [Sized, bypasses.field, bypasses.evolves.size]
  exact sized

theorem Pursues.bypasses (pursues : turn.Pursues after) : turn.Bypasses after where
  evolves := by
    rw [pursues.download]
    exact ⟨rfl, rfl, rfl, rfl, id, id, id⟩
  upload := by rw [pursues.session]
  choking := by rw [pursues.session]
  field := by rw [pursues.bitfield]
  outbox := by
    obtain ⟨said, told, courts⟩ := pursues.outbox
    refine ⟨said, told, fun message member => ?_⟩
    cases courts message member <;> rfl

theorem publish_bypasses (turn : Turn) : turn.Bypasses turn.publish :=
  .silent ⟨rfl, rfl, rfl, rfl, id, id,
    fun connected => (Roster.isConnected_updateBitfield _ _).trans connected⟩

/-- Nothing but interest in our pieces has the peer choked or unchoked. -/
theorem Basis.bypasses {event : Event} (basis : turn.Basis event after)
    (indifferent : event ≠ .interested ∧ event ≠ .notInterested) : turn.Bypasses after := by
  cases basis with
  | same => exact .refl turn
  | published => exact turn.publish_bypasses
  | unchoked => exact absurd rfl indifferent.1
  | choked => exact absurd rfl indifferent.2

theorem Checks.bypasses {piece : Piece} {outcome : Except Fault Digest}
    (checks : turn.Checks piece outcome after) : turn.Bypasses after := by
  cases checks with
  | unreadable fault =>
    exact .silent ((Download.withHoldings_evolves _ (Holdings.completed_markAll _ _ _)).trans
      (Download.record_evolves _ _))
  | intact => exact .silent (Download.verify_evolves _ _)
  | corrupt => exact .silent (Download.reject_evolves _ _ _)

theorem Stores.bypasses {request : BlockRequest} {outcome : Except Fault Unit} {next : Next}
    (stores : turn.Stores request outcome after next) : turn.Bypasses after := by
  cases stores with
  | lost fault => exact .silent (Download.record_evolves _ _)
  | unknown => exact .refl turn
  | stored piece => exact .silent (Download.withHoldings_evolves _ (Holdings.completed_fetch _ _ _))
  | last piece =>
    have fetched := Bypasses.silent (turn.download.fetched_evolves piece request request.piece)
    exact ⟨fetched.evolves, rfl, rfl, rfl, fetched.outbox⟩

theorem settleChecksum_bypasses (sized : turn.Sized) (piece : Piece) :
    turn.Bypasses (settleChecksum store turn piece).turn := by
  obtain ⟨base, checks, pursues, -⟩ :=
    afterChecksum_pursues sized piece (store.checksum piece.range)
  exact checks.bypasses.trans pursues.bypasses

theorem settle_bypasses (sized : turn.Sized) {request : BlockRequest} {range : ByteRange}
    {data : Bytes} {piece : Piece}
    (found : turn.download.torrent.piece? request.piece = some piece) :
    turn.Bypasses (settle store (turn, .wait (.write request range data))).turn := by
  cases taken : store.write range data with
  | error fault =>
    rw [settle_lost taken]
    exact .silent (Download.record_evolves _ _)
  | ok written =>
    cases all : (turn.download.holdings.fetch piece request).allFetched request.piece with
    | false =>
      have stored := (Stores.stored piece found).bypasses
      rw [settle_stored taken found all]
      exact stored.trans (fillPipeline_pursues (stored.sized sized)).1.bypasses
    | true =>
      have last := (Stores.last piece found).bypasses
      rw [settle_hashed taken found all]
      exact last.trans (settleChecksum_bypasses (last.sized sized) piece)

/-- Of all events, only interest in our pieces and the loss of it concern the uploads. -/
theorem handleStored_bypasses (sized : turn.Sized) {event : Event}
    (indifferent : event ≠ .interested ∧ event ≠ .notInterested) :
    turn.Bypasses (handleStored store turn event).turn := by
  obtain ⟨base, basis, pursues, reacts⟩ := handle_pursues sized event
  have handled := (basis.bypasses indifferent).trans pursues.bypasses
  unfold handleStored
  cases reaction : turn.handle event with
  | mk later next =>
    rw [reaction] at handled reacts
    cases reacts with
    | ended | objected => exact handled
    | waits request data piece range block found missing inside =>
      obtain ⟨rfl, rfl, -⟩ := handle_write reaction
      exact settle_bypasses sized found

theorem onLocalHave_bypasses (sized : turn.Sized) (piece : Nat) :
    turn.Bypasses (turn.onLocalHave piece).1 := by
  obtain ⟨middle, cancelled, told, -⟩ := onLocalHave_pursues sized piece
  have said : middle.Bypasses (middle.say (.have_ piece)) :=
    ⟨.refl _, rfl, rfl, rfl, [.have_ piece], rfl, List.forall_mem_singleton.mpr rfl⟩
  exact (cancelled.bypasses.trans said).trans told.bypasses

theorem checkIdle_bypasses (turn : Turn) (now : Nat) : turn.Bypasses (turn.checkIdle now).1 := by
  rcases turn.checkIdle_cases now with idle | idle | idle <;> rw [idle]
  · exact .refl turn
  · exact ⟨.refl _, rfl, rfl, rfl, [.keepAlive], rfl, List.forall_mem_singleton.mpr rfl⟩
  · exact .refl turn

theorem greet_bypasses (turn : Turn) : turn.Bypasses turn.greet :=
  ⟨.refl _, rfl, rfl, rfl, [_], rfl, List.forall_mem_singleton.mpr rfl⟩

end Turn

/-- Messages of the peer that concern its uploads. -/
def Message.asksUpload : Message → Bool
  | .interested | .notInterested | .request _ | .cancel _ => true
  | _ => false

/-- Other messages leave the session of the uploads as it is, and no other event means that the
peer wants some. -/
theorem Session.receive_bypasses (session : Session) (now : Nat) {message : Message}
    (other : message.asksUpload = false) :
    (session.receive now message).1.upload = session.upload ∧
      (session.receive now message).1.amChoking = session.amChoking ∧
      ∀ event, (session.receive now message).2 = .ok event →
        (event ≠ .interested ∧ event ≠ .notInterested) ∧ ∀ request, event ≠ .request request := by
  unfold receive
  split
  · cases message with
    | interested | notInterested | request | cancel => cases other
    | keepAlive | choke | unchoke | port =>
      refine ⟨rfl, rfl, fun event heard => ?_⟩
      cases heard
      simp
    | have_ | bitfield | piece =>
      simp only [apply]
      split
      all_goals
        refine ⟨rfl, rfl, fun event heard => ?_⟩
        cases heard
        try simp
  · exact ⟨rfl, rfl, by simp⟩

namespace Scene

variable {scene middle after : Scene}

/-- A handler leaves the uploads of its peer alone. -/
structure Bypasses (scene after : Scene) : Prop where
  turn : scene.turn.Bypasses after.turn
  failed : scene.peer.failed = true → after.peer.failed = true
  log : ∃ rest, after.peer.log = scene.peer.log ++ rest ∧ ∀ entry ∈ rest, entry.isUpload = false

theorem Bypasses.trans (first : scene.Bypasses middle) (second : middle.Bypasses after) :
    scene.Bypasses after where
  turn := first.turn.trans second.turn
  failed := second.failed ∘ first.failed
  log := by
    obtain ⟨rest, left, quiet⟩ := first.log
    obtain ⟨more, right, silent⟩ := second.log
    exact ⟨rest ++ more, by rw [right, left, List.append_assoc],
      List.forall_mem_append.mpr ⟨quiet, silent⟩⟩

theorem failed_judged (scene : Scene) (result : Except Fault Flow)
    (failed : scene.peer.failed = true) : (scene.judged result).peer.failed = true := by
  unfold judged
  split
  · exact failed
  · exact failed
  · rfl

theorem log_judged (scene : Scene) (result : Except Fault Flow) :
    (scene.judged result).peer.log = scene.peer.log := by
  unfold judged
  split <;> rfl

/-- Where a turn leaves the uploads alone, so does the handler that it is the turn of. -/
theorem follow_bypasses {turn : Turn} (bypasses : scene.turn.Bypasses turn)
    (result : Except Fault Flow) : scene.Bypasses ((scene.follow turn).judged result) where
  turn := by
    obtain ⟨evolves, upload, choking, field, -⟩ := bypasses
    rw [turn_judged]
    exact ⟨evolves, upload, choking, field, [], rfl, List.forall_mem_nil _⟩
  failed := failed_judged (scene.follow turn) result
  log := by
    obtain ⟨said, told, quiet⟩ := bypasses.outbox
    have told : turn.outbox = said := told
    refine ⟨said.map .sent, ?_, List.forall_mem_map.mpr quiet⟩
    rw [log_judged, ← told]
    rfl

theorem settle_bypasses {outcome : Outcome} (bypasses : scene.turn.Bypasses outcome.turn) :
    scene.Bypasses (scene.settle outcome) := by
  have followed := @follow_bypasses { scene with store := outcome.store } outcome.turn bypasses
    outcome.result
  exact ⟨followed.turn, followed.failed, followed.log⟩

theorem hear_bypasses {session : Session} (message : Message)
    (upload : session.upload = scene.peer.session.upload)
    (choking : session.amChoking = scene.peer.session.amChoking)
    (field : session.bitfield.size = scene.peer.session.bitfield.size)
    (quiet : (Exchange.received message).isUpload = false) :
    scene.Bypasses (scene.hear session message) where
  turn := ⟨.refl _, upload, choking, field, [], rfl, List.forall_mem_nil _⟩
  failed := id
  log := ⟨[.received message], rfl, List.forall_mem_singleton.mpr quiet⟩

theorem logged_bypasses (scene : Scene) {entries : List Exchange}
    (quiet : ∀ entry ∈ entries, entry.isUpload = false) :
    scene.Bypasses (scene.logged entries) where
  turn := .refl _
  failed := id
  log := ⟨entries, rfl, quiet⟩

/-- What is noted of the reaction to another event than a request is what is written. -/
theorem noted_quiet {event : Event} (next : Next) (other : ∀ request, event ≠ .request request) :
    ∀ entry ∈ noted event next, entry.isUpload = false := by
  unfold noted
  split
  · rename_i request flow
    exact absurd rfl (other request)
  · exact List.forall_mem_singleton.mpr rfl
  · exact List.forall_mem_nil _

/-- The reaction to a message that does not concern the uploads leaves them alone. -/
theorem receive_bypasses (sized : scene.turn.Sized) (now : Nat) {message : Message}
    (other : message.asksUpload = false) : scene.Bypasses (scene.receive now message) := by
  obtain ⟨upload, choking, indifferent⟩ := scene.peer.session.receive_bypasses now other
  have field := (scene.peer.session.receive_keeps now message).2.2
  have quiet : (Exchange.received message).isUpload = false := by
    cases message with
    | cancel => cases other
    | _ => rfl
  cases heard : scene.peer.session.receive now message with
  | mk session result =>
    rw [heard] at upload choking field indifferent
    have listened : scene.Bypasses (scene.hear session message) :=
      hear_bypasses message upload choking field quiet
    cases result with
    | error violation =>
      rw [receive_error heard]
      exact ⟨listened.turn, fun _ => rfl, listened.log⟩
    | ok event =>
      obtain ⟨plain, unasked⟩ := indifferent event rfl
      rw [receive_ok heard]
      have noted := (scene.hear session message).logged_bypasses
        (noted_quiet ((scene.hear session message).turn.handle event).2 unasked)
      have handled : (scene.hear session message).turn.Bypasses
          (Turn.handleStored scene.store (scene.hear session message).turn event).turn :=
        Turn.handleStored_bypasses (listened.turn.sized sized) plain
      exact listened.trans (noted.trans (settle_bypasses handled))

end Scene

end BitTorrent
