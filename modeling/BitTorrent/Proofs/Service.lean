import BitTorrent.Proofs.Memory
import BitTorrent.Proofs.Uploads

/-!
A connection as the peer sees it that asks for our pieces. Over every run of handlers of the
connection, and whatever others do to the shared state in between, the blocks that are sent answer
the requests that were accepted: each once, in order, unless it is pending or was withdrawn.
-/

set_option autoImplicit false

namespace BitTorrent

open Relation (ReflTransGen)

namespace Exchange

/-- What an entry of the log decides about requests. -/
def note? : Exchange → Option Note
  | .accepted request => some (.accepted request)
  | .received (.cancel request) => some (.cancelled request)
  | .sent .choke => some .choked
  | _ => none

/-- The request that a block which is sent answers. -/
def answered? : Exchange → Option BlockRequest
  | .sent (.piece index start data) => some ⟨index, start, data.length⟩
  | _ => none

/-- Whether the peer is choked behind a log, by what it was told. -/
def choking (log : List Exchange) : Bool :=
  log.foldl (fun choked entry =>
    match entry with
    | .sent .choke => true
    | .sent .unchoke => false
    | _ => choked) true

/-- No block is sent while the peer is choked. -/
def Unchoked (log : List Exchange) : Prop :=
  ∀ before after index start data, log = before ++ .sent (.piece index start data) :: after →
    choking before = false

variable {log rest : List Exchange}

theorem note?_quiet (quiet : ∀ entry ∈ rest, entry.isUpload = false) :
    rest.filterMap note? = [] := by
  refine List.filterMap_eq_nil_iff.mpr fun entry member => ?_
  have other := quiet entry member
  unfold note?
  split
  all_goals first
    | rfl
    | cases other

theorem answered?_quiet (quiet : ∀ entry ∈ rest, entry.isUpload = false) :
    rest.filterMap answered? = [] := by
  refine List.filterMap_eq_nil_iff.mpr fun entry member => ?_
  have other := quiet entry member
  unfold answered?
  split
  · cases other
  · rfl

theorem choking_quiet (quiet : ∀ entry ∈ rest, entry.isUpload = false) :
    choking (log ++ rest) = choking log := by
  unfold choking
  rw [List.foldl_append]
  induction rest with
  | nil => rfl
  | cons entry rest ih =>
    obtain ⟨first, others⟩ := List.forall_mem_cons.mp quiet
    rw [List.foldl_cons]
    split
    · cases first
    · cases first
    · exact ih others

/-- Blocks may be added to a log where the peer is not choked. -/
theorem Unchoked.append (unchoked : Unchoked log)
    (later : ∀ before after index start data,
      rest = before ++ .sent (.piece index start data) :: after → choking (log ++ before) = false) :
    Unchoked (log ++ rest) := by
  intro before after index start data split
  rcases List.append_eq_append_iff.mp split with ⟨more, rfl, tail⟩ | ⟨more, whole, tail⟩
  · exact later more after index start data tail
  · cases more with
    | nil =>
      rw [List.append_nil] at whole
      rw [← whole, ← List.append_nil log]
      exact later [] after index start data tail.symm
    | cons entry more =>
      obtain ⟨rfl, -⟩ := List.cons.inj tail
      exact unchoked before more index start data whole

/-- Nothing that answers the peer is said. -/
theorem Unchoked.append_silent (unchoked : Unchoked log) (silent : rest.filterMap answered? = []) :
    Unchoked (log ++ rest) := by
  refine unchoked.append fun before after index start data split => ?_
  rw [split, List.filterMap_append] at silent
  exact absurd (List.append_eq_nil_iff.mp silent).2 (by simp [answered?])

end Exchange

/-- A store that was filled is read wherever it has bytes. -/
theorem MemoryStore.read_ofContent {content : Bytes} {range : ByteRange}
    (within : range.stop ≤ content.length) :
    (ofContent content).read range = .ok ((content.drop range.offset).take range.length) := by
  have inside : ¬ (ofContent content).size < range.stop := by
    rw [size, ofContent, List.length_map]
    omega
  have written : allWritten? (((ofContent content).cells.drop range.offset).take range.length) =
      some ((content.drop range.offset).take range.length) := by
    rw [allWritten?_eq_some, ofContent, List.map_take, List.map_drop]
  simp only [read, show (ofContent content).failReads = none from rfl, inside, written, ↓reduceIte]

namespace Turn

theorem checkRequest_eq_ok {download : Download} {request : BlockRequest} :
    checkRequest download request = .ok () ↔
      0 < request.length ∧ request.length ≤ maxRequest ∧
        download.holdings.has request.piece = true ∧
        ∃ piece range, download.torrent.piece? request.piece = some piece ∧
          piece.subRange? request.start request.length = some range := by
  unfold checkRequest
  by_cases badLength : request.length = 0 ∨ maxRequest < request.length
  · rw [if_pos badLength]
    exact ⟨nofun, fun ⟨positive, bounded, _⟩ => by omega⟩
  · rw [if_neg badLength]
    have length : 0 < request.length ∧ request.length ≤ maxRequest := by omega
    cases found : download.torrent.piece? request.piece with
    | none => simp
    | some piece =>
      cases complete : download.holdings.has request.piece with
      | false => simp
      | true =>
        cases inside : piece.subRange? request.start request.length <;> simp [inside, length]

/-- A request that was accepted is still for bytes of a complete piece. -/
theorem checkRequest_evolves {before after : Download} (evolves : before.Evolves after)
    {request : BlockRequest} (checked : checkRequest before request = .ok ()) :
    checkRequest after request = .ok () := by
  obtain ⟨positive, bounded, complete, piece, range, found, inside⟩ := checkRequest_eq_ok.mp checked
  exact checkRequest_eq_ok.mpr ⟨positive, bounded, evolves.complete complete, piece, range,
    evolves.torrent ▸ found, inside⟩

end Turn

namespace Scene

/-- Chokes the peer. -/
def choke (scene : Scene) : Scene :=
  scene.follow (scene.turn.follow scene.peer.session.choke)

/-- Unchokes the peer. -/
def unchoke (scene : Scene) : Scene :=
  scene.follow (scene.turn.follow scene.peer.session.unchoke)

variable {scene : Scene}

theorem receive_cancel_eq (now : Nat) (request : BlockRequest)
    (isOpen : scene.peer.session.phase.isOpen = true) :
    scene.receive now (.cancel request) = scene.hear
      { scene.peer.session.awake now with
        upload := if scene.peer.session.upload = some request then none
          else scene.peer.session.upload } (.cancel request) := by
  by_cases asked : scene.peer.session.upload = some request
  · have heard : scene.peer.session.receive now (.cancel request) =
        ({ scene.peer.session.awake now with upload := none }, .ok (.cancel request)) := by
      rw [receive_awake now _ isOpen]
      simp only [Session.apply, Session.awake, asked, ↓reduceIte]
    have handled : ∀ turn : Turn, turn.handle (.cancel request) = Turn.ended turn.stay :=
      fun _ => rfl
    rw [receive_ended heard (handled _) rfl, if_pos asked]
    exact follow_turn _
  · have heard : scene.peer.session.receive now (.cancel request) =
        (scene.peer.session.awake now, .ok .ignored) := by
      rw [receive_awake now _ isOpen]
      simp only [Session.apply, Session.awake, asked, ↓reduceIte]
    rw [receive_quiet heard (Or.inr (Or.inl rfl)), if_neg asked]
    rfl

/-- A request changes nothing about the uploads while another is pending or the peer is choked. -/
theorem receive_request_bypasses (now : Nat) (request : BlockRequest)
    (isOpen : scene.peer.session.phase.isOpen = true)
    (untimely : scene.peer.session.upload ≠ none ∨ scene.peer.session.amChoking = true) :
    scene.Bypasses (scene.receive now (.request request)) := by
  have bypasses := @hear_bypasses scene (scene.peer.session.awake now) (.request request)
    rfl rfl rfl rfl
  have heard := receive_awake now (.request request) isOpen
  cases asked : scene.peer.session.upload with
  | some outstanding =>
    have refused : (scene.peer.session.awake now).apply (.request request) =
        (scene.peer.session.awake now, .error (.duplicateUpload request outstanding)) := by
      simp only [Session.apply, Session.awake, asked]
    rw [receive_error (heard.trans refused)]
    exact ⟨bypasses.turn, fun _ => rfl, bypasses.log⟩
  | none =>
    have choked := untimely.resolve_left fun other => other asked
    have ignored : (scene.peer.session.awake now).apply (.request request) =
        (scene.peer.session.awake now, .ok .ignored) := by
      simp only [Session.apply, Session.awake, asked, choked, ↓reduceIte]
    rw [receive_quiet (heard.trans ignored) (Or.inr (Or.inl rfl))]
    exact bypasses

/-- Otherwise it is accepted or fails the handler. -/
theorem receive_request_taken (now : Nat) (request : BlockRequest)
    (isOpen : scene.peer.session.phase.isOpen = true)
    (unasked : scene.peer.session.upload = none)
    (unchoked : scene.peer.session.amChoking = false) :
    let asking := scene.hear { scene.peer.session.awake now with upload := some request }
      (.request request)
    (Turn.checkRequest scene.download request = .ok () ∧
        scene.receive now (.request request) = asking.logged [.accepted request]) ∨
      scene.receive now (.request request) = asking.failed := by
  have taken : (scene.peer.session.awake now).apply (.request request) =
      ({ scene.peer.session.awake now with upload := some request }, .ok (.request request)) := by
    simp only [Session.apply, Session.awake, unasked, unchoked, Bool.false_eq_true, ↓reduceIte]
  have heard := (receive_awake now (.request request) isOpen).trans taken
  cases checked : Turn.checkRequest scene.download request with
  | error violation =>
    have handled : ∀ turn : Turn, turn.download = scene.download →
        turn.handle (.request request) = Turn.ended (turn, .error (.violation violation)) := by
      intro turn same
      simp only [Turn.handle, same, checked]
      rfl
    rw [receive_ended heard (handled _ rfl) rfl, follow_turn]
    exact Or.inr rfl
  | ok _ =>
    have handled : ∀ turn : Turn, turn.download = scene.download →
        turn.handle (.request request) = Turn.ended turn.stay := by
      intro turn same
      simp only [Turn.handle, same, checked]
    rw [receive_noted heard (handled _ rfl)]
    exact Or.inl ⟨rfl, follow_turn (logged _ _)⟩

theorem receive_interested_eq (now : Nat) (isOpen : scene.peer.session.phase.isOpen = true) :
    scene.receive now .interested = (scene.hear
      { scene.peer.session.awake now with peerInterested := true } .interested).unchoke := by
  have heard : scene.peer.session.receive now .interested =
      ({ scene.peer.session.awake now with peerInterested := true }, .ok .interested) :=
    receive_awake now _ isOpen
  have handled : ∀ turn : Turn, turn.handle .interested =
      Turn.ended (turn.follow turn.session.unchoke).stay := fun _ => rfl
  exact receive_ended heard (handled _) rfl

theorem receive_notInterested_eq (now : Nat) (isOpen : scene.peer.session.phase.isOpen = true) :
    scene.receive now .notInterested = (scene.hear
      { scene.peer.session.awake now with peerInterested := false } .notInterested).choke := by
  have heard : scene.peer.session.receive now .notInterested =
      ({ scene.peer.session.awake now with peerInterested := false }, .ok .notInterested) :=
    receive_awake now _ isOpen
  have handled : ∀ turn : Turn, turn.handle .notInterested =
      Turn.ended (turn.follow turn.session.choke).stay := fun _ => rfl
  exact receive_ended heard (handled _) rfl

theorem serve_idle (unasked : scene.peer.session.upload = none) : scene.serve = scene := by
  have taken : scene.turn.session.takeUpload =
    ({ scene.peer.session with upload := none }, scene.peer.session.upload) := rfl
  unfold serve Turn.serveStored Turn.serve
  rw [taken, unasked]
  exact scene.follow_turn

/-- A request that was accepted is neither dropped nor refused when its turn comes: the bytes that
it asks for are read. -/
theorem serve_reads {request : BlockRequest} (asked : scene.peer.session.upload = some request)
    (unchoked : scene.peer.session.amChoking = false)
    (checked : Turn.checkRequest scene.download request = .ok ()) :
    ∃ piece range, scene.download.torrent.piece? request.piece = some piece ∧
      scene.download.holdings.has request.piece = true ∧
      piece.subRange? request.start request.length = some range ∧
      scene.turn.serve = ({ scene.turn with
        session := { scene.peer.session with upload := none } }, .wait (.read request range)) := by
  obtain ⟨-, -, complete, piece, range, found, inside⟩ := Turn.checkRequest_eq_ok.mp checked
  have located : (scene.download.torrent.piece? request.piece).bind
      (fun piece => piece.subRange? request.start request.length) = some range := by
    rw [found]
    exact inside
  have taken : scene.turn.session.takeUpload =
    ({ scene.peer.session with upload := none }, scene.peer.session.upload) := rfl
  refine ⟨piece, range, found, complete, inside, ?_⟩
  unfold Turn.serve
  rw [taken, asked]
  simp only [unchoked, Bool.false_eq_true, ↓reduceIte]
  rw [show (scene.turn.download.torrent.piece? request.piece).bind _ = _ from located]

/-- The store gives all bytes of complete pieces. -/
def Healthy (scene : Scene) : Prop :=
  ∀ index piece start length range, scene.download.torrent.piece? index = some piece →
    scene.download.holdings.has index = true → piece.subRange? start length = some range →
    ∃ data, scene.store.read range = .ok data

/-- A request that was accepted is answered when its turn comes. -/
theorem serve_sends (healthy : scene.Healthy) {request : BlockRequest}
    (asked : scene.peer.session.upload = some request)
    (unchoked : scene.peer.session.amChoking = false)
    (checked : Turn.checkRequest scene.download request = .ok ()) :
    ∃ data, data.length = request.length ∧
      scene.serve = (scene.withSession { scene.peer.session with upload := none }).logged
        [.sent (.piece request.piece request.start data)] := by
  obtain ⟨piece, range, found, complete, inside, reads⟩ := serve_reads asked unchoked checked
  obtain ⟨data, read⟩ := healthy _ _ _ _ _ found complete inside
  refine ⟨data, ?_, ?_⟩
  · obtain ⟨-, rfl⟩ := Piece.subRange?_eq_some.mp inside
    exact (MemoryStore.read_ok read).1
  · unfold serve Turn.serveStored
    rw [reads]
    simp only [Turn.settle, read]
    rfl

theorem healthy_of_content {content : Bytes} (full : scene.store = .ofContent content)
    (covered : ∀ index piece, scene.download.torrent.piece? index = some piece →
      piece.offset + piece.length ≤ content.length) : scene.Healthy := by
  intro index piece start length range found _ inside
  obtain ⟨within, rfl⟩ := Piece.subRange?_eq_some.mp inside
  have bounded := covered index piece found
  rw [full]
  exact ⟨_, MemoryStore.read_ofContent (show piece.offset + start + length ≤ _ by omega)⟩

end Scene

/-- A connection, and what happened on it that decides about requests of the peer. -/
structure Service where
  scene : Scene
  history : List Note

namespace Service

/-- A connection whose handshakes are just exchanged. -/
def start (store : MemoryStore) (download : Download) (address : Address) (peerId : PeerId)
    (capabilities : Capabilities) (now mailbox : Nat) : Service where
  scene := ⟨store, download, Swarm.welcome download address peerId capabilities now mailbox⟩
  history := []

/-- Takes over what a handler leaves behind, and keeps what the new entries of its log decide. -/
def follow (service : Service) (called : List Note) (after : Scene) : Service where
  scene := after
  history := service.history ++ called ++
    (after.peer.log.drop service.scene.peer.log.length).filterMap Exchange.note?

/-- What can happen to a connection until a handler fails. The store has to be healthy when it is
asked for a block; others may change it and the shared state at any time. -/
inductive Step (service : Service) : Service → Prop
  | receive (now : Nat) (message : Message) :
      Step service (service.follow [] (service.scene.receive now message))
  -- That the peer was served is noted of the call: a log without a block would not show it.
  | serve : service.scene.Healthy → Step service (service.follow [.served] service.scene.serve)
  | choke : Step service (service.follow [] service.scene.choke)
  | unchoke : Step service (service.follow [] service.scene.unchoke)
  | greet : Step service (service.follow [] service.scene.greet)
  | localHave (piece : Nat) : Step service (service.follow [] (service.scene.localHave piece))
  | checkIdle (now : Nat) : Step service (service.follow [] (service.scene.checkIdle now))
  | share (store : MemoryStore) (download : Download) : service.scene.download.Evolves download →
      Step service { service with
        scene := { service.scene with store := store, download := download } }

/-- A step of a connection of which no handler has failed. -/
def Goes (before after : Service) : Prop :=
  before.scene.peer.failed = false ∧ before.Step after

/-- What holds of a connection at all times. -/
structure Kept (service : Service) : Prop where
  sized : service.scene.turn.Sized
  answered : service.scene.peer.log.filterMap Exchange.answered? =
    Note.fated .answered service.history
  choking : Exchange.choking service.scene.peer.log = service.scene.peer.session.amChoking
  unchoked : Exchange.Unchoked service.scene.peer.log
  pending : service.scene.peer.failed = false →
    Note.fated .pending service.history = service.scene.peer.session.upload.toList
  servable : service.scene.peer.failed = false → ∀ request,
    service.scene.peer.session.upload = some request →
    service.scene.peer.session.amChoking = false ∧
      Turn.checkRequest service.scene.download request = .ok ()

variable {scene after : Scene} {history : List Note} {rest : List Exchange}

/-- What a step of the handlers keeps that has nothing to do with uploads. -/
theorem Kept.bypassed (kept : Kept ⟨scene, history⟩) (bypasses : scene.Bypasses after) :
    Kept ⟨after, history⟩ := by
  obtain ⟨turn, failed, rest, grown, quiet⟩ := bypasses
  have steady : after.peer.failed = false → scene.peer.failed = false :=
    fun steady => Bool.eq_false_iff.mpr fun before => by simp [failed before] at steady
  have upload : after.peer.session.upload = scene.peer.session.upload := turn.upload
  have choking : after.peer.session.amChoking = scene.peer.session.amChoking := turn.choking
  constructor
  · exact turn.sized kept.sized
  · rw [grown, List.filterMap_append, Exchange.answered?_quiet quiet, List.append_nil]
    exact kept.answered
  · rw [grown, Exchange.choking_quiet quiet, choking]
    exact kept.choking
  · rw [grown]
    exact kept.unchoked.append_silent (Exchange.answered?_quiet quiet)
  · intro whole
    rw [upload]
    exact kept.pending (steady whole)
  · intro whole request asked
    rw [upload] at asked
    obtain ⟨unchoked, checked⟩ := kept.servable (steady whole) request asked
    rw [choking]
    exact ⟨unchoked, Turn.checkRequest_evolves turn.evolves checked⟩

/-- What a step keeps that decides about requests without answering one. -/
theorem Kept.decided {note : Note} (kept : Kept ⟨scene, history⟩) (sized : after.turn.Sized)
    (unserved : note ≠ .served) (grown : after.peer.log = scene.peer.log ++ rest)
    (silent : rest.filterMap Exchange.answered? = [])
    (choking : Exchange.choking (scene.peer.log ++ rest) = after.peer.session.amChoking)
    (pending : after.peer.failed = false →
      Note.fated .pending (history ++ [note]) = after.peer.session.upload.toList)
    (servable : after.peer.failed = false → ∀ request,
      after.peer.session.upload = some request → after.peer.session.amChoking = false ∧
        Turn.checkRequest after.download request = .ok ()) :
    Kept ⟨after, history ++ [note]⟩ := by
  refine ⟨sized, ?_, by rw [← choking, ← grown], ?_, pending, servable⟩
  · rw [grown, List.filterMap_append, silent, List.append_nil, Note.answered_append unserved]
    exact kept.answered
  · rw [grown]
    exact kept.unchoked.append_silent silent

/-- What is bypassed adds to the log without deciding about requests. -/
theorem Kept.added (kept : Kept ⟨scene, history⟩) (bypasses : scene.Bypasses after) :
    ∃ rest, after.peer.log = scene.peer.log ++ rest ∧
      Kept ⟨after, history ++ rest.filterMap Exchange.note?⟩ := by
  obtain ⟨rest, grown, quiet⟩ := bypasses.log
  refine ⟨rest, grown, ?_⟩
  rw [Exchange.note?_quiet quiet, List.append_nil]
  exact kept.bypassed bypasses

/-- Before the handshakes every message fails its handler. -/
theorem Kept.closed (kept : Kept ⟨scene, history⟩) (now : Nat) (message : Message)
    (closed : ¬ scene.peer.session.phase.isOpen = true) :
    ∃ rest, (scene.receive now message).peer.log = scene.peer.log ++ rest ∧
      Kept ⟨scene.receive now message, history ++ rest.filterMap Exchange.note?⟩ := by
  have refused : scene.peer.session.receive now message =
      (scene.peer.session, .error (.beforeHandshake scene.peer.session.address)) := by
    rw [Session.receive, if_neg closed]
  rw [Scene.receive_error refused]
  have added : (Exchange.received message).isUpload = false →
      ∃ rest, (scene.hear scene.peer.session message).failed.peer.log = scene.peer.log ++ rest ∧
        Kept ⟨(scene.hear scene.peer.session message).failed,
          history ++ rest.filterMap Exchange.note?⟩ := by
    intro quiet
    have heard := @Scene.hear_bypasses scene scene.peer.session message rfl rfl rfl quiet
    exact kept.added ⟨heard.turn, fun _ => rfl, heard.log⟩
  cases message with
  | cancel request =>
    refine ⟨[.received (.cancel request)], rfl, ?_⟩
    exact @Kept.decided scene _ history [.received (.cancel request)] (.cancelled request) kept
      kept.sized nofun rfl rfl (List.foldl_append.trans kept.choking) nofun nofun
  | _ => exact added rfl

/-- A request that is withdrawn is pending no longer. -/
theorem Kept.cancelled (kept : Kept ⟨scene, history⟩) (now : Nat) (request : BlockRequest)
    (isOpen : scene.peer.session.phase.isOpen = true) :
    ∃ rest, (scene.receive now (.cancel request)).peer.log = scene.peer.log ++ rest ∧
      Kept ⟨scene.receive now (.cancel request), history ++ rest.filterMap Exchange.note?⟩ := by
  rw [Scene.receive_cancel_eq now request isOpen]
  refine ⟨[.received (.cancel request)], rfl, ?_⟩
  refine @Kept.decided scene _ history [.received (.cancel request)] (.cancelled request) kept
    kept.sized nofun rfl rfl ?_ ?_ ?_
  · exact List.foldl_append.trans kept.choking
  · intro steady
    exact Note.pending_cancelled (kept.pending steady)
  · intro steady other asked
    change (if _ then none else _) = some other at asked
    split at asked
    · cases asked
    · exact kept.servable steady other asked

/-- A request is accepted only while none is pending and the peer is unchoked. -/
theorem Kept.requested (kept : Kept ⟨scene, history⟩) (now : Nat) (request : BlockRequest)
    (isOpen : scene.peer.session.phase.isOpen = true) :
    ∃ rest, (scene.receive now (.request request)).peer.log = scene.peer.log ++ rest ∧
      Kept ⟨scene.receive now (.request request), history ++ rest.filterMap Exchange.note?⟩ := by
  by_cases untimely : scene.peer.session.upload ≠ none ∨ scene.peer.session.amChoking = true
  · exact kept.added (Scene.receive_request_bypasses now request isOpen untimely)
  · simp only [not_or, ne_eq, not_not, Bool.not_eq_true] at untimely
    obtain ⟨unasked, unchoked⟩ := untimely
    rcases Scene.receive_request_taken now request isOpen unasked unchoked with
      ⟨checked, accepted⟩ | rejected
    · rw [accepted]
      refine ⟨[.received (.request request), .accepted request], ?_, ?_⟩
      · exact List.append_assoc _ _ _
      · refine @Kept.decided scene _ history [.received (.request request), .accepted request]
          (.accepted request) kept kept.sized nofun (List.append_assoc _ _ _) rfl ?_ ?_ ?_
        · exact List.foldl_append.trans kept.choking
        · intro steady
          rw [Note.pending_append, kept.pending steady, unasked]
          rfl
        · rintro - other asked
          cases asked
          exact ⟨unchoked, checked⟩
    · rw [rejected]
      have quiet : ∀ entry ∈ [Exchange.received (.request request)], entry.isUpload = false :=
        List.forall_mem_singleton.mpr rfl
      refine ⟨[.received (.request request)], rfl, ?_⟩
      rw [Exchange.note?_quiet quiet, List.append_nil]
      refine ⟨kept.sized, ?_, ?_, ?_, nofun, nofun⟩
      · exact (List.filterMap_append.trans (List.append_nil _)).trans kept.answered
      · exact (Exchange.choking_quiet quiet).trans kept.choking
      · exact kept.unchoked.append_silent (Exchange.answered?_quiet quiet)

/-- To choke the peer withdraws its pending request. -/
theorem Kept.chokes (kept : Kept ⟨scene, history⟩) :
    ∃ rest, scene.choke.peer.log = scene.peer.log ++ rest ∧
      Kept ⟨scene.choke, history ++ rest.filterMap Exchange.note?⟩ := by
  unfold Scene.choke
  rw [Session.choke_eq, Scene.follow_follow, Scene.follow_turn]
  cases choked : scene.peer.session.amChoking with
  | true =>
    refine ⟨[], rfl, ?_⟩
    rw [List.filterMap_nil, List.append_nil]
    refine kept.bypassed ⟨?_, id, [], rfl, List.forall_mem_nil _⟩
    exact ⟨.refl _, rfl, choked.symm, rfl, [], rfl, List.forall_mem_nil _⟩
  | false =>
    refine ⟨[.sent .choke], rfl, ?_⟩
    refine @Kept.decided scene _ history [.sent .choke] .choked kept kept.sized nofun rfl rfl ?_ ?_
      nofun
    · exact List.foldl_append
    · exact fun _ => Note.pending_closed (Or.inl rfl)

/-- A peer that is unchoked has no request pending. -/
theorem Kept.unchokes (kept : Kept ⟨scene, history⟩) :
    ∃ rest, scene.unchoke.peer.log = scene.peer.log ++ rest ∧
      Kept ⟨scene.unchoke, history ++ rest.filterMap Exchange.note?⟩ := by
  unfold Scene.unchoke
  rw [Session.unchoke_eq, Scene.follow_follow, Scene.follow_turn]
  cases choked : scene.peer.session.amChoking with
  | false =>
    refine ⟨[], rfl, ?_⟩
    rw [List.filterMap_nil, List.append_nil]
    refine kept.bypassed ⟨?_, id, [], rfl, List.forall_mem_nil _⟩
    exact ⟨.refl _, rfl, choked.symm, rfl, [], rfl, List.forall_mem_nil _⟩
  | true =>
    refine ⟨[.sent .unchoke], rfl, ?_⟩
    have silent : [Exchange.sent .unchoke].filterMap Exchange.answered? = [] := rfl
    rw [show [Exchange.sent .unchoke].filterMap Exchange.note? = [] from rfl, List.append_nil]
    refine ⟨kept.sized, ?_, ?_, kept.unchoked.append_silent silent, kept.pending, ?_⟩
    · exact (List.filterMap_append.trans (List.append_nil _)).trans kept.answered
    · exact List.foldl_append
    · intro steady request asked
      cases choked.symm.trans (kept.servable steady request asked).1

/-- The pending request is answered when the peer is served. -/
theorem Kept.serves (kept : Kept ⟨scene, history⟩) (steady : scene.peer.failed = false)
    (healthy : scene.Healthy) :
    ∃ rest, scene.serve.peer.log = scene.peer.log ++ rest ∧
      Kept ⟨scene.serve, history ++ [.served] ++ rest.filterMap Exchange.note?⟩ := by
  have pending := kept.pending steady
  have decided : Note.fated .pending (history ++ [.served]) = [] :=
    Note.pending_closed (Or.inr rfl)
  cases asked : scene.peer.session.upload with
  | none =>
    rw [asked] at pending
    rw [Scene.serve_idle asked]
    refine ⟨[], (List.append_nil _).symm, ?_⟩
    rw [List.filterMap_nil, List.append_nil]
    refine ⟨kept.sized, ?_, kept.choking, kept.unchoked, fun _ => ?_, kept.servable⟩
    · rw [Note.answered_served, pending]
      exact kept.answered.trans (List.append_nil _).symm
    · rw [asked]
      exact decided
  | some request =>
    obtain ⟨unchoked, checked⟩ := kept.servable steady request asked
    obtain ⟨data, length, served⟩ := Scene.serve_sends healthy asked unchoked checked
    rw [served]
    refine ⟨[.sent (.piece request.piece request.start data)], rfl, ?_⟩
    rw [show [Exchange.sent (.piece request.piece request.start data)].filterMap Exchange.note? = []
      from rfl, List.append_nil]
    refine ⟨kept.sized, ?_, ?_, ?_, fun _ => decided, fun _ _ asked => by cases asked⟩
    · have answers : [Exchange.sent (.piece request.piece request.start data)].filterMap
          Exchange.answered? = [request] := by
        simp [Exchange.answered?, length]
      rw [Note.answered_served, pending, asked]
      exact List.filterMap_append.trans (congrArg₂ (· ++ ·) kept.answered answers)
    · exact List.foldl_append.trans kept.choking
    · refine kept.unchoked.append fun before after index start data split => ?_
      obtain ⟨rfl, -⟩ := List.append_eq_singleton_iff.mp split.symm |>.resolve_right (by simp)
      rw [List.append_nil]
      exact kept.choking.trans unchoked

/-- What is bypassed may come before what is said. -/
theorem bypassed_before {middle : Scene} (bypasses : scene.Bypasses middle)
    (later : ∃ rest, after.peer.log = middle.peer.log ++ rest ∧
      Kept ⟨after, history ++ rest.filterMap Exchange.note?⟩) :
    ∃ rest, after.peer.log = scene.peer.log ++ rest ∧
      Kept ⟨after, history ++ rest.filterMap Exchange.note?⟩ := by
  obtain ⟨first, begun, quiet⟩ := bypasses.log
  obtain ⟨rest, grown, kept⟩ := later
  refine ⟨first ++ rest, by rw [grown, begun, List.append_assoc], ?_⟩
  rwa [List.filterMap_append, Exchange.note?_quiet quiet, List.nil_append]

/-- Interest of the peer unchokes it, and the loss of it chokes the peer. -/
theorem Kept.received (kept : Kept ⟨scene, history⟩) (now : Nat) (message : Message) :
    ∃ rest, (scene.receive now message).peer.log = scene.peer.log ++ rest ∧
      Kept ⟨scene.receive now message, history ++ rest.filterMap Exchange.note?⟩ := by
  by_cases isOpen : scene.peer.session.phase.isOpen = true
  · have bypassed : message.asksUpload = false → scene.Bypasses (scene.receive now message) :=
      Scene.receive_bypasses kept.sized now
    cases message with
    | cancel request => exact kept.cancelled now request isOpen
    | request request => exact kept.requested now request isOpen
    | interested =>
      have heard := @Scene.hear_bypasses scene
        { scene.peer.session.awake now with peerInterested := true } .interested rfl rfl rfl rfl
      rw [Scene.receive_interested_eq now isOpen]
      exact bypassed_before heard (kept.bypassed heard).unchokes
    | notInterested =>
      have heard := @Scene.hear_bypasses scene
        { scene.peer.session.awake now with peerInterested := false } .notInterested rfl rfl rfl rfl
      rw [Scene.receive_notInterested_eq now isOpen]
      exact bypassed_before heard (kept.bypassed heard).chokes
    | _ => exact kept.added (bypassed rfl)
  · exact kept.closed now message isOpen

theorem Kept.followed {service : Service} {called : List Note}
    (done : ∃ rest, after.peer.log = service.scene.peer.log ++ rest ∧
      Kept ⟨after, service.history ++ called ++ rest.filterMap Exchange.note?⟩) :
    (service.follow called after).Kept := by
  obtain ⟨rest, grown, kept⟩ := done
  have behind : after.peer.log.drop service.scene.peer.log.length = rest := by
    rw [grown, List.drop_left]
  unfold follow
  rwa [behind]

/-- Every step of a connection keeps its books right. -/
theorem Kept.step {before after : Service} (kept : before.Kept) (goes : before.Goes after) :
    after.Kept := by
  obtain ⟨steady, step⟩ := goes
  have silent : ∀ {later : Scene}, (∃ rest, later.peer.log = before.scene.peer.log ++ rest ∧
      Kept ⟨later, before.history ++ rest.filterMap Exchange.note?⟩) →
      (before.follow [] later).Kept := by
    intro later done
    refine .followed ?_
    rwa [List.append_nil]
  cases step with
  | receive now message => exact silent (kept.received now message)
  | serve healthy => exact .followed (kept.serves steady healthy)
  | choke => exact silent kept.chokes
  | unchoke => exact silent kept.unchokes
  | greet =>
    exact silent (kept.added (Scene.follow_bypasses (Turn.greet_bypasses _) (.ok .stay)))
  | localHave piece =>
    exact silent (kept.added (Scene.follow_bypasses (Turn.onLocalHave_bypasses kept.sized piece) _))
  | checkIdle now =>
    exact silent (kept.added (Scene.follow_bypasses (Turn.checkIdle_bypasses _ now) _))
  | share store download evolves =>
    exact kept.bypassed ⟨.silent evolves, id, [], (List.append_nil _).symm, List.forall_mem_nil _⟩

theorem start_kept {store : MemoryStore} {download : Download} {address : Address}
    {peerId : PeerId} {capabilities : Capabilities} {now mailbox : Nat}
    (sized : download.holdings.completed.size = download.torrent.pieceCount) :
    (start store download address peerId capabilities now mailbox).Kept where
  sized := (Bitfield.size_empty _).trans sized.symm
  answered := rfl
  choking := rfl
  unchoked := by
    intro before after index start data split
    cases List.append_eq_nil_iff.mp split.symm |>.2
  pending := fun _ => rfl
  servable := fun _ => nofun

/-- At all times, the blocks that were sent to a peer are those that its requests asked for which
were accepted and, before they were withdrawn, served: one each, in the order of acceptance. The
only other one that was not withdrawn is pending, and when its turn comes its bytes are read. No
block is sent while the peer is choked. -/
theorem uploads_answer {store : MemoryStore} {download : Download} {address : Address}
    {peerId : PeerId} {capabilities : Capabilities} {now mailbox : Nat} {service : Service}
    (sized : download.holdings.completed.size = download.torrent.pieceCount)
    (run : ReflTransGen Goes
      (start store download address peerId capabilities now mailbox) service) :
    let session := service.scene.peer.session
    let log := service.scene.peer.log
    log.filterMap Exchange.answered? = Note.fated .answered service.history ∧
    Exchange.Unchoked log ∧ Exchange.choking log = session.amChoking ∧
    (service.scene.peer.failed = false →
      Note.fated .pending service.history = session.upload.toList ∧
      ∀ request, session.upload = some request → ∃ piece range,
        service.scene.download.torrent.piece? request.piece = some piece ∧
        piece.subRange? request.start request.length = some range ∧
        service.scene.turn.serve = ({ service.scene.turn with
          session := { session with upload := none } }, .wait (.read request range))) := by
  have kept : service.Kept := by
    induction run with
    | refl => exact start_kept sized
    | tail _ goes ih => exact ih.step goes
  refine ⟨kept.answered, kept.unchoked, kept.choking, fun steady => ⟨kept.pending steady, ?_⟩⟩
  intro request asked
  obtain ⟨unchoked, checked⟩ := kept.servable steady request asked
  obtain ⟨piece, range, found, -, inside, reads⟩ := Scene.serve_reads asked unchoked checked
  exact ⟨piece, range, found, inside, reads⟩

/-- A peer that is interested asks for three blocks and cancels the second. -/
def seeding : Service :=
  let hear (service : Service) (message : Message) : Service :=
    service.follow [] (service.scene.receive 0 message)
  let serve (service : Service) : Service := service.follow [.served] service.scene.serve
  let begun := start (.ofContent Sample.content)
    ((Download.new Sample.torrent {} Sample.peerId []).complete 0).1 Sample.first Sample.peerId
    .none 0 0
  let first := serve (hear (hear begun .interested) (.request ⟨0, 0, 4⟩))
  let second := hear (hear first (.request ⟨0, 1, 2⟩)) (.cancel ⟨0, 1, 2⟩)
  serve (hear second (.request ⟨0, 2, 2⟩))

theorem uploads_answer_seeding :
    seeding.scene.peer.log.filterMap Exchange.answered? = [⟨0, 0, 4⟩, ⟨0, 2, 2⟩] ∧
      Note.fated .withdrawn seeding.history = [⟨0, 1, 2⟩] ∧
      Exchange.Unchoked seeding.scene.peer.log := by
  have sized : ((Download.new Sample.torrent {} Sample.peerId []).complete
      0).1.holdings.completed.size = Sample.torrent.pieceCount := rfl
  have covered : ∀ index piece, Sample.torrent.piece? index = some piece →
      piece.offset + piece.length ≤ Sample.content.length := by
    intro index piece found
    cases index with
    | zero =>
      cases found
      exact Nat.le_refl 4
    | succ index => cases found
  have run : ReflTransGen Goes (start (.ofContent Sample.content)
      ((Download.new Sample.torrent {} Sample.peerId []).complete 0).1 Sample.first Sample.peerId
      .none 0 0) seeding :=
    .tail (.tail (.tail (.tail (.tail (.tail (.tail .refl
      ⟨rfl, .receive 0 .interested⟩)
      ⟨rfl, .receive 0 (.request ⟨0, 0, 4⟩)⟩)
      ⟨rfl, .serve (Scene.healthy_of_content rfl covered)⟩)
      ⟨rfl, .receive 0 (.request ⟨0, 1, 2⟩)⟩)
      ⟨rfl, .receive 0 (.cancel ⟨0, 1, 2⟩)⟩)
      ⟨rfl, .receive 0 (.request ⟨0, 2, 2⟩)⟩)
      ⟨rfl, .serve (Scene.healthy_of_content rfl covered)⟩
  obtain ⟨answered, unchoked, -⟩ := uploads_answer sized run
  exact ⟨answered.trans rfl, rfl, unchoked⟩

end Service

end BitTorrent
