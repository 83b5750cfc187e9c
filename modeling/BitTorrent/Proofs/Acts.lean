import BitTorrent.Proofs.Provenance
import BitTorrent.Proofs.Redundancy

/-!
What a handler does between two waits. It runs to its end, or it stops to wait for the store:
for a block to be read or written, or for the hash of a piece.
-/

set_option autoImplicit false

namespace BitTorrent

/-- At most a fault is recorded when a handler stops because of one. -/
theorem Download.recorded {download after : Download}
    (origin : after = download ∨ ∃ fault, after = download.record fault) :
    download.Evolves after ∧ after.assignments = download.assignments ∧
      after.holdings = download.holdings := by
  rcases origin with rfl | ⟨fault, rfl⟩
  · exact ⟨.refl after, rfl, rfl⟩
  · exact ⟨download.record_evolves fault, download.assignments_record fault,
      download.holdings_record fault⟩

theorem Course.steady {scene after : Scene} (course : Course scene after) (sound : scene.Sound) :
    after.Sound := by
  obtain ⟨middle, moves, finish⟩ := course
  have reached := Moves.steady moves sound
  rcases finish with rfl | withdrawal
  · exact reached
  · have same : after.turn.download = middle.turn.download := withdrawal.download
    exact ⟨same ▸ withdrawal.sound reached.session, same ▸ reached.holdings⟩

namespace Turn

variable {turn base : Turn} {piece : Piece} {outcome : Except Fault Digest}

theorem Basis.holdings {event : Event} (basis : turn.Basis event base) :
    base.download.holdings = turn.download.holdings := by
  cases basis with
  | same | published => rfl
  | unchoked =>
    rw [Session.unchoke_eq]
    cases turn.session.amChoking <;> rfl
  | choked =>
    rw [Session.choke_eq]
    cases turn.session.amChoking <;> rfl

/-- The scene of a connection that works on a turn. -/
def scene (turn : Turn) : Scene :=
  ⟨.empty 0, turn.download, ⟨turn.session, 0, [], false, false⟩⟩

theorem Sound.fill_evolves (sound : turn.Sound) :
    turn.download.Evolves turn.fillPipeline.1.download :=
  (fillPipeline_filled turn.scene sound).course.evolves

theorem Sound.fill (sound : turn.Sound) : turn.fillPipeline.1.Sound :=
  have later : (turn.scene.follow turn.fillPipeline.1).Sound :=
    (fillPipeline_filled turn.scene sound).course.steady ⟨sound.session, sound.holdings⟩
  ⟨later.session, later.holdings⟩

theorem Sound.fetch (sound : turn.Sound) (piece : Piece) (request : BlockRequest) :
    (turn.withHoldings (turn.download.holdings.fetch piece request)).Sound :=
  ⟨sound.session, sound.holdings.fetch piece request⟩

theorem handle_holdings (sized : turn.Sized) (event : Event) :
    (turn.handle event).1.download.holdings = turn.download.holdings := by
  obtain ⟨base, basis, pursues, -⟩ := handle_pursues sized event
  exact pursues.holdings.trans basis.holdings

theorem receive_holdings (sized : turn.Sized) (now : Nat) (message : Message) :
    (turn.receive now message).1.download.holdings = turn.download.holdings := by
  obtain ⟨-, -, size⟩ := turn.session.receive_keeps now message
  unfold receive
  split
  · rfl
  · rename_i session event heard
    rw [heard] at size
    exact @handle_holdings { turn with session := session } (size.trans sized) event

theorem obey_holdings (sized : turn.Sized) (mailbox : Nat) :
    (turn.obey mailbox).1.download.holdings = turn.download.holdings := by
  unfold obey
  split
  · rfl
  · rfl
  · rename_i piece rest queued
    obtain ⟨middle, cancelled, later, -⟩ :=
      @onLocalHave_pursues (turn.take mailbox rest) sized piece
    exact later.holdings.trans cancelled.holdings

theorem checkIdle_holdings (turn : Turn) (now : Nat) :
    (turn.checkIdle now).1.download.holdings = turn.download.holdings := by
  rcases turn.checkIdle_cases now with same | same | same <;> rw [same]
  rfl

theorem unassign_download (turn : Turn) :
    turn.unassign.download = turn.download.free turn.session := by
  cases assigned : turn.session.assigned <;> simp only [unassign, Download.free, assigned]

theorem serve_download (turn : Turn) : turn.serve.1.download = turn.download := by
  unfold serve Session.takeUpload
  cases turn.session.upload with
  | none => rfl
  | some request =>
    dsimp only
    split
    · rfl
    · split <;> rfl

theorem Checks.evolves (checks : turn.Checks piece outcome base) :
    turn.download.Evolves base.download := by
  have forgotten := turn.download.withHoldings_evolves
    (turn.download.holdings.completed_markAll piece.index false)
  cases checks with
  | unreadable fault => exact forgotten.trans (Download.record_evolves _ fault)
  | intact => exact Download.verify_evolves _ piece
  | corrupt digest => exact Download.reject_evolves _ piece _

/-- A piece whose hash is known is complete, or its blocks are missing again. -/
theorem Checks.holdings (checks : turn.Checks piece outcome base) :
    base.download.holdings = (turn.download.holdings.complete piece.index).1 ∨
      base.download.holdings = turn.download.holdings.markAll piece.index false := by
  cases checks with
  | unreadable fault => exact .inr (Download.holdings_record _ fault)
  | intact => exact .inl (Download.holdings_verify _ piece)
  | corrupt digest => exact .inr (Download.holdings_reject _ piece _)

theorem Checks.sound (checks : turn.Checks piece outcome base) (sound : turn.Sound) :
    base.Sound := by
  refine ⟨?_, ?_⟩
  · rw [checks.session, checks.evolves.torrent]
    exact sound.session
  · rw [checks.evolves.torrent]
    rcases checks.holdings with same | same <;> rw [same]
    · exact sound.holdings.complete _
    · exact sound.holdings.markAll _ _

end Turn

namespace Worker

variable {worker : Worker} {download : Download} {turn : Turn} {next : Next}

/-- The request whose block is being written. -/
def debt? (worker : Worker) : Option BlockRequest :=
  match worker.waiting with
  | some (.write request _ _) => some request
  | _ => none

/-- What the others have to respect: a block that is being written counts as asked for. -/
def peer (worker : Worker) : Peer where
  session := { worker.session with
    downloads := worker.debt?.toList ++ worker.session.downloads }
  mailbox := worker.mailbox
  log := []
  failed := false
  leaving := false

def scene (worker : Worker) (download : Download) : Scene :=
  ⟨.empty 0, download, worker.peer⟩

/-- What a handler has done when it stops. -/
inductive Acts (worker : Worker) (download : Download) : Turn → Next → Prop
  | ended {turn : Turn} {after : Scene} (result : Except Fault Flow) :
      worker.waiting = none → Course (worker.scene download) after →
      turn.download = after.download → turn.session = after.peer.session →
      turn.download.holdings = download.holdings → Acts worker download turn (.done result)
  | writes (now : Nat) {request : BlockRequest} {data : Bytes} {piece : Piece}
      {range : ByteRange} :
      worker.waiting = none → (worker.scene download).Answers request data piece range →
      Acts worker download ((worker.scene download).arrive now request data).turn
        (.wait (.write request range data))
  | reads {request : BlockRequest} {range : ByteRange} :
      worker.waiting = none →
      Acts worker download ⟨download, { worker.session with upload := none }, []⟩
        (.wait (.read request range))
  | stopped {turn : Turn} (result : Except Fault Flow) :
      worker.waiting ≠ none → turn.session = worker.session →
      (turn.download = download ∨ ∃ fault, turn.download = download.record fault) →
      Acts worker download turn (.done result)
  | stored {request : BlockRequest} {range : ByteRange} {data : Bytes} {piece : Piece}
      (result : Except Fault Flow) :
      worker.waiting = some (.write request range data) →
      download.torrent.piece? request.piece = some piece →
      (download.holdings.fetch piece request).allFetched request.piece = false →
      Acts worker download
        ((worker.turn download).withHoldings (download.holdings.fetch piece request)).fillPipeline.1
        (.done result)
  | concluded {request : BlockRequest} {range : ByteRange} {data : Bytes} {piece : Piece} :
      worker.waiting = some (.write request range data) →
      download.torrent.piece? request.piece = some piece →
      (download.holdings.fetch piece request).allFetched request.piece = true →
      Acts worker download ((worker.turn download).conclude piece request)
        (.wait (.checksum piece))
  | checked {turn base : Turn} {piece : Piece} {outcome : Except Fault Digest}
      (result : Except Fault Flow) :
      worker.waiting = some (.checksum piece) → (worker.turn download).Checks piece outcome base →
      turn = base ∨ turn = base.fillPipeline.1 → Acts worker download turn (.done result)

/-- A handler that has run to its end. -/
theorem Acts.judged {after : Scene} {result : Except Fault Flow} (idle : worker.waiting = none)
    (course : Course (worker.scene download) ((after.follow turn).judged result))
    (same : turn.download.holdings = download.holdings) :
    worker.Acts download turn (.done result) := by
  refine .ended result idle course ?_ ?_ same <;>
  · cases result with
    | error fault => rfl
    | ok flow => cases flow <;> rfl

theorem receive_acts (idle : worker.waiting = none) (sound : (worker.scene download).Sound)
    (now : Nat) (message : Message) :
    worker.Acts download ((worker.turn download).receive now message).1
      ((worker.turn download).receive now message).2 := by
  have course := Scene.receive_course sound now message
  obtain ⟨session, mailbox, sent, waiting⟩ := worker
  cases idle
  cases heard : session.receive now message with
  | mk later result =>
    cases result with
    | error violation =>
      have received := @Scene.receive_error (scene ⟨session, mailbox, sent, none⟩ download)
        now message later violation heard
      rw [received] at course
      simp only [turn, Turn.receive, heard]
      exact .ended _ rfl course rfl rfl rfl
    | ok event =>
      have received := @Scene.receive_ok (scene ⟨session, mailbox, sent, none⟩ download)
        now message later event heard
      simp only [turn, Turn.receive, heard]
      cases handled : Turn.handle ⟨download, later, []⟩ event with
      | mk after next =>
        have same : ((scene ⟨session, mailbox, sent, none⟩ download).hear later
            message).turn.handle event = (after, next) := handled
        rw [received, same] at course
        obtain ⟨-, -, size⟩ := session.receive_keeps now message
        rw [heard] at size
        have kept := @Turn.handle_holdings ⟨download, later, []⟩ (size.trans sound.sized) event
        obtain ⟨-, -, -, reacts⟩ :=
          @Turn.handle_pursues ⟨download, later, []⟩ (size.trans sound.sized) event
        rw [handled] at kept reacts
        cases next with
        | done result => exact .judged rfl course kept
        | wait awaiting =>
          cases reacts with
          | waits request data piece range block found missing inside =>
            obtain ⟨-, rfl, -⟩ := Turn.handle_write handled
            subst block
            obtain ⟨rfl, asked, sized⟩ := Session.receive_block heard
            have taken := @Scene.receive_block (scene ⟨session, mailbox, sent, none⟩ download)
              now request data sound.session.isOpen asked sized
            cases heard.symm.trans taken
            exact .writes now rfl ⟨asked, sized, found, missing, inside⟩

theorem serve_acts (idle : worker.waiting = none) :
    worker.Acts download (worker.turn download).serve.1 (worker.turn download).serve.2 := by
  have course := Course.of_moves (Scene.serve_moves (worker.scene download))
  obtain ⟨session, mailbox, sent, waiting⟩ := worker
  cases idle
  cases served : Turn.serve ⟨download, session, []⟩ with
  | mk after next =>
    have same : (scene ⟨session, mailbox, sent, none⟩ download).turn.serve = (after, next) := served
    rw [Scene.serve, Turn.serveStored, same] at course
    simp only [turn, served]
    cases next with
    | done result =>
      have kept := Turn.serve_download ⟨download, session, []⟩
      rw [served] at kept
      exact .judged rfl course (congrArg Download.holdings kept)
    | wait awaiting =>
      simp only [Turn.serve] at served
      split at served
      · cases served
      · rename_i later request taken
        obtain ⟨rfl, -⟩ := Prod.mk.inj taken
        split at served
        · cases served
        · split at served
          · cases served
          · cases served
            exact .reads rfl

theorem obey_acts (idle : worker.waiting = none) (sound : (worker.scene download).Sound) :
    worker.Acts download ((worker.turn download).obey worker.mailbox).1
      ((worker.turn download).obey worker.mailbox).2 := by
  have course := Scene.obey_course sound
  obtain ⟨session, mailbox, sent, waiting⟩ := worker
  cases idle
  have kept := @Turn.obey_holdings ⟨download, session, []⟩ sound.sized mailbox
  unfold Scene.obey at course
  unfold Turn.obey at kept ⊢
  simp only [turn, scene, peer] at course kept ⊢
  cases queued : download.roster.queued mailbox with
  | nil =>
    rw [queued] at course
    exact .ended _ rfl course rfl rfl rfl
  | cons command rest =>
    rw [queued] at course kept
    cases command with
    | disconnect => exact .ended _ rfl course rfl rfl rfl
    | have_ piece => exact .judged rfl course kept

theorem checkIdle_acts (idle : worker.waiting = none) (now : Nat) :
    worker.Acts download ((worker.turn download).checkIdle now).1
      (.done (.ok ((worker.turn download).checkIdle now).2)) := by
  have course := Course.of_moves (Scene.checkIdle_moves (worker.scene download) now)
  obtain ⟨session, mailbox, sent, waiting⟩ := worker
  cases idle
  exact .judged rfl course (Turn.checkIdle_holdings _ now)

theorem resume_acts {awaiting : Awaiting} {reply : Reply}
    (waits : worker.waiting = some awaiting)
    (resumed : (worker.turn download).resume awaiting reply = some (turn, next)) :
    worker.Acts download turn next := by
  have waiting : worker.waiting ≠ none := by
    rw [waits]
    exact nofun
  unfold Turn.resume at resumed
  split at resumed
  · rename_i request range data outcome
    cases outcome with
    | error fault =>
      cases resumed
      exact .stopped _ waiting rfl (Or.inr ⟨fault, rfl⟩)
    | ok written =>
      cases found : download.torrent.piece? request.piece with
      | none =>
        have same : (worker.turn download).download.torrent.piece? request.piece = none := found
        simp only [Turn.afterWrite, same] at resumed
        cases resumed
        exact .stopped _ waiting rfl (Or.inl rfl)
      | some piece =>
        rw [@Turn.afterWrite_ok (worker.turn download) request piece found] at resumed
        dsimp only at resumed
        split at resumed
        · rename_i all
          cases resumed
          exact .concluded waits found all
        · rename_i incomplete
          cases resumed
          exact .stored _ waits found (Bool.eq_false_iff.mpr incomplete)
  · rename_i piece outcome
    cases outcome with
    | error fault =>
      cases resumed
      exact .checked _ waits (.unreadable fault) (Or.inl rfl)
    | ok digest =>
      by_cases intact : digest = piece.hash
      · subst intact
        simp only [Turn.afterChecksum, ↓reduceIte, Turn.verified_eq] at resumed
        cases resumed
        exact .checked _ waits .intact (Or.inr rfl)
      · simp only [Turn.afterChecksum, intact, ↓reduceIte, Turn.corrupt_eq] at resumed
        cases resumed
        exact .checked _ waits (.corrupt digest intact) (Or.inr rfl)
  · rename_i request range outcome
    cases outcome with
    | error fault =>
      cases resumed
      exact .stopped _ waiting rfl (Or.inr ⟨fault, rfl⟩)
    | ok data =>
      cases resumed
      exact .stopped _ waiting rfl (Or.inl rfl)
  · cases resumed

theorem greet_acts (idle : worker.waiting = none) :
    worker.Acts download (worker.turn download).greet (.done (.ok .stay)) := by
  have course := Course.of_moves (.single (Scene.greet_move (worker.scene download)))
  obtain ⟨session, mailbox, sent, waiting⟩ := worker
  cases idle
  exact .judged rfl course rfl

theorem perform_acts (sound : worker.waiting = none → (worker.scene download).Sound) {deed : Deed}
    (performed : worker.perform download deed = some (turn, next)) :
    worker.Acts download turn next := by
  unfold perform at performed
  dsimp only at performed
  split at performed
  · rename_i waits
    exact resume_acts waits performed
  all_goals first
    | (cases performed; done)
    | rename_i idle
      obtain ⟨rfl, rfl⟩ := Prod.mk.inj (Option.some.inj performed)
  · exact greet_acts idle
  · exact receive_acts idle (sound idle) _ _
  · exact serve_acts idle
  · exact obey_acts idle (sound idle)
  · exact checkIdle_acts idle _

theorem peer_session (free : worker.debt? = none) : worker.peer.session = worker.session := by
  unfold peer
  rw [free]
  rfl

/-- Whoever does not wait for a block to be written has nothing else to be respected. -/
theorem scene_sound (idle : worker.waiting = none) (sound : (worker.turn download).Sound) :
    (worker.scene download).Sound := by
  change Turn.Sound ⟨download, worker.peer.session, []⟩
  rw [peer_session (by rw [debt?, idle])]
  exact sound

theorem Acts.evolves (acts : worker.Acts download turn next)
    (sound : (worker.turn download).Sound) : download.Evolves turn.download := by
  cases acts with
  | ended result idle course shared => exact shared ▸ course.evolves
  | writes | reads => exact .refl download
  | stopped result waiting session origin => exact (Download.recorded origin).1
  | @stored request range data piece result writing found missing =>
    exact (download.withHoldings_evolves (download.holdings.completed_fetch piece request)).trans
      (sound.fetch piece request).fill_evolves
  | concluded writing found all => exact download.fetched_evolves _ _ _
  | @checked _ base piece outcome result hashing checks after =>
    rcases after with rfl | rfl
    · exact checks.evolves
    · exact checks.evolves.trans (checks.sound sound).fill_evolves

/-- What a handler leaves behind has the shape of the torrent. -/
theorem Acts.sound (acts : worker.Acts download turn next)
    (sound : (worker.turn download).Sound) : turn.Sound := by
  cases acts with
  | @ended _ after result idle course shared session holdings =>
    have later := course.steady (scene_sound idle sound)
    exact ⟨session ▸ shared ▸ later.session, shared ▸ later.holdings⟩
  | @writes now request data piece range idle answers =>
    have same : worker.peer.session = worker.session := peer_session (by rw [debt?, idle])
    have session : worker.peer.session.Sound download.torrent.pieceCount := by
      rw [same]
      exact sound.session
    refine ⟨⟨rfl, session.sized, session.inside, session.deep, ?_⟩, sound.holdings⟩
    intro choking
    refine ⟨?_, (session.quiet choking).2⟩
    change worker.peer.session.downloads.erase request = []
    rw [(session.quiet choking).1]
    rfl
  | reads idle =>
    exact ⟨⟨sound.session.isOpen, sound.session.sized, sound.session.inside, sound.session.deep,
      sound.session.quiet⟩, sound.holdings⟩
  | stopped result waiting session origin =>
    obtain ⟨evolves, -, holdings⟩ := Download.recorded origin
    have torrent := evolves.torrent
    exact ⟨session ▸ torrent ▸ sound.session, torrent ▸ holdings ▸ sound.holdings⟩
  | @stored request range data piece result writing found missing =>
    exact (sound.fetch piece request).fill
  | concluded writing found all =>
    exact ⟨⟨sound.session.isOpen, sound.session.sized, (nomatch ·), sound.session.deep,
      fun choking => ⟨(sound.session.quiet choking).1, rfl⟩⟩, sound.holdings.fetch _ _⟩
  | @checked _ base piece outcome result hashing checks after =>
    rcases after with rfl | rfl
    · exact checks.sound sound
    · exact (checks.sound sound).fill

/-- A handler marks the block that was written for it, or settles the piece that was hashed. -/
theorem Acts.holdings (acts : worker.Acts download turn next)
    (sound : (worker.turn download).Sound) :
    turn.download.holdings = download.holdings ∨
      (∃ request range data piece, worker.waiting = some (.write request range data) ∧
        turn.download.holdings = download.holdings.fetch piece request) ∨
      ∃ piece, worker.waiting = some (.checksum piece) ∧
        (turn.download.holdings = (download.holdings.complete piece.index).1 ∨
          turn.download.holdings = download.holdings.markAll piece.index false) := by
  cases acts with
  | ended result idle course shared session same => exact .inl same
  | writes | reads => exact .inl rfl
  | stopped result waiting session origin => exact .inl (Download.recorded origin).2.2
  | @stored request range data piece result writing found missing =>
    obtain ⟨filled, -⟩ := Turn.fillPipeline_pursues (sound.fetch piece request).sized
    exact .inr (.inl ⟨request, range, data, piece, writing, filled.holdings⟩)
  | @concluded request range data piece writing found all =>
    exact .inr (.inl ⟨request, range, data, piece, writing, rfl⟩)
  | @checked _ base piece outcome result hashing checks after =>
    refine .inr (.inr ⟨piece, hashing, ?_⟩)
    rcases after with rfl | rfl
    · exact checks.holdings
    · obtain ⟨filled, -⟩ := Turn.fillPipeline_pursues (checks.sound sound).sized
      rw [filled.holdings]
      exact checks.holdings

end Worker

end BitTorrent
