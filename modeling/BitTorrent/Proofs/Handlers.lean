import BitTorrent.Proofs.Reaction

/-! Every handler makes moves only, and withdraws interest at most at its end. -/

set_option autoImplicit false

namespace BitTorrent

open Relation (ReflTransGen)

namespace Turn

variable {store written : MemoryStore} {turn : Turn} {request : BlockRequest} {range : ByteRange}
  {data : Bytes} {piece : Piece}

theorem settle_lost {fault : Fault} (refused : store.write range data = .error fault) :
    settle store (turn, .wait (.write request range data)) =
      ⟨store, { turn with download := turn.download.record fault }, .error fault⟩ := by
  simp only [settle, refused, afterWrite, fail]

theorem afterWrite_ok (found : turn.download.torrent.piece? request.piece = some piece) :
    turn.afterWrite request (.ok ()) =
      let marked := turn.withHoldings (turn.download.holdings.fetch piece request)
      if marked.download.holdings.allFetched request.piece then
        ({ marked with
            download := marked.download.releaseAll request.piece
            session := marked.session.assign none }, .wait (.checksum piece))
      else ended marked.fillPipeline := by
  cases located : piece.blockAt? request.start with
  | some block =>
    simp only [afterWrite, found, located, Holdings.fetch]
    rfl
  | none =>
    simp only [afterWrite, found, located, Holdings.fetch]
    rfl

/-- A block is stored that does not complete its piece. -/
theorem settle_stored (taken : store.write range data = .ok written)
    (found : turn.download.torrent.piece? request.piece = some piece)
    (missing : (turn.download.holdings.fetch piece request).allFetched request.piece = false) :
    let marked := turn.withHoldings (turn.download.holdings.fetch piece request)
    settle store (turn, .wait (.write request range data)) =
      ⟨written, marked.fillPipeline.1, marked.fillPipeline.2⟩ := by
  have incomplete : (turn.withHoldings (turn.download.holdings.fetch piece
      request)).download.holdings.allFetched request.piece = false := missing
  simp only [settle, taken, afterWrite_ok found, incomplete, Bool.false_eq_true, ↓reduceIte]
  rfl

/-- A block is stored that was the last of its piece. -/
theorem settle_hashed (taken : store.write range data = .ok written)
    (found : turn.download.torrent.piece? request.piece = some piece)
    (all : (turn.download.holdings.fetch piece request).allFetched request.piece = true) :
    let marked := turn.withHoldings (turn.download.holdings.fetch piece request)
    settle store (turn, .wait (.write request range data)) =
      settleChecksum written { marked with
        download := marked.download.releaseAll request.piece
        session := marked.session.assign none } piece := by
  have complete : (turn.withHoldings (turn.download.holdings.fetch piece
      request)).download.holdings.allFetched request.piece = true := all
  simp only [settle, taken, afterWrite_ok found, complete, ↓reduceIte]

theorem verified_eq (turn : Turn) (piece : Piece) :
    turn.verified piece = { turn with download := turn.download.verify piece } := rfl

theorem corrupt_eq (turn : Turn) (piece : Piece) :
    turn.corrupt piece =
      { turn with download := turn.download.reject piece turn.session.address.ip } := by
  have same :
      (turn.withHoldings (turn.download.holdings.markAll piece.index false)).download.settings =
        turn.download.settings := rfl
  unfold corrupt Download.reject
  cases policy : turn.download.settings.corruptionPolicy with
  | ban => simp only [same, policy]; rfl
  | retry => simp only [same, policy]; rfl

end Turn

/-- A block answers exactly the request for its piece and start that has its length. -/
theorem Session.answers_eq (index start : Nat) (data : Bytes) :
    answers index start data = ((⟨index, start, data.length⟩ : BlockRequest) == ·) := by
  funext request
  rw [Bool.eq_iff_iff, beq_iff_eq]
  rcases request with ⟨piece, begun, length⟩
  simp only [answers, Bool.and_eq_true, decide_eq_true_eq, BlockRequest.mk.injEq]
  constructor
  · rintro ⟨⟨rfl, rfl⟩, rfl⟩
    exact ⟨rfl, rfl, rfl⟩
  · rintro ⟨rfl, rfl, rfl⟩
    exact ⟨⟨rfl, rfl⟩, rfl⟩

namespace Scene

variable {scene : Scene} {now : Nat} {request : BlockRequest} {data : Bytes} {piece : Piece}
  {range : ByteRange} {store : MemoryStore}

/-- A block that was asked for is handed to the turn. -/
theorem receive_block (isOpen : scene.peer.session.phase.isOpen = true)
    (asked : request ∈ scene.peer.session.downloads) (sized : data.length = request.length) :
    scene.peer.session.receive now (.piece request.piece request.start data) =
      ({ scene.peer.session.awake now with
        downloads := scene.peer.session.downloads.erase request }, .ok (.block request data)) := by
  have same := Session.answers_eq request.piece request.start data
  rw [sized] at same
  have first : scene.peer.session.downloads.find? (request == ·) = some request := by
    have matching : (request == request) = true := beq_self_eq_true request
    cases found : scene.peer.session.downloads.find? (request == ·) with
    | none => exact absurd matching (List.find?_eq_none.mp found request asked)
    | some other => rw [eq_of_beq (List.find?_some found)]
  rw [receive_awake now _ isOpen]
  simp only [Session.apply, Session.awake, same, first, List.erase_eq_eraseP]

/-- What follows a block that was the last of its piece. -/
theorem hashed_course (sound : scene.Sound) (answers : scene.Answers request data piece range)
    (taken : scene.store.write range data = .ok store)
    (all : (scene.download.holdings.fetch piece request).allFetched request.piece = true) :
    Course scene ((scene.store_ now request range data).settle
      (Turn.settle scene.store
        ((scene.arrive now request data).turn, .wait (.write request range data)))) := by
  have settled := @Turn.settle_hashed scene.store store (scene.arrive now request data).turn request
    range data piece taken answers.found all
  rw [settled]
  unfold Turn.settleChecksum
  cases hashed : store.checksum piece.range with
  | error fault =>
    have move := Move.unreadable now store fault answers taken all hashed
    refine .of_moves (.single ?_)
    dsimp only [Turn.afterChecksum, Turn.fail, settle]
    rw [follow_silent _ rfl]
    exact move
  | ok digest =>
    by_cases intact : digest = piece.hash
    · subst intact
      have move := Move.completed now store answers taken all hashed
      have steady := move.steady sound
      simp only [Turn.afterChecksum, ↓reduceIte, Turn.verified_eq]
      refine fill_course (.single ?_) ⟨steady.session, steady.holdings⟩
      rw [follow_silent _ rfl]
      exact move
    · have move := Move.corrupted now store digest answers taken all hashed intact
      have steady := move.steady sound
      simp only [Turn.afterChecksum, intact, ↓reduceIte, Turn.corrupt_eq]
      refine fill_course (.single ?_) ⟨steady.session, steady.holdings⟩
      rw [follow_silent _ rfl]
      exact move

theorem stored_course (sound : scene.Sound) (answers : scene.Answers request data piece range)
    (taken : scene.store.write range data = .ok store)
    (missing : (scene.download.holdings.fetch piece request).allFetched request.piece = false) :
    Course scene ((scene.store_ now request range data).settle
      (Turn.settle scene.store
        ((scene.arrive now request data).turn, .wait (.write request range data)))) := by
  have settled := @Turn.settle_stored scene.store store (scene.arrive now request data).turn request
    range data piece taken answers.found missing
  have move := Move.stored now store answers taken missing
  have steady := move.steady sound
  rw [settled]
  refine fill_course (.single ?_) ⟨steady.session, steady.holdings⟩
  rw [follow_silent _ rfl]
  exact move

/-- What follows a block that is to be written. -/
theorem written_course (sound : scene.Sound) (answers : scene.Answers request data piece range) :
    Course scene ((scene.store_ now request range data).settle
      (Turn.settle scene.store
        ((scene.arrive now request data).turn, .wait (.write request range data)))) := by
  cases taken : scene.store.write range data with
  | error fault =>
    have move := Move.lost now fault answers taken
    rw [Turn.settle_lost taken]
    refine .of_moves (.single ?_)
    dsimp only [settle]
    rw [follow_silent _ rfl]
    exact move
  | ok store =>
    cases all : (scene.download.holdings.fetch piece request).allFetched request.piece with
    | true => exact hashed_course sound answers taken all
    | false => exact stored_course sound answers taken all

/-- The reaction to a block that is to be written. -/
theorem receive_answers (isOpen : scene.peer.session.phase.isOpen = true)
    (answers : scene.Answers request data piece range) :
    scene.receive now (.piece request.piece request.start data) =
      (scene.store_ now request range data).settle (Turn.settle scene.store
        ((scene.arrive now request data).turn, .wait (.write request range data))) := by
  obtain ⟨asked, sized, found, held, inside⟩ := answers
  have present : (scene.arrive now request data).turn.download.torrent.piece? request.piece =
    some piece := found
  have incomplete : (scene.arrive now request data).turn.download.holdings.has request.piece =
    false := held
  have waiting : (scene.arrive now request data).turn.handle (.block request data) =
      ((scene.arrive now request data).turn, .wait (.write request range data)) := by
    simp only [Turn.handle, Turn.onBlock, present, incomplete, inside, Bool.false_eq_true,
      ↓reduceIte]
  rw [receive_ok (receive_block isOpen asked sized)]
  rw [show (scene.hear _ _).turn.handle (.block request data) = _ from waiting]
  rfl

/-- The reaction to a block that need not be written. -/
theorem block_ended {outcome : Turn × Except Fault Flow}
    (isOpen : scene.peer.session.phase.isOpen = true)
    (asked : request ∈ scene.peer.session.downloads) (sized : data.length = request.length)
    (ended : (scene.arrive now request data).turn.onBlock request data = Turn.ended outcome) :
    scene.receive now (.piece request.piece request.start data) =
      ((scene.arrive now request data).follow outcome.1).judged outcome.2 := by
  have handled : (scene.arrive now request data).turn.handle (.block request data) =
      (scene.arrive now request data).turn.onBlock request data := rfl
  exact receive_ended (receive_block isOpen asked sized) (handled.trans ended) rfl

theorem stray_course (sound : scene.Sound) (asked : request ∈ scene.peer.session.downloads)
    (sized : data.length = request.length) (violation : Violation)
    (ended : (scene.arrive now request data).turn.onBlock request data =
      Turn.ended ((scene.arrive now request data).turn, .error (.violation violation)))
    (outside : ∀ piece, scene.download.torrent.piece? request.piece = some piece →
      piece.subRange? request.start request.length = none) :
    Course scene (scene.receive now (.piece request.piece request.start data)) := by
  rw [block_ended sound.session.isOpen asked sized ended, follow_turn]
  exact .of_moves (.single (.stray now request data asked sized outside))

theorem discarded_course (sound : scene.Sound) (asked : request ∈ scene.peer.session.downloads)
    (sized : data.length = request.length)
    (found : scene.download.torrent.piece? request.piece = some piece)
    (held : scene.download.holdings.has request.piece = true) :
    Course scene (scene.receive now (.piece request.piece request.start data)) := by
  have present : (scene.arrive now request data).turn.download.torrent.piece? request.piece =
    some piece := found
  have complete : (scene.arrive now request data).turn.download.holdings.has request.piece =
    true := held
  have move := Move.discarded now request data asked sized held
  have ended : (scene.arrive now request data).turn.onBlock request data =
      Turn.ended (scene.arrive now request data).turn.fillPipeline := by
    simp only [Turn.onBlock, present, complete, ↓reduceIte]
    rfl
  rw [block_ended sound.session.isOpen asked sized ended]
  refine fill_course (.single ?_) (move.steady sound)
  rwa [follow_turn]

theorem block_course (sound : scene.Sound) (asked : request ∈ scene.peer.session.downloads)
    (sized : data.length = request.length) :
    Course scene (scene.receive now (.piece request.piece request.start data)) := by
  cases found : scene.download.torrent.piece? request.piece with
  | none =>
    have absent : (scene.arrive now request data).turn.download.torrent.piece? request.piece =
      none := found
    refine stray_course sound asked sized (.unknownPiece request) ?_
      fun _ located => nomatch found.symm.trans located
    simp only [Turn.onBlock, absent]
    rfl
  | some piece =>
    have present : (scene.arrive now request data).turn.download.torrent.piece? request.piece =
      some piece := found
    cases held : scene.download.holdings.has request.piece with
    | true => exact discarded_course sound asked sized found held
    | false =>
      have incomplete : (scene.arrive now request data).turn.download.holdings.has request.piece =
        false := held
      cases inside : piece.subRange? request.start request.length with
      | none =>
        refine stray_course sound asked sized (.outsidePiece request) ?_ ?_
        · simp only [Turn.onBlock, present, incomplete, inside, Bool.false_eq_true, ↓reduceIte]
          rfl
        · intro other located
          cases found.symm.trans located
          exact inside
      | some range =>
        have answers : scene.Answers request data piece range :=
          ⟨asked, sized, found, held, inside⟩
        rw [receive_answers sound.session.isOpen answers]
        exact written_course sound answers

theorem receive_piece (sound : scene.Sound) (index start : Nat) :
    Course scene (scene.receive now (.piece index start data)) := by
  have isOpen : scene.peer.session.phase.isOpen = true := sound.session.isOpen
  cases found : scene.peer.session.downloads.find? (Session.answers index start data) with
  | none =>
    refine .of_moves (.single (receive_ignored isOpen ?_ (Or.inr (Or.inl rfl))))
    simp only [Session.apply, Session.awake, found]
  | some request =>
    have asked := List.mem_of_find?_eq_some found
    have same := List.find?_some found
    simp only [Session.answers, Bool.and_eq_true, decide_eq_true_eq] at same
    obtain ⟨⟨rfl, rfl⟩, sized⟩ := same
    exact block_course sound asked sized.symm

/-- Whatever is received, the reaction consists of moves. -/
theorem receive_course (sound : scene.Sound) (now : Nat) (message : Message) :
    Course scene (scene.receive now message) := by
  have isOpen : scene.peer.session.phase.isOpen = true := sound.session.isOpen
  cases message with
  | keepAlive => exact .of_moves (.single (receive_ignored isOpen rfl (Or.inl rfl)))
  | choke => exact .of_moves (receive_choke sound now)
  | unchoke => exact receive_unchoke sound now
  | interested => exact .of_moves (.single (receive_interested sound now))
  | notInterested => exact .of_moves (.single (receive_notInterested sound now))
  | have_ piece => exact receive_have sound now piece
  | bitfield bytes => exact receive_bitfield sound now bytes
  | request request => exact .of_moves (.single (receive_request sound now request))
  | piece index start data => exact receive_piece sound index start
  | cancel request => exact .of_moves (.single (receive_cancel sound now request))
  | port number =>
    exact .of_moves (.single (receive_ignored isOpen rfl (Or.inr (Or.inr ⟨number, rfl⟩))))

end Scene

namespace Turn

theorem loseInterest_calm {turn : Turn} (calm : turn.session.amInterested = false) :
    turn.loseInterest = turn := by
  unfold loseInterest Session.withdrawInterest
  split
  · rw [calm]
    rfl
  · rfl

theorem loseInterest_course (scene : Scene) {turn : Turn} (sound : turn.Sound)
    (unassigned : turn.session.downloads = [] → turn.session.assigned = none) :
    Course (scene.follow turn) (scene.follow turn.loseInterest) := by
  cases interested : turn.session.amInterested with
  | false =>
    rw [loseInterest_calm interested]
    exact .of_moves .refl
  | true =>
    unfold loseInterest
    split
    · rename_i useless
      simp only [Bool.and_eq_true, List.isEmpty_iff, Bool.not_eq_true'] at useless
      have idle : (scene.follow turn).Idle := by
        intro piece held
        cases complete : (scene.follow turn).download.holdings.has piece with
        | true => exact Or.inl rfl
        | false =>
          have missing := (Bitfield.hasMissingFrom_iff sound.sized).mpr ⟨piece, held, complete⟩
          exact nomatch useless.2.symm.trans missing
      refine ⟨scene.follow turn, .refl, Or.inr ?_⟩
      exact {
        interested := interested
        noRequest := useless.1
        unassigned := unassigned useless.1
        idle := Or.inr idle
        result := by
          simp only [Session.withdrawInterest, interested, ↓reduceIte, Scene.follow_follow]
          rfl }
    · exact .of_moves .refl

/-- Interest that is withdrawn with the last request is not withdrawn again. -/
theorem Filled.loseInterest_course {scene : Scene} {turn : Turn}
    {outcome : Turn × Except Fault Flow} (filled : Filled scene turn outcome)
    (sound : turn.Sound) :
    Course (scene.follow turn) (scene.follow outcome.1.loseInterest) := by
  obtain ⟨middle, moves, finish⟩ := filled.course
  rcases finish with rfl | withdrawal
  · have steady := (sound.moves moves).1
    refine .head moves (Turn.loseInterest_course scene steady ?_)
    intro empty
    rcases filled.ended with choking | asked | unassigned
    · exact (steady.session.quiet choking).2
    · exact absurd empty asked
    · exact unassigned
  · have calm : (scene.follow outcome.1).peer.session.amInterested = false := by
      rw [withdrawal.result]
      rfl
    rw [loseInterest_calm calm]
    exact ⟨middle, moves, Or.inr withdrawal⟩

end Turn

namespace Scene

variable {scene : Scene}

theorem cancelRequests_move (scene : Scene) (piece : Nat) :
    Move scene (scene.follow (scene.turn.cancelRequests piece)) := by
  have dropped : scene.follow { scene.turn with
      session := scene.turn.session.dropRequests piece
      outbox := scene.turn.outbox ++
        (scene.turn.session.downloads.filter (·.piece = piece)).map Message.cancel } =
      scene.drop piece := by
    simp only [follow, drop, logged, turn, withSession, List.nil_append, List.map_map]
    rfl
  have kept : (scene.turn.session.dropRequests piece).assigned = scene.peer.session.assigned := rfl
  unfold Turn.cancelRequests
  dsimp only
  rw [follow_say, kept]
  by_cases assigned : scene.peer.session.assigned = some piece
  · rw [if_pos assigned, follow_unassign, dropped]
    exact .recalled piece assigned
  · rw [if_neg assigned, dropped]
    exact .told piece assigned

theorem localHave_course (sound : scene.Sound) (piece : Nat) :
    Course scene (scene.localHave piece) := by
  have move := cancelRequests_move scene piece
  have steady := move.steady sound
  have later : (scene.turn.cancelRequests piece).Sound := ⟨steady.session, steady.holdings⟩
  unfold localHave Turn.onLocalHave
  dsimp only
  split
  · exact .of_moves ((ReflTransGen.single move).tail .parted)
  · split
    · rename_i choking
      refine .head (.single move) (Turn.loseInterest_course scene later ?_)
      exact fun _ => (later.session.quiet choking).2
    · have filled := Turn.fillPipeline_filled scene later
      split
      · rename_i failed
        have stays := filled.stays
        rw [failed] at stays
        cases stays
      · rename_i turn flow ended
        have course := filled.loseInterest_course later
        rw [ended] at course
        exact .head (.single move) course

theorem obey_course (sound : scene.Sound) : Course scene scene.obey := by
  unfold obey
  split
  · exact .of_moves .refl
  · rename_i command rest queued
    have move := @Move.obeyed scene rest
    cases command with
    | have_ piece =>
      exact .head (.single move) (localHave_course (move.steady sound) piece)
    | disconnect => exact .of_moves ((ReflTransGen.single move).tail .parted)

end Scene

end BitTorrent
