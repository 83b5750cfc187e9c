import BitTorrent.Proofs.Pipeline

/-!
The handlers that do not store blocks make moves only, and withdraw interest at most at their end.
-/

set_option autoImplicit false

namespace BitTorrent

open Relation (ReflTransGen)

namespace Session

theorem unchoke_eq (session : Session) :
    session.unchoke =
      ({ session with amChoking := false }, if session.amChoking then some .unchoke else none) := by
  unfold unchoke
  cases choking : session.amChoking with
  | true => rfl
  | false =>
    have same : session = { session with amChoking := false } := by rw [← choking]
    exact Prod.ext same rfl

theorem choke_eq (session : Session) :
    session.choke =
      ({ session with
          amChoking := true
          upload := if session.amChoking then session.upload else none },
        if session.amChoking then none else some .choke) := by
  unfold choke
  cases choking : session.amChoking with
  | true => simp only [↓reduceIte, ← choking]
  | false => rfl

theorem showInterest_eq (session : Session) :
    session.showInterest =
      ({ session with amInterested := true },
        if session.amInterested then none else some .interested) := by
  unfold showInterest
  cases interested : session.amInterested with
  | true => simp only [↓reduceIte, ← interested]
  | false => rfl

end Session

namespace Turn

theorem checkIdle_cases (turn : Turn) (now : Nat) :
    turn.checkIdle now = (turn, .leave) ∨ turn.checkIdle now = (turn.say .keepAlive, .stay) ∨
      turn.checkIdle now = (turn, .stay) := by
  have outcomes : ∀ first second : Bool,
      let outcome := if first then (turn, Flow.leave)
        else if second then (turn.say .keepAlive, .stay) else (turn, .stay)
      outcome = (turn, .leave) ∨ outcome = (turn.say .keepAlive, .stay) ∨
        outcome = (turn, .stay) := by
    intro first second
    cases first with
    | true => exact Or.inl rfl
    | false =>
      cases second with
      | true => exact Or.inr (Or.inl rfl)
      | false => exact Or.inr (Or.inr rfl)
  exact outcomes _ _

end Turn

namespace Scene

variable {scene : Scene}

theorem follow_silent (scene : Scene) {turn : Turn} (silent : turn.outbox = []) :
    scene.follow turn = (scene.withSession turn.session).withDownload turn.download := by
  simp only [follow, withSession, withDownload, silent, List.map_nil, List.append_nil]

theorem greet_move (scene : Scene) : Move scene scene.greet := by
  unfold greet Turn.greet
  rw [follow_say, follow_turn]
  exact .greeted

theorem checkIdle_moves (scene : Scene) (now : Nat) : Moves scene (scene.checkIdle now) := by
  unfold checkIdle
  rcases scene.turn.checkIdle_cases now with idle | idle | idle
  · rw [idle, follow_turn]
    exact .single .parted
  · rw [idle, follow_say, follow_turn]
    exact .single .kept
  · rw [idle, follow_turn]
    exact .refl

theorem serve_moves (scene : Scene) : Moves scene scene.serve := by
  have taken : scene.turn.session.takeUpload =
    ({ scene.peer.session with upload := none }, scene.peer.session.upload) := rfl
  unfold serve Turn.serveStored Turn.serve
  rw [taken]
  cases requested : scene.peer.session.upload with
  | none =>
    dsimp only [Turn.settle, settle]
    rw [follow_silent _ rfl]
    exact .refl
  | some request =>
    dsimp only
    split
    · dsimp only [Turn.settle, settle]
      rw [follow_silent _ rfl]
      exact .single .skipped
    · rename_i unchoked
      split
      · dsimp only [Turn.settle, settle]
        rw [follow_silent _ rfl]
        exact .single (.unserved scene.download (Or.inl rfl))
      · rename_i range located
        dsimp only [Turn.settle]
        cases read : scene.store.read range with
        | error fault =>
          dsimp only [Turn.afterRead, Turn.fail, settle]
          rw [follow_silent _ rfl]
          exact .single (.unserved _ (Or.inr ⟨fault, rfl⟩))
        | ok data =>
          obtain ⟨piece, found, inside⟩ := Option.bind_eq_some_iff.mp located
          exact .single (.served request piece range data requested
            (by simpa using unchoked) found inside read)

/-- What a handler of a turn does if nothing was noted. -/
theorem receive_ok {now : Nat} {message : Message} {session : Session} {event : Event}
    (heard : scene.peer.session.receive now message = (session, .ok event)) :
    scene.receive now message =
      ((scene.hear session message).logged
        (noted event ((scene.hear session message).turn.handle event).2)).settle
          (Turn.settle scene.store ((scene.hear session message).turn.handle event)) := by
  have received : scene.turn.session.receive now message = (session, .ok event) := heard
  unfold receive Turn.receiveStored Scene.heard
  rw [heard, received]
  simp only [Turn.handleStored, settle, follow, logged, hear, withSession, turn,
    List.append_assoc, List.cons_append, List.nil_append]

theorem receive_error {now : Nat} {message : Message} {session : Session} {violation : Violation}
    (heard : scene.peer.session.receive now message = (session, .error violation)) :
    scene.receive now message = (scene.hear session message).failed := by
  have received : scene.turn.session.receive now message = (session, .error violation) := heard
  unfold receive Turn.receiveStored Scene.heard
  rw [heard, received]
  simp only [settle, follow, logged, hear, withSession, turn, judged, failed, List.map_nil,
    List.append_nil]

/-- The reaction to an event that does not wait for the store. -/
theorem receive_noted {now : Nat} {message : Message} {session : Session} {event : Event}
    {outcome : Turn × Except Fault Flow}
    (heard : scene.peer.session.receive now message = (session, .ok event))
    (handled : (scene.hear session message).turn.handle event = Turn.ended outcome) :
    scene.receive now message =
      (((scene.hear session message).logged (noted event (.done outcome.2))).follow
        outcome.1).judged outcome.2 := by
  rw [receive_ok heard, handled]
  rfl

theorem receive_ended {now : Nat} {message : Message} {session : Session} {event : Event}
    {outcome : Turn × Except Fault Flow}
    (heard : scene.peer.session.receive now message = (session, .ok event))
    (handled : (scene.hear session message).turn.handle event = Turn.ended outcome)
    (silent : noted event (.done outcome.2) = []) :
    scene.receive now message =
      ((scene.hear session message).follow outcome.1).judged outcome.2 := by
  rw [receive_noted heard handled, silent, logged_nil]

/-- The events that ask for no reaction. -/
def Quiet (event : Event) : Prop :=
  event = .keepAlive ∨ event = .ignored ∨ ∃ number, event = .port number

theorem receive_quiet {now : Nat} {message : Message} {session : Session} {event : Event}
    (heard : scene.peer.session.receive now message = (session, .ok event))
    (quiet : Quiet event) : scene.receive now message = scene.hear session message := by
  have handled : (scene.hear session message).turn.handle event =
      Turn.ended (scene.hear session message).turn.stay := by
    rcases quiet with rfl | rfl | ⟨number, rfl⟩ <;> rfl
  have silent : noted event (.done (scene.hear session message).turn.stay.2) = [] := by
    rcases quiet with rfl | rfl | ⟨number, rfl⟩ <;> rfl
  rw [receive_ended heard handled silent]
  exact follow_turn _

theorem receive_awake (now : Nat) (message : Message)
    (isOpen : scene.peer.session.phase.isOpen = true) :
    scene.peer.session.receive now message = (scene.peer.session.awake now).apply message := by
  unfold Session.receive
  rw [if_pos isOpen]
  rfl

theorem receive_ignored {now : Nat} {message : Message} {event : Event}
    (isOpen : scene.peer.session.phase.isOpen = true)
    (heard : (scene.peer.session.awake now).apply message =
      (scene.peer.session.awake now, .ok event)) (quiet : Quiet event) :
    Move scene (scene.receive now message) := by
  rw [receive_quiet ((receive_awake now message isOpen).trans heard) quiet]
  exact .ignored now message event heard quiet

theorem receive_refused {now : Nat} {message : Message} {violation : Violation}
    (isOpen : scene.peer.session.phase.isOpen = true)
    (heard : (scene.peer.session.awake now).apply message =
      (scene.peer.session.awake now, .error violation)) :
    Move scene (scene.receive now message) := by
  rw [receive_error ((receive_awake now message isOpen).trans heard)]
  exact .refused now message violation heard

/-- The last part of a reaction that asks for blocks. -/
theorem fill_course {before : Scene} {turn : Turn} (moves : Moves before (scene.follow turn))
    (sound : turn.Sound) :
    Course before ((scene.follow turn.fillPipeline.1).judged turn.fillPipeline.2) := by
  have filled := Turn.fillPipeline_filled scene sound
  rw [filled.stays]
  exact .head moves filled.course

theorem receive_unchoke (sound : scene.Sound) (now : Nat) :
    Course scene (scene.receive now .unchoke) := by
  have move := @Move.unchoked scene now
  rw [receive_ended (receive_awake now .unchoke sound.session.isOpen) rfl rfl]
  refine fill_course (.single ?_) (move.steady sound)
  rwa [follow_turn]

theorem receive_choke (sound : scene.Sound) (now : Nat) :
    Moves scene (scene.receive now .choke) := by
  have move := @Move.choked scene now
  have handled : ∀ (turn : Turn) (dropped : List BlockRequest),
      turn.handle (.choked dropped) = Turn.ended turn.onChoked := fun _ _ => rfl
  rw [receive_ended (receive_awake now .choke sound.session.isOpen) (handled _ _) rfl]
  simp only [Turn.onChoked, follow_unassign, follow_turn]
  split
  · exact (ReflTransGen.single move).tail .parted
  · exact .single move

theorem receive_interested (sound : scene.Sound) (now : Nat) :
    Move scene (scene.receive now .interested) := by
  have move := @Move.interested scene now
  have handled : ∀ turn : Turn, turn.handle .interested =
      Turn.ended (turn.follow turn.session.unchoke).stay := fun _ => rfl
  have told : ∀ choking : Bool, (if choking then some Message.unchoke else none).toList.map .sent =
      if choking then [Exchange.sent .unchoke] else [] := by decide
  rw [receive_ended (receive_awake now .interested sound.session.isOpen) (handled _) rfl,
    Session.unchoke_eq]
  simp only [Turn.stay, judged, follow_follow, follow_turn, told]
  exact move

theorem receive_notInterested (sound : scene.Sound) (now : Nat) :
    Move scene (scene.receive now .notInterested) := by
  have move := @Move.notInterested scene now
  have handled : ∀ turn : Turn, turn.handle .notInterested =
      Turn.ended (turn.follow turn.session.choke).stay := fun _ => rfl
  have told : ∀ choking : Bool, (if choking then none else some Message.choke).toList.map .sent =
      if choking then [] else [Exchange.sent .choke] := by decide
  rw [receive_ended (receive_awake now .notInterested sound.session.isOpen) (handled _) rfl,
    Session.choke_eq]
  simp only [Turn.stay, judged, follow_follow, follow_turn, told]
  exact move

theorem receive_request (sound : scene.Sound) (now : Nat) (request : BlockRequest) :
    Move scene (scene.receive now (.request request)) := by
  have isOpen : scene.peer.session.phase.isOpen = true := sound.session.isOpen
  cases uploading : scene.peer.session.upload with
  | some outstanding =>
    have heard : (scene.peer.session.awake now).apply (.request request) =
        (scene.peer.session.awake now, .error (.duplicateUpload request outstanding)) := by
      simp only [Session.apply, Session.awake, uploading]
    exact receive_refused isOpen heard
  | none =>
    cases choking : scene.peer.session.amChoking with
    | true =>
      refine receive_ignored isOpen ?_ (Or.inr (Or.inl rfl))
      simp only [Session.apply, Session.awake, uploading, choking, ↓reduceIte]
    | false =>
      have heard : scene.peer.session.receive now (.request request) =
          ({ scene.peer.session.awake now with upload := some request },
            .ok (.request request)) := by
        rw [receive_awake now _ isOpen]
        simp only [Session.apply, Session.awake, uploading, choking, Bool.false_eq_true,
          ↓reduceIte]
      cases checked : Turn.checkRequest scene.download request with
      | error violation =>
        have handled : ∀ turn : Turn, turn.download = scene.download →
            turn.handle (.request request) =
              Turn.ended (turn, .error (.violation violation)) := by
          intro turn same
          simp only [Turn.handle, same, checked]
          rfl
        rw [receive_ended heard (handled _ rfl) rfl, follow_turn]
        exact .rejected now request violation checked
      | ok =>
        have handled : ∀ turn : Turn, turn.download = scene.download →
            turn.handle (.request request) = Turn.ended turn.stay := by
          intro turn same
          simp only [Turn.handle, same, checked]
        rw [receive_noted heard (handled _ rfl)]
        have accepted := Move.accepted now request choking checked
        rwa [← follow_turn (Scene.logged _ _)] at accepted

theorem receive_cancel (sound : scene.Sound) (now : Nat) (request : BlockRequest) :
    Move scene (scene.receive now (.cancel request)) := by
  have isOpen := sound.session.isOpen
  by_cases uploading : scene.peer.session.upload = some request
  · have heard : scene.peer.session.receive now (.cancel request) =
        ({ scene.peer.session.awake now with upload := none }, .ok (.cancel request)) := by
      rw [receive_awake now _ isOpen]
      simp only [Session.apply, Session.awake, uploading, ↓reduceIte]
    have handled : ∀ turn : Turn, turn.handle (.cancel request) = Turn.ended turn.stay :=
      fun _ => rfl
    rw [receive_ended heard (handled _) rfl]
    simp only [Turn.stay, judged, follow_turn]
    exact .cancelled now request uploading
  · refine receive_ignored isOpen ?_ (Or.inr (Or.inl rfl))
    simp only [Session.apply, Session.awake, uploading, ↓reduceIte]

/-- Nothing is missing from a peer if both sides have everything. -/
theorem isRedundant_missing {turn : Turn} (sound : turn.Sound)
    (redundant : turn.isRedundant = true) :
    turn.session.bitfield.hasMissingFrom turn.download.holdings.completed = false := by
  simp only [Turn.isRedundant, Bool.and_eq_true, Holdings.isComplete, Bitfield.isFull_iff]
    at redundant
  rw [Bool.eq_false_iff]
  intro missing
  obtain ⟨piece, held, absent⟩ := (Bitfield.hasMissingFrom_iff sound.sized).mp missing
  have inside := Bitfield.lt_size_of_has held
  rw [redundant.2 piece (sound.sized ▸ inside)] at absent
  cases absent

end Scene

namespace Turn

/-- Publishes the pieces that the peer has. -/
def publish (turn : Turn) : Turn :=
  { turn with
    download := turn.download.withRoster
      (turn.download.roster.updateBitfield turn.session.address turn.session.bitfield) }

/-- Declares interest. -/
def court (turn : Turn) : Turn :=
  turn.follow turn.session.showInterest

theorem onAvailability_eq (turn : Turn) :
    turn.onAvailability =
      if turn.publish.isRedundant then (turn.publish, .ok .leave)
      else if turn.session.bitfield.hasMissingFrom turn.download.holdings.completed &&
          !turn.download.isBanned turn.session.address.ip then
        if turn.publish.court.session.peerChoking then turn.publish.court.stay
        else turn.publish.court.fillPipeline
      else turn.publish.stay := rfl

end Turn

namespace Scene

variable {scene : Scene}

section

variable {now : Nat} {message : Message} {field : Bitfield}

/-- A message that changes the peer's set has come. -/
def learn (scene : Scene) (now : Nat) (message : Message) (field : Bitfield) : Scene :=
  scene.hear { scene.peer.session.awake now with bitfield := field } message

theorem learn_useless
    (kind : (∃ piece, message = .have_ piece) ∨ (∃ bytes, message = .bitfield bytes))
    (sized : field.size = scene.peer.session.bitfield.size)
    (useless : field.hasMissingFrom scene.download.holdings.completed = false ∨
      scene.download.isBanned scene.peer.session.address.ip = true) :
    Move scene ((scene.learn now message field).follow
      (scene.learn now message field).turn.publish) := by
  have move := Move.announced now message field false kind sized (fun _ => useless) (nomatch ·)
  simp only [Bool.or_false, Bool.false_and, Bool.false_eq_true, ↓reduceIte, logged_nil] at move
  rw [follow_silent _ rfl]
  exact move

theorem learn_useful
    (kind : (∃ piece, message = .have_ piece) ∨ (∃ bytes, message = .bitfield bytes))
    (sized : field.size = scene.peer.session.bitfield.size)
    (free : scene.download.isBanned scene.peer.session.address.ip = false) :
    Move scene ((scene.learn now message field).follow
      (scene.learn now message field).turn.publish.court) := by
  have move := Move.announced now message field true kind sized (nomatch ·) (fun _ => free)
  have told : ∀ interested : Bool,
      (if interested then none else some Message.interested).toList.map .sent =
        if true && !interested then [Exchange.sent .interested] else [] := by decide
  rw [Turn.court, Session.showInterest_eq, follow_follow, follow_silent _ rfl]
  simp only [told]
  simp only [Bool.or_true] at move
  exact move

theorem learn_course (sound : scene.Sound)
    (kind : (∃ piece, message = .have_ piece) ∨ (∃ bytes, message = .bitfield bytes))
    (sized : field.size = scene.peer.session.bitfield.size) :
    Course scene (((scene.learn now message field).follow
      (scene.learn now message field).turn.onAvailability.1).judged
        (scene.learn now message field).turn.onAvailability.2) := by
  rw [Turn.onAvailability_eq]
  split
  · rename_i redundant
    have steady : (scene.learn now message field).turn.Sound :=
      ⟨{ sound.session with isOpen := rfl, sized := sized.trans sound.session.sized },
        sound.holdings⟩
    have move := @learn_useless scene now message field kind sized
      (Or.inl (isRedundant_missing steady redundant))
    exact .of_moves ((ReflTransGen.single move).tail .parted)
  · split
    · rename_i useful
      simp only [Bool.and_eq_true, Bool.not_eq_true'] at useful
      have move := @learn_useful scene now message field kind sized useful.2
      split
      · exact .of_moves (.single move)
      · have steady := move.steady sound
        exact fill_course (.single move) ⟨steady.session, steady.holdings⟩
    · rename_i useless
      simp only [Bool.and_eq_true, Bool.not_eq_true', not_and, Bool.not_eq_false] at useless
      have either : field.hasMissingFrom scene.download.holdings.completed = false ∨
          scene.download.isBanned scene.peer.session.address.ip = true := by
        cases missing : field.hasMissingFrom scene.download.holdings.completed with
        | false => exact Or.inl rfl
        | true => exact Or.inr (useless missing)
      have move := @learn_useless scene now message field kind sized either
      exact .of_moves (.single move)

end

theorem receive_have (sound : scene.Sound) (now piece : Nat) :
    Course scene (scene.receive now (.have_ piece)) := by
  have isOpen : scene.peer.session.phase.isOpen = true := sound.session.isOpen
  by_cases inside : piece < scene.peer.session.bitfield.size
  · have heard : scene.peer.session.receive now (.have_ piece) =
        ({ scene.peer.session.awake now with
          bitfield := scene.peer.session.bitfield.insert piece }, .ok (.have_ piece)) := by
      rw [receive_awake now _ isOpen]
      simp only [Session.apply, Session.awake, inside, ↓reduceIte]
    have handled : ∀ turn : Turn, turn.handle (.have_ piece) = Turn.ended turn.onAvailability :=
      fun _ => rfl
    rw [receive_ended heard (handled _) rfl]
    exact learn_course sound (Or.inl ⟨piece, rfl⟩) (Bitfield.size_insert _ _)
  · have heard : (scene.peer.session.awake now).apply (.have_ piece) =
        (scene.peer.session.awake now,
          .error (.haveOutOfRange piece scene.peer.session.bitfield.size)) := by
      simp only [Session.apply, Session.awake, inside, ↓reduceIte]
    exact .of_moves (.single (receive_refused isOpen heard))

theorem receive_bitfield (sound : scene.Sound) (now : Nat) (bytes : Bytes) :
    Course scene (scene.receive now (.bitfield bytes)) := by
  have isOpen : scene.peer.session.phase.isOpen = true := sound.session.isOpen
  cases read : Bitfield.ofBytes? scene.peer.session.bitfield.size bytes with
  | some field =>
    have heard : scene.peer.session.receive now (.bitfield bytes) =
        ({ scene.peer.session.awake now with bitfield := field }, .ok .bitfield) := by
      rw [receive_awake now _ isOpen]
      simp only [Session.apply, Session.awake, read]
    have handled : ∀ turn : Turn, turn.handle .bitfield = Turn.ended turn.onAvailability :=
      fun _ => rfl
    rw [receive_ended heard (handled _) rfl]
    exact learn_course sound (Or.inr ⟨bytes, rfl⟩) (Bitfield.size_of_ofBytes? read)
  | none =>
    have heard : (scene.peer.session.awake now).apply (.bitfield bytes) =
        (scene.peer.session.awake now, .error (.bitfieldSize
          (Bitfield.byteCount scene.peer.session.bitfield.size) bytes.length)) := by
      simp only [Session.apply, Session.awake, read]
    exact .of_moves (.single (receive_refused isOpen heard))

end Scene

end BitTorrent
