import BitTorrent.Proofs.Side

/-!
Two sides of one torrent and the two byte streams between them. Neither side ever finds fault with
what the other one says.
-/

set_option autoImplicit false

namespace BitTorrent

open Relation (ReflTransGen)

/-- Two sides, and the bytes on their way to each. -/
structure Dialogue where
  near : Side
  far : Side
  toNear : Bytes
  toFar : Bytes

/-- One of the two sides does something. -/
inductive Dialogue.Step : Dialogue → Dialogue → Prop
  | near {dialogue : Dialogue} {near : Side} {toNear written : Bytes} :
      dialogue.near.Step dialogue.far.closed dialogue.toNear near toNear written →
      Step dialogue ⟨near, dialogue.far, toNear, dialogue.toFar ++ written⟩
  | far {dialogue : Dialogue} {far : Side} {toFar written : Bytes} :
      dialogue.far.Step dialogue.near.closed dialogue.toFar far toFar written →
      Step dialogue ⟨dialogue.near, far, dialogue.toNear ++ written, toFar⟩

/-- Settings that are accepted let a block of the usual size through. -/
theorem Settings.block_fits {settings : Settings} (valid : settings.validate = .ok ()) :
    blockSize + 9 ≤ settings.maxFrameLength := by
  unfold validate at valid
  repeat' split at valid
  all_goals first
    | (cases valid; done)
    | omega

/-- The words and the frames of one side are wide enough for what there is to say about a torrent:
piece numbers and positions within a piece are words of 32 bits. -/
structure Torrent.Frames (torrent : Torrent) (limit : Nat) : Prop where
  tiled : torrent.Tiled
  narrow : torrent.pieceLength < Word.bound32
  few : torrent.pieceCount ≤ Word.bound32
  block : blockSize + 9 ≤ limit
  field : 1 + Bitfield.byteCount torrent.pieceCount ≤ limit

/-- Bytes that a side with the pieces `mine` has written to one with the pieces `theirs`. The last
message may be cut off if the writer is closed. -/
inductive Speech (torrent : Torrent) (mine theirs : Nat → Prop) (ended : Bool) : Bytes → Prop
  | silent : Speech torrent mine theirs ended []
  | cut (message : Message) (count : Nat) :
      ended = true → message.Proper torrent mine theirs → count < message.encode.length →
      Speech torrent mine theirs ended (message.encode.take count)
  | whole (message : Message) {later : Bytes} :
      message.Proper torrent mine theirs → Speech torrent mine theirs ended later →
      Speech torrent mine theirs ended (message.encode ++ later)

section

variable {torrent : Torrent} {mine theirs more others : Nat → Prop} {limit : Nat} {ended : Bool}

theorem Torrent.Frames.wanted (frames : torrent.Frames limit) {request : BlockRequest}
    (block : torrent.IsBlock request) :
    request.piece < Word.bound32 ∧ request.start < Word.bound32 ∧
      request.length < Word.bound32 := by
  obtain ⟨piece, found, -, small, inside⟩ := block.located
  have bounded := frames.tiled.bounded found
  have counted : request.piece < torrent.pieceCount := (List.getElem?_eq_some_iff.mp found).1
  have narrow := frames.narrow
  have few := frames.few
  have size : blockSize < Word.bound32 := by decide
  omega

theorem Message.length_payload_le (message : Message) :
    message.payload.length ≤ 1 + message.body.length := by
  rw [payload]
  split <;> simp [Nat.add_comm]

namespace Message.Proper

variable {message : Message}

/-- The numbers in what is properly said fit into words. -/
theorem fits (frames : torrent.Frames limit) (proper : message.Proper torrent mine theirs) :
    message.Fits := by
  cases message with
  | have_ index => exact Nat.lt_of_lt_of_le proper.1 frames.few
  | request request => exact frames.wanted proper.1
  | cancel request => exact frames.wanted proper
  | piece index start data =>
    have words := frames.wanted proper
    exact ⟨words.1, words.2.1⟩
  | port number => exact proper.elim
  | _ => exact trivial

/-- Nothing that is properly said is longer than a block or the set of all pieces. -/
theorem length_body_le (proper : message.Proper torrent mine theirs) :
    message.body.length ≤ 8 + blockSize ∨
      message.body.length ≤ Bitfield.byteCount torrent.pieceCount := by
  cases message with
  | bitfield bytes =>
    obtain ⟨field, read, -⟩ := proper
    unfold Bitfield.ofBytes? at read
    split at read
    · rename_i sized
      exact .inr (Nat.le_of_eq sized)
    · cases read
  | piece index start data =>
    obtain ⟨-, -, -, small, -⟩ := Torrent.IsBlock.located proper
    refine .inl ?_
    rw [body, List.length_append, List.length_append, Bytes.length_ofNat, Bytes.length_ofNat]
    exact Nat.add_le_add_left small 8
  | port number => exact proper.elim
  | keepAlive | choke | unchoke | interested | notInterested => exact .inl (Nat.zero_le _)
  | have_ | request | cancel =>
    refine .inl ?_
    simp only [body, requestBody, List.length_append, Bytes.length_ofNat, blockSize]
    omega

/-- What is properly said can be written and read. -/
theorem sendable (frames : torrent.Frames limit) (proper : message.Proper torrent mine theirs) :
    Framing.Sendable limit message := by
  have payload := message.length_payload_le
  have block := frames.block
  have field := frames.field
  have few := frames.few
  refine ⟨proper.fits frames, ?_, ?_⟩ <;>
    rcases proper.length_body_le with short | short <;>
    simp only [Bitfield.byteCount, blockSize, Word.bound32] at * <;> omega

end Message.Proper

/-- A frame that is cut off cannot be read. -/
theorem Framing.readMessage_cut {message : Message} (sendable : Sendable limit message)
    {count : Nat} (short : count < message.encode.length) :
    readMessage limit (message.encode.take count) = (.failed (.stream .endOfStream), []) := by
  have lead : (Bytes.ofNat 4 message.payload.length).length = 4 := Bytes.length_ofNat 4 _
  rw [length_encode, frameLength] at short
  unfold readMessage Message.encode
  by_cases few : count < 4
  · have cut : ((Bytes.ofNat 4 message.payload.length ++ message.payload).take count).length =
        count := by
      rw [List.length_take, List.length_append, lead]
      omega
    rw [takeExact, if_neg (by omega)]
  · have split : (Bytes.ofNat 4 message.payload.length ++ message.payload).take count =
        Bytes.ofNat 4 message.payload.length ++ message.payload.take (count - 4) := by
      rw [List.take_append, lead, List.take_of_length_le (by omega)]
    rw [split, takeExact_append lead]
    have missing : ¬ message.payload.length ≤ (message.payload.take (count - 4)).length := by
      rw [List.length_take]
      omega
    simp only [Message.toNat_four sendable.narrow, if_neg (Nat.not_lt.mpr sendable.within),
      takeExact, if_neg missing]

namespace Speech

theorem mono {stream : Bytes} {closed : Bool} (speech : Speech torrent mine theirs ended stream)
    (grown : ∀ index, mine index → more index) (known : ∀ index, theirs index → others index)
    (ends : ended = true → closed = true) : Speech torrent more others closed stream := by
  induction speech with
  | silent => exact .silent
  | cut message count stopped proper short =>
    exact .cut message count (ends stopped) (proper.mono grown known) short
  | whole message proper _ ih => exact .whole message (proper.mono grown known) ih

theorem single {message : Message} (proper : message.Proper torrent mine theirs) :
    Speech torrent mine theirs ended message.encode := by
  have frame := Speech.whole message proper (@silent torrent mine theirs ended)
  rwa [List.append_nil] at frame

/-- The first bytes of a message, by a writer that is closed. -/
theorem front {message : Message} (proper : message.Proper torrent mine theirs) (count : Nat) :
    Speech torrent mine theirs true (message.encode.take count) := by
  by_cases short : count < message.encode.length
  · exact .cut message count rfl proper short
  · rw [List.take_of_length_le (Nat.not_lt.mp short)]
    exact single proper

/-- Who is not closed goes on behind what was said. -/
theorem append {stream more : Bytes} (speech : Speech torrent mine theirs false stream)
    (behind : Speech torrent mine theirs ended more) :
    Speech torrent mine theirs ended (stream ++ more) := by
  induction speech with
  | silent => exact behind
  | cut message count stopped => cases stopped
  | whole message proper _ ih =>
    rw [List.append_assoc]
    exact .whole message proper ih

/-- What is read next of a speech: a message, or its end. -/
theorem next (frames : torrent.Frames limit) {stream rest : Bytes} {arrival : Framing.Arrival}
    (speech : Speech torrent mine theirs ended stream)
    (read : Framing.nextMessage? limit ended stream = some (arrival, rest)) :
    Speech torrent mine theirs ended rest ∧
      ((∃ length message, arrival = .payload length (.ok message) ∧
          message.Proper torrent mine theirs) ∨
        ∃ cause, arrival = .failed (.stream cause)) := by
  unfold Framing.nextMessage? at read
  cases speech with
  | silent =>
    have nothing : Framing.readMessage limit [] = (.failed (.stream .endOfStream), []) := by
      simp [Framing.readMessage, Framing.takeExact]
    simp only [nothing] at read
    split at read
    · cases read
      exact ⟨.silent, .inr ⟨_, rfl⟩⟩
    · cases read
  | cut message count stopped proper short =>
    simp only [Framing.readMessage_cut (proper.sendable frames) short, if_pos stopped] at read
    cases read
    exact ⟨.silent, .inr ⟨_, rfl⟩⟩
  | whole message proper behind =>
    obtain ⟨fits, narrow, within⟩ := proper.sendable frames
    simp only [Framing.readMessage_encode fits narrow within] at read
    cases read
    exact ⟨behind, .inl ⟨_, message, rfl, proper⟩⟩

end Speech

end

/-- A turn that is fair to a side is so when that side has more pieces. -/
theorem Turn.Fair.learn {torrent : Torrent} {theirs others : Nat → Prop} {turn : Turn}
    (fair : turn.Fair torrent theirs) (known : ∀ index, theirs index → others index) :
    turn.Fair torrent others := by
  obtain ⟨same, size, ⟨isOpen, sized, has, chosen, asked, upload⟩, outbox⟩ := fair
  exact ⟨same, size, ⟨isOpen, sized, fun held => known _ (has held),
    fun taken => known _ (chosen taken),
    fun member => ⟨(asked member).1, known _ (asked member).2⟩, upload⟩,
    fun message inside => (outbox message inside).mono (fun _ => id) known⟩

namespace Side

/-- A side that keeps to the protocol and has nothing to say against one with the pieces
`theirs`. -/
structure Fair (torrent : Torrent) (theirs : Nat → Prop) (side : Side) : Prop where
  turn : Turn.Fair torrent theirs ⟨side.download, side.connection.session, side.connection.outbox⟩
  heard : ∀ {message}, .ok message ∈ side.connection.inbox →
    message.Proper torrent theirs side.download.Has
  blameless : ∀ {cause}, .error cause ∈ side.connection.inbox → cause.accuses = false
  failures : ∀ cause ∈ side.failures, cause.accuses = false
  waiting : ∀ {awaiting}, side.waiting = some awaiting → Next.Peaceful torrent (.wait awaiting)
  news : ∀ piece, .have_ piece ∈ side.download.roster.queued side.connection.mailbox →
    side.download.Has piece

variable {torrent : Torrent} {theirs others : Nat → Prop} {side : Side} {now : Nat} {duty : Duty}
  {deed : Deed} {turn : Turn} {next : Next}

theorem Fair.learn (fair : side.Fair torrent theirs)
    (known : ∀ index, theirs index → others index) : side.Fair torrent others :=
  ⟨fair.turn.learn known, fun member => (fair.heard member).mono known fun _ => id,
    fair.blameless, fair.failures, fair.waiting, fair.news⟩

/-- A handler of a fair side starts fairly. -/
theorem Fair.begins (fair : side.Fair torrent theirs) :
    (side.worker.turn side.download).Fair torrent theirs :=
  ⟨fair.turn.same, fair.turn.size, fair.turn.session, fun _ inside => nomatch inside⟩

/-- The shared state may change as long as complete pieces stay complete. -/
theorem Fair.evolve (fair : side.Fair torrent theirs) (download : Download)
    (same : download.torrent = side.download.torrent)
    (size : download.holdings.completed.size = side.download.holdings.completed.size)
    (grows : ∀ index, side.download.Has index → download.Has index)
    (news : ∀ piece, .have_ piece ∈ download.roster.queued side.connection.mailbox →
      download.Has piece) :
    Fair torrent theirs { side with download := download } :=
  ⟨fair.turn.evolve download same size grows,
    fun member => (fair.heard member).mono (fun _ => id) grows,
    fair.blameless, fair.failures, fair.waiting, news⟩

/-- What was properly said may be put into the inbox, and so may a failure that accuses nobody. -/
theorem Fair.hears (fair : side.Fair torrent theirs) {frame : Frame}
    (proper : ∀ message, frame = .ok message → message.Proper torrent theirs side.download.Has)
    (innocent : ∀ cause, frame = .error cause → cause.accuses = false) :
    (side.withConnection { side.connection with
      inbox := side.connection.inbox ++ [frame] }).Fair torrent theirs := by
  refine ⟨fair.turn, ?_, ?_, fair.failures, fair.waiting, fair.news⟩
  · intro message member
    rcases List.mem_append.mp member with earlier | new
    · exact fair.heard earlier
    · exact proper message (List.mem_singleton.mp new).symm
  · intro cause member
    rcases List.mem_append.mp member with earlier | new
    · exact fair.blameless earlier
    · exact innocent cause (List.mem_singleton.mp new).symm

/-- A fair side may fail as long as it accuses nobody. -/
theorem Fair.fails (fair : side.Fair torrent theirs) {cause : Failure}
    (innocent : cause.accuses = false) (closed deaf : Bool) :
    Fair torrent theirs { side with
      failures := side.failures ++ [cause], closed := closed, deaf := deaf } := by
  refine ⟨fair.turn, fair.heard, fair.blameless, ?_, fair.waiting, fair.news⟩
  intro other member
  rcases List.mem_append.mp member with earlier | new
  · exact fair.failures other earlier
  · exact List.mem_singleton.mp new ▸ innocent

theorem Fair.closes (fair : side.Fair torrent theirs) :
    Fair torrent theirs { side with closed := true } :=
  ⟨fair.turn, fair.heard, fair.blameless, fair.failures, fair.waiting, fair.news⟩

/-- A fair side stays fair when it writes the next message. -/
theorem Fair.sends (fair : side.Fair torrent theirs) {message : Message} {rest : List Message}
    (outbox : side.connection.outbox = message :: rest) (now : Nat) :
    (side.withConnection { side.connection with
      outbox := rest, session := side.connection.session.sent now }).Fair torrent theirs := by
  obtain ⟨isOpen, sized, known, chosen, asked, upload⟩ := fair.turn.session
  refine ⟨⟨fair.turn.same, fair.turn.size, ⟨isOpen, sized, known, chosen, asked, upload⟩, ?_⟩,
    fair.heard, fair.blameless, fair.failures, fair.waiting, fair.news⟩
  intro other inside
  exact fair.turn.outbox other (outbox ▸ List.mem_cons_of_mem _ inside)

/-- What a fair side may have written of the next message when it is stopped. -/
theorem Fair.stopped (fair : side.Fair torrent theirs) (count : Nat) :
    Speech torrent side.download.Has theirs true
      ((Framing.frames (side.connection.outbox.take 1)).take count) := by
  cases outbox : side.connection.outbox with
  | nil =>
    have nothing : (Framing.frames ([].take 1)).take count = [] := List.take_nil
    rw [nothing]
    exact .silent
  | cons message rest =>
    have proper := fair.turn.outbox message (outbox ▸ List.mem_cons_self)
    have single : Framing.frames ((message :: rest).take 1) = message.encode := by
      simp [Framing.frames]
    rw [single]
    exact .front proper count

theorem departed_completed (side : Side) :
    side.departed.holdings.completed = side.download.holdings.completed :=
  (side.worker.turn side.download).onDisconnect_quiet.completed

theorem departed_has (side : Side) : side.departed.Has = side.download.Has := by
  funext index
  rw [Download.Has, Holdings.has, departed_completed]
  rfl

/-- A fair side stays fair when it leaves what it shares. -/
theorem Fair.departs (fair : side.Fair torrent theirs) :
    Fair torrent theirs { side with download := side.departed } := by
  have quiet := (side.worker.turn side.download).onDisconnect_quiet
  have size := congrArg Bitfield.size side.departed_completed
  refine fair.evolve side.departed quiet.torrent size (fun _ => side.departed_has ▸ id) ?_
  intro piece queued
  have empty : side.departed.roster.queued side.connection.mailbox = [] :=
    Roster.queued_closed _ _
  rw [empty] at queued
  cases queued

theorem Fair.drifts (fair : side.Fair torrent theirs) {download : Download}
    (drifts : side.download.Drifts side.connection.mailbox download) :
    Fair torrent theirs { side with download := download } := by
  refine fair.evolve download drifts.torrent drifts.size drifts.grows ?_
  intro piece queued
  obtain ⟨news, same, fresh⟩ := drifts.news
  rw [same] at queued
  rcases List.mem_append.mp queued with earlier | new
  · exact drifts.grows piece (fair.news piece earlier)
  · exact fresh piece new

/-- A fair side stays fair when it turns to a duty. -/
theorem Fair.begin (fair : side.Fair torrent theirs) (duty : Duty) (now : Nat) :
    (side.withConnection (duty.begin now side.connection)).Fair torrent theirs := by
  cases duty with
  | frame frame =>
    exact ⟨fair.turn, fun member => fair.heard (List.mem_of_mem_tail member),
      fun member => fair.blameless (List.mem_of_mem_tail member), fair.failures, fair.waiting,
      fair.news⟩
  | command | upload | tick =>
    exact ⟨fair.turn, fair.heard, fair.blameless, fair.failures, fair.waiting, fair.news⟩

/-- A fair side stays fair when a handler ends or waits. -/
theorem Fair.after (fair : side.Fair torrent theirs) (turned : turn.Fair torrent theirs)
    (peaceful : next.Peaceful torrent)
    (grows : ∀ index, side.download.Has index → turn.download.Has index)
    (news : ∀ piece, .have_ piece ∈ turn.download.roster.queued side.connection.mailbox →
      turn.download.Has piece) :
    (side.after turn next).Fair torrent theirs where
  turn := by
    refine ⟨turned.same, turned.size, turned.session, ?_⟩
    intro message inside
    rcases List.mem_append.mp inside with earlier | new
    · exact (fair.turn.outbox message earlier).mono grows fun _ => id
    · exact turned.outbox message new
  heard := fun member => (fair.heard member).mono (fun _ => id) grows
  blameless := fair.blameless
  failures := by
    intro cause member
    rcases List.mem_append.mp member with earlier | new
    · exact fair.failures cause earlier
    · cases peaceful with
      | failed fault fine =>
        cases List.mem_singleton.mp new
        exact fine
      | ended | writes | hashes | reads => cases new
  waiting := by
    intro awaiting waits
    cases peaceful with
    | ended | failed => cases waits
    | writes request range data block =>
      cases waits
      exact .writes request range data block
    | hashes piece =>
      cases waits
      exact .hashes piece
    | reads request range block exactly =>
      cases waits
      exact .reads request range block exactly
  news := news

/-- What a handler of a fair side leaves behind: complete pieces and news of them. -/
theorem Fair.performs (fair : side.Fair torrent theirs)
    (performed : side.worker.perform side.download deed = some (turn, next)) :
    (∀ index, side.download.Has index → turn.download.Has index) ∧
      ∀ piece, .have_ piece ∈ turn.download.roster.queued side.connection.mailbox →
        turn.download.Has piece := by
  have tells := Worker.perform_tells fair.begins.sized performed
  exact ⟨fun _ => tells.grows, fun _ => tells.waiting fair.news⟩

/-- Every duty of a fair side is done without an objection. -/
theorem Fair.works (fair : side.Fair torrent theirs) (free : side.waiting = none)
    (found : side.connection.duty? side.download.roster now = some duty)
    (called : duty.deed now = .ok deed)
    (performed : side.worker.perform side.download deed = some (turn, next)) :
    turn.Fair torrent theirs ∧ next.Peaceful torrent := by
  have idle : side.worker.waiting = none := free
  rcases Connection.duty?_cases found with
    ⟨command, left, rfl, -⟩ | rfl | rfl | ⟨frame, rest, rfl, inbox, upload⟩
  · cases called
    simp only [Worker.perform, idle, Option.some.injEq] at performed
    obtain ⟨rfl, rfl⟩ := Prod.mk.inj performed
    exact Turn.obey_fair fair.begins fair.news
  · cases called
    simp only [Worker.perform, idle, Option.some.injEq] at performed
    obtain ⟨rfl, rfl⟩ := Prod.mk.inj performed
    exact Turn.serve_fair fair.begins
  · cases called
    simp only [Worker.perform, idle, Option.some.injEq] at performed
    obtain ⟨rfl, rfl⟩ := Prod.mk.inj performed
    exact ⟨Turn.checkIdle_fair fair.begins now, .ended _⟩
  · cases frame with
    | error cause => cases called
    | ok message =>
      cases called
      simp only [Worker.perform, idle, Option.some.injEq] at performed
      obtain ⟨rfl, rfl⟩ := Prod.mk.inj performed
      have proper := fair.heard (inbox ▸ List.mem_cons_self)
      exact Turn.receive_fair fair.begins upload proper now

/-- A read that failed, of a fair side, did not fail for the peer's fault. -/
theorem Fair.spoiled (fair : side.Fair torrent theirs) {cause : Failure}
    (found : side.connection.duty? side.download.roster now = some duty)
    (called : duty.deed now = .error cause) : cause.accuses = false := by
  rcases Connection.duty?_cases found with
    ⟨command, left, rfl, -⟩ | rfl | rfl | ⟨frame, left, rfl, inbox, -⟩
  · cases called
  · cases called
  · cases called
  · cases frame with
    | ok message => cases called
    | error reason =>
      cases called
      exact fair.blameless (inbox ▸ List.mem_cons_self)

/-- A handler of a fair side goes on without an objection. -/
theorem Fair.resumes (fair : side.Fair torrent theirs) {awaiting : Awaiting} {reply : Reply}
    (waits : side.waiting = some awaiting) (honest : reply.Honest awaiting)
    (performed : side.worker.perform side.download (.resume reply) = some (turn, next)) :
    turn.Fair torrent theirs ∧ next.Peaceful torrent := by
  have busy : side.worker.waiting = some awaiting := waits
  have begins := fair.begins
  have peaceful := fair.waiting waits
  simp only [Worker.perform, busy] at performed
  unfold Turn.resume at performed
  split at performed
  · rename_i request range data outcome
    obtain ⟨rfl, rfl⟩ := Prod.mk.inj (Option.some.inj performed)
    cases peaceful with
    | writes _ _ _ block =>
      refine Turn.afterWrite_fair begins block ?_
      rintro fault rfl
      exact honest
  · rename_i piece outcome
    obtain ⟨rfl, rfl⟩ := Prod.mk.inj (Option.some.inj performed)
    refine Turn.afterChecksum_fair begins piece ?_
    rintro fault rfl
    exact honest
  · rename_i request range outcome
    obtain ⟨rfl, rfl⟩ := Prod.mk.inj (Option.some.inj performed)
    cases peaceful with
    | reads _ _ block exactly =>
      refine Turn.afterRead_fair begins block ?_ ?_
      · rintro fault rfl
        exact honest
      · rintro data rfl
        exact Eq.trans honest exactly
  · cases performed

/-- What a step of a side leads to: the side stays fair, reads what is properly said, and says
nothing improper. -/
structure Proceeds (torrent : Torrent) (theirs : Nat → Prop) (gone : Bool) (side later : Side)
    (rest written : Bytes) : Prop where
  fair : later.Fair torrent theirs
  limit : later.limit = side.limit
  grows : ∀ index, side.download.Has index → later.download.Has index
  incoming : Speech torrent theirs later.download.Has gone rest
  outgoing : ∀ {stream}, Speech torrent side.download.Has theirs side.closed stream →
    Speech torrent later.download.Has theirs later.closed (stream ++ written)

variable {gone : Bool} {incoming rest written : Bytes} {later : Side}

/-- A step that reads and writes nothing. -/
theorem Proceeds.within (fair : later.Fair torrent theirs) (limit : later.limit = side.limit)
    (grows : ∀ index, side.download.Has index → later.download.Has index)
    (ends : side.closed = true → later.closed = true)
    (speech : Speech torrent theirs side.download.Has gone incoming) :
    Proceeds torrent theirs gone side later incoming [] where
  fair := fair
  limit := limit
  grows := grows
  incoming := speech.mono (fun _ => id) grows id
  outgoing := by
    intro stream said
    rw [List.append_nil]
    exact said.mono grows (fun _ => id) ends

/-- A step that reads what is properly said. -/
theorem Proceeds.heard (fair : side.Fair torrent theirs) {length : Nat} {message : Message}
    (proper : message.Proper torrent theirs side.download.Has)
    (behind : Speech torrent theirs side.download.Has gone rest) :
    Proceeds torrent theirs gone side (side.hear (.payload length (.ok message))) rest [] := by
  refine ⟨fair.hears ?_ ?_, rfl, fun _ => id, behind, fun said => ?_⟩
  · intro other same
    cases same
    exact proper
  · intro other same
    cases same
  · rw [List.append_nil]
    exact said

/-- A step that reads that the other side writes no more. -/
theorem Proceeds.ended (fair : side.Fair torrent theirs) (cause : StreamEnd)
    (behind : Speech torrent theirs side.download.Has gone rest) :
    Proceeds torrent theirs gone side (side.hear (.failed (.stream cause))) rest [] := by
  have heard : (side.withConnection { side.connection with
      inbox := side.connection.inbox ++ [.error (.stream cause)] }).Fair torrent theirs := by
    refine fair.hears ?_ ?_
    · intro other same
      cases same
    · intro other same
      cases same
      rfl
  refine ⟨heard.fails rfl _ true, rfl, fun _ => id, behind, fun said => ?_⟩
  rw [List.append_nil]
  exact said

theorem Step.proceeds (step : side.Step gone incoming later rest written)
    (fair : side.Fair torrent theirs) (frames : torrent.Frames side.limit)
    (speech : Speech torrent theirs side.download.Has gone incoming) :
    Proceeds torrent theirs gone side later rest written := by
  cases step with
  | writes now message left running free outbox =>
    refine ⟨fair.sends outbox now, rfl, fun _ => id, speech, ?_⟩
    intro stream said
    rw [running] at said
    exact said.append (.single (fair.turn.outbox message (outbox ▸ List.mem_cons_self)))
  | begins now idle fresh =>
    exact .within ⟨fair.turn, fair.heard, fair.blameless, fair.failures, fair.waiting, fair.news⟩
      rfl (fun _ => id) id speech
  | works now idle begun found called performed =>
    rename_i duty deed turn next
    obtain ⟨turned, peaceful⟩ := fair.works idle.free found called performed
    obtain ⟨grows, news⟩ := fair.performs performed
    have same : (duty.begin now side.connection).mailbox = side.connection.mailbox := by
      cases duty <;> rfl
    refine .within ((fair.begin duty now).after turned peaceful grows ?_) rfl grows ?_ speech
    · intro piece queued
      exact news piece (same ▸ queued)
    · intro closed
      cases idle.running.symm.trans closed
  | fails now idle begun found called =>
    have innocent := fair.spoiled found called
    exact .within ((fair.begin _ now).fails innocent true _) rfl (fun _ => id) (fun _ => rfl)
      speech
  | resumes reply running waits honest performed =>
    obtain ⟨turned, peaceful⟩ := fair.resumes waits honest performed
    obtain ⟨grows, news⟩ := fair.performs performed
    refine .within (fair.after turned peaceful grows news) rfl grows ?_ speech
    intro closed
    cases running.symm.trans closed
  | reads listening read =>
    obtain ⟨behind, ⟨length, message, rfl, proper⟩ | ⟨cause, rfl⟩⟩ := speech.next frames read
    · exact .heard fair proper behind
    · exact .ended fair cause behind
  | finishes running free outbox leaving =>
    exact .within fair.closes rfl (fun _ => id) (fun _ => rfl) speech
  | stops count running =>
    refine ⟨fair.closes, rfl, fun _ => id, speech, ?_⟩
    intro stream said
    rw [running] at said
    exact said.append (fair.stopped count)
  | departs ended =>
    exact .within fair.departs rfl (fun _ => side.departed_has ▸ id) id speech
  | others download drifts =>
    exact .within (fair.drifts drifts) rfl drifts.grows id speech

/-- How a side of a torrent starts out: the settings are accepted, the set of all pieces fits into a
frame, and what already waits in the mailbox is news of complete pieces. -/
inductive Starts (torrent : Torrent) : Side → Prop
  | mk (transfer : Transfer) (address : Address) (peerId : PeerId) (capabilities : Capabilities)
      (mailbox now : Nat) :
      transfer.download.torrent = torrent →
      transfer.download.holdings.completed.size = torrent.pieceCount →
      transfer.download.settings.validate = .ok () →
      1 + Bitfield.byteCount torrent.pieceCount ≤ transfer.download.settings.maxFrameLength →
      (∀ piece, .have_ piece ∈ transfer.download.roster.queued mailbox →
        transfer.download.Has piece) →
      Starts torrent (start transfer address peerId capabilities mailbox now)

/-- Whoever is connected can start out so, wherever a run of the torrent's handlers has led. -/
theorem Starts.connected {crowd : Crowd} (sound : crowd.Sound) {worker : Worker}
    (there : worker ∈ crowd.workers) {transfer : Transfer}
    (same : transfer.download = crowd.download)
    (valid : crowd.download.settings.validate = .ok ())
    (field : 1 + Bitfield.byteCount crowd.download.torrent.pieceCount ≤
      crowd.download.settings.maxFrameLength)
    (peerId : PeerId) (capabilities : Capabilities) (now : Nat) :
    Starts crowd.download.torrent
      (start transfer worker.address peerId capabilities worker.mailbox now) := by
  rw [← same] at valid field ⊢
  refine .mk _ _ _ _ _ _ rfl (same ▸ sound.sized) valid field ?_
  intro piece queued
  rw [same] at queued ⊢
  have waits : piece ∈ crowd.download.pending worker.mailbox :=
    List.mem_filterMap.mpr ⟨_, queued, rfl⟩
  exact (sound.settled worker there).informed.genuine piece (.inr (List.mem_append_right _ waits))

/-- A side starts out fairly, whatever the other one has. -/
theorem Starts.fair (starts : Starts torrent side) : side.Fair torrent theirs := by
  cases starts with
  | mk transfer address peerId capabilities mailbox now same size valid field news =>
    have sized : (Bitfield.empty transfer.download.torrent.pieceCount).size =
        torrent.pieceCount := by
      rw [Bitfield.size_empty, same]
    refine ⟨⟨same, size, ⟨rfl, sized, ?_, (nomatch ·), (nomatch ·), (nomatch ·)⟩, ?_⟩,
      (nomatch ·), (nomatch ·), fun _ inside => (nomatch inside), (nomatch ·), news⟩
    · intro index held
      exact nomatch (Bitfield.has_empty _ index).symm.trans held
    · intro message inside
      cases List.mem_singleton.mp inside
      refine ⟨transfer.download.holdings.completed, ?_, fun _ => id⟩
      rw [← size]
      exact Bitfield.ofBytes?_toBytes _

theorem Starts.frames (starts : Starts torrent side) (tiled : torrent.Tiled)
    (narrow : torrent.pieceLength < Word.bound32) (few : torrent.pieceCount ≤ Word.bound32) :
    torrent.Frames side.limit := by
  cases starts with
  | mk transfer address peerId capabilities mailbox now same size valid field news =>
    exact ⟨tiled, narrow, few, Settings.block_fits valid, field⟩

end Side

namespace Dialogue

variable {torrent : Torrent} {dialogue later : Dialogue}

/-- Both sides are fair to each other, and so is what is on its way. -/
structure Fair (torrent : Torrent) (dialogue : Dialogue) : Prop where
  near : dialogue.near.Fair torrent dialogue.far.download.Has
  far : dialogue.far.Fair torrent dialogue.near.download.Has
  nearFrames : torrent.Frames dialogue.near.limit
  farFrames : torrent.Frames dialogue.far.limit
  toNear : Speech torrent dialogue.far.download.Has dialogue.near.download.Has dialogue.far.closed
    dialogue.toNear
  toFar : Speech torrent dialogue.near.download.Has dialogue.far.download.Has dialogue.near.closed
    dialogue.toFar

/-- The same from the other side. -/
theorem Fair.swap (fair : dialogue.Fair torrent) :
    Fair torrent ⟨dialogue.far, dialogue.near, dialogue.toFar, dialogue.toNear⟩ :=
  ⟨fair.far, fair.near, fair.farFrames, fair.nearFrames, fair.toFar, fair.toNear⟩

theorem Fair.near_step (fair : dialogue.Fair torrent) {near : Side} {toNear written : Bytes}
    (step : dialogue.near.Step dialogue.far.closed dialogue.toNear near toNear written) :
    Fair torrent ⟨near, dialogue.far, toNear, dialogue.toFar ++ written⟩ := by
  have proceeds := step.proceeds fair.near fair.nearFrames fair.toNear
  exact ⟨proceeds.fair, fair.far.learn proceeds.grows, proceeds.limit ▸ fair.nearFrames,
    fair.farFrames, proceeds.incoming, proceeds.outgoing fair.toFar⟩

theorem Fair.step (fair : dialogue.Fair torrent) (step : dialogue.Step later) :
    later.Fair torrent := by
  cases step with
  | near step => exact fair.near_step step
  | far step => exact (fair.swap.near_step step).swap

theorem Fair.run (fair : dialogue.Fair torrent) (run : ReflTransGen Step dialogue later) :
    later.Fair torrent := by
  induction run with
  | refl => exact fair
  | tail _ step ih => exact ih.step step

/-- Two sides of one torrent never accuse each other: whatever they do and in whatever order, and
whatever else happens to what they share with other connections, nothing that a side reads and
no handler of it fails with a violation of the protocol. -/
theorem run_peaceful {info : Metainfo} {torrent : Torrent}
    (built : Torrent.ofMetainfo info = .ok torrent)
    (narrow : torrent.pieceLength < Word.bound32) (few : torrent.pieceCount ≤ Word.bound32)
    {near far : Side} (nearStarts : near.Starts torrent) (farStarts : far.Starts torrent)
    {later : Dialogue} (run : ReflTransGen Step ⟨near, far, [], []⟩ later) :
    ∀ cause ∈ later.near.failures ++ later.far.failures, cause.accuses = false := by
  have tiled := Torrent.ofMetainfo_tiled built
  have start : Fair torrent ⟨near, far, [], []⟩ :=
    ⟨nearStarts.fair, farStarts.fair, nearStarts.frames tiled narrow few,
      farStarts.frames tiled narrow few, .silent, .silent⟩
  have fair := start.run run
  intro cause member
  exact (List.mem_append.mp member).elim (fair.near.failures cause) (fair.far.failures cause)

end Dialogue

/-- A side that has the piece. -/
def Sample.seeder : Side :=
  .start (Transfer.new torrent (.ofContent content) {} peerId 0).recheck.1 first peerId .none 0 0

/-- A side that has nothing. -/
def Sample.leecher : Side :=
  .start (Transfer.new torrent (.empty 4) {} peerId 0) second peerId .none 0 0

set_option maxRecDepth 4096 in
theorem Sample.seeder_starts : seeder.Starts torrent :=
  .mk _ _ _ _ _ _ rfl rfl rfl (by decide) fun _ member => nomatch member

theorem Sample.leecher_starts : leecher.Starts torrent :=
  .mk _ _ _ _ _ _ rfl rfl rfl (by decide) fun _ member => nomatch member

namespace Dialogue

set_option maxRecDepth 4096 in
/-- The side that has nothing gets the piece from the other one. -/
theorem seeder_serves_leecher : ∃ later : Dialogue,
    ReflTransGen Step ⟨Sample.leecher, Sample.seeder, [], []⟩ later ∧
      later.near.download.Has 0 := by
  refine ⟨?_, ?_, ?_⟩
  rotate_left
  -- The seeder's pieces are read, and the leecher says that it is interested.
  · refine .head (.far (.writes 0 _ _ rfl rfl rfl)) ?_
    refine .head (.near (.reads rfl rfl)) ?_
    refine .head (.near (.writes 0 _ _ rfl rfl rfl)) ?_
    refine .head (.near (.begins 0 ⟨rfl, rfl, rfl, rfl⟩ rfl)) ?_
    refine .head (.near (.works 0 ⟨rfl, rfl, rfl, rfl⟩ rfl rfl rfl rfl)) ?_
    refine .head (.near (.writes 0 _ _ rfl rfl rfl)) ?_
    -- The seeder reads both messages and lets the leecher ask.
    refine .head (.far (.reads rfl rfl)) ?_
    refine .head (.far (.reads rfl rfl)) ?_
    refine .head (.far (.begins 0 ⟨rfl, rfl, rfl, rfl⟩ rfl)) ?_
    refine .head (.far (.works 0 ⟨rfl, rfl, rfl, rfl⟩ rfl rfl rfl rfl)) ?_
    refine .head (.far (.works 0 ⟨rfl, rfl, rfl, rfl⟩ rfl rfl rfl rfl)) ?_
    refine .head (.far (.writes 0 _ _ rfl rfl rfl)) ?_
    -- The leecher asks for the only block, and the seeder reads it from its store.
    refine .head (.near (.reads rfl rfl)) ?_
    refine .head (.near (.works 0 ⟨rfl, rfl, rfl, rfl⟩ rfl rfl rfl rfl)) ?_
    refine .head (.near (.writes 0 _ _ rfl rfl rfl)) ?_
    refine .head (.far (.reads rfl rfl)) ?_
    refine .head (.far (.works 0 ⟨rfl, rfl, rfl, rfl⟩ rfl rfl rfl rfl)) ?_
    refine .head (.far (.works 0 ⟨rfl, rfl, rfl, rfl⟩ rfl rfl rfl rfl)) ?_
    refine .head (.far (.resumes (.fetched (.ok Sample.content)) rfl rfl rfl rfl)) ?_
    refine .head (.far (.writes 0 _ _ rfl rfl rfl)) ?_
    -- The block is stored, and the piece is verified.
    refine .head (.near (.reads rfl rfl)) ?_
    refine .head (.near (.works 0 ⟨rfl, rfl, rfl, rfl⟩ rfl rfl rfl rfl)) ?_
    refine .head (.near (.resumes (.written (.ok ())) rfl rfl trivial rfl)) ?_
    refine .head (.near (.resumes (.hashed (.ok (sha1 Sample.content))) rfl rfl trivial rfl)) ?_
    exact .refl
  · rfl

/-- A whole exchange takes place, and nobody is accused. -/
theorem run_peaceful_exchange : ∃ later : Dialogue,
    ReflTransGen Step ⟨Sample.leecher, Sample.seeder, [], []⟩ later ∧
      later.near.download.Has 0 ∧
      ∀ cause ∈ later.near.failures ++ later.far.failures, cause.accuses = false := by
  obtain ⟨later, run, has⟩ := seeder_serves_leecher
  exact ⟨later, run, has, run_peaceful Sample.ofMetainfo_info (by decide) (by decide)
    Sample.leecher_starts Sample.seeder_starts run⟩

end Dialogue

end BitTorrent
