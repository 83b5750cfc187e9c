import BitTorrent.Proofs.Worker

/-!
What two sides of one torrent say to each other. A side that asks only for blocks of pieces that the
other one has, and announces only pieces that are complete, is not objected to, and it has nothing
to object to either.
-/

set_option autoImplicit false

namespace BitTorrent

/-- Whether a fault says that the peer has broken the protocol. -/
def Fault.accuses (fault : Fault) : Bool :=
  fault.report.isViolation

/-- Whether a piece is complete. -/
def Download.Has (download : Download) (piece : Nat) : Prop :=
  download.holdings.has piece = true

/-- What a side may say that has the pieces `mine` to one that has the pieces `theirs`. -/
def Message.Proper (torrent : Torrent) (mine theirs : Nat → Prop) : Message → Prop
  | .have_ index => index < torrent.pieceCount ∧ mine index
  | .bitfield bytes => ∃ field, Bitfield.ofBytes? torrent.pieceCount bytes = some field ∧
      ∀ index, field.has index = true → mine index
  | .request wanted => torrent.IsBlock wanted ∧ theirs wanted.piece
  | .cancel wanted => torrent.IsBlock wanted
  | .piece index start data => torrent.IsBlock ⟨index, start, data.length⟩
  | .port _ => False
  | _ => True

theorem Message.Proper.mono {torrent : Torrent} {mine theirs more others : Nat → Prop}
    {message : Message} (proper : message.Proper torrent mine theirs)
    (grown : ∀ index, mine index → more index) (known : ∀ index, theirs index → others index) :
    message.Proper torrent more others := by
  cases message with
  | have_ index => exact ⟨proper.1, grown index proper.2⟩
  | bitfield bytes =>
    obtain ⟨field, read, held⟩ := proper
    exact ⟨field, read, fun index inside => grown index (held index inside)⟩
  | request request => exact ⟨proper.1, known _ proper.2⟩
  | _ => exact proper

/-- What a side that has the pieces `mine` may be told. -/
def Event.Proper (torrent : Torrent) (mine : Nat → Prop) : Event → Prop
  | .request wanted => torrent.IsBlock wanted ∧ mine wanted.piece
  | .block wanted _ => torrent.IsBlock wanted
  | _ => True

/-- How a handler ends that objects to nothing. -/
inductive Next.Peaceful (torrent : Torrent) : Next → Prop
  | ended (flow : Flow) : Peaceful torrent (.done (.ok flow))
  | failed (fault : Fault) : fault.accuses = false → Peaceful torrent (.done (.error fault))
  | writes (request : BlockRequest) (range : ByteRange) (data : Bytes) :
      torrent.IsBlock request → Peaceful torrent (.wait (.write request range data))
  | hashes (piece : Piece) : Peaceful torrent (.wait (.checksum piece))
  | reads (request : BlockRequest) (range : ByteRange) :
      torrent.IsBlock request → range.length = request.length →
      Peaceful torrent (.wait (.read request range))

/-- A block that a piece has can be asked for. -/
theorem Torrent.IsBlock.located {torrent : Torrent} {request : BlockRequest}
    (block : torrent.IsBlock request) :
    ∃ piece, torrent.piece? request.piece = some piece ∧ 0 < request.length ∧
      request.length ≤ blockSize ∧ request.start + request.length ≤ piece.length := by
  obtain ⟨piece, block, found, member, start, length⟩ := block
  obtain ⟨number, inside, rfl⟩ := Piece.mem_blocks.mp member
  obtain ⟨positive, within⟩ := Piece.block_within inside
  rw [start, length]
  exact ⟨piece, found, positive, Nat.min_le_left _ _, within⟩

/-- A session with a side that has the pieces `theirs`. -/
structure Session.Fair (torrent : Torrent) (theirs : Nat → Prop) (session : Session) : Prop where
  isOpen : session.phase.isOpen = true
  sized : session.bitfield.size = torrent.pieceCount
  known : ∀ {index}, session.bitfield.has index = true → theirs index
  chosen : ∀ {index}, session.assigned = some index → theirs index
  asked : ∀ {request}, request ∈ session.downloads →
    torrent.IsBlock request ∧ theirs request.piece
  upload : ∀ {request}, session.upload = some request → torrent.IsBlock request

/-- A turn of a connection with a side that has the pieces `theirs`. -/
structure Turn.Fair (torrent : Torrent) (theirs : Nat → Prop) (turn : Turn) : Prop where
  same : turn.download.torrent = torrent
  size : turn.download.holdings.completed.size = torrent.pieceCount
  session : turn.session.Fair torrent theirs
  outbox : ∀ message ∈ turn.outbox, message.Proper torrent turn.download.Has theirs

section

variable {torrent : Torrent} {mine theirs : Nat → Prop}

/-- What is properly said is understood. -/
theorem Session.receive_fair {session : Session} (fair : session.Fair torrent theirs)
    (idle : session.upload = none) {message : Message}
    (proper : message.Proper torrent theirs mine) (now : Nat) :
    ∃ later event, session.receive now message = (later, .ok event) ∧
      later.Fair torrent theirs ∧ event.Proper torrent mine := by
  obtain ⟨isOpen, sized, known, chosen, asked, upload⟩ := fair
  unfold receive
  rw [if_pos isOpen]
  cases message with
  | keepAlive => exact ⟨_, _, rfl, ⟨rfl, sized, known, chosen, asked, upload⟩, trivial⟩
  | choke =>
    exact ⟨_, _, rfl, ⟨rfl, sized, known, chosen, fun member => absurd member List.not_mem_nil,
      upload⟩, trivial⟩
  | unchoke => exact ⟨_, _, rfl, ⟨rfl, sized, known, chosen, asked, upload⟩, trivial⟩
  | interested => exact ⟨_, _, rfl, ⟨rfl, sized, known, chosen, asked, upload⟩, trivial⟩
  | notInterested => exact ⟨_, _, rfl, ⟨rfl, sized, known, chosen, asked, upload⟩, trivial⟩
  | have_ piece =>
    obtain ⟨inside, has⟩ := proper
    rw [← sized] at inside
    simp only [apply, if_pos inside]
    refine ⟨_, _, rfl, ⟨rfl, (Bitfield.size_insert _ _).trans sized, ?_, chosen, asked, upload⟩,
      trivial⟩
    intro index held
    rw [Bitfield.has_insert] at held
    by_cases same : piece = index
    · exact same ▸ has
    · simp [same] at held
      exact known held
  | bitfield bytes =>
    obtain ⟨field, read, held⟩ := proper
    rw [← sized] at read
    simp only [apply, read]
    exact ⟨_, _, rfl, ⟨rfl, (Bitfield.size_of_ofBytes? read).trans sized, fun {index} inside =>
      held index inside, chosen, asked, upload⟩, trivial⟩
  | request request =>
    simp only [apply, idle]
    split
    · exact ⟨_, _, rfl, ⟨rfl, sized, known, chosen, asked, fun {_} open_ => upload
        (idle ▸ open_)⟩, trivial⟩
    · refine ⟨_, _, rfl, ⟨rfl, sized, known, chosen, asked, ?_⟩, proper⟩
      rintro other same
      cases same
      exact proper.1
  | piece index start data =>
    simp only [apply]
    split
    · rename_i request found
      refine ⟨_, _, rfl, ⟨rfl, sized, known, chosen, ?_, upload⟩, ?_⟩
      · exact fun member => asked (List.mem_of_mem_eraseP member)
      · exact (asked (List.mem_of_find?_eq_some found)).1
    · exact ⟨_, _, rfl, ⟨rfl, sized, known, chosen, asked, upload⟩, trivial⟩
  | cancel request =>
    simp only [apply]
    split
    · refine ⟨_, _, rfl, ⟨rfl, sized, known, chosen, asked, ?_⟩, trivial⟩
      intro other same
      cases same
    · exact ⟨_, _, rfl, ⟨rfl, sized, known, chosen, asked, upload⟩, trivial⟩
  | port number => exact proper.elim

namespace Turn

variable {turn after : Turn}

/-- A request for a block of a complete piece can be served. -/
theorem checkRequest_block {download : Download} {request : BlockRequest}
    (block : download.torrent.IsBlock request) (has : download.Has request.piece) :
    checkRequest download request = .ok () := by
  obtain ⟨piece, found, positive, small, inside⟩ := block.located
  have bounded : ¬ (request.length = 0 ∨ maxRequest < request.length) := by
    unfold maxRequest
    unfold blockSize at small
    omega
  have held : download.holdings.has request.piece = true := has
  simp only [checkRequest, if_neg bounded, found, held, Piece.subRange?, if_pos inside,
    Bool.not_true, Bool.false_eq_true, ↓reduceIte, Option.isNone_some]

theorem Courts.proper (fair : turn.Fair torrent theirs) {message : Message}
    (courts : turn.Courts message) : message.Proper torrent turn.download.Has theirs := by
  have wanted : ∀ {request}, turn.Wants request →
      torrent.IsBlock request ∧ theirs request.piece := by
    rintro request ⟨block, -, taken | held⟩
    · exact ⟨fair.same ▸ block, fair.session.chosen taken⟩
    · exact ⟨fair.same ▸ block, fair.session.known held⟩
  cases courts with
  | interested | notInterested => exact trivial
  | request request wants => exact wanted wants
  | cancel request asked =>
    exact asked.elim (fun inside => (fair.session.asked inside).1) fun wants => (wanted wants).1

/-- The shared state may change as long as complete pieces stay complete. -/
theorem Fair.evolve (fair : turn.Fair torrent theirs) (download : Download)
    (same : download.torrent = turn.download.torrent)
    (size : download.holdings.completed.size = turn.download.holdings.completed.size)
    (grows : ∀ index, turn.download.Has index → download.Has index) :
    Fair torrent theirs { turn with download := download } where
  same := same.trans fair.same
  size := size.trans fair.size
  session := fair.session
  outbox := fun message inside => (fair.outbox message inside).mono grows fun _ => id

/-- The session may change as long as it stays fair. -/
theorem Fair.withSession (fair : turn.Fair torrent theirs) (session : Session)
    (later : session.Fair torrent theirs) :
    Fair torrent theirs { turn with session := session } :=
  ⟨fair.same, fair.size, later, fair.outbox⟩

theorem Fair.say (fair : turn.Fair torrent theirs) {message : Message}
    (proper : message.Proper torrent turn.download.Has theirs) :
    (turn.say message).Fair torrent theirs := by
  refine ⟨fair.same, fair.size, fair.session, ?_⟩
  intro other inside
  rcases List.mem_append.mp inside with earlier | new
  · exact fair.outbox other earlier
  · exact List.mem_singleton.mp new ▸ proper

theorem Fair.sized (fair : turn.Fair torrent theirs) : turn.Sized :=
  fair.session.sized.trans fair.size.symm

/-- Whoever gets on with fetching stays fair. -/
theorem Pursues.fair (fair : turn.Fair torrent theirs) (pursues : turn.Pursues after) :
    after.Fair torrent theirs := by
  have wanted : ∀ {request}, turn.Wants request →
      torrent.IsBlock request ∧ theirs request.piece :=
    fun wants => Courts.proper fair (.request _ wants)
  have has : after.download.Has = turn.download.Has := by
    funext index
    rw [Download.Has, Download.Has, pursues.holdings]
  refine ⟨pursues.torrent.trans fair.same, ?_, ⟨?_, ?_, ?_, ?_, ?_, ?_⟩, ?_⟩
  · rw [pursues.holdings]
    exact fair.size
  · rw [pursues.session]
    exact fair.session.isOpen
  · rw [pursues.bitfield]
    exact fair.session.sized
  · rw [pursues.bitfield]
    exact fair.session.known
  · intro index taken
    exact (pursues.chosen taken).elim fair.session.chosen fun lacks => fair.session.known lacks.1
  · intro request inside
    exact (pursues.opened inside).elim fair.session.asked wanted
  · rw [pursues.session]
    exact fair.session.upload
  · obtain ⟨said, same, courts⟩ := pursues.outbox
    intro message inside
    rw [same] at inside
    rw [has]
    exact (List.mem_append.mp inside).elim (fair.outbox message)
      fun new => Courts.proper fair (courts message new)

theorem Basis.fair (fair : turn.Fair torrent theirs) {event : Event} {base : Turn}
    (basis : turn.Basis event base) : base.Fair torrent theirs := by
  obtain ⟨isOpen, sized, known, chosen, asked, upload⟩ := fair.session
  cases basis with
  | same => exact fair
  | published => exact fair.evolve _ rfl rfl fun _ => id
  | unchoked =>
    have later : Session.Fair torrent theirs { turn.session with amChoking := false } :=
      ⟨isOpen, sized, known, chosen, asked, upload⟩
    rw [Session.unchoke_eq]
    split
    · exact (fair.withSession _ later).say trivial
    · exact fair.withSession _ later
  | choked =>
    rw [Session.choke_eq]
    split
    · exact fair.withSession _ ⟨isOpen, sized, known, chosen, asked, upload⟩
    · have later : Session.Fair torrent theirs
          { turn.session with amChoking := true, upload := none } :=
        ⟨isOpen, sized, known, chosen, asked, (nomatch ·)⟩
      exact (fair.withSession _ later).say trivial

/-- Whoever is properly told something objects to nothing. -/
theorem handle_fair (fair : turn.Fair torrent theirs) {event : Event}
    (proper : event.Proper torrent turn.download.Has) :
    (turn.handle event).1.Fair torrent theirs ∧ (turn.handle event).2.Peaceful torrent := by
  obtain ⟨base, basis, pursues, reacts⟩ := handle_pursues fair.sized event
  refine ⟨pursues.fair (basis.fair fair), ?_⟩
  generalize (turn.handle event).2 = next at reacts
  cases reacts with
  | ended flow => exact .ended flow
  | objected violation objects =>
    cases objects with
    | request refused =>
      have fine := checkRequest_block (fair.same.symm ▸ proper.1) proper.2
      exact nomatch refused.symm.trans fine
    | block data outside =>
      obtain ⟨piece, found, -, -, inside⟩ := Torrent.IsBlock.located proper
      rw [← fair.same] at found
      have located := outside piece found
      rw [Piece.subRange?, if_pos inside] at located
      cases located
  | waits request data piece range same =>
    subst same
    exact .writes request range data proper

theorem receive_fair (fair : turn.Fair torrent theirs) (idle : turn.session.upload = none)
    {message : Message} (proper : message.Proper torrent theirs turn.download.Has) (now : Nat) :
    (turn.receive now message).1.Fair torrent theirs ∧
      (turn.receive now message).2.Peaceful torrent := by
  obtain ⟨later, event, received, fairer, told⟩ := Session.receive_fair fair.session idle proper now
  unfold receive
  rw [received]
  exact handle_fair (fair.withSession _ fairer) told

theorem record_fair (fair : turn.Fair torrent theirs) (fault : Fault) :
    Fair torrent theirs { turn with download := turn.download.record fault } := by
  unfold Download.record
  split
  · exact fair.evolve _ rfl rfl fun _ => id
  · exact fair

theorem afterWrite_fair (fair : turn.Fair torrent theirs) {request : BlockRequest}
    (block : torrent.IsBlock request) {outcome : Except Fault Unit}
    (store : ∀ fault, outcome = .error fault → fault.accuses = false) :
    (turn.afterWrite request outcome).1.Fair torrent theirs ∧
      (turn.afterWrite request outcome).2.Peaceful torrent := by
  obtain ⟨base, stores, pursues⟩ := afterWrite_pursues fair.sized request outcome
  generalize (turn.afterWrite request outcome).2 = next at stores
  have marked : ∀ piece, Fair torrent theirs
      (turn.withHoldings (turn.download.holdings.fetch piece request)) := by
    intro piece
    have same := Holdings.completed_fetch turn.download.holdings piece request
    refine fair.evolve _ rfl (congrArg Bitfield.size same) ?_
    intro index held
    unfold Download.Has Holdings.has at held ⊢
    exact same ▸ held
  cases stores with
  | lost fault => exact ⟨pursues.fair (record_fair fair fault), .failed fault (store fault rfl)⟩
  | unknown missing =>
    obtain ⟨piece, found, -⟩ := block.located
    rw [fair.same, found] at missing
    cases missing
  | stored piece => exact ⟨pursues.fair (marked piece), .ended .stay⟩
  | last piece =>
    obtain ⟨isOpen, sized, known, -, asked, upload⟩ := fair.session
    have released := (marked piece).evolve ((turn.download.withHoldings
      (turn.download.holdings.fetch piece request)).releaseAll request.piece) rfl rfl fun _ => id
    have concluded := released.withSession (turn.session.assign none)
      ⟨isOpen, sized, known, (nomatch ·), asked, upload⟩
    exact ⟨pursues.fair concluded, .hashes piece⟩

theorem afterChecksum_fair (fair : turn.Fair torrent theirs) (piece : Piece)
    {outcome : Except Fault Digest}
    (store : ∀ fault, outcome = .error fault → fault.accuses = false) :
    (turn.afterChecksum piece outcome).1.Fair torrent theirs ∧
      Next.Peaceful torrent (.done (turn.afterChecksum piece outcome).2) := by
  obtain ⟨base, checks, pursues, ends⟩ := afterChecksum_pursues fair.sized piece outcome
  have fairer : base.Fair torrent theirs := by
    cases checks with
    | unreadable fault =>
      have forgotten : Fair torrent theirs (turn.withHoldings
          (turn.download.holdings.markAll piece.index false)) := fair.evolve _ rfl rfl fun _ => id
      exact record_fair forgotten fault
    | intact =>
      have evolves := turn.download.verify_evolves piece
      exact fair.evolve _ evolves.torrent evolves.size fun _ => evolves.complete
    | corrupt digest =>
      have evolves := turn.download.reject_evolves piece turn.session.address.ip
      exact fair.evolve _ evolves.torrent evolves.size fun _ => evolves.complete
  refine ⟨pursues.fair fairer, ?_⟩
  rcases ends with ⟨fault, failed, same⟩ | stays
  · rw [same]
    exact .failed fault (store fault failed)
  · rw [stays]
    exact .ended .stay

theorem afterRead_fair (fair : turn.Fair torrent theirs) {request : BlockRequest}
    (block : torrent.IsBlock request) {outcome : Except Fault Bytes}
    (store : ∀ fault, outcome = .error fault → fault.accuses = false)
    (exactly : ∀ data, outcome = .ok data → data.length = request.length) :
    (turn.afterRead request outcome).1.Fair torrent theirs ∧
      Next.Peaceful torrent (.done (turn.afterRead request outcome).2) := by
  cases outcome with
  | error fault => exact ⟨record_fair fair fault, .failed fault (store fault rfl)⟩
  | ok data =>
    refine ⟨fair.say ?_, .ended .stay⟩
    change torrent.IsBlock ⟨request.piece, request.start, data.length⟩
    rw [exactly data rfl]
    exact block

theorem serve_fair (fair : turn.Fair torrent theirs) :
    turn.serve.1.Fair torrent theirs ∧ turn.serve.2.Peaceful torrent := by
  obtain ⟨isOpen, sized, known, chosen, asked, upload⟩ := fair.session
  have dropped := fair.withSession { turn.session with upload := none }
    ⟨isOpen, sized, known, chosen, asked, (nomatch ·)⟩
  have taken : turn.session.takeUpload = ({ turn.session with upload := none },
    turn.session.upload) := rfl
  unfold serve
  rw [taken]
  cases open_ : turn.session.upload with
  | none => exact ⟨fair, .ended .stay⟩
  | some request =>
    dsimp only
    split
    · exact ⟨dropped, .ended .stay⟩
    · obtain ⟨piece, found, -, -, inside⟩ := (upload open_).located
      rw [← fair.same] at found
      simp only [found, Option.bind_some, Piece.subRange?, if_pos inside]
      exact ⟨dropped, .reads request _ (upload open_) rfl⟩

theorem obey_fair (fair : turn.Fair torrent theirs) {mailbox : Nat}
    (news : ∀ piece, .have_ piece ∈ turn.download.roster.queued mailbox →
      turn.download.Has piece) :
    (turn.obey mailbox).1.Fair torrent theirs ∧ (turn.obey mailbox).2.Peaceful torrent := by
  unfold obey
  split
  · exact ⟨fair, .ended .stay⟩
  · exact ⟨fair.evolve _ rfl rfl fun _ => id, .ended .leave⟩
  · rename_i piece rest queued
    have taken : (turn.take mailbox rest).Fair torrent theirs := fair.evolve _ rfl rfl fun _ => id
    have has := news piece (queued ▸ List.mem_cons_self)
    obtain ⟨middle, before, later, flow, stays⟩ := onLocalHave_pursues taken.sized piece
    have fairer := before.fair taken
    have held : middle.download.Has piece := by
      rw [Download.Has, before.holdings]
      exact has
    have inside : piece < torrent.pieceCount := fair.size ▸ Bitfield.lt_size_of_has has
    have proper : (Message.have_ piece).Proper torrent middle.download.Has theirs :=
      ⟨inside, held⟩
    refine ⟨later.fair (fairer.say proper), ?_⟩
    rw [ended, stays]
    exact .ended flow

theorem checkIdle_fair (fair : turn.Fair torrent theirs) (now : Nat) :
    (turn.checkIdle now).1.Fair torrent theirs := by
  rcases turn.checkIdle_cases now with idle | idle | idle <;> rw [idle]
  · exact fair
  · exact fair.say trivial
  · exact fair

end Turn

end

end BitTorrent
