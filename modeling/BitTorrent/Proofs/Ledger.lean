import BitTorrent.Proofs.Reachable

/-!
A peer can only make us store what it was asked for. The log of a connection tells which requests
are open, and a block is written only for one of them.
-/

set_option autoImplicit false

namespace BitTorrent

/-- What an entry of a log does to the open requests: we send a request or cancel one, the peer
answers one or drops them all by choking us. -/
def Exchange.track (requests : List BlockRequest) : Exchange → List BlockRequest
  | .sent (.request request) => requests ++ [request]
  | .sent (.cancel request) => requests.erase request
  | .received (.piece index start data) => requests.erase ⟨index, start, data.length⟩
  | .received .choke => []
  | _ => requests

/-- The requests that are open after what a log tells. -/
def openRequests (log : List Exchange) : List BlockRequest :=
  log.foldl Exchange.track []

/-- Whether an entry asks for a block. -/
def Exchange.asksFor (request : BlockRequest) (entry : Exchange) : Bool :=
  entry = .sent (.request request)

/-- Whether an entry writes the answer to a request. -/
def Exchange.writesFor (request : BlockRequest) : Exchange → Bool
  | .wrote answered _ _ => answered = request
  | _ => false

/-- A request for exactly one block of a piece. -/
def Torrent.IsBlock (torrent : Torrent) (request : BlockRequest) : Prop :=
  ∃ piece block, torrent.piece? request.piece = some piece ∧ block ∈ piece.blocks ∧
    request.start = block.offset ∧ request.length = block.length

theorem openRequests_append (log entries : List Exchange) :
    openRequests (log ++ entries) = entries.foldl Exchange.track (openRequests log) :=
  List.foldl_append

/-- Erasing the members that satisfy a condition leaves the others. -/
theorem foldl_erase_filter (requests : List BlockRequest) (condition : BlockRequest → Bool) :
    (requests.filter condition).foldl List.erase requests =
      requests.filter fun request => !condition request := by
  have skipped : ∀ (kept : BlockRequest) (erased rest : List BlockRequest),
      (∀ request ∈ erased, request ≠ kept) →
      erased.foldl List.erase (kept :: rest) = kept :: erased.foldl List.erase rest := by
    intro kept erased
    induction erased with
    | nil => exact fun _ _ => rfl
    | cons request later ih =>
      intro rest different
      have first : kept ≠ request := (different request List.mem_cons_self).symm
      rw [List.foldl_cons, List.foldl_cons, List.erase_cons_tail (by simpa using first)]
      exact ih _ fun other member => different other (List.mem_cons_of_mem _ member)
  induction requests with
  | nil => rfl
  | cons request rest ih =>
    cases wanted : condition request with
    | true =>
      simp only [List.filter_cons, wanted, ↓reduceIte, List.foldl_cons, List.erase_cons_head,
        Bool.not_true, Bool.false_eq_true]
      exact ih
    | false =>
      simp only [List.filter_cons, wanted, Bool.false_eq_true, ↓reduceIte, Bool.not_false]
      rw [skipped request _ rest, ih]
      rintro other member rfl
      rw [(List.mem_filter.mp member).2] at wanted
      cases wanted

/-- The session knows which requests are open, all of them ask for blocks, and no request is
answered twice. -/
structure Peer.Accounted (peer : Peer) (torrent : Torrent) : Prop where
  tracked : peer.session.downloads = openRequests peer.log
  blocks : ∀ request ∈ peer.session.downloads, torrent.IsBlock request
  once : ∀ request, peer.log.countP (Exchange.writesFor request) +
    peer.session.downloads.count request ≤ peer.log.countP (Exchange.asksFor request)

/-- An entry that neither opens nor closes a request nor writes. -/
structure Exchange.Neutral (requests : List BlockRequest) (entry : Exchange) : Prop where
  track : entry.track requests = requests
  asks : ∀ request, entry.asksFor request = false
  writes : ∀ request, entry.writesFor request = false

/-- Entries that have to do with requests for blocks. -/
def Exchange.isTraffic : Exchange → Bool
  | .sent (.request _) | .sent (.cancel _) | .received .choke | .received (.piece _ _ _)
  | .wrote _ _ _ => true
  | _ => false

theorem Exchange.neutral_of_isTraffic {entry : Exchange} (requests : List BlockRequest)
    (other : entry.isTraffic = false) : entry.Neutral requests := by
  cases entry with
  | wrote request range data => cases other
  | accepted request => exact ⟨rfl, fun _ => rfl, fun _ => rfl⟩
  | received message =>
    cases message with
    | choke | piece => cases other
    | _ => exact ⟨rfl, fun _ => rfl, fun _ => rfl⟩
  | sent message =>
    cases message with
    | request | cancel => cases other
    | _ => exact ⟨rfl, fun _ => rfl, fun _ => rfl⟩

theorem Exchange.neutral_received {message : Message} (requests : List BlockRequest)
    (choke : message ≠ .choke)
    (piece : ∀ index start data, message = .piece index start data →
      ⟨index, start, data.length⟩ ∉ requests) :
    (Exchange.received message).Neutral requests := by
  refine ⟨?_, fun _ => rfl, fun _ => rfl⟩
  cases message with
  | choke => exact absurd rfl choke
  | piece index start data => exact List.erase_of_not_mem (piece index start data rfl)
  | _ => rfl

namespace Peer.Accounted

variable {before after : Peer} {torrent : Torrent}

/-- A block comes, and is written at most once. -/
theorem answer (accounted : before.Accounted torrent) {request : BlockRequest} {data : Bytes}
    {entries : List Exchange} (asked : request ∈ before.session.downloads)
    (sized : data.length = request.length)
    (log : after.log =
      before.log ++ .received (.piece request.piece request.start data) :: entries)
    (written : entries = [] ∨ ∃ range, entries = [.wrote request range data])
    (rest : after.session.downloads = before.session.downloads.erase request) :
    after.Accounted torrent := by
  have answered : Exchange.track before.session.downloads
      (.received (.piece request.piece request.start data)) =
        before.session.downloads.erase request := by
    rw [Exchange.track, sized]
  refine ⟨?_, ?_, ?_⟩
  · rw [rest, log, openRequests_append, ← accounted.tracked, List.foldl_cons, answered]
    rcases written with rfl | ⟨range, rfl⟩ <;> rfl
  · rw [rest]
    exact fun other member => accounted.blocks other (List.mem_of_mem_erase member)
  · intro other
    have once := accounted.once other
    have fewer : before.session.downloads.count other =
        (before.session.downloads.erase request).count other +
          if request = other then 1 else 0 := by
      have present := List.count_pos_iff.mpr asked
      rw [List.count_erase]
      by_cases same : request = other
      · subst same
        simp only [beq_self_eq_true, ↓reduceIte]
        omega
      · simp only [beq_iff_eq, same, ↓reduceIte]
        omega
    rw [rest, log, List.countP_append, List.countP_append]
    rcases written with rfl | ⟨range, rfl⟩
    · simp only [List.countP_cons, List.countP_nil, Exchange.writesFor, Exchange.asksFor,
        reduceCtorEq, decide_false, Bool.false_eq_true, ↓reduceIte]
      omega
    · simp only [List.countP_cons, List.countP_nil, Exchange.writesFor, Exchange.asksFor,
        reduceCtorEq, decide_false, decide_eq_true_eq, Bool.false_eq_true, ↓reduceIte]
      omega

/-- A block is asked for. -/
theorem ask (accounted : before.Accounted torrent) {request : BlockRequest}
    (block : torrent.IsBlock request)
    (log : after.log = before.log ++ [.sent (.request request)])
    (more : after.session.downloads = before.session.downloads ++ [request]) :
    after.Accounted torrent := by
  refine ⟨?_, ?_, ?_⟩
  · rw [more, log, openRequests_append, ← accounted.tracked]
    rfl
  · rw [more]
    intro other member
    rcases List.mem_append.mp member with old | new
    · exact accounted.blocks other old
    · rw [List.mem_singleton.mp new]
      exact block
  · intro other
    have once := accounted.once other
    rw [more, log, List.countP_append, List.countP_append, List.count_append]
    by_cases same : request = other
    · subst same
      simp only [List.countP_cons, List.countP_nil, Exchange.writesFor, Exchange.asksFor,
        decide_true, Bool.false_eq_true, ↓reduceIte, List.count_singleton_self]
      omega
    · simp only [List.countP_cons, List.countP_nil, Exchange.writesFor, Exchange.asksFor,
        Exchange.sent.injEq, Message.request.injEq, same, decide_false, Bool.false_eq_true,
        ↓reduceIte, List.count_singleton, beq_iff_eq]
      omega

/-- Requests are given up, and the log says so. -/
theorem giveUp (accounted : before.Accounted torrent) {entries : List Exchange}
    (log : after.log = before.log ++ entries)
    (silent : ∀ entry ∈ entries, ∀ request,
      entry.asksFor request = false ∧ entry.writesFor request = false)
    (tracked : entries.foldl Exchange.track before.session.downloads = after.session.downloads)
    (fewer : after.session.downloads.Sublist before.session.downloads) :
    after.Accounted torrent := by
  have none : ∀ {condition : Exchange → Bool}, (∀ entry ∈ entries, condition entry = false) →
      entries.countP condition = 0 := by
    intro condition never
    rw [List.countP_eq_zero]
    intro entry member
    rw [never entry member]
    exact Bool.false_ne_true
  refine ⟨?_, fun request member => accounted.blocks request (fewer.subset member), ?_⟩
  · rw [log, openRequests_append, ← accounted.tracked, tracked]
  · intro request
    have once := accounted.once request
    have bound := fewer.count_le request
    rw [log, List.countP_append, List.countP_append,
      none fun entry member => (silent entry member request).2,
      none fun entry member => (silent entry member request).1]
    omega

/-- Other messages change nothing about the requests. -/
theorem extend (accounted : before.Accounted torrent) {entries : List Exchange}
    (log : after.log = before.log ++ entries)
    (neutral : ∀ entry ∈ entries, entry.Neutral before.session.downloads)
    (same : after.session.downloads = before.session.downloads) : after.Accounted torrent := by
  have kept : ∀ {some : List Exchange},
      (∀ entry ∈ some, entry.Neutral before.session.downloads) →
      some.foldl Exchange.track before.session.downloads = before.session.downloads := by
    intro some
    induction some with
    | nil => exact fun _ => rfl
    | cons entry rest ih =>
      intro neutral
      rw [List.foldl_cons, (neutral entry List.mem_cons_self).track]
      exact ih fun other member => neutral other (List.mem_cons_of_mem _ member)
  refine accounted.giveUp log ?_ ((kept neutral).trans same.symm) (same ▸ List.Sublist.refl _)
  exact fun entry member request =>
    ⟨(neutral entry member).asks request, (neutral entry member).writes request⟩

end Peer.Accounted

/-- A message that was ignored or refused answers no open request and is no choke. -/
theorem Session.unanswered {session : Session} {message : Message}
    {result : Except Violation Event} (heard : session.apply message = (session, result))
    (choke : ∀ dropped, result ≠ .ok (.choked dropped))
    (block : ∀ request data, result ≠ .ok (.block request data)) :
    (Exchange.received message).Neutral session.downloads := by
  refine Exchange.neutral_received _ ?_ ?_
  · rintro rfl
    exact choke session.downloads (congrArg Prod.snd heard).symm
  · rintro index start data rfl asked
    simp only [Session.apply] at heard
    split at heard
    · rename_i request found
      exact block request data (congrArg Prod.snd heard).symm
    · rename_i absent
      have unmatched := List.find?_eq_none.mp absent _ asked
      simp only [Session.answers, decide_true, Bool.and_self, not_true_eq_false] at unmatched

theorem Move.accounted {scene after : Scene} (move : Move scene after)
    (accounted : scene.peer.Accounted scene.download.torrent) :
    after.peer.Accounted scene.download.torrent := by
  have silent : ∀ {after : Peer}, after.log = scene.peer.log →
      after.session.downloads = scene.peer.session.downloads →
      after.Accounted scene.download.torrent := by
    intro after log same
    exact accounted.extend (log.trans (List.append_nil _).symm) (fun _ => (nomatch ·)) same
  have plain : ∀ {after : Peer} {entries : List Exchange},
      after.log = scene.peer.log ++ entries → (∀ entry ∈ entries, entry.isTraffic = false) →
      after.session.downloads = scene.peer.session.downloads →
      after.Accounted scene.download.torrent :=
    fun log other same => accounted.extend log
      (fun entry member => Exchange.neutral_of_isTraffic _ (other entry member)) same
  cases move with
  | ignored now message event heard quiet =>
    have neutral := Session.unanswered heard
      (by rintro dropped ⟨⟩; rcases quiet with quiet | quiet | ⟨_, quiet⟩ <;> cases quiet)
      (by rintro request data ⟨⟩; rcases quiet with quiet | quiet | ⟨_, quiet⟩ <;> cases quiet)
    exact accounted.extend rfl (List.forall_mem_singleton.mpr neutral) rfl
  | refused now message violation heard =>
    have neutral := Session.unanswered heard (by rintro dropped ⟨⟩) (by rintro request data ⟨⟩)
    exact accounted.extend rfl (List.forall_mem_singleton.mpr neutral) rfl
  | choked now =>
    exact accounted.giveUp rfl (by simp [Exchange.asksFor, Exchange.writesFor]) rfl
      (List.nil_sublist _)
  | released | took | skipped | unserved | obeyed | parted => exact silent rfl rfl
  | discarded now request data asked sized =>
    exact accounted.answer asked sized rfl (Or.inl rfl) rfl
  | stray now request data asked sized =>
    exact accounted.answer asked sized rfl (Or.inl rfl) rfl
  | lost now fault answers | stored now store answers | completed now store answers
  | corrupted now store digest answers | unreadable now store fault answers =>
    exact accounted.answer answers.isOpen answers.sized (List.append_assoc _ _ _)
      (Or.inr ⟨_, rfl⟩) rfl
  | asked index piece block assigned allowed missing found wanted =>
    obtain ⟨number, inside, rfl, -⟩ := Piece.nextMissing?_some wanted
    refine accounted.ask ?_ rfl rfl
    exact ⟨piece, piece.block number, found, Piece.mem_blocks.mpr ⟨number, inside, rfl⟩, rfl, rfl⟩
  | told piece | recalled piece =>
    refine accounted.giveUp (List.append_assoc _ _ _) ?_ ?_ List.filter_sublist
    · intro entry member request
      rcases List.mem_append.mp member with cancel | have_
      · obtain ⟨other, -, rfl⟩ := List.mem_map.mp cancel
        simp [Exchange.asksFor, Exchange.writesFor]
      · rw [List.mem_singleton.mp have_]
        simp [Exchange.asksFor, Exchange.writesFor]
    · rw [List.foldl_append, List.foldl_map]
      refine (foldl_erase_filter _ _).trans ?_
      simp only [← decide_not]
      rfl
  | unchoked | rejected | cancelled | greeted | kept | served =>
    exact plain rfl (List.forall_mem_singleton.mpr rfl) rfl
  | interested now =>
    refine plain (List.append_assoc _ _ _) ?_ rfl
    split <;> decide
  | notInterested now =>
    refine plain (List.append_assoc _ _ _) ?_ rfl
    split <;> decide
  | accepted now request =>
    exact plain (List.append_assoc _ _ _) (by simp [Exchange.isTraffic]) rfl
  | announced now message field useful kind =>
    refine plain (List.append_assoc _ _ _) ?_ rfl
    rcases kind with ⟨piece, rfl⟩ | ⟨bytes, rfl⟩ <;> split <;> simp [Exchange.isTraffic]

theorem Withdrawal.accounted {scene after : Scene} (withdrawal : Withdrawal scene after)
    {torrent : Torrent} (accounted : scene.peer.Accounted torrent) :
    after.peer.Accounted torrent := by
  rw [withdrawal.result]
  exact accounted.extend rfl
    (List.forall_mem_singleton.mpr (Exchange.neutral_of_isTraffic _ rfl)) rfl

theorem accounted_stable :
    Swarm.Stable fun swarm => ∀ peer ∈ swarm.peers, peer.Accounted swarm.download.torrent :=
  @Swarm.peers_stable (fun torrent peer => peer.Accounted torrent)
    Move.accounted (fun withdrawal => withdrawal.accounted)
    fun _ _ _ _ _ _ => ⟨rfl, fun _ => (nomatch ·), fun _ => Nat.le_refl 0⟩

/-- A write stores exactly one block of a piece that is not complete, and answers a request for
that block that is open. -/
structure Peer.MayWrite (peer : Peer) (download : Download) (message : Message)
    (request : BlockRequest) (range : ByteRange) (data : Bytes) : Prop where
  answers : message = .piece request.piece request.start data
  isOpen : request ∈ openRequests peer.log
  sized : data.length = request.length
  missing : download.holdings.has request.piece = false
  block : ∃ piece number, download.torrent.piece? request.piece = some piece ∧
    number < piece.blockCount ∧ piece.blockAt? request.start = some number ∧
    request.start = (piece.block number).offset ∧ request.length = (piece.block number).length ∧
    range = ⟨piece.offset + (piece.block number).offset, (piece.block number).length⟩

/-- A block that reaches a turn answers an open request. -/
theorem Session.receive_block {session after : Session} {now : Nat} {message : Message}
    {request : BlockRequest} {data : Bytes}
    (heard : session.receive now message = (after, .ok (.block request data))) :
    message = .piece request.piece request.start data ∧ request ∈ session.downloads ∧
      data.length = request.length := by
  unfold receive at heard
  split at heard
  · cases message with
    | piece index start bytes =>
      simp only [apply] at heard
      split at heard
      · rename_i other found
        cases heard
        have same := List.find?_some found
        simp only [answers, Bool.and_eq_true, decide_eq_true_eq] at same
        obtain ⟨⟨rfl, rfl⟩, sized⟩ := same
        exact ⟨rfl, List.mem_of_find?_eq_some found, sized.symm⟩
      · cases heard
    | have_ | bitfield | cancel =>
      simp only [apply] at heard
      split at heard <;> cases heard
    | request =>
      simp only [apply] at heard
      split at heard
      · cases heard
      · split at heard <;> cases heard
    | _ => cases heard
  · cases heard

theorem Turn.handle_block {turn : Turn} {request : BlockRequest} {range : ByteRange} {data : Bytes}
    {piece : Piece} (found : turn.download.torrent.piece? request.piece = some piece)
    (missing : turn.download.holdings.has request.piece = false)
    (inside : piece.subRange? request.start request.length = some range) :
    turn.handle (.block request data) = (turn, .wait (.write request range data)) := by
  simp only [handle, onBlock, found, missing, inside, Bool.false_eq_true, ↓reduceIte]

/-- Only a block that has come is written. -/
theorem Turn.handle_write {turn after : Turn} {event : Event} {request : BlockRequest}
    {range : ByteRange} {data : Bytes}
    (handled : turn.handle event = (after, .wait (.write request range data))) :
    event = .block request data ∧ after = turn ∧
      turn.download.holdings.has request.piece = false ∧
      ∃ piece, turn.download.torrent.piece? request.piece = some piece ∧
        piece.subRange? request.start request.length = some range := by
  have unended : ∀ {outcome : Turn × Except Fault Flow},
      Turn.ended outcome ≠ (after, .wait (.write request range data)) := by
    intro outcome same
    cases congrArg Prod.snd same
  cases event with
  | block other bytes =>
    simp only [handle, onBlock] at handled
    split at handled
    · cases handled
    · rename_i piece found
      split at handled
      · cases handled
      · rename_i missing
        split at handled
        · cases handled
        · rename_i inside
          cases handled
          exact ⟨rfl, rfl, by simpa using missing, piece, found, inside⟩
  | request other =>
    simp only [handle] at handled
    split at handled
    · cases handled
    · exact absurd handled unended
  | _ => cases congrArg Prod.snd handled

/-- A block that was asked for is never refused. -/
theorem Turn.onBlock_accepted {turn : Turn} {request : BlockRequest} {data : Bytes}
    (sound : turn.Sound) (block : turn.download.torrent.IsBlock request) (fault : Fault) :
    (turn.onBlock request data).2 ≠ .done (.error fault) := by
  obtain ⟨piece, block, found, member, start, length⟩ := block
  obtain ⟨number, inside, rfl⟩ := Piece.mem_blocks.mp member
  have located := Piece.subRange?_block inside
  rw [← start, ← length] at located
  simp only [onBlock, found]
  split
  · simp only [fillPipeline_stays sound]
    intro refused
    cases refused
  · simp only [located]
    intro refused
    cases refused

/-- A block that is stored leads to the next requests or to the check of its piece. -/
theorem Turn.afterWrite_accepted {turn : Turn} {request : BlockRequest} {piece : Piece}
    (sound : turn.Sound) (found : turn.download.torrent.piece? request.piece = some piece)
    (fault : Fault) : (turn.afterWrite request (.ok ())).2 ≠ .done (.error fault) := by
  have marked : (turn.withHoldings (turn.download.holdings.fetch piece request)).Sound :=
    ⟨sound.session, sound.holdings.fetch _ _⟩
  rw [afterWrite_ok found]
  dsimp only
  split
  · intro refused
    cases refused
  · simp only [ended, fillPipeline_stays marked]
    intro refused
    cases refused

section

variable {torrent : Torrent} {settings : Settings} {selector : Selector} {ownId : PeerId}
  {draws : List Nat} {store : MemoryStore} {happenings : List Happening} {peer : Peer}

/-- What a session keeps when a block comes. -/
theorem Session.Sound.answered {session : Session} {pieces : Nat} (sound : session.Sound pieces)
    (now : Nat) (request : BlockRequest) :
    Session.Sound { session.awake now with downloads := session.downloads.erase request }
      pieces where
  isOpen := rfl
  sized := sound.sized
  inside := sound.inside
  deep := sound.deep
  quiet := by
    intro choking
    obtain ⟨empty, unassigned⟩ := sound.quiet choking
    exact ⟨by rw [empty]; rfl, unassigned⟩

theorem run_accounted
    (connected : peer ∈ ((Swarm.start torrent settings selector ownId draws store).run
      happenings).peers) : peer.Accounted torrent := by
  have sound := Swarm.start_sound torrent settings selector ownId draws store
  have accounted := accounted_stable.run sound (fun _ => (nomatch ·)) happenings peer connected
  rwa [Swarm.run_torrent sound] at accounted

/-- A block that was asked for and is missing is written when it comes. -/
theorem Scene.receive_writes {scene : Scene} {request : BlockRequest} (sound : scene.Sound)
    (accounted : scene.peer.Accounted scene.download.torrent) (now : Nat)
    (asked : request ∈ openRequests scene.peer.log) {data : Bytes}
    (sized : data.length = request.length)
    (missing : scene.download.holdings.has request.piece = false) :
    ∃ session range,
      scene.peer.session.receive now (.piece request.piece request.start data) =
        (session, .ok (.block request data)) ∧
      ({ scene.turn with session := session } : Turn).handle (.block request data) =
        ({ scene.turn with session := session }, .wait (.write request range data)) := by
  rw [← accounted.tracked] at asked
  obtain ⟨piece, block, found, member, start, length⟩ := accounted.blocks request asked
  obtain ⟨number, inside, rfl⟩ := Piece.mem_blocks.mp member
  have located := Piece.subRange?_block inside
  rw [← start, ← length] at located
  refine ⟨_, ⟨piece.offset + request.start, request.length⟩,
    receive_block sound.session.isOpen asked sized, ?_⟩
  have present : scene.turn.download.torrent.piece? request.piece = some piece := found
  have incomplete : scene.turn.download.holdings.has request.piece = false := missing
  simp only [Turn.handle, Turn.onBlock, present, incomplete, located, Bool.false_eq_true,
    ↓reduceIte]

/-- A peer can only make us write what it was asked for, wherever a run has led: every write stores
one block of an incomplete piece for a request that is open, no such block is refused as unknown or
as outside of its piece, and no request leads to two writes. What was asked for and is missing is
written when it comes. -/
theorem run_writes_requested_blocks
    (connected : peer ∈ ((Swarm.start torrent settings selector ownId draws store).run
      happenings).peers)
    {now : Nat} {message : Message} {session : Session} {event : Event}
    (heard : peer.session.receive now message = (session, .ok event)) :
    let swarm := (Swarm.start torrent settings selector ownId draws store).run happenings
    let turn : Turn := { (swarm.scene peer).turn with session := session }
    (∀ after request range data,
      turn.handle event = (after, .wait (.write request range data)) →
        peer.MayWrite swarm.download message request range data ∧
          ∀ fault, (after.afterWrite request (.ok ())).2 ≠ .done (.error fault)) ∧
    (∀ request data fault, event = .block request data →
      (turn.onBlock request data).2 ≠ .done (.error fault)) ∧
    (∀ request, peer.log.countP (Exchange.writesFor request) ≤
      peer.log.countP (Exchange.asksFor request)) ∧
    ∀ request ∈ openRequests peer.log, swarm.download.holdings.has request.piece = false →
      ∀ data : Bytes, data.length = request.length → ∃ session range,
        peer.session.receive now (.piece request.piece request.start data) =
          (session, .ok (.block request data)) ∧
        ({ turn with session := session } : Turn).handle (.block request data) =
          ({ turn with session := session }, .wait (.write request range data)) := by
  have sound := (Swarm.start_sound torrent settings selector ownId draws store).run happenings
  have same := Swarm.run_torrent (Swarm.start_sound torrent settings selector ownId draws store)
    happenings
  have accounted := run_accounted connected
  intro swarm turn
  have steady : ∀ request data, event = .block request data →
      turn.Sound ∧ turn.download.torrent.IsBlock request := by
    rintro request data rfl
    obtain ⟨rfl, asked, sized⟩ := Session.receive_block heard
    have shape := sound.scene connected
    cases heard.symm.trans (Scene.receive_block shape.session.isOpen asked sized)
    refine ⟨⟨shape.session.answered now request, shape.holdings⟩, ?_⟩
    change Torrent.IsBlock swarm.download.torrent request
    rw [same]
    exact accounted.blocks request asked
  refine ⟨?_, ?_, ?_, ?_⟩
  · intro after request range data handled
    obtain ⟨rfl, rfl, missing, piece, found, inside⟩ := Turn.handle_write handled
    obtain ⟨shape, other, block, located, member, start, length⟩ := steady request data rfl
    obtain ⟨number, bound, rfl⟩ := Piece.mem_blocks.mp member
    obtain ⟨answers, asked, sized⟩ := Session.receive_block heard
    cases found.symm.trans located
    refine ⟨?_, Turn.afterWrite_accepted shape found⟩
    rw [start, length, Piece.subRange?_block bound] at inside
    cases inside
    exact {
      answers := answers
      isOpen := accounted.tracked ▸ asked
      sized := sized
      missing := missing
      block := ⟨piece, number, found, bound, start ▸ Piece.blockAt?_block bound, start, length,
        rfl⟩ }
  · rintro request data fault rfl
    obtain ⟨shape, block⟩ := steady request data rfl
    exact Turn.onBlock_accepted shape block fault
  · intro request
    have once := accounted.once request
    omega
  · intro request asked missing data sized
    have shape : (swarm.scene peer).peer.Accounted (swarm.scene peer).download.torrent := by
      change peer.Accounted swarm.download.torrent
      rwa [same]
    exact Scene.receive_writes (sound.scene connected) shape now asked sized missing

/-- The block that was asked for may be written. -/
theorem run_writes_requested_blocks_offer :
    let swarm := Sample.start.run (Sample.offer Sample.first)
    ∃ peer ∈ swarm.peers, ∃ range,
      peer.MayWrite swarm.download (.piece 0 0 Sample.content) Sample.request range
        Sample.content := by
  intro swarm
  have asked : swarm.peers.any (fun peer => peer.session.phase.isOpen &&
      decide (Sample.request ∈ peer.session.downloads)) = true := by decide +kernel
  obtain ⟨peer, member, found⟩ := List.any_eq_true.mp asked
  simp only [Bool.and_eq_true, decide_eq_true_eq] at found
  have missing : swarm.download.holdings.has 0 = false := by decide +kernel
  have heard := @Scene.receive_block (swarm.scene peer) 0 Sample.request Sample.content found.1
    found.2 rfl
  have safe := @run_writes_requested_blocks Sample.torrent {} ⟨.sequential, false⟩ Sample.peerId []
    (.empty 4) (Sample.offer Sample.first) peer member 0 _ _ _ heard
  exact ⟨peer, member, ⟨0, 4⟩, (safe.1 _ _ _ _ (Turn.handle_block rfl missing rfl)).1⟩

end

end BitTorrent
