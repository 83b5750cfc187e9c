import BitTorrent.Proofs.Redundancy

/-!
Blocks that are not needed any more. A piece may be completed while blocks of it are still on their
way from other peers; then its news waits in their mailboxes, and whoever obeys withdraws the
requests before anything else is said.
-/

set_option autoImplicit false

namespace BitTorrent

/-- Whether a message withdraws a request. -/
def Message.recalls : Message → Bool
  | .cancel _ => true
  | _ => false

namespace Download

variable {before after download : Download} {address : Address} {number piece : Nat}

theorem mem_pending :
    piece ∈ download.pending number ↔ .have_ piece ∈ download.roster.queued number := by
  rw [pending, List.mem_filterMap]
  constructor
  · rintro ⟨command, queued, same⟩
    cases command with
    | have_ other => exact Option.some.inj same ▸ queued
    | disconnect => cases same
  · exact fun queued => ⟨_, queued, rfl⟩

theorem pending_congr (same : after.roster.mailboxes = before.roster.mailboxes) (number : Nat) :
    after.pending number = before.pending number := by
  rw [pending, Roster.queued_congr same, pending]

/-- What waits in a mailbox goes on waiting. -/
theorem Informs.keeps (informs : before.Informs address number after)
    (waits : piece ∈ before.pending number) : piece ∈ after.pending number := by
  obtain ⟨news, queued, -⟩ := informs.news
  rw [mem_pending, queued]
  exact List.mem_append_left _ (mem_pending.mp waits)

/-- What becomes complete waits in the mailbox of everybody who is reached. -/
theorem Informs.brings (informs : before.Informs address number after)
    (reached : before.Reaches number) (held : after.holdings.has piece = true)
    (missing : before.holdings.has piece = false) : piece ∈ after.pending number := by
  obtain ⟨news, queued, -, -, whole⟩ := informs.news
  rw [pending, queued, List.filterMap_append]
  exact List.mem_append_right _ (whole reached held missing)

end Download

namespace Turn

variable {turn middle base after : Turn} {number : Nat}

/-! What is said while the pipeline is filled withdraws nothing. -/

/-- What is said from one moment to the other withdraws no request. -/
def Insists (turn after : Turn) : Prop :=
  ∃ said, after.outbox = turn.outbox ++ said ∧ ∀ message ∈ said, message.recalls = false

theorem Insists.same (outbox : after.outbox = turn.outbox) : turn.Insists after :=
  ⟨[], outbox.trans (List.append_nil _).symm, fun _ inside => nomatch inside⟩

theorem Insists.say {message : Message} (outbox : after.outbox = turn.outbox ++ [message])
    (insists : message.recalls = false) : turn.Insists after :=
  ⟨[message], outbox, fun _ inside => List.mem_singleton.mp inside ▸ insists⟩

theorem Insists.trans (first : turn.Insists middle) (second : middle.Insists after) :
    turn.Insists after := by
  obtain ⟨said, left, insists⟩ := first
  obtain ⟨more, right, later⟩ := second
  refine ⟨said ++ more, by rw [right, left, List.append_assoc], ?_⟩
  intro message inside
  exact (List.mem_append.mp inside).elim (insists message) (later message)

theorem withdrawInterest_insists (turn : Turn) :
    turn.Insists (turn.follow turn.session.withdrawInterest) := by
  unfold Session.withdrawInterest
  split
  · exact .say rfl rfl
  · exact .same rfl

theorem unassign_outbox (turn : Turn) : turn.unassign.outbox = turn.outbox := by
  unfold unassign
  split <;> rfl

theorem currentPiece_outbox (turn : Turn) (exhausted : List Nat) :
    (turn.currentPiece exhausted).1.outbox = turn.outbox := by
  unfold currentPiece
  split
  · split
    · rfl
    · exact (assignPiece_outbox _ _).trans turn.unassign_outbox
  · exact assignPiece_outbox _ _

theorem fill_insists (fuel : Nat) (turn : Turn) (exhausted : List Nat) :
    turn.Insists (fill fuel turn exhausted).1 := by
  induction fuel generalizing turn exhausted with
  | zero => exact .same rfl
  | succ fuel ih =>
    have taken := turn.currentPiece_outbox exhausted
    unfold fill
    split
    · split
      · rename_i after current
        rw [current] at taken
        refine (Insists.same taken).trans ?_
        unfold giveUp
        split
        · exact after.withdrawInterest_insists
        · exact .same rfl
      · rename_i after index current
        rw [current] at taken
        have kept : turn.Insists after := .same taken
        split
        · exact kept
        · split
          · unfold Session.request
            split
            · exact kept
            · rename_i session message opened
              split at opened
              · cases opened
                exact (kept.trans (.say rfl rfl)).trans (ih _ _)
              · cases opened
          · split
            · exact kept
            · exact kept.trans (ih _ _)
    · exact .same rfl

theorem loseInterest_insists (turn : Turn) : turn.Insists turn.loseInterest := by
  unfold loseInterest
  split
  · exact turn.withdrawInterest_insists
  · exact .same rfl

/-- Behind the news of a piece nothing is withdrawn. -/
theorem onLocalHave_insists (turn : Turn) (piece : Nat) :
    (turn.cancelRequests piece).Insists (turn.onLocalHave piece).1 := by
  unfold onLocalHave
  dsimp only
  split
  · exact .same rfl
  · split
    · exact loseInterest_insists _
    · have filled := fill_insists
        ((turn.cancelRequests piece).session.depth -
          (turn.cancelRequests piece).session.downloads.length +
          (turn.cancelRequests piece).download.torrent.pieceCount + 1)
        (turn.cancelRequests piece) []
      split
      · rename_i later fault ended
        unfold fillPipeline at ended
        rw [ended] at filled
        exact filled
      · rename_i later flow ended
        unfold fillPipeline at ended
        rw [ended] at filled
        exact filled.trans (loseInterest_insists _)

/-! What the news of a piece changes. -/

theorem cancelRequests_downloads (turn : Turn) (piece : Nat) :
    (turn.cancelRequests piece).session.downloads =
      turn.session.downloads.filter (·.piece ≠ piece) := by
  unfold cancelRequests unassign
  dsimp only
  split
  · rename_i assigned
    simp only [assigned]
    rfl
  · rfl

theorem cancelRequests_assigned (turn : Turn) (piece : Nat) :
    (turn.cancelRequests piece).session.assigned ≠ some piece := by
  unfold cancelRequests unassign
  dsimp only
  split
  · rename_i assigned
    simp only [assigned]
    exact nofun
  · rename_i other
    exact other

theorem cancelRequests_outbox (turn : Turn) (piece : Nat) :
    (turn.cancelRequests piece).outbox = turn.outbox ++
      (turn.session.downloads.filter (·.piece = piece)).map Message.cancel ++ [.have_ piece] := by
  unfold cancelRequests
  dsimp only
  split
  · exact congrArg (· ++ [_]) (unassign_outbox _)
  · rfl

/-- The requests for a piece that is complete are withdrawn, each once and in their order, before
the peer is told of it; then nothing is withdrawn any more, and nothing is fetched of the piece. -/
theorem onLocalHave_recalls (sized : turn.Sized) {piece : Nat}
    (complete : turn.download.holdings.has piece = true) :
    (∃ said, (turn.onLocalHave piece).1.outbox = turn.outbox ++
        ((turn.session.downloads.filter (·.piece = piece)).map Message.cancel ++
          .have_ piece :: said) ∧ ∀ message ∈ said, message.recalls = false) ∧
      (∀ request ∈ (turn.onLocalHave piece).1.session.downloads, request.piece ≠ piece) ∧
      (turn.onLocalHave piece).1.session.assigned ≠ some piece ∧
      ∃ flow, (turn.onLocalHave piece).2 = .ok flow := by
  obtain ⟨pursues, ended⟩ := onLocalHave_follows sized piece
  have held : (turn.cancelRequests piece).download.holdings.has piece = true := by
    obtain ⟨middle, cancelled, told⟩ := turn.cancelRequests_pursues piece
    rw [told]
    exact cancelled.holdings ▸ complete
  refine ⟨?_, ?_, ?_, ended⟩
  · obtain ⟨said, outbox, insists⟩ := turn.onLocalHave_insists piece
    refine ⟨said, ?_, insists⟩
    rw [outbox, cancelRequests_outbox, List.append_assoc, List.append_assoc,
      List.singleton_append]
  · rintro request inside same
    rcases pursues.opened inside with earlier | ⟨-, missing, -⟩
    · rw [cancelRequests_downloads] at earlier
      exact of_decide_eq_true (List.mem_filter.mp earlier).2 same
    · rw [same] at missing
      exact nomatch held.symm.trans missing
  · intro assigned
    rcases pursues.chosen assigned with earlier | ⟨-, missing⟩
    · exact turn.cancelRequests_assigned piece earlier
    · exact nomatch held.symm.trans missing

/-! What a handler changes before it gets on with fetching. -/

/-- Nothing becomes complete, no mailbox changes, and nothing more is asked for or chosen. -/
structure Narrows (turn after : Turn) : Prop where
  completed : after.download.holdings.completed = turn.download.holdings.completed
  mailboxes : after.download.roster.mailboxes = turn.download.roster.mailboxes
  fewer : ∀ {request}, request ∈ after.session.downloads → request ∈ turn.session.downloads
  assigned : ∀ {piece}, after.session.assigned = some piece → turn.session.assigned = some piece
  interest : after.session.amInterested = true → turn.session.amInterested = true

theorem Narrows.trans (first : turn.Narrows middle) (second : middle.Narrows after) :
    turn.Narrows after where
  completed := second.completed.trans first.completed
  mailboxes := second.mailboxes.trans first.mailboxes
  fewer := fun member => first.fewer (second.fewer member)
  assigned := fun taken => first.assigned (second.assigned taken)
  interest := fun interested => first.interest (second.interest interested)

/-- Only the shared state changes, in nothing that others see. -/
theorem Quiet.narrows (quiet : turn.Quiet after) (session : after.session = turn.session) :
    turn.Narrows after where
  completed := quiet.completed
  mailboxes := quiet.mailboxes
  fewer := fun member => session ▸ member
  assigned := fun taken => session ▸ taken
  interest := fun interested => session ▸ interested

/-- Only the session changes, in nothing that makes it fetch. -/
theorem Narrows.session {session : Session} {outbox : List Message}
    (fewer : ∀ {request}, request ∈ session.downloads → request ∈ turn.session.downloads)
    (assigned : session.assigned = turn.session.assigned)
    (interest : session.amInterested = turn.session.amInterested) :
    turn.Narrows { turn with session := session, outbox := outbox } where
  completed := rfl
  mailboxes := rfl
  fewer := fewer
  assigned := fun taken => assigned ▸ taken
  interest := fun interested => interest ▸ interested

theorem Narrows.refl (turn : Turn) : turn.Narrows turn :=
  .session id rfl rfl

end Turn

/-- A message that is received neither opens a request nor makes us choose or show interest. -/
theorem Session.receive_narrows (session : Session) (now : Nat) (message : Message) :
    (∀ {request}, request ∈ (session.receive now message).1.downloads →
      request ∈ session.downloads) ∧
      (session.receive now message).1.amInterested = session.amInterested := by
  unfold receive
  split
  · cases message with
    | choke => exact ⟨fun member => (List.not_mem_nil member).elim, rfl⟩
    | have_ | bitfield | cancel =>
      simp only [apply]
      split <;> exact ⟨id, rfl⟩
    | request request =>
      simp only [apply]
      split
      · exact ⟨id, rfl⟩
      · split <;> exact ⟨id, rfl⟩
    | piece index start data =>
      simp only [apply]
      split
      · exact ⟨List.mem_of_mem_eraseP, rfl⟩
      · exact ⟨id, rfl⟩
    | _ => exact ⟨id, rfl⟩
  · exact ⟨id, rfl⟩

namespace Turn

variable {turn base : Turn}

theorem Basis.narrows {event : Event} (basis : turn.Basis event base) : turn.Narrows base := by
  cases basis with
  | same => exact .refl turn
  | published => exact turn.publish_quiet.narrows rfl
  | unchoked =>
    rw [Session.unchoke_eq]
    split <;> exact .session id rfl rfl
  | choked =>
    rw [Session.choke_eq]
    split <;> exact .session id rfl rfl

theorem Stores.narrows {request : BlockRequest} {outcome : Except Fault Unit} {next : Next}
    (stores : turn.Stores request outcome base next) : turn.Narrows base := by
  have quiet := stores.quiet
  cases stores with
  | lost | unknown | stored => exact quiet.narrows rfl
  | last => exact ⟨quiet.completed, quiet.mailboxes, id, nofun, id⟩

theorem receive_narrows (turn : Turn) (now : Nat) (message : Message) :
    turn.Narrows { turn with session := (turn.session.receive now message).1 } := by
  obtain ⟨fewer, interest⟩ := turn.session.receive_narrows now message
  exact .session fewer (turn.session.receive_keeps now message).1 interest

theorem serve_narrows (turn : Turn) : turn.Narrows turn.serve.1 := by
  have taken : turn.session.takeUpload = ({ turn.session with upload := none },
    turn.session.upload) := rfl
  unfold serve
  rw [taken]
  cases turn.session.upload with
  | none => exact .refl turn
  | some request =>
    dsimp only
    split
    · exact .session id rfl rfl
    · split <;> exact .session id rfl rfl

theorem checkIdle_narrows (turn : Turn) (now : Nat) : turn.Narrows (turn.checkIdle now).1 := by
  refine (turn.checkIdle_quiet now).narrows ?_
  rcases turn.checkIdle_cases now with idle | idle | idle <;> rw [idle]
  rfl

end Turn

namespace Worker

variable {worker : Worker} {download : Download} {after : Turn} {next : Next}

/-- What a handler does to what is fetched: it goes on fetching, perhaps after it has completed a
piece, or it obeys a command. -/
inductive Fetches (worker : Worker) (download : Download) : Turn → Next → Prop
  | resumes {base after : Turn} {next : Next} : (worker.turn download).Narrows base →
      base.Pursues after → Fetches worker download after next
  | completes {after : Turn} {next : Next} (piece : Piece) :
      (worker.turn (download.verify piece)).Pursues after → Fetches worker download after next
  | hears (piece : Nat) (rest : List Command) :
      download.roster.queued worker.mailbox = .have_ piece :: rest →
      Fetches worker download
        (((worker.turn download).take worker.mailbox rest).onLocalHave piece).1
        (.done (((worker.turn download).take worker.mailbox rest).onLocalHave piece).2)
  | dismissed (rest : List Command) :
      download.roster.queued worker.mailbox = .disconnect :: rest →
      Fetches worker download ((worker.turn download).take worker.mailbox rest) (.done (.ok .leave))

theorem Fetches.only (narrows : (worker.turn download).Narrows after) :
    worker.Fetches download after next :=
  .resumes narrows (.refl after)

theorem receive_fetches (sized : (worker.turn download).Sized) (now : Nat) (message : Message) :
    worker.Fetches download ((worker.turn download).receive now message).1
      ((worker.turn download).receive now message).2 := by
  have narrows := (worker.turn download).receive_narrows now message
  obtain ⟨-, -, size⟩ := (worker.turn download).session.receive_keeps now message
  unfold Turn.receive
  split
  · rename_i session violation received
    rw [received] at narrows
    exact .only narrows
  · rename_i session event received
    rw [received] at narrows size
    have heard : Turn.Sized { worker.turn download with session := session } := size.trans sized
    obtain ⟨base, basis, pursues, -⟩ := Turn.handle_pursues heard event
    exact .resumes (narrows.trans basis.narrows) pursues

theorem resume_fetches (sized : (worker.turn download).Sized) {awaiting : Awaiting} {reply : Reply}
    (resumed : (worker.turn download).resume awaiting reply = some (after, next)) :
    worker.Fetches download after next := by
  unfold Turn.resume at resumed
  split at resumed
  · rename_i request _ _ outcome
    obtain ⟨rfl, -⟩ := Prod.mk.inj (Option.some.inj resumed)
    obtain ⟨base, stores, pursues⟩ := Turn.afterWrite_pursues sized request outcome
    exact .resumes stores.narrows pursues
  · rename_i piece outcome
    obtain ⟨rfl, -⟩ := Prod.mk.inj (Option.some.inj resumed)
    obtain ⟨base, checks, pursues, -⟩ := Turn.afterChecksum_pursues sized piece outcome
    rcases checks.quiet with quiet | rfl
    · exact .resumes (quiet.narrows checks.session) pursues
    · exact .completes piece pursues
  · rename_i request _ outcome
    obtain ⟨rfl, -⟩ := Prod.mk.inj (Option.some.inj resumed)
    refine .only ((Turn.afterRead_quiet _ request outcome).narrows ?_)
    cases outcome <;> rfl
  · cases resumed

theorem obey_fetches (worker : Worker) (download : Download) :
    worker.Fetches download ((worker.turn download).obey worker.mailbox).1
      ((worker.turn download).obey worker.mailbox).2 := by
  unfold Turn.obey
  split
  · exact .only (.refl _)
  · rename_i rest queued
    exact .dismissed rest queued
  · rename_i piece rest queued
    exact .hears piece rest queued

theorem perform_fetches (sized : (worker.turn download).Sized) {deed : Deed}
    (performed : worker.perform download deed = some (after, next)) :
    worker.Fetches download after next := by
  unfold perform at performed
  dsimp only at performed
  split at performed
  · exact resume_fetches sized performed
  all_goals first
    | (cases performed; done)
    | obtain ⟨rfl, rfl⟩ := Prod.mk.inj (Option.some.inj performed)
  · exact .only (.session id rfl rfl)
  · exact receive_fetches sized _ _
  · exact .only (Turn.serve_narrows _)
  · exact worker.obey_fetches download
  · exact .only (Turn.checkIdle_narrows _ _)

end Worker

namespace Turn

variable {turn after : Turn} {number : Nat}

/-- A block of a complete piece is on its way only while the news of the piece waits. -/
def Awaited (turn : Turn) (number : Nat) : Prop :=
  ∀ request ∈ turn.session.downloads, turn.download.holdings.has request.piece = true →
    request.piece ∈ turn.download.pending number

theorem Awaited.narrows (awaited : turn.Awaited number) (narrows : turn.Narrows after) :
    after.Awaited number := by
  intro request member held
  rw [Holdings.has, narrows.completed] at held
  rw [Download.pending_congr narrows.mailboxes]
  exact awaited request (narrows.fewer member) held

/-- Only blocks of missing pieces are asked for. -/
theorem Awaited.pursues (awaited : turn.Awaited number) (pursues : turn.Pursues after) :
    after.Awaited number := by
  intro request member held
  rw [pursues.holdings] at held
  rw [Download.pending_congr pursues.quiet.mailboxes]
  rcases pursues.opened member with earlier | ⟨-, missing, -⟩
  · exact awaited request earlier held
  · exact nomatch held.symm.trans missing

/-- Whoever hears the news of a piece has no block of it on its way any more. -/
theorem Awaited.hears (awaited : turn.Awaited number) (sized : turn.Sized) {piece : Nat}
    {rest : List Command} (queued : turn.download.roster.queued number = .have_ piece :: rest) :
    ((turn.take number rest).onLocalHave piece).1.Awaited number := by
  have taken : (turn.take number rest).Sized := sized
  obtain ⟨pursues, -⟩ := onLocalHave_follows taken piece
  refine Awaited.pursues ?_ pursues
  intro request member held
  obtain ⟨middle, cancelled, told⟩ := (turn.take number rest).cancelRequests_pursues piece
  rw [cancelRequests_downloads] at member
  obtain ⟨earlier, other⟩ := List.mem_filter.mp member
  rw [told] at held ⊢
  have waits := awaited request earlier (cancelled.holdings ▸ held)
  have left : (middle.say (.have_ piece)).download.roster.queued number = rest :=
    (Roster.queued_congr cancelled.quiet.mailboxes _).trans (Roster.queued_rest queued)
  rw [Download.mem_pending, queued] at waits
  rw [Download.mem_pending, left]
  rcases List.mem_cons.mp waits with same | behind
  · exact absurd (Command.have_.inj same) (of_decide_eq_true other)
  · exact behind

theorem obey_have {piece : Nat} {rest : List Command}
    (queued : turn.download.roster.queued number = .have_ piece :: rest) :
    turn.obey number = ended ((turn.take number rest).onLocalHave piece) := by
  simp only [obey, queued]

/-- A command to part is no news. -/
theorem Awaited.dismissed (awaited : turn.Awaited number) {rest : List Command}
    (queued : turn.download.roster.queued number = .disconnect :: rest) :
    (turn.take number rest).Awaited number := by
  intro request member held
  have waits := awaited request member held
  have left : (turn.take number rest).download.roster.queued number = rest :=
    Roster.queued_rest queued
  rw [Download.mem_pending, queued] at waits
  rw [Download.mem_pending, left]
  exact (List.mem_cons.mp waits).resolve_left nofun

end Turn

namespace Worker

variable {worker : Worker} {download later : Download} {after : Turn} {next : Next}

/-- A block of a complete piece is on its way only while the news of the piece waits. -/
def Awaited (worker : Worker) (download : Download) : Prop :=
  (worker.turn download).Awaited worker.mailbox

theorem Awaited.informs (awaited : worker.Awaited download)
    (reached : download.Reaches worker.mailbox)
    (informs : download.Informs worker.address worker.mailbox later) : worker.Awaited later := by
  intro request member held
  cases earlier : download.holdings.has request.piece with
  | true => exact informs.keeps (awaited request member earlier)
  | false => exact informs.brings reached held earlier

theorem Fetches.awaited (fetches : worker.Fetches download after next)
    (settled : worker.Settled download) (orderly : download.roster.Orderly)
    (awaited : worker.Awaited download) : after.Awaited worker.mailbox := by
  cases fetches with
  | resumes narrows pursues => exact (Turn.Awaited.narrows awaited narrows).pursues pursues
  | completes piece pursues =>
    have announced : worker.Awaited (download.verify piece) :=
      awaited.informs settled.reached (Download.verify_informs orderly piece)
    exact announced.pursues pursues
  | hears piece rest queued => exact Turn.Awaited.hears awaited settled.sized queued
  | dismissed rest queued => exact Turn.Awaited.dismissed awaited queued

end Worker

namespace Crowd

variable {crowd : Crowd}

/-- Nobody waits in vain for a block that is not needed any more. -/
theorem Sound.step_awaited (sound : crowd.Sound)
    (awaited : ∀ worker ∈ crowd.workers, worker.Awaited crowd.download) (stretch : Stretch) :
    ∀ worker ∈ (crowd.step stretch).workers, worker.Awaited (crowd.step stretch).download := by
  intro worker member
  cases sound.fate member with
  | stays earlier informs =>
    exact (awaited worker earlier).informs (sound.settled worker earlier).reached informs
  | @acts address deed earlier turn next _ found performed same download =>
    subst same
    have there := worker?_some found
    have settled := sound.settled earlier there
    have fetches := Worker.perform_fetches settled.sized performed
    rw [download]
    exact fetches.awaited settled sound.orderly (awaited earlier there)
  | comes _ _ none =>
    intro request asked
    have empty : worker.session.downloads = [] := none
    exact absurd (empty ▸ asked) List.not_mem_nil

theorem Sound.run_awaited (sound : crowd.Sound)
    (awaited : ∀ worker ∈ crowd.workers, worker.Awaited crowd.download)
    (stretches : List Stretch) :
    ∀ worker ∈ (crowd.run stretches).workers, worker.Awaited (crowd.run stretches).download := by
  induction stretches generalizing crowd with
  | nil => exact awaited
  | cons stretch later ih => exact ih (sound.step stretch) (sound.step_awaited awaited stretch)

end Crowd

/-- However the handlers interleave, and whatever the store answers: while a block of a complete
piece is on its way from a peer, the news of the piece waits for it; whoever obeys the news of a
piece does not fail, withdraws the requests for the piece, each once and in their order, before it
passes the news on, and has no block of the piece on its way and nothing to fetch of it
afterwards. -/
theorem run_recalls (torrent : Torrent) (settings : Settings) (selector : Selector)
    (ownId : PeerId) (draws : List Nat) (stretches : List Stretch) :
    let crowd := (Crowd.start torrent settings selector ownId draws).run stretches
    let download := crowd.download
    ∀ worker ∈ crowd.workers,
      (∀ request ∈ worker.session.downloads, download.holdings.has request.piece = true →
        .have_ request.piece ∈ download.roster.queued worker.mailbox) ∧
      ∀ piece rest, worker.waiting = none →
        download.roster.queued worker.mailbox = .have_ piece :: rest →
        ∃ after flow said, worker.perform download .obey = some (after, .done (.ok flow)) ∧
          after.outbox = (worker.session.downloads.filter (·.piece = piece)).map Message.cancel ++
            .have_ piece :: said ∧
          (∀ message ∈ said, message.recalls = false) ∧
          (∀ request ∈ after.session.downloads, request.piece ≠ piece) ∧
          after.session.assigned ≠ some piece := by
  intro crowd download worker member
  have start := Crowd.start_sound torrent settings selector ownId draws
  have settled := (start.run stretches).settled worker member
  have awaited := start.run_awaited (fun _ inside => nomatch inside) stretches worker member
  refine ⟨fun request asked held => Download.mem_pending.mp (awaited request asked held), ?_⟩
  intro piece rest idle queued
  have waits : piece ∈ download.pending worker.mailbox :=
    Download.mem_pending.mpr (queued ▸ List.mem_cons_self)
  have complete : download.holdings.has piece = true :=
    settled.informed.genuine piece (.inr (List.mem_append_right _ waits))
  have taken : ((worker.turn download).take worker.mailbox rest).Sized := settled.sized
  obtain ⟨⟨said, outbox, insists⟩, apart, assigned, flow, ended⟩ :=
    Turn.onLocalHave_recalls taken complete
  refine ⟨_, flow, said, ?_, outbox, insists, apart, assigned⟩
  have obeyed := @Turn.obey_have (worker.turn download) _ _ _ queued
  simp only [Worker.perform, idle, obeyed, Turn.ended, ended]

/-- Both peers are asked for the only block, and the first one is faster. -/
def Sample.overtaken : List Stretch :=
  [.join first peerId .incoming .none 0, .join second peerId .incoming .none 0,
    .perform first (.receive 0 (.have_ 0)), .perform second (.receive 0 (.have_ 0)),
    .perform first (.receive 0 .unchoke), .perform second (.receive 0 .unchoke),
    .perform first (.receive 0 (.piece 0 0 content)),
    .perform first (.resume (.written (.ok ()))),
    .perform first (.resume (.hashed (.ok (sha1 content))))]

/-- The request to the second peer is withdrawn as soon as it obeys. -/
theorem run_recalls_overtaken :
    let crowd := (Crowd.start Sample.torrent {} ⟨.sequential, true⟩ Sample.peerId []).run
      Sample.overtaken
    ∃ worker ∈ crowd.workers, worker.session.downloads = [Sample.request] ∧
      crowd.download.holdings.has 0 = true ∧
      ∃ after flow said, worker.perform crowd.download .obey = some (after, .done (.ok flow)) ∧
        after.outbox = .cancel Sample.request :: .have_ 0 :: said := by
  have reached : let crowd := (Crowd.start Sample.torrent {} ⟨.sequential, true⟩
        Sample.peerId []).run Sample.overtaken;
      (crowd.workers.any fun worker =>
        decide (worker.session.downloads = [Sample.request]) && worker.waiting.isNone &&
          decide (crowd.download.roster.queued worker.mailbox = [.have_ 0])) = true ∧
      crowd.download.holdings.has 0 = true := by
    decide +kernel
  have facts := run_recalls Sample.torrent {} ⟨.sequential, true⟩ Sample.peerId [] Sample.overtaken
  generalize (Crowd.start Sample.torrent {} ⟨.sequential, true⟩ Sample.peerId []).run
    Sample.overtaken = crowd at facts reached ⊢
  obtain ⟨found, complete⟩ := reached
  obtain ⟨worker, member, same⟩ := List.any_eq_true.mp found
  simp only [Bool.and_eq_true, decide_eq_true_eq, Option.isNone_iff_eq_none] at same
  obtain ⟨⟨asked, idle⟩, queued⟩ := same
  obtain ⟨after, flow, said, performed, outbox, -⟩ := (facts worker member).2 0 [] idle queued
  rw [asked] at outbox
  exact ⟨worker, member, asked, complete, after, flow, said, performed, outbox⟩

end BitTorrent
