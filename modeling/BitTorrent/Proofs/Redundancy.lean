import BitTorrent.Proofs.Crowd

/-!
Connections that are of no use to either side end. Once all pieces are there, a command waits for
every peer that has them all, and whichever command it is, the peer is left for it.
-/

set_option autoImplicit false

namespace BitTorrent

/-- Whether a handler ends by asking to close the connection. -/
def Next.parts : Next → Bool
  | .done (.ok .leave) => true
  | _ => false

namespace Turn

variable {turn after : Turn} {number : Nat}

/-- If the connection is of no use, a command waits in the mailbox. -/
def Attended (turn : Turn) (number : Nat) : Prop :=
  turn.isRedundant = true → turn.download.roster.queued number ≠ []

theorem Quiet.redundant (quiet : turn.Quiet after)
    (bitfield : after.session.bitfield = turn.session.bitfield) :
    after.isRedundant = turn.isRedundant := by
  rw [isRedundant, bitfield, Holdings.isComplete, quiet.completed]
  rfl

theorem Attended.quiet (attended : turn.Attended number) (quiet : turn.Quiet after)
    (bitfield : after.session.bitfield = turn.session.bitfield) : after.Attended number := by
  intro redundant
  rw [quiet.redundant bitfield] at redundant
  rw [Roster.queued_congr quiet.mailboxes]
  exact attended redundant

theorem Pursues.redundant (pursues : turn.Pursues after) :
    after.isRedundant = turn.isRedundant :=
  pursues.quiet.redundant pursues.bitfield

/-- When the peer has more pieces than before, it is left exactly if it is of no use. -/
theorem onAvailability_leaves (sized : turn.Sized) :
    turn.onAvailability.1.isRedundant = true → turn.onAvailability.2 = .ok .leave := by
  obtain ⟨pursues, -⟩ := onAvailability_pursues sized
  intro redundant
  rw [pursues.redundant] at redundant
  rw [onAvailability_eq, if_pos redundant]

/-- When a piece is complete, the peer is left if it is of no use. -/
theorem onLocalHave_leaves (turn : Turn) (piece : Nat) (redundant : turn.isRedundant = true) :
    (turn.onLocalHave piece).2 = .ok .leave := by
  obtain ⟨middle, pursues, told⟩ := turn.cancelRequests_pursues piece
  have useless : (turn.cancelRequests piece).isRedundant = true := by
    rw [told]
    exact pursues.redundant.trans redundant
  simp only [onLocalHave, useless, ↓reduceIte]

theorem onLocalHave_redundant (sized : turn.Sized) (piece : Nat) :
    (turn.onLocalHave piece).1.isRedundant = turn.isRedundant := by
  obtain ⟨middle, before, later, -⟩ := onLocalHave_pursues sized piece
  exact later.redundant.trans before.redundant

theorem Basis.bitfield {event : Event} {base : Turn} (basis : turn.Basis event base) :
    base.session.bitfield = turn.session.bitfield := by
  cases basis with
  | same | published => rfl
  | unchoked =>
    rw [Session.unchoke_eq]
    split <;> rfl
  | choked =>
    rw [Session.choke_eq]
    split <;> rfl

/-- Whoever was attended to is so after an event, and when an event changes what the peer has, it is
left if it must be. -/
theorem handle_attended (sized : turn.Sized) {event : Event}
    (attended : event = .bitfield ∨ (∃ piece, event = .have_ piece) ∨ turn.Attended number) :
    (turn.handle event).2.parts = true ∨ (turn.handle event).1.Attended number := by
  have available : ∀ {other : Event}, turn.handle other = ended turn.onAvailability →
      (turn.handle other).2.parts = true ∨ (turn.handle other).1.Attended number := by
    intro other handled
    rw [handled]
    by_cases redundant : turn.onAvailability.1.isRedundant = true
    · left
      rw [ended, onAvailability_leaves sized redundant]
      rfl
    · exact Or.inr fun same => absurd same redundant
  rcases attended with rfl | ⟨piece, rfl⟩ | attended
  · exact available rfl
  · exact available rfl
  · obtain ⟨base, basis, pursues, -⟩ := handle_pursues sized event
    refine Or.inr (attended.quiet (handle_quiet sized event) ?_)
    exact pursues.bitfield.trans basis.bitfield

end Turn

/-- What the peer has changes only with an event that says so. -/
theorem Session.receive_bitfield (session : Session) (now : Nat) (message : Message) :
    (session.receive now message).2 = .ok .bitfield ∨
      (∃ piece, (session.receive now message).2 = .ok (.have_ piece)) ∨
      (session.receive now message).1.bitfield = session.bitfield := by
  unfold receive
  split
  · cases message with
    | have_ piece =>
      simp only [apply]
      split
      · exact .inr (.inl ⟨piece, rfl⟩)
      · exact .inr (.inr rfl)
    | bitfield bytes =>
      simp only [apply]
      split
      · exact .inl rfl
      · exact .inr (.inr rfl)
    | request request =>
      simp only [apply]
      split
      · exact .inr (.inr rfl)
      · split <;> exact .inr (.inr rfl)
    | piece | cancel =>
      simp only [apply]
      split <;> exact .inr (.inr rfl)
    | _ => exact .inr (.inr rfl)
  · exact .inr (.inr rfl)

namespace Turn

variable {turn : Turn} {number : Nat}

theorem receive_attended (sized : turn.Sized) (attended : turn.Attended number) (now : Nat)
    (message : Message) :
    (turn.receive now message).2.parts = true ∨ (turn.receive now message).1.Attended number := by
  obtain ⟨-, -, size⟩ := turn.session.receive_keeps now message
  have heard := turn.session.receive_bitfield now message
  unfold receive
  split
  · rename_i session violation received
    rw [received] at heard
    rcases heard with bitfield | ⟨piece, have_⟩ | same
    · cases bitfield
    · cases have_
    · right
      intro redundant
      rw [isRedundant, same] at redundant
      exact attended redundant
  · rename_i session event received
    rw [received] at heard size
    refine @handle_attended { turn with session := session } number (size.trans sized) event ?_
    rcases heard with bitfield | ⟨piece, have_⟩ | same
    · exact .inl (Except.ok.inj bitfield)
    · exact .inr (.inl ⟨piece, Except.ok.inj have_⟩)
    · refine .inr (.inr fun redundant => ?_)
      rw [isRedundant, same] at redundant
      exact attended redundant

/-- Every command that is obeyed ends a connection that is of no use. -/
theorem obey_leaves (turn : Turn) (number : Nat) (redundant : turn.isRedundant = true)
    (waits : turn.download.roster.queued number ≠ []) :
    (turn.obey number).2 = .done (.ok .leave) := by
  unfold obey
  split
  · rename_i empty
    exact absurd empty waits
  · rfl
  · rename_i piece rest queued
    have taken : (turn.take number rest).isRedundant = true := redundant
    rw [ended, onLocalHave_leaves _ piece taken]

theorem obey_attended (sized : turn.Sized) (attended : turn.Attended number) :
    (turn.obey number).2.parts = true ∨ (turn.obey number).1.Attended number := by
  by_cases redundant : turn.isRedundant = true
  · left
    rw [obey_leaves turn number redundant (attended redundant)]
    rfl
  · right
    intro later
    refine absurd ?_ redundant
    unfold obey at later
    split at later
    · exact later
    · exact later
    · rename_i piece rest queued
      have same := @onLocalHave_redundant (turn.take number rest) sized piece
      exact same.symm.trans later

theorem Stores.bitfield {request : BlockRequest} {outcome : Except Fault Unit} {base : Turn}
    {next : Next} (stores : turn.Stores request outcome base next) :
    base.session.bitfield = turn.session.bitfield := by
  cases stores <;> rfl

theorem Checks.session {piece : Piece} {outcome : Except Fault Digest} {base : Turn}
    (checks : turn.Checks piece outcome base) : base.session = turn.session := by
  cases checks <;> rfl

theorem serve_session (turn : Turn) : turn.serve.1.session.bitfield = turn.session.bitfield := by
  unfold serve Session.takeUpload
  cases turn.session.upload with
  | none => rfl
  | some request =>
    dsimp only
    split
    · rfl
    · split <;> rfl

end Turn

namespace Download

variable {before after : Download} {address : Address} {number : Nat}

/-- What becomes complete last is announced to everybody. -/
theorem Informs.queued (informs : before.Informs address number after)
    (reached : before.Reaches number) (complete : after.holdings.isComplete = true)
    (earlier : before.holdings.isComplete = true → before.roster.queued number ≠ []) :
    after.roster.queued number ≠ [] := by
  obtain ⟨news, queued, -, -, whole⟩ := informs.news
  rw [queued]
  cases complete_before : before.holdings.isComplete with
  | true =>
    intro empty
    exact earlier complete_before (List.append_eq_nil_iff.mp empty).1
  | false =>
    have lacking : ∃ piece < before.holdings.completed.size,
        before.holdings.completed.has piece = false := by
      by_contra none
      have full : before.holdings.completed.isFull = true :=
        (Bitfield.isFull_iff _).mpr fun piece inside => by
          by_contra absent
          exact none ⟨piece, inside, Bool.eq_false_iff.mpr absent⟩
      exact nomatch complete_before.symm.trans full
    obtain ⟨piece, inside, missing⟩ := lacking
    have held := (Bitfield.isFull_iff _).mp complete piece (informs.size.symm ▸ inside)
    have announced := whole reached held missing
    intro empty
    rw [(List.append_eq_nil_iff.mp empty).2] at announced
    cases announced

end Download

namespace Worker

variable {worker : Worker} {download later : Download} {after : Turn} {next : Next}

/-- If the connection is of no use, a command waits for it. -/
def Attended (worker : Worker) (download : Download) : Prop :=
  (worker.turn download).Attended worker.mailbox

theorem Attended.informs (attended : worker.Attended download) (settled : worker.Settled download)
    (informs : download.Informs worker.address worker.mailbox later) : worker.Attended later := by
  intro redundant
  obtain ⟨full, complete⟩ := Bool.and_eq_true_iff.mp redundant
  refine informs.queued settled.reached complete fun before => ?_
  exact attended (Bool.and_eq_true_iff.mpr ⟨full, before⟩)

theorem resume_attended (settled : worker.Settled download) (orderly : download.roster.Orderly)
    (attended : worker.Attended download) {awaiting : Awaiting} {reply : Reply}
    (resumed : (worker.turn download).resume awaiting reply = some (after, next)) :
    after.Attended worker.mailbox := by
  have sized : (worker.turn download).Sized := settled.sized
  unfold Turn.resume at resumed
  split at resumed
  · rename_i request _ _ outcome
    obtain ⟨rfl, -⟩ := Prod.mk.inj (Option.some.inj resumed)
    obtain ⟨base, stores, pursues⟩ := Turn.afterWrite_pursues sized request outcome
    exact Turn.Attended.quiet attended (Turn.afterWrite_quiet sized _ _)
      (pursues.bitfield.trans stores.bitfield)
  · rename_i piece outcome
    obtain ⟨rfl, -⟩ := Prod.mk.inj (Option.some.inj resumed)
    obtain ⟨base, checks, pursues, -⟩ := Turn.afterChecksum_pursues sized piece outcome
    have bitfield : ((worker.turn download).afterChecksum piece outcome).1.session.bitfield =
        worker.session.bitfield := pursues.bitfield.trans (congrArg Session.bitfield checks.session)
    rcases Turn.afterChecksum_quiet sized piece outcome with quiet | quiet
    · exact Turn.Attended.quiet attended quiet bitfield
    · have announced : (worker.turn (download.verify piece)).Attended worker.mailbox :=
        attended.informs settled (Download.verify_informs orderly piece)
      exact announced.quiet quiet bitfield
  · rename_i request _ outcome
    obtain ⟨rfl, -⟩ := Prod.mk.inj (Option.some.inj resumed)
    refine Turn.Attended.quiet attended (Turn.afterRead_quiet _ request outcome) ?_
    cases outcome <;> rfl
  · cases resumed

/-- A worker that does something is attended to afterwards, or asks to close its connection. -/
theorem perform_attended (settled : worker.Settled download) (orderly : download.roster.Orderly)
    (attended : worker.Attended download) {deed : Deed}
    (performed : worker.perform download deed = some (after, next)) :
    next.parts = true ∨ after.Attended worker.mailbox := by
  have sized : (worker.turn download).Sized := settled.sized
  unfold perform at performed
  dsimp only at performed
  split at performed
  · exact .inr (resume_attended settled orderly attended performed)
  all_goals first
    | (cases performed; done)
    | obtain ⟨rfl, rfl⟩ := Prod.mk.inj (Option.some.inj performed)
  · exact .inr attended
  · exact Turn.receive_attended sized attended _ _
  · exact .inr (Turn.Attended.quiet attended (Turn.serve_quiet _) (Turn.serve_session _))
  · exact Turn.obey_attended sized attended
  · refine .inr (Turn.Attended.quiet attended (Turn.checkIdle_quiet _ _) ?_)
    rcases (worker.turn download).checkIdle_cases _ with idle | idle | idle
    · rw [idle]
    · rw [idle]
      rfl
    · rw [idle]

end Worker

namespace Crowd

variable {crowd : Crowd}

/-- Where a worker comes from that is there after a stretch: it has heard what there was to hear, or
it has just acted, or it is new. -/
inductive Fate (crowd : Crowd) (stretch : Stretch) (worker : Worker) : Prop
  | stays : worker ∈ crowd.workers →
      crowd.download.Informs worker.address worker.mailbox (crowd.step stretch).download →
      Fate crowd stretch worker
  | acts {address : Address} {deed : Deed} {earlier : Worker} {turn : Turn} {next : Next} :
      stretch = .perform address deed → crowd.worker? address = some earlier →
      earlier.perform crowd.download deed = some (turn, next) →
      worker = earlier.after turn next → (crowd.step stretch).download = turn.download →
      Fate crowd stretch worker
  | comes : worker.session.bitfield = .empty crowd.download.torrent.pieceCount →
      worker.waiting = none → worker.session.downloads = [] → worker.session.assigned = none →
      worker.session.amInterested = false → Fate crowd stretch worker

theorem unmoved (crowd : Crowd) (worker : Worker) :
    crowd.download.Informs worker.address worker.mailbox crowd.download :=
  .still rfl rfl id rfl rfl

theorem Sound.perform_fate (sound : crowd.Sound) {address : Address} {deed : Deed}
    {worker : Worker} (member : worker ∈ (crowd.step (.perform address deed)).workers) :
    crowd.Fate (.perform address deed) worker := by
  cases found : crowd.worker? address with
  | none =>
    have same : crowd.step (.perform address deed) = crowd := by
      simp only [Crowd.step, Crowd.perform, found]
    rw [same] at member
    exact .stays member (same.symm ▸ crowd.unmoved worker)
  | some earlier =>
    cases performed : earlier.perform crowd.download deed with
    | none =>
      have same : crowd.step (.perform address deed) = crowd := by
        simp only [Crowd.step, Crowd.perform, found, performed]
      rw [same] at member
      exact .stays member (same.symm ▸ crowd.unmoved worker)
    | some outcome =>
      obtain ⟨turn, next⟩ := outcome
      have same : crowd.step (.perform address deed) =
          crowd.put turn.download (earlier.after turn next) := by
        simp only [Crowd.step, Crowd.perform, found, performed]
      have there := worker?_some found
      have tells := earlier.perform_tells (sound.settled earlier there).sized performed
      have download : (crowd.step (.perform address deed)).download = turn.download := by
        rw [same]
        rfl
      rw [same] at member
      obtain ⟨other, old, rfl⟩ := List.mem_map.mp member
      split
      · exact .acts rfl found performed rfl download
      · rename_i elsewhere
        have different : other.address ≠ earlier.address :=
          fun equal => elsewhere (equal.trans tells.address.symm)
        rw [if_neg elsewhere] at member
        refine .stays old ?_
        rw [download]
        exact tells.informs sound.orderly (sound.apart there old different)

theorem Sound.fate (sound : crowd.Sound) {stretch : Stretch} {worker : Worker}
    (member : worker ∈ (crowd.step stretch).workers) : crowd.Fate stretch worker := by
  have idle : crowd.step stretch = crowd → crowd.Fate stretch worker := by
    intro same
    rw [same] at member
    exact .stays member (same.symm ▸ crowd.unmoved worker)
  cases stretch with
  | perform address deed => exact sound.perform_fate member
  | join address peerId source capabilities now =>
    cases attached : crowd.download.roster.attach address peerId source with
    | error fault => exact idle (by simp only [Crowd.step, Crowd.join, attached])
    | ok outcome =>
      obtain ⟨roster, mailbox⟩ := outcome
      have download : (crowd.step (.join address peerId source capabilities now)).download =
          crowd.download.withRoster roster := by
        simp only [Crowd.step, Crowd.join, attached]
      simp only [Crowd.step, Crowd.join, attached] at member
      rcases List.mem_append.mp member with earlier | new
      · exact .stays earlier (download ▸ (sound.join_informs attached earlier).2)
      · rw [List.mem_singleton.mp new]
        exact .comes rfl rfl rfl rfl rfl
  | leave address =>
    cases found : crowd.worker? address with
    | none => exact idle (by simp only [Crowd.step, found])
    | some gone =>
      have same : crowd.step (.leave address) =
          crowd.dismiss (gone.turn crowd.download).onDisconnect.download gone := by
        simp only [Crowd.step, found]
      have quiet := (gone.turn crowd.download).onDisconnect_quiet
      have kept : ∀ {other box}, other ≠ gone.address →
          (other, box) ∈ crowd.download.roster.lines →
          (other, box) ∈ (gone.turn crowd.download).onDisconnect.download.roster.lines := by
        intro other box elsewhere lined
        rw [Turn.lines_onDisconnect]
        exact List.mem_filter.mpr ⟨lined, decide_eq_true elsewhere⟩
      rw [same] at member
      obtain ⟨earlier, informs⟩ := @Sound.dismiss_informs crowd sound gone worker
        (gone.turn crowd.download).onDisconnect.download (worker?_some found) quiet.torrent
        quiet.completed quiet.mailboxes kept member
      exact .stays earlier (same.symm ▸ informs)
  | abandon address =>
    cases found : crowd.worker? address with
    | none => exact idle (by simp only [Crowd.step, found])
    | some gone =>
      have same : crowd.step (.abandon address) = crowd.dismiss crowd.download gone := by
        simp only [Crowd.step, found]
      rw [same] at member
      obtain ⟨earlier, informs⟩ :=
        sound.dismiss_informs (worker?_some found) rfl rfl rfl (fun _ => id) member
      exact .stays earlier (same.symm ▸ informs)
  | know address peerId source =>
    exact .stays member (crowd.know_informs address peerId source worker)
  | forget address => exact .stays member (sound.forget_informs address worker)
  | shutdown => exact .stays member (Download.broadcast_informs sound.orderly .disconnect rfl)
  | ban ip =>
    refine .stays member ?_
    change crowd.download.Informs _ _ (crowd.download.ban ip)
    unfold Download.ban
    split <;> exact .still rfl rfl id rfl rfl
  | recheck store =>
    by_cases alone : crowd.workers.isEmpty = true
    · simp only [Crowd.step, alone, ↓reduceIte] at member
      rw [List.isEmpty_iff.mp alone] at member
      cases member
    · exact idle (by simp only [Crowd.step, alone, Bool.false_eq_true, ↓reduceIte])

/-- Nothing that happens changes the torrent. -/
theorem Sound.step_torrent (sound : crowd.Sound) (stretch : Stretch) :
    (crowd.step stretch).download.torrent = crowd.download.torrent := by
  cases stretch with
  | perform address deed =>
    unfold Crowd.step Crowd.perform
    dsimp only
    split
    · rfl
    · rename_i worker found
      split
      · rfl
      · rename_i turn next performed
        have sized := (sound.settled worker (worker?_some found)).sized
        have tells := worker.perform_tells sized performed
        exact (@Worker.Tells.informs _ _ _ tells sound.orderly worker.address _
          (Nat.succ_ne_self _)).torrent
  | join address peerId source capabilities now =>
    unfold Crowd.step Crowd.join
    dsimp only
    split <;> rfl
  | leave address =>
    unfold Crowd.step
    dsimp only
    split
    · rfl
    · rename_i worker found
      exact (worker.turn crowd.download).onDisconnect_quiet.torrent
  | abandon address =>
    unfold Crowd.step
    dsimp only
    split <;> rfl
  | know | forget | shutdown => rfl
  | ban ip => exact (crowd.download.ban_evolves ip).torrent
  | recheck store =>
    unfold Crowd.step
    dsimp only
    split
    · exact (crowd.download.recheck_evolves store).torrent
    · rfl

theorem Sound.run_torrent (sound : crowd.Sound) (stretches : List Stretch) :
    (crowd.run stretches).download.torrent = crowd.download.torrent := by
  induction stretches generalizing crowd with
  | nil => rfl
  | cons stretch later ih => exact (ih (sound.step stretch)).trans (sound.step_torrent stretch)

end Crowd

/-- A crowd, and the mailboxes of those whose handler has asked to close the connection. No handler
is called for them any more, but others may run until they are gone. -/
structure Company where
  crowd : Crowd
  parting : List Nat

namespace Company

variable {company : Company}

/-- Those whose connections go on. -/
def staying (company : Company) : List Worker :=
  company.crowd.workers.filter (·.mailbox ∉ company.parting)

def start (torrent : Torrent) (settings : Settings) (selector : Selector) (ownId : PeerId)
    (draws : List Nat) : Company :=
  ⟨.start torrent settings selector ownId draws, []⟩

/-- A worker does something, and is about to part if its handler asks for it. -/
def perform (company : Company) (address : Address) (deed : Deed) : Company :=
  match company.crowd.worker? address with
  | none => company
  | some worker =>
    if worker.mailbox ∈ company.parting then company
    else
      let parts := (worker.perform company.crowd.download deed).any (·.2.parts)
      ⟨company.crowd.perform address deed,
        if parts then worker.mailbox :: company.parting else company.parting⟩

def step (company : Company) : Stretch → Company
  | .perform address deed => company.perform address deed
  | stretch => { company with crowd := company.crowd.step stretch }

def run (company : Company) (stretches : List Stretch) : Company :=
  stretches.foldl step company

theorem mem_staying {worker : Worker} :
    worker ∈ company.staying ↔
      worker ∈ company.crowd.workers ∧ worker.mailbox ∉ company.parting := by
  simp [staying]

/-- No handler runs for whoever is about to part. -/
theorem crowd_step (company : Company) (stretch : Stretch) :
    (company.step stretch).crowd = company.crowd.step stretch ∨
      (company.step stretch).crowd = company.crowd := by
  cases stretch with
  | perform address deed =>
    unfold step perform
    dsimp only
    split
    · exact .inr rfl
    · split
      · exact .inr rfl
      · exact .inl rfl
  | join | leave | abandon | know | forget | shutdown | ban | recheck => exact .inl rfl

/-- Where a worker comes from that stays after a stretch: it has heard what there was to hear, or
it has just acted and goes on, or it is new. -/
inductive Fate (company : Company) (stretch : Stretch) (worker : Worker) : Prop
  | stays : worker ∈ company.staying →
      company.crowd.download.Informs worker.address worker.mailbox
        (company.step stretch).crowd.download →
      Fate company stretch worker
  | acts {deed : Deed} {earlier : Worker} {turn : Turn} {next : Next} :
      earlier ∈ company.staying →
      earlier.perform company.crowd.download deed = some (turn, next) → next.parts = false →
      worker = earlier.after turn next → (company.step stretch).crowd.download = turn.download →
      Fate company stretch worker
  | comes : worker.session.bitfield = .empty company.crowd.download.torrent.pieceCount →
      worker.session.downloads = [] → worker.session.assigned = none →
      worker.session.amInterested = false → Fate company stretch worker

theorem fate (sound : company.crowd.Sound) {stretch : Stretch} {worker : Worker}
    (member : worker ∈ (company.step stretch).staying) : company.Fate stretch worker := by
  have idle : company.step stretch = company → company.Fate stretch worker := by
    intro same
    rw [same] at member
    exact .stays member (same.symm ▸ company.crowd.unmoved worker)
  cases stretch with
  | perform address deed =>
    cases found : company.crowd.worker? address with
    | none => exact idle (by simp only [step, perform, found])
    | some actor =>
      by_cases parting : actor.mailbox ∈ company.parting
      · exact idle (by simp only [step, perform, found, if_pos parting])
      · have same : company.step (.perform address deed) =
            ⟨company.crowd.step (.perform address deed),
              if (actor.perform company.crowd.download deed).any (·.2.parts) then
                actor.mailbox :: company.parting else company.parting⟩ := by
          simp only [step, perform, found, if_neg parting, Crowd.step]
        rw [same] at member
        obtain ⟨there, stays⟩ := mem_staying.mp member
        cases sound.fate there with
        | stays earlier informs =>
          refine .stays (mem_staying.mpr ⟨earlier, fun gone => stays ?_⟩) (same ▸ informs)
          dsimp only
          split
          · exact List.mem_cons_of_mem _ gone
          · exact gone
        | @acts _ _ earlier turn next performs located performed after download =>
          cases performs
          cases found.symm.trans located
          refine .acts (mem_staying.mpr ⟨Crowd.worker?_some found, parting⟩) performed ?_ after
            (same ▸ download)
          rw [performed, Option.any_some] at stays
          cases parts : next.parts with
          | false => rfl
          | true =>
            have mine : worker.mailbox = actor.mailbox := after ▸ rfl
            simp only [parts, ↓reduceIte] at stays
            exact absurd (mine ▸ List.mem_cons_self) stays
        | comes empty _ downloads assigned interest =>
          exact .comes empty downloads assigned interest
  | join | leave | abandon | know | forget | shutdown | ban | recheck =>
    obtain ⟨there, stays⟩ := mem_staying.mp member
    cases sound.fate there with
    | stays earlier informs => exact .stays (mem_staying.mpr ⟨earlier, stays⟩) informs
    | acts performs => cases performs
    | comes empty _ downloads assigned interest => exact .comes empty downloads assigned interest

/-- A torrent has a piece, and whoever stays is attended to. -/
structure Sound (company : Company) : Prop where
  crowd : company.crowd.Sound
  nonempty : 0 < company.crowd.download.torrent.pieceCount
  attended : ∀ worker ∈ company.staying, worker.Attended company.crowd.download

theorem step_sound (sound : company.crowd.Sound) (stretch : Stretch) :
    (company.step stretch).crowd.Sound := by
  rcases company.crowd_step stretch with same | same <;> rw [same]
  · exact sound.step stretch
  · exact sound

theorem Sound.step (sound : company.Sound) (stretch : Stretch) :
    (company.step stretch).Sound where
  crowd := step_sound sound.crowd stretch
  nonempty := by
    rcases company.crowd_step stretch with same | same <;> rw [same]
    · rw [sound.crowd.step_torrent stretch]
      exact sound.nonempty
    · exact sound.nonempty
  attended := by
    intro worker member
    cases fate sound.crowd member with
    | stays earlier informs =>
      have settled := sound.crowd.settled worker (mem_staying.mp earlier).1
      exact (sound.attended worker earlier).informs settled informs
    | @acts deed earlier turn next there performed goes_on same download =>
      subst same
      have settled := sound.crowd.settled earlier (mem_staying.mp there).1
      rcases earlier.perform_attended settled sound.crowd.orderly (sound.attended earlier there)
        performed with parts | attended
      · exact nomatch goes_on.symm.trans parts
      · rw [download]
        exact attended
    | comes empty =>
      intro redundant
      obtain ⟨full, -⟩ := Bool.and_eq_true_iff.mp redundant
      have first := (Bitfield.isFull_iff _).mp full 0
      have bitfield : (worker.turn (company.step stretch).crowd.download).session.bitfield =
          .empty company.crowd.download.torrent.pieceCount := empty
      rw [bitfield, Bitfield.size_empty, Bitfield.has_empty] at first
      exact nomatch first sound.nonempty

theorem Sound.run (sound : company.Sound) (stretches : List Stretch) :
    (company.run stretches).Sound := by
  induction stretches generalizing company with
  | nil => exact sound
  | cons stretch later ih => exact ih (sound.step stretch)

theorem start_sound {torrent : Torrent} (nonempty : 0 < torrent.pieceCount) (settings : Settings)
    (selector : Selector) (ownId : PeerId) (draws : List Nat) :
    (start torrent settings selector ownId draws).Sound :=
  ⟨Crowd.start_sound torrent settings selector ownId draws, nonempty,
    fun _ member => nomatch member⟩

end Company

/-- However the handlers interleave, and whatever the store answers: once all pieces are there, a
command waits for every peer that has them all and has not been asked to part; obeying it, whatever
it is, ends with the wish to part, and so does the news of any piece. So once no command waits and
those who were to part are gone, nobody who has all pieces is connected. -/
theorem run_parts {torrent : Torrent} (nonempty : 0 < torrent.pieceCount) (settings : Settings)
    (selector : Selector) (ownId : PeerId) (draws : List Nat) (stretches : List Stretch) :
    let company := (Company.start torrent settings selector ownId draws).run stretches
    let download := company.crowd.download
    (∀ worker ∈ company.staying, worker.session.bitfield.isFull = true →
      download.holdings.isComplete = true →
        download.roster.queued worker.mailbox ≠ [] ∧
        (worker.waiting = none →
          ∃ turn, worker.perform download .obey = some (turn, .done (.ok .leave))) ∧
        ∀ piece, ((worker.turn download).onLocalHave piece).2 = .ok .leave) ∧
    ((∀ worker ∈ company.crowd.workers,
        worker ∈ company.staying ∧ download.roster.queued worker.mailbox = []) →
      download.holdings.isComplete = true →
        ∀ worker ∈ company.crowd.workers, worker.session.bitfield.isFull = false) := by
  intro company download
  have sound : company.Sound :=
    (Company.start_sound nonempty settings selector ownId draws).run stretches
  refine ⟨?_, ?_⟩
  · intro worker member full complete
    have redundant : (worker.turn download).isRedundant = true :=
      Bool.and_eq_true_iff.mpr ⟨full, complete⟩
    have waits := sound.attended worker member redundant
    refine ⟨waits, ?_, fun piece => Turn.onLocalHave_leaves _ piece redundant⟩
    intro idle
    have leaves := (worker.turn download).obey_leaves worker.mailbox redundant waits
    refine ⟨((worker.turn download).obey worker.mailbox).1, ?_⟩
    rw [← leaves]
    simp only [Worker.perform, idle]
  · intro drained complete worker member
    obtain ⟨stays, empty⟩ := drained worker member
    by_contra full
    rw [Bool.not_eq_false] at full
    exact sound.attended worker stays (Bool.and_eq_true_iff.mpr ⟨full, complete⟩) empty

/-- Two peers have the piece, which is fetched from the first. -/
def Sample.surplus : List Stretch :=
  [.join first peerId .incoming .none 0, .join second peerId .incoming .none 0,
    .perform first (.receive 0 (.have_ 0)), .perform second (.receive 0 (.have_ 0)),
    .perform first (.receive 0 .unchoke), .perform first (.receive 0 (.piece 0 0 content)),
    .perform first (.resume (.written (.ok ()))),
    .perform first (.resume (.hashed (.ok (sha1 content))))]

/-- The second peer, which gave us nothing, parts as soon as it obeys. -/
theorem run_parts_surplus :
    let company := (Company.start Sample.torrent {} ⟨.sequential, false⟩ Sample.peerId []).run
      Sample.surplus
    ∃ worker ∈ company.staying, worker.address = Sample.second ∧
      ∃ turn, worker.perform company.crowd.download .obey = some (turn, .done (.ok .leave)) := by
  have reached : let company := (Company.start Sample.torrent {} ⟨.sequential, false⟩
        Sample.peerId []).run Sample.surplus;
      company.staying.any (fun worker => decide (worker.address = Sample.second) &&
        worker.session.bitfield.isFull && worker.waiting.isNone) = true ∧
      company.crowd.download.holdings.isComplete = true := by
    decide +kernel
  obtain ⟨facts, -⟩ := @run_parts Sample.torrent (by decide) {} ⟨.sequential, false⟩
    Sample.peerId [] Sample.surplus
  generalize (Company.start Sample.torrent {} ⟨.sequential, false⟩ Sample.peerId []).run
    Sample.surplus = company at facts reached ⊢
  obtain ⟨found, complete⟩ := reached
  obtain ⟨worker, member, same⟩ := List.any_eq_true.mp found
  simp only [Bool.and_eq_true, decide_eq_true_eq, Option.isNone_iff_eq_none] at same
  obtain ⟨⟨address, full⟩, idle⟩ := same
  exact ⟨worker, member, address, (facts worker member full complete).2.1 idle⟩

end BitTorrent
