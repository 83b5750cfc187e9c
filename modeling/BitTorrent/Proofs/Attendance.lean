import BitTorrent.Engine.Control
import BitTorrent.Proofs.Side
import BitTorrent.Proofs.Tenure

/-!
What a torrent sees of the engine that has it. To every torrent each link is an attempt, and
whatever the engine does is a run of steps of a reception, unless it stops a link by force. Calls
are begun and callers answered only for torrents that are managed.
-/

set_option autoImplicit false

namespace BitTorrent

open Relation (ReflTransGen)

namespace Reception

variable {reception : Reception} {managed : Bool} {number : Nat}

/-- A handler whose waits are served at once by a store in memory. -/
theorem settles (store : MemoryStore) {worker : Worker} {deed : Deed} {turn : Turn} {next : Next}
    (there : reception.attempts[number]? = some (.live worker.address worker.mailbox))
    (performed : worker.perform reception.download deed = some (turn, next)) :
    (Turn.settle store (turn, next)).turn.session.address = worker.address ∧
      ReflTransGen (Allowed managed) reception
        (reception.withDownload (Turn.settle store (turn, next)).turn.download) := by
  induction left : next.waits using Nat.strongRecOn
    generalizing reception store worker deed turn next with
  | ind waits ih =>
    have own : turn.session.address = worker.address := (Worker.perform_stands performed).address
    cases next with
    | done result => exact ⟨own, .single (.of_still (.works there performed) rfl)⟩
    | wait awaiting =>
      obtain ⟨⟨later, behind⟩, resumed, settled⟩ := Worker.perform_wait store performed
      have still : (reception.withDownload turn.download).attempts[number]? = some
          (.live (worker.after turn (.wait awaiting)).address worker.mailbox) := by
        rw [show (worker.after turn (.wait awaiting)).address = worker.address from own]
        exact there
      obtain ⟨same, rest⟩ := ih behind.waits (left ▸ Turn.resume_waits resumed)
        (store.answer awaiting).1 still resumed rfl
      rw [settled]
      exact ⟨same.trans own, .head (.of_still (.works there performed) rfl) rest⟩

end Reception

/-- What a connection does leaves it with its address and its mailbox, and is a run of steps of any
reception that has the connection. -/
structure Connection.Works (download : Download) (connection : Connection) (later : Download)
    (done : Connection) : Prop where
  address : done.session.address = connection.session.address
  mailbox : done.mailbox = connection.mailbox
  steps : ∀ {managed : Bool} {reception : Reception} {number : Nat},
    reception.download = download →
    reception.attempts[number]? = some (.live connection.session.address connection.mailbox) →
    ReflTransGen (Reception.Allowed managed) reception (reception.withDownload later)

namespace Connection

variable {connection done : Connection} {transfer : Transfer}

/-- Nothing is done that others see. -/
theorem Works.still (address : done.session.address = connection.session.address)
    (mailbox : done.mailbox = connection.mailbox) (download : Download) :
    connection.Works download download done where
  address := address
  mailbox := mailbox
  steps := by
    rintro managed ⟨_, attempts⟩ number rfl there
    exact .refl

theorem perform_works {now : Nat} {duty : Duty} (written : connection.outbox = [])
    (found : connection.duty? transfer.download.roster now = some duty) :
    connection.Works transfer.download (connection.perform transfer now duty).transfer.download
      (connection.perform transfer now duty).connection := by
  cases called : duty.deed now with
  | error cause =>
    cases duty with
    | frame frame =>
      cases frame with
      | error reason => refine .still ?_ ?_ _ <;> rfl
      | ok message => cases called
    | command | upload | tick => cases called
  | ok deed =>
    obtain ⟨turn, next, performed, done⟩ := perform_worker written found called
    rw [done]
    refine ⟨?_, by cases duty <;> rfl, ?_⟩
    · -- Whether the connection is the only one makes no difference to it.
      exact (@Reception.settles ⟨transfer.download,
        [.live connection.session.address connection.mailbox]⟩ true 0 transfer.store _ _ _ _ rfl
          performed).1
    · intro managed reception number current there
      exact (Reception.settles transfer.store there (current ▸ performed)).2

/-- What is left of the torrent when a connection takes its leave. -/
theorem download_finish (connection : Connection) (transfer : Transfer) :
    (connection.finish transfer).download =
      (Turn.onDisconnect (Worker.turn ⟨connection.session, connection.mailbox, [], none⟩
        transfer.download)).download.withRoster
          ((Turn.onDisconnect (Worker.turn ⟨connection.session, connection.mailbox, [], none⟩
            transfer.download)).download.roster.close connection.mailbox) := by
  simp only [finish, turn, Transfer.turn, Worker.turn, Turn.onDisconnect, Turn.unassign]
  cases connection.session.assigned <;> rfl

end Connection

namespace Stage

/-- What a link is to a torrent. Until it says which one it wants, a link that was accepted may come
to any of them. -/
def attempt (address : Address) (torrent : Nat) : Stage → Attempt
  | calling own source => if own = torrent then .called address source else .past
  | greeting own source _ _ => if own = torrent then .dialling address source else .past
  | hearing .. => .accepted address
  | running line connection _ =>
    if line.torrent = torrent then .live connection.session.address connection.mailbox else .past
  | abandoned _ | ended _ => .past

/-- Whether a link was stopped by force. -/
def isAbandoned : Stage → Bool
  | abandoned _ => true
  | _ => false

/-- A call for a torrent that has not come to an end yet. -/
def Calls (torrent : Nat) : Stage → Prop
  | calling own _ | greeting own _ _ _ => own = torrent
  | _ => False

theorem attempt_own (address : Address) {line : Line} {torrent : Nat}
    (own : line.torrent = torrent) (connection : Connection) (sending : Option Sending) :
    attempt address torrent (running line connection sending) =
      .live connection.session.address connection.mailbox :=
  if_pos own

theorem attempt_other (address : Address) {line : Line} {torrent : Nat}
    (different : torrent ≠ line.torrent) (connection : Connection) (sending : Option Sending) :
    attempt address torrent (running line connection sending) = .past :=
  if_neg (Ne.symm different)

variable {stage : Stage} {torrent other : Nat}

theorem Calls.dials (calls : stage.Calls torrent) (address : Address) :
    (stage.attempt address torrent).dials? = some address := by
  cases stage <;> cases calls <;> simp [attempt, Attempt.dials?]

theorem calls_of_dials {address whom : Address}
    (dials : (stage.attempt address torrent).dials? = some whom) :
    address = whom ∧ stage.Calls torrent := by
  cases stage with
  | calling own source | greeting own source stream deadline =>
    simp only [attempt] at dials
    split at dials
    · rename_i same
      exact ⟨Option.some.inj dials, same⟩
    · cases dials
  | running line connection sending =>
    simp only [attempt] at dials
    split at dials <;> cases dials
  | hearing stream deadline | abandoned line | ended result => cases dials

theorem Calls.past (calls : stage.Calls torrent) (different : other ≠ torrent)
    (address : Address) : stage.attempt address other = .past := by
  cases stage <;> cases calls <;> simp [attempt, Ne.symm different]

theorem Calls.firm (calls : stage.Calls torrent) : stage.isAbandoned = false := by
  cases stage <;> first | rfl | cases calls

end Stage

namespace Engine

variable {before middle after engine : Engine}

/-- No link was stopped by force. -/
def Calm (engine : Engine) : Prop :=
  ∀ link ∈ engine.links, link.stage.isAbandoned = false

/-- What a torrent sees of an engine; a torrent that is not there yet is a fresh one. -/
def reception (engine : Engine) (torrent : Nat) (fresh : Download) : Reception where
  download := ((engine.transfer? torrent).map (·.download)).getD fresh
  attempts := engine.links.map fun link => link.stage.attempt link.address torrent

/-- What an engine has from the beginning, and the torrents that it manages. -/
def frame (engine : Engine) : Settings × PeerId × List (Digest × Nat) :=
  (engine.settings, engine.ownId, engine.registry)

/-- A torrent is managed, or is not there yet. -/
def manages (engine : Engine) (torrent : Nat) : Bool :=
  decide (engine.transfers.length ≤ torrent ∨ torrent ∈ engine.registry.map (·.2))

theorem mem_registry_of_find? {hash : Digest} {torrent : Nat}
    (found : engine.find? hash = some torrent) : (hash, torrent) ∈ engine.registry := by
  obtain ⟨front, back, same, -⟩ := List.lookup_eq_some_iff.mp found
  rw [same]
  exact List.mem_append_right _ List.mem_cons_self

theorem manages_of_find? {hash : Digest} {torrent : Nat}
    (found : engine.find? hash = some torrent) : engine.manages torrent = true :=
  decide_eq_true (Or.inr (List.mem_map_of_mem (mem_registry_of_find? found)))

/-- One state of an engine comes from another: every torrent goes through steps of a reception that
are allowed to it, unless a link is stopped by force. -/
structure Advances (before after : Engine) : Prop where
  frame : after.frame = before.frame
  count : after.transfers.length = before.transfers.length
  calm : after.Calm → before.Calm
  steps : after.Calm → ∀ (torrent : Nat) (fresh : Download), fresh.roster = Roster.empty →
    ReflTransGen (Reception.Allowed (before.manages torrent)) (before.reception torrent fresh)
      (after.reception torrent fresh)

/-- Neither who is managed nor who is there changes. -/
theorem Advances.manages (advances : before.Advances after) (torrent : Nat) :
    after.manages torrent = before.manages torrent := by
  have registry : after.registry = before.registry := congrArg (·.2.2) advances.frame
  rw [Engine.manages, Engine.manages, advances.count, registry]

theorem Advances.refl (engine : Engine) : engine.Advances engine :=
  ⟨rfl, rfl, id, fun _ _ _ _ => .refl⟩

theorem Advances.trans (first : before.Advances middle) (second : middle.Advances after) :
    before.Advances after where
  frame := second.frame.trans first.frame
  count := second.count.trans first.count
  calm := first.calm ∘ second.calm
  steps := fun calm torrent fresh empty =>
    (first.steps (second.calm calm) torrent fresh empty).trans
      (first.manages torrent ▸ second.steps calm torrent fresh empty)

/-! What no torrent sees: the network, the time, the meters, who is ready, and what the readers are
at. -/

/-- Two states that no torrent can tell apart. -/
structure Alike (before after : Engine) : Prop where
  frame : after.frame = before.frame
  links : after.links.map (fun link => (link.address, link.stage)) =
    before.links.map fun link => (link.address, link.stage)
  downloads : after.transfers.map (·.download) = before.transfers.map (·.download)

theorem Alike.refl (engine : Engine) : engine.Alike engine :=
  ⟨rfl, rfl, rfl⟩

theorem Alike.trans (first : before.Alike middle) (second : middle.Alike after) :
    before.Alike after where
  frame := second.frame.trans first.frame
  links := second.links.trans first.links
  downloads := second.downloads.trans first.downloads

theorem Alike.reception (alike : before.Alike after) (torrent : Nat) (fresh : Download) :
    after.reception torrent fresh = before.reception torrent fresh := by
  have download : (after.reception torrent fresh).download =
      (before.reception torrent fresh).download := by
    simp only [Engine.reception, transfer?, ← List.getElem?_map, alike.downloads]
  have attempts : (after.reception torrent fresh).attempts =
      (before.reception torrent fresh).attempts := by
    have mapped := congrArg (List.map fun pair => pair.2.attempt pair.1 torrent) alike.links
    rwa [List.map_map, List.map_map] at mapped
  exact congrArg₂ Reception.mk download attempts

theorem Alike.advances (alike : before.Alike after) : before.Advances after where
  frame := alike.frame
  count := by simpa only [List.length_map] using congrArg List.length alike.downloads
  calm := by
    intro calm link member
    have paired : (link.address, link.stage) ∈
        after.links.map fun link => (link.address, link.stage) :=
      alike.links ▸ List.mem_map_of_mem member
    obtain ⟨same, there, pair⟩ := List.mem_map.mp paired
    exact (Prod.mk.inj pair).2 ▸ calm same there
  steps := by
    intro calm torrent fresh empty
    rw [alike.reception]

/-- A link keeps its address and its stage. -/
theorem Alike.link? (alike : before.Alike after) {number : Nat} {address : Address}
    {stage : Stage} {reader : Reader}
    (there : before.link? number = some ⟨address, stage, reader⟩) :
    ∃ other, after.link? number = some ⟨address, stage, other⟩ := by
  have found : before.links[number]? = some ⟨address, stage, reader⟩ := there
  have same := congrArg (·[number]?) alike.links
  simp only [List.getElem?_map, found] at same
  obtain ⟨⟨_, _, other⟩, kept, pair⟩ := Option.map_eq_some_iff.mp same
  cases pair
  exact ⟨other, kept⟩

/-- A torrent keeps what its connections share. -/
theorem Alike.transfer? (alike : before.Alike after) {torrent : Nat} {transfer : Transfer}
    (there : before.transfer? torrent = some transfer) :
    ∃ other, after.transfer? torrent = some other ∧ other.download = transfer.download := by
  have found : before.transfers[torrent]? = some transfer := there
  have same := congrArg (·[torrent]?) alike.downloads
  simp only [List.getElem?_map, found] at same
  exact Option.map_eq_some_iff.mp same

theorem network_alike (engine : Engine) (network : Network) :
    engine.Alike { engine with network := network } :=
  ⟨rfl, rfl, rfl⟩

theorem wake_alike (engine : Engine) (task : Task) : engine.Alike (engine.wake task) := by
  unfold wake
  split <;> exact ⟨rfl, rfl, rfl⟩

theorem foldl_wake_alike (tasks : List Task) (engine : Engine) :
    engine.Alike (tasks.foldl wake engine) := by
  induction tasks generalizing engine with
  | nil => exact .refl engine
  | cons task rest ih => exact (engine.wake_alike task).trans (ih _)

theorem notify_alike (engine : Engine) (stream : Nat) : engine.Alike (engine.notify stream) :=
  foldl_wake_alike _ engine

theorem notifyMailboxes_alike (engine : Engine) (torrent : Nat) :
    engine.Alike (engine.notifyMailboxes torrent) := by
  unfold notifyMailboxes
  split
  · exact .refl engine
  · exact foldl_wake_alike _ engine

theorem setReader_alike (engine : Engine) (number : Nat) (reader : Reader) :
    engine.Alike (engine.setReader number reader) where
  frame := rfl
  links := by
    refine List.ext_getElem? fun index => ?_
    simp only [setReader, List.getElem?_map, List.getElem?_modify]
    split <;> cases engine.links[index]? <;> rfl
  downloads := rfl

theorem unblock_alike (engine : Engine) (number : Nat) (reader : Reader) (duty : Duty) :
    engine.Alike (engine.unblock number reader duty) := by
  unfold unblock
  split
  · split
    · exact engine.wake_alike _
    · exact .refl engine
  · exact .refl engine

/-- The meters of a torrent change. -/
theorem setTransfer_alike {torrent : Nat} {transfer later : Transfer}
    (there : engine.transfer? torrent = some transfer)
    (same : later.download = transfer.download) :
    engine.Alike (engine.setTransfer torrent later) where
  frame := rfl
  links := rfl
  downloads := by
    have inside := (List.getElem?_eq_some_iff.mp there).1
    refine List.ext_getElem? fun index => ?_
    rw [setTransfer, List.map_set, List.getElem?_set]
    split
    · rename_i here
      rw [← here, List.getElem?_map, show engine.transfers[torrent]? = some transfer from there,
        List.length_map, if_pos inside, same]
      rfl
    · rfl

theorem transfer?_setTransfer {torrent : Nat} {transfer later : Transfer}
    (mine : engine.transfer? torrent = some transfer) :
    (engine.setTransfer torrent later).transfer? torrent = some later := by
  have found : engine.transfers[torrent]? = some transfer := mine
  exact List.getElem?_set_self (List.getElem?_eq_some_iff.mp found).1

theorem modifyTransfer_eq {torrent : Nat} {transfer : Transfer}
    (mine : engine.transfer? torrent = some transfer)
    (change : Transfer → Transfer) :
    engine.modifyTransfer torrent change = engine.setTransfer torrent (change transfer) := by
  have found : engine.transfers[torrent]? = some transfer := mine
  rw [modifyTransfer, List.modify_eq_set_getElem?, found]
  rfl

theorem modifyTransfer_absent {torrent : Nat} (absent : engine.transfer? torrent = none)
    (change : Transfer → Transfer) : engine.modifyTransfer torrent change = engine := by
  have missing : engine.transfers[torrent]? = none := absent
  rw [modifyTransfer, List.modify_eq_set_getElem?, missing]
  rfl

/-! What becomes of one link. -/

section

variable {number own : Nat} {link : Link} {next : Stage} {transfer later : Transfer}

theorem attempt_of_link (there : engine.link? number = some link) (torrent : Nat)
    (fresh : Download) : (engine.reception torrent fresh).attempts[number]? =
      some (link.stage.attempt link.address torrent) := by
  have found : engine.links[number]? = some link := there
  rw [reception, List.getElem?_map, found]
  rfl

theorem link_of_attempt {torrent : Nat} {attempt : Attempt} (fresh : Download)
    (seen : (engine.reception torrent fresh).attempts[number]? = some attempt) :
    ∃ link, engine.link? number = some link ∧
      link.stage.attempt link.address torrent = attempt := by
  rw [reception, List.getElem?_map] at seen
  exact Option.map_eq_some_iff.mp seen

theorem attempts_modify (there : before.link? number = some link)
    (links : after.links = before.links.modify number fun link => { link with stage := next })
    (torrent : Nat) (fresh : Download) : (after.reception torrent fresh).attempts =
      (before.reception torrent fresh).attempts.set number
        (next.attempt link.address torrent) := by
  have found : before.links[number]? = some link := there
  refine List.ext_getElem? fun index => ?_
  simp only [reception, links, List.getElem?_map, List.getElem?_modify, List.getElem?_set,
    List.length_map]
  split
  · rename_i here
    subst here
    rw [found, if_pos (List.getElem?_eq_some_iff.mp found).1]
    rfl
  · cases before.links[index]? <;> rfl

/-- A link that was not stopped by force comes to another stage. -/
theorem Advances.of_put (there : before.link? number = some link)
    (firm : link.stage.isAbandoned = false) (frame : after.frame = before.frame)
    (count : after.transfers.length = before.transfers.length)
    (links : after.links = before.links.modify number fun link => { link with stage := next })
    (steps : next.isAbandoned = false → ∀ (torrent : Nat) (fresh : Download),
      fresh.roster = Roster.empty → ReflTransGen (Reception.Allowed (before.manages torrent))
        (before.reception torrent fresh)
        (((before.reception torrent fresh).withDownload
          (after.reception torrent fresh).download).put number
            (next.attempt link.address torrent))) :
    before.Advances after where
  frame := frame
  count := count
  calm := by
    intro calm other member
    obtain ⟨index, found⟩ := List.mem_iff_getElem?.mp member
    by_cases here : number = index
    · subst here
      cases found.symm.trans there
      exact firm
    · refine calm other (List.mem_iff_getElem?.mpr ⟨index, ?_⟩)
      rw [links, List.getElem?_modify_ne _ _ here]
      exact found
  steps := by
    intro calm torrent fresh empty
    have found : before.links[number]? = some link := there
    have changed : after.links[number]? = some { link with stage := next } := by
      rw [links, List.getElem?_modify_eq, found]
      rfl
    have same : ((before.reception torrent fresh).withDownload
        (after.reception torrent fresh).download).put number (next.attempt link.address torrent) =
          after.reception torrent fresh :=
      congrArg (Reception.mk _) (attempts_modify there links torrent fresh).symm
    exact same ▸ steps (calm _ (List.mem_of_getElem? changed)) torrent fresh empty

theorem link?_setStage (there : engine.link? number = some link) :
    (engine.setStage number next).link? number = some { link with stage := next } := by
  have found : engine.links[number]? = some link := there
  rw [link?, setStage, List.getElem?_modify_eq, found]
  rfl

theorem download_of_transfer {torrent : Nat} (mine : engine.transfer? torrent = some transfer)
    (fresh : Download) : (engine.reception torrent fresh).download = transfer.download := by
  rw [reception, mine]
  rfl

/-- A link comes to another stage, and nothing else happens that a torrent sees. -/
theorem Advances.of_stage (there : engine.link? number = some link)
    (firm : link.stage.isAbandoned = false)
    (steps : ∀ {reception : Reception} (torrent : Nat),
      (∀ transfer, engine.transfer? torrent = some transfer →
        reception.download = transfer.download) →
      reception.attempts[number]? = some (link.stage.attempt link.address torrent) →
      ReflTransGen (Reception.Allowed (engine.manages torrent)) reception
        (reception.put number (next.attempt link.address torrent))) :
    engine.Advances (engine.setStage number next) :=
  .of_put there firm rfl rfl rfl fun _ torrent fresh _ =>
    steps torrent (fun _ mine => download_of_transfer mine fresh)
      (attempt_of_link there torrent fresh)

theorem download_set (mine : before.transfer? own = some transfer)
    (transfers : after.transfers = before.transfers.set own later) (torrent : Nat)
    (fresh : Download) : (after.reception torrent fresh).download =
      if torrent = own then later.download else (before.reception torrent fresh).download := by
  have found : before.transfers[own]? = some transfer := mine
  split
  · rename_i same
    rw [reception, transfer?, transfers, same,
      List.getElem?_set_self (List.getElem?_eq_some_iff.mp found).1]
    rfl
  · rename_i different
    rw [reception, transfer?, transfers, List.getElem?_set_ne (Ne.symm different)]
    rfl

/-- A link comes to another stage, and its torrent changes. -/
theorem Advances.of_turn (there : before.link? number = some link)
    (firm : link.stage.isAbandoned = false) (mine : before.transfer? own = some transfer)
    (frame : after.frame = before.frame)
    (links : after.links = before.links.modify number fun link => { link with stage := next })
    (transfers : after.transfers = before.transfers.set own later)
    (steps : ∀ {reception : Reception}, reception.download = transfer.download →
      reception.attempts[number]? = some (link.stage.attempt link.address own) →
      ReflTransGen (Reception.Allowed (before.manages own)) reception
        ((reception.withDownload later.download).put number (next.attempt link.address own)))
    (others : ∀ {reception : Reception} {torrent : Nat}, torrent ≠ own →
      reception.attempts[number]? = some (link.stage.attempt link.address torrent) →
      ReflTransGen (Reception.Allowed (before.manages torrent)) reception
        (reception.put number (next.attempt link.address torrent))) :
    before.Advances after := by
  refine .of_put there firm frame (by rw [transfers, List.length_set]) links
    fun _ torrent fresh _ => ?_
  have located := attempt_of_link there torrent fresh
  rw [download_set mine transfers]
  split
  · rename_i same
    subst same
    exact steps (download_of_transfer mine fresh) located
  · rename_i different
    exact others different located

end

/-- A torrent changes, and no link does. -/
theorem Advances.of_transfer {own : Nat} {transfer later : Transfer}
    (mine : before.transfer? own = some transfer) (frame : after.frame = before.frame)
    (links : after.links = before.links)
    (transfers : after.transfers = before.transfers.set own later)
    (steps : ∀ {reception : Reception}, reception.download = transfer.download →
      ReflTransGen (Reception.Allowed (before.manages own)) reception
        (reception.withDownload later.download)) :
    before.Advances after where
  frame := frame
  count := by rw [transfers, List.length_set]
  calm := fun calm link member => calm link (links ▸ member)
  steps := by
    intro calm torrent fresh empty
    have whole : after.reception torrent fresh = (before.reception torrent fresh).withDownload
        (after.reception torrent fresh).download := by
      simp only [reception, Reception.withDownload, links]
    rw [whole, download_set mine transfers]
    split
    · rename_i same
      subst same
      exact steps (download_of_transfer mine fresh)
    · exact .refl

/-- There is one more link. -/
theorem Advances.of_link {address : Address} {stage : Stage} {reader : Reader}
    (frame : after.frame = before.frame)
    (count : after.transfers.length = before.transfers.length)
    (links : after.links = before.links ++ [⟨address, stage, reader⟩])
    (steps : ∀ (torrent : Nat) (fresh : Download),
      ReflTransGen (Reception.Allowed (before.manages torrent)) (before.reception torrent fresh)
        (((before.reception torrent fresh).withDownload
          (after.reception torrent fresh).download).begin (stage.attempt address torrent))) :
    before.Advances after where
  frame := frame
  count := count
  calm := fun calm link member => calm link (links ▸ List.mem_append_left _ member)
  steps := by
    intro calm torrent fresh empty
    have whole : after.reception torrent fresh = ((before.reception torrent fresh).withDownload
        (after.reception torrent fresh).download).begin (stage.attempt address torrent) := by
      simp only [reception, Reception.withDownload, Reception.begin, links, List.map_append]
      rfl
    exact whole ▸ steps torrent fresh

end Engine

end BitTorrent
