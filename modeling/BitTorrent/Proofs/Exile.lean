import BitTorrent.Proofs.Pardon
import BitTorrent.Proofs.Rejection

/-!
What a ban means for the connections of an address. From the moment it falls no piece is assigned to
any of them and no interest is declared; blocks are asked for only of a piece that was assigned
before. What these peers have still counts, and their uploads go on as if there was no ban.
-/

set_option autoImplicit false

namespace BitTorrent

/-- What may enter the log of a banned peer that one piece, or none, is still fetched from: no
interest is declared, and blocks are asked for of that piece only. -/
def Exchange.Allowed (assigned : Option Nat) : Exchange → Prop
  | .sent .interested => False
  | .sent (.request request) => assigned = some request.piece
  | _ => True

theorem Exchange.Allowed.mono {entry : Exchange} {fetched assigned : Option Nat}
    (allowed : entry.Allowed fetched)
    (narrower : ∀ {piece}, fetched = some piece → assigned = some piece) :
    entry.Allowed assigned := by
  cases entry with
  | sent message =>
    cases message with
    | request request => exact narrower allowed
    | _ => exact allowed
  | _ => trivial

namespace Peer

/-- A later state of a connection. Nothing is assigned to it that was not, and what was said in
between may be said to a banned peer that one piece, or none, is fetched from. -/
structure Shunned (fetched : Option Nat) (before after : Peer) : Prop where
  address : after.address = before.address
  mailbox : after.mailbox = before.mailbox
  assigned : ∀ {piece}, after.session.assigned = some piece → before.session.assigned = some piece
  log : ∃ rest, after.log = before.log ++ rest ∧ ∀ entry ∈ rest, entry.Allowed fetched

/-- Nothing was ever asked of a peer and no interest in it was declared. -/
structure Ignored (peer : Peer) : Prop where
  unassigned : peer.session.assigned = none
  log : ∀ entry ∈ peer.log, entry.Allowed none

variable {before middle after : Peer} {fetched : Option Nat}

theorem Shunned.refl (peer : Peer) : peer.Shunned fetched peer :=
  ⟨rfl, rfl, id, [], (List.append_nil _).symm, List.forall_mem_nil _⟩

theorem Shunned.trans (first : before.Shunned before.session.assigned middle)
    (second : middle.Shunned middle.session.assigned after) :
    before.Shunned before.session.assigned after where
  address := second.address.trans first.address
  mailbox := second.mailbox.trans first.mailbox
  assigned := first.assigned ∘ second.assigned
  log := by
    obtain ⟨rest, left, allowed⟩ := first.log
    obtain ⟨more, right, permitted⟩ := second.log
    refine ⟨rest ++ more, by rw [right, left, List.append_assoc], ?_⟩
    exact List.forall_mem_append.mpr
      ⟨allowed, fun entry member => (permitted entry member).mono first.assigned⟩

theorem Ignored.shunned (ignored : before.Ignored)
    (shunned : before.Shunned before.session.assigned after) : after.Ignored where
  unassigned := by
    cases assigned : after.session.assigned with
    | none => rfl
    | some piece => exact nomatch ignored.unassigned.symm.trans (shunned.assigned assigned)
  log := by
    obtain ⟨rest, grown, allowed⟩ := shunned.log
    rw [ignored.unassigned] at allowed
    rw [grown]
    exact List.forall_mem_append.mpr ⟨ignored.log, allowed⟩

/-- A peer that has just connected, with a ban or without, was not asked for anything yet. -/
theorem welcome_ignored (download : Download) (address : Address) (peerId : PeerId)
    (capabilities : Capabilities) (now mailbox : Nat) :
    (Swarm.welcome download address peerId capabilities now mailbox).Ignored :=
  ⟨rfl, List.forall_mem_nil _⟩

end Peer

/-- No move assigns a piece to a banned peer, declares interest in it, or asks it for another piece
than the one that is fetched from it. -/
theorem Move.shunned {scene after : Scene} (move : Move scene after)
    (banned : scene.download.isBanned scene.peer.address.ip = true) :
    scene.peer.Shunned scene.peer.session.assigned after.peer := by
  let fetched := scene.peer.session.assigned
  have none : ∀ entry ∈ ([] : List Exchange), entry.Allowed fetched := List.forall_mem_nil _
  have one : ∀ {entry : Exchange}, entry.Allowed fetched → ∀ other ∈ [entry],
      other.Allowed fetched := fun allowed => List.forall_mem_singleton.mpr allowed
  have more : ∀ {first last : List Exchange}, (∀ entry ∈ first, entry.Allowed fetched) →
      (∀ entry ∈ last, entry.Allowed fetched) → ∀ entry ∈ first ++ last, entry.Allowed fetched :=
    fun left right => List.forall_mem_append.mpr ⟨left, right⟩
  have cancels : ∀ (requests : List BlockRequest),
      ∀ entry ∈ requests.map (Exchange.sent <| .cancel ·), entry.Allowed fetched :=
    fun _ => List.forall_mem_map.mpr fun _ _ => trivial
  cases move with
  | took piece unassigned unchoked free => exact nomatch banned.symm.trans free
  | asked index piece block assigned =>
    have own : (Exchange.sent (.request ⟨index, block.offset, block.length⟩)).Allowed fetched :=
      assigned
    exact ⟨rfl, rfl, id, _, rfl, one own⟩
  | announced now message field useful kind sized needless welcome =>
    cases useful with
    | true => exact nomatch banned.symm.trans (welcome rfl)
    | false => exact ⟨rfl, rfl, id, _, List.append_assoc _ _ _, more (one trivial) none⟩
  | interested now =>
    refine ⟨rfl, rfl, id, _, List.append_assoc _ _ _, more (one trivial) ?_⟩
    split
    · exact one trivial
    · exact none
  | notInterested now =>
    refine ⟨rfl, rfl, id, _, List.append_assoc _ _ _, more (one trivial) ?_⟩
    split
    · exact none
    · exact one trivial
  | told piece =>
    exact ⟨rfl, rfl, id, _, List.append_assoc _ _ _, more (cancels _) (one trivial)⟩
  | recalled piece =>
    exact ⟨rfl, rfl, (nomatch ·), _, List.append_assoc _ _ _, more (cancels _) (one trivial)⟩
  | completed | corrupted | unreadable =>
    exact ⟨rfl, rfl, (nomatch ·), _, List.append_assoc _ _ _, more (one trivial) (one trivial)⟩
  | accepted | lost | stored =>
    exact ⟨rfl, rfl, id, _, List.append_assoc _ _ _, more (one trivial) (one trivial)⟩
  | released => exact ⟨rfl, rfl, (nomatch ·), [], (List.append_nil _).symm, none⟩
  | choked => exact ⟨rfl, rfl, (nomatch ·), _, rfl, one trivial⟩
  | skipped | unserved | obeyed | parted =>
    exact ⟨rfl, rfl, id, [], (List.append_nil _).symm, none⟩
  | _ => exact ⟨rfl, rfl, id, _, rfl, one trivial⟩

/-- No move notes that a piece is fetched from a banned address. -/
theorem Move.listed {scene after : Scene} (move : Move scene after) {piece : Nat}
    {address : Address} (banned : scene.download.isBanned address.ip = true)
    (listed : (piece, address) ∈ after.download.assignments) :
    (piece, address) ∈ scene.download.assignments := by
  cases move with
  | choked | released | recalled => exact (Exclusive.mem_free.mp listed).1
  | lost now fault =>
    change _ ∈ (scene.download.record fault).assignments at listed
    rwa [Download.assignments_record] at listed
  | completed =>
    change _ ∈ (Download.verify _ _).assignments at listed
    rw [Download.assignments_verify] at listed
    exact (List.mem_filter.mp listed).1
  | corrupted =>
    change _ ∈ (Download.reject _ _ _).assignments at listed
    rw [Download.assignments_reject] at listed
    exact (List.mem_filter.mp listed).1
  | unreadable now store fault =>
    change _ ∈ (Download.record _ fault).assignments at listed
    rw [Download.assignments_record] at listed
    exact (List.mem_filter.mp listed).1
  | took other unassigned unchoked free =>
    rcases Turn.mem_assign.mp listed with earlier | ⟨-, rfl⟩
    · exact earlier
    · exact nomatch banned.symm.trans free
  | unserved download origin =>
    rcases origin with rfl | ⟨fault, rfl⟩
    · exact listed
    · change _ ∈ (scene.download.record fault).assignments at listed
      rwa [Download.assignments_record] at listed
  | _ => exact listed

/-- A handler does nothing that a ban forbids. -/
theorem Course.shunned {scene after : Scene} (course : Course scene after)
    (banned : scene.download.isBanned scene.peer.address.ip = true) :
    scene.peer.Shunned scene.peer.session.assigned after.peer := by
  -- No move lifts a ban, so each of them is made under it.
  have moved : ∀ {middle : Scene}, Moves scene middle →
      scene.peer.Shunned scene.peer.session.assigned middle.peer := by
    intro middle moves
    induction moves with
    | refl => exact .refl _
    | tail moves move ih =>
      refine ih.trans (move.shunned ?_)
      rw [ih.address]
      exact (Moves.evolves moves).banned banned
  obtain ⟨middle, moves, rfl | withdrawal⟩ := course
  · exact moved moves
  · refine (moved moves).trans ?_
    rw [withdrawal.result]
    exact ⟨rfl, rfl, id, _, rfl, List.forall_mem_singleton.mpr trivial⟩

theorem Course.listed {scene after : Scene} (course : Course scene after) {piece : Nat}
    {address : Address} (banned : scene.download.isBanned address.ip = true)
    (listed : (piece, address) ∈ after.download.assignments) :
    (piece, address) ∈ scene.download.assignments := by
  have moved : ∀ {middle : Scene}, Moves scene middle →
      (piece, address) ∈ middle.download.assignments →
      (piece, address) ∈ scene.download.assignments := by
    intro middle moves
    induction moves with
    | refl => exact id
    | tail moves move ih =>
      exact fun later => ih (move.listed ((Moves.evolves moves).banned banned) later)
  obtain ⟨middle, moves, rfl | withdrawal⟩ := course
  · exact moved moves listed
  · rw [withdrawal.download] at listed
    exact moved moves listed

namespace Swarm

variable {swarm before middle after : Swarm} {ip : IpAddress} {happening : Happening}

/-- What becomes of a banned address: it stays banned, nothing more is assigned to it, and each of
its peers goes on as far as it may, or has connected meanwhile and is not asked for anything. -/
structure Exiles (ip : IpAddress) (before after : Swarm) : Prop where
  banned : after.download.isBanned ip = true
  assignments : ∀ {piece : Nat} {address : Address}, address.ip = ip →
    (piece, address) ∈ after.download.assignments → (piece, address) ∈ before.download.assignments
  peers : ∀ peer ∈ after.peers, peer.address.ip = ip →
    (∃ earlier ∈ before.peers, earlier.Shunned earlier.session.assigned peer) ∨ peer.Ignored

theorem Exiles.refl (banned : swarm.download.isBanned ip = true) : swarm.Exiles ip swarm :=
  ⟨banned, fun _ => id, fun peer member _ => Or.inl ⟨peer, member, .refl peer⟩⟩

theorem Exiles.trans (first : before.Exiles ip middle) (second : middle.Exiles ip after) :
    before.Exiles ip after where
  banned := second.banned
  assignments := fun own => first.assignments own ∘ second.assignments own
  peers := by
    intro peer member own
    rcases second.peers peer member own with ⟨earlier, there, shunned⟩ | ignored
    · rcases first.peers earlier there (shunned.address ▸ own) with ⟨oldest, present, since⟩ | fresh
      · exact Or.inl ⟨oldest, present, since.trans shunned⟩
      · exact Or.inr (fresh.shunned shunned)
    · exact Or.inr ignored

/-- Whatever happens, a banned address is treated as one. -/
theorem Step.exiles (step : swarm.Step after) (banned : swarm.download.isBanned ip = true) :
    swarm.Exiles ip after := by
  have same : ∀ {peer : Peer}, peer ∈ swarm.peers →
      (∃ earlier ∈ swarm.peers, earlier.Shunned earlier.session.assigned peer) ∨ peer.Ignored :=
    fun member => Or.inl ⟨_, member, .refl _⟩
  cases step with
  | idle | faults writes reads => exact ⟨banned, fun _ => id, fun _ member _ => same member⟩
  | @acted actor scene present course =>
    refine ⟨course.evolves.banned banned, fun own => course.listed (own ▸ banned), ?_⟩
    intro peer member own
    have there : swarm.Present scene :=
      Present.persists ⟨actor, present, rfl⟩ course.persists
    rcases (mem_put there).mp member with rfl | ⟨old, -⟩
    · have acting : actor.address.ip = ip := course.persists.address ▸ own
      exact Or.inl ⟨actor, present, course.shunned (acting ▸ banned)⟩
    · exact same old
  | joined capabilities now attached =>
    refine ⟨banned, fun _ => id, fun peer member _ => ?_⟩
    rcases List.mem_append.mp member with old | new
    · exact same old
    · rw [List.mem_singleton.mp new]
      exact Or.inr (Peer.welcome_ignored _ _ _ _ _ _)
  | @left gone _ =>
    refine ⟨(swarm.download.free_evolves gone.session).banned banned,
      fun _ listed => (Exclusive.mem_free.mp listed).1,
      fun _ member _ => same (List.mem_filter.mp member).1⟩
  | rechecked =>
    refine ⟨(swarm.download.recheck_evolves swarm.store).banned banned, fun _ listed => ?_,
      fun _ member _ => same member⟩
    rwa [recheck_assignments] at listed
  | banned other =>
    refine ⟨(swarm.download.ban_evolves other).banned banned, fun _ listed => ?_,
      fun _ member _ => same member⟩
    rwa [Download.assignments_ban] at listed

/-- Once an address is banned it is treated as such for ever. -/
theorem Sound.exiles (sound : swarm.Sound) (banned : swarm.download.isBanned ip = true)
    (happenings : List Happening) : swarm.Exiles ip (swarm.run happenings) := by
  induction happenings generalizing swarm with
  | nil => exact .refl banned
  | cons happening rest ih =>
    have step := step_step sound happening
    have now := step.exiles banned
    exact now.trans (ih (sound.step step) now.banned)

end Swarm

/-! The happening in which an address is banned. -/

namespace Scene

variable {scene : Scene} {now : Nat} {message : Message} {deposit : Deposit}

theorem Deposits.outbox_eq (deposits : scene.Deposits now message deposit) :
    deposit.turn.outbox = [] := by
  obtain ⟨session, event, heard, handled⟩ := deposits.waits
  obtain ⟨-, same, -⟩ := Turn.handle_write handled
  rw [same]
  rfl

/-- What is noted of a message is that it came, and what was made of it. -/
theorem heard_allowed (scene : Scene) (now : Nat) (message : Message) :
    ∀ entry ∈ scene.heard now message, entry.Allowed none := by
  have made : ∀ (event : Event) (next : Next), ∀ entry ∈ noted event next,
      entry.Allowed none := by
    intro event next
    unfold noted
    split
    · exact List.forall_mem_singleton.mpr trivial
    · exact List.forall_mem_singleton.mpr trivial
    · exact List.forall_mem_nil _
  refine List.forall_mem_cons.mpr ⟨trivial, ?_⟩
  split
  · exact made _ _
  · exact List.forall_mem_nil _

theorem peer_settle (scene : Scene) (outcome : Outcome) :
    (scene.settle outcome).peer.session = outcome.turn.session ∧
      (scene.settle outcome).peer.mailbox = scene.peer.mailbox ∧
      (scene.settle outcome).peer.log = scene.peer.log ++ outcome.turn.outbox.map .sent := by
  unfold settle judged
  split <;> exact ⟨rfl, rfl, rfl⟩

/-- The sender of a block that has its address banned is at most told that we are not interested. -/
theorem Deposits.excludes (deposits : scene.Deposits now message deposit) (sound : scene.Sound)
    (policy : scene.download.settings.corruptionPolicy = .ban) {piece : Piece}
    (corrupts : deposit.Corrupts piece) :
    let concluded := deposit.turn.conclude piece deposit.request
    ∃ interested said, (scene.turn.receiveStored scene.store now message).2.turn =
        ⟨concluded.download.reject piece concluded.session.address.ip,
          { concluded.session with amInterested := interested }, said⟩ ∧
      ∀ message ∈ said, message = .notInterested := by
  intro concluded
  obtain ⟨⟨turn, waits⟩, digest, hashed, mismatch⟩ := corrupts
  obtain ⟨found, all⟩ := Turn.afterWrite_hashes waits
  have same := deposits.download_eq
  rw [same] at found all
  obtain ⟨-, turned, -⟩ := deposits.rejects sound found all hashed mismatch
  have rules : concluded.download.settings.corruptionPolicy = .ban := by
    change deposit.turn.download.settings.corruptionPolicy = .ban
    rwa [same]
  obtain ⟨interested, said, filled, told⟩ := @Turn.fillPipeline_excluded
    { concluded with
      download := concluded.download.reject piece concluded.session.address.ip }
    rfl (Download.reject_banned rules piece _)
  have silent : concluded.outbox = [] := deposits.outbox_eq
  rw [turned, Turn.corrupt_eq, filled]
  exact ⟨interested, said, by rw [silent, List.nil_append], told⟩

/-- So that sender is not asked for anything in return, and nothing is assigned to anybody. -/
theorem Deposits.expels (deposits : scene.Deposits now message deposit) (sound : scene.Sound)
    (policy : scene.download.settings.corruptionPolicy = .ban) {piece : Piece}
    (corrupts : deposit.Corrupts piece) :
    scene.peer.Shunned none (scene.receive now message).peer ∧
      (scene.receive now message).download.assignments.Sublist scene.download.assignments := by
  obtain ⟨interested, said, turned, told⟩ := deposits.excludes sound policy corrupts
  obtain ⟨session, mailbox, log⟩ := (scene.logged (scene.heard now message)).peer_settle
    (scene.turn.receiveStored scene.store now message).2
  rw [turned] at session log
  constructor
  · refine ⟨?_, mailbox, ?_, scene.heard now message ++ said.map .sent, ?_, ?_⟩
    · exact (congrArg Session.address session).trans deposits.address_eq
    · intro index assigned
      exact nomatch (congrArg Session.assigned session).symm.trans assigned
    · exact log.trans (List.append_assoc _ _ _)
    · refine List.forall_mem_append.mpr ⟨scene.heard_allowed now message, ?_⟩
      refine List.forall_mem_map.mpr fun message member => ?_
      rw [told message member]
      trivial
  · rw [receive, download_settle, turned]
    change (Download.reject _ _ _).assignments.Sublist _
    rw [Download.assignments_reject, ← deposits.download_eq]
    exact List.filter_sublist

end Scene

namespace Swarm

variable {swarm after : Swarm} {ip : IpAddress} {happening : Happening} {peer : Peer}
  {deposit : Deposit}

/-- What becomes of an address in the happening that has it banned: nothing is assigned to anybody,
and no peer there is asked for anything. -/
structure Expels (ip : IpAddress) (before after : Swarm) : Prop where
  assignments : after.download.assignments.Sublist before.download.assignments
  peers : ∀ peer ∈ after.peers, peer.address.ip = ip →
    ∃ earlier ∈ before.peers, earlier.Shunned none peer

theorem Condemns.expels {piece : Piece} (sound : swarm.Sound)
    (condemns : swarm.Condemns happening ip peer deposit piece) :
    swarm.Expels ip (swarm.step happening) := by
  obtain ⟨policy, ⟨connected, now, message, rfl, deposits⟩, rfl, corrupts⟩ := condemns
  obtain ⟨shunned, fewer⟩ := deposits.expels (sound.scene connected) policy corrupts
  simp only [step, on, sound.peer?_eq connected]
  refine ⟨fewer, fun other member _ => ?_⟩
  have there : swarm.Present ((swarm.scene peer).receive now message) :=
    ⟨peer, connected, shunned.address.symm⟩
  rcases (mem_put there).mp member with rfl | ⟨old, -⟩
  · exact ⟨peer, connected, shunned⟩
  · exact ⟨other, old, .refl other⟩

/-- An address is banned by request or for a corrupt piece, and treated as such at once. -/
theorem Sound.expels (sound : swarm.Sound) (free : swarm.download.isBanned ip = false)
    (banned : (swarm.step happening).download.isBanned ip = true) :
    swarm.Expels ip (swarm.step happening) := by
  -- The moves of a handler do not say which comes first, so the handler itself is looked at.
  cases step_tampers sound happening with
  | not _ bans =>
    rcases bans ip banned with earlier | rfl
    · exact nomatch free.symm.trans earlier
    · refine ⟨?_, fun peer member _ => ⟨peer, member, .refl peer⟩⟩
      change (swarm.download.ban ip).assignments.Sublist _
      rw [Download.assignments_ban]
  | deposits peer deposit _ _ bans =>
    rcases bans ip banned with earlier | ⟨piece, condemns⟩
    · exact nomatch free.symm.trans earlier
    · exact condemns.expels sound

end Swarm

/-! What a banned peer has still counts. -/

/-- A connected peer is listed with the pieces that were published last. -/
theorem Roster.mem_bitfields_updateBitfield {roster : Roster} {address : Address}
    (connected : roster.isConnected address = true) (field : Bitfield) :
    field ∈ (roster.updateBitfield address field).bitfields := by
  unfold isConnected at connected
  cases found : roster.find? address with
  | none => simp only [found, Bool.false_eq_true] at connected
  | some entry =>
    simp only [found] at connected
    refine List.mem_filterMap.mpr ⟨{ entry with bitfield := some field }, ?_, rfl⟩
    refine List.mem_filter.mpr ⟨List.mem_map.mpr ⟨entry, List.mem_of_find?_eq_some found, ?_⟩, ?_⟩
    · rw [if_pos (address_of_find? found)]
    · exact connected

/-- The peer has other pieces than before. -/
def Event.isAvailability : Event → Bool
  | .bitfield | .have_ _ => true
  | _ => false

/-- A banned peer's pieces are published and nothing else is done about them. -/
theorem Turn.handle_excluded {turn : Turn}
    (banned : turn.download.isBanned turn.session.address.ip = true) {event : Event}
    (availability : event.isAvailability = true) :
    ∃ flow, turn.handle event = (turn.publish, .done (.ok flow)) := by
  have published : ∃ flow, turn.onAvailability = (turn.publish, .ok flow) := by
    rw [onAvailability_eq, banned, Bool.not_true, Bool.and_false]
    split
    · exact ⟨.leave, rfl⟩
    · exact ⟨.stay, rfl⟩
  obtain ⟨flow, published⟩ := published
  refine ⟨flow, ?_⟩
  cases event with
  | bitfield | have_ => exact congrArg ended published
  | _ => cases availability

namespace Swarm

variable {swarm : Swarm} {ip : IpAddress} {peer : Peer}

/-- What a peer says to have is published. -/
def Publishes (swarm : Swarm) (peer : Peer) : Prop :=
  ∀ now message session event, peer.session.receive now message = (session, .ok event) →
    event.isAvailability = true →
    let roster := (swarm.step (.receive peer.address now message)).download.roster
    roster = swarm.download.roster.updateBitfield peer.address session.bitfield ∧
      session.bitfield ∈ roster.bitfields

theorem Sound.publishes (sound : swarm.Sound) (connected : peer ∈ swarm.peers)
    (banned : swarm.download.isBanned peer.address.ip = true) : swarm.Publishes peer := by
  intro now message session event heard availability roster
  obtain ⟨-, address, -⟩ := peer.session.receive_keeps now message
  rw [heard] at address
  obtain ⟨flow, handled⟩ := @Turn.handle_excluded
    { (swarm.scene peer).turn with session := session }
    (by rwa [show session.address = peer.address from address]) event availability
  have stepped : roster = swarm.download.roster.updateBitfield peer.address session.bitfield := by
    have received : (swarm.scene peer).turn.session.receive now message = (session, .ok event) :=
      heard
    change (swarm.step (.receive peer.address now message)).download.roster = _
    rw [sound.receive_download connected]
    simp only [Turn.receiveStored, received, Turn.handleStored, handled]
    change swarm.download.roster.updateBitfield session.address session.bitfield = _
    rw [show session.address = peer.address from address]
  rw [stepped]
  exact ⟨rfl, Roster.mem_bitfields_updateBitfield (sound.connected peer connected) _⟩

end Swarm

section

variable {torrent : Torrent} {settings : Settings} {selector : Selector} {ownId : PeerId}
  {draws : List Nat} {store : MemoryStore}

/-- Wherever a run has led, the happening that has an address banned assigns nothing to anybody and
asks no peer there for anything. Once an address is banned it stays so whatever happens: nothing is
assigned to it any more, no interest is declared in its peers, each of them is asked for blocks of
the piece only that was assigned to it before, and those that connect later are not asked for
anything. What its peers have is published as ever. Whatever they ask for is answered with the same
messages, the same results and the same sessions as if the ban was lifted. -/
theorem run_exiles (happenings : List Happening) (ip : IpAddress) :
    let swarm := (Swarm.start torrent settings selector ownId draws store).run happenings
    (∀ happening, swarm.download.isBanned ip = false →
      (swarm.step happening).download.isBanned ip = true →
        swarm.Expels ip (swarm.step happening)) ∧
    (swarm.download.isBanned ip = true →
      (∀ later, swarm.Exiles ip (swarm.run later)) ∧
      (∀ peer ∈ swarm.peers, peer.address.ip = ip → swarm.Publishes peer) ∧
      (∀ peer ∈ swarm.peers, peer.address.ip = ip →
        let turn := (swarm.scene peer).turn
        (∀ now message, message.asksUpload = true →
          (turn.pardon ip).receiveStored swarm.store now message =
            ((turn.receiveStored swarm.store now message).1,
              (turn.receiveStored swarm.store now message).2.pardon ip)) ∧
        (turn.pardon ip).serveStored swarm.store = (turn.serveStored swarm.store).pardon ip) ∧
      (∀ uploads : List Happening, (∀ happening ∈ uploads, happening.asksUpload = true) →
        (swarm.pardon ip).run uploads = (swarm.run uploads).pardon ip) ∧
      ∀ other, (swarm.pardon ip).download.isBanned other = true ↔
        swarm.download.isBanned other = true ∧ other ≠ ip) := by
  intro swarm
  have start := Swarm.start_sound torrent settings selector ownId draws store
  have sound : swarm.Sound := start.run happenings
  refine ⟨fun _ free banned => sound.expels free banned, fun banned => ?_⟩
  refine ⟨sound.exiles banned, ?_, ?_, fun uploads asks => swarm.run_pardon ip asks,
    fun other => Download.isBanned_pardon⟩
  · rintro peer connected rfl
    exact sound.publishes connected banned
  · intro peer _ _ turn
    exact ⟨fun now message asks => turn.receiveStored_pardon swarm.store ip now asks,
      turn.serveStored_pardon swarm.store ip⟩

/-- The only peer is banned while the piece is fetched from it. -/
theorem run_exiles_offer :
    let before := Sample.start.run (Sample.offer Sample.first)
    let swarm := before.step (.ban Sample.first.ip)
    let requests := [.receive Sample.first 0 .interested,
      .receive Sample.first 0 (.request Sample.request), .serve Sample.first]
    before.Expels Sample.first.ip swarm ∧
      swarm.Exiles Sample.first.ip (swarm.run [.receive Sample.first 0 (.have_ 0)]) ∧
      (∃ peer ∈ swarm.peers, ∃ session : Session,
        session.bitfield ∈ (swarm.step
          (.receive peer.address 0 (.have_ 0))).download.roster.bitfields ∧
        ((swarm.scene peer).turn.pardon Sample.first.ip).receiveStored swarm.store 0 .interested =
          (((swarm.scene peer).turn.receiveStored swarm.store 0 .interested).1,
            ((swarm.scene peer).turn.receiveStored swarm.store 0 .interested).2.pardon
              Sample.first.ip)) ∧
      (swarm.pardon Sample.first.ip).run requests =
        (swarm.run requests).pardon Sample.first.ip := by
  intro before swarm requests
  have free : before.download.isBanned Sample.first.ip = false := by decide +kernel
  have banned : swarm.download.isBanned Sample.first.ip = true := by decide +kernel
  have present : swarm.peers.any (fun peer => decide (peer.address = Sample.first) &&
      peer.session.phase.isOpen && decide (0 < peer.session.bitfield.size)) = true := by
    decide +kernel
  obtain ⟨peer, connected, found⟩ := List.any_eq_true.mp present
  simp only [Bool.and_eq_true, decide_eq_true_eq] at found
  obtain ⟨⟨same, isOpen⟩, inside⟩ := found
  have heard : ∃ session, peer.session.receive 0 (.have_ 0) = (session, .ok (.have_ 0)) := by
    simp only [Session.receive, isOpen, Session.apply, inside, ↓reduceIte]
    exact ⟨_, rfl⟩
  obtain ⟨session, heard⟩ := heard
  have falls := @run_exiles Sample.torrent {} ⟨.sequential, false⟩ Sample.peerId [] (.empty 4)
    (Sample.offer Sample.first) Sample.first.ip
  have lasts := @run_exiles Sample.torrent {} ⟨.sequential, false⟩ Sample.peerId [] (.empty 4)
    (Sample.offer Sample.first ++ [.ban Sample.first.ip]) Sample.first.ip
  have split : Sample.start.run (Sample.offer Sample.first ++ [.ban Sample.first.ip]) = swarm :=
    Swarm.run_append _ _ _
  dsimp only at lasts
  rw [show Swarm.start Sample.torrent {} ⟨.sequential, false⟩ Sample.peerId [] (.empty 4) =
    Sample.start from rfl, split] at lasts
  obtain ⟨exiles, publishes, served, uploads, -⟩ := lasts.2 banned
  have own := congrArg Address.ip same
  refine ⟨falls.1 (.ban Sample.first.ip) free banned, exiles _, ⟨peer, connected, session, ?_, ?_⟩,
    uploads requests (by decide)⟩
  · exact (publishes peer connected own 0 (.have_ 0) session (.have_ 0) heard rfl).2
  · exact (served peer connected own).1 0 .interested rfl

end

end BitTorrent
