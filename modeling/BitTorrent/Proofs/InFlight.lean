import BitTorrent.Proofs.Exclusive
import BitTorrent.Proofs.Pursuit
import Mathlib.Data.List.Induction

/-!
Who a piece is said to be fetched from. All that the shared assignments list is owned by a connected
session that is assigned to it, but for one way to lose track: a block of another piece than the
assigned one is the last that was missing of its piece.
-/

set_option autoImplicit false

namespace BitTorrent

namespace Turn

variable {turn middle after : Turn} {piece : Nat} {lapse : Prop}

/-- A turn lists nobody else for a piece, and its own session only with the assignment. Unless it
lapses, it leaves no listing behind that its session owned. -/
structure Keeps (lapse : Prop) (piece : Nat) (turn after : Turn) : Prop where
  address : after.session.address = turn.session.address
  foreign : ∀ {address}, address ≠ turn.session.address →
    (piece, address) ∈ after.download.assignments → (piece, address) ∈ turn.download.assignments
  listed : (piece, turn.session.address) ∈ after.download.assignments →
    after.session.assigned = some piece ∨ lapse ∨
      ((piece, turn.session.address) ∈ turn.download.assignments ∧
        turn.session.assigned ≠ some piece)

/-- Fewer listings and the same assignment. -/
theorem Keeps.fewer (address : after.session.address = turn.session.address)
    (assignments : ∀ {pair}, pair ∈ after.download.assignments →
      pair ∈ turn.download.assignments)
    (assigned : after.session.assigned = turn.session.assigned) :
    turn.Keeps lapse piece after where
  address := address
  foreign := fun _ member => assignments member
  listed := by
    intro member
    rw [assigned]
    by_cases mine : turn.session.assigned = some piece
    · exact Or.inl mine
    · exact Or.inr (Or.inr ⟨assignments member, mine⟩)

theorem Keeps.refl (turn : Turn) : turn.Keeps lapse piece turn :=
  .fewer rfl id rfl

theorem Keeps.trans (first : turn.Keeps lapse piece middle)
    (second : middle.Keeps lapse piece after) : turn.Keeps lapse piece after where
  address := second.address.trans first.address
  foreign := fun other member =>
    first.foreign other (second.foreign (first.address ▸ other) member)
  listed := by
    intro member
    rw [← first.address] at member
    rcases second.listed member with mine | lapsed | ⟨earlier, different⟩
    · exact Or.inl mine
    · exact Or.inr (Or.inl lapsed)
    · rw [first.address] at earlier
      exact Or.inr ((first.listed earlier).resolve_left different)

theorem Keeps.weaken {other : Prop} (keeps : turn.Keeps lapse piece after)
    (implied : lapse → other) : turn.Keeps other piece after where
  address := keeps.address
  foreign := keeps.foreign
  listed := fun member => (keeps.listed member).imp_right (Or.imp_left implied)

theorem Pursues.keeps (pursues : turn.Pursues after) : turn.Keeps lapse piece after where
  address := pursues.address
  foreign := pursues.foreign
  listed := fun member => (pursues.listed member).imp_right Or.inr

theorem Basis.keeps {event : Event} {base : Turn} (basis : turn.Basis event base) :
    turn.Keeps lapse piece base := by
  cases basis with
  | same => exact .refl turn
  | published => exact .fewer rfl id rfl
  | unchoked =>
    rw [Session.unchoke_eq]
    cases choking : turn.session.amChoking <;> exact .fewer rfl id rfl
  | choked =>
    rw [Session.choke_eq]
    cases choking : turn.session.amChoking <;> exact .fewer rfl id rfl

theorem Checks.keeps {hashed : Piece} {outcome : Except Fault Digest} {base : Turn}
    (checks : turn.Checks hashed outcome base) : turn.Keeps lapse piece base := by
  cases checks with
  | unreadable fault =>
    refine .fewer rfl ?_ rfl
    rw [Download.assignments_record]
    exact id
  | intact =>
    refine .fewer rfl ?_ rfl
    rw [Download.assignments_verify]
    exact id
  | corrupt digest =>
    refine .fewer rfl ?_ rfl
    rw [Download.assignments_reject]
    exact id

/-- Once a piece is hashed, the session that has fetched it is assigned to nothing. -/
theorem concluded_keeps (turn : Turn) (holdings : Holdings) (concluded piece : Nat) :
    turn.Keeps (turn.session.assigned = some piece ∧ concluded ≠ piece) piece { turn with
      download := (turn.download.withHoldings holdings).releaseAll concluded
      session := turn.session.assign none } where
  address := rfl
  foreign := fun _ member => (List.mem_filter.mp member).1
  listed := by
    intro member
    obtain ⟨old, other⟩ := List.mem_filter.mp member
    by_cases mine : turn.session.assigned = some piece
    · refine Or.inr (Or.inl ⟨mine, ?_⟩)
      rintro rfl
      simp at other
    · exact Or.inr (Or.inr ⟨old, mine⟩)

theorem settleChecksum_keeps (sized : turn.Sized) (store : MemoryStore) (hashed : Piece) :
    turn.Keeps lapse piece (settleChecksum store turn hashed).turn := by
  obtain ⟨base, checks, pursues, -⟩ :=
    afterChecksum_pursues sized hashed (store.checksum hashed.range)
  exact checks.keeps.trans pursues.keeps

/-- A block of another piece than the assigned one is written, and none of its piece is missing
then. -/
structure Overtaken (turn : Turn) (store : MemoryStore) (request : BlockRequest)
    (range : ByteRange) (data : Bytes) (info : Piece) (piece : Nat) : Prop where
  assigned : turn.session.assigned = some piece
  other : request.piece ≠ piece
  written : ∃ written, store.write range data = .ok written
  last : (turn.download.holdings.fetch info request).allFetched request.piece = true

/-- A session loses track of the assigned piece only if it is overtaken. -/
theorem settle_keeps (sized : turn.Sized) {store : MemoryStore} {request : BlockRequest}
    {range : ByteRange} {data : Bytes} {info : Piece}
    (found : turn.download.torrent.piece? request.piece = some info) :
    turn.Keeps (turn.Overtaken store request range data info piece) piece
      (settle store (turn, .wait (.write request range data))).turn := by
  have marked : (turn.withHoldings (turn.download.holdings.fetch info request)).Sized := by
    rw [Sized, ← Holdings.completed_fetch _ info request] at sized
    exact sized
  cases taken : store.write range data with
  | error fault =>
    rw [settle_lost taken]
    refine .fewer rfl ?_ rfl
    simp only [Download.assignments_record]
    exact id
  | ok written =>
    cases all : (turn.download.holdings.fetch info request).allFetched request.piece with
    | false =>
      rw [settle_stored taken found all]
      have stored : turn.Keeps (turn.Overtaken store request range data info piece) piece
        (turn.withHoldings (turn.download.holdings.fetch info request)) := .fewer rfl id rfl
      exact stored.trans (fillPipeline_pursues marked).1.keeps
    | true =>
      rw [settle_hashed taken found all]
      have concluded := (turn.concluded_keeps (turn.download.holdings.fetch info request)
        request.piece piece).weaken fun both => Overtaken.mk both.1 both.2 ⟨written, taken⟩ all
      exact concluded.trans (settleChecksum_keeps (by exact marked) written info)

end Turn

namespace Scene

variable {scene : Scene} {piece : Nat}

/-- A message brings the last block of a piece to a session that is assigned to another one. -/
def Overtakes (scene : Scene) (message : Message) (piece : Nat) : Prop :=
  ∃ request data info range, message = .piece request.piece request.start data ∧
    scene.Answers request data info range ∧
    scene.turn.Overtaken scene.store request range data info piece

/-- The turn that a scene leaves behind. -/
theorem turn_settle (scene : Scene) (outcome : Outcome) :
    (scene.settle outcome).turn = { outcome.turn with outbox := [] } := by
  unfold settle judged
  split <;> rfl

/-- Whatever is received, a session loses track of the assigned piece only if it is overtaken. -/
theorem receive_keeps (sound : scene.Sound) (now : Nat) (message : Message) :
    scene.turn.Keeps (scene.Overtakes message piece) piece (scene.receive now message).turn := by
  obtain ⟨assigned, address, sized⟩ := scene.peer.session.receive_keeps now message
  cases heard : scene.peer.session.receive now message with
  | mk session result =>
    rw [heard] at assigned address sized
    cases result with
    | error violation =>
      rw [receive_error heard]
      exact .fewer address id assigned
    | ok event =>
      have listened : scene.turn.Keeps (scene.Overtakes message piece) piece
        (scene.hear session message).turn := .fewer address id assigned
      have sizedAfter : (scene.hear session message).turn.Sized := sized.trans sound.sized
      obtain ⟨base, basis, pursues, reacts⟩ := Turn.handle_pursues sizedAfter event
      rw [receive_ok heard, turn_settle]
      cases handled : (scene.hear session message).turn.handle event with
      | mk after next =>
        rw [handled] at pursues reacts
        have fetched := (listened.trans basis.keeps).trans pursues.keeps
        cases reacts with
        | ended | objected => exact ⟨fetched.address, fetched.foreign, fetched.listed⟩
        | waits request data info range block found missing inside =>
          obtain ⟨rfl, rfl, -⟩ := Turn.handle_write handled
          obtain ⟨said, asked, length⟩ := Session.receive_block heard
          have overtakes : (scene.hear session message).turn.Overtaken scene.store request range
              data info piece → scene.Overtakes message piece := fun overtaken =>
            ⟨request, data, info, range, said, ⟨asked, length, found, missing, inside⟩,
              ⟨assigned ▸ overtaken.assigned, overtaken.other, overtaken.written,
                overtaken.last⟩⟩
          have kept := listened.trans ((Turn.settle_keeps sizedAfter found).weaken overtakes)
          exact ⟨kept.address, kept.foreign, kept.listed⟩

/-- A reaction that is not resumed. -/
theorem turn_judged (scene : Scene) (turn : Turn) (result : Except Fault Flow) :
    ((scene.follow turn).judged result).turn = { turn with outbox := [] } := by
  unfold judged
  split <;> rfl

theorem serve_keeps {lapse : Prop} (scene : Scene) :
    scene.turn.Keeps lapse piece scene.serve.turn := by
  have taken : scene.turn.session.takeUpload =
    ({ scene.peer.session with upload := none }, scene.peer.session.upload) := rfl
  unfold serve
  rw [turn_settle]
  unfold Turn.serveStored Turn.serve
  rw [taken]
  cases requested : scene.peer.session.upload with
  | none => exact .fewer rfl id rfl
  | some request =>
    dsimp only
    split
    · exact .fewer rfl id rfl
    · split
      · exact .fewer rfl id rfl
      · rename_i range located
        dsimp only [Turn.settle]
        cases read : scene.store.read range with
        | error fault =>
          refine .fewer rfl ?_ rfl
          simp only [Turn.afterRead, Turn.fail, Download.assignments_record]
          exact id
        | ok data => exact .fewer rfl id rfl

theorem localHave_keeps {lapse : Prop} (sized : scene.turn.Sized) (index : Nat) :
    scene.turn.Keeps lapse piece (scene.localHave index).turn := by
  obtain ⟨middle, cancelled, later, -⟩ := Turn.onLocalHave_pursues sized index
  have told : middle.Keeps lapse piece (middle.say (.have_ index)) := .fewer rfl id rfl
  have kept := (cancelled.keeps.trans told).trans later.keeps
  rw [localHave, turn_judged]
  exact ⟨kept.address, kept.foreign, kept.listed⟩

theorem checkIdle_keeps {lapse : Prop} (scene : Scene) (now : Nat) :
    scene.turn.Keeps lapse piece (scene.checkIdle now).turn := by
  rw [checkIdle, turn_judged]
  rcases scene.turn.checkIdle_cases now with idle | idle | idle <;>
    rw [idle] <;> exact .fewer rfl id rfl

theorem obey_keeps {lapse : Prop} (sized : scene.turn.Sized) :
    scene.turn.Keeps lapse piece scene.obey.turn := by
  unfold obey
  split
  · exact .refl _
  · rename_i command rest queued
    let taken := scene.withDownload (scene.download.withRoster
      (scene.download.roster.setQueue scene.peer.mailbox rest))
    have kept : scene.turn.Keeps lapse piece taken.turn := .fewer rfl id rfl
    cases command with
    | have_ index =>
      have sizedTaken : taken.turn.Sized := sized
      exact kept.trans (localHave_keeps sizedTaken index)
    | disconnect => exact kept

end Scene

namespace Swarm

variable {swarm : Swarm} {piece : Nat} {target : Address}

/-- A connected session at an address is assigned to a piece. -/
def Owned (swarm : Swarm) (piece : Nat) (address : Address) : Prop :=
  ∃ peer ∈ swarm.peers, peer.address = address ∧ peer.session.assigned = some piece

/-- A session at an address is overtaken: it loses track of the piece that it is assigned to. -/
def Overtakes (swarm : Swarm) (happening : Happening) (address : Address) (piece : Nat) : Prop :=
  ∃ peer ∈ swarm.peers, peer.address = address ∧ ∃ now message,
    happening = .receive address now message ∧ (swarm.scene peer).Overtakes message piece

/-- A listing that is not owned was left behind before, or is left behind now. -/
def Accounts (swarm after : Swarm) (lapse : Prop) (piece : Nat) (target : Address) : Prop :=
  (piece, target) ∈ after.download.assignments → after.Owned piece target ∨ lapse ∨
    ((piece, target) ∈ swarm.download.assignments ∧ ¬ swarm.Owned piece target)

theorem Accounts.same {lapse : Prop} {after : Swarm}
    (assignments : after.download.assignments = swarm.download.assignments)
    (peers : ∀ peer ∈ swarm.peers, peer ∈ after.peers) :
    swarm.Accounts after lapse piece target := by
  intro member
  rw [assignments] at member
  by_cases owned : swarm.Owned piece target
  · obtain ⟨peer, there, rest⟩ := owned
    exact Or.inl ⟨peer, peers peer there, rest⟩
  · exact Or.inr (Or.inr ⟨member, owned⟩)

/-- What a handler of one peer keeps, the swarm keeps. -/
theorem put_accounts {own lapse : Prop} {after : Scene} {peer : Peer} (sound : swarm.Sound)
    (there : peer ∈ swarm.peers)
    (keeps : (swarm.scene peer).turn.Keeps own piece after.turn)
    (implied : peer.address = target → own → lapse) :
    swarm.Accounts (swarm.put after) lapse piece target := by
  intro member
  have address : after.peer.address = peer.address := keeps.address
  have present : swarm.Present after := ⟨peer, there, address.symm⟩
  by_cases same : target = peer.address
  · subst same
    rcases keeps.listed member with mine | lapsed | ⟨old, different⟩
    · exact Or.inl ⟨after.peer, (mem_put present).mpr (Or.inl rfl), address, mine⟩
    · exact Or.inr (Or.inl (implied rfl lapsed))
    · refine Or.inr (Or.inr ⟨old, ?_⟩)
      rintro ⟨other, also, same, mine⟩
      rw [sound.unique also there same] at mine
      exact different mine
  · have old := keeps.foreign same member
    by_cases owned : swarm.Owned piece target
    · obtain ⟨other, also, rfl, mine⟩ := owned
      exact Or.inl ⟨other, (mem_put present).mpr (Or.inr ⟨also, address ▸ same⟩), rfl, mine⟩
    · exact Or.inr (Or.inr ⟨old, owned⟩)

theorem on_accounts {lapse : Prop} (sound : swarm.Sound) (address : Address)
    {handler : Scene → Scene}
    (keeps : ∀ peer ∈ swarm.peers, (swarm.scene peer).turn.Keeps False piece
      (handler (swarm.scene peer)).turn) :
    swarm.Accounts (swarm.on address handler) lapse piece target := by
  unfold on
  split
  · exact .same rfl fun _ there => there
  · rename_i peer found
    have there := (peer?_some found).1
    exact put_accounts sound there (keeps peer there) fun _ => False.elim

theorem receive_accounts (sound : swarm.Sound) (address : Address) (now : Nat)
    (message : Message) :
    swarm.Accounts (swarm.on address (·.receive now message))
      (swarm.Overtakes (.receive address now message) target piece) piece target := by
  unfold on
  split
  · exact .same rfl fun _ there => there
  · rename_i peer found
    obtain ⟨there, rfl⟩ := peer?_some found
    refine put_accounts sound there (Scene.receive_keeps (sound.scene there) now message) ?_
    rintro rfl overtakes
    exact ⟨peer, there, rfl, now, message, rfl, overtakes⟩

theorem leave_accounts {lapse : Prop} (sound : swarm.Sound) (address : Address) :
    swarm.Accounts (swarm.leave address) lapse piece target := by
  cases found : swarm.peer? address with
  | none =>
    simp only [leave, found]
    exact .same rfl fun _ there => there
  | some gone =>
    have there := (peer?_some found).1
    rw [leave_eq found]
    intro member
    obtain ⟨old, kept⟩ := Exclusive.mem_free.mp member
    by_cases owned : swarm.Owned piece target
    · obtain ⟨peer, also, rfl, mine⟩ := owned
      have other : peer.address ≠ gone.address := by
        intro same
        rw [sound.unique also there same] at mine
        exact kept ⟨mine, same⟩
      exact Or.inl ⟨peer, List.mem_filter.mpr ⟨also, by simpa using other⟩, rfl, mine⟩
    · exact Or.inr (Or.inr ⟨old, owned⟩)

theorem recheck_assignments (download : Download) (store : MemoryStore) :
    (download.recheck store).1.assignments = download.assignments :=
  @Download.recheck_induction (·.assignments = download.assignments) store
    (fun _ _ same => same) download rfl

/-- Whatever happens to a swarm, a listing is owned unless it was left behind before or its session
is overtaken. -/
theorem step_accounts (sound : swarm.Sound) (happening : Happening) :
    swarm.Accounts (swarm.step happening) (swarm.Overtakes happening target piece) piece
      target := by
  cases happening with
  | join address peerId source capabilities now =>
    simp only [step, join]
    split
    · exact .same rfl fun _ there => there
    · exact .same rfl fun _ there => List.mem_append_left _ there
  | greet address =>
    exact on_accounts sound address fun _ _ => .fewer rfl id rfl
  | receive address now message =>
    exact receive_accounts sound address now message
  | serve address => exact on_accounts sound address fun _ _ => Scene.serve_keeps _
  | localHave address index =>
    exact on_accounts sound address fun peer there =>
      Scene.localHave_keeps (sound.scene there).sized index
  | obey address =>
    exact on_accounts sound address fun peer there =>
      Scene.obey_keeps (sound.scene there).sized
  | checkIdle address now =>
    exact on_accounts sound address fun _ _ => Scene.checkIdle_keeps _ now
  | leave address => exact leave_accounts sound address
  | recheck => exact .same (recheck_assignments _ _) fun _ there => there
  | ban ip =>
    refine .same ?_ fun _ there => there
    simp only [step, Download.ban]
    split <;> rfl
  | failWrites fault => exact .same rfl fun _ there => there
  | failReads fault => exact .same rfl fun _ there => there

end Swarm

/-- Why a session may have requests open for another piece than the assigned one: it may have had
more than one, and a piece that it concluded was corrupt or could not be read. -/
def Peer.Behind (peer : Peer) (download : Download) : Prop :=
  1 < download.settings.pipelineDepth ∧
    (download.settings.corruptionPolicy = .retry ∨ peer.failed = true ∨
      (download.isBanned peer.address.ip = true ∧ peer.session.assigned = none))

/-- Open requests are for the assigned piece or for pieces that are complete, unless the session is
behind. -/
structure Peer.Current (peer : Peer) (download : Download) : Prop where
  depth : peer.session.depth = max download.settings.pipelineDepth 1
  room : peer.session.downloads.length ≤ peer.session.depth
  current : ∀ request ∈ peer.session.downloads, download.holdings.has request.piece = false →
    peer.session.assigned = some request.piece ∨ peer.Behind download

namespace Peer.Current

variable {peer after : Peer} {download later : Download}

theorem incomplete (evolves : download.Evolves later) {piece : Nat}
    (missing : later.holdings.has piece = false) : download.holdings.has piece = false := by
  rw [Bool.eq_false_iff] at missing ⊢
  exact fun held => missing (evolves.complete held)

/-- A session stays behind. -/
theorem behind (evolves : download.Evolves later) (persists : peer.Persists after)
    (unassigned : peer.session.assigned = none → after.session.assigned = none)
    (behind : peer.Behind download) : after.Behind later := by
  obtain ⟨deep, reason⟩ := behind
  rw [Peer.Behind, evolves.settings, persists.address]
  exact ⟨deep, reason.imp_right (Or.imp persists.failed fun both =>
    ⟨evolves.banned both.1, unassigned both.2⟩)⟩

theorem evolve (current : peer.Current download) (evolves : download.Evolves later) :
    peer.Current later where
  depth := by
    rw [evolves.settings]
    exact current.depth
  room := current.room
  current := fun request asked missing =>
    (current.current request asked (incomplete evolves missing)).imp_right
      (behind evolves (.refl peer) id)

/-- Requests are given up and nothing else is assigned. -/
theorem fewer (current : peer.Current download) (evolves : download.Evolves later)
    (persists : peer.Persists after) (depth : after.session.depth = peer.session.depth)
    (sublist : after.session.downloads.Sublist peer.session.downloads)
    (unassigned : peer.session.assigned = none → after.session.assigned = none)
    (kept : ∀ request ∈ after.session.downloads, later.holdings.has request.piece = false →
      peer.session.assigned = some request.piece →
        after.session.assigned = some request.piece ∨ after.Behind later) :
    after.Current later where
  depth := by
    rw [depth, evolves.settings]
    exact current.depth
  room := by
    rw [depth]
    exact Nat.le_trans sublist.length_le current.room
  current := by
    intro request asked missing
    rcases current.current request (sublist.subset asked) (incomplete evolves missing)
      with mine | late
    · exact kept request asked missing mine
    · exact Or.inr (behind evolves persists unassigned late)

/-- Only the assigned piece is fetched by a session whose peer is asked for one block at a time. -/
theorem deep (current : peer.Current download) {request other : BlockRequest}
    (asked : request ∈ peer.session.downloads)
    (left : other ∈ peer.session.downloads.erase request) :
    1 < download.settings.pipelineDepth := by
  have some_left := List.length_pos_of_mem left
  have counted := List.length_erase_of_mem asked
  have room := current.room
  rw [current.depth] at room
  omega

end Peer.Current

theorem Download.verify_has {download : Download} {piece : Piece}
    (inside : piece.index < download.holdings.completed.size) :
    (download.verify piece).holdings.has piece.index = true := by
  rw [holdings_verify, Holdings.has_complete]
  simp [inside]

theorem Download.reject_banned {download : Download} (policy :
    download.settings.corruptionPolicy = .ban) (piece : Piece) (ip : IpAddress) :
    (download.reject piece ip).isBanned ip = true := by
  simp only [Download.reject, policy, Download.ban]
  split
  · rename_i banned
    exact banned
  · simp [Download.isBanned]

theorem Move.current {scene after : Scene} (move : Move scene after) (sound : scene.Sound)
    (tiled : scene.download.torrent.Tiled) (current : scene.peer.Current scene.download) :
    after.peer.Current after.download := by
  have evolves := move.evolves
  have persists := move.persists
  cases move with
  | choked now =>
    exact current.fewer evolves persists rfl (List.nil_sublist _) (fun _ => rfl)
      (fun _ inside => nomatch inside)
  | discarded | stray | lost | stored =>
    exact current.fewer evolves persists rfl List.erase_sublist id (fun _ _ _ mine => Or.inl mine)
  | @completed now request data piece range store answers taken all hashed =>
    refine current.fewer evolves persists rfl List.erase_sublist (fun _ => rfl) ?_
    intro other left missing mine
    rcases current.current request answers.isOpen answers.missing with same | late
    · rw [mine] at same
      have shared : other.piece = piece.index :=
        (Option.some.inj same).trans (tiled.index answers.found).symm
      have inside : piece.index < scene.download.torrent.pieceCount := by
        rw [tiled.index answers.found]
        exact (List.getElem?_eq_some_iff.mp answers.found).1
      have sized : (scene.download.holdings.fetch piece request).completed.size =
          scene.download.torrent.pieceCount := by
        rw [Holdings.completed_fetch]
        exact sound.holdings.completed
      have held : (Download.verify ((scene.download.withHoldings (scene.download.holdings.fetch
          piece request)).releaseAll request.piece) piece).holdings.has piece.index = true :=
        Download.verify_has (by exact sized ▸ inside)
      rw [shared] at missing
      exact nomatch held.symm.trans missing
    · exact Or.inr (Peer.Current.behind evolves persists (fun _ => rfl) late)
  | @corrupted now request data piece range store digest answers taken all hashed corrupt =>
    refine current.fewer evolves persists rfl List.erase_sublist (fun _ => rfl) ?_
    intro other left _ _
    have deep := current.deep answers.isOpen left
    refine Or.inr ⟨evolves.settings ▸ deep, ?_⟩
    rw [evolves.settings]
    cases policy : scene.download.settings.corruptionPolicy with
    | retry => exact Or.inl rfl
    | ban =>
      have rules : (((scene.download.withHoldings
          (scene.download.holdings.fetch piece request)).releaseAll
            request.piece)).settings.corruptionPolicy = .ban := policy
      exact Or.inr (Or.inr ⟨Download.reject_banned rules piece _, rfl⟩)
  | @unreadable now request data piece range store fault answers taken all unread =>
    refine current.fewer evolves persists rfl List.erase_sublist (fun _ => rfl) ?_
    intro other left _ _
    have deep := current.deep answers.isOpen left
    rw [← evolves.settings] at deep
    exact Or.inr ⟨deep, Or.inr (Or.inl rfl)⟩
  | released piece assigned useless =>
    refine current.fewer evolves persists rfl (List.Sublist.refl _) (fun _ => rfl) ?_
    intro request asked missing mine
    rw [assigned] at mine
    cases mine
    rcases useless with held | none
    · exact nomatch (evolves.complete held).symm.trans missing
    · exact absurd rfl (none request asked)
  | took piece unassigned unchoked free held missing =>
    refine ⟨by rw [evolves.settings]; exact current.depth, current.room, ?_⟩
    intro request asked missing
    rcases current.current request asked (Peer.Current.incomplete evolves missing) with mine | late
    · exact nomatch unassigned.symm.trans mine
    · refine Or.inr ⟨evolves.settings ▸ late.1, ?_⟩
      rw [evolves.settings]
      rcases late.2 with retry | failed | ⟨banned, -⟩
      · exact Or.inl retry
      · exact Or.inr (Or.inl failed)
      · exact nomatch free.symm.trans banned
  | asked index piece block assigned allowed missing =>
    simp only [Session.canRequest, Bool.and_eq_true, decide_eq_true_eq] at allowed
    refine ⟨current.depth, ?_, ?_⟩
    · change (scene.peer.session.downloads ++ [_]).length ≤ scene.peer.session.depth
      rw [List.length_append]
      exact allowed.2
    · intro request asked missing
      rcases List.mem_append.mp asked with old | new
      · exact current.current request old missing
      · rw [List.mem_singleton.mp new]
        exact Or.inl assigned
  | told piece =>
    exact current.fewer evolves persists rfl List.filter_sublist id
      (fun _ _ _ mine => Or.inl mine)
  | recalled piece assigned =>
    refine current.fewer evolves persists rfl List.filter_sublist (fun _ => rfl) ?_
    intro request asked missing mine
    rw [assigned] at mine
    cases mine
    exact absurd (List.mem_filter.mp asked).2 (by simp)
  | _ =>
    exact current.fewer evolves persists rfl (List.Sublist.refl _) id
      (fun _ _ _ mine => Or.inl mine)

namespace Swarm

theorem current_stable : Stable fun swarm => ∀ peer ∈ swarm.peers,
    swarm.download.torrent.Tiled → peer.Current swarm.download := by
  refine @sharing_stable (fun download peer => download.torrent.Tiled → peer.Current download)
    ?_ (fun _ current tiled => ⟨(current tiled).depth, (current tiled).room,
      (current tiled).current⟩) ?_ ?_ ?_
  · intro before after peer evolves current tiled
    exact (current (evolves.torrent ▸ tiled)).evolve evolves
  · intro scene after sound move current tiled
    have same : scene.download.torrent.Tiled := move.evolves.torrent ▸ tiled
    exact move.current sound same (current same)
  · intro scene after withdrawal current tiled
    have persists := withdrawal.persists
    rw [withdrawal.download] at tiled ⊢
    have before := current tiled
    rw [withdrawal.result] at persists ⊢
    exact before.fewer (.refl _) persists rfl (List.Sublist.refl _) id
      (fun _ _ _ mine => Or.inl mine)
  · intro download address peerId capabilities now mailbox _
    exact ⟨rfl, Nat.zero_le _, fun _ inside => nomatch inside⟩

/-- A listing that is not owned was left behind when its session was overtaken. -/
theorem run_accounts {start : Swarm} (sound : start.Sound)
    (empty : start.download.assignments = []) (happenings : List Happening) {piece : Nat}
    {address : Address}
    (listed : (piece, address) ∈ (start.run happenings).download.assignments) :
    (start.run happenings).Owned piece address ∨
      ∃ before happening after, happenings = before ++ happening :: after ∧
        (start.run before).Overtakes happening address piece := by
  induction happenings using List.reverseRecOn with
  | nil =>
    have none : (piece, address) ∈ start.download.assignments := listed
    rw [empty] at none
    cases none
  | append_singleton front last ih =>
    have stepped : start.run (front ++ [last]) = (start.run front).step last := run_append _ _ _
    rw [stepped] at listed ⊢
    rcases step_accounts (sound.run front) last listed with owned | overtaken | ⟨old, lost⟩
    · exact Or.inl owned
    · exact Or.inr ⟨front, last, [], rfl, overtaken⟩
    · obtain ⟨before, happening, after, rfl, overtaken⟩ := (ih old).resolve_left lost
      exact Or.inr ⟨before, happening, after ++ [last],
        by rw [List.append_assoc, List.cons_append], overtaken⟩

end Swarm

section

variable {info : Metainfo} {torrent : Torrent} {settings : Settings} {selector : Selector}
  {ownId : PeerId} {draws : List Nat} {store : MemoryStore}

/-- A session is overtaken only in the end game, with several requests open at a time, and if a
piece that it concluded before was refused and tried again, or if one of its handlers has already
failed. -/
theorem overtakes_only (built : Torrent.ofMetainfo info = .ok torrent)
    (happenings : List Happening) {happening : Happening} {address : Address} {piece : Nat}
    (overtakes : ((Swarm.start torrent settings selector ownId draws store).run
      happenings).Overtakes happening address piece) :
    selector.endGame = true ∧ 1 < settings.pipelineDepth ∧
      (settings.corruptionPolicy = .retry ∨
        ∃ peer ∈ ((Swarm.start torrent settings selector ownId draws store).run happenings).peers,
          peer.address = address ∧ peer.failed = true) := by
  have start := Swarm.start_sound torrent settings selector ownId draws store
  obtain ⟨peer, there, same, now, message, -, request, data, block, range, -, answers, overtaken⟩ :=
    overtakes
  have tiled : ((Swarm.start torrent settings selector ownId draws store).run
      happenings).download.torrent.Tiled := by
    rw [Swarm.run_torrent start happenings]
    exact Torrent.ofMetainfo_tiled built
  have current := Swarm.current_stable.run start (fun _ member => nomatch member) happenings peer
    there tiled
  have rules := Swarm.run_settings start happenings
  have other : peer.session.assigned ≠ some request.piece := by
    intro mine
    have assigned : peer.session.assigned = some piece := overtaken.assigned
    rw [mine] at assigned
    exact overtaken.other (Option.some.inj assigned)
  refine ⟨?_, ?_⟩
  · rw [← Bool.not_eq_false]
    intro endGame
    have plain : ((Swarm.start torrent settings selector ownId draws store).run
        happenings).download.selector.endGame = false := by
      rw [Swarm.run_selector start happenings]
      exact endGame
    have exclusive := exclusive_stable.run start
      (fun _ => ⟨List.nodup_nil, (nomatch ·), (nomatch ·), (nomatch ·)⟩) happenings plain
    exact other ((exclusive.faithful there).assigned answers.isOpen answers.missing)
  · rcases current.current request answers.isOpen answers.missing with mine | ⟨deep, reason⟩
    · exact absurd mine other
    · rw [rules] at deep reason
      refine ⟨deep, ?_⟩
      rcases reason with retry | failed | ⟨-, unassigned⟩
      · exact Or.inl retry
      · exact Or.inr ⟨peer, there, same, failed⟩
      · have assigned : peer.session.assigned = some piece := overtaken.assigned
        exact nomatch unassigned.symm.trans assigned

/-- Wherever a run has led, a piece that is listed for an address is assigned to the session that is
connected there, unless that session was overtaken while it was assigned to the piece. Without the
end game, or with one request open at a time, no session is, and nothing is listed once nobody is
connected. -/
theorem run_listed (built : Torrent.ofMetainfo info = .ok torrent)
    (happenings : List Happening) :
    let start := Swarm.start torrent settings selector ownId draws store
    let swarm := start.run happenings
    (∀ piece address, (piece, address) ∈ swarm.download.assignments →
      swarm.Owned piece address ∨
        ∃ before happening after, happenings = before ++ happening :: after ∧
          (start.run before).Overtakes happening address piece) ∧
    (∀ before happening address piece, (start.run before).Overtakes happening address piece →
      selector.endGame = true ∧ 1 < settings.pipelineDepth ∧
        (settings.corruptionPolicy = .retry ∨
          ∃ peer ∈ (start.run before).peers, peer.address = address ∧ peer.failed = true)) ∧
    ((selector.endGame = false ∨ settings.pipelineDepth ≤ 1) →
      (∀ piece address, (piece, address) ∈ swarm.download.assignments →
        swarm.Owned piece address) ∧
      (swarm.peers = [] → swarm.download.inFlight = [])) := by
  intro start swarm
  have sound : start.Sound := Swarm.start_sound torrent settings selector ownId draws store
  have listed : ∀ piece address, (piece, address) ∈ swarm.download.assignments →
      swarm.Owned piece address ∨ ∃ before happening after,
        happenings = before ++ happening :: after ∧
          (start.run before).Overtakes happening address piece :=
    fun _ _ => Swarm.run_accounts sound rfl happenings
  refine ⟨listed, fun before _ _ _ => overtakes_only built before, ?_⟩
  intro plain
  have owned : ∀ piece address, (piece, address) ∈ swarm.download.assignments →
      swarm.Owned piece address := by
    intro piece address member
    refine (listed piece address member).resolve_right ?_
    rintro ⟨before, happening, after, -, overtakes⟩
    obtain ⟨endGame, deep, -⟩ := overtakes_only built before overtakes
    rcases plain with off | shallow
    · exact nomatch off.symm.trans endGame
    · omega
  refine ⟨owned, fun gone => ?_⟩
  have empty : swarm.download.assignments = [] := by
    rw [List.eq_nil_iff_forall_not_mem]
    rintro ⟨piece, address⟩ member
    obtain ⟨peer, there, -⟩ := owned piece address member
    rw [gone] at there
    cases there
  rw [Download.inFlight, empty]
  rfl

/-- The piece that two peers have is listed for the first of them, which is assigned to it. -/
theorem run_listed_rivalry :
    let swarm := Sample.start.run Sample.rivalry
    (0, Sample.first) ∈ swarm.download.assignments ∧ swarm.Owned 0 Sample.first := by
  intro swarm
  have listed : (0, Sample.first) ∈ swarm.download.assignments := by decide +kernel
  have facts := @run_listed Sample.info Sample.torrent {} ⟨.sequential, false⟩ Sample.peerId []
    (.empty 4) Sample.ofMetainfo_info Sample.rivalry
  exact ⟨listed, (facts.2.2 (Or.inl rfl)).1 0 Sample.first listed⟩

end

end BitTorrent
