import BitTorrent.Proofs.InFlight
import BitTorrent.Proofs.Memory

/-!
Where the bytes of the store come from and why an address is banned. Only a block that answers a
request is ever written, and only the sender of the last block of a corrupt piece is banned.
-/

set_option autoImplicit false

namespace BitTorrent

namespace Download

theorem banned_free (download : Download) (session : Session) :
    (download.free session).banned = download.banned := by
  unfold free
  split <;> rfl

theorem banned_record (download : Download) (fault : Fault) :
    (download.record fault).banned = download.banned := by
  unfold record
  split <;> rfl

theorem banned_verify (download : Download) (piece : Piece) :
    (download.verify piece).banned = download.banned := by
  unfold verify
  split <;> rfl

theorem banned_recheck (download : Download) (store : MemoryStore) :
    (download.recheck store).1.banned = download.banned :=
  @recheck_induction (·.banned = download.banned) store (fun _ _ same => same) download rfl

theorem isBanned_ban {download : Download} {ip other : IpAddress}
    (banned : (download.ban ip).isBanned other = true) :
    download.isBanned other = true ∨ other = ip := by
  unfold ban at banned
  split at banned
  · exact Or.inl banned
  · simpa [isBanned] using banned

theorem isBanned_reject {download : Download} {piece : Piece} {ip other : IpAddress}
    (banned : (download.reject piece ip).isBanned other = true) :
    download.isBanned other = true ∨ (download.settings.corruptionPolicy = .ban ∧ other = ip) := by
  unfold reject at banned
  split at banned
  · rename_i policy
    exact (isBanned_ban banned).imp id fun same => ⟨policy, same⟩
  · exact Or.inl banned

end Download

/-- A block that is written: the turn that waits for the write, and the store behind it. -/
structure Deposit where
  request : BlockRequest
  range : ByteRange
  data : Bytes
  turn : Turn
  store : MemoryStore

namespace Deposit

/-- The block puts a byte at a position of the store. -/
def Brings (deposit : Deposit) (position : Nat) (byte : UInt8) : Prop :=
  ∃ index, position = deposit.range.offset + index ∧ deposit.data[index]? = some byte

/-- The block is the last that was missing of a piece, whose bytes do not match its hash. -/
structure Corrupts (deposit : Deposit) (piece : Piece) : Prop where
  last : ∃ turn,
    deposit.turn.afterWrite deposit.request (.ok ()) = (turn, .wait (.checksum piece))
  mismatch : ∃ digest, deposit.store.checksum piece.range = .ok digest ∧ digest ≠ piece.hash

end Deposit

/-- The turn that has a piece hashed: its last block is marked, and nobody fetches it any more. -/
def Turn.conclude (turn : Turn) (piece : Piece) (request : BlockRequest) : Turn :=
  { turn with
    download := (turn.download.withHoldings
      (turn.download.holdings.fetch piece request)).releaseAll request.piece
    session := turn.session.assign none }

theorem Turn.conclude_sized {turn : Turn} (sized : turn.Sized) (piece : Piece)
    (request : BlockRequest) : (turn.conclude piece request).Sized := by
  rw [Sized, ← Holdings.completed_fetch _ piece request] at sized
  exact sized

namespace Scene

variable {scene : Scene} {now : Nat} {message : Message} {deposit : Deposit}

/-- A message has a block written. -/
structure Deposits (scene : Scene) (now : Nat) (message : Message) (deposit : Deposit) :
    Prop where
  waits : ∃ session event, scene.peer.session.receive now message = (session, .ok event) ∧
    ({ scene.turn with session := session } : Turn).handle event =
      (deposit.turn, .wait (.write deposit.request deposit.range deposit.data))
  taken : scene.store.write deposit.range deposit.data = .ok deposit.store

namespace Deposits

theorem message_eq (deposits : scene.Deposits now message deposit) :
    message = .piece deposit.request.piece deposit.request.start deposit.data := by
  obtain ⟨session, event, heard, handled⟩ := deposits.waits
  obtain ⟨rfl, -⟩ := Turn.handle_write handled
  exact (Session.receive_block heard).1

theorem download_eq (deposits : scene.Deposits now message deposit) :
    deposit.turn.download = scene.download := by
  obtain ⟨session, event, heard, handled⟩ := deposits.waits
  obtain ⟨-, same, -⟩ := Turn.handle_write handled
  rw [same]
  rfl

theorem answers (deposits : scene.Deposits now message deposit) :
    ∃ piece, scene.Answers deposit.request deposit.data piece deposit.range := by
  obtain ⟨session, event, heard, handled⟩ := deposits.waits
  obtain ⟨rfl, -, missing, piece, found, inside⟩ := Turn.handle_write handled
  obtain ⟨-, asked, sized⟩ := Session.receive_block heard
  exact ⟨piece, asked, sized, found, missing, inside⟩

/-- What the reaction to the message leaves behind. -/
theorem outcome_eq (deposits : scene.Deposits now message deposit) :
    (scene.turn.receiveStored scene.store now message).2 = Turn.settle scene.store
      (deposit.turn, .wait (.write deposit.request deposit.range deposit.data)) := by
  obtain ⟨session, event, heard, handled⟩ := deposits.waits
  have received : scene.turn.session.receive now message = (session, .ok event) := heard
  simp only [Turn.receiveStored, received, Turn.handleStored, handled]

theorem sized (deposits : scene.Deposits now message deposit) (sound : scene.Sound) :
    deposit.turn.Sized := by
  obtain ⟨session, event, heard, handled⟩ := deposits.waits
  obtain ⟨-, same, -⟩ := Turn.handle_write handled
  obtain ⟨-, -, size⟩ := scene.peer.session.receive_keeps now message
  rw [heard] at size
  rw [same]
  exact size.trans sound.sized

theorem address_eq (deposits : scene.Deposits now message deposit) :
    deposit.turn.session.address = scene.peer.address := by
  obtain ⟨session, event, heard, handled⟩ := deposits.waits
  obtain ⟨-, same, -⟩ := Turn.handle_write handled
  obtain ⟨-, address, -⟩ := scene.peer.session.receive_keeps now message
  rw [heard] at address
  rw [same]
  exact address

/-- What the last block of a piece leads to. -/
theorem outcome_hashed (deposits : scene.Deposits now message deposit) {piece : Piece}
    (found : scene.download.torrent.piece? deposit.request.piece = some piece)
    (all : (scene.download.holdings.fetch piece deposit.request).allFetched
      deposit.request.piece = true) :
    (scene.turn.receiveStored scene.store now message).2 =
      Turn.settleChecksum deposit.store (deposit.turn.conclude piece deposit.request) piece := by
  rw [← deposits.download_eq] at found all
  rw [deposits.outcome_eq, Turn.settle_hashed deposits.taken found all]
  rfl

end Deposits

/-- A block of an incomplete piece that answers an open request is written. -/
theorem Answers.deposits {request : BlockRequest} {data : Bytes} {piece : Piece}
    {range : ByteRange} {store : MemoryStore} (answers : scene.Answers request data piece range)
    (isOpen : scene.peer.session.phase.isOpen = true) (now : Nat)
    (taken : scene.store.write range data = .ok store) :
    scene.Deposits now (.piece request.piece request.start data)
      ⟨request, range, data, (scene.arrive now request data).turn, store⟩ where
  waits := by
    refine ⟨_, _, receive_block isOpen answers.isOpen answers.sized, ?_⟩
    have present : scene.turn.download.torrent.piece? request.piece = some piece := answers.found
    have incomplete : scene.turn.download.holdings.has request.piece = false := answers.missing
    simp only [Turn.handle, Turn.onBlock, present, incomplete, answers.inside, Bool.false_eq_true,
      ↓reduceIte]
    rfl
  taken := taken

end Scene

namespace Turn

variable {turn : Turn} {request : BlockRequest} {range : ByteRange} {data : Bytes}

theorem Pursues.banned {after : Turn} (pursues : turn.Pursues after) :
    after.download.banned = turn.download.banned := by
  rw [pursues.download]

theorem Basis.banned {event : Event} {base : Turn} (basis : turn.Basis event base) :
    base.download.banned = turn.download.banned := by
  cases basis with
  | same | published => rfl
  | unchoked =>
    rw [Session.unchoke_eq]
    cases turn.session.amChoking <;> rfl
  | choked =>
    rw [Session.choke_eq]
    cases turn.session.amChoking <;> rfl

/-- A piece is hashed behind a write if the block is the last of it that was missing. -/
theorem afterWrite_hashes {after : Turn} {piece : Piece}
    (waits : turn.afterWrite request (.ok ()) = (after, .wait (.checksum piece))) :
    turn.download.torrent.piece? request.piece = some piece ∧
      (turn.download.holdings.fetch piece request).allFetched request.piece = true := by
  cases found : turn.download.torrent.piece? request.piece with
  | none =>
    simp only [afterWrite, found] at waits
    cases congrArg Prod.snd waits
  | some other =>
    rw [afterWrite_ok found] at waits
    dsimp only at waits
    split at waits
    · rename_i all
      cases congrArg Prod.snd waits
      exact ⟨rfl, all⟩
    · cases congrArg Prod.snd waits

theorem afterWrite_last {piece : Piece}
    (found : turn.download.torrent.piece? request.piece = some piece)
    (all : (turn.download.holdings.fetch piece request).allFetched request.piece = true) :
    turn.afterWrite request (.ok ()) = (turn.conclude piece request, .wait (.checksum piece)) := by
  have complete : (turn.withHoldings (turn.download.holdings.fetch piece
    request)).download.holdings.allFetched request.piece = true := all
  simp only [afterWrite_ok found, complete, ↓reduceIte]
  rfl

/-- The store behind a write does not depend on what else is done then. -/
theorem store_settle {store written : MemoryStore}
    (taken : store.write range data = .ok written) :
    (settle store (turn, .wait (.write request range data))).store = written := by
  unfold settle
  simp only [taken]
  split <;> rfl

/-- Hashing a piece bans the address of the session at most, and only for a mismatch. -/
theorem settleChecksum_bans (sized : turn.Sized) {store : MemoryStore} {piece : Piece}
    {ip : IpAddress} (banned : (settleChecksum store turn piece).turn.download.isBanned ip = true) :
    turn.download.isBanned ip = true ∨
      (turn.download.settings.corruptionPolicy = .ban ∧ ip = turn.session.address.ip ∧
        ∃ digest, store.checksum piece.range = .ok digest ∧ digest ≠ piece.hash) := by
  obtain ⟨base, checks, pursues, -⟩ := afterChecksum_pursues sized piece
    (store.checksum piece.range)
  have based : base.download.isBanned ip = true := by
    rw [Download.isBanned, ← pursues.banned]
    exact banned
  generalize outcome : store.checksum piece.range = digest at checks
  cases checks with
  | unreadable fault =>
    rw [Download.isBanned, Download.banned_record] at based
    exact Or.inl based
  | intact =>
    rw [Download.isBanned, Download.banned_verify] at based
    exact Or.inl based
  | corrupt digest mismatch =>
    exact (Download.isBanned_reject based).imp id fun both =>
      ⟨both.1, both.2, digest, rfl, mismatch⟩

/-- The answer to a write bans the address of the session at most, and only if the block completes
a corrupt piece. -/
theorem settle_bans (sized : turn.Sized) {store written : MemoryStore}
    (taken : store.write range data = .ok written) {piece : Piece}
    (found : turn.download.torrent.piece? request.piece = some piece) {ip : IpAddress}
    (banned : (settle store (turn, .wait (.write request range data))).turn.download.isBanned ip =
      true) :
    turn.download.isBanned ip = true ∨
      (turn.download.settings.corruptionPolicy = .ban ∧ ip = turn.session.address.ip ∧
        Deposit.Corrupts ⟨request, range, data, turn, written⟩ piece) := by
  have marked := turn.conclude_sized sized piece request
  cases all : (turn.download.holdings.fetch piece request).allFetched request.piece with
  | false =>
    rw [settle_stored taken found all] at banned
    have filled := (@fillPipeline_pursues
      (turn.withHoldings (turn.download.holdings.fetch piece request)) marked).1
    rw [Download.isBanned, filled.banned] at banned
    exact Or.inl banned
  | true =>
    rw [settle_hashed taken found all] at banned
    refine (settleChecksum_bans marked banned).imp id ?_
    rintro ⟨policy, same, mismatch⟩
    exact ⟨policy, same, ⟨_, afterWrite_last found all⟩, mismatch⟩

end Turn

namespace Scene

variable {scene : Scene} {now : Nat} {message : Message} {deposit : Deposit}

theorem store_settle (scene : Scene) (outcome : Outcome) :
    (scene.settle outcome).store = outcome.store := by
  unfold settle judged
  split <;> rfl

theorem download_settle (scene : Scene) (outcome : Outcome) :
    (scene.settle outcome).download = outcome.turn.download := by
  unfold settle judged
  split <;> rfl

theorem judged_follow_store (scene : Scene) (turn : Turn) (result : Except Fault Flow) :
    ((scene.follow turn).judged result).store = scene.store := by
  unfold judged
  split <;> rfl

/-- A handler leaves the bytes of the store and the banned addresses alone. -/
structure Spares (scene after : Scene) : Prop where
  store : after.store = scene.store
  banned : after.download.banned = scene.download.banned

/-- What a message can do to the bytes of the store and to the banned addresses. -/
inductive Tampers (scene : Scene) (now : Nat) (message : Message) (after : Scene) : Prop
  | not : scene.Spares after → Tampers scene now message after
  | deposits (deposit : Deposit) : scene.Deposits now message deposit →
      after.store = deposit.store →
      (∀ ip, after.download.isBanned ip = true → scene.download.isBanned ip = true ∨
        (scene.download.settings.corruptionPolicy = .ban ∧ ip = scene.peer.address.ip ∧
          ∃ piece, deposit.Corrupts piece)) →
      Tampers scene now message after

theorem receive_tampers (sound : scene.Sound) (now : Nat) (message : Message) :
    scene.Tampers now message (scene.receive now message) := by
  obtain ⟨-, address, sized⟩ := scene.peer.session.receive_keeps now message
  cases heard : scene.peer.session.receive now message with
  | mk session result =>
    rw [heard] at address sized
    cases result with
    | error violation =>
      rw [receive_error heard]
      exact .not ⟨rfl, rfl⟩
    | ok event =>
      have sizedAfter : (scene.hear session message).turn.Sized := sized.trans sound.sized
      obtain ⟨base, basis, pursues, reacts⟩ := Turn.handle_pursues sizedAfter event
      rw [receive_ok heard]
      cases handled : (scene.hear session message).turn.handle event with
      | mk after next =>
        rw [handled] at pursues reacts
        have same : after.download.banned = scene.download.banned :=
          pursues.banned.trans basis.banned
        cases reacts with
        | ended | objected =>
          exact .not ⟨store_settle _ _, by rw [download_settle]; exact same⟩
        | waits request data piece range block found missing inside =>
          obtain ⟨-, rfl, -⟩ := Turn.handle_write handled
          cases taken : scene.store.write range data with
          | error fault =>
            rw [Turn.settle_lost taken]
            refine .not ⟨store_settle _ _, ?_⟩
            rw [download_settle]
            exact Download.banned_record _ _
          | ok store =>
            refine .deposits ⟨request, range, data, _, store⟩
              ⟨⟨session, event, heard, handled⟩, taken⟩ ?_ ?_
            · rw [store_settle, Turn.store_settle taken]
            · intro ip banned
              rw [download_settle] at banned
              have bans := Turn.settle_bans sizedAfter taken found banned
              refine bans.imp id ?_
              rintro ⟨policy, who, corrupts⟩
              refine ⟨policy, who.trans ?_, piece, corrupts⟩
              exact congrArg Address.ip address

theorem serve_spares (scene : Scene) : scene.Spares scene.serve := by
  have taken : scene.turn.session.takeUpload =
    ({ scene.peer.session with upload := none }, scene.peer.session.upload) := rfl
  refine ⟨?_, ?_⟩ <;> unfold serve
  · rw [store_settle]
    unfold Turn.serveStored Turn.serve
    rw [taken]
    cases scene.peer.session.upload with
    | none => rfl
    | some request =>
      dsimp only
      split
      · rfl
      · split <;> rfl
  · rw [download_settle]
    unfold Turn.serveStored Turn.serve
    rw [taken]
    cases scene.peer.session.upload with
    | none => rfl
    | some request =>
      dsimp only
      split
      · rfl
      · split
        · rfl
        · rename_i range located
          dsimp only [Turn.settle]
          cases scene.store.read range with
          | error fault => exact Download.banned_record _ _
          | ok data => rfl

theorem localHave_spares (sized : scene.turn.Sized) (piece : Nat) :
    scene.Spares (scene.localHave piece) := by
  obtain ⟨middle, cancelled, later, -⟩ := Turn.onLocalHave_pursues sized piece
  refine ⟨judged_follow_store _ _ _, ?_⟩
  have turned := congrArg (·.download.banned)
    (scene.turn_judged (scene.turn.onLocalHave piece).1 (scene.turn.onLocalHave piece).2)
  exact turned.trans (later.banned.trans cancelled.banned)

theorem checkIdle_spares (scene : Scene) (now : Nat) : scene.Spares (scene.checkIdle now) := by
  rw [checkIdle]
  rcases scene.turn.checkIdle_cases now with idle | idle | idle <;> rw [idle] <;> exact ⟨rfl, rfl⟩

theorem obey_spares (sized : scene.turn.Sized) : scene.Spares scene.obey := by
  unfold obey
  split
  · exact ⟨rfl, rfl⟩
  · rename_i command rest queued
    cases command with
    | have_ piece =>
      let taken := scene.withDownload (scene.download.withRoster
        (scene.download.roster.setQueue scene.peer.mailbox rest))
      have sizedTaken : taken.turn.Sized := sized
      obtain ⟨store, banned⟩ := localHave_spares sizedTaken piece
      exact ⟨store, banned⟩
    | disconnect => exact ⟨rfl, rfl⟩

end Scene

namespace Swarm

variable {swarm : Swarm} {happening : Happening} {peer : Peer} {deposit : Deposit}

/-- A happening has a block written that a connected peer sent. -/
structure Deposits (swarm : Swarm) (happening : Happening) (peer : Peer) (deposit : Deposit) :
    Prop where
  connected : peer ∈ swarm.peers
  received : ∃ now message, happening = .receive peer.address now message ∧
    (swarm.scene peer).Deposits now message deposit

/-- A happening has the address of a peer banned, which sent the last block of a piece that is
corrupt then. -/
structure Condemns (swarm : Swarm) (happening : Happening) (ip : IpAddress) (peer : Peer)
    (deposit : Deposit) (piece : Piece) : Prop where
  policy : swarm.download.settings.corruptionPolicy = .ban
  deposits : swarm.Deposits happening peer deposit
  sender : peer.address.ip = ip
  corrupts : deposit.Corrupts piece

/-- What a happening can do to the bytes of the store and to the banned addresses. -/
inductive Tampers (swarm : Swarm) (happening : Happening) (after : Swarm) : Prop
  | not : (∀ position, after.store.byte? position = swarm.store.byte? position) →
      (∀ ip, after.download.isBanned ip = true → swarm.download.isBanned ip = true ∨
        happening = .ban ip) → Tampers swarm happening after
  | deposits (peer : Peer) (deposit : Deposit) : swarm.Deposits happening peer deposit →
      after.store = deposit.store →
      (∀ ip, after.download.isBanned ip = true → swarm.download.isBanned ip = true ∨
        ∃ piece, swarm.Condemns happening ip peer deposit piece) → Tampers swarm happening after

theorem on_tampers (address : Address) (handler : Scene → Scene)
    (spares : ∀ peer ∈ swarm.peers, (swarm.scene peer).Spares (handler (swarm.scene peer))) :
    swarm.Tampers happening (swarm.on address handler) := by
  unfold on
  split
  · exact .not (fun _ => rfl) fun _ banned => Or.inl banned
  · rename_i peer found
    obtain ⟨store, banned⟩ := spares peer (peer?_some found).1
    refine .not (fun position => ?_) fun ip later => Or.inl ?_
    · exact congrArg (·.byte? position) store
    · rwa [Download.isBanned, ← show _ = swarm.download.banned from banned]

theorem receive_tampers (sound : swarm.Sound) (address : Address) (now : Nat)
    (message : Message) :
    swarm.Tampers (.receive address now message) (swarm.on address (·.receive now message)) := by
  unfold on
  split
  · exact .not (fun _ => rfl) fun _ banned => Or.inl banned
  · rename_i peer found
    obtain ⟨connected, rfl⟩ := peer?_some found
    cases Scene.receive_tampers (sound.scene connected) now message with
    | not spares =>
      refine .not (fun position => ?_) fun ip later => Or.inl ?_
      · exact congrArg (·.byte? position) spares.store
      · rwa [Download.isBanned, ← show _ = swarm.download.banned from spares.banned]
    | deposits deposit deposits store bans =>
      have sent : swarm.Deposits (.receive peer.address now message) peer deposit :=
        ⟨connected, now, message, rfl, deposits⟩
      refine .deposits peer deposit sent store fun ip later => (bans ip later).imp id ?_
      rintro ⟨policy, rfl, piece, corrupts⟩
      exact ⟨piece, policy, sent, rfl, corrupts⟩

/-- Whatever happens, at most a block that was asked for is written, and the sender of the last
block of a corrupt piece is banned. -/
theorem step_tampers (sound : swarm.Sound) (happening : Happening) :
    swarm.Tampers happening (swarm.step happening) := by
  have same : ∀ {download : Download}, download.banned = swarm.download.banned → ∀ ip,
      download.isBanned ip = true → swarm.download.isBanned ip = true ∨ happening = .ban ip := by
    intro download banned ip later
    rw [Download.isBanned, banned] at later
    exact Or.inl later
  cases happening with
  | join address peerId source capabilities now =>
    simp only [step, join]
    split
    · exact .not (fun _ => rfl) (same rfl)
    · exact .not (fun _ => rfl) (same rfl)
  | greet address => exact on_tampers address Scene.greet fun _ _ => ⟨rfl, rfl⟩
  | receive address now message => exact receive_tampers sound address now message
  | serve address => exact on_tampers address Scene.serve fun _ _ => Scene.serve_spares _
  | localHave address piece =>
    exact on_tampers address (·.localHave piece) fun peer there =>
      Scene.localHave_spares (sound.scene there).sized piece
  | obey address =>
    exact on_tampers address Scene.obey fun peer there =>
      Scene.obey_spares (sound.scene there).sized
  | checkIdle address now =>
    exact on_tampers address (·.checkIdle now) fun _ _ => Scene.checkIdle_spares _ now
  | leave address =>
    simp only [step]
    cases found : swarm.peer? address with
    | none =>
      simp only [leave, found]
      exact .not (fun _ => rfl) (same rfl)
    | some peer =>
      rw [leave_eq found]
      exact .not (fun _ => rfl) (same (Download.banned_free _ _))
  | recheck => exact .not (fun _ => rfl) (same (Download.banned_recheck _ _))
  | ban ip =>
    refine .not (fun _ => rfl) fun other banned => ?_
    exact (Download.isBanned_ban banned).imp id fun named => congrArg _ named.symm
  | failWrites fault => exact .not (fun _ => rfl) (same rfl)
  | failReads fault => exact .not (fun _ => rfl) (same rfl)

/-- At some moment of a run something happens to a swarm. -/
def Meets (start : Swarm) (happenings : List Happening) (P : Swarm → Happening → Prop) : Prop :=
  ∃ before happening after, happenings = before ++ happening :: after ∧
    P (start.run before) happening

/-- What holds at the end of a run held at its start or came about at some moment. -/
theorem run_traces {Q : Swarm → Prop} {P : Swarm → Happening → Prop}
    (traces : ∀ {swarm : Swarm} (happening : Happening), swarm.Sound →
      Q (swarm.step happening) → Q swarm ∨ P swarm happening)
    {start : Swarm} (sound : start.Sound) (happenings : List Happening)
    (holds : Q (start.run happenings)) : Q start ∨ start.Meets happenings P := by
  induction happenings using List.reverseRecOn with
  | nil => exact Or.inl holds
  | append_singleton front last ih =>
    have stepped : start.run (front ++ [last]) = (start.run front).step last := run_append _ _ _
    rw [stepped] at holds
    rcases traces last (sound.run front) holds with earlier | now
    · refine (ih earlier).imp id ?_
      rintro ⟨before, happening, after, rfl, met⟩
      exact ⟨before, happening, after ++ [last], by simp, met⟩
    · exact Or.inr ⟨front, last, [], rfl, now⟩

/-- A byte of the store was there at the start or was brought by a block that was asked for. -/
theorem run_brings {start : Swarm} (sound : start.Sound) (happenings : List Happening)
    {position : Nat} {byte : UInt8}
    (stored : (start.run happenings).store.byte? position = some byte) :
    start.store.byte? position = some byte ∨
      start.Meets happenings fun swarm happening => ∃ peer deposit,
        swarm.Deposits happening peer deposit ∧ deposit.Brings position byte := by
  refine run_traces (Q := fun swarm => swarm.store.byte? position = some byte) ?_ sound happenings
    stored
  intro swarm happening steady later
  cases step_tampers steady happening with
  | not store =>
    rw [store] at later
    exact Or.inl later
  | deposits peer deposit deposits store =>
    rw [store] at later
    obtain ⟨now, message, -, sent⟩ := deposits.received
    obtain ⟨sized, -, -, inside, outside⟩ := MemoryStore.write_ok sent.taken
    by_cases covered : deposit.range.offset ≤ position ∧ position < deposit.range.stop
    · rw [inside position covered.1 covered.2] at later
      exact Or.inr ⟨peer, deposit, deposits, _, by omega, later⟩
    · rw [outside position (by omega)] at later
      exact Or.inl later

/-- A banned address was banned at the start, by request, or because a peer there sent the last
block of a corrupt piece. -/
theorem run_bans {start : Swarm} (sound : start.Sound) (happenings : List Happening)
    {ip : IpAddress} (banned : (start.run happenings).download.isBanned ip = true) :
    start.download.isBanned ip = true ∨
      start.Meets happenings fun swarm happening => happening = .ban ip ∨
        ∃ peer deposit piece, swarm.Condemns happening ip peer deposit piece := by
  refine run_traces (Q := fun swarm => swarm.download.isBanned ip = true) ?_ sound happenings banned
  intro swarm happening steady later
  cases step_tampers steady happening with
  | not _ bans => exact (bans ip later).imp id Or.inl
  | deposits peer deposit _ _ bans =>
    exact (bans ip later).imp id fun condemns => Or.inr ⟨peer, deposit, condemns⟩

theorem Sound.peer?_eq (sound : swarm.Sound) (connected : peer ∈ swarm.peers) :
    swarm.peer? peer.address = some peer := by
  cases found : swarm.peer? peer.address with
  | none =>
    have absent := List.find?_eq_none.mp found peer connected
    simp at absent
  | some other =>
    obtain ⟨there, same⟩ := peer?_some found
    rw [sound.unique there connected same]

/-- A message leaves the download that its handler leaves. -/
theorem Sound.receive_download (sound : swarm.Sound) (connected : peer ∈ swarm.peers) (now : Nat)
    (message : Message) :
    (swarm.step (.receive peer.address now message)).download =
      ((swarm.scene peer).turn.receiveStored swarm.store now message).2.turn.download := by
  simp only [Swarm.step, Swarm.on, sound.peer?_eq connected]
  change (Scene.receive _ now message).download = _
  rw [Scene.receive, Scene.download_settle]
  rfl

/-- The store behind a block that is written. -/
theorem Deposits.store_eq (sound : swarm.Sound) (deposits : swarm.Deposits happening peer deposit) :
    (swarm.step happening).store = deposit.store := by
  obtain ⟨connected, now, message, rfl, sent⟩ := deposits
  have found : swarm.peer? peer.address = some peer := sound.peer?_eq connected
  simp only [step, on, found]
  change (Scene.receive _ now message).store = _
  rw [Scene.receive, Scene.store_settle]
  exact (congrArg Outcome.store sent.outcome_eq).trans (Turn.store_settle sent.taken)

end Swarm

end BitTorrent
