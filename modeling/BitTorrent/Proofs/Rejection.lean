import BitTorrent.Proofs.Blame
import BitTorrent.Proofs.Marks

/-!
A piece whose bytes do not match its hash leaves nothing behind: its marks are as if no block of it
had come, nobody fetches it, and nobody is told. What remains is that its sender may be banned, and
that the connection gets on with fetching, perhaps the same piece again.
-/

set_option autoImplicit false

namespace BitTorrent

namespace Download

variable {download : Download} {piece : Piece} {ip : IpAddress}

/-- A rejection changes the marks and the banned addresses only. -/
theorem reject_eq (download : Download) (piece : Piece) (ip : IpAddress) :
    download.reject piece ip = { download with
      holdings := download.holdings.markAll piece.index false
      banned := (download.reject piece ip).banned } := by
  unfold reject ban
  split
  · split <;> rfl
  · rfl

theorem isBanned_ban_of_isBanned {other : IpAddress} (banned : download.isBanned other = true) :
    (download.ban ip).isBanned other = true := by
  unfold ban
  split
  · exact banned
  · simp only [isBanned, List.contains_eq_mem, decide_eq_true_eq, List.mem_append] at banned ⊢
    exact Or.inl banned

/-- A rejected piece bans the address under the policy to do so, and nobody else. -/
theorem isBanned_reject_iff {other : IpAddress} :
    (download.reject piece ip).isBanned other = true ↔ download.isBanned other = true ∨
      (download.settings.corruptionPolicy = .ban ∧ other = ip) := by
  constructor
  · exact isBanned_reject
  · rintro (banned | ⟨policy, rfl⟩)
    · unfold reject
      split
      · exact isBanned_ban_of_isBanned banned
      · exact banned
    · exact reject_banned policy piece _

/-- What a download keeps of a piece that was hashed in vain: nothing but that its sender may be
banned. -/
structure Forgets (download after : Download) (piece : Nat) (sender : IpAddress) : Prop where
  completed : after.holdings.completed = download.holdings.completed
  unmarked : ∀ number, after.holdings.isFetched piece number = false
  others : ∀ other, other ≠ piece → after.holdings.blocks other = download.holdings.blocks other
  roster : after.roster = download.roster
  lastError : after.lastError = download.lastError
  banned : ∀ ip, after.isBanned ip = true ↔ download.isBanned ip = true ∨
    (download.settings.corruptionPolicy = .ban ∧ ip = sender)

end Download

namespace Turn

variable {turn : Turn} {piece : Piece} {request : BlockRequest}

/-- A banned peer that nothing is fetched from is at most told that we are not interested. -/
theorem fillPipeline_excluded (unassigned : turn.session.assigned = none)
    (banned : turn.download.isBanned turn.session.address.ip = true) :
    ∃ interested said, turn.fillPipeline.1 = { turn with
        session := { turn.session with amInterested := interested }
        outbox := turn.outbox ++ said } ∧ ∀ message ∈ said, message = .notInterested := by
  have still : turn = { turn with
      session := { turn.session with amInterested := turn.session.amInterested }
      outbox := turn.outbox ++ [] } := by rw [List.append_nil]
  have refused : turn.currentPiece [] = (turn, none) := by
    simp only [currentPiece, unassigned, assignPiece, banned, ↓reduceIte]
  unfold fillPipeline fill
  split
  · simp only [refused, stay]
    rcases turn.giveUp_cases [] with same | ⟨-, -, -, withdrawn⟩
    · exact ⟨_, [], same.trans still, List.forall_mem_nil _⟩
    · exact ⟨false, [.notInterested], withdrawn, List.forall_mem_singleton.mpr rfl⟩
  · exact ⟨_, [], still, List.forall_mem_nil _⟩

/-- A piece has been hashed in vain, and the connection has yet to get on with fetching. -/
structure Cleared (turn base : Turn) (piece : Nat) : Prop where
  forgets : turn.download.Forgets base.download piece turn.session.address.ip
  address : base.session.address = turn.session.address
  unassigned : base.session.assigned = none
  free : piece ∉ base.download.inFlight

theorem conclude_cleared (turn : Turn) (index : piece.index = request.piece) :
    turn.Cleared ((turn.conclude piece request).corrupt piece) request.piece := by
  rw [corrupt_eq, Download.reject_eq, index]
  refine {
    forgets := {
      completed := ?_
      unmarked := fun number => Holdings.isFetched_markAll_false _ _ number
      others := ?_
      roster := rfl
      lastError := rfl
      banned := fun ip => Download.isBanned_reject_iff }
    address := rfl
    unassigned := rfl
    free := ?_ }
  · exact (Holdings.completed_markAll _ _ _).trans (Holdings.completed_fetch _ _ _)
  · intro other different
    change (Holdings.markAll _ _ _).blocks other = _
    rw [Holdings.blocks_markAll, if_neg different.symm]
    exact Holdings.blocks_fetch_of_ne _ _ different.symm
  · intro taken
    obtain ⟨address, listed⟩ := Download.mem_inFlight.mp taken
    have kept := (List.mem_filter.mp listed).2
    simp at kept

/-- Getting on with fetching brings nothing back. -/
theorem Cleared.forgets_refilled {base : Turn} {index : Nat} (cleared : turn.Cleared base index)
    (sized : base.Sized) :
    turn.download.Forgets base.fillPipeline.1.download index turn.session.address.ip := by
  obtain ⟨completed, unmarked, others, roster, lastError, banned⟩ := cleared.forgets
  rw [(fillPipeline_pursues sized).1.download]
  exact ⟨completed, unmarked, others, roster, lastError, banned⟩

/-- The peer may be assigned the piece again unless it is banned, and nobody else is. -/
theorem Cleared.inFlight {base : Turn} {index : Nat} (cleared : turn.Cleared base index)
    (sized : base.Sized) (taken : index ∈ base.fillPipeline.1.download.inFlight) :
    base.fillPipeline.1.session.assigned = some index ∧
      turn.download.settings.corruptionPolicy = .retry := by
  have pursues := (fillPipeline_pursues sized).1
  have free : ∀ address, (index, address) ∉ base.download.assignments :=
    fun address listed => cleared.free (Download.mem_inFlight.mpr ⟨address, listed⟩)
  obtain ⟨address, listed⟩ := Download.mem_inFlight.mp taken
  have assigned : base.fillPipeline.1.session.assigned = some index := by
    by_cases own : address = base.session.address
    · subst own
      rcases pursues.listed listed with assigned | ⟨earlier, -⟩
      · exact assigned
      · exact absurd earlier (free _)
    · exact absurd (pursues.foreign own listed) (free _)
  refine ⟨assigned, ?_⟩
  cases policy : turn.download.settings.corruptionPolicy with
  | retry => rfl
  | ban =>
    have banned := (cleared.forgets.banned base.session.address.ip).mpr
      (Or.inr ⟨policy, congrArg Address.ip cleared.address⟩)
    obtain ⟨interested, said, filled, -⟩ := fillPipeline_excluded cleared.unassigned banned
    rw [filled] at assigned
    exact nomatch cleared.unassigned.symm.trans assigned

end Turn

namespace Scene

variable {scene : Scene} {now : Nat} {message : Message} {deposit : Deposit}

/-- The last missing block of a piece is stored and its bytes do not match its hash. -/
theorem Deposits.rejects (deposits : scene.Deposits now message deposit) (sound : scene.Sound)
    {piece : Piece} (found : scene.download.torrent.piece? deposit.request.piece = some piece)
    (all : (scene.download.holdings.fetch piece deposit.request).allFetched
      deposit.request.piece = true)
    {digest : Digest} (hashed : deposit.store.checksum piece.range = .ok digest)
    (mismatch : digest ≠ piece.hash) :
    let base := (deposit.turn.conclude piece deposit.request).corrupt piece
    let outcome := (scene.turn.receiveStored scene.store now message).2
    base.Sized ∧ outcome.turn = base.fillPipeline.1 ∧ outcome.result = .ok .stay := by
  intro base outcome
  have sized : base.Sized := by
    have checks := @Turn.Checks.corrupt (deposit.turn.conclude piece deposit.request) piece digest
      mismatch
    have corrupted := checks.sized (Turn.conclude_sized (deposits.sized sound) piece _)
    rw [← Turn.corrupt_eq] at corrupted
    exact corrupted
  have same : outcome = ⟨deposit.store, base.fillPipeline.1, base.fillPipeline.2⟩ := by
    change (scene.turn.receiveStored scene.store now message).2 = _
    rw [deposits.outcome_hashed found all]
    simp only [Turn.settleChecksum, hashed, Turn.afterChecksum, mismatch, ↓reduceIte, base]
  rw [same]
  exact ⟨sized, rfl, (Turn.fillPipeline_pursues sized).2⟩

end Scene

section

variable {info : Metainfo} {torrent : Torrent} {settings : Settings} {selector : Selector}
  {ownId : PeerId} {draws : List Nat} {store : MemoryStore} {happenings : List Happening}

/-- Wherever a run has led, if the block of a message is the last that was missing of a piece, the
bytes of the piece can be hashed unless reads fail. If they then do not match the hash of the piece,
the handler ends well. No piece is complete that was not, no command is queued, no block of the
piece is marked and the marks of other pieces are as they were, only the sender is banned and only
under the policy to do so, and no failure is kept. The piece is in flight only if the refill behind
all this has assigned it to the session again, which under that policy it does not. -/
theorem run_rejects (built : Torrent.ofMetainfo info = .ok torrent) :
    let swarm := (Swarm.start torrent settings selector ownId draws store).run happenings
    ∀ peer ∈ swarm.peers, ∀ now message deposit, (swarm.scene peer).Deposits now message deposit →
      ∀ piece, torrent.piece? deposit.request.piece = some piece →
        (∀ number < piece.blockCount, (piece.block number).offset ≠ deposit.request.start →
          swarm.download.holdings.isFetched deposit.request.piece number = true) →
        let outcome := ((swarm.scene peer).turn.receiveStored swarm.store now message).2
        let after := (swarm.step (.receive peer.address now message)).download
        (swarm.store.failReads = none →
          ∃ digest, deposit.store.checksum piece.range = .ok digest) ∧
        ∀ digest, deposit.store.checksum piece.range = .ok digest → digest ≠ piece.hash →
          outcome.result = .ok .stay ∧ after = outcome.turn.download ∧
            swarm.download.Forgets after deposit.request.piece peer.address.ip ∧
            ∃ base : Turn, outcome.turn = base.fillPipeline.1 ∧ base.session.assigned = none ∧
              deposit.request.piece ∉ base.download.inFlight ∧
              (deposit.request.piece ∈ after.inFlight →
                outcome.turn.session.assigned = some deposit.request.piece ∧
                  swarm.download.settings.corruptionPolicy = .retry) := by
  intro swarm peer connected now message deposit deposits piece found others outcome after
  let start := Swarm.start torrent settings selector ownId draws store
  have sound : start.Sound := Swarm.start_sound torrent settings selector ownId draws store
  have steady : swarm.Sound := sound.run happenings
  have own : swarm.download.torrent = torrent := Swarm.run_torrent sound happenings
  have tiled : torrent.Tiled := Torrent.ofMetainfo_tiled built
  have kept : swarm.Backed := backed_stable.run sound (Swarm.start_backed ..) happenings
  have accounted := kept.accounted peer connected
  have located : (swarm.scene peer).download.torrent.piece? deposit.request.piece =
    some piece := own ▸ found
  refine ⟨fun readable => ?_, fun digest hashed mismatch => ?_⟩
  · have covered := deposits.covers accounted (kept.backed (own ▸ tiled)) located others
    exact covered.checksum (tiled.positive found)
      ((MemoryStore.write_failReads deposits.taken).trans readable)
  · have all := deposits.last (steady.scene connected) accounted located others
    obtain ⟨sized, turned, stays⟩ :=
      deposits.rejects (steady.scene connected) located all hashed mismatch
    have cleared := deposit.turn.conclude_cleared (tiled.index found)
    have before : deposit.turn.download = swarm.download := deposits.download_eq
    have sender : deposit.turn.session.address = peer.address := deposits.address_eq
    have stepped : after = outcome.turn.download := steady.receive_download connected now message
    have forgets := cleared.forgets_refilled sized
    rw [← turned, before, sender] at forgets
    refine ⟨stays, stepped, stepped ▸ forgets, _, turned, cleared.unassigned, cleared.free, ?_⟩
    intro taken
    have inFlight := cleared.inFlight sized
    rw [← turned, before] at inFlight
    exact inFlight (stepped ▸ taken)

end

/-! The piece that two peers have sent, one of them with a wrong byte. -/

namespace Sample

theorem isFetched_mixture :
    (wideStart.run mixture).download.holdings.isFetched 0 1 = true ∧
      (wideStart.run mixture).download.lastError = none := by
  decide +kernel

/-- The second peer is banned for the piece, and no block of it is marked any more. -/
theorem run_rejects_remainder : ∃ peer ∈ (wideStart.run mixture).peers,
    let after := ((wideStart.run mixture).step (.receive peer.address 0
      (.piece 0 0 (List.replicate 16384 0)))).download
    after.isBanned second.ip = true ∧ after.lastError = none ∧
      (∀ number, after.holdings.isFetched 0 number = false) ∧ 0 ∉ after.inFlight := by
  obtain ⟨marked, quiet⟩ := isFetched_mixture
  obtain ⟨peer, deposit, condemns⟩ := condemns_remainder
  obtain ⟨policy, ⟨connected, now, message, same, deposits⟩, sender, -, digest, hashed, mismatch⟩ :=
    condemns
  obtain ⟨own, rfl, rfl⟩ := Happening.receive.inj same
  obtain ⟨piece, start, -⟩ := Message.piece.inj deposits.message_eq
  have found : wide.piece? deposit.request.piece = some widePiece := piece ▸ rfl
  have others : ∀ number < widePiece.blockCount,
      (widePiece.block number).offset ≠ deposit.request.start →
      (wideStart.run mixture).download.holdings.isFetched deposit.request.piece number = true := by
    intro number below apart
    have two : number < 2 := below
    have last : number = 1 := by
      by_contra other
      obtain rfl : number = 0 := by omega
      exact apart start
    rw [← piece, last]
    exact marked
  have rejects := @run_rejects wideInfo wide { pipelineDepth := 2 } ⟨.sequential, false⟩ peerId []
    (.empty 16385) mixture ofMetainfo_wideInfo peer connected 0 _ deposit deposits widePiece found
  have named : Swarm.start wide { pipelineDepth := 2 } ⟨.sequential, false⟩ peerId []
    (.empty 16385) = wideStart := rfl
  dsimp only at rejects
  rw [named] at rejects
  obtain ⟨-, -, forgets, -, -, -, -, inFlight⟩ := (rejects others).2 digest hashed mismatch
  rw [← piece] at forgets inFlight
  have banned := (forgets.banned second.ip).mpr (Or.inr ⟨policy, sender.symm⟩)
  refine ⟨peer, connected, banned, forgets.lastError.trans quiet, forgets.unmarked, fun taken => ?_⟩
  exact nomatch policy.symm.trans (inFlight taken).2

end Sample

end BitTorrent
