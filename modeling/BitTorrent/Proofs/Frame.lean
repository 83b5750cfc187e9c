import BitTorrent.Proofs.Move
import BitTorrent.Proofs.Roster

/-! What no move changes, and what it changes in one direction only. -/

set_option autoImplicit false

namespace BitTorrent

namespace Holdings

@[simp] theorem size_complete (holdings : Holdings) (piece : Nat) :
    (holdings.complete piece).1.completed.size = holdings.completed.size := by
  unfold complete
  split
  · exact Bitfield.size_insert _ _
  · rfl

theorem completed_fetch (holdings : Holdings) (piece : Piece) (request : BlockRequest) :
    (holdings.fetch piece request).completed = holdings.completed := by
  unfold fetch
  split <;> rfl

end Holdings

/-- How the state that all connections share may change: the torrent and the rules stay, complete
pieces stay complete, banned peers stay banned, and nobody is disconnected. -/
structure Download.Evolves (before after : Download) : Prop where
  torrent : after.torrent = before.torrent
  settings : after.settings = before.settings
  selector : after.selector = before.selector
  size : after.holdings.completed.size = before.holdings.completed.size
  complete : ∀ {piece}, before.holdings.has piece = true → after.holdings.has piece = true
  banned : ∀ {ip}, before.isBanned ip = true → after.isBanned ip = true
  connected : ∀ {address}, before.roster.isConnected address = true →
    after.roster.isConnected address = true

namespace Download

theorem Evolves.refl (download : Download) : download.Evolves download :=
  ⟨rfl, rfl, rfl, rfl, id, id, id⟩

theorem Evolves.trans {before middle after : Download} (first : before.Evolves middle)
    (second : middle.Evolves after) : before.Evolves after where
  torrent := second.torrent.trans first.torrent
  settings := second.settings.trans first.settings
  selector := second.selector.trans first.selector
  size := second.size.trans first.size
  complete := second.complete ∘ first.complete
  banned := second.banned ∘ first.banned
  connected := second.connected ∘ first.connected

theorem assign_evolves (download : Download) (piece : Nat) (address : Address) :
    download.Evolves (download.assign piece address) := by
  unfold assign
  split <;> exact ⟨rfl, rfl, rfl, rfl, id, id, id⟩

theorem record_evolves (download : Download) (fault : Fault) :
    download.Evolves (download.record fault) := by
  unfold record
  split <;> exact ⟨rfl, rfl, rfl, rfl, id, id, id⟩

theorem free_evolves (download : Download) (session : Session) :
    download.Evolves (download.free session) := by
  unfold free
  split <;> exact ⟨rfl, rfl, rfl, rfl, id, id, id⟩

theorem ban_evolves (download : Download) (ip : IpAddress) :
    download.Evolves (download.ban ip) := by
  unfold ban
  split
  · exact .refl download
  · refine ⟨rfl, rfl, rfl, rfl, id, ?_, id⟩
    intro other banned
    simp only [isBanned, List.contains_eq_mem, decide_eq_true_eq] at banned ⊢
    exact List.mem_append_left _ banned

theorem complete_evolves (download : Download) (piece : Nat) :
    download.Evolves (download.complete piece).1 := by
  refine ⟨rfl, rfl, rfl, Holdings.size_complete _ _, ?_, id, id⟩
  intro other held
  change (download.holdings.complete piece).1.has other = true
  rw [Holdings.has_complete, held, Bool.true_or]

theorem announce_evolves (download : Download) (piece : Nat) :
    download.Evolves (download.announce piece) := by
  refine ⟨rfl, rfl, rfl, rfl, id, id, ?_⟩
  intro address connected
  rw [← connected]
  exact Roster.isConnected_congr (Roster.entries_broadcast _ _) address

theorem verify_evolves (download : Download) (piece : Piece) :
    download.Evolves (download.verify piece) := by
  have completed := download.complete_evolves piece.index
  unfold verify
  split
  · exact completed.trans (announce_evolves _ _)
  · exact completed

/-- Marks of blocks may change in any way. -/
theorem withHoldings_evolves (download : Download) {holdings : Holdings}
    (same : holdings.completed = download.holdings.completed) :
    download.Evolves (download.withHoldings holdings) where
  torrent := rfl
  settings := rfl
  selector := rfl
  size := by rw [← same]; rfl
  complete := by
    intro piece held
    change holdings.completed.has piece = true
    rw [same]
    exact held
  banned := id
  connected := id

theorem reject_evolves (download : Download) (piece : Piece) (ip : IpAddress) :
    download.Evolves (download.reject piece ip) := by
  have forgotten := download.withHoldings_evolves
    (download.holdings.completed_markAll piece.index false)
  unfold reject
  split
  · exact forgotten.trans (ban_evolves _ ip)
  · exact forgotten

theorem fetched_evolves (download : Download) (piece : Piece) (request : BlockRequest)
    (index : Nat) :
    download.Evolves
      ((download.withHoldings (download.holdings.fetch piece request)).releaseAll index) :=
  (download.withHoldings_evolves (download.holdings.completed_fetch piece request)).trans
    ⟨rfl, rfl, rfl, rfl, id, id, id⟩

end Download

theorem Move.evolves {scene after : Scene} (move : Move scene after) :
    scene.download.Evolves after.download := by
  have same := Download.Evolves.refl scene.download
  cases move with
  | choked now => exact Download.free_evolves _ _
  | announced now message field useful =>
    refine ⟨rfl, rfl, rfl, rfl, id, id, ?_⟩
    intro address connected
    rw [← connected]
    exact Roster.isConnected_updateBitfield field address
  | lost now fault => exact Download.record_evolves _ _
  | stored now store => exact Download.withHoldings_evolves _ (Holdings.completed_fetch _ _ _)
  | completed now store =>
    exact (Download.fetched_evolves _ _ _ _).trans (Download.verify_evolves _ _)
  | corrupted now store digest =>
    exact (Download.fetched_evolves _ _ _ _).trans (Download.reject_evolves _ _ _)
  | unreadable now store fault =>
    exact ((Download.fetched_evolves _ _ _ _).trans
      (Download.withHoldings_evolves _ (Holdings.completed_markAll _ _ _))).trans
        (Download.record_evolves _ _)
  | released | recalled => exact Download.free_evolves _ _
  | took piece => exact (Download.assign_evolves _ piece _).trans ⟨rfl, rfl, rfl, rfl, id, id, id⟩
  | unserved download origin =>
    rcases origin with rfl | ⟨fault, rfl⟩
    · exact same
    · exact Download.record_evolves _ _
  | obeyed rest => exact ⟨rfl, rfl, rfl, rfl, id, id, id⟩
  | _ => exact same

theorem Moves.evolves {scene after : Scene} (moves : Moves scene after) :
    scene.download.Evolves after.download := by
  induction moves with
  | refl => exact .refl _
  | tail _ move ih => exact ih.trans move.evolves

/-- A connection keeps its address and its mailbox, a fault is never forgotten, and the log only
grows. -/
structure Peer.Persists (before after : Peer) : Prop where
  address : after.address = before.address
  mailbox : after.mailbox = before.mailbox
  failed : before.failed = true → after.failed = true
  log : before.log <+: after.log

theorem Peer.Persists.grown {before after : Peer} (address : after.address = before.address)
    (mailbox : after.mailbox = before.mailbox)
    (failed : before.failed = true → after.failed = true) {more : List Exchange}
    (log : after.log = before.log ++ more) : before.Persists after :=
  ⟨address, mailbox, failed, log ▸ List.prefix_append _ _⟩

theorem Peer.Persists.refl (peer : Peer) : peer.Persists peer :=
  ⟨rfl, rfl, id, List.prefix_rfl⟩

theorem Peer.Persists.trans {before middle after : Peer} (first : before.Persists middle)
    (second : middle.Persists after) : before.Persists after where
  address := second.address.trans first.address
  mailbox := second.mailbox.trans first.mailbox
  failed := second.failed ∘ first.failed
  log := first.log.trans second.log

theorem Move.persists {scene after : Scene} (move : Move scene after) :
    scene.peer.Persists after.peer := by
  cases move with
  | refused | rejected | stray => exact .grown rfl rfl (fun _ => rfl) rfl
  | lost | unreadable => exact .grown rfl rfl (fun _ => rfl) (List.append_assoc _ _ _)
  | unserved => exact ⟨rfl, rfl, fun _ => rfl, List.prefix_rfl⟩
  | interested | notInterested | accepted | announced | stored | completed | corrupted | told
  | recalled =>
    exact .grown rfl rfl id (List.append_assoc _ _ _)
  | ignored | unchoked | choked | cancelled | discarded | asked | served | greeted | kept =>
    exact .grown rfl rfl id rfl
  | released | took | skipped | obeyed | parted => exact ⟨rfl, rfl, id, List.prefix_rfl⟩

theorem Moves.persists {scene after : Scene} (moves : Moves scene after) :
    scene.peer.Persists after.peer := by
  induction moves with
  | refl => exact .refl _
  | tail _ move ih => exact ih.trans move.persists

/-- What an open session keeps: the peer's set ranges over all pieces, only a piece that exists is
fetched, a request may be open, and a choking peer is asked for nothing. -/
structure Session.Sound (session : Session) (pieces : Nat) : Prop where
  isOpen : session.phase.isOpen = true
  sized : session.bitfield.size = pieces
  inside : ∀ {piece}, session.assigned = some piece → piece < pieces
  deep : 0 < session.depth
  quiet : session.peerChoking = true → session.downloads = [] ∧ session.assigned = none

theorem Move.sound {scene after : Scene} (move : Move scene after) {pieces : Nat}
    (sound : scene.peer.session.Sound pieces) : after.peer.session.Sound pieces := by
  have fewer : ∀ {downloads : List BlockRequest},
      (scene.peer.session.downloads = [] → downloads = []) →
      scene.peer.session.peerChoking = true →
        downloads = [] ∧ scene.peer.session.assigned = none :=
    fun shrunk choking => ⟨shrunk (sound.quiet choking).1, (sound.quiet choking).2⟩
  have erased : ∀ {request : BlockRequest}, scene.peer.session.downloads = [] →
      scene.peer.session.downloads.erase request = [] := by
    intro request empty
    rw [empty]
    rfl
  have dropped : ∀ {piece : Nat}, scene.peer.session.downloads = [] →
      scene.peer.session.downloads.filter (·.piece ≠ piece) = [] := by
    intro piece empty
    rw [empty]
    rfl
  cases move with
  | choked now =>
    exact ⟨rfl, sound.sized, (nomatch ·), sound.deep, fun _ => ⟨rfl, rfl⟩⟩
  | unchoked now =>
    exact ⟨rfl, sound.sized, sound.inside, sound.deep, (nomatch ·)⟩
  | announced now message field useful kind sized =>
    exact ⟨rfl, sized.trans sound.sized, sound.inside, sound.deep, sound.quiet⟩
  | discarded | stray | lost | stored =>
    exact ⟨rfl, sound.sized, sound.inside, sound.deep, fewer erased⟩
  | completed | corrupted | unreadable =>
    exact ⟨rfl, sound.sized, (nomatch ·), sound.deep,
      fun choking => ⟨(fewer erased choking).1, rfl⟩⟩
  | released piece =>
    exact ⟨sound.isOpen, sound.sized, (nomatch ·), sound.deep,
      fun choking => ⟨(sound.quiet choking).1, rfl⟩⟩
  | took piece unassigned unchoked free held =>
    refine ⟨sound.isOpen, sound.sized, ?_, sound.deep, ?_⟩
    · intro other same
      cases same
      exact sound.sized ▸ Bitfield.lt_size_of_has held
    · intro choking
      exact nomatch unchoked.symm.trans choking
  | asked index piece block assigned allowed =>
    refine ⟨sound.isOpen, sound.sized, sound.inside, sound.deep, ?_⟩
    intro choking
    change scene.peer.session.peerChoking = true at choking
    simp only [Session.canRequest, choking, Bool.not_true, Bool.false_and] at allowed
    cases allowed
  | told piece =>
    exact ⟨sound.isOpen, sound.sized, sound.inside, sound.deep, fewer dropped⟩
  | recalled piece =>
    exact ⟨sound.isOpen, sound.sized, (nomatch ·), sound.deep,
      fun choking => ⟨(fewer dropped choking).1, rfl⟩⟩
  | ignored | refused | interested | notInterested | accepted | rejected | cancelled =>
    exact ⟨rfl, sound.sized, sound.inside, sound.deep, sound.quiet⟩
  | skipped | unserved | served | greeted | kept | obeyed | parted =>
    exact ⟨sound.isOpen, sound.sized, sound.inside, sound.deep, sound.quiet⟩

namespace Download

theorem holdings_assign (download : Download) (piece : Nat) (address : Address) :
    (download.assign piece address).holdings = download.holdings := by
  unfold assign
  split <;> rfl

theorem holdings_free (download : Download) (session : Session) :
    (download.free session).holdings = download.holdings := by
  unfold free
  split <;> rfl

theorem holdings_record (download : Download) (fault : Fault) :
    (download.record fault).holdings = download.holdings := by
  unfold record
  split <;> rfl

theorem holdings_verify (download : Download) (piece : Piece) :
    (download.verify piece).holdings = (download.holdings.complete piece.index).1 := by
  unfold verify
  split <;> rfl

theorem holdings_ban (download : Download) (ip : IpAddress) :
    (download.ban ip).holdings = download.holdings := by
  unfold ban
  split <;> rfl

theorem mem_inFlight {download : Download} {piece : Nat} :
    piece ∈ download.inFlight ↔ ∃ address, (piece, address) ∈ download.assignments := by
  simp only [inFlight, List.mem_eraseDups, List.mem_map, Prod.exists, exists_and_right,
    exists_eq_right]

theorem holdings_reject (download : Download) (piece : Piece) (ip : IpAddress) :
    (download.reject piece ip).holdings = download.holdings.markAll piece.index false := by
  unfold reject
  split
  · exact holdings_ban _ _
  · rfl

end Download

theorem Holdings.Fits.fetch {holdings : Holdings} {torrent : Torrent}
    (fits : holdings.Fits torrent) (piece : Piece) (request : BlockRequest) :
    (holdings.fetch piece request).Fits torrent := by
  unfold Holdings.fetch
  split
  · exact fits.mark _ _ _
  · exact fits

/-- The marks keep the shape of the torrent. -/
theorem Move.fits {scene after : Scene} (move : Move scene after) {torrent : Torrent}
    (fits : scene.download.holdings.Fits torrent) : after.download.holdings.Fits torrent := by
  cases move with
  | choked | released | recalled =>
    change (scene.download.free _).holdings.Fits torrent
    rwa [Download.holdings_free]
  | took piece =>
    change (scene.download.assign piece _).holdings.Fits torrent
    rwa [Download.holdings_assign]
  | lost now fault =>
    change (scene.download.record fault).holdings.Fits torrent
    rwa [Download.holdings_record]
  | stored => exact fits.fetch _ _
  | completed =>
    change (Download.verify _ _).holdings.Fits torrent
    rw [Download.holdings_verify]
    exact (fits.fetch _ _).complete _
  | corrupted =>
    change (Download.reject _ _ _).holdings.Fits torrent
    rw [Download.holdings_reject]
    exact (fits.fetch _ _).markAll _ _
  | unreadable =>
    change (Download.record _ _).holdings.Fits torrent
    rw [Download.holdings_record]
    exact (fits.fetch _ _).markAll _ _
  | unserved download origin =>
    rcases origin with rfl | ⟨fault, rfl⟩
    · exact fits
    · change (scene.download.record fault).holdings.Fits torrent
      rwa [Download.holdings_record]
  | _ => exact fits

end BitTorrent
