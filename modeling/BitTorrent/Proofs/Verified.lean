import BitTorrent.Proofs.Layout
import BitTorrent.Proofs.Memory
import BitTorrent.Proofs.Reachable

/-!
Only verified data is kept and served. The bytes of a complete piece match its hash and are never
written again, so whatever is served from it is what its hash promises.
-/

set_option autoImplicit false

namespace BitTorrent

/-- The store holds content of a piece that matches its hash. -/
structure MemoryStore.Keeps (store : MemoryStore) (piece : Piece) (content : Bytes) : Prop where
  sized : content.length = piece.length
  held : store.Holds piece.offset content
  intact : sha1 content = piece.hash

/-- All bytes of every complete piece are written and match its hash. -/
def Verified (store : MemoryStore) (download : Download) : Prop :=
  ∀ index piece, download.torrent.piece? index = some piece →
    download.holdings.has index = true → ∃ content, store.Keeps piece content

/-- A block that was sent is part of a complete piece. -/
structure Genuine (store : MemoryStore) (download : Download) (request : BlockRequest)
    (data : Bytes) : Prop where
  complete : download.holdings.has request.piece = true
  sized : data.length = request.length
  content : ∃ piece content, download.torrent.piece? request.piece = some piece ∧
    store.Keeps piece content ∧ request.start + request.length ≤ piece.length ∧
    data = (content.drop request.start).take request.length

/-- The peer's open request was accepted and can be served, and so were those that were served. -/
structure Peer.Honest (peer : Peer) (store : MemoryStore) (download : Download) : Prop where
  pending : ∀ {request}, peer.session.upload = some request →
    .accepted request ∈ peer.log ∧ download.holdings.has request.piece = true
  served : ∀ {index start data}, .sent (.piece index start data) ∈ peer.log →
    .accepted ⟨index, start, data.length⟩ ∈ peer.log ∧
      Genuine store download ⟨index, start, data.length⟩ data

/-- Entries that serve the peer. -/
def Exchange.isServed : Exchange → Bool
  | .sent (.piece _ _ _) => true
  | _ => false

namespace Move

variable {scene after : Scene}

/-- The store changes only by a block of an incomplete piece. -/
theorem store_eq (move : Move scene after) :
    after.store = scene.store ∨ ∃ request data piece range, scene.Answers request data piece range ∧
      scene.store.write range data = .ok after.store := by
  cases move with
  | stored now store answers taken => exact Or.inr ⟨_, _, _, _, answers, taken⟩
  | completed now store answers taken => exact Or.inr ⟨_, _, _, _, answers, taken⟩
  | corrupted now store digest answers taken => exact Or.inr ⟨_, _, _, _, answers, taken⟩
  | unreadable now store fault answers taken => exact Or.inr ⟨_, _, _, _, answers, taken⟩
  | _ => exact Or.inl rfl

/-- The bytes of a complete piece are never written again. -/
theorem keeps (move : Move scene after) (tiled : scene.download.torrent.Tiled) {index : Nat}
    {piece : Piece} {content : Bytes} (found : scene.download.torrent.piece? index = some piece)
    (complete : scene.download.holdings.has index = true)
    (keeps : scene.store.Keeps piece content) : after.store.Keeps piece content := by
  rcases move.store_eq with same | ⟨request, data, other, range, answers, taken⟩
  · exact same ▸ keeps
  · obtain ⟨sized, within, _, _, outside⟩ := MemoryStore.write_ok taken
    refine ⟨keeps.sized, ?_, keeps.intact⟩
    refine keeps.held.congr fun position lower upper => outside position ?_
    -- The block is part of an incomplete piece, whose bytes lie apart from those of this one.
    have different : index ≠ request.piece := by
      rintro rfl
      exact nomatch complete.symm.trans answers.missing
    have apart := tiled.apart found answers.found different
    obtain ⟨inside, rfl⟩ := Piece.subRange?_eq_some.mp answers.inside
    have length := keeps.sized
    simp only [ByteRange.stop]
    omega

/-- A piece is completed only by the block after which its bytes match its hash. -/
theorem completes (move : Move scene after) {index : Nat}
    (missing : scene.download.holdings.has index = false)
    (complete : after.download.holdings.has index = true) :
    ∃ request piece, scene.download.torrent.piece? request = some piece ∧ piece.index = index ∧
      after.store.checksum piece.range = .ok piece.hash := by
  have unchanged : ∀ {holdings : Holdings}, after.download.holdings = holdings →
      holdings.completed = scene.download.holdings.completed → False := by
    rintro holdings rfl same
    rw [Holdings.has, same] at complete
    exact nomatch missing.symm.trans complete
  cases move with
  | choked | released | recalled => exact (unchanged (Download.holdings_free _ _) rfl).elim
  | took => exact (unchanged (Download.holdings_assign _ _ _) rfl).elim
  | lost => exact (unchanged (Download.holdings_record _ _) rfl).elim
  | stored => exact (unchanged rfl (Holdings.completed_fetch _ _ _)).elim
  | corrupted =>
    exact (unchanged (Download.holdings_reject _ _ _) (Holdings.completed_fetch _ _ _)).elim
  | unreadable =>
    exact (unchanged (Download.holdings_record _ _) (Holdings.completed_fetch _ _ _)).elim
  | @completed now request data piece range store answers taken all hashed =>
    refine ⟨request.piece, piece, answers.found, ?_, hashed⟩
    change (Download.verify _ _).holdings.has index = true at complete
    rw [Download.holdings_verify, Holdings.has_complete, Bool.or_eq_true, Bool.and_eq_true,
      decide_eq_true_eq] at complete
    rcases complete with before | ⟨same, _⟩
    · change (scene.download.holdings.fetch piece request).completed.has index = true at before
      rw [Holdings.completed_fetch] at before
      exact nomatch missing.symm.trans before
    · exact same
  | unserved download origin =>
    rcases origin with rfl | ⟨fault, rfl⟩
    · exact (unchanged rfl rfl).elim
    · exact (unchanged (Download.holdings_record _ _) rfl).elim
  | _ => exact (unchanged rfl rfl).elim

/-- A piece becomes complete only if its content matches its hash. -/
theorem verified (move : Move scene after) (tiled : scene.download.torrent.Tiled)
    (verified : Verified scene.store scene.download) : Verified after.store after.download := by
  intro index piece found complete
  rw [move.evolves.torrent] at found
  cases before : scene.download.holdings.has index with
  | true =>
    obtain ⟨content, kept⟩ := verified index piece found before
    exact ⟨content, move.keeps tiled found before kept⟩
  | false =>
    obtain ⟨request, other, located, same, hashed⟩ := move.completes before complete
    rw [tiled.index located] at same
    subst same
    cases found.symm.trans located
    obtain ⟨content, sized, _, held, intact⟩ := MemoryStore.checksum_ok hashed
    exact ⟨content, sized, held, intact⟩

/-- Blocks that were sent stay part of their pieces. -/
theorem genuine (move : Move scene after) (tiled : scene.download.torrent.Tiled)
    {request : BlockRequest} {data : Bytes}
    (genuine : Genuine scene.store scene.download request data) :
    Genuine after.store after.download request data := by
  obtain ⟨piece, content, found, kept, inside, same⟩ := genuine.content
  refine ⟨move.evolves.complete genuine.complete, genuine.sized, piece, content, ?_,
    move.keeps tiled found genuine.complete kept, inside, same⟩
  rw [move.evolves.torrent]
  exact found

/-- What is sent as a block is what the store holds for an open request. -/
theorem sent_piece (move : Move scene after) {index start : Nat} {data : Bytes}
    (sent : .sent (.piece index start data) ∈ after.peer.log) :
    .sent (.piece index start data) ∈ scene.peer.log ∨
      ∃ request piece range, index = request.piece ∧ start = request.start ∧
        scene.peer.session.upload = some request ∧
        scene.download.torrent.piece? request.piece = some piece ∧
        piece.subRange? request.start request.length = some range ∧
        scene.store.read range = .ok data ∧ after.peer.session = { scene.peer.session with
          upload := none } := by
  have earlier : ∀ {entries : List Exchange}, after.peer.log = scene.peer.log ++ entries →
      (∀ entry ∈ entries, entry.isServed = false) →
      .sent (.piece index start data) ∈ scene.peer.log := by
    intro entries log other
    rw [log] at sent
    rcases List.mem_append.mp sent with old | new
    · exact old
    · exact nomatch other _ new
  cases move with
  | served request piece range bytes uploading unchoked found inside read =>
    rcases List.mem_append.mp sent with old | new
    · exact Or.inl old
    · cases List.mem_singleton.mp new
      exact Or.inr ⟨request, piece, range, rfl, rfl, uploading, found, inside, read, rfl⟩
  | released | took | skipped | unserved | obeyed | parted => exact Or.inl sent
  | unchoked | choked | ignored | refused | rejected | cancelled | discarded | stray | asked
  | greeted | kept =>
    exact Or.inl (earlier rfl (List.forall_mem_singleton.mpr rfl))
  | lost | stored | completed | corrupted | unreadable | accepted =>
    exact Or.inl (earlier (List.append_assoc _ _ _) (by simp [Exchange.isServed]))
  | interested | notInterested | announced =>
    refine Or.inl (earlier (List.append_assoc _ _ _) ?_)
    split <;> simp [Exchange.isServed]
  | told | recalled =>
    refine Or.inl (earlier (List.append_assoc _ _ _) ?_)
    intro entry member
    rcases List.mem_append.mp member with cancel | have_
    · obtain ⟨other, -, rfl⟩ := List.mem_map.mp cancel
      rfl
    · rw [List.mem_singleton.mp have_]
      rfl

/-- A request is open for serving only if it was before or is accepted. -/
theorem upload_eq (move : Move scene after) {request : BlockRequest}
    (uploading : after.peer.session.upload = some request) (steady : after.peer.failed = false) :
    scene.peer.session.upload = some request ∨
      (Turn.checkRequest scene.download request = .ok () ∧ .accepted request ∈ after.peer.log) := by
  cases move with
  | accepted now other unchoked checked =>
    cases uploading
    exact Or.inr ⟨checked, by simp [Scene.logged]⟩
  | notInterested now =>
    change (if scene.peer.session.amChoking then scene.peer.session.upload else none) =
      some request at uploading
    split at uploading
    · exact Or.inl uploading
    · cases uploading
  | rejected | unserved => cases steady
  | cancelled | skipped | served => cases uploading
  | _ => exact Or.inl uploading

end Move

/-- Requests that are accepted are for complete pieces. -/
theorem Turn.checkRequest_ok {download : Download} {request : BlockRequest}
    (checked : checkRequest download request = .ok ()) :
    download.holdings.has request.piece = true := by
  unfold checkRequest at checked
  split at checked
  · cases checked
  · split at checked
    · cases checked
    · split at checked
      · cases checked
      · rename_i present
        simpa using present

namespace Peer.Honest

variable {peer : Peer} {store : MemoryStore} {download : Download}

/-- Whatever another connection does, what was served stays genuine. -/
theorem others {scene after : Scene} (honest : peer.Honest scene.store scene.download)
    (move : Move scene after) (tiled : scene.download.torrent.Tiled) :
    peer.Honest after.store after.download where
  pending := fun uploading =>
    ⟨(honest.pending uploading).1, move.evolves.complete (honest.pending uploading).2⟩
  served := fun sent => ⟨(honest.served sent).1, move.genuine tiled (honest.served sent).2⟩

/-- The same holds for changes of the shared state outside of a handler. -/
theorem evolve (honest : peer.Honest store download) {later : Download}
    (torrent : later.torrent = download.torrent)
    (grown : ∀ {piece}, download.holdings.has piece = true → later.holdings.has piece = true) :
    peer.Honest store later where
  pending := fun uploading => ⟨(honest.pending uploading).1, grown (honest.pending uploading).2⟩
  served := by
    intro index start data sent
    obtain ⟨accepted, complete, sized, piece, content, found, rest⟩ := honest.served sent
    exact ⟨accepted, grown complete, sized, piece, content, torrent ▸ found, rest⟩

/-- A connection that has not failed serves genuine blocks of requests that it accepted. -/
theorem moved {scene after : Scene} (move : Move scene after)
    (tiled : scene.download.torrent.Tiled) (verified : Verified scene.store scene.download)
    (honest : scene.peer.Honest scene.store scene.download)
    (steady : after.peer.failed = false) : after.peer.Honest after.store after.download where
  pending := by
    intro request uploading
    rcases move.upload_eq uploading steady with before | ⟨checked, accepted⟩
    · obtain ⟨accepted, complete⟩ := honest.pending before
      exact ⟨move.persists.log.subset accepted, move.evolves.complete complete⟩
    · exact ⟨accepted, move.evolves.complete (Turn.checkRequest_ok checked)⟩
  served := by
    intro index start data sent
    rcases move.sent_piece sent with before | ⟨request, piece, range, rfl, rfl, uploading, found,
      inside, read, -⟩
    · obtain ⟨accepted, genuine⟩ := honest.served before
      exact ⟨move.persists.log.subset accepted, move.genuine tiled genuine⟩
    · obtain ⟨accepted, complete⟩ := honest.pending uploading
      obtain ⟨within, rfl⟩ := Piece.subRange?_eq_some.mp inside
      obtain ⟨sized, -, held⟩ := MemoryStore.read_ok read
      have length : data.length = request.length := sized
      obtain ⟨content, kept⟩ := verified _ piece found complete
      rw [length]
      refine ⟨move.persists.log.subset accepted, move.genuine tiled ?_⟩
      refine ⟨complete, length, piece, content, found, kept, within, ?_⟩
      refine held.unique (kept.held.slice request.start request.length) ?_
      have bound := kept.sized
      simp only [List.length_take, List.length_drop]
      omega

end Peer.Honest

/-- Complete pieces match their hashes, and the connections that have not failed are honest. -/
structure Swarm.Clean (swarm : Swarm) : Prop where
  verified : Verified swarm.store swarm.download
  honest : ∀ peer ∈ swarm.peers, peer.failed = false → peer.Honest swarm.store swarm.download

/-- Rechecking finds only pieces whose content matches their hashes. -/
theorem Verified.complete {store : MemoryStore} {download : Download}
    (tiled : download.torrent.Tiled) (verified : Verified store download) {piece : Piece}
    (member : piece ∈ download.torrent.pieces)
    (hashed : store.checksum piece.range = .ok piece.hash) :
    Verified store (download.complete piece.index).1 := by
  intro index other found complete
  obtain ⟨position, inside, rfl⟩ := List.getElem_of_mem member
  have located : download.torrent.piece? position = some download.torrent.pieces[position] :=
    List.getElem?_eq_getElem inside
  change (download.holdings.complete _).1.has index = true at complete
  rw [Holdings.has_complete, Bool.or_eq_true, Bool.and_eq_true, decide_eq_true_eq,
    tiled.index located] at complete
  rcases complete with before | ⟨rfl, _⟩
  · exact verified index other found before
  · cases located.symm.trans found
    obtain ⟨content, sized, _, held, intact⟩ := MemoryStore.checksum_ok hashed
    exact ⟨content, sized, held, intact⟩

theorem Verified.recheck {store : MemoryStore} {download : Download}
    (tiled : download.torrent.Tiled) (verified : Verified store download) :
    Verified store (download.recheck store).1 := by
  have both := @Download.recheck_induction
    (fun middle => middle.torrent.Tiled ∧ Verified store middle) store
    (fun member hashed before => ⟨before.1, before.2.complete before.1 member hashed⟩)
    download ⟨tiled, verified⟩
  exact both.2

/-- Cleanliness is a matter of the torrent, the complete pieces, and the connections. -/
theorem Swarm.Clean.evolve {swarm : Swarm} {download : Download} {peers : List Peer}
    (clean : swarm.Clean) (torrent : download.torrent = swarm.download.torrent)
    (holdings : download.holdings = swarm.download.holdings)
    (connected : ∀ peer ∈ peers, peer ∈ swarm.peers) :
    Swarm.Clean ⟨swarm.store, download, peers⟩ where
  verified := by
    intro index piece found complete
    change download.torrent.piece? index = some piece at found
    change download.holdings.has index = true at complete
    rw [torrent] at found
    rw [holdings] at complete
    exact clean.verified index piece found complete
  honest := by
    intro peer member steady
    refine (clean.honest peer (connected peer member) steady).evolve torrent ?_
    intro piece complete
    change download.holdings.has piece = true
    rwa [holdings]

namespace Swarm.Clean

variable {swarm : Swarm} {scene after : Scene}

theorem moved (present : swarm.Present scene) (move : Move scene after)
    (tiled : scene.download.torrent.Tiled) (clean : (swarm.put scene).Clean) :
    (swarm.put after).Clean := by
  obtain ⟨verified, honest⟩ := clean
  refine ⟨move.verified tiled verified, ?_⟩
  intro peer member steady
  rcases (mem_put (present.persists move.persists)).mp member with rfl | ⟨old, apart⟩
  · refine Peer.Honest.moved move tiled verified ?_ steady
    refine honest scene.peer ((mem_put present).mpr (Or.inl rfl)) ?_
    cases failed : scene.peer.failed with
    | false => rfl
    | true => exact nomatch steady.symm.trans (move.persists.failed failed)
  · rw [move.persists.address] at apart
    have before := honest peer ((mem_put present).mpr (Or.inr ⟨old, apart⟩)) steady
    exact before.others move tiled

theorem withdrawn (present : swarm.Present scene) (withdrawal : Withdrawal scene after)
    (clean : (swarm.put scene).Clean) : (swarm.put after).Clean := by
  have persists := withdrawal.persists
  obtain ⟨_, _, _, _, rfl⟩ := withdrawal
  obtain ⟨verified, honest⟩ := clean
  refine ⟨verified, ?_⟩
  intro peer member steady
  rcases (mem_put (present.persists persists)).mp member with rfl | ⟨old, apart⟩
  · obtain ⟨pending, served⟩ := honest scene.peer ((mem_put present).mpr (Or.inl rfl)) steady
    refine ⟨fun uploading => ?_, fun sent => ?_⟩
    · obtain ⟨accepted, complete⟩ := pending uploading
      exact ⟨List.mem_append_left _ accepted, complete⟩
    · rcases List.mem_append.mp sent with earlier | new
      · obtain ⟨accepted, genuine⟩ := served earlier
        exact ⟨List.mem_append_left _ accepted, genuine⟩
      · cases List.mem_singleton.mp new
  · exact honest peer ((mem_put present).mpr (Or.inr ⟨old, apart⟩)) steady

/-- Faults of the store change none of its bytes. -/
theorem faulty (clean : swarm.Clean) (writes reads : Option Fault) :
    (swarm.faulty writes reads).Clean := by
  have kept : ∀ {piece content}, swarm.store.Keeps piece content →
      (swarm.faulty writes reads).store.Keeps piece content :=
    fun keeps => ⟨keeps.sized, keeps.held, keeps.intact⟩
  refine ⟨fun index piece found complete => ?_, fun peer member steady => ?_⟩
  · obtain ⟨content, keeps⟩ := clean.verified index piece found complete
    exact ⟨content, kept keeps⟩
  · obtain ⟨pending, served⟩ := clean.honest peer member steady
    refine ⟨pending, fun sent => ?_⟩
    obtain ⟨accepted, complete, sized, piece, content, found, keeps, rest⟩ := served sent
    exact ⟨accepted, complete, sized, piece, content, found, kept keeps, rest⟩

end Swarm.Clean

theorem clean_stable :
    Swarm.Stable fun swarm => swarm.download.torrent.Tiled → swarm.Clean := by
  have tiles : ∀ {before after : Download}, before.Evolves after → after.torrent.Tiled →
      before.torrent.Tiled := by
    intro before after evolves tiled
    rwa [← evolves.torrent]
  refine {
    moved := ?_
    withdrawn := ?_
    joined := ?_
    left := ?_
    rechecked := ?_
    banned := ?_
    faults := fun writes reads before tiled => (before tiled).faulty writes reads }
  · intro swarm scene after _ present move before tiled
    have same : scene.download.torrent.Tiled := tiles move.evolves tiled
    exact (before same).moved present move same
  · intro swarm scene after _ present withdrawal before tiled
    refine (before ?_).withdrawn present withdrawal
    change scene.download.torrent.Tiled
    rw [← withdrawal.download]
    exact tiled
  · intro swarm address peerId source roster mailbox capabilities now _ _ before tiled
    obtain ⟨verified, honest⟩ := before tiled
    refine ⟨verified, ?_⟩
    intro peer member steady
    rcases List.mem_append.mp member with old | new
    · exact (honest peer old steady).evolve rfl id
    · rw [List.mem_singleton.mp new]
      exact ⟨(nomatch ·), (nomatch ·)⟩
  · intro swarm peer _ _ before tiled
    have evolves := swarm.download.free_evolves peer.session
    exact (before (tiles evolves tiled)).evolve evolves.torrent (Download.holdings_free _ _)
      fun other member => (List.mem_filter.mp member).1
  · intro swarm _ before tiled
    have evolves := swarm.download.recheck_evolves swarm.store
    have same := tiles evolves tiled
    obtain ⟨verified, honest⟩ := before same
    exact ⟨verified.recheck same, fun peer member steady =>
      (honest peer member steady).evolve evolves.torrent evolves.complete⟩
  · intro swarm ip before tiled
    have evolves := swarm.download.ban_evolves ip
    exact (before (tiles evolves tiled)).evolve evolves.torrent (Download.holdings_ban _ _)
      fun other member => member

section

variable {info : Metainfo} {torrent : Torrent} {settings : Settings} {selector : Selector}
  {ownId : PeerId} {draws : List Nat} {store : MemoryStore}

/-- Wherever a run has led, all bytes of every complete piece are written and match its hash, and
every block that was sent on a connection without a fault was accepted and is part of such a
piece. -/
theorem run_verified (built : Torrent.ofMetainfo info = .ok torrent)
    (happenings : List Happening) :
    let swarm := (Swarm.start torrent settings selector ownId draws store).run happenings
    (∀ index piece, torrent.piece? index = some piece →
      swarm.download.holdings.has index = true → ∃ content, swarm.store.Keeps piece content) ∧
    ∀ peer ∈ swarm.peers, peer.failed = false → ∀ index start data,
      .sent (.piece index start data) ∈ peer.log →
        .accepted ⟨index, start, data.length⟩ ∈ peer.log ∧ ∃ piece content,
          torrent.piece? index = some piece ∧ swarm.download.holdings.has index = true ∧
          swarm.store.Keeps piece content ∧ start + data.length ≤ piece.length ∧
          data = (content.drop start).take data.length := by
  intro swarm
  have sound := Swarm.start_sound torrent settings selector ownId draws store
  have same : swarm.download.torrent = torrent := Swarm.run_torrent sound happenings
  have empty : (Swarm.start torrent settings selector ownId draws store).Clean := by
    refine ⟨?_, fun _ => (nomatch ·)⟩
    intro index piece _ complete
    change (Holdings.none torrent).completed.has index = true at complete
    exact nomatch (Bitfield.has_empty torrent.pieceCount index).symm.trans complete
  have tiled : swarm.download.torrent.Tiled := by
    rw [same]
    exact Torrent.ofMetainfo_tiled built
  have clean : swarm.Clean := clean_stable.run sound (fun _ => empty) happenings tiled
  have verified := clean.verified
  rw [Verified, same] at verified
  refine ⟨verified, ?_⟩
  intro peer connected steady index start data sent
  obtain ⟨accepted, complete, _, piece, content, found, kept, inside, equal⟩ :=
    (clean.honest peer connected steady).served sent
  exact ⟨accepted, piece, content, same ▸ found, complete, kept, inside, equal⟩

/-- A piece that was fetched is kept, and what is sent of it is its content. -/
theorem run_verified_exchange :
    let swarm := Sample.start.run Sample.exchange
    (∃ content, swarm.store.Keeps Sample.piece content) ∧
      ∃ peer ∈ swarm.peers, .accepted Sample.request ∈ peer.log ∧ ∃ piece content,
        Sample.torrent.piece? 0 = some piece ∧ swarm.store.Keeps piece content ∧
        Sample.content = (content.drop 0).take 4 := by
  intro swarm
  have verified := @run_verified _ _ {} ⟨.sequential, false⟩ Sample.peerId [] (.empty 4)
    Sample.ofMetainfo_info Sample.exchange
  have served : swarm.peers.any (fun peer => !peer.failed &&
      decide (.sent (.piece 0 0 Sample.content) ∈ peer.log)) = true := by decide +kernel
  obtain ⟨peer, member, found⟩ := List.any_eq_true.mp served
  simp only [Bool.and_eq_true, Bool.not_eq_true', decide_eq_true_eq] at found
  obtain ⟨accepted, piece, content, located, _, keeps, _, equal⟩ :=
    verified.2 peer member found.1 0 0 Sample.content found.2
  exact ⟨verified.1 0 Sample.piece rfl (by decide +kernel), peer, member, accepted, piece,
    content, located, keeps, equal⟩

end

end BitTorrent
