import BitTorrent.Proofs.Acts
import BitTorrent.Proofs.Exclusive
import BitTorrent.Proofs.Marks

/-!
Without the end game no two handlers work on the same piece, even if they wait for the store in
between. A block that is being written still counts as asked for: its piece is assigned to that
peer alone. Once a piece is being hashed, no block of it is asked for or written.
-/

set_option autoImplicit false

namespace BitTorrent

namespace Exclusive

variable {scene after : Scene} {download : Download} {peer changed : Peer} {others : Peer → Prop}

/-- Without the end game pieces stay exclusive, whichever moves a connection makes. -/
theorem moves (moves : Moves scene after) (sound : scene.Sound)
    (endGame : scene.download.selector.endGame = false)
    (apart : ∀ other, others other → other.address ≠ scene.peer.address)
    (exclusive : Exclusive scene.download (Among scene.peer others)) :
    Exclusive after.download (Among after.peer others) := by
  induction moves with
  | refl => exact exclusive
  | tail earlier move ih =>
    have rules := (Moves.evolves earlier).selector ▸ endGame
    refine ih.change (fun other there => ?_)
      (move.change ih rules (Moves.steady earlier sound).holdings)
    rw [(Moves.persists earlier).address]
    exact apart other there

theorem course (course : Course scene after) (sound : scene.Sound)
    (endGame : scene.download.selector.endGame = false)
    (apart : ∀ other, others other → other.address ≠ scene.peer.address)
    (exclusive : Exclusive scene.download (Among scene.peer others)) :
    Exclusive after.download (Among after.peer others) := by
  obtain ⟨middle, moves, finish⟩ := course
  have reached := exclusive.moves moves sound endGame apart
  rcases finish with rfl | withdrawal
  · exact reached
  · refine reached.change (fun other there => ?_) ?_
    · rw [(Moves.persists moves).address]
      exact apart other there
    · rw [withdrawal.result]
      exact .quiet reached rfl rfl rfl rfl rfl (List.Sublist.refl _)

/-- It is a matter of the sessions who is asked for what. -/
theorem redress (exclusive : Exclusive download (Among peer others))
    (apart : ∀ other, others other → other.address ≠ peer.address)
    (same : changed.session = peer.session) : Exclusive download (Among changed others) :=
  exclusive.change apart (.quiet exclusive rfl rfl rfl (congrArg Session.address same)
    (congrArg Session.assigned same) (by rw [same]))

/-- Pieces stay exclusive as the requests of a connection are kept going. -/
theorem fill {turn : Turn} (sound : turn.Sound)
    (endGame : turn.download.selector.endGame = false)
    (exclusive : Exclusive turn.download (Among peer others)) (begun : peer.session = turn.session)
    (apart : ∀ other, others other → other.address ≠ peer.address)
    (done : changed.session = turn.fillPipeline.1.session) :
    Exclusive turn.fillPipeline.1.download (Among changed others) := by
  let scene : Scene := ⟨.empty 0, turn.download, peer⟩
  have filled := Turn.fillPipeline_filled scene sound
  have apartScene : ∀ other, others other → other.address ≠ (scene.follow turn).peer.address := by
    intro other there
    change other.address ≠ turn.session.address
    rw [← begun]
    exact apart other there
  have dressed : Exclusive turn.download (Among (scene.follow turn).peer others) :=
    exclusive.redress apart begun.symm
  have reached := dressed.course filled.course ⟨sound.session, sound.holdings⟩ endGame apartScene
  refine reached.redress (fun other there => ?_) done
  rw [filled.course.persists.address]
  exact apartScene other there

end Exclusive

namespace Turn

variable {turn base : Turn} {piece : Piece} {outcome : Except Fault Digest}

theorem Checks.exclusive (checks : turn.Checks piece outcome base) {connected : Peer → Prop}
    (exclusive : Exclusive turn.download connected) : Exclusive base.download connected := by
  refine exclusive.evolve checks.evolves.torrent ?_ checks.evolves.complete ?_
  · cases checks with
    | unreadable fault => exact Download.assignments_record _ fault
    | intact => exact Download.assignments_verify _ piece
    | corrupt digest => exact Download.assignments_reject _ piece _
  · intro index number lacking fetched
    rcases checks.holdings with same | same <;> rw [same] at lacking ⊢
    · exact (Holdings.isFetched_complete _ _ lacking number).trans fetched
    · exact Holdings.isFetched_forgotten _ _ fetched

end Turn

namespace Worker

variable {worker : Worker} {download : Download} {turn : Turn} {next : Next}

/-- What a handler relies on while it waits: the piece of a block that is being written is not
complete; a piece that is being hashed is not either, and all its blocks are fetched. -/
structure Waits (worker : Worker) (download : Download) : Prop where
  writing : ∀ {request range data}, worker.waiting = some (.write request range data) →
    download.holdings.has request.piece = false
  hashing : ∀ {piece}, worker.waiting = some (.checksum piece) →
    download.torrent.piece? piece.index = some piece ∧
      download.holdings.has piece.index = false ∧
      download.holdings.allFetched piece.index = true

theorem downloads_writing {request : BlockRequest} {range : ByteRange} {data : Bytes}
    (waits : worker.waiting = some (.write request range data)) :
    worker.peer.session.downloads = request :: worker.session.downloads := by
  obtain ⟨session, mailbox, sent, waiting⟩ := worker
  cases waits
  rfl

theorem downloads_peer (worker : Worker) :
    worker.session.downloads.Sublist worker.peer.session.downloads :=
  List.sublist_append_right _ _

variable {others : Peer → Prop}

/-- Without the end game pieces stay exclusive, whatever a handler does up to its next wait. -/
theorem Acts.exclusive (acts : worker.Acts download turn next)
    (sound : (worker.turn download).Sound) (endGame : download.selector.endGame = false)
    (waits : worker.Waits download)
    (apart : ∀ other, others other → other.address ≠ worker.peer.address)
    (exclusive : Exclusive download (Among worker.peer others)) :
    Exclusive turn.download (Among (worker.after turn next).peer others) := by
  have before := exclusive.faithful (Or.inl rfl : Among worker.peer others worker.peer)
  cases acts with
  | @ended _ after result idle course shared session holdings =>
    rw [shared]
    refine (exclusive.course course (scene_sound idle sound) endGame apart).redress ?_ session
    intro other there
    rw [course.persists.address]
    exact apart other there
  | @writes now request data piece range idle answers =>
    have same := List.perm_cons_erase answers.isOpen
    exact exclusive.change apart (.still exclusive rfl rfl rfl rfl rfl
      (same.nodup before.distinct) same.symm.subset)
  | @reads request range idle =>
    exact exclusive.change apart (.quiet exclusive rfl rfl rfl rfl rfl worker.downloads_peer)
  | stopped result waiting session origin =>
    obtain ⟨evolves, assignments, holdings⟩ := Download.recorded origin
    refine exclusive.change apart (.quiet exclusive evolves.torrent assignments holdings
      (show turn.session.address = worker.session.address by rw [session])
      (show turn.session.assigned = worker.session.assigned by rw [session]) ?_)
    change turn.session.downloads.Sublist _
    rw [session]
    exact worker.downloads_peer
  | @stored request range data piece result writing found missing =>
    have asked : request ∈ worker.peer.session.downloads := by
      rw [downloads_writing writing]
      exact List.mem_cons_self
    let bare : Peer := { worker.peer with session := worker.session }
    have change : Exclusive.Change download
        (download.withHoldings (download.holdings.fetch piece request)) worker.peer bare :=
      .stored exclusive sound.holdings asked (waits.writing writing) found rfl rfl (by
        rw [downloads_writing writing, List.erase_cons_head])
    exact (exclusive.change apart change).fill (sound.fetch piece request) endGame rfl apart rfl
  | @concluded request range data piece writing found all =>
    have asked : request ∈ worker.peer.session.downloads := by
      rw [downloads_writing writing]
      exact List.mem_cons_self
    refine exclusive.change apart (.concluded exclusive sound.holdings asked
      (waits.writing writing) found all rfl rfl rfl rfl ?_ ?_ ?_)
    · rw [downloads_writing writing, List.erase_cons_head]
      rfl
    · intro index held
      exact (Download.withHoldings_evolves download (Holdings.completed_fetch _ _ _)).complete held
    · intro index number elsewhere _ fetched
      exact (Holdings.isFetched_fetch_of_ne _ _ elsewhere.symm number).trans fetched
  | @checked _ base piece outcome result hashing checks after =>
    have rules := checks.evolves.selector ▸ endGame
    have begun : Exclusive base.download (Among worker.peer others) := checks.exclusive exclusive
    have same : worker.peer.session = base.session := by
      rw [checks.session, peer_session (by rw [debt?, hashing])]
      rfl
    rcases after with rfl | rfl
    · exact begun.redress apart same.symm
    · exact begun.fill (checks.sound sound) rules same apart rfl

/-- A handler that waits for the store may rely on what it left behind. -/
theorem Acts.waits (acts : worker.Acts download turn next) (tiled : download.torrent.Tiled)
    (waits : worker.Waits download) : (worker.after turn next).Waits turn.download := by
  cases acts with
  | ended | stopped | stored | checked => exact ⟨(nomatch ·), (nomatch ·)⟩
  | reads => exact ⟨(nomatch ·), (nomatch ·)⟩
  | writes now idle answers =>
    refine ⟨fun writing => ?_, (nomatch ·)⟩
    cases writing
    exact answers.missing
  | @concluded request range data piece writing found all =>
    refine ⟨(nomatch ·), fun hashing => ?_⟩
    cases hashing
    rw [tiled.index found]
    exact ⟨found, (Holdings.has_fetch _ _ _ _).trans (waits.writing writing), all⟩

end Worker

namespace Crowd

variable {crowd : Crowd} {worker other : Worker} {turn : Turn} {next : Next}

/-- The connected peers, the way the others see them. -/
def peers (crowd : Crowd) : List Peer :=
  crowd.workers.map Worker.peer

/-- Every piece that is not complete is in the hands of one handler at most. -/
structure Divided (crowd : Crowd) : Prop where
  tiled : crowd.download.torrent.Tiled
  endGame : crowd.download.selector.endGame = false
  fits : crowd.download.holdings.Fits crowd.download.torrent
  sessions : ∀ worker ∈ crowd.workers, worker.session.Sound crowd.download.torrent.pieceCount
  exclusive : Exclusive crowd.download (· ∈ crowd.peers)
  waits : ∀ worker ∈ crowd.workers, worker.Waits crowd.download
  alone : ∀ {worker other}, worker ∈ crowd.workers → other ∈ crowd.workers → ∀ {first second},
    worker.waiting = some (.checksum first) → other.waiting = some (.checksum second) →
    first.index = second.index → worker.address = other.address

namespace Divided

/-- Of a piece that is being hashed no block is asked for. -/
theorem unasked (divided : crowd.Divided) (there : worker ∈ crowd.workers)
    (member : other ∈ crowd.workers) {piece : Piece} {request : BlockRequest}
    (hashing : worker.waiting = some (.checksum piece))
    (asked : request ∈ other.peer.session.downloads) : request.piece ≠ piece.index := by
  intro same
  obtain ⟨-, missing, all⟩ := (divided.waits worker there).hashing hashing
  rw [← same] at missing all
  have faithful := divided.exclusive.faithful (List.mem_map_of_mem (f := Worker.peer) member)
  obtain ⟨info, number, found, inside, -, -, fetched⟩ := faithful.lacking asked missing
  have marked := (Holdings.allFetched_iff _ _).mp all number
    (by rw [divided.fits.marks found]; exact inside)
  exact nomatch marked.symm.trans fetched

/-- A block of a piece that is being hashed is not written. -/
theorem unwritten (divided : crowd.Divided) (there : worker ∈ crowd.workers)
    (member : other ∈ crowd.workers) {piece : Piece} {request : BlockRequest} {range : ByteRange}
    {data : Bytes} (hashing : worker.waiting = some (.checksum piece))
    (writing : other.waiting = some (.write request range data)) :
    request.piece ≠ piece.index := by
  refine divided.unasked there member hashing ?_
  rw [Worker.downloads_writing writing]
  exact List.mem_cons_self

/-- What one handler does leaves the others what they rely on while they wait. -/
theorem others (divided : crowd.Divided) (there : worker ∈ crowd.workers)
    (acts : worker.Acts crowd.download turn next) (member : other ∈ crowd.workers)
    (different : other.address ≠ worker.address) : other.Waits turn.download := by
  have sound : (worker.turn crowd.download).Sound := ⟨divided.sessions worker there, divided.fits⟩
  have before := divided.waits other member
  have torrent := (acts.evolves sound).torrent
  refine ⟨fun writing => ?_, fun hashing => ?_⟩
  · have missing := before.writing writing
    rcases acts.holdings sound with same | ⟨_, _, _, _, -, same⟩ | ⟨piece, mine, same | same⟩
    · rw [same]
      exact missing
    · rw [same, Holdings.has_fetch]
      exact missing
    · rw [same, Holdings.has_complete, missing, Bool.false_or, Bool.and_eq_false_iff,
        decide_eq_false_iff_not]
      exact .inl (divided.unwritten there member mine writing).symm
    · rw [same]
      exact missing
  · rename_i piece
    obtain ⟨found, missing, all⟩ := before.hashing hashing
    refine ⟨torrent ▸ found, ?_⟩
    rcases acts.holdings sound with same | ⟨request, _, _, _, mine, same⟩ | ⟨mine, hashes, same⟩
    · rw [same]
      exact ⟨missing, all⟩
    · have apart := divided.unwritten member there hashing mine
      rw [same, Holdings.has_fetch,
        Holdings.allFetched_of_blocks (Holdings.blocks_fetch_of_ne _ _ apart)]
      exact ⟨missing, all⟩
    · have apart : mine.index ≠ piece.index := fun equal =>
        different (divided.alone member there hashing hashes equal.symm)
      rcases same with same | same
      · rw [same, Holdings.has_complete, missing, Bool.false_or, Bool.and_eq_false_iff,
          decide_eq_false_iff_not,
          Holdings.allFetched_of_blocks (Holdings.blocks_complete_of_ne _ apart)]
        exact ⟨.inl apart, all⟩
      · have blocks : (crowd.download.holdings.markAll mine.index false).blocks piece.index =
            crowd.download.holdings.blocks piece.index := by
          rw [Holdings.blocks_markAll, if_neg apart]
        rw [same, Holdings.allFetched_of_blocks blocks]
        exact ⟨missing, all⟩

end Divided

theorem mem_put {download : Download} {after : Worker}
    (there : ∃ worker ∈ crowd.workers, worker.address = after.address) :
    other ∈ (crowd.put download after).workers ↔
      other = after ∨ (other ∈ crowd.workers ∧ other.address ≠ after.address) := by
  simp only [put, List.mem_map]
  constructor
  · rintro ⟨old, member, rfl⟩
    split
    · exact .inl rfl
    · rename_i different
      exact .inr ⟨member, different⟩
  · rintro (rfl | ⟨member, different⟩)
    · obtain ⟨old, member, same⟩ := there
      exact ⟨old, member, by simp only [same, ↓reduceIte]⟩
    · exact ⟨other, member, by simp only [different, ↓reduceIte]⟩

/-- The peers are that of one worker and those that have other addresses. -/
theorem mem_peers_put {download : Download} {after : Worker}
    (there : ∃ worker ∈ crowd.workers, worker.address = after.address) (peer : Peer) :
    peer ∈ (crowd.put download after).peers ↔
      Among after.peer (fun other => other ∈ crowd.peers ∧ other.address ≠ after.address) peer := by
  simp only [peers, Among, List.mem_map, mem_put there]
  constructor
  · rintro ⟨one, rfl | ⟨member, different⟩, rfl⟩
    · exact .inl rfl
    · exact .inr ⟨⟨one, member, rfl⟩, different⟩
  · rintro (rfl | ⟨⟨one, member, rfl⟩, different⟩)
    · exact ⟨after, .inl rfl, rfl⟩
    · exact ⟨one, .inr ⟨member, different⟩, rfl⟩

/-- To put a worker back changes nothing. -/
theorem Sound.put_self (sound : crowd.Sound) (there : worker ∈ crowd.workers) :
    crowd.put crowd.download worker = crowd := by
  have same : crowd.workers.map (fun other =>
      if other.address = worker.address then worker else other) = crowd.workers.map id := by
    apply List.map_congr_left
    intro other present
    split
    · rename_i shared
      exact (sound.same there present shared).symm
    · rfl
  exact congrArg (Crowd.mk crowd.download) (same.trans (List.map_id _))

namespace Divided

theorem put (divided : crowd.Divided) (sound : crowd.Sound) (there : worker ∈ crowd.workers)
    (acts : worker.Acts crowd.download turn next)
    (address : turn.session.address = worker.address) :
    (crowd.put turn.download (worker.after turn next)).Divided := by
  have steady : (worker.turn crowd.download).Sound :=
    ⟨divided.sessions worker there, divided.fits⟩
  have evolves := acts.evolves steady
  have later := acts.sound steady
  have before := divided.waits worker there
  have present : ∃ one ∈ crowd.workers, one.address = (worker.after turn next).address :=
    ⟨worker, there, address.symm⟩
  have either : ∀ {one}, one ∈ (crowd.put turn.download (worker.after turn next)).workers →
      one = worker.after turn next ∨ (one ∈ crowd.workers ∧ one.address ≠ worker.address) := by
    intro one member
    refine ((mem_put present).mp member).imp_right fun old => ⟨old.1, ?_⟩
    exact fun same => old.2 (same.trans address.symm)
  -- A worker that starts to wait for a hash wrote the last block of that piece.
  have begins : ∀ {other}, other ∈ crowd.workers → other.address ≠ worker.address →
      ∀ {first second}, (worker.after turn next).waiting = some (.checksum first) →
      other.waiting = some (.checksum second) → first.index ≠ second.index := by
    intro other member different first second mine theirs
    cases acts with
    | concluded writing found all =>
      cases mine
      rw [divided.tiled.index found]
      exact divided.unwritten member there theirs writing
    | _ => cases mine
  refine ⟨evolves.torrent ▸ divided.tiled, evolves.selector ▸ divided.endGame, later.holdings, ?_,
    ?_, ?_, ?_⟩
  · intro one member
    rcases either member with rfl | ⟨old, -⟩
    · exact later.session
    · exact evolves.torrent ▸ divided.sessions one old
  · have whole := divided.exclusive
    rw [← sound.put_self there] at whole
    have among := whole.congr (crowd.mem_peers_put ⟨worker, there, rfl⟩)
    have acted := acts.exclusive steady divided.endGame before (fun _ other => other.2) among
    refine acted.congr fun peer => ?_
    rw [mem_peers_put present]
    have same : (worker.after turn next).address = worker.address := address
    rw [same]
  · intro one member
    rcases either member with rfl | ⟨old, different⟩
    · exact acts.waits divided.tiled before
    · exact divided.others there acts old different
  · intro one other left right first second mine theirs same
    rcases either left with rfl | ⟨left, apart⟩ <;>
      rcases either right with rfl | ⟨right, different⟩
    · rfl
    · exact absurd same (begins right different mine theirs)
    · exact absurd same.symm (begins left apart theirs mine)
    · exact divided.alone left right mine theirs same

/-- Workers may go, and what is shared may change in what is not divided. -/
theorem fewer (divided : crowd.Divided) {download : Download} {workers : List Worker}
    (stays : workers ⊆ crowd.workers) (torrent : download.torrent = crowd.download.torrent)
    (selector : download.selector = crowd.download.selector)
    (holdings : download.holdings = crowd.download.holdings)
    (exclusive : Exclusive download (· ∈ workers.map Worker.peer)) :
    Divided ⟨download, workers⟩ where
  tiled := torrent ▸ divided.tiled
  endGame := selector ▸ divided.endGame
  fits := torrent ▸ holdings ▸ divided.fits
  sessions := fun one member => torrent ▸ divided.sessions one (stays member)
  exclusive := exclusive
  waits := fun one member =>
    ⟨holdings ▸ (divided.waits one (stays member)).writing,
      torrent ▸ holdings ▸ (divided.waits one (stays member)).hashing⟩
  alone := fun left right => divided.alone (stays left) (stays right)

theorem evolve (divided : crowd.Divided) {download : Download}
    (torrent : download.torrent = crowd.download.torrent)
    (selector : download.selector = crowd.download.selector)
    (assignments : download.assignments = crowd.download.assignments)
    (holdings : download.holdings = crowd.download.holdings) :
    Divided { crowd with download := download } :=
  divided.fewer (List.Subset.refl _) torrent selector holdings
    (divided.exclusive.evolve torrent assignments (holdings ▸ id)
      (holdings ▸ fun _ fetched => fetched))

theorem join (divided : crowd.Divided) (sound : crowd.Sound) (address : Address) (peerId : PeerId)
    (source : PeerSource) (capabilities : Capabilities) (now : Nat) :
    (crowd.join address peerId source capabilities now).Divided := by
  unfold Crowd.join
  split
  · exact divided
  · rename_i roster mailbox attached
    let session := (crowd.download.newSession address now).connecting.handshakeDone now peerId
      capabilities
    have evolved := @evolve crowd divided (crowd.download.withRoster roster) rfl rfl rfl rfl
    have either : ∀ {one new : Worker}, one ∈ crowd.workers ++ [new] →
        one ∈ crowd.workers ∨ one = new :=
      fun member => (List.mem_append.mp member).imp_right List.mem_singleton.mp
    refine ⟨divided.tiled, divided.endGame, divided.fits, ?_, ?_, ?_, ?_⟩
    · intro one member
      rcases either member with old | rfl
      · exact divided.sessions one old
      · exact Swarm.welcome_sound crowd.download address peerId capabilities now mailbox
    · have apart : ∀ other ∈ crowd.peers, other.address ≠ address := by
        intro other member
        obtain ⟨one, old, rfl⟩ := List.mem_map.mp member
        exact (sound.join_informs attached old).1
      have joined := @Exclusive.joined crowd.download crowd.peers roster
        (Worker.peer ⟨session, mailbox, [], none⟩) divided.exclusive apart rfl rfl
      have whole : peers ⟨crowd.download.withRoster roster,
            crowd.workers ++ [⟨session, mailbox, [], none⟩]⟩ =
          crowd.peers ++ [Worker.peer ⟨session, mailbox, [], none⟩] := List.map_append
      rw [← whole] at joined
      exact joined
    · intro one member
      rcases either member with old | rfl
      · exact evolved.waits one old
      · exact ⟨(nomatch ·), (nomatch ·)⟩
    · intro one other left right first second mine theirs
      rcases either left with left | rfl
      · rcases either right with right | rfl
        · exact divided.alone left right mine theirs
        · cases theirs
      · cases mine

/-- The piece of a worker that leaves is given back. -/
theorem leave (divided : crowd.Divided) (sound : crowd.Sound) (there : worker ∈ crowd.workers) :
    (crowd.dismiss (worker.turn crowd.download).onDisconnect.download worker).Divided := by
  have evolves := crowd.download.free_evolves worker.session
  have holdings := Download.holdings_free crowd.download worker.session
  have same : crowd.dismiss (worker.turn crowd.download).onDisconnect.download worker =
      ⟨(crowd.download.free worker.session).withRoster
        (((crowd.download.free worker.session).roster.remove worker.address).close worker.mailbox),
        crowd.workers.filter (·.address ≠ worker.address)⟩ := by
    simp only [dismiss, Turn.onDisconnect, Turn.unassign_download]
    rfl
  have unique : ∀ other ∈ crowd.peers, other.address = worker.peer.address →
      other = worker.peer := by
    intro other member shared
    obtain ⟨one, old, rfl⟩ := List.mem_map.mp member
    exact congrArg Worker.peer (sound.same there old shared)
  have given : Exclusive (crowd.download.free worker.session)
      (fun other => other ∈ crowd.peers ∧ other.address ≠ worker.address) :=
    divided.exclusive.without (List.mem_map_of_mem there) unique
  rw [same]
  refine divided.fewer (fun _ member => (List.mem_filter.mp member).1) evolves.torrent
    evolves.selector holdings ?_
  have parted := @Exclusive.evolve _ ((crowd.download.free worker.session).withRoster
    (((crowd.download.free worker.session).roster.remove worker.address).close worker.mailbox))
    _ given rfl rfl id fun _ fetched => fetched
  refine parted.congr fun peer => ?_
  simp only [peers, List.mem_map, List.mem_filter, decide_eq_true_eq]
  constructor
  · rintro ⟨⟨one, member, rfl⟩, different⟩
    exact ⟨one, ⟨member, different⟩, rfl⟩
  · rintro ⟨one, ⟨member, different⟩, rfl⟩
    exact ⟨⟨one, member, rfl⟩, different⟩

theorem recheck (divided : crowd.Divided) (alone : crowd.workers = []) (store : MemoryStore) :
    Divided { crowd with download := (crowd.download.recheck store).1 } := by
  have evolves := crowd.download.recheck_evolves store
  have nobody : ∀ {one : Worker}, one ∉ crowd.workers := by
    rw [alone]
    exact List.not_mem_nil
  refine ⟨evolves.torrent ▸ divided.tiled, evolves.selector ▸ divided.endGame, ?_, ?_, ?_, ?_, ?_⟩
  · rw [evolves.torrent]
    exact Download.recheck_fits store divided.fits
  · exact fun _ member => absurd member nobody
  · exact @Download.recheck_induction (fun download => Exclusive download (· ∈ crowd.peers)) store
      (fun _ _ exclusive => exclusive.complete _) crowd.download divided.exclusive
  · exact fun _ member => absurd member nobody
  · exact fun member => absurd member nobody

theorem perform (divided : crowd.Divided) (sound : crowd.Sound) (address : Address) (deed : Deed) :
    (crowd.perform address deed).Divided := by
  unfold Crowd.perform
  split
  · exact divided
  · rename_i worker found
    split
    · exact divided
    · rename_i turn next performed
      have there := worker?_some found
      have tells := worker.perform_tells (sound.settled worker there).sized performed
      refine divided.put sound there (Worker.perform_acts (fun idle => ?_) performed) tells.address
      exact Worker.scene_sound idle ⟨divided.sessions worker there, divided.fits⟩

/-- Whatever happens but that a worker is abandoned, no two handlers get hold of the same piece. -/
theorem step (divided : crowd.Divided) (sound : crowd.Sound) {stretch : Stretch}
    (orderly : ∀ address, stretch ≠ .abandon address) : (crowd.step stretch).Divided := by
  cases stretch with
  | join address peerId source capabilities now =>
    exact divided.join sound address peerId source capabilities now
  | perform address deed => exact divided.perform sound address deed
  | leave address =>
    unfold Crowd.step
    dsimp only
    split
    · exact divided
    · rename_i worker found
      exact divided.leave sound (worker?_some found)
  | abandon address => exact absurd rfl (orderly address)
  | know | forget | shutdown => exact divided.evolve rfl rfl rfl rfl
  | ban ip =>
    unfold Crowd.step
    dsimp only
    unfold Download.ban
    split
    · exact divided
    · exact divided.evolve rfl rfl rfl rfl
  | recheck store =>
    unfold Crowd.step
    dsimp only
    split
    · rename_i alone
      exact divided.recheck (List.isEmpty_iff.mp alone) store
    · exact divided

end Divided

theorem start_divided {torrent : Torrent} (tiled : torrent.Tiled) (settings : Settings)
    {selector : Selector} (endGame : selector.endGame = false) (ownId : PeerId)
    (draws : List Nat) : (start torrent settings selector ownId draws).Divided where
  tiled := tiled
  endGame := endGame
  fits := Holdings.none_fits torrent
  sessions := fun _ member => nomatch member
  exclusive := ⟨List.nodup_nil, (nomatch ·), (nomatch ·), (nomatch ·)⟩
  waits := fun _ member => nomatch member
  alone := fun member => nomatch member

end Crowd

end BitTorrent
