import BitTorrent.Proofs.Backed
import BitTorrent.Proofs.Content
import BitTorrent.Proofs.Provenance

/-!
Runs in which every block that comes is what it should be. Nothing is found corrupt then and nobody
is banned, and a piece is complete once its last block is stored and its bytes can be read back.
-/

set_option autoImplicit false

namespace BitTorrent

/-- A block carries content that belongs where the message says. -/
def Message.Carries (torrent : Torrent) (content : Bytes) : Message → Prop
  | .piece index start data =>
    data = (content.drop (index * torrent.pieceLength + start)).take data.length
  | _ => True

/-- A block that comes carries content that belongs where its message says. -/
def Happening.Carries (torrent : Torrent) (content : Bytes) : Happening → Prop
  | .receive _ _ message => message.Carries torrent content
  | _ => True

/-- Whatever the store holds is content at its place. -/
def MemoryStore.Agrees (store : MemoryStore) (content : Bytes) : Prop :=
  ∀ position byte, store.byte? position = some byte → content[position]? = some byte

namespace MemoryStore

variable {store : MemoryStore} {content : Bytes} {range : ByteRange}

theorem empty_agrees (size : Nat) (content : Bytes) : (empty size).Agrees content := by
  intro position byte stored
  by_cases inside : position < size <;> simp [byte?, empty, inside] at stored

/-- A written range of a store that agrees with content holds it. -/
theorem Agrees.holds (agrees : store.Agrees content) (covers : store.Covers range) :
    store.Holds range.offset (range.cut content) := by
  intro index inside
  have within : index < range.length := by
    simp only [ByteRange.cut, List.length_take] at inside
    omega
  have written := covers (range.offset + index) (by omega) (by simp only [ByteRange.stop]; omega)
  obtain ⟨byte, stored⟩ := Option.isSome_iff_exists.mp written
  rw [stored, range.getElem?_cut content within, agrees _ _ stored]

/-- A piece that can be read back from such a store is intact. -/
theorem Agrees.intact (agrees : store.Agrees content) {torrent : Torrent}
    (describes : torrent.Describes content) {index : Nat} {piece : Piece}
    (found : torrent.piece? index = some piece) {digest : Digest}
    (hashed : store.checksum piece.range = .ok digest) : digest = piece.hash := by
  obtain ⟨bytes, sized, -, held, rfl⟩ := checksum_ok hashed
  have same : bytes = piece.range.cut content :=
    held.unique (agrees.holds (covers_checksum hashed))
      (sized.trans (ByteRange.length_cut (describes.inside found)).symm)
  rw [same, describes.hashed found]

end MemoryStore

/-- A piece whose bytes can only be intact is complete once it is hashed, and it is unless it cannot
be read. -/
theorem Turn.settleChecksum_intact {turn : Turn} (sized : turn.Sized) {store : MemoryStore}
    {piece : Piece} (inside : piece.index < turn.download.holdings.completed.size)
    (intact : ∀ digest, store.checksum piece.range = .ok digest → digest = piece.hash) :
    (∀ flow, (settleChecksum store turn piece).result = .ok flow →
      (settleChecksum store turn piece).turn.download.holdings.has piece.index = true) ∧
    ((∃ digest, store.checksum piece.range = .ok digest) →
      (settleChecksum store turn piece).result = .ok .stay) := by
  unfold settleChecksum
  cases hashed : store.checksum piece.range with
  | error fault => exact ⟨fun _ ended => (nomatch ended), fun ⟨_, read⟩ => nomatch read⟩
  | ok digest =>
    obtain rfl := intact digest hashed
    have verified := @Checks.intact turn piece
    obtain ⟨pursues, stays⟩ := fillPipeline_pursues (verified.sized sized)
    simp only [afterChecksum, ↓reduceIte, verified_eq]
    refine ⟨fun _ _ => ?_, fun _ => stays⟩
    rw [pursues.holdings]
    exact Download.verify_has inside

namespace Scene

variable {scene : Scene} {now : Nat} {message : Message} {deposit : Deposit}

/-- What a block that carries content brings to the store is content. -/
theorem Deposits.brings (deposits : scene.Deposits now message deposit) {content : Bytes}
    (tiled : scene.download.torrent.Tiled)
    (carried : message.Carries scene.download.torrent content) {position : Nat} {byte : UInt8}
    (brings : deposit.Brings position byte) : content[position]? = some byte := by
  obtain ⟨piece, answers⟩ := deposits.answers
  obtain ⟨index, rfl, inside⟩ := brings
  obtain ⟨-, same⟩ := Piece.subRange?_eq_some.mp answers.inside
  rw [deposits.message_eq] at carried
  have within : index < deposit.data.length := (List.getElem?_eq_some_iff.mp inside).1
  have carries : deposit.data = (content.drop (deposit.request.piece *
    scene.download.torrent.pieceLength + deposit.request.start)).take deposit.data.length := carried
  rw [carries, List.getElem?_take_of_lt within, List.getElem?_drop] at inside
  rw [same, tiled.offset answers.found]
  exact inside

/-- If all other blocks of a piece are marked, all are once this one is stored. -/
theorem Deposits.last (deposits : scene.Deposits now message deposit) (sound : scene.Sound)
    (accounted : scene.peer.Accounted scene.download.torrent) {piece : Piece}
    (found : scene.download.torrent.piece? deposit.request.piece = some piece)
    (others : ∀ number < piece.blockCount, (piece.block number).offset ≠ deposit.request.start →
      scene.download.holdings.isFetched deposit.request.piece number = true) :
    (scene.download.holdings.fetch piece deposit.request).allFetched
      deposit.request.piece = true := by
  obtain ⟨same, answers⟩ := deposits.answers
  obtain ⟨other, block, located, member, start, -⟩ := accounted.blocks _ answers.isOpen
  cases found.symm.trans located
  obtain ⟨own, inside, rfl⟩ := Piece.mem_blocks.mp member
  have fits : scene.download.holdings.Fits scene.download.torrent := sound.holdings
  rw [Holdings.allFetched_iff, (fits.fetch piece deposit.request).marks found]
  intro number counted
  rw [Exclusive.isFetched_fetch fits found inside start]
  by_cases mine : own = number
  · rw [if_pos ⟨rfl, mine⟩]
  · rw [if_neg fun both => mine both.2]
    refine others number counted ?_
    rw [start]
    simp only [Piece.block, blockSize]
    omega

/-- If all other blocks of a piece are marked, all its bytes are in the store once this one is. -/
theorem Deposits.covers (deposits : scene.Deposits now message deposit)
    (accounted : scene.peer.Accounted scene.download.torrent)
    (backed : scene.download.holdings.Backed scene.download.torrent scene.store) {piece : Piece}
    (found : scene.download.torrent.piece? deposit.request.piece = some piece)
    (others : ∀ number < piece.blockCount, (piece.block number).offset ≠ deposit.request.start →
      scene.download.holdings.isFetched deposit.request.piece number = true) :
    deposit.store.Covers piece.range := by
  obtain ⟨same, answers⟩ := deposits.answers
  obtain ⟨other, block, located, member, start, length⟩ := accounted.blocks _ answers.isOpen
  cases found.symm.trans located
  cases found.symm.trans answers.found
  obtain ⟨own, inside, rfl⟩ := Piece.mem_blocks.mp member
  have place := answers.inside
  rw [start, length, Piece.subRange?_block inside] at place
  have mine : deposit.range = piece.place own := (Option.some.inj place).symm
  intro position lower upper
  obtain ⟨number, counted, lower, upper⟩ := piece.exists_place lower upper
  by_cases here : (piece.block number).offset = deposit.request.start
  · have same : number = own := by
      rw [start] at here
      simp only [Piece.block, blockSize] at here
      omega
    rw [same, ← mine] at lower upper
    exact MemoryStore.covers_write deposits.taken position lower upper
  · exact (backed _ _ _ found (others number counted here)).write deposits.taken position lower
      upper

/-- The last missing block of a piece is stored and its bytes are intact: the piece is complete. -/
theorem Deposits.completes (deposits : scene.Deposits now message deposit) (sound : scene.Sound)
    (tiled : scene.download.torrent.Tiled) {piece : Piece}
    (found : scene.download.torrent.piece? deposit.request.piece = some piece)
    (all : (scene.download.holdings.fetch piece deposit.request).allFetched
      deposit.request.piece = true)
    (intact : ∀ digest, deposit.store.checksum piece.range = .ok digest → digest = piece.hash) :
    let outcome := (scene.turn.receiveStored scene.store now message).2
    (∀ flow, outcome.result = .ok flow →
      outcome.turn.download.holdings.has deposit.request.piece = true) ∧
    ((∃ digest, deposit.store.checksum piece.range = .ok digest) →
      outcome.result = .ok .stay) := by
  have index := tiled.index found
  have inside : piece.index < (deposit.turn.conclude piece
      deposit.request).download.holdings.completed.size := by
    change piece.index < (deposit.turn.download.holdings.fetch piece _).completed.size
    have size : scene.download.holdings.completed.size = scene.download.torrent.pieceCount :=
      sound.holdings.completed
    rw [Holdings.completed_fetch, deposits.download_eq, size, index]
    exact (List.getElem?_eq_some_iff.mp found).1
  rw [deposits.outcome_hashed found all, ← index]
  exact Turn.settleChecksum_intact (Turn.conclude_sized (deposits.sized sound) _ _) inside intact

end Scene

namespace Swarm

variable {start swarm : Swarm} {torrent : Torrent} {content : Bytes}

/-- As long as every block that comes carries content, the store holds nothing else. -/
theorem run_agrees (sound : start.Sound) (same : start.download.torrent = torrent)
    (tiled : torrent.Tiled) (agrees : start.store.Agrees content) {happenings : List Happening}
    (carried : ∀ happening ∈ happenings, happening.Carries torrent content) :
    (start.run happenings).store.Agrees content := by
  intro position byte stored
  rcases run_brings sound happenings stored with before | ⟨before, happening, after, rfl, met⟩
  · exact agrees position byte before
  · obtain ⟨peer, deposit, deposits, brings⟩ := met
    have own : (start.run before).download.torrent = torrent :=
      (run_torrent sound before).trans same
    have carries := carried happening (by simp)
    obtain ⟨-, now, message, rfl, sent⟩ := deposits
    exact sent.brings (own ▸ tiled) (own ▸ carries) brings

/-- A block that carries content is never found to complete a corrupt piece. -/
theorem Deposits.innocent (sound : start.Sound) (same : start.download.torrent = torrent)
    (describes : torrent.Describes content) (agrees : start.store.Agrees content)
    {happenings : List Happening} {happening : Happening}
    (carried : ∀ other ∈ happenings ++ [happening], other.Carries torrent content) {peer : Peer}
    {deposit : Deposit} (deposits : (start.run happenings).Deposits happening peer deposit) :
    deposit.store.Agrees content ∧ ∀ piece, ¬deposit.Corrupts piece := by
  have later := run_agrees sound same describes.tiled agrees carried
  have stepped : start.run (happenings ++ [happening]) = (start.run happenings).step happening :=
    run_append _ _ _
  rw [stepped, deposits.store_eq (sound.run happenings)] at later
  refine ⟨later, fun piece corrupts => ?_⟩
  obtain ⟨⟨turn, waits⟩, digest, hashed, mismatch⟩ := corrupts
  obtain ⟨-, now, message, rfl, sent⟩ := deposits
  have own : deposit.turn.download.torrent = torrent :=
    (congrArg Download.torrent sent.download_eq).trans ((run_torrent sound happenings).trans same)
  exact mismatch (later.intact describes (own ▸ (Turn.afterWrite_hashes waits).1) hashed)

end Swarm

section

variable {name : String} {pieceLength : Nat} {files : List (String × Bytes)} {info : Metainfo}
  {torrent : Torrent} {settings : Settings} {selector : Selector} {ownId : PeerId}
  {draws : List Nat} {happenings : List Happening}

/-- If every block that comes carries the content that the torrent was made from, then wherever a
run from an empty store has led, only addresses that were banned by request are banned, every block
that is marked is stored as it should be, and the bytes of a piece match its hash whenever they can
be read. No block is ever found to complete a corrupt piece. A piece is complete once its last
missing block is stored and the handler ends well, which it does unless reads fail. -/
theorem run_honest (made : Metainfo.ofContent? name pieceLength files = some info)
    (built : Torrent.ofMetainfo info = .ok torrent)
    (carried : ∀ happening ∈ happenings, happening.Carries torrent (files.flatMap (·.2))) :
    let content := files.flatMap (·.2)
    let swarm := (Swarm.start torrent settings selector ownId draws
      (.empty content.length)).run happenings
    (∀ ip, swarm.download.isBanned ip = true → .ban ip ∈ happenings) ∧
    (∀ index piece number, torrent.piece? index = some piece →
      swarm.download.holdings.isFetched index number = true →
        swarm.store.Holds (piece.place number).offset ((piece.place number).cut content)) ∧
    (∀ piece ∈ torrent.pieces, ∀ digest,
      swarm.store.checksum piece.range = .ok digest → digest = piece.hash) ∧
    ∀ peer ∈ swarm.peers, ∀ now message deposit, message.Carries torrent content →
      (swarm.scene peer).Deposits now message deposit →
        (∀ piece, ¬deposit.Corrupts piece) ∧
        ∀ piece, torrent.piece? deposit.request.piece = some piece →
          (∀ number < piece.blockCount, (piece.block number).offset ≠ deposit.request.start →
            swarm.download.holdings.isFetched deposit.request.piece number = true) →
          let outcome := ((swarm.scene peer).turn.receiveStored swarm.store now message).2
          (∀ flow, outcome.result = .ok flow →
            (swarm.step (.receive peer.address now message)).download.holdings.has
              deposit.request.piece = true) ∧
          (swarm.store.failReads = none → outcome.result = .ok .stay) := by
  intro content swarm
  let start := Swarm.start torrent settings selector ownId draws (.empty content.length)
  have sound : start.Sound := Swarm.start_sound torrent settings selector ownId draws _
  have steady : swarm.Sound := sound.run happenings
  have own : swarm.download.torrent = torrent := Swarm.run_torrent sound happenings
  have describes : torrent.Describes content := Torrent.ofContent?_describes made built
  have empty : start.store.Agrees content := MemoryStore.empty_agrees _ _
  have agrees : swarm.store.Agrees content :=
    Swarm.run_agrees sound rfl describes.tiled empty carried
  have kept : swarm.Backed := by
    refine backed_stable.run sound ⟨fun _ => (nomatch ·), fun _ => ?_⟩ happenings
    intro index piece number found fetched
    have marks : (Holdings.none torrent).isFetched index number = true := fetched
    rw [Holdings.isFetched_none] at marks
    cases marks
  have backed := kept.backed (own ▸ describes.tiled)
  rw [own] at backed
  refine ⟨?_, ?_, ?_, ?_⟩
  · intro ip banned
    rcases Swarm.run_bans sound happenings banned with before | ⟨before, happening, after, rfl, met⟩
    · cases before
    · rcases met with named | ⟨peer, deposit, piece, condemns⟩
      · simp [named]
      · have carriedSoFar : ∀ other ∈ before ++ [happening], other.Carries torrent content := by
          intro other member
          refine carried other ?_
          simp only [List.mem_append, List.mem_cons, List.not_mem_nil, or_false] at member ⊢
          exact member.imp id Or.inl
        exact absurd condemns.corrupts
          ((condemns.deposits.innocent sound rfl describes empty carriedSoFar).2 piece)
  · intro index piece number found fetched
    exact agrees.holds (backed index piece number found fetched)
  · intro piece member digest hashed
    obtain ⟨index, inside, rfl⟩ := List.getElem_of_mem member
    exact agrees.intact describes (List.getElem?_eq_getElem inside) hashed
  · intro peer connected now message deposit carries deposits
    have sent : swarm.Deposits (.receive peer.address now message) peer deposit :=
      ⟨connected, now, message, rfl, deposits⟩
    have carriedNow : ∀ other ∈ happenings ++ [.receive peer.address now message],
        other.Carries torrent content := by
      intro other member
      rcases List.mem_append.mp member with old | new
      · exact carried other old
      · exact List.mem_singleton.mp new ▸ carries
    obtain ⟨later, innocent⟩ := sent.innocent sound rfl describes empty carriedNow
    refine ⟨innocent, ?_⟩
    intro piece found others outcome
    have accounted := kept.accounted peer connected
    have located : (swarm.scene peer).download.torrent.piece? deposit.request.piece =
      some piece := own ▸ found
    have all := deposits.last (steady.scene connected) accounted located others
    obtain ⟨completes, stays⟩ := deposits.completes (steady.scene connected)
      (own ▸ describes.tiled) located all fun digest hashed =>
        later.intact describes found hashed
    refine ⟨fun flow ended => ?_, fun readable => stays ?_⟩
    · simp only [Swarm.step, Swarm.on, steady.peer?_eq connected]
      change (Scene.receive _ now message).download.holdings.has _ = true
      rw [Scene.receive, Scene.download_settle]
      exact completes flow ended
    · have covers := deposits.covers accounted (own ▸ backed) located others
      exact covers.checksum (describes.tiled.positive found)
        ((MemoryStore.write_failReads deposits.taken).trans readable)

/-- The sample as it is described from its content. -/
def Sample.described : Torrent :=
  { Sample.torrent with infoHash := sha1 (Bytes.ofText "sample") }

/-- The block that the first peer is asked for completes the sample. -/
theorem run_honest_offer :
    let swarm := (Swarm.start Sample.described {} ⟨.sequential, false⟩ Sample.peerId []
      (.empty 4)).run (Sample.offer Sample.first)
    (swarm.step (.receive Sample.first 0 (.piece 0 0 Sample.content))).download.holdings.has 0 =
      true := by
  intro swarm
  have made : Metainfo.ofContent? "sample" 4 [("sample", Sample.content)] = some (.ofFiles
    (sha1 (Bytes.ofText "sample")) "sample" 4 [sha1 Sample.content] [("sample", 4)]) := rfl
  have carried : ∀ happening ∈ Sample.offer Sample.first,
      happening.Carries Sample.described Sample.content := by
    intro happening member
    simp only [Sample.offer, List.mem_cons, List.not_mem_nil, or_false] at member
    rcases member with rfl | rfl | rfl <;> trivial
  have honest := @run_honest "sample" 4 [("sample", Sample.content)] _ Sample.described {}
    ⟨.sequential, false⟩ Sample.peerId [] (Sample.offer Sample.first) made rfl carried
  have asked : swarm.peers.any (fun peer => decide (peer.address = Sample.first) &&
      peer.session.phase.isOpen && decide (Sample.request ∈ peer.session.downloads)) = true := by
    decide +kernel
  obtain ⟨peer, member, found⟩ := List.any_eq_true.mp asked
  simp only [Bool.and_eq_true, decide_eq_true_eq] at found
  obtain ⟨⟨same, isOpen⟩, isAsked⟩ := found
  have located : swarm.download.torrent.piece? 0 = some Sample.piece := by decide +kernel
  have missing : swarm.download.holdings.has 0 = false := by decide +kernel
  have empty : swarm.store = .empty 4 := by decide +kernel
  have answers : (swarm.scene peer).Answers Sample.request Sample.content Sample.piece ⟨0, 4⟩ :=
    ⟨isAsked, rfl, located, missing, rfl⟩
  have taken : swarm.store.write ⟨0, 4⟩ Sample.content = .ok (.ofContent Sample.content) := by
    rw [empty]
    rfl
  have carries : (Message.piece 0 0 Sample.content).Carries Sample.described Sample.content := rfl
  obtain ⟨-, completes⟩ :=
    honest.2.2.2 peer member 0 _ _ carries (answers.deposits isOpen 0 taken)
  have others : ∀ number < Sample.piece.blockCount, (Sample.piece.block number).offset ≠ 0 →
      swarm.download.holdings.isFetched 0 number = true := by
    intro number inside other
    have single : Sample.piece.blockCount = 1 := rfl
    obtain rfl : number = 0 := by omega
    exact absurd rfl other
  obtain ⟨completes, stays⟩ := completes Sample.piece rfl others
  rw [← same]
  exact completes _ (stays (congrArg MemoryStore.failReads empty))

end

end BitTorrent
