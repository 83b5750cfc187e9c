import BitTorrent.Proofs.Exclusive
import BitTorrent.Proofs.Ledger
import BitTorrent.Proofs.Memory

/-! What is marked is written: a block counts as fetched only if all its bytes are in the store. -/

set_option autoImplicit false

namespace BitTorrent

/-- Where a block of a piece lies in the torrent. -/
def Piece.place (piece : Piece) (number : Nat) : ByteRange :=
  ⟨piece.offset + (piece.block number).offset, (piece.block number).length⟩

theorem Piece.place_within (piece : Piece) {number position : Nat}
    (lower : (piece.place number).offset ≤ position)
    (upper : position < (piece.place number).stop) :
    piece.range.offset ≤ position ∧ position < piece.range.stop := by
  simp only [place, block, ByteRange.stop, range] at lower upper ⊢
  omega

/-- Every byte of a piece lies in one of its blocks. -/
theorem Piece.exists_place (piece : Piece) {position : Nat}
    (lower : piece.range.offset ≤ position) (upper : position < piece.range.stop) :
    ∃ number < piece.blockCount, (piece.place number).offset ≤ position ∧
      position < (piece.place number).stop := by
  refine ⟨(position - piece.offset) / blockSize, ?_⟩
  simp only [place, block, ByteRange.stop, range, blockCount, blockSize] at lower upper ⊢
  omega

namespace MemoryStore

variable {store after : MemoryStore} {range other : ByteRange} {data : Bytes}

/-- All bytes of a range are written. -/
def Covers (store : MemoryStore) (range : ByteRange) : Prop :=
  ∀ position, range.offset ≤ position → position < range.stop →
    (store.byte? position).isSome = true

theorem Covers.congr (covers : store.Covers range)
    (same : ∀ position, after.byte? position = store.byte? position) : after.Covers range :=
  fun position lower upper => (same position).symm ▸ covers position lower upper

theorem covers_write (taken : store.write range data = .ok after) : after.Covers range := by
  obtain ⟨sized, -, -, inside, -⟩ := write_ok taken
  intro position lower upper
  rw [inside position lower upper]
  simp only [ByteRange.stop] at upper
  simp only [isSome_getElem?]
  omega

/-- What is written stays written. -/
theorem Covers.write (covers : store.Covers other) (taken : store.write range data = .ok after) :
    after.Covers other := by
  obtain ⟨-, -, -, -, outside⟩ := write_ok taken
  intro position lower upper
  by_cases within : range.offset ≤ position ∧ position < range.stop
  · exact covers_write taken position within.1 within.2
  · rw [outside position (by omega)]
    exact covers position lower upper

theorem Holds.covers {content : Bytes} (holds : store.Holds range.offset content)
    (sized : content.length = range.length) : store.Covers range := by
  intro position lower upper
  simp only [ByteRange.stop] at upper
  have byte := holds (position - range.offset) (by omega)
  rw [Nat.add_sub_cancel' lower] at byte
  simp only [byte, isSome_getElem?]
  omega

theorem covers_checksum {digest : Digest} (success : store.checksum range = .ok digest) :
    store.Covers range := by
  obtain ⟨content, sized, -, held, -⟩ := checksum_ok success
  exact held.covers sized

theorem Covers.within (covers : store.Covers range) (positive : 0 < range.length) :
    range.stop ≤ store.size := by
  have last := covers (range.offset + (range.length - 1)) (by omega)
    (by simp only [ByteRange.stop]; omega)
  by_cases inside : range.offset + (range.length - 1) < store.cells.length
  · simp only [ByteRange.stop, size]
    omega
  · simp only [byte?, List.getElem?_eq_none (Nat.le_of_not_lt inside)] at last
    cases last

theorem write_failReads (taken : store.write range data = .ok after) :
    after.failReads = store.failReads := by
  unfold MemoryStore.write at taken
  split at taken
  · cases taken
  · split at taken
    · cases taken
    · split at taken
      · cases taken
      · cases taken
        rfl

/-- A range that is written can be read unless reads fail. -/
theorem Covers.read (covers : store.Covers range) (within : range.stop ≤ store.size)
    (readable : store.failReads = none) : ∃ data, store.read range = .ok data := by
  have all : ((store.cells.drop range.offset).take range.length).all (·.isSome) = true := by
    rw [List.all_eq_true]
    intro cell member
    obtain ⟨index, inside, rfl⟩ := List.getElem_of_mem member
    simp only [List.length_take, List.length_drop] at inside
    have written := covers (range.offset + index) (by omega) (by simp only [ByteRange.stop]; omega)
    have located : store.cells[range.offset + index]? =
        some ((store.cells.drop range.offset).take range.length)[index] := by
      simp only [List.getElem_take, List.getElem_drop]
      exact List.getElem?_eq_getElem _
    rwa [byte?, located] at written
  simp only [MemoryStore.read, readable, Nat.not_lt.mpr within, allWritten?, all, ↓reduceIte]
  exact ⟨_, rfl⟩

theorem Covers.checksum (covers : store.Covers range) (positive : 0 < range.length)
    (readable : store.failReads = none) : ∃ digest, store.checksum range = .ok digest := by
  obtain ⟨data, found⟩ := covers.read (covers.within positive) readable
  exact ⟨sha1 data, by rw [MemoryStore.checksum, found]; rfl⟩

theorem Holds.checksum {content : Bytes} (holds : store.Holds range.offset content)
    (sized : content.length = range.length) (positive : 0 < range.length)
    (readable : store.failReads = none) : store.checksum range = .ok (sha1 content) := by
  obtain ⟨digest, hashed⟩ := (holds.covers sized).checksum positive readable
  obtain ⟨bytes, length, -, held, rfl⟩ := checksum_ok hashed
  rw [hashed, held.unique holds (length.trans sized.symm)]

end MemoryStore

/-- All bytes of the blocks that are marked are written. -/
def Holdings.Backed (holdings : Holdings) (torrent : Torrent) (store : MemoryStore) : Prop :=
  ∀ index piece number, torrent.piece? index = some piece →
    holdings.isFetched index number = true → store.Covers (piece.place number)

namespace Holdings.Backed

variable {holdings : Holdings} {torrent : Torrent} {store after : MemoryStore} {piece : Piece}

theorem write (backed : holdings.Backed torrent store) {range : ByteRange} {data : Bytes}
    (taken : store.write range data = .ok after) : holdings.Backed torrent after :=
  fun _ _ _ found fetched => (backed _ _ _ found fetched).write taken

theorem fetch {download : Download} (backed : download.holdings.Backed download.torrent store)
    (fits : download.holdings.Fits download.torrent) {request : BlockRequest}
    (found : download.torrent.piece? request.piece = some piece) {number : Nat}
    (inside : number < piece.blockCount) (start : request.start = (piece.block number).offset)
    (written : store.Covers (piece.place number)) :
    (download.holdings.fetch piece request).Backed download.torrent store := by
  intro index other block located fetched
  rw [Exclusive.isFetched_fetch fits found inside start] at fetched
  split at fetched
  · rename_i same
    obtain ⟨rfl, rfl⟩ := same
    cases found.symm.trans located
    exact written
  · exact backed _ _ _ located fetched

theorem forget (backed : holdings.Backed torrent store) (forgotten : Nat) :
    (holdings.markAll forgotten false).Backed torrent store := by
  intro index other block located fetched
  refine backed _ _ _ located ?_
  rw [← Bool.not_eq_false]
  intro missing
  exact nomatch fetched.symm.trans (isFetched_forgotten holdings forgotten missing)

theorem complete (backed : holdings.Backed torrent store) (tiled : torrent.Tiled)
    (found : piece ∈ torrent.pieces) (written : store.Covers piece.range) :
    (holdings.complete piece.index).1.Backed torrent store := by
  intro index other block located fetched
  by_cases same : piece.index = index
  · obtain ⟨position, inside, rfl⟩ := List.getElem_of_mem found
    have here : torrent.piece? position = some torrent.pieces[position] :=
      List.getElem?_eq_getElem inside
    rw [tiled.index here] at same
    subst same
    cases here.symm.trans located
    intro byte lower upper
    obtain ⟨lower, upper⟩ := Piece.place_within _ lower upper
    exact written byte lower upper
  · refine backed _ _ _ located ?_
    rwa [isFetched_eq, blocks_complete_of_ne holdings same, ← isFetched_eq] at fetched

end Holdings.Backed

/-- A block is marked only once it is written. -/
theorem Move.backed {scene after : Scene} (move : Move scene after)
    (fits : scene.download.holdings.Fits scene.download.torrent)
    (tiled : scene.download.torrent.Tiled)
    (accounted : scene.peer.Accounted scene.download.torrent)
    (backed : scene.download.holdings.Backed scene.download.torrent scene.store) :
    after.download.holdings.Backed scene.download.torrent after.store := by
  have fetched : ∀ {request : BlockRequest} {data : Bytes} {piece : Piece} {range : ByteRange}
      {store : MemoryStore}, scene.Answers request data piece range →
      scene.store.write range data = .ok store →
      (scene.download.holdings.fetch piece request).Backed scene.download.torrent store := by
    intro request data piece range store answers taken
    obtain ⟨other, block, located, member, start, length⟩ :=
      accounted.blocks request answers.isOpen
    cases answers.found.symm.trans located
    obtain ⟨number, inside, rfl⟩ := Piece.mem_blocks.mp member
    have place := answers.inside
    rw [start, length, Piece.subRange?_block inside] at place
    cases place
    exact (backed.write taken).fetch fits answers.found inside start
      (MemoryStore.covers_write taken)
  cases move with
  | choked | released | recalled =>
    change (scene.download.free _).holdings.Backed _ _
    rwa [Download.holdings_free]
  | took piece =>
    change (scene.download.assign piece _).holdings.Backed _ _
    rwa [Download.holdings_assign]
  | lost now fault =>
    change (scene.download.record fault).holdings.Backed _ _
    rwa [Download.holdings_record]
  | stored now store answers taken => exact fetched answers taken
  | completed now store answers taken all hashed =>
    change (Download.verify _ _).holdings.Backed _ _
    rw [Download.holdings_verify]
    exact (fetched answers taken).complete tiled (List.mem_of_getElem? answers.found)
      (MemoryStore.covers_checksum hashed)
  | corrupted now store digest answers taken =>
    change (Download.reject _ _ _).holdings.Backed _ _
    rw [Download.holdings_reject]
    exact (fetched answers taken).forget _
  | unreadable now store fault answers taken =>
    change (Download.record _ _).holdings.Backed _ _
    rw [Download.holdings_record]
    exact (fetched answers taken).forget _
  | unserved download origin =>
    rcases origin with rfl | ⟨fault, rfl⟩
    · exact backed
    · change (scene.download.record fault).holdings.Backed _ _
      rwa [Download.holdings_record]
  | _ => exact backed

/-- Requests are for blocks, and what is marked is written. -/
structure Swarm.Backed (swarm : Swarm) : Prop where
  accounted : ∀ peer ∈ swarm.peers, peer.Accounted swarm.download.torrent
  backed : swarm.download.torrent.Tiled →
    swarm.download.holdings.Backed swarm.download.torrent swarm.store

theorem backed_stable : Swarm.Stable Swarm.Backed where
  moved := by
    intro swarm scene after sound present move before
    refine ⟨accounted_stable.moved sound present move before.accounted, fun tiled => ?_⟩
    have same : after.download.torrent = scene.download.torrent := move.evolves.torrent
    change after.download.torrent.Tiled at tiled
    change after.download.holdings.Backed after.download.torrent after.store
    rw [same] at tiled ⊢
    exact move.backed sound.holdings tiled
      (before.accounted scene.peer ((Swarm.mem_put present).mpr (Or.inl rfl)))
      (before.backed tiled)
  withdrawn := by
    intro swarm scene after sound present withdrawal before
    refine ⟨accounted_stable.withdrawn sound present withdrawal before.accounted, ?_⟩
    have store : after.store = scene.store := by
      rw [withdrawal.result]
      rfl
    change after.download.torrent.Tiled →
      after.download.holdings.Backed after.download.torrent after.store
    rw [withdrawal.download, store]
    exact before.backed
  joined := fun capabilities now sound attached before =>
    ⟨accounted_stable.joined capabilities now sound attached before.accounted, before.backed⟩
  left := by
    intro swarm peer sound member before
    refine ⟨accounted_stable.left sound member before.accounted, fun tiled => ?_⟩
    have evolves := swarm.download.free_evolves peer.session
    change (swarm.download.free peer.session).torrent.Tiled at tiled
    change (swarm.download.free peer.session).holdings.Backed
      (swarm.download.free peer.session).torrent swarm.store
    rw [evolves.torrent] at tiled ⊢
    rw [Download.holdings_free]
    exact before.backed tiled
  rechecked := by
    intro swarm sound before
    refine ⟨accounted_stable.rechecked sound before.accounted, fun tiled => ?_⟩
    have evolves := swarm.download.recheck_evolves swarm.store
    change (swarm.download.recheck swarm.store).1.torrent.Tiled at tiled
    rw [evolves.torrent] at tiled
    have both := @Download.recheck_induction
      (fun middle => middle.torrent.Tiled ∧ middle.holdings.Backed middle.torrent swarm.store)
      swarm.store (fun member hashed before => ⟨before.1, before.2.complete before.1 member
        (MemoryStore.covers_checksum hashed)⟩) swarm.download ⟨tiled, before.backed tiled⟩
    exact both.2
  banned := by
    intro swarm ip before
    refine ⟨accounted_stable.banned ip before.accounted, fun tiled => ?_⟩
    change (swarm.download.ban ip).torrent.Tiled at tiled
    change (swarm.download.ban ip).holdings.Backed (swarm.download.ban ip).torrent swarm.store
    rw [(swarm.download.ban_evolves ip).torrent] at tiled ⊢
    rw [Download.holdings_ban]
    exact before.backed tiled
  faults := fun writes reads before =>
    ⟨accounted_stable.faults writes reads before.accounted, fun tiled _ _ _ found fetched =>
      (before.backed tiled _ _ _ found fetched).congr fun _ => rfl⟩

/-- At the start nobody is asked and nothing is marked. -/
theorem Swarm.start_backed (torrent : Torrent) (settings : Settings) (selector : Selector)
    (ownId : PeerId) (draws : List Nat) (store : MemoryStore) :
    (Swarm.start torrent settings selector ownId draws store).Backed where
  accounted := fun _ => (nomatch ·)
  backed := by
    intro _ index piece number _ fetched
    have marks : (Holdings.none torrent).isFetched index number = true := fetched
    rw [Holdings.isFetched_none] at marks
    cases marks

end BitTorrent
