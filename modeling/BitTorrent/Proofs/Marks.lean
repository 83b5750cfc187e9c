import BitTorrent.Proofs.Backed

/-!
The two records of what is there agree: a piece is complete exactly if all its blocks are marked.
So no piece is left with nothing to ask for and without having been verified.
-/

set_option autoImplicit false

namespace BitTorrent

theorem Piece.blockCount_pos {piece : Piece} (nonempty : 0 < piece.length) :
    0 < piece.blockCount := by
  simp only [blockCount, blockSize]
  omega

/-- Unless every block is fetched, there is one to ask for. -/
theorem Piece.exists_nextMissing {piece : Piece} {fetched : List Bool} {number : Nat}
    (missing : fetched[number]? = some false) (inside : number < piece.blockCount) :
    ∃ block, piece.nextMissing? fetched (fun _ => false) = some block := by
  have located : (piece.blocks.zip fetched)[number]? = some (piece.block number, false) := by
    rw [List.getElem?_zip_eq_some, getElem?_blocks, if_pos inside]
    exact ⟨rfl, missing⟩
  have found : (piece.nextMissing? fetched (fun _ => false)).isSome = true := by
    rw [nextMissing?, Option.isSome_map, List.find?_isSome]
    exact ⟨_, List.mem_of_getElem? located, rfl⟩
  exact Option.isSome_iff_exists.mp found

namespace Holdings

/-- Every piece is complete exactly if all its blocks are marked. -/
def Agrees (holdings : Holdings) (torrent : Torrent) : Prop :=
  ∀ index piece, torrent.piece? index = some piece →
    holdings.has index = holdings.allFetched index

variable {holdings later : Holdings} {torrent : Torrent}

theorem allFetched_of_blocks {index : Nat} (same : later.blocks index = holdings.blocks index) :
    later.allFetched index = holdings.allFetched index := by
  rw [allFetched, same]
  rfl

theorem allFetched_markAll (holdings : Holdings) (index : Nat) :
    (holdings.markAll index true).allFetched index = true := by
  simp only [allFetched, blocks_markAll, ↓reduceIte, List.all_map, Function.comp_def, id]
  exact List.all_eq_true.mpr fun _ _ => rfl

theorem allFetched_forgotten (holdings : Holdings) {index : Nat}
    (nonempty : 0 < (holdings.blocks index).length) :
    (holdings.markAll index false).allFetched index = false := by
  rw [← Bool.not_eq_true, allFetched_iff]
  intro all
  have first := all 0 (by rwa [blocks_markAll, if_pos rfl, List.length_map])
  exact nomatch first.symm.trans (isFetched_markAll_false holdings index 0)

theorem has_fetch (holdings : Holdings) (piece : Piece) (request : BlockRequest) (index : Nat) :
    (holdings.fetch piece request).has index = holdings.has index := by
  rw [has, completed_fetch]
  rfl

theorem blocks_fetch_of_ne (holdings : Holdings) (piece : Piece) {request : BlockRequest}
    {other : Nat} (different : request.piece ≠ other) :
    (holdings.fetch piece request).blocks other = holdings.blocks other := by
  unfold fetch
  split
  · rw [blocks_mark, if_neg different]
  · rfl

namespace Agrees

/-- It is enough to look at the piece that is changed. -/
theorem change (agrees : holdings.Agrees torrent) (changed : Nat)
    (others : ∀ other, changed ≠ other → later.has other = holdings.has other ∧
      later.blocks other = holdings.blocks other)
    (here : later.has changed = later.allFetched changed) : later.Agrees torrent := by
  intro index piece found
  by_cases same : changed = index
  · exact same ▸ here
  · obtain ⟨has, blocks⟩ := others index same
    rw [has, allFetched_of_blocks blocks]
    exact agrees index piece found

/-- A piece is completed together with the marks of its blocks, whichever of them were set. -/
theorem completed (agrees : holdings.Agrees torrent) {middle : Holdings} {changed : Nat}
    (others : ∀ other, changed ≠ other → middle.has other = holdings.has other ∧
      middle.blocks other = holdings.blocks other)
    (inside : changed < middle.completed.size) : (middle.complete changed).1.Agrees torrent := by
  refine agrees.change changed ?_ ?_
  · intro other different
    obtain ⟨has, blocks⟩ := others other different
    rw [has_complete, blocks_complete_of_ne middle different, has, blocks]
    simp [different]
  · have marks : (middle.complete changed).1.allFetched changed =
        (middle.markAll changed true).allFetched changed := by
      simp only [complete, inside, ↓reduceIte]
      rfl
    rw [has_complete, marks, allFetched_markAll]
    simp [inside]

theorem complete (agrees : holdings.Agrees torrent) (changed : Nat) :
    (holdings.complete changed).1.Agrees torrent := by
  by_cases inside : changed < holdings.completed.size
  · exact agrees.completed (fun _ _ => ⟨rfl, rfl⟩) inside
  · simp only [Holdings.complete, inside, ↓reduceIte]
    exact agrees

/-- A block is marked of a piece that is still neither complete nor fully fetched. -/
theorem fetch (agrees : holdings.Agrees torrent) {piece : Piece} {request : BlockRequest}
    (incomplete : holdings.has request.piece = false)
    (some_missing : (holdings.fetch piece request).allFetched request.piece = false) :
    (holdings.fetch piece request).Agrees torrent := by
  refine agrees.change request.piece (fun other different =>
    ⟨has_fetch holdings piece request other, blocks_fetch_of_ne holdings piece different⟩) ?_
  rw [has_fetch, incomplete, some_missing]

/-- The marks of an incomplete piece are dropped. -/
theorem forget (agrees : holdings.Agrees torrent) {piece : Piece} {request : BlockRequest}
    (incomplete : holdings.has request.piece = false)
    (nonempty : 0 < ((holdings.fetch piece request).blocks request.piece).length) :
    ((holdings.fetch piece request).markAll request.piece false).Agrees torrent := by
  refine agrees.change request.piece (fun other different => ?_) ?_
  · rw [blocks_markAll, if_neg different, blocks_fetch_of_ne holdings piece different]
    exact ⟨has_fetch holdings piece request other, rfl⟩
  · rw [allFetched_forgotten _ nonempty]
    exact (has_fetch holdings piece request request.piece).trans incomplete

end Agrees

/-- With nothing complete and nothing marked the records agree, since every piece has a block. -/
theorem none_agrees (tiled : torrent.Tiled) : (none torrent).Agrees torrent := by
  intro index piece found
  have incomplete : (none torrent).has index = false := Bitfield.has_empty _ _
  have marks := (none_fits torrent).marks found
  rw [incomplete, Eq.comm, ← Bool.not_eq_true, allFetched_iff]
  intro all
  have first := all 0 (marks ▸ Piece.blockCount_pos (tiled.positive found))
  exact nomatch first.symm.trans (isFetched_none torrent index 0)

/-- Of an incomplete piece there is a block left to ask for. -/
theorem Agrees.nextMissing (agrees : holdings.Agrees torrent) (fits : holdings.Fits torrent)
    {index : Nat} {piece : Piece} (found : torrent.piece? index = some piece)
    (incomplete : holdings.has index = false) :
    ∃ block, piece.nextMissing? (holdings.blocks index) (fun _ => false) = some block := by
  have unfinished : holdings.allFetched index = false :=
    (agrees index piece found).symm.trans incomplete
  rw [allFetched, List.all_eq_false] at unfinished
  obtain ⟨mark, member, missing⟩ := unfinished
  obtain ⟨number, inside, rfl⟩ := List.getElem_of_mem member
  refine Piece.exists_nextMissing ?_ (fits.marks found ▸ inside)
  rw [List.getElem?_eq_getElem inside]
  simpa using missing

end Holdings

/-- The records agree after every move if they did before. -/
theorem Move.agrees {scene after : Scene} (move : Move scene after)
    (fits : scene.download.holdings.Fits scene.download.torrent)
    (tiled : scene.download.torrent.Tiled)
    (agrees : scene.download.holdings.Agrees scene.download.torrent) :
    after.download.holdings.Agrees scene.download.torrent := by
  have marked : ∀ {request : BlockRequest} {data : Bytes} {piece : Piece} {range : ByteRange},
      scene.Answers request data piece range → piece.index = request.piece ∧
        request.piece < (scene.download.holdings.fetch piece request).completed.size ∧
        0 < ((scene.download.holdings.fetch piece request).blocks request.piece).length := by
    intro request data piece range answers
    have later := fits.fetch piece request
    refine ⟨tiled.index answers.found, ?_, ?_⟩
    · rw [later.completed]
      exact (List.getElem?_eq_some_iff.mp answers.found).1
    · rw [later.marks answers.found]
      exact Piece.blockCount_pos (tiled.positive answers.found)
  cases move with
  | choked | released | recalled =>
    change (scene.download.free _).holdings.Agrees _
    rwa [Download.holdings_free]
  | took piece =>
    change (scene.download.assign piece _).holdings.Agrees _
    rwa [Download.holdings_assign]
  | lost now fault =>
    change (scene.download.record fault).holdings.Agrees _
    rwa [Download.holdings_record]
  | stored now store answers taken some_missing => exact agrees.fetch answers.missing some_missing
  | @completed now request data piece range store answers taken all hashed =>
    obtain ⟨index, inside, -⟩ := marked answers
    change (Download.verify _ _).holdings.Agrees _
    rw [Download.holdings_verify, index]
    exact agrees.completed (fun other different => ⟨Holdings.has_fetch _ piece request other,
      Holdings.blocks_fetch_of_ne _ piece different⟩) inside
  | corrupted now store digest answers taken =>
    obtain ⟨index, -, nonempty⟩ := marked answers
    change (Download.reject _ _ _).holdings.Agrees _
    rw [Download.holdings_reject, index]
    exact agrees.forget answers.missing nonempty
  | unreadable now store fault answers taken =>
    obtain ⟨index, -, nonempty⟩ := marked answers
    change (Download.record _ _).holdings.Agrees _
    rw [Download.holdings_record, index]
    exact agrees.forget answers.missing nonempty
  | unserved download origin =>
    rcases origin with rfl | ⟨fault, rfl⟩
    · exact agrees
    · change (scene.download.record fault).holdings.Agrees _
      rwa [Download.holdings_record]
  | _ => exact agrees

/-- In no run do the records of what is there fall apart. -/
theorem agrees_stable : Swarm.Stable fun swarm => swarm.download.torrent.Tiled →
    swarm.download.holdings.Agrees swarm.download.torrent := by
  have evolved : ∀ {before after : Download}, before.Evolves after →
      after.holdings = before.holdings →
      (before.torrent.Tiled → before.holdings.Agrees before.torrent) →
      after.torrent.Tiled → after.holdings.Agrees after.torrent := by
    intro before after evolves same agrees tiled
    rw [evolves.torrent] at tiled ⊢
    exact same ▸ agrees tiled
  refine {
    moved := ?_
    withdrawn := ?_
    joined := fun _ _ _ _ before => before
    left := ?_
    rechecked := ?_
    banned := fun {swarm} ip =>
      evolved (swarm.download.ban_evolves ip) (Download.holdings_ban _ _)
    faults := fun _ _ before => before }
  · intro swarm scene after sound _ move before tiled
    change after.download.torrent.Tiled at tiled
    change after.download.holdings.Agrees after.download.torrent
    rw [move.evolves.torrent] at tiled ⊢
    exact move.agrees sound.holdings tiled (before tiled)
  · intro swarm scene after _ _ withdrawal
    change _ → after.download.torrent.Tiled →
      after.download.holdings.Agrees after.download.torrent
    rw [withdrawal.download]
    exact id
  · intro swarm peer _ _ before
    have freed := evolved (swarm.download.free_evolves peer.session)
      (Download.holdings_free _ _) before
    exact freed
  · intro swarm _ before
    have found := @Download.recheck_induction (fun download => download.torrent.Tiled →
      download.holdings.Agrees download.torrent) swarm.store
      (fun {_ piece} _ _ agrees tiled => (agrees tiled).complete piece.index) swarm.download before
    exact found

section

variable {info : Metainfo} {torrent : Torrent} {settings : Settings} {selector : Selector}
  {ownId : PeerId} {draws : List Nat} {store : MemoryStore}

/-- Wherever a run has led, a piece is complete exactly if all its blocks are marked, all bytes of
every marked block are written, and an incomplete piece has a block left to ask for. -/
theorem run_marks (built : Torrent.ofMetainfo info = .ok torrent) (happenings : List Happening) :
    let swarm := (Swarm.start torrent settings selector ownId draws store).run happenings
    ∀ index piece, torrent.piece? index = some piece →
      (swarm.download.holdings.has index = true ↔
        ∀ number < piece.blockCount, swarm.download.holdings.isFetched index number = true) ∧
      (∀ number, swarm.download.holdings.isFetched index number = true →
        number < piece.blockCount ∧ swarm.store.Covers (piece.place number)) ∧
      (swarm.download.holdings.has index = false →
        ∃ block, piece.nextMissing? (swarm.download.holdings.blocks index) (fun _ => false) =
          some block) := by
  intro swarm index piece found
  have start := Swarm.start_sound torrent settings selector ownId draws store
  have sound : swarm.Sound := start.run happenings
  have own : swarm.download.torrent = torrent := Swarm.run_torrent start happenings
  have tiled : swarm.download.torrent.Tiled := own ▸ Torrent.ofMetainfo_tiled built
  have agrees : swarm.download.holdings.Agrees swarm.download.torrent :=
    agrees_stable.run start Holdings.none_agrees happenings tiled
  have backed : swarm.download.holdings.Backed swarm.download.torrent swarm.store := by
    refine (backed_stable.run start ⟨fun _ => (nomatch ·), fun _ => ?_⟩ happenings).backed tiled
    intro index piece number _ fetched
    exact nomatch fetched.symm.trans (Holdings.isFetched_none torrent index number)
  have marks := sound.holdings.marks (own.symm ▸ found)
  rw [own] at agrees backed
  refine ⟨?_, ?_, ?_⟩
  · rw [agrees index piece found, Holdings.allFetched_iff, marks]
  · intro number fetched
    refine ⟨?_, backed index piece number found fetched⟩
    rw [← marks]
    by_contra outside
    rw [Holdings.isFetched_eq, List.getElem?_eq_none (Nat.le_of_not_lt outside)] at fetched
    cases fetched
  · exact agrees.nextMissing (own ▸ sound.holdings) found

/-- The only block of the piece is to be asked for until it has come. -/
theorem run_marks_offer :
    let swarm := Sample.start.run (Sample.offer Sample.first)
    ∃ block, Sample.piece.nextMissing? (swarm.download.holdings.blocks 0) (fun _ => false) =
      some block := by
  intro swarm
  have marks := @run_marks _ _ {} ⟨.sequential, false⟩ Sample.peerId [] (.empty 4)
    Sample.ofMetainfo_info (Sample.offer Sample.first) 0 Sample.piece rfl
  exact marks.2.2 (by decide +kernel)

end

end BitTorrent
