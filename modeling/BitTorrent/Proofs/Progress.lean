import BitTorrent.Proofs.Recheck
import Mathlib.Tactic.TFAE

/-!
How far a torrent is, counted in pieces and in bytes, whichever pieces are marked complete and
however often.
-/

set_option autoImplicit false

namespace BitTorrent

/-- Ranges that follow one another have the bytes between their ends. -/
theorem ByteRange.Tile.sum_length {start stop : Nat} {ranges : List ByteRange}
    (tiled : Tile start ranges stop) : start + (ranges.map ByteRange.length).sum = stop := by
  induction ranges generalizing start with
  | nil =>
    change start = stop at tiled
    simp [tiled]
  | cons range rest ih =>
    obtain ⟨rfl, later⟩ := tiled
    have behind := ih later
    simp only [ByteRange.stop] at behind
    simp only [List.map_cons, List.sum_cons]
    omega

/-- The pieces of a torrent have all its bytes. -/
theorem Torrent.sum_length {info : Metainfo} {torrent : Torrent}
    (built : ofMetainfo info = .ok torrent) :
    (torrent.pieces.map Piece.length).sum = torrent.totalLength := by
  have valid := ofMetainfo_ok.mp ⟨torrent, built⟩
  rw [ofMetainfo_eq valid] at built
  cases built
  have tiled : ByteRange.Tile 0 _ info.totalLength :=
    ByteRange.tile_slices (Metainfo.pieces_checked valid).1
  rw [← layOut_range valid] at tiled
  have covered := tiled.sum_length
  rw [List.map_map, Nat.zero_add] at covered
  exact covered

namespace Holdings

variable {torrent : Torrent} {holdings : Holdings}

/-- The bytes of the pieces that are not complete. -/
theorem unmarked_eq (has : Nat → Bool) {pieces : List Piece} {start : Nat}
    (numbered : pieces.map Piece.index = List.range' start pieces.length) :
    unmarked pieces ((List.range' start pieces.length).map has) =
      ((pieces.filter fun piece => !has piece.index).map Piece.length).sum := by
  induction pieces generalizing start with
  | nil => rfl
  | cons piece rest ih =>
    simp only [List.map_cons, List.length_cons, List.range'_succ, List.cons.injEq] at numbered
    obtain ⟨here, behind⟩ := numbered
    rw [List.length_cons, List.range'_succ, List.map_cons, unmarked, ih behind, ← here]
    by_cases done : has piece.index = true
    · simp [done]
    · simp [done]

theorem left_eq (tiled : torrent.Tiled) (sized : holdings.completed.size = torrent.pieceCount) :
    holdings.left torrent =
      ((torrent.pieces.filter fun piece => !holdings.has piece.index).map Piece.length).sum := by
  have numbered := tiled.indices
  rw [List.range_eq_range'] at numbered
  rw [left, Bitfield.bits, sized, List.range_eq_range']
  exact unmarked_eq holdings.has numbered

/-- The bytes that are left and those of the complete pieces are all bytes. -/
theorem left_add (tiled : torrent.Tiled) (sized : holdings.completed.size = torrent.pieceCount) :
    holdings.left torrent +
        ((torrent.pieces.filter fun piece => holdings.has piece.index).map Piece.length).sum =
      (torrent.pieces.map Piece.length).sum := by
  have split := (List.filter_append_perm (holdings.has ·.index) torrent.pieces).map Piece.length
  have summed := split.sum_nat
  rw [List.map_append, List.sum_append] at summed
  rw [left_eq tiled sized]
  omega

/-- No piece is empty, so bytes are left as long as a piece is. -/
theorem left_eq_zero (tiled : torrent.Tiled)
    (sized : holdings.completed.size = torrent.pieceCount) :
    holdings.left torrent = 0 ↔ holdings.isComplete = true := by
  refine ⟨fun nothing => ?_, left_of_isComplete torrent⟩
  rw [left_eq tiled sized, List.sum_eq_zero_iff_forall_eq_nat] at nothing
  apply (Bitfield.isFull_iff _).mpr
  intro index inside
  obtain ⟨piece, located⟩ : ∃ piece, torrent.piece? index = some piece :=
    ⟨_, List.getElem?_eq_getElem (inside.trans_eq sized)⟩
  by_contra missing
  have left : piece.length = 0 := by
    apply nothing
    apply List.mem_map_of_mem
    apply List.mem_filter.mpr
    refine ⟨List.mem_of_getElem? located, ?_⟩
    rw [tiled.index located]
    simpa [has] using missing
  have positive := tiled.positive located
  omega

@[simp] theorem size_completeAll (holdings : Holdings) (marks : List Nat) :
    (holdings.completeAll marks).completed.size = holdings.completed.size := by
  induction marks generalizing holdings with
  | nil => rfl
  | cons mark rest ih => rw [completeAll_cons, ih, size_complete]

theorem complete_answer (holdings : Holdings) (mark : Nat) :
    (holdings.complete mark).2 =
      (decide (mark < holdings.completed.size) && !holdings.has mark) := by
  unfold complete
  by_cases inside : mark < holdings.completed.size
  · simp [inside]
  · simp [inside]

/-- From nothing, the complete pieces are those that were marked and exist. -/
theorem has_marked (torrent : Torrent) (marks : List Nat) (piece : Nat) :
    ((none torrent).completeAll marks).has piece = true ↔
      piece ∈ marks ∧ piece < torrent.pieceCount := by
  have nothing : (none torrent).has piece = false := Bitfield.has_empty _ _
  rw [has_completeAll, nothing]
  simp [none]

theorem members_marked (torrent : Torrent) (marks : List Nat) :
    ((none torrent).completeAll marks).completed.members =
      (marks.filter (· < torrent.pieceCount)).toFinset := by
  ext piece
  have marked := has_marked torrent marks piece
  rw [has] at marked
  simp [marked]

/-- Pieces of a torrent are marked complete, in any order and also again or where there is none. To
mark one is answered with yes the first time and if it exists. Those that exist are counted once
each. The bytes that are left and those of the complete pieces are all bytes; and all pieces are
complete exactly if as many are counted as there are, and exactly if no byte is left. -/
theorem progress_accounts {info : Metainfo} (built : Torrent.ofMetainfo info = .ok torrent)
    (marks : List Nat) :
    let marked := (none torrent).completeAll marks
    (∀ mark, (marked.complete mark).2 = decide (mark < torrent.pieceCount ∧ mark ∉ marks)) ∧
    marked.completed.count = (marks.filter (· < torrent.pieceCount)).toFinset.card ∧
    marked.left torrent +
        ((torrent.pieces.filter fun piece => marked.has piece.index).map Piece.length).sum =
      torrent.totalLength ∧
    List.TFAE [marked.isComplete = true, marked.completed.count = torrent.pieceCount,
      marked.left torrent = 0] := by
  intro marked
  have tiled := Torrent.ofMetainfo_tiled built
  have sized : marked.completed.size = torrent.pieceCount := by
    simp [marked, none]
  refine ⟨?_, ?_, ?_, ?_⟩
  · intro mark
    rw [complete_answer, sized]
    by_cases inside : mark < torrent.pieceCount
    · have known := has_marked torrent marks mark
      by_cases listed : mark ∈ marks <;> simp_all [marked]
    · simp [inside]
  · rw [Bitfield.count_eq_card, members_marked]
  · rw [left_add tiled sized, Torrent.sum_length built]
  · have counted : marked.isComplete = true ↔ marked.completed.count = torrent.pieceCount := by
      rw [isComplete, Bitfield.isFull, decide_eq_true_eq, sized]
    tfae_have 1 ↔ 2 := counted
    tfae_have 3 ↔ 1 := left_eq_zero tiled sized
    tfae_finish

/-- The last of three pieces is marked twice, one that does not exist is marked, then the first: the
second one is left. -/
theorem progress_accounts_repeated :
    ∃ torrent, Torrent.ofMetainfo Torrent.uneven = .ok torrent ∧
      let marked := (none torrent).completeAll [2, 7, 2, 0]
      (marked.complete 1).2 = true ∧ (marked.complete 2).2 = false ∧
        (marked.complete 7).2 = false ∧ marked.completed.count = 2 ∧
        marked.left torrent = 20000 ∧ marked.isComplete = false := by
  have built : Torrent.ofMetainfo Torrent.uneven = .ok _ := Torrent.ofMetainfo_eq rfl
  obtain ⟨answers, counted, -, agree⟩ := progress_accounts built [2, 7, 2, 0]
  refine ⟨_, built, ?_, ?_, ?_, ?_, ?_, ?_⟩
  · exact answers 1
  · exact answers 2
  · exact answers 7
  · exact counted
  · rfl
  · apply Bool.eq_false_iff.mpr
    intro complete
    have all := (agree.out 0 1).mp complete
    rw [counted] at all
    exact absurd all (by decide)

end Holdings

end BitTorrent
