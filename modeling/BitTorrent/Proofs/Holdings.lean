import BitTorrent.Holdings
import BitTorrent.Proofs.Bitfield
import BitTorrent.Proofs.Layout

set_option autoImplicit false

namespace BitTorrent.Holdings

@[simp] theorem completed_markAll (holdings : Holdings) (piece : Nat) (value : Bool) :
    (holdings.markAll piece value).completed = holdings.completed := rfl

theorem blocks_modify (holdings : Holdings) (piece other : Nat) (change : List Bool → List Bool)
    (empty : change [] = []) :
    blocks { holdings with fetched := holdings.fetched.modify piece change } other =
      if piece = other then change (holdings.blocks other) else holdings.blocks other := by
  simp only [blocks, List.getD_eq_getElem?_getD, List.getElem?_modify]
  by_cases same : piece = other
  · simp only [same, ↓reduceIte]
    cases holdings.fetched[other]? <;> simp [empty]
  · simp [same]

theorem blocks_mark (holdings : Holdings) (piece block other : Nat) (value : Bool) :
    (holdings.mark piece block value).blocks other =
      if piece = other then (holdings.blocks other).set block value else holdings.blocks other :=
  blocks_modify holdings piece other _ rfl

theorem blocks_markAll (holdings : Holdings) (piece other : Nat) (value : Bool) :
    (holdings.markAll piece value).blocks other =
      if piece = other then (holdings.blocks other).map fun _ => value
      else holdings.blocks other :=
  blocks_modify holdings piece other _ rfl

theorem isFetched_eq (holdings : Holdings) (piece block : Nat) :
    holdings.isFetched piece block = ((holdings.blocks piece)[block]?).getD false :=
  List.getD_eq_getElem?_getD

/-- Marking a block changes no other mark. -/
theorem isFetched_mark (holdings : Holdings) (piece block other number : Nat) (value : Bool)
    (inside : block < (holdings.blocks piece).length) :
    (holdings.mark piece block value).isFetched other number =
      if piece = other ∧ block = number then value else holdings.isFetched other number := by
  simp only [isFetched_eq, blocks_mark]
  by_cases same : piece = other
  · subst same
    simp only [↓reduceIte, true_and, List.getElem?_set, inside]
    by_cases here : block = number
    · simp [here]
    · simp [here]
  · simp [same]

theorem isFetched_markAll_of_ne (holdings : Holdings) {piece other : Nat} (number : Nat)
    (value : Bool) (different : piece ≠ other) :
    (holdings.markAll piece value).isFetched other number = holdings.isFetched other number := by
  simp only [isFetched_eq, blocks_markAll, different, ↓reduceIte]

theorem isFetched_markAll_false (holdings : Holdings) (piece number : Nat) :
    (holdings.markAll piece false).isFetched piece number = false := by
  simp only [isFetched_eq, blocks_markAll, ↓reduceIte, List.getElem?_map]
  cases (holdings.blocks piece)[number]? <;> rfl

theorem allFetched_iff (holdings : Holdings) (piece : Nat) :
    holdings.allFetched piece = true ↔
      ∀ number < (holdings.blocks piece).length, holdings.isFetched piece number = true := by
  simp only [allFetched, List.all_eq_true, id, isFetched_eq]
  constructor
  · intro all number inside
    simpa [inside] using all _ (List.getElem_mem inside)
  · intro all mark member
    obtain ⟨number, inside, rfl⟩ := List.getElem_of_mem member
    simpa [inside] using all number inside

theorem has_complete (holdings : Holdings) (piece other : Nat) :
    (holdings.complete piece).1.has other =
      (holdings.has other ||
        (decide (piece = other) && decide (other < holdings.completed.size))) := by
  unfold complete has
  split
  · exact Bitfield.has_insert _ _ _
  · rename_i outside
    by_cases same : piece = other
    · subst same
      simp [outside]
    · simp [same]

theorem blocks_complete_of_ne (holdings : Holdings) {piece other : Nat}
    (different : piece ≠ other) :
    (holdings.complete piece).1.blocks other = holdings.blocks other := by
  unfold complete
  split
  · change (holdings.markAll piece true).blocks other = _
    rw [blocks_markAll, if_neg different]
  · rfl

theorem length_blocks_complete (holdings : Holdings) (piece other : Nat) :
    ((holdings.complete piece).1.blocks other).length = (holdings.blocks other).length := by
  by_cases same : piece = other
  · unfold complete
    split
    · change ((holdings.markAll piece true).blocks other).length = _
      rw [blocks_markAll, if_pos same, List.length_map]
    · rfl
  · rw [blocks_complete_of_ne holdings same]

/-- One completion bit for every piece, and one mark for every block. -/
structure Fits (holdings : Holdings) (torrent : Torrent) : Prop where
  completed : holdings.completed.size = torrent.pieceCount
  marks : ∀ {index : Nat} {piece : Piece}, torrent.piece? index = some piece →
    (holdings.blocks index).length = piece.blockCount

theorem none_fits (torrent : Torrent) : (none torrent).Fits torrent where
  completed := Bitfield.size_empty _
  marks := by
    intro index piece found
    have located : torrent.pieces[index]? = some piece := found
    simp [blocks, none, List.getD_eq_getElem?_getD, located, Piece.noneFetched]

theorem isFetched_none (torrent : Torrent) (piece number : Nat) :
    (none torrent).isFetched piece number = false := by
  simp only [isFetched_eq, blocks, none, List.getD_eq_getElem?_getD, List.getElem?_map]
  cases torrent.pieces[piece]? with
  | none => rfl
  | some found =>
    simp only [Option.map_some, Option.getD_some, Piece.noneFetched, List.getElem?_replicate]
    split <;> rfl

theorem Fits.mark {holdings : Holdings} {torrent : Torrent} (fits : holdings.Fits torrent)
    (piece block : Nat) (value : Bool) : (holdings.mark piece block value).Fits torrent where
  completed := fits.completed
  marks := by
    intro index found located
    rw [blocks_mark]
    split
    · rw [List.length_set, fits.marks located]
    · exact fits.marks located

theorem Fits.markAll {holdings : Holdings} {torrent : Torrent} (fits : holdings.Fits torrent)
    (piece : Nat) (value : Bool) : (holdings.markAll piece value).Fits torrent where
  completed := fits.completed
  marks := by
    intro index found located
    rw [blocks_markAll]
    split
    · rw [List.length_map, fits.marks located]
    · exact fits.marks located

theorem Fits.complete {holdings : Holdings} {torrent : Torrent} (fits : holdings.Fits torrent)
    (piece : Nat) : (holdings.complete piece).1.Fits torrent where
  completed := by
    unfold Holdings.complete
    split
    · exact (Bitfield.size_insert _ _).trans fits.completed
    · exact fits.completed
  marks := by
    intro index found located
    rw [length_blocks_complete, fits.marks located]

end BitTorrent.Holdings
