import BitTorrent.Metainfo

set_option autoImplicit false

namespace BitTorrent

namespace Piece

theorem mem_blocks {piece : Piece} {block : Block} :
    block ∈ piece.blocks ↔ ∃ number < piece.blockCount, piece.block number = block := by
  simp only [blocks, List.mem_map, List.mem_range]

theorem getElem?_blocks (piece : Piece) (number : Nat) :
    piece.blocks[number]? =
      if number < piece.blockCount then some (piece.block number) else none := by
  by_cases inside : number < piece.blockCount <;> simp [blocks, inside]

/-- Every block has a byte, and none leaves the piece. -/
theorem block_within {piece : Piece} {number : Nat} (inside : number < piece.blockCount) :
    0 < (piece.block number).length ∧
      (piece.block number).offset + (piece.block number).length ≤ piece.length := by
  simp only [blockCount, blockSize] at inside
  simp only [block, blockSize]
  omega

theorem blockAt?_block {piece : Piece} {number : Nat} (inside : number < piece.blockCount) :
    piece.blockAt? (piece.block number).offset = some number := by
  have aligned : number * blockSize % blockSize = 0 := Nat.mul_mod_left _ _
  have quotient : number * blockSize / blockSize = number :=
    Nat.mul_div_cancel number (by decide)
  simp only [blockAt?, block, aligned, quotient, inside, and_self, ↓reduceIte]

theorem subRange?_block {piece : Piece} {number : Nat} (inside : number < piece.blockCount) :
    piece.subRange? (piece.block number).offset (piece.block number).length =
      some ⟨piece.offset + (piece.block number).offset, (piece.block number).length⟩ := by
  simp only [subRange?, (block_within inside).2, ↓reduceIte]

theorem subRange?_eq_some {piece : Piece} {start length : Nat} {range : ByteRange} :
    piece.subRange? start length = some range ↔
      start + length ≤ piece.length ∧ range = ⟨piece.offset + start, length⟩ := by
  unfold subRange?
  split
  · rename_i inside
    simp only [inside, true_and, Option.some.injEq, eq_comm]
  · rename_i outside
    simp [outside]

/-- The block that is asked for next is neither fetched nor skipped. -/
theorem nextMissing?_some {piece : Piece} {fetched : List Bool} {skip : Block → Bool}
    {block : Block} (found : piece.nextMissing? fetched skip = some block) :
    ∃ number < piece.blockCount, piece.block number = block ∧
      fetched[number]? = some false ∧ skip block = false := by
  simp only [nextMissing?, Option.map_eq_some_iff] at found
  obtain ⟨⟨chosen, done⟩, found, rfl⟩ := found
  have wanted := List.find?_some found
  simp only [Bool.and_eq_true, Bool.not_eq_true'] at wanted
  obtain ⟨number, inside, same⟩ := List.getElem_of_mem (List.mem_of_find?_eq_some found)
  have located : (piece.blocks.zip fetched)[number]? = some (chosen, done) := by
    rw [List.getElem?_eq_getElem inside, same]
  rw [List.getElem?_zip_eq_some, getElem?_blocks] at located
  by_cases counted : number < piece.blockCount
  · simp only [counted, ↓reduceIte, Option.some.injEq] at located
    exact ⟨number, counted, located.1, wanted.1 ▸ located.2, wanted.2⟩
  · simp [counted] at located

end Piece

namespace Torrent

/-- The pieces stand one behind the other in the order of their indices, none of them empty and
none longer than the piece length. -/
structure Tiled (torrent : Torrent) : Prop where
  index : ∀ {position : Nat} {piece : Piece},
    torrent.piece? position = some piece → piece.index = position
  offset : ∀ {position : Nat} {piece : Piece},
    torrent.piece? position = some piece → piece.offset = position * torrent.pieceLength
  positive : ∀ {position : Nat} {piece : Piece},
    torrent.piece? position = some piece → 0 < piece.length
  bounded : ∀ {position : Nat} {piece : Piece},
    torrent.piece? position = some piece → piece.length ≤ torrent.pieceLength
  inside : ∀ {position : Nat} {piece : Piece},
    torrent.piece? position = some piece → piece.offset + piece.length ≤ torrent.totalLength

theorem getElem?_layOut (info : Metainfo) (position : Nat) :
    (layOut info)[position]? = info.hashes[position]?.map fun hash =>
      ⟨position, hash, position * info.pieceLength,
        min info.pieceLength (info.totalLength - position * info.pieceLength)⟩ := by
  simp [layOut, List.getElem?_zipIdx, Function.comp_def]

theorem ofMetainfo_tiled {info : Metainfo} {torrent : Torrent}
    (built : ofMetainfo info = .ok torrent) : torrent.Tiled := by
  unfold ofMetainfo at built
  split at built
  · cases built
  · dsimp only at built
    split at built
    · cases built
    · rename_i nonempty
      have located : ∀ {position : Nat} {piece : Piece}, torrent.piece? position = some piece →
          ∃ hash, piece = ⟨position, hash, position * torrent.pieceLength,
            min torrent.pieceLength (torrent.totalLength - position * torrent.pieceLength)⟩ ∧
            0 < piece.length := by
        intro position piece found
        cases built
        have member := List.mem_of_getElem? found
        have positive : piece.length ≠ 0 := by
          intro zero
          exact nonempty (List.any_eq_true.mpr ⟨piece, member, by simpa using zero⟩)
        change (layOut info)[position]? = some piece at found
        rw [getElem?_layOut, Option.map_eq_some_iff] at found
        obtain ⟨hash, _, rfl⟩ := found
        exact ⟨hash, rfl, by omega⟩
      constructor
      all_goals
        intro position piece found
        obtain ⟨hash, rfl, positive⟩ := located found
        simp only at positive ⊢
      · exact positive
      · omega
      · omega

/-- Bytes of different pieces lie apart. -/
theorem Tiled.apart {torrent : Torrent} (tiled : torrent.Tiled) {first second : Nat}
    {left right : Piece} (foundLeft : torrent.piece? first = some left)
    (foundRight : torrent.piece? second = some right) (different : first ≠ second) :
    left.offset + left.length ≤ right.offset ∨ right.offset + right.length ≤ left.offset := by
  have leftOffset := tiled.offset foundLeft
  have rightOffset := tiled.offset foundRight
  have leftBound := tiled.bounded foundLeft
  have rightBound := tiled.bounded foundRight
  rcases Nat.lt_or_gt_of_ne different with before | behind
  · have step : (first + 1) * torrent.pieceLength ≤ second * torrent.pieceLength :=
      Nat.mul_le_mul_right _ before
    rw [Nat.succ_mul] at step
    omega
  · have step : (second + 1) * torrent.pieceLength ≤ first * torrent.pieceLength :=
      Nat.mul_le_mul_right _ behind
    rw [Nat.succ_mul] at step
    omega

end Torrent

end BitTorrent
