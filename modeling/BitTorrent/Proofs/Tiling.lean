import Mathlib.Algebra.Order.Floor.Div
import BitTorrent.Proofs.Segments
import BitTorrent.Proofs.Words

/-!
What a description must be like to be laid out, and that the layout leaves out no byte: the pieces
tile the bytes of the torrent, and the blocks of a piece those of the piece.
-/

set_option autoImplicit false

namespace BitTorrent

/-! ### Ranges that follow one another -/

/-- The bytes of a file. -/
def FileEntry.range (file : FileEntry) : ByteRange :=
  ⟨file.offset, file.length⟩

/-- The bytes of a block, as positions of its piece. -/
def Block.range (block : Block) : ByteRange :=
  ⟨block.offset, block.length⟩

namespace ByteRange

variable {size total count start middle stop : Nat} {front back ranges : List ByteRange}

/-- The ranges follow one another from `start` to `stop`. -/
def Tile : Nat → List ByteRange → Nat → Prop
  | start, [], stop => start = stop
  | start, range :: rest, stop => range.offset = start ∧ Tile range.stop rest stop

/-- All ranges but the last have the same size, and the last has a byte and no more than that. -/
structure Even (size : Nat) (ranges : List ByteRange) : Prop where
  full : ∀ range ∈ ranges.dropLast, range.length = size
  last : ∀ range ∈ ranges.getLast?, 1 ≤ range.length ∧ range.length ≤ size

theorem tile_append (first : Tile start front middle) (second : Tile middle back stop) :
    Tile start (front ++ back) stop := by
  induction front generalizing start with
  | nil =>
    obtain rfl : start = middle := first
    exact second
  | cons range rest ih => exact ⟨first.1, ih first.2⟩

/-- The range with a given number, when `total` bytes are cut into ranges of one size. -/
def slice (size total number : Nat) : ByteRange :=
  ⟨number * size, min size (total - number * size)⟩

/-- The ranges of one size that `total` bytes are cut into. -/
def slices (size total : Nat) : List ByteRange :=
  (List.range (Metainfo.chunkCount size total)).map (slice size total)

theorem lt_chunkCount (positive : 0 < size) :
    count < Metainfo.chunkCount size total ↔ count * size < total := by
  rw [Metainfo.chunkCount, Nat.lt_iff_add_one_le, Nat.le_div_iff_mul_le positive, Nat.succ_mul]
  omega

theorem tile_range (positive : 0 < size) (counted : count ≤ Metainfo.chunkCount size total) :
    Tile 0 ((List.range count).map (slice size total)) (min total (count * size)) := by
  -- On the number of ranges and not on their list: only the number says where the last one starts.
  induction count with
  | zero =>
    rw [Nat.zero_mul, Nat.min_zero]
    rfl
  | succ count ih =>
    have before : count * size < total := (lt_chunkCount positive).mp counted
    rw [List.range_succ, List.map_append]
    refine tile_append (ih (Nat.le_of_lt counted)) ⟨?_, ?_⟩
    · exact (Nat.min_eq_right (Nat.le_of_lt before)).symm
    · change count * size + min size (total - count * size) = min total ((count + 1) * size)
      rw [Nat.succ_mul]
      omega

theorem tile_slices (positive : 0 < size) : Tile 0 (slices size total) total := by
  have tiled := @tile_range size total _ positive (Nat.le_refl _)
  have covered : total ≤ Metainfo.chunkCount size total * size :=
    Nat.not_lt.mp fun short => Nat.lt_irrefl _ ((lt_chunkCount positive).mpr short)
  rwa [Nat.min_eq_left covered] at tiled

theorem even_slices (positive : 0 < size) : Even size (slices size total) := by
  unfold slices
  cases counted : Metainfo.chunkCount size total with
  | zero => exact ⟨nofun, nofun⟩
  | succ count =>
    rw [List.range_succ, List.map_append, List.map_singleton]
    have before : count * size < total :=
      (lt_chunkCount positive).mp (counted ▸ Nat.lt_succ_self count)
    constructor
    · intro range member
      rw [List.dropLast_concat] at member
      obtain ⟨number, smaller, rfl⟩ := List.mem_map.mp member
      have next : (number + 1) * size ≤ count * size :=
        Nat.mul_le_mul_right size (List.mem_range.mp smaller)
      rw [Nat.succ_mul] at next
      change min size (total - number * size) = size
      omega
    · intro range member
      rw [List.getLast?_concat] at member
      obtain rfl : slice size total count = range := Option.some.inj member
      change 1 ≤ min size (total - count * size) ∧ min size (total - count * size) ≤ size
      omega

end ByteRange

/-! ### Blocks of a piece -/

namespace Piece

variable {piece : Piece}

/-- The blocks of a piece leave out none of its bytes, and positions are looked up among them and
among its bytes. -/
structure Divided (piece : Piece) : Prop where
  tile : ByteRange.Tile 0 (piece.blocks.map Block.range) piece.length
  even : ByteRange.Even blockSize (piece.blocks.map Block.range)
  starts : ∀ start,
    (∃ number, piece.blockAt? start = some number) ↔ ∃ block ∈ piece.blocks, block.offset = start
  found : ∀ start number, piece.blockAt? start = some number →
    ∃ block, piece.blocks[number]? = some block ∧ block.offset = start
  words : ∀ start length,
    piece.checkedSubRange? start length = some (piece.subRange? start length)
  inside : ∀ start length,
    (∃ range, piece.subRange? start length = some range) ↔ start + length ≤ piece.length
  within : ∀ start length range, piece.subRange? start length = some range →
    range = ⟨piece.offset + start, length⟩ ∧
      piece.range.offset ≤ range.offset ∧ range.stop ≤ piece.range.stop

theorem blocks_range (piece : Piece) :
    piece.blocks.map Block.range = ByteRange.slices blockSize piece.length := by
  rw [blocks, List.map_map]
  rfl

theorem blockAt?_eq_some {start number : Nat} (found : piece.blockAt? start = some number) :
    number < piece.blockCount ∧ (piece.block number).offset = start := by
  unfold blockAt? at found
  split at found
  · rename_i aligned
    obtain rfl : start / blockSize = number := Option.some.inj found
    exact ⟨aligned.2, Nat.div_mul_cancel (Nat.dvd_of_mod_eq_zero aligned.1)⟩
  · cases found

theorem divided (fits : piece.length < Word.bound32)
    (placed : piece.offset + piece.length < Word.bound64) : piece.Divided where
  tile := piece.blocks_range ▸ ByteRange.tile_slices (by decide)
  even := piece.blocks_range ▸ ByteRange.even_slices (by decide)
  starts start := by
    constructor
    · rintro ⟨number, found⟩
      obtain ⟨inside, starts⟩ := blockAt?_eq_some found
      exact ⟨piece.block number, mem_blocks.mpr ⟨number, inside, rfl⟩, starts⟩
    · rintro ⟨block, member, rfl⟩
      obtain ⟨number, inside, rfl⟩ := mem_blocks.mp member
      exact ⟨number, blockAt?_block inside⟩
  found start number found := by
    obtain ⟨inside, starts⟩ := blockAt?_eq_some found
    exact ⟨piece.block number, by rw [getElem?_blocks, if_pos inside], starts⟩
  words start length := checkedSubRange?_eq fits placed
  inside start length := by simp only [subRange?_eq_some, exists_and_left, exists_eq, and_true]
  within start length range found := by
    obtain ⟨inside, rfl⟩ := subRange?_eq_some.mp found
    refine ⟨rfl, Nat.le_add_right _ _, ?_⟩
    change piece.offset + start + length ≤ piece.offset + piece.length
    omega

end Piece

/-! ### Pieces of a torrent -/

namespace Metainfo

variable {info : Metainfo} {files : List FileEntry} {cursor covered : Nat}

theorem chunkCount_eq (positive : 0 < info.pieceLength) :
    chunkCount info.pieceLength info.totalLength = info.totalLength ⌈/⌉ info.pieceLength := by
  rw [Nat.ceilDiv_eq_add_pred_div, chunkCount, Nat.add_sub_assoc positive]

theorem checkFiles_eq_ok :
    checkFiles cursor files = .ok covered ↔
      ByteRange.Tile cursor (files.map FileEntry.range) covered := by
  induction files generalizing cursor with
  | nil => simp only [checkFiles, Except.ok.injEq, List.map_nil, ByteRange.Tile]
  | cons file rest ih =>
    rw [checkFiles, List.map_cons, ByteRange.Tile, ← ih]
    by_cases follows : file.offset = cursor
    · obtain rfl := follows
      simp only [↓reduceIte, FileEntry.range, true_and]
      rfl
    · simp only [follows, ↓reduceIte, FileEntry.range, false_and, reduceCtorEq]

/-- A description passes its check when its pieces hold its bytes and its files follow one another
to the end of them. -/
theorem validate_eq_ok :
    info.validate = .ok () ↔
      0 < info.pieceLength ∧ info.hashes.length = info.totalLength ⌈/⌉ info.pieceLength ∧
        ByteRange.Tile 0 (info.files.map FileEntry.range) info.totalLength := by
  constructor
  · intro valid
    obtain ⟨positive, counted⟩ := pieces_checked valid
    exact ⟨positive, counted ▸ chunkCount_eq positive, checkFiles_eq_ok.mp (files_checked valid)⟩
  · rintro ⟨positive, counted, follow⟩
    rw [← chunkCount_eq positive] at counted
    simp only [validate, Nat.ne_of_gt positive, counted, checkFiles_eq_ok.mpr follow, ne_eq,
      not_true_eq_false, ↓reduceIte]

theorem checkFiles_ne_emptyPiece : checkFiles cursor files ≠ .error .emptyPiece := by
  induction files generalizing cursor with
  | nil => simp only [checkFiles, ne_eq, reduceCtorEq, not_false_eq_true]
  | cons file rest ih =>
    rw [checkFiles]
    split
    · exact ih
    · simp only [ne_eq, Except.error.injEq, reduceCtorEq, not_false_eq_true]

/-- The check of a description looks at no piece. -/
theorem validate_ne_emptyPiece : info.validate ≠ .error .emptyPiece := by
  unfold validate
  dsimp only
  split
  · exact nofun
  · split
    · exact nofun
    · split
      · rename_i fault refused
        intro same
        obtain rfl : fault = .emptyPiece := Except.error.inj same
        exact checkFiles_ne_emptyPiece refused
      · split <;> exact nofun

end Metainfo

namespace Torrent

variable {info : Metainfo}

/-- The pieces of a torrent leave out none of its bytes, and the blocks of a piece none of those of
the piece. -/
structure LaidOut (torrent : Torrent) (info : Metainfo) : Prop where
  numbers : torrent.pieces.map Piece.index = List.range torrent.pieceCount
  hashes : torrent.pieces.map Piece.hash = info.hashes
  tile : ByteRange.Tile 0 (torrent.pieces.map Piece.range) info.totalLength
  even : ByteRange.Even info.pieceLength (torrent.pieces.map Piece.range)
  divided : ∀ piece ∈ torrent.pieces, piece.Divided

theorem layOut_range (valid : info.validate = .ok ()) :
    (layOut info).map Piece.range = ByteRange.slices info.pieceLength info.totalLength := by
  obtain ⟨positive, counted⟩ := Metainfo.pieces_checked valid
  rw [ByteRange.slices, counted, List.range_eq_range', ← List.zipIdx_map_snd, layOut, List.map_map,
    List.map_map]
  rfl

/-- None of the pieces of a description that passes its check is empty. -/
theorem layOut_positive (valid : info.validate = .ok ()) {piece : Piece}
    (member : piece ∈ layOut info) : 0 < piece.length := by
  obtain ⟨⟨hash, index⟩, listed, rfl⟩ := List.mem_map.mp member
  have before := Metainfo.start_lt valid (List.mem_zipIdx' listed).1
  have positive := (Metainfo.pieces_checked valid).1
  change 0 < min info.pieceLength (info.totalLength - index * info.pieceLength)
  omega

theorem ofMetainfo_eq (valid : info.validate = .ok ()) :
    ofMetainfo info = .ok ⟨info.infoHash, info.name, info.pieceLength, info.totalLength,
      layOut info, info.files, info.trackers⟩ := by
  have filled : (layOut info).any (·.length = 0) = false := by
    rw [List.any_eq_false]
    intro piece member
    have positive := layOut_positive valid member
    simp only [decide_eq_true_eq]
    omega
  simp only [ofMetainfo, valid, filled, Bool.false_eq_true, ↓reduceIte]

/-- A description is laid out exactly if it passes its check. -/
theorem ofMetainfo_ok :
    (∃ torrent, ofMetainfo info = .ok torrent) ↔ info.validate = .ok () := by
  constructor
  · rintro ⟨torrent, built⟩
    cases checked : info.validate with
    | ok _ => rfl
    | error fault =>
      simp only [ofMetainfo, checked, reduceCtorEq] at built
  · intro valid
    exact ⟨_, ofMetainfo_eq valid⟩

theorem ofMetainfo_filled (info : Metainfo) : ofMetainfo info ≠ .error .emptyPiece := by
  intro empty
  cases checked : info.validate with
  | ok _ =>
    rw [ofMetainfo_eq checked] at empty
    cases empty
  | error fault =>
    simp only [ofMetainfo, checked, Except.error.injEq] at empty
    exact Metainfo.validate_ne_emptyPiece (empty ▸ checked)

theorem laidOut (words : info.InWords) (valid : info.validate = .ok ()) {torrent : Torrent}
    (built : ofMetainfo info = .ok torrent) : torrent.LaidOut info := by
  obtain ⟨positive, -⟩ := Metainfo.pieces_checked valid
  rw [ofMetainfo_eq valid] at built
  cases built
  constructor
  · change (layOut info).map Piece.index = List.range (layOut info).length
    rw [layOut, List.map_map, List.length_map, List.length_zipIdx, List.range_eq_range',
      ← List.zipIdx_map_snd]
    rfl
  · change (layOut info).map Piece.hash = info.hashes
    rw [layOut, List.map_map]
    exact List.zipIdx_map_fst 0 info.hashes
  · exact layOut_range valid ▸ ByteRange.tile_slices positive
  · exact layOut_range valid ▸ ByteRange.even_slices positive
  · intro piece member
    obtain ⟨⟨hash, index⟩, listed, rfl⟩ := List.mem_map.mp member
    have before := Metainfo.start_lt valid (List.mem_zipIdx' listed).1
    have short := words.pieceLength
    have bounded := words.total
    exact Piece.divided (by dsimp only; omega) (by dsimp only; omega)

/-- A description in words is laid out exactly if its piece length is positive, it has a digest for
each piece that its bytes fill, and its files follow one another from the first byte to the last. No
piece is ever found empty, and no number of the layout leaves its word. Of the layout, pieces and
blocks tile the bytes in order, block starts are exactly what a block is found at, and a range is
given exactly for what stays inside of a piece. -/
theorem layout_tiles (words : info.InWords) :
    ((∃ torrent, ofMetainfo info = .ok torrent) ↔
      0 < info.pieceLength ∧ info.hashes.length = info.totalLength ⌈/⌉ info.pieceLength ∧
        ByteRange.Tile 0 (info.files.map FileEntry.range) info.totalLength) ∧
    ofMetainfo info ≠ .error .emptyPiece ∧
    checkedOfMetainfo? info =
      some ((ofMetainfo info).map fun torrent => (torrent, torrent.pieces.map Piece.blocks)) ∧
    ∀ torrent, ofMetainfo info = .ok torrent → torrent.LaidOut info := by
  refine ⟨?_, ?_, checkedOfMetainfo?_eq words, ?_⟩
  · rw [← Metainfo.validate_eq_ok, ofMetainfo_ok]
  · exact ofMetainfo_filled info
  · intro torrent built
    exact laidOut words (ofMetainfo_ok.mp ⟨torrent, built⟩) built

/-- Two files that meet inside of a piece, and a last piece of one byte. -/
def uneven : Metainfo :=
  .ofFiles (.replicate 20 0) "uneven" 20000 (List.replicate 3 (.replicate 20 0))
    [("uneven/first", 25000), ("uneven/second", 15001)]

theorem layout_tiles_uneven :
    uneven.InWords ∧ ∃ torrent, ofMetainfo uneven = .ok torrent ∧ torrent.LaidOut uneven := by
  have words : uneven.InWords := ⟨by decide, by decide, by decide, by decide⟩
  obtain ⟨built, -, -, laidOut⟩ := layout_tiles words
  obtain ⟨torrent, built⟩ := built.mpr ⟨by decide, by decide, rfl, rfl, rfl⟩
  exact ⟨words, torrent, built, laidOut torrent built⟩

end Torrent

end BitTorrent
