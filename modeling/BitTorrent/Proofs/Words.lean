import BitTorrent.Proofs.Layout

/-!
The layout of a torrent, computed in words of 32 and 64 bits. An operation that would leave its word
has no result here, and neither has anything that is computed from it. Of a description whose own
numbers are words, no operation does.
-/

set_option autoImplicit false

namespace BitTorrent

/-! ### Checked arithmetic -/

namespace Word

variable {bound value a b : Nat}

/-- A number that is below the bound of its word. -/
def fit? (bound value : Nat) : Option Nat :=
  if value < bound then some value else none

/-- A difference that is not below zero. -/
def minus? (a b : Nat) : Option Nat :=
  if b ≤ a then some (a - b) else none

/-- A quotient, and one more if there is a remainder. -/
def divCeil? (bound a b : Nat) : Option Nat :=
  if b = 0 then none
  else if 0 < a % b then fit? bound (a / b + 1)
  else some (a / b)

theorem fit?_of_lt (fits : value < bound) : fit? bound value = some value :=
  if_pos fits

theorem minus?_of_le (ordered : b ≤ a) : minus? a b = some (a - b) :=
  if_pos ordered

/-- To round a quotient up, less than a whole divisor is added. -/
theorem add_pred_div (positive : 0 < b) :
    (a + (b - 1)) / b = if 0 < a % b then a / b + 1 else a / b := by
  have parts := Nat.div_add_mod a b
  have small := Nat.mod_lt a positive
  generalize a / b = quotient at parts
  generalize a % b = rest at parts small
  subst parts
  split
  · have next : b * quotient + rest + (b - 1) = b * (quotient + 1) + (rest - 1) := by
      rw [Nat.mul_succ]
      omega
    rw [next, Nat.mul_add_div positive, Nat.div_eq_of_lt (by omega), Nat.add_zero]
  · have same : b * quotient + rest + (b - 1) = b * quotient + (b - 1) := by omega
    rw [same, Nat.mul_add_div positive, Nat.div_eq_of_lt (by omega), Nat.add_zero]

/-- A quotient that is rounded up stays in the word of what is divided. -/
theorem divCeil?_of_lt (positive : 0 < b) (fits : a < bound) :
    divCeil? bound a b = some ((a + (b - 1)) / b) := by
  rw [add_pred_div positive, divCeil?, if_neg (Nat.ne_of_gt positive)]
  split
  · rename_i remains
    -- With a remainder the divisor is not one, so the quotient is less than what is divided.
    have several : 1 < b := by
      have below := Nat.mod_lt a positive
      omega
    have divided : 0 < a := Nat.pos_of_ne_zero fun zero => by simp [zero] at remains
    have smaller : a / b < a := Nat.div_lt_self divided several
    exact fit?_of_lt (by omega)
  · rfl

end Word

/-- Steps that all have a result have their results in order. -/
theorem mapM_eq_some_map {α β : Type} {list : List α} {step : α → Option β} {result : α → β}
    (each : ∀ entry ∈ list, step entry = some (result entry)) :
    list.mapM step = some (list.map result) := by
  induction list with
  | nil => rfl
  | cons entry rest ih =>
    have first := each entry List.mem_cons_self
    have others := ih fun other member => each other (List.mem_cons_of_mem _ member)
    simp only [List.mapM_cons, first, others, Option.bind_eq_bind, Option.bind_some, List.map_cons]
    rfl

/-! ### Blocks -/

namespace Piece

variable {piece : Piece} {number start length : Nat}

/-- A block with its offset in a word. -/
def checkedBlock? (piece : Piece) (number : Nat) : Option Block := do
  let start ← Word.fit? Word.bound32 (number * blockSize)
  let rest ← Word.minus? piece.length start
  some ⟨start, min blockSize rest⟩

/-- The blocks with their number and offsets in words. -/
def checkedBlocks? (piece : Piece) : Option (List Block) := do
  let count ← Word.divCeil? Word.bound32 piece.length blockSize
  (List.range count).mapM piece.checkedBlock?

/-- The bytes that a position and a length within the piece stand for. An end beyond the word of
the two is an answer, no such bytes; only a position in the torrent that leaves its word is not. -/
def checkedSubRange? (piece : Piece) (start length : Nat) : Option (Option ByteRange) :=
  match Word.fit? Word.bound32 (start + length) with
  | none => some none
  | some stop =>
    if stop ≤ piece.length then do
      let offset ← Word.fit? Word.bound64 (piece.offset + start)
      some (some ⟨offset, length⟩)
    else some none

theorem offset_lt (inside : number < piece.blockCount) : number * blockSize < piece.length := by
  obtain ⟨positive, within⟩ := block_within inside
  change number * blockSize + (piece.block number).length ≤ piece.length at within
  omega

theorem checkedBlock?_eq (fits : piece.length < Word.bound32) (inside : number < piece.blockCount) :
    piece.checkedBlock? number = some (piece.block number) := by
  have before := offset_lt inside
  simp only [checkedBlock?, Word.fit?_of_lt (Nat.lt_trans before fits),
    Word.minus?_of_le (Nat.le_of_lt before), Option.bind_eq_bind, Option.bind_some]
  rfl

theorem checkedBlocks?_eq (fits : piece.length < Word.bound32) :
    piece.checkedBlocks? = some piece.blocks := by
  have counted := Word.divCeil?_of_lt (b := blockSize) (by decide) fits
  rw [checkedBlocks?, counted]
  exact mapM_eq_some_map fun number member =>
    checkedBlock?_eq fits (List.mem_range.mp member)

theorem checkedSubRange?_eq (fits : piece.length < Word.bound32)
    (placed : piece.offset + piece.length < Word.bound64) :
    piece.checkedSubRange? start length = some (piece.subRange? start length) := by
  unfold checkedSubRange? subRange? Word.fit?
  by_cases inside : start + length ≤ piece.length
  · have ends : start + length < Word.bound32 := by omega
    have starts : piece.offset + start < Word.bound64 := by omega
    simp only [ends, starts, inside, ↓reduceIte, Option.bind_eq_bind, Option.bind_some]
  · by_cases ends : start + length < Word.bound32 <;> simp only [ends, inside, ↓reduceIte]

end Piece

/-! ### Descriptions -/

namespace Metainfo

variable {info : Metainfo} {files : List FileEntry} {cursor : Nat}

/-- The numbers of a description are words, and so is the end of each of its files. -/
structure InWords (info : Metainfo) : Prop where
  pieceLength : info.pieceLength < Word.bound32
  hashes : info.hashes.length < Word.bound32
  total : info.totalLength < Word.bound64
  files : info.fitsWords = true

/-- The check of the files, with the end of each in a word. -/
def checkedFiles? : Nat → List FileEntry → Option (Except LayoutFault Nat)
  | cursor, [] => some (.ok cursor)
  | cursor, file :: rest =>
    if file.offset = cursor then do
      let stop ← Word.fit? Word.bound64 file.stop
      checkedFiles? stop rest
    else some (.error (.fileGap file.path file.offset cursor))

/-- The check of a description, with the number of pieces and the ends of files in words. -/
def checkedValidate? (info : Metainfo) : Option (Except LayoutFault Unit) :=
  if info.pieceLength = 0 then some (.error .zeroPieceLength)
  else do
    let expected ← Word.divCeil? Word.bound64 info.totalLength info.pieceLength
    let listed ← Word.fit? Word.bound64 info.hashes.length
    if expected ≠ listed then some (.error (.pieceCount expected info.totalLength listed))
    else
      match ← checkedFiles? 0 info.files with
      | .error fault => some (.error fault)
      | .ok covered =>
        if covered = info.totalLength then some (.ok ())
        else some (.error (.coverage covered info.totalLength))

theorem checkedFiles?_eq (fit : files.all (·.stop < Word.bound64) = true) :
    checkedFiles? cursor files = some (checkFiles cursor files) := by
  induction files generalizing cursor with
  | nil => rfl
  | cons file rest ih =>
    simp only [List.all_cons, Bool.and_eq_true, decide_eq_true_eq] at fit
    rw [checkedFiles?, checkFiles]
    split
    · rw [Word.fit?_of_lt fit.1]
      exact ih fit.2
    · rfl

theorem checkedValidate?_eq (words : info.InWords) :
    info.checkedValidate? = some info.validate := by
  unfold checkedValidate? validate
  by_cases zero : info.pieceLength = 0
  · simp only [zero, ↓reduceIte]
  · have expected : Word.divCeil? Word.bound64 info.totalLength info.pieceLength =
        some (chunkCount info.pieceLength info.totalLength) :=
      Word.divCeil?_of_lt (Nat.pos_of_ne_zero zero) words.total
    have listed : info.hashes.length < Word.bound64 :=
      Nat.lt_trans words.hashes (by decide)
    simp only [zero, ↓reduceIte, expected, Word.fit?_of_lt listed, checkedFiles?_eq words.files,
      Option.bind_eq_bind, Option.bind_some]
    split
    · rfl
    · cases checkFiles 0 info.files with
      | error fault => rfl
      | ok covered => exact (apply_ite some _ _ _).symm

/-- A description that passes its check has a positive piece length, and as many digests as it takes
pieces to hold its bytes. -/
theorem pieces_checked (valid : info.validate = .ok ()) :
    0 < info.pieceLength ∧ chunkCount info.pieceLength info.totalLength = info.hashes.length := by
  unfold validate at valid
  dsimp only at valid
  split at valid
  · cases valid
  · rename_i positive
    split at valid
    · cases valid
    · rename_i counted
      exact ⟨Nat.pos_of_ne_zero positive, Decidable.not_not.mp counted⟩

/-- Every piece starts before the end of the bytes. -/
theorem start_lt (valid : info.validate = .ok ()) {index : Nat}
    (listed : index < info.hashes.length) : index * info.pieceLength < info.totalLength := by
  obtain ⟨positive, counted⟩ := pieces_checked valid
  rw [← counted, chunkCount, Nat.lt_iff_add_one_le, Nat.le_div_iff_mul_le positive,
    Nat.succ_mul] at listed
  omega

end Metainfo

/-! ### Torrents -/

namespace Torrent

variable {info : Metainfo}

/-- A piece with its number, offset and length in words. -/
def checkedPiece? (info : Metainfo) (hash : Digest) (index : Nat) : Option Piece := do
  let offset ← Word.fit? Word.bound64 (index * info.pieceLength)
  let rest ← Word.minus? info.totalLength offset
  let length ← Word.fit? Word.bound32 (min info.pieceLength rest)
  let index ← Word.fit? Word.bound32 index
  some ⟨index, hash, offset, length⟩

/-- The pieces with their numbers, offsets and lengths in words. -/
def checkedLayOut? (info : Metainfo) : Option (List Piece) :=
  info.hashes.zipIdx.mapM fun (hash, index) => checkedPiece? info hash index

/-- Lays out a description in words: the torrent, and the blocks of each of its pieces. -/
def checkedOfMetainfo? (info : Metainfo) :
    Option (Except LayoutFault (Torrent × List (List Block))) := do
  match ← info.checkedValidate? with
  | .error fault => some (.error fault)
  | .ok () =>
    let pieces ← checkedLayOut? info
    let blocks ← pieces.mapM Piece.checkedBlocks?
    if pieces.any (·.length = 0) then some (.error .emptyPiece)
    else some (.ok (⟨info.infoHash, info.name, info.pieceLength, info.totalLength, pieces,
      info.files, info.trackers⟩, blocks))

theorem checkedLayOut?_eq (words : info.InWords) (valid : info.validate = .ok ()) :
    checkedLayOut? info = some (layOut info) := by
  refine mapM_eq_some_map fun (hash, index) member => ?_
  have listed : index < info.hashes.length := (List.mem_zipIdx' member).1
  have before := Metainfo.start_lt valid listed
  have short : min info.pieceLength (info.totalLength - index * info.pieceLength) < Word.bound32 :=
    Nat.lt_of_le_of_lt (Nat.min_le_left _ _) words.pieceLength
  simp only [checkedPiece?, Word.fit?_of_lt (Nat.lt_trans before words.total),
    Word.minus?_of_le (Nat.le_of_lt before), Word.fit?_of_lt short,
    Word.fit?_of_lt (Nat.lt_trans listed words.hashes), Option.bind_eq_bind, Option.bind_some]

/-- The layout of a description in words is the layout of the description: nothing overflows. -/
theorem checkedOfMetainfo?_eq (words : info.InWords) :
    checkedOfMetainfo? info =
      some ((ofMetainfo info).map fun torrent => (torrent, torrent.pieces.map Piece.blocks)) := by
  rw [checkedOfMetainfo?, Metainfo.checkedValidate?_eq words, ofMetainfo]
  cases valid : info.validate with
  | error fault => rfl
  | ok _ =>
    have blocks : (layOut info).mapM Piece.checkedBlocks? =
        some ((layOut info).map Piece.blocks) :=
      mapM_eq_some_map fun piece member => by
        obtain ⟨⟨hash, index⟩, -, rfl⟩ := List.mem_map.mp member
        exact Piece.checkedBlocks?_eq
          (Nat.lt_of_le_of_lt (Nat.min_le_left _ _) words.pieceLength)
    simp only [Option.bind_eq_bind, Option.bind_some, checkedLayOut?_eq words valid, blocks]
    split <;> rfl

end Torrent

end BitTorrent
