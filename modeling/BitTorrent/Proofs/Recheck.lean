import BitTorrent.Proofs.Backed
import BitTorrent.Proofs.Content
import BitTorrent.Proofs.Frame
import BitTorrent.Proofs.Members
import BitTorrent.Proofs.Tiling
import BitTorrent.Proofs.Verified
import BitTorrent.Transfer

/-!
What a recheck finds: the pieces that the store holds intact, all of them and no others. From the
content that a torrent was made of it finds every piece.
-/

set_option autoImplicit false

namespace BitTorrent

/-! ### Completing several pieces -/

namespace Holdings

variable {holdings : Holdings}

/-- Completes pieces one after the other. -/
def completeAll (holdings : Holdings) (pieces : List Nat) : Holdings :=
  pieces.foldl (fun holdings piece => (holdings.complete piece).1) holdings

theorem completeAll_cons (holdings : Holdings) (piece : Nat) (rest : List Nat) :
    holdings.completeAll (piece :: rest) = (holdings.complete piece).1.completeAll rest := rfl

theorem has_completeAll (holdings : Holdings) (pieces : List Nat) (other : Nat) :
    (holdings.completeAll pieces).has other = true ↔
      holdings.has other = true ∨ (other ∈ pieces ∧ other < holdings.completed.size) := by
  induction pieces generalizing holdings with
  | nil => simp only [completeAll, List.foldl_nil, List.not_mem_nil, false_and, or_false]
  | cons piece rest ih =>
    rw [completeAll_cons, ih, has_complete, size_complete, Bool.or_eq_true, Bool.and_eq_true,
      decide_eq_true_eq, decide_eq_true_eq, List.mem_cons, or_assoc, ← or_and_right,
      @eq_comm _ piece]

theorem blocks_complete {piece : Nat} (inside : piece < holdings.completed.size) (other : Nat) :
    (holdings.complete piece).1.blocks other =
      if piece = other then (holdings.blocks other).map fun _ => true
      else holdings.blocks other := by
  rw [complete, if_pos inside]
  exact blocks_markAll holdings piece other true

/-- The pieces have all their blocks marked, and no other block is touched. -/
theorem blocks_completeAll {pieces : List Nat}
    (inside : ∀ piece ∈ pieces, piece < holdings.completed.size) (other : Nat) :
    (holdings.completeAll pieces).blocks other =
      if other ∈ pieces then (holdings.blocks other).map fun _ => true
      else holdings.blocks other := by
  induction pieces generalizing holdings with
  | nil => simp only [completeAll, List.foldl_nil, List.not_mem_nil, ↓reduceIte]
  | cons piece rest ih =>
    have later : ∀ piece' ∈ rest, piece' < (holdings.complete piece).1.completed.size := by
      intro next member
      rw [size_complete]
      exact inside next (List.mem_cons_of_mem _ member)
    rw [completeAll_cons, ih later, blocks_complete (inside piece List.mem_cons_self)]
    by_cases same : piece = other
    · subst same
      simp only [List.mem_cons, true_or, ↓reduceIte, List.map_map, Function.comp_def, ite_self]
    · simp only [List.mem_cons, same, Ne.symm same, false_or, ↓reduceIte]

end Holdings

/-! ### The pieces that are found -/

/-- The bytes of a piece can be read, and match its hash. -/
def MemoryStore.confirms (store : MemoryStore) (piece : Piece) : Bool :=
  match store.checksum piece.range with
  | .ok digest => digest = piece.hash
  | .error _ => false

theorem MemoryStore.readable_of_read {store : MemoryStore} {range : ByteRange} {data : Bytes}
    (success : store.read range = .ok data) : store.failReads = none := by
  unfold read at success
  split at success
  · cases success
  · assumption

theorem MemoryStore.checksum_eq_hash {store : MemoryStore} {piece : Piece}
    (positive : 0 < piece.length) :
    store.checksum piece.range = .ok piece.hash ↔
      store.failReads = none ∧ ∃ content, store.Keeps piece content := by
  constructor
  · intro hashed
    obtain ⟨content, sized, -, held, intact⟩ := checksum_ok hashed
    refine ⟨?_, content, sized, held, intact⟩
    unfold checksum at hashed
    cases read : store.read piece.range with
    | ok data => exact readable_of_read read
    | error fault =>
      rw [read] at hashed
      cases hashed
  · rintro ⟨readable, content, kept⟩
    have sized : content.length = piece.range.length := kept.sized
    rw [← kept.intact]
    exact Holds.checksum kept.held sized positive readable

theorem MemoryStore.confirms_iff {store : MemoryStore} {piece : Piece} :
    store.confirms piece = true ↔ store.checksum piece.range = .ok piece.hash := by
  unfold confirms
  cases store.checksum piece.range with
  | ok digest => rw [decide_eq_true_eq, Except.ok.injEq]
  | error fault => simp only [Bool.false_eq_true, reduceCtorEq]

namespace Download

variable {download : Download} {store : MemoryStore}

theorem recheckPiece_eq (store : MemoryStore) (state : Download × Nat) (piece : Piece) :
    recheckPiece store state piece =
      if store.confirms piece then ((state.1.complete piece.index).1, state.2 + 1) else state := by
  unfold recheckPiece MemoryStore.confirms
  cases store.checksum piece.range with
  | ok digest => simp only [decide_eq_true_eq]
  | error fault => rfl

/-- A recheck completes the pieces that are confirmed, and counts them. -/
theorem foldl_recheckPiece (store : MemoryStore) (pieces : List Piece) (download : Download)
    (count : Nat) :
    let found := pieces.filter store.confirms
    pieces.foldl (recheckPiece store) (download, count) =
      ({ download with holdings := download.holdings.completeAll (found.map Piece.index) },
        count + found.length) := by
  induction pieces generalizing download count with
  | nil => rfl
  | cons piece rest ih =>
    dsimp only at ih ⊢
    rw [List.foldl_cons, recheckPiece_eq]
    by_cases confirmed : store.confirms piece = true
    · rw [if_pos confirmed, ih, List.filter_cons_of_pos confirmed, List.map_cons, List.length_cons,
        Holdings.completeAll_cons]
      have counted : count + 1 + (rest.filter store.confirms).length =
          count + ((rest.filter store.confirms).length + 1) := by omega
      rw [counted]
      rfl
    · rw [if_neg confirmed, ih, List.filter_cons_of_neg confirmed]

end Download

/-- What a recheck comes to: the pieces that are `found` are those that the store can be read for
and holds intact. They are counted, and are complete besides those that were before. All their
blocks are marked, and no other block is touched; neither is anything else. -/
structure Transfer.Rechecked (transfer : Transfer) (found : Finset Nat) (after : Transfer)
    (count : Nat) : Prop where
  intact : ∀ index, index ∈ found ↔ transfer.store.failReads = none ∧ ∃ piece content,
    transfer.download.torrent.piece? index = some piece ∧ transfer.store.Keeps piece content
  counted : count = found.card
  completed : after.download.holdings.completed.members =
    transfer.download.holdings.completed.members ∪ found
  marks : ∀ index, after.download.holdings.blocks index =
    if index ∈ found then (transfer.download.holdings.blocks index).map fun _ => true
    else transfer.download.holdings.blocks index
  inFlight : after.download.inFlight = transfer.download.inFlight
  store : after.store = transfer.store
  rest : after = { transfer with
    download := { transfer.download with holdings := after.download.holdings } }

namespace Torrent

variable {torrent : Torrent}

theorem Tiled.found (tiled : torrent.Tiled) {piece : Piece} (member : piece ∈ torrent.pieces) :
    torrent.piece? piece.index = some piece := by
  obtain ⟨position, located⟩ := List.mem_iff_getElem?.mp member
  rw [tiled.index located]
  exact located

theorem Tiled.indices (tiled : torrent.Tiled) :
    torrent.pieces.map Piece.index = List.range torrent.pieceCount := by
  apply List.ext_getElem
  · rw [List.length_map, List.length_range, pieceCount]
  · intro position inside _
    rw [List.getElem_map, List.getElem_range]
    rw [List.length_map] at inside
    exact tiled.index (List.getElem?_eq_getElem inside)

/-- The numbers of the pieces that a store can be read for and holds intact. -/
def confirmed (torrent : Torrent) (store : MemoryStore) : List Nat :=
  (torrent.pieces.filter store.confirms).map Piece.index

theorem Tiled.mem_confirmed (tiled : torrent.Tiled) {store : MemoryStore} {index : Nat} :
    index ∈ torrent.confirmed store ↔ store.failReads = none ∧ ∃ piece content,
      torrent.piece? index = some piece ∧ store.Keeps piece content := by
  simp only [confirmed, List.mem_map, List.mem_filter, MemoryStore.confirms_iff]
  constructor
  · rintro ⟨piece, ⟨member, hashed⟩, rfl⟩
    have located := tiled.found member
    obtain ⟨readable, content, kept⟩ :=
      (MemoryStore.checksum_eq_hash (tiled.positive located)).mp hashed
    exact ⟨readable, piece, content, located, kept⟩
  · rintro ⟨readable, piece, content, located, kept⟩
    have hashed := (MemoryStore.checksum_eq_hash (tiled.positive located)).mpr
      ⟨readable, content, kept⟩
    exact ⟨piece, ⟨List.mem_of_getElem? located, hashed⟩, tiled.index located⟩

end Torrent

namespace Transfer

variable {transfer : Transfer}

theorem recheck_rechecked (tiled : transfer.download.torrent.Tiled)
    (sized : transfer.download.holdings.completed.size = transfer.download.torrent.pieceCount) :
    transfer.Rechecked (transfer.download.torrent.confirmed transfer.store).toFinset
      transfer.recheck.1 transfer.recheck.2 := by
  have rechecked := Download.foldl_recheckPiece transfer.store transfer.download.torrent.pieces
    transfer.download 0
  have inside : ∀ index ∈ transfer.download.torrent.confirmed transfer.store,
      index < transfer.download.holdings.completed.size := by
    intro index member
    obtain ⟨-, piece, -, located, -⟩ := tiled.mem_confirmed.mp member
    rw [sized]
    exact (List.getElem?_eq_some_iff.mp located).1
  have same : transfer.recheck = (
      { transfer with download := { transfer.download with
          holdings := transfer.download.holdings.completeAll
            (transfer.download.torrent.confirmed transfer.store) } },
      (transfer.download.torrent.confirmed transfer.store).length) := by
    rw [recheck, Download.recheck, rechecked, Torrent.confirmed, List.length_map, Nat.zero_add]
  rw [same]
  constructor
  · intro index
    rw [List.mem_toFinset, tiled.mem_confirmed]
  · have once : (transfer.download.torrent.confirmed transfer.store).Nodup :=
      (List.filter_sublist.map _).nodup (tiled.indices ▸ List.nodup_range)
    exact (List.toFinset_card_of_nodup once).symm
  · ext index
    rw [Finset.mem_union, Bitfield.mem_members, Bitfield.mem_members, List.mem_toFinset]
    exact (Holdings.has_completeAll _ _ index).trans
      (or_congr_right (and_iff_left_of_imp (inside index)))
  · intro index
    simp only [List.mem_toFinset]
    exact Holdings.blocks_completeAll inside index
  · rfl
  · rfl
  · rfl

end Transfer

/-! ### Content -/

theorem ByteRange.Tile.stop_le {start stop : Nat} {ranges : List ByteRange}
    (tiled : Tile start ranges stop) : start ≤ stop ∧ ∀ range ∈ ranges, range.stop ≤ stop := by
  induction ranges generalizing start with
  | nil => exact ⟨Nat.le_of_eq tiled, nofun⟩
  | cons range rest ih =>
    obtain ⟨rfl, later⟩ := tiled
    obtain ⟨before, inside⟩ := ih later
    refine ⟨Nat.le_trans (Nat.le_add_right _ _) before, fun other member => ?_⟩
    rcases List.mem_cons.mp member with rfl | behind
    · exact before
    · exact inside other behind

namespace Metainfo

variable {pieceLength : Nat}

theorem length_chunks (size count : Nat) (bytes : Bytes) :
    (chunks size count bytes).length = count := by
  induction count generalizing bytes with
  | zero => rfl
  | succ count ih => rw [chunks, List.length_cons, ih]

theorem tile_placeFiles (offset : Nat) (files : List (String × Nat)) :
    ByteRange.Tile offset ((placeFiles offset files).map FileEntry.range)
      (offset + lengthSum files) := by
  induction files generalizing offset with
  | nil => rfl
  | cons file rest ih =>
    have later := ih (offset + file.2)
    rw [Nat.add_assoc] at later
    exact ⟨rfl, later⟩

/-- Of files that follow one another none ends behind the last one. -/
theorem fitsWords_ofFiles (infoHash : Digest) (name : String) (hashes : List Digest)
    {files : List (String × Nat)} (words : lengthSum files < Word.bound64) :
    (ofFiles infoHash name pieceLength hashes files).fitsWords = true := by
  have placed := tile_placeFiles 0 files
  rw [Nat.zero_add] at placed
  rw [fitsWords, List.all_eq_true]
  intro file member
  have inside := placed.stop_le.2 _ (List.mem_map_of_mem member)
  exact decide_eq_true (Nat.lt_of_le_of_lt inside words)

/-- What is made from content passes its check, and its files end in words if the content does. If
the pieces are counted in words as well then all its numbers are. -/
theorem ofContent?_valid (name : String) (files : List (String × Bytes))
    (positive : 0 < pieceLength) :
    ∃ info, ofContent? name pieceLength files = some info ∧ info.validate = .ok () ∧
      ((files.flatMap (·.2)).length < Word.bound64 → info.fitsWords = true ∧
        (pieceLength < Word.bound32 → info.hashes.length < Word.bound32 → info.InWords)) := by
  have placed := tile_placeFiles 0 (files.map fun file => (file.1, file.2.length))
  rw [Nat.zero_add] at placed
  refine ⟨_, if_neg (Nat.ne_of_gt positive), validate_eq_ok.mpr ⟨positive, ?_, placed⟩, ?_⟩
  · rw [← chunkCount_eq positive]
    simp only [ofFiles, List.length_map, length_chunks, lengthSum_files]
  · intro words
    rw [← lengthSum_files] at words
    exact ⟨fitsWords_ofFiles _ _ _ words,
      fun short few => ⟨short, few, words, fitsWords_ofFiles _ _ _ words⟩⟩

end Metainfo

theorem Torrent.Describes.keeps {torrent : Torrent} {content : Bytes}
    (describes : torrent.Describes content) {index : Nat} {piece : Piece}
    (located : torrent.piece? index = some piece) :
    (MemoryStore.ofContent content).Keeps piece (piece.range.cut content) where
  sized := ByteRange.length_cut (describes.inside located)
  held := by
    intro position inside
    rw [ByteRange.length_cut (describes.inside located)] at inside
    rw [ByteRange.getElem?_cut _ _ inside, MemoryStore.byte?, MemoryStore.ofContent,
      List.getElem?_map]
    change (content[piece.offset + position]?.map some).join = content[piece.offset + position]?
    cases content[piece.offset + position]? <;> rfl
  intact := (describes.hashed located).symm

namespace Holdings

theorem unmarked_all (pieces : List Piece) (count : Nat) :
    unmarked pieces (List.replicate count true) = 0 := by
  induction pieces generalizing count with
  | nil => cases count <;> rfl
  | cons piece rest ih =>
    cases count with
    | zero => rfl
    | succ count => simp only [List.replicate_succ, unmarked, ↓reduceIte, ih, Nat.zero_add]

theorem left_of_isComplete {holdings : Holdings} (torrent : Torrent)
    (complete : holdings.isComplete = true) : holdings.left torrent = 0 := by
  have marks : holdings.completed.bits = List.replicate holdings.completed.size true := by
    refine List.eq_replicate_iff.mpr ⟨?_, ?_⟩
    · rw [Bitfield.bits, List.length_map, List.length_range]
    · rw [Bitfield.bits, List.forall_mem_map]
      intro piece member
      exact (Bitfield.isFull_iff _).mp complete piece (List.mem_range.mp member)
  rw [left, marks, unmarked_all]

end Holdings

/-- In its content a recheck finds all of a torrent. -/
theorem Transfer.recheck_content {transfer : Transfer} {content : Bytes}
    (describes : transfer.download.torrent.Describes content)
    (sized : transfer.download.holdings.completed.size = transfer.download.torrent.pieceCount)
    (full : transfer.store = .ofContent content) :
    transfer.recheck.2 = transfer.download.torrent.pieceCount ∧
      transfer.recheck.1.download.holdings.completed.members =
        Finset.range transfer.download.torrent.pieceCount ∧
      transfer.recheck.1.download.holdings.isComplete = true ∧
      transfer.recheck.1.download.left = 0 := by
  have rechecked := recheck_rechecked describes.tiled sized
  have every : (transfer.download.torrent.confirmed transfer.store).toFinset =
      Finset.range transfer.download.torrent.pieceCount := by
    ext index
    rw [rechecked.intact, Finset.mem_range, full]
    constructor
    · rintro ⟨-, piece, -, located, -⟩
      exact (List.getElem?_eq_some_iff.mp located).1
    · intro inside
      have located := List.getElem?_eq_getElem inside
      exact ⟨rfl, _, _, located, describes.keeps located⟩
  have members : transfer.recheck.1.download.holdings.completed.members =
      Finset.range transfer.download.torrent.pieceCount := by
    rw [rechecked.completed, every]
    exact Finset.union_eq_right.mpr (sized ▸ Bitfield.members_subset _)
  have complete : transfer.recheck.1.download.holdings.isComplete = true := by
    have same := (Download.recheck_evolves transfer.download transfer.store).size
    refine Bitfield.isFull_iff_members.mpr (members.trans ?_)
    exact congrArg Finset.range (sized.symm.trans same.symm)
  refine ⟨?_, members, complete, Holdings.left_of_isComplete _ complete⟩
  rw [rechecked.counted, every, Finset.card_range]

/-- A recheck finds exactly the pieces that the store holds intact. A torrent that was made from the
content of files with a positive piece length passes its check and is laid out, in words if the
content and the pieces are counted in words, and in the content itself a recheck finds every piece,
so that nothing is left to fetch. -/
theorem Transfer.recheck_exact :
    (∀ (info : Metainfo) (torrent : Torrent) (transfer : Transfer),
      Torrent.ofMetainfo info = .ok torrent → transfer.download.torrent = torrent →
      transfer.download.holdings.completed.size = torrent.pieceCount →
        ∃ found, transfer.Rechecked found transfer.recheck.1 transfer.recheck.2) ∧
    ∀ (name : String) (pieceLength : Nat) (files : List (String × Bytes)), 0 < pieceLength →
      ∃ info torrent, Metainfo.ofContent? name pieceLength files = some info ∧
        info.validate = .ok () ∧ Torrent.ofMetainfo info = .ok torrent ∧
        ((files.flatMap (·.2)).length < Word.bound64 → info.fitsWords = true ∧
          (pieceLength < Word.bound32 → info.hashes.length < Word.bound32 →
            Torrent.checkedOfMetainfo? info =
              some (.ok (torrent, torrent.pieces.map Piece.blocks)))) ∧
        ∀ transfer : Transfer, transfer.download.torrent = torrent →
          transfer.download.holdings.completed.size = torrent.pieceCount →
          transfer.store = .ofContent (files.flatMap (·.2)) →
            transfer.recheck.2 = torrent.pieceCount ∧
            transfer.recheck.1.download.holdings.completed.members =
              Finset.range torrent.pieceCount ∧
            transfer.recheck.1.download.holdings.isComplete = true ∧
            transfer.recheck.1.download.left = 0 := by
  refine ⟨?_, ?_⟩
  · rintro info torrent transfer built rfl sized
    exact ⟨_, recheck_rechecked (Torrent.ofMetainfo_tiled built) sized⟩
  · intro name pieceLength files positive
    obtain ⟨info, made, valid, words⟩ := Metainfo.ofContent?_valid name files positive
    obtain ⟨torrent, built⟩ := Torrent.ofMetainfo_ok.mpr valid
    refine ⟨info, torrent, made, valid, built, fun counted => ?_, ?_⟩
    · obtain ⟨fits, words⟩ := words counted
      refine ⟨fits, fun short few => ?_⟩
      rw [Torrent.checkedOfMetainfo?_eq (words short few), built]
      rfl
    · rintro transfer rfl sized full
      exact recheck_content (Torrent.ofContent?_describes made built) sized full

/-- Three files, the second one empty, that make up two pieces of two bytes and one of one. -/
def shelf : List (String × Bytes) :=
  [("first", [1, 2, 3]), ("second", []), ("third", [4, 5])]

theorem Transfer.recheck_exact_shelf :
    ∃ info torrent, Metainfo.ofContent? "shelf" 2 shelf = some info ∧
      Torrent.ofMetainfo info = .ok torrent ∧
      (∃ found, (Transfer.new torrent (.empty 5) {} Sample.peerId 0).Rechecked found
        (Transfer.new torrent (.empty 5) {} Sample.peerId 0).recheck.1
        (Transfer.new torrent (.empty 5) {} Sample.peerId 0).recheck.2) ∧
      let full := Transfer.new torrent (.ofContent [1, 2, 3, 4, 5]) {} Sample.peerId 0
      full.recheck.2 = 3 ∧ full.recheck.1.download.left = 0 := by
  obtain ⟨exact, whole⟩ := recheck_exact
  obtain ⟨info, torrent, made, valid, built, -, all⟩ := whole "shelf" 2 shelf (by decide)
  have three : torrent.pieceCount = 3 := by
    cases made
    rw [Torrent.ofMetainfo_eq valid] at built
    cases built
    rfl
  obtain ⟨counted, -, -, left⟩ :=
    all (.new torrent (.ofContent [1, 2, 3, 4, 5]) {} Sample.peerId 0) rfl rfl rfl
  exact ⟨info, torrent, made, built, exact info torrent _ built rfl rfl, counted.trans three, left⟩

end BitTorrent
