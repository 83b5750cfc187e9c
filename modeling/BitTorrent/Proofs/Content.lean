import BitTorrent.Proofs.Layout

/-! Torrents that were made from content: the hash of a piece is that of the bytes at its place. -/

set_option autoImplicit false

namespace BitTorrent

/-- The bytes of content that lie in a range. -/
def ByteRange.cut (range : ByteRange) (content : Bytes) : Bytes :=
  (content.drop range.offset).take range.length

theorem ByteRange.length_cut {range : ByteRange} {content : Bytes}
    (inside : range.stop ≤ content.length) : (range.cut content).length = range.length := by
  simp only [stop] at inside
  simp only [cut, List.length_take, List.length_drop]
  omega

theorem ByteRange.getElem?_cut (range : ByteRange) (content : Bytes) {index : Nat}
    (inside : index < range.length) :
    (range.cut content)[index]? = content[range.offset + index]? := by
  rw [cut, List.getElem?_take_of_lt inside, List.getElem?_drop]

namespace Metainfo

theorem getElem?_chunks (size count number : Nat) (bytes : Bytes) :
    (chunks size count bytes)[number]? =
      if number < count then some ((bytes.drop (number * size)).take size) else none := by
  induction count generalizing number bytes with
  | zero => simp [chunks]
  | succ count ih =>
    cases number with
    | zero => simp [chunks]
    | succ number =>
      rw [chunks, List.getElem?_cons_succ, ih, List.drop_drop, Nat.add_comm size, ← Nat.succ_mul]
      simp only [Nat.add_lt_add_iff_right, Nat.succ_eq_add_one]

theorem lengthSum_files (files : List (String × Bytes)) :
    lengthSum (files.map fun (path, data) => (path, data.length)) =
      (files.flatMap (·.2)).length := by
  induction files with
  | nil => rfl
  | cons file rest ih =>
    rw [List.map_cons, lengthSum, ih, List.flatMap_cons, List.length_append]

end Metainfo

namespace Torrent

/-- A torrent describes content: the pieces tile it and have the hashes of their bytes. -/
structure Describes (torrent : Torrent) (content : Bytes) : Prop where
  tiled : torrent.Tiled
  total : torrent.totalLength = content.length
  hashed : ∀ {index : Nat} {piece : Piece},
    torrent.piece? index = some piece → piece.hash = sha1 (piece.range.cut content)

theorem Describes.inside {torrent : Torrent} {content : Bytes}
    (describes : torrent.Describes content) {index : Nat} {piece : Piece}
    (found : torrent.piece? index = some piece) : piece.range.stop ≤ content.length := by
  rw [← describes.total]
  exact describes.tiled.inside found

/-- What is made from content describes it. -/
theorem ofContent?_describes {name : String} {pieceLength : Nat} {files : List (String × Bytes)}
    {info : Metainfo} {torrent : Torrent}
    (made : Metainfo.ofContent? name pieceLength files = some info)
    (built : ofMetainfo info = .ok torrent) : torrent.Describes (files.flatMap (·.2)) := by
  have tiled := ofMetainfo_tiled built
  unfold Metainfo.ofContent? at made
  split at made
  · cases made
  · cases made
    unfold ofMetainfo at built
    split at built
    · cases built
    · dsimp only at built
      split at built
      · cases built
      · cases built
        have total := Metainfo.lengthSum_files files
        refine ⟨tiled, total, ?_⟩
        intro index piece found
        change (layOut _)[index]? = some piece at found
        rw [getElem?_layOut, Option.map_eq_some_iff] at found
        obtain ⟨hash, hashed, rfl⟩ := found
        simp only [Metainfo.ofFiles, List.getElem?_map, Metainfo.getElem?_chunks,
          Option.map_eq_some_iff, Option.ite_none_right_eq_some, Option.some.injEq] at hashed
        obtain ⟨_, ⟨_, rfl⟩, rfl⟩ := hashed
        -- The last piece ends with the content: its hash is that of fewer bytes.
        have cut : ∀ bytes : Bytes, bytes.take pieceLength =
            bytes.take (min pieceLength bytes.length) := by
          intro bytes
          rw [List.take_eq_take_iff]
          omega
        rw [cut, List.length_drop, ← total]
        rfl

end Torrent

end BitTorrent
