import BitTorrent.Metainfo
import BitTorrent.Proofs.Files

/-!
The files of a torrent follow one another without a gap, and so do the parts that a range of its
bytes is split into.
-/

set_option autoImplicit false

namespace BitTorrent

variable {files : List FileEntry} {file : FileEntry} {cursor covered position : Nat}
  {store : FileStore} {range : ByteRange}

/-- A position is among the bytes of a file. -/
def FileEntry.Has (file : FileEntry) (position : Nat) : Prop :=
  file.offset ≤ position ∧ position < file.stop

/-! ### Files in order -/

namespace Metainfo

theorem checkFiles_cons {rest : List FileEntry}
    (checked : checkFiles cursor (file :: rest) = .ok covered) :
    file.offset = cursor ∧ checkFiles file.stop rest = .ok covered := by
  rw [checkFiles] at checked
  split at checked
  · rename_i follows
    exact ⟨follows, checked⟩
  · cases checked

theorem files_checked {info : Metainfo} (valid : info.validate = .ok ()) :
    checkFiles 0 info.files = .ok info.totalLength := by
  unfold validate at valid
  dsimp only at valid
  split at valid
  · cases valid
  · split at valid
    · cases valid
    · split at valid
      · cases valid
      · rename_i covered checked
        split at valid
        · rename_i whole
          rw [checked, whole]
        · cases valid

/-- Files that are in order end where the last of them does. -/
theorem stop_of_checked (checked : checkFiles cursor files = .ok covered) :
    (match files.getLast? with
      | some file => file.stop
      | none => cursor) = covered := by
  induction files generalizing cursor with
  | nil =>
    cases checked
    rfl
  | cons file rest ih =>
    have last := ih (checkFiles_cons checked).2
    cases rest with
    | nil => exact last
    | cons next more =>
      rw [List.getLast?_cons_cons]
      exact last

/-- Files that are in order leave no position out. -/
theorem file_of_checked (checked : checkFiles cursor files = .ok covered)
    (lower : cursor ≤ position) (upper : position < covered) :
    ∃ file ∈ files, file.Has position := by
  induction files generalizing cursor with
  | nil =>
    cases checked
    omega
  | cons file rest ih =>
    obtain ⟨start, later⟩ := checkFiles_cons checked
    by_cases inside : position < file.stop
    · exact ⟨file, List.mem_cons_self, by rw [start]; exact lower, inside⟩
    · obtain ⟨other, member, has⟩ := ih later (by omega)
      exact ⟨other, List.mem_cons_of_mem _ member, has⟩

end Metainfo

/-- Of files that are in order, the size is the end of the last. -/
theorem FileStore.size_eq {base : String} (checked : Metainfo.checkFiles 0 files = .ok covered) :
    (FileStore.mk base files).size = covered :=
  Metainfo.stop_of_checked checked

/-! ### Parts of a range -/

namespace Segment

/-- A segment stands for bytes of a file, all of them inside of it. -/
structure Cuts (segment : Segment) (store : FileStore) (range : ByteRange) (file : FileEntry) :
    Prop where
  path : segment.path = store.path file
  within : segment.fileOffset + segment.length ≤ file.length
  aligned : file.offset + segment.fileOffset = range.offset + segment.rangeOffset

/-- A position of a range is among the bytes of a segment, at a given place of its file. -/
structure Puts (segment : Segment) (range : ByteRange) (position place : Nat) : Prop where
  lower : range.offset + segment.rangeOffset ≤ position
  upper : position < range.offset + segment.rangeOffset + segment.length
  place : segment.fileOffset + (position - (range.offset + segment.rangeOffset)) = place

/-- Segments that follow one another from one position of a range to another. -/
def Tiles : Nat → Nat → List Segment → Prop
  | start, stop, [] => start = stop
  | start, stop, segment :: rest =>
    segment.rangeOffset = start ∧ 0 < segment.length ∧ Tiles (start + segment.length) stop rest

theorem Tiles.le {segments : List Segment} {start stop : Nat} (tiles : Tiles start stop segments) :
    start ≤ stop := by
  induction segments generalizing start with
  | nil => exact Nat.le_of_eq tiles
  | cons segment rest ih =>
    have later := ih tiles.2.2
    omega

end Segment

namespace FileStore

/-- A file either shares no byte with a range, or what it shares is one segment. -/
theorem segment?_eq (store : FileStore) (range : ByteRange) (file : FileEntry) :
    (store.segment? range file = none ∧
      ¬max range.offset file.offset < min range.stop file.stop) ∨
    ∃ segment, store.segment? range file = some segment ∧
      max range.offset file.offset < min range.stop file.stop ∧
      segment.path = store.path file ∧
      segment.fileOffset = max range.offset file.offset - file.offset ∧
      segment.rangeOffset = max range.offset file.offset - range.offset ∧
      segment.length = min range.stop file.stop - max range.offset file.offset := by
  have stop : (ByteRange.mk file.offset file.length).stop = file.stop := rfl
  unfold segment? ByteRange.meet?
  simp only [stop]
  by_cases shared : max range.offset file.offset < min range.stop file.stop
  · refine Or.inr ⟨⟨store.path file, max range.offset file.offset - file.offset,
      max range.offset file.offset - range.offset,
      min range.stop file.stop - max range.offset file.offset⟩, ?_, shared, rfl, rfl, rfl, rfl⟩
    simp only [shared, ↓reduceIte, Option.map_some]
  · refine Or.inl ⟨?_, shared⟩
    simp only [shared, ↓reduceIte, Option.map_none]

theorem cuts_of_segment? {segment : Segment} (found : store.segment? range file = some segment) :
    segment.Cuts store range file := by
  rcases segment?_eq store range file with ⟨none, -⟩ |
    ⟨other, same, shared, path, inFile, inRange, length⟩
  · rw [none] at found
    cases found
  · obtain rfl : other = segment := Option.some.inj (same.symm.trans found)
    have ends : file.stop = file.offset + file.length := rfl
    exact ⟨path, by omega, by omega⟩

/-- A byte that a file has of a range is found in the file at its distance from where the file
starts. -/
theorem segment?_puts (store : FileStore) (has : file.Has position)
    (lower : range.offset ≤ position) (upper : position < range.stop) :
    ∃ segment, store.segment? range file = some segment ∧
      segment.Puts range position (position - file.offset) := by
  obtain ⟨start, stop⟩ := has
  rcases segment?_eq store range file with ⟨-, none⟩ |
    ⟨segment, found, shared, -, inFile, inRange, length⟩
  · have shared : max range.offset file.offset < min range.stop file.stop := by omega
    exact absurd shared none
  · exact ⟨segment, found, by omega, by omega, by omega⟩

/-- What files that are in order have of a range tiles it, from where the first of them starts. -/
theorem tiles_filterMap (store : FileStore)
    (checked : Metainfo.checkFiles cursor files = .ok covered)
    (within : range.stop ≤ covered) :
    Segment.Tiles (min range.length (cursor - range.offset)) range.length
      (files.filterMap (store.segment? range)) := by
  have ends : range.stop = range.offset + range.length := rfl
  induction files generalizing cursor with
  | nil =>
    cases checked
    change min range.length (covered - range.offset) = range.length
    omega
  | cons file rest ih =>
    obtain ⟨start, later⟩ := Metainfo.checkFiles_cons checked
    have stop : file.stop = file.offset + file.length := rfl
    have tail := ih later
    rcases segment?_eq store range file with ⟨none, apart⟩ |
      ⟨segment, found, shared, -, -, inRange, length⟩
    · have same : min range.length (cursor - range.offset) =
          min range.length (file.stop - range.offset) := by omega
      rw [List.filterMap_cons_none none, same]
      exact tail
    · have next : min range.length (cursor - range.offset) + segment.length =
          min range.length (file.stop - range.offset) := by omega
      rw [List.filterMap_cons_some found]
      refine ⟨by omega, by omega, ?_⟩
      rw [next]
      exact tail

theorem segments_eq (within : range.stop ≤ store.size) :
    store.segments range = .ok (store.files.filterMap (store.segment? range)) := by
  simp only [segments, Nat.not_lt.mpr within, ↓reduceIte]

theorem segments_cut {segments : List Segment} (located : store.segments range = .ok segments) :
    ∀ segment ∈ segments, ∃ file ∈ store.files, segment.Cuts store range file := by
  unfold FileStore.segments at located
  split at located
  · cases located
  · cases located
    intro segment member
    obtain ⟨file, among, found⟩ := List.mem_filterMap.mp member
    exact ⟨file, among, cuts_of_segment? found⟩

end FileStore

end BitTorrent
