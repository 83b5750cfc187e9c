import BitTorrent.Proofs.Disk
import BitTorrent.Proofs.Memory
import BitTorrent.Proofs.Segments
import BitTorrent.Proofs.Side

/-!
A store of files keeps what a store in memory keeps: every byte that was written is found again in
the right file, and whatever the memory can read the files can read as well.
-/

set_option autoImplicit false

namespace BitTorrent

variable {store : FileStore} {disk before after : Disk} {memory : MemoryStore}
  {file other : FileEntry} {range : ByteRange} {data content : Bytes} {segments : List Segment}
  {position : Nat}

/-! ### Contents that are overwritten -/

namespace Disk

/-- Data is put down right where its offset says, if zeros fill up what lies before. -/
theorem length_front (content : Bytes) (offset : Nat) :
    (content.take offset ++ List.replicate (offset - content.length) 0).length = offset := by
  simp only [List.length_append, List.length_take, List.length_replicate]
  omega

theorem getElem?_overwrite_inside {offset : Nat} (lower : offset ≤ position)
    (upper : position < offset + data.length) :
    (overwrite content offset data)[position]? = data[position - offset]? := by
  have front := length_front content offset
  rw [overwrite, List.getElem?_append_left (by rw [List.length_append, front]; exact upper),
    List.getElem?_append_right (by rw [front]; exact lower), front]

theorem getElem?_overwrite_outside {offset : Nat} (within : position < content.length)
    (outside : position < offset ∨ offset + data.length ≤ position) :
    (overwrite content offset data)[position]? = content[position]? := by
  have front := length_front content offset
  rcases outside with ahead | behind
  · rw [overwrite, List.append_assoc, List.append_assoc,
      List.getElem?_append_left (by rw [List.length_take]; omega), List.getElem?_take_of_lt ahead]
  · have shift : offset + data.length + (position - (offset + data.length)) = position := by omega
    rw [overwrite, List.getElem?_append_right (by rw [List.length_append, front]; exact behind),
      List.length_append, front, List.getElem?_drop, shift]

/-- The next slice of some data over a buffer that is filled up to it. -/
theorem overwrite_slice {start length : Nat} (within : start + length ≤ data.length) :
    overwrite (data.take start ++ List.replicate (data.length - start) 0) start
        ((data.drop start).take length) =
      data.take (start + length) ++ List.replicate (data.length - (start + length)) 0 := by
  have front : (data.take start).length = start := List.length_take_of_le (by omega)
  have slice : ((data.drop start).take length).length = length := by
    simp only [List.length_take, List.length_drop]
    omega
  have filled : (data.take start ++ List.replicate (data.length - start) (0 : UInt8)).take start =
      data.take start := List.take_left' front
  have open_ : (data.take start ++ List.replicate (data.length - start) (0 : UInt8)).drop
      (start + length) = List.replicate (data.length - (start + length)) 0 := by
    rw [List.drop_append, front, List.drop_of_length_le (by omega), List.nil_append,
      List.drop_replicate]
    congr 1
    omega
  have gapless : start - (data.take start ++
      List.replicate (data.length - start) (0 : UInt8)).length = 0 := by
    simp only [List.length_append, front, List.length_replicate]
    omega
  rw [overwrite, gapless, filled, slice, open_, List.replicate_zero, List.append_nil,
    ← List.take_add]

end Disk

/-! ### Files that have their places -/

/-- The paths of all files are such as files on one disk can have: they end in names, they are told
apart by what they resolve to, and none leads through another. -/
structure FileStore.Laid (store : FileStore) : Prop where
  legal : ∀ file ∈ store.files, Disk.Legal (store.path file)
  named : ∀ file ∈ store.files, Path.NamesFile (store.path file)
  distinct : (store.files.map fun file => Path.resolve (store.path file)).Nodup
  apart : ∀ file ∈ store.files, ∀ other ∈ store.files,
    Path.resolve (store.path other) ∉ Path.passed (store.path file)

/-- On a disk nothing is in the way of a file: no file among the directories that lead to it and no
directory in its place. The file itself may be there. -/
structure FileStore.Fits (store : FileStore) (disk : Disk) (file : FileEntry) : Prop where
  clear : disk.Clear (Path.passed (store.path file))
  free : disk.find? (Path.resolve (store.path file)) ≠ some .directory

/-- New on a disk are at most the file at a path and directories that lead to it. -/
def Disk.Gains (before after : Disk) (path : String) : Prop :=
  ∀ names, after.find? names = before.find? names ∨
    (before.find? names = none ∧
      ((after.find? names = some .directory ∧ names ∈ Path.passed path) ∨
        (names = Path.resolve path ∧ ∃ content, after.find? names = some (.file content))))

theorem Disk.Paves.gains {path : String} (paves : before.Paves after (Path.passed path)) :
    before.Gains after path := by
  intro names
  rcases paves names with same | ⟨free, made, among⟩
  · exact .inl same
  · exact .inr ⟨free, .inl ⟨made, among⟩⟩

/-- The file is put in its place behind the directories. -/
theorem Disk.Paves.gains_file {path : String} (paves : before.Paves after (Path.passed path))
    (below : Path.resolve path ≠ []) (free : after.find? (Path.resolve path) = none)
    (content : Bytes) : before.Gains (after.put (Path.resolve path) (.file content)) path := by
  intro names
  by_cases same : names = Path.resolve path
  · subst same
    have absent : before.find? (Path.resolve path) = none := by
      rcases paves (Path.resolve path) with kept | ⟨none, -, -⟩
      · rw [← kept, free]
      · exact none
    exact .inr ⟨absent, .inr ⟨rfl, content, Disk.find?_put_self after below _⟩⟩
  · rw [Disk.find?_put_other after below same]
    exact paves.gains names

theorem Disk.Gains.grows {path : String} (gains : before.Gains after path) :
    before.Grows after := by
  intro names entry found
  rcases gains names with same | ⟨free, -⟩
  · rw [same, found]
  · rw [free] at found
    cases found

namespace FileStore

/-- What is made for one file leaves room for the others. -/
theorem Fits.gains (laid : store.Laid) (member : file ∈ store.files)
    (among : other ∈ store.files) (fits : store.Fits before other)
    (gains : before.Gains after (store.path file)) : store.Fits after other where
  clear := by
    intro place passed content found
    rcases gains place with same | ⟨-, ⟨made, -⟩ | ⟨same, -⟩⟩
    · exact fits.clear place passed content (same ▸ found)
    · rw [made] at found
      cases found
    · exact laid.apart other among file member (same ▸ passed)
  free := by
    intro directory
    rcases gains (Path.resolve (store.path other)) with same | ⟨-, ⟨-, passed⟩ | ⟨-, content, made⟩⟩
    · exact fits.free (same ▸ directory)
    · exact laid.apart file member other among passed
    · rw [made] at directory
      cases directory

/-- A file that is there is kept, and one that is not is made. -/
theorem createFile_ok (laid : store.Laid) (member : file ∈ store.files)
    (fits : store.Fits disk file) :
    ∃ after content, store.createFile disk file = (after, .ok ()) ∧
      after.Opens (store.path file) content ∧ disk.Gains after (store.path file) := by
  have legal := laid.legal file member
  have named := laid.named file member
  obtain ⟨made, result, led, paves⟩ := Disk.makeParents_ok legal named fits.clear
  have located := Disk.locate_eq made legal named.tidy named.ne_empty
  have kept := (fits.gains laid member member paves.gains).free
  rw [led] at located
  cases standing : made.find? (Path.resolve (store.path file)) with
  | none =>
    have free : made.follow [] (Path.parts (store.path file)) =
        .ok (.name (Path.resolve (store.path file)) none) := by
      rw [led, Disk.arrival, standing]
    have below := (Disk.follow_name_resolves free).2.1
    rw [Disk.arrival, standing] at located
    refine ⟨made.put (Path.resolve (store.path file)) (.file (List.replicate file.length 0)),
      List.replicate file.length 0, ?_, ?_, paves.gains_file below standing _⟩
    · simp only [createFile, result, Disk.holds, Disk.writeFile, Disk.openToWrite, located,
        named.namesDirectory, Bool.false_eq_true, ↓reduceIte]
    · rw [Disk.Opens, Disk.follow_put free, Disk.arrival_file (Disk.find?_put_self made below _)]
  | some entry =>
    cases entry with
    | directory => exact absurd standing kept
    | file content =>
      rw [Disk.arrival_file standing] at located led
      refine ⟨made, content, ?_, led, paves.gains⟩
      simp only [createFile, result, Disk.holds, located, named.namesDirectory, Bool.not_false,
        ↓reduceIte]

theorem forEach_createFile (laid : store.Laid) {files : List FileEntry}
    (inside : ∀ file ∈ files, file ∈ store.files)
    (fits : ∀ file ∈ store.files, store.Fits disk file) :
    ∃ created, forEach store.createFile disk files = (created, .ok ()) ∧ disk.Grows created ∧
      ∀ file ∈ files, ∃ content, created.Opens (store.path file) content := by
  induction files generalizing disk with
  | nil => exact ⟨disk, rfl, .refl disk, fun file none => absurd none List.not_mem_nil⟩
  | cons file rest ih =>
    have member := inside file List.mem_cons_self
    obtain ⟨middle, content, made, opens, gains⟩ := createFile_ok laid member (fits file member)
    obtain ⟨created, done, grows, others⟩ :=
      ih (fun other later => inside other (List.mem_cons_of_mem _ later))
        (fun other among => (fits other among).gains laid member among gains)
    refine ⟨created, ?_, gains.grows.trans grows, ?_⟩
    · simp only [forEach, made, done]
    · intro other either
      rcases List.mem_cons.mp either with rfl | later
      · exact ⟨content, opens.grows grows⟩
      · exact others other later

/-- All files are there once they are made, and what was there before is as it was. -/
theorem create_ok (laid : store.Laid) (fits : ∀ file ∈ store.files, store.Fits disk file) :
    ∃ created, store.create disk = (created, .ok ()) ∧ disk.Grows created ∧
      ∀ file ∈ store.files, ∃ content, created.Opens (store.path file) content :=
  forEach_createFile laid (fun _ member => member) fits

/-! ### Writing -/

/-- What becomes of the content of a file when data is written to a range. -/
def patched (store : FileStore) (range : ByteRange) (data : Bytes) (file : FileEntry)
    (content : Bytes) : Bytes :=
  match store.segment? range file with
  | none => content
  | some segment =>
    Disk.overwrite content segment.fileOffset
      ((data.drop segment.rangeOffset).take segment.length)

/-- A part of a range is written to its file and to nothing else. -/
theorem writeSegment_ok (data : Bytes) (laid : store.Laid) (member : file ∈ store.files)
    {segment : Segment} (found : store.segment? range file = some segment)
    (opens : disk.Opens (store.path file) content) :
    writeSegment data disk segment =
      (disk.put (Path.resolve (store.path file))
        (.file (store.patched range data file content)), .ok ()) := by
  have opened := opens.openToWrite (laid.legal file member) (laid.named file member)
  simp only [writeSegment, (cuts_of_segment? found).path, opened, patched, found]

/-- Whether or not the first file has a part of the range, it ends up patched before the others
are. -/
theorem forEach_writeSegment_cons (range : ByteRange) (data : Bytes) (laid : store.Laid)
    (member : file ∈ store.files) (opens : disk.Opens (store.path file) content)
    (rest : List FileEntry) :
    ∃ middle, forEach (writeSegment data) disk ((file :: rest).filterMap (store.segment? range)) =
        forEach (writeSegment data) middle (rest.filterMap (store.segment? range)) ∧
      middle.Opens (store.path file) (store.patched range data file content) ∧
      ∀ path kept, Path.resolve path ≠ Path.resolve (store.path file) → disk.Opens path kept →
        middle.Opens path kept := by
  cases found : store.segment? range file with
  | none =>
    refine ⟨disk, by rw [List.filterMap_cons_none found], ?_, fun _ _ _ kept => kept⟩
    simp only [patched, found]
    exact opens
  | some segment =>
    have written := writeSegment_ok data laid member found opens
    refine ⟨_, ?_, opens.put _⟩
    rw [List.filterMap_cons_some found]
    simp only [forEach, written]

/-- Every file gets its part of the data. -/
theorem forEach_writeSegment (range : ByteRange) (data : Bytes) (laid : store.Laid)
    {files : List FileEntry}
    (inside : ∀ file ∈ files, file ∈ store.files)
    (distinct : (files.map fun file => Path.resolve (store.path file)).Nodup)
    (opens : ∀ file ∈ files, ∃ content, disk.Opens (store.path file) content) :
    ∃ after, forEach (writeSegment data) disk (files.filterMap (store.segment? range)) =
        (after, .ok ()) ∧
      (∀ path content, Path.resolve path ∉ files.map (fun file => Path.resolve (store.path file)) →
        disk.Opens path content → after.Opens path content) ∧
      ∀ file ∈ files, ∀ content, disk.Opens (store.path file) content →
        after.Opens (store.path file) (store.patched range data file content) := by
  induction files generalizing disk with
  | nil => exact ⟨disk, rfl, fun _ _ _ kept => kept, fun _ none => absurd none List.not_mem_nil⟩
  | cons file rest ih =>
    obtain ⟨apart, distinctRest⟩ := List.nodup_cons.mp distinct
    obtain ⟨first, opensFirst⟩ := opens file List.mem_cons_self
    have member := inside file List.mem_cons_self
    have insideRest : ∀ other ∈ rest, other ∈ store.files :=
      fun other later => inside other (List.mem_cons_of_mem _ later)
    have others : ∀ other ∈ rest,
        Path.resolve (store.path other) ≠ Path.resolve (store.path file) := by
      intro other later same
      exact apart (List.mem_map.mpr ⟨other, later, same⟩)
    obtain ⟨middle, same, patchedFirst, kept⟩ :=
      forEach_writeSegment_cons range data laid member opensFirst rest
    have opensMiddle : ∀ other ∈ rest, ∃ content, middle.Opens (store.path other) content :=
      fun other later =>
        (opens other (List.mem_cons_of_mem _ later)).imp fun content opensOther =>
          kept _ content (others other later) opensOther
    obtain ⟨after, done, untouched, patchedRest⟩ := ih insideRest distinctRest opensMiddle
    refine ⟨after, same.trans done, ?_, ?_⟩
    · intro path content outside opensPath
      rw [List.map_cons, List.mem_cons, not_or] at outside
      exact untouched path content outside.2 (kept path content outside.1 opensPath)
    · intro other either content opensOther
      rcases List.mem_cons.mp either with rfl | later
      · obtain rfl := opensFirst.unique opensOther
        exact untouched _ _ apart patchedFirst
      · exact patchedRest other later content (kept _ content (others other later) opensOther)

/-! ### Reading -/

/-- A buffer that is filled in order ends up with the data that the segments are read as. -/
theorem fillBuffer_ok {start : Nat} (tiles : Segment.Tiles start data.length segments)
    (read : ∀ segment ∈ segments, readSegment disk segment =
      .ok ((data.drop segment.rangeOffset).take segment.length)) :
    fillBuffer disk (data.take start ++ List.replicate (data.length - start) 0) segments =
      .ok data := by
  induction segments generalizing start with
  | nil =>
    have full : start = data.length := tiles
    simp only [fillBuffer, full, List.take_length, Nat.sub_self, List.replicate_zero,
      List.append_nil]
  | cons segment rest ih =>
    obtain ⟨rfl, -, later⟩ := tiles
    have slice := read segment List.mem_cons_self
    have within : segment.rangeOffset + segment.length ≤ data.length := later.le
    simp only [fillBuffer, slice, Disk.overwrite_slice within]
    exact ih later fun other member => read other (List.mem_cons_of_mem _ member)

theorem write_refused (disk : Disk)
    (unfit : ¬(range.stop ≤ store.size ∧ data.length = range.length)) :
    ∃ fault, store.write disk range data = (disk, .error fault) := by
  unfold FileStore.write FileStore.segments
  by_cases exact : data.length = range.length
  · have beyond : store.size < range.stop := Nat.lt_of_not_le fun within => unfit ⟨within, exact⟩
    simp only [exact, ne_eq, not_true_eq_false, beyond, ↓reduceIte]
    exact ⟨_, rfl⟩
  · simp only [exact, ne_eq, not_false_eq_true, ↓reduceIte]
    exact ⟨_, rfl⟩

end FileStore

namespace MemoryStore

theorem write_accepted (working : memory.failWrites = none) (within : range.stop ≤ memory.size)
    (exact : data.length = range.length) :
    ∃ later, memory.write range data = .ok later ∧ later.failWrites = none ∧
      later.failReads = memory.failReads := by
  refine ⟨{ memory with cells := splice memory.cells range.offset data }, ?_, working, rfl⟩
  unfold write
  split
  · rename_i fault failing
    rw [working] at failing
    cases failing
  · simp only [Nat.not_lt.mpr within, exact, ne_eq, not_true_eq_false, ↓reduceIte]

theorem write_refused (working : memory.failWrites = none)
    (unfit : ¬(range.stop ≤ memory.size ∧ data.length = range.length)) :
    ∃ fault, memory.write range data = .error fault := by
  simp only [write, working]
  by_cases beyond : memory.size < range.stop
  · simp only [beyond, ↓reduceIte]
    exact ⟨_, rfl⟩
  · have exact : data.length ≠ range.length := fun exact => unfit ⟨Nat.le_of_not_lt beyond, exact⟩
    simp only [beyond, exact, ne_eq, not_false_eq_true, ↓reduceIte]
    exact ⟨_, rfl⟩

end MemoryStore

/-! ### The two stores side by side -/

namespace FileStore

/-- Files hold every byte that was written to a store in memory of the same size. -/
structure Mirrors (store : FileStore) (disk : Disk) (memory : MemoryStore) : Prop where
  sized : memory.size = store.size
  working : memory.failWrites = none ∧ memory.failReads = none
  holds : ∀ file ∈ store.files, ∃ content, disk.Opens (store.path file) content ∧
    ∀ place < file.length, ∀ byte, memory.byte? (file.offset + place) = some byte →
      content[place]? = some byte

/-- A file holds what was written to the range last, and besides what it held before. -/
theorem patched_holds {memory later : MemoryStore} (written : memory.write range data = .ok later)
    (held : ∀ place < file.length, ∀ byte, memory.byte? (file.offset + place) = some byte →
      content[place]? = some byte) :
    ∀ place < file.length, ∀ byte, later.byte? (file.offset + place) = some byte →
      (store.patched range data file content)[place]? = some byte := by
  intro place within byte found
  obtain ⟨exact, -, -, inside, outside⟩ := MemoryStore.write_ok written
  have stop : range.stop = range.offset + range.length := rfl
  by_cases among : range.offset ≤ file.offset + place ∧ file.offset + place < range.stop
  · have has : file.Has (file.offset + place) :=
      ⟨Nat.le_add_right _ _, Nat.add_lt_add_left within _⟩
    obtain ⟨segment, part, puts⟩ := segment?_puts store has among.1 among.2
    have fits := segment?_inside part
    have aligned := (cuts_of_segment? part).aligned
    obtain ⟨lower, upper, spot⟩ := puts
    have sized : ((data.drop segment.rangeOffset).take segment.length).length =
        segment.length := by
      simp only [List.length_take, List.length_drop]
      omega
    have index : segment.rangeOffset + (place - segment.fileOffset) =
        file.offset + place - range.offset := by omega
    rw [inside _ among.1 among.2] at found
    simp only [patched, part]
    rw [Disk.getElem?_overwrite_inside (by omega) (by rw [sized]; omega),
      List.getElem?_take_of_lt (by omega), List.getElem?_drop, index, found]
  · rw [outside _ (by omega)] at found
    have before := held place within byte found
    unfold patched
    cases part : store.segment? range file with
    | none => exact before
    | some segment =>
      have fits := segment?_inside part
      have aligned := (cuts_of_segment? part).aligned
      have sized : ((data.drop segment.rangeOffset).take segment.length).length ≤
          segment.length := List.length_take_le _ _
      obtain ⟨here, -⟩ := List.getElem?_eq_some_iff.mp before
      dsimp only
      rw [Disk.getElem?_overwrite_outside here (by omega), before]

/-- A write is accepted by both or by neither, and then it changes nothing. -/
theorem Mirrors.write (laid : store.Laid) (mirrors : store.Mirrors disk memory) (range : ByteRange)
    (data : Bytes) :
    (∃ after later, store.write disk range data = (after, .ok ()) ∧
      memory.write range data = .ok later ∧ store.Mirrors after later) ∨
    ∃ fault refusal, store.write disk range data = (disk, .error fault) ∧
      memory.write range data = .error refusal := by
  by_cases fit : range.stop ≤ store.size ∧ data.length = range.length
  · obtain ⟨within, exact⟩ := fit
    obtain ⟨after, done, -, patches⟩ :=
      forEach_writeSegment range data laid (fun _ member => member)
        laid.distinct fun file member =>
          (mirrors.holds file member).imp fun content held => held.1
    obtain ⟨later, written, writes, reads⟩ :=
      MemoryStore.write_accepted mirrors.working.1 (mirrors.sized ▸ within) exact
    have sized := (MemoryStore.write_ok written).2.2.1
    refine Or.inl ⟨after, later, ?_, written, sized.trans mirrors.sized,
      ⟨writes, reads.trans mirrors.working.2⟩, ?_⟩
    · simp only [FileStore.write, exact, ne_eq, not_true_eq_false, ↓reduceIte,
        segments_eq within, done]
    · intro file member
      obtain ⟨content, opens, held⟩ := mirrors.holds file member
      exact ⟨_, patches file member content opens, patched_holds written held⟩
  · obtain ⟨fault, refused⟩ := write_refused disk fit
    obtain ⟨refusal, also⟩ := MemoryStore.write_refused mirrors.working.1 (mirrors.sized.symm ▸ fit)
    exact Or.inr ⟨fault, refusal, refused, also⟩

/-- What the memory can read the files can read. -/
theorem Mirrors.read (laid : store.Laid)
    (ordered : Metainfo.checkFiles 0 store.files = .ok store.size)
    (mirrors : store.Mirrors disk memory) (found : memory.read range = .ok data) :
    store.read disk range = .ok data := by
  obtain ⟨sized, within, holds⟩ := MemoryStore.read_ok found
  rw [mirrors.sized] at within
  have located := segments_eq within
  have tiles := tiles_filterMap store ordered within
  rw [Nat.zero_sub, Nat.min_zero, ← sized] at tiles
  have read : ∀ segment ∈ store.files.filterMap (store.segment? range),
      readSegment disk segment =
        .ok ((data.drop segment.rangeOffset).take segment.length) := by
    intro segment member
    obtain ⟨file, among, part⟩ := List.mem_filterMap.mp member
    obtain ⟨content, opens, held⟩ := mirrors.holds file among
    obtain ⟨path, inside, aligned⟩ := cuts_of_segment? part
    have fits := segment?_inside part
    have opened := opens.openToRead (laid.legal file among) (laid.named file among)
    have bytes : (content.drop segment.fileOffset).take segment.length =
        (data.drop segment.rangeOffset).take segment.length := by
      apply List.ext_getElem?
      intro index
      by_cases upper : index < segment.length
      · rw [List.getElem?_take_of_lt upper, List.getElem?_take_of_lt upper, List.getElem?_drop,
          List.getElem?_drop]
        have known : segment.rangeOffset + index < data.length := by omega
        have position : range.offset + (segment.rangeOffset + index) =
            file.offset + (segment.fileOffset + index) := by omega
        have byte := holds _ known
        rw [List.getElem?_eq_getElem known, position] at byte
        rw [held _ (by omega) _ byte, List.getElem?_eq_getElem known]
      · rw [List.getElem?_take_eq_none, List.getElem?_take_eq_none]
        all_goals omega
    have whole : ((data.drop segment.rangeOffset).take segment.length).length =
        segment.length := by
      simp only [List.length_take, List.length_drop]
      omega
    simp only [readSegment, path, opened, bytes, whole, ↓reduceIte]
  have filled := fillBuffer_ok tiles read
  rw [List.take_zero, List.nil_append, Nat.sub_zero, sized] at filled
  simp only [FileStore.read, located, filled]

theorem Mirrors.checksum (laid : store.Laid)
    (ordered : Metainfo.checkFiles 0 store.files = .ok store.size)
    (mirrors : store.Mirrors disk memory) {digest : Digest}
    (found : memory.checksum range = .ok digest) : store.checksum disk range = .ok digest := by
  unfold MemoryStore.checksum at found
  cases read : memory.read range with
  | error fault =>
    rw [read] at found
    cases found
  | ok data =>
    rw [read] at found
    cases found
    simp only [FileStore.checksum, mirrors.read laid ordered read]
    rfl

/-- The disk behind a sequence of calls. -/
def run (store : FileStore) (disk : Disk) (calls : List Awaiting) : Disk :=
  calls.foldl (fun disk call => (store.answer disk call).1) disk

end FileStore

/-- The store behind a sequence of calls. -/
def MemoryStore.run (memory : MemoryStore) (calls : List Awaiting) : MemoryStore :=
  calls.foldl (fun memory call => (memory.answer call).1) memory

namespace FileStore

/-- Whatever the two stores are asked, in any order, the files keep up with the memory. -/
theorem Mirrors.run (laid : store.Laid) (mirrors : store.Mirrors disk memory)
    (calls : List Awaiting) : store.Mirrors (store.run disk calls) (memory.run calls) := by
  induction calls generalizing disk memory with
  | nil => exact mirrors
  | cons call rest ih =>
    refine ih ?_
    cases call with
    | write request range data =>
      rcases mirrors.write laid range data with ⟨after, later, done, written, next⟩ |
        ⟨fault, refusal, refused, also⟩
      · simp only [FileStore.answer, MemoryStore.answer, done, written]
        exact next
      · simp only [FileStore.answer, MemoryStore.answer, refused, also]
        exact mirrors
    | checksum piece => exact mirrors
    | read request range => exact mirrors

/-- Nothing is written yet to a store in memory, so files of any content mirror it. -/
theorem mirrors_empty
    (opens : ∀ file ∈ store.files, ∃ content, disk.Opens (store.path file) content) :
    store.Mirrors disk (.empty store.size) where
  sized := List.length_replicate ..
  working := ⟨rfl, rfl⟩
  holds := by
    intro file member
    obtain ⟨content, opened⟩ := opens file member
    refine ⟨content, opened, ?_⟩
    intro place within byte found
    simp only [MemoryStore.byte?, MemoryStore.empty, List.getElem?_replicate] at found
    split at found <;> cases found

/-- A range that does not leave the torrent is split into segments that follow one another, each
inside its file, so that every byte of the range is at its place in the file that has it. -/
theorem segments_ok (ordered : Metainfo.checkFiles 0 store.files = .ok store.size)
    (within : range.stop ≤ store.size) :
    ∃ segments, store.segments range = .ok segments ∧ Segment.Tiles 0 range.length segments ∧
      (∀ segment ∈ segments, ∃ file ∈ store.files, segment.Cuts store range file) ∧
      ∀ position, range.offset ≤ position → position < range.stop →
        ∃ file ∈ store.files, file.Has position ∧ ∃ segment ∈ segments,
          segment.Cuts store range file ∧
          segment.Puts range position (position - file.offset) := by
  have located := segments_eq within
  refine ⟨_, located, ?_, segments_cut located, ?_⟩
  · have tiles := tiles_filterMap store ordered within
    rw [Nat.zero_sub, Nat.min_zero] at tiles
    exact tiles
  · intro position lower upper
    obtain ⟨file, member, has⟩ :=
      Metainfo.file_of_checked ordered (Nat.zero_le _) (Nat.lt_of_lt_of_le upper within)
    obtain ⟨segment, part, puts⟩ := segment?_puts store has lower upper
    exact ⟨file, member, has, segment, List.mem_filterMap.mpr ⟨file, member, part⟩,
      cuts_of_segment? part, puts⟩

/-- A store of files refines a store in memory of the same size. Ranges are split at the ends of
the files without gap or overlap. Once the files are made, which keeps those that were there, both
stores accept the same writes whatever came before, a write that is refused changes nothing, and
what the memory reads or hashes the files read and hash alike. -/
theorem refines_memory {info : Metainfo} (valid : info.validate = .ok ())
    (files : store.files = info.files) (laid : store.Laid)
    (fits : ∀ file ∈ store.files, store.Fits disk file) :
    (∀ range : ByteRange, range.stop ≤ info.totalLength →
      ∃ segments, store.segments range = .ok segments ∧ Segment.Tiles 0 range.length segments ∧
        (∀ segment ∈ segments, ∃ file ∈ store.files, segment.Cuts store range file) ∧
        ∀ position, range.offset ≤ position → position < range.stop →
          ∃ file ∈ store.files, file.Has position ∧ ∃ segment ∈ segments,
            segment.Cuts store range file ∧
            segment.Puts range position (position - file.offset)) ∧
    ∃ created, store.create disk = (created, .ok ()) ∧ disk.Grows created ∧
      ∀ calls : List Awaiting,
        let now := store.run created calls
        let memory := (MemoryStore.empty info.totalLength).run calls
        (∀ range data,
          (∃ after later, store.write now range data = (after, .ok ()) ∧
            memory.write range data = .ok later) ∨
          ∃ fault refusal, store.write now range data = (now, .error fault) ∧
            memory.write range data = .error refusal) ∧
        (∀ range data, memory.read range = .ok data → store.read now range = .ok data) ∧
        ∀ range digest, memory.checksum range = .ok digest →
          store.checksum now range = .ok digest := by
  have checked := Metainfo.files_checked valid
  rw [← files] at checked
  have size : store.size = info.totalLength := size_eq checked
  rw [← size] at checked ⊢
  refine ⟨fun range within => segments_ok checked within, ?_⟩
  obtain ⟨created, made, grows, opens⟩ := create_ok laid fits
  refine ⟨created, made, grows, ?_⟩
  intro calls now memory
  have mirrors : store.Mirrors now memory := (mirrors_empty opens).run laid calls
  refine ⟨?_, fun range data => mirrors.read laid checked,
    fun range digest => mirrors.checksum laid checked⟩
  intro range data
  rcases mirrors.write laid range data with ⟨after, later, done, written, -⟩ | refused
  · exact Or.inl ⟨after, later, done, written⟩
  · exact Or.inr refused

end FileStore

/-! ### A layout with a file that is there and one that leads up -/

namespace Sample

def tray : Metainfo :=
  .ofFiles (sha1 []) "tray" 4 [sha1 [], sha1 []] [("a", 3), ("b/../c", 0), ("b/e", 2)]

def drawer : FileStore :=
  ⟨"d", tray.files⟩

def shelf : Disk :=
  ⟨[(["d"], .directory), (["d", "a"], .file [9, 9, 9, 9, 9])]⟩

theorem drawer_laid : drawer.Laid where
  legal := by
    have plain : ∀ file ∈ drawer.files,
        (drawer.path file).toList.contains (Char.ofNat 0) = false := by decide
    have short : ∀ file ∈ drawer.files, ∀ part ∈ Path.parts (drawer.path file),
        part.utf8ByteSize ≤ Disk.maxName := by decide
    exact fun file member => ⟨plain file member, short file member⟩
  named := by
    intro file member
    simp only [drawer, tray, Metainfo.ofFiles, Metainfo.placeFiles, List.mem_cons,
      List.not_mem_nil, or_false] at member
    rcases member with rfl | rfl | rfl
    · exact ⟨[['d']], ['a'], by decide, by decide, by decide⟩
    · exact ⟨[['d'], ['b'], ['.', '.']], ['c'], by decide, by decide, by decide⟩
    · exact ⟨[['d'], ['b']], ['e'], by decide, by decide, by decide⟩
  distinct := by decide
  apart := by decide

theorem drawer_fits : ∀ file ∈ drawer.files, drawer.Fits shelf file := by
  have ways : ∀ file ∈ drawer.files, ∀ place ∈ Path.passed (drawer.path file),
      shelf.find? place = none ∨ shelf.find? place = some .directory := by decide
  have free : ∀ file ∈ drawer.files,
      shelf.find? (Path.resolve (drawer.path file)) ≠ some .directory := by decide
  refine fun file member => ⟨?_, free file member⟩
  intro place passed content found
  rcases ways file member place passed with none | directory
  · rw [none] at found
    cases found
  · rw [directory] at found
    cases found

end Sample

/-- Two writes that cross the end of a file, the second over the first, and a read of the bytes of
both. -/
theorem FileStore.refines_memory_tray :
    Sample.tray.validate = .ok () ∧ Sample.drawer.Laid ∧
      (∀ file ∈ Sample.drawer.files, Sample.drawer.Fits Sample.shelf file) ∧
      ∃ created, Sample.drawer.create Sample.shelf = (created, .ok ()) ∧
        Sample.drawer.read (Sample.drawer.run created
          [.write ⟨0, 0, 3⟩ ⟨1, 3⟩ [1, 2, 3], .write ⟨0, 0, 3⟩ ⟨2, 2⟩ [4, 5]]) ⟨1, 3⟩ =
          .ok [1, 4, 5] := by
  have valid : Sample.tray.validate = .ok () := rfl
  obtain ⟨-, created, made, -, agree⟩ :=
    refines_memory valid rfl Sample.drawer_laid Sample.drawer_fits
  obtain ⟨-, reads, -⟩ :=
    agree [.write ⟨0, 0, 3⟩ ⟨1, 3⟩ [1, 2, 3], .write ⟨0, 0, 3⟩ ⟨2, 2⟩ [4, 5]]
  exact ⟨valid, Sample.drawer_laid, Sample.drawer_fits, created, made, reads _ _ rfl⟩

end BitTorrent
