import BitTorrent.Proofs.Mirror
import BitTorrent.Proofs.Opening
import BitTorrent.Proofs.Trace

/-!
What is read back from a store. A store in memory gives bytes that were written and refuses a range
with any other. Files are made at their full length before anything is written to them, so they give
the bytes that were written last and a zero wherever nothing was written: blanks that are read like
data.
-/

set_option autoImplicit false

namespace BitTorrent

variable {store : FileStore} {disk before after made : Disk} {file other : FileEntry}
  {files : List FileEntry} {range : ByteRange} {data content : Bytes} {segment : Segment}
  {segments : List Segment} {trace : Trace} {start position : Nat}

/-! ### Where a position is kept -/

instance (file : FileEntry) (position : Nat) : Decidable (file.Has position) :=
  inferInstanceAs (Decidable (_ ∧ _))

/-- The byte at some distance from the start of the file with some names. -/
def Disk.byte? (disk : Disk) (place : List String × Nat) : Option UInt8 :=
  match disk.find? place.1 with
  | some (.file content) => content[place.2]?
  | _ => none

theorem Disk.byte?_file {names : List String} (found : disk.find? names = some (.file content))
    (index : Nat) : disk.byte? (names, index) = content[index]? := by
  rw [byte?, found]

theorem Disk.byte?_put_other {names other : List String} (below : names ≠ [])
    (apart : other ≠ names) (entry : DiskEntry) (index : Nat) :
    (disk.put names entry).byte? (other, index) = disk.byte? (other, index) := by
  simp only [byte?, find?_put_other disk below apart]

theorem Metainfo.offset_le {cursor covered : Nat} (checked : checkFiles cursor files = .ok covered)
    (member : file ∈ files) : cursor ≤ file.offset := by
  induction files generalizing cursor with
  | nil => cases member
  | cons first rest ih =>
    obtain ⟨begins, later⟩ := checkFiles_cons checked
    rcases List.mem_cons.mp member with rfl | behind
    · exact Nat.le_of_eq begins.symm
    · have after := ih later behind
      simp only [FileEntry.stop] at after
      omega

/-- Of files that are in order, no two have a position in common. -/
theorem Metainfo.has_unique {cursor covered : Nat} (checked : checkFiles cursor files = .ok covered)
    (member : file ∈ files) (among : other ∈ files) (has : file.Has position)
    (also : other.Has position) : file = other := by
  induction files generalizing cursor with
  | nil => cases member
  | cons first rest ih =>
    obtain ⟨-, later⟩ := checkFiles_cons checked
    simp only [FileEntry.Has] at has also
    rcases List.mem_cons.mp member with rfl | behind <;>
      rcases List.mem_cons.mp among with rfl | behind'
    · rfl
    · have after := offset_le later behind'
      omega
    · have after := offset_le later behind
      omega
    · exact ih later behind behind'

namespace FileStore

/-- Where a position of the torrent is kept: the names of its file, and the distance from its
start. -/
def place? (store : FileStore) (position : Nat) : Option (List String × Nat) :=
  (store.files.find? fun file => file.Has position).map fun file =>
    (Path.resolve (store.path file), position - file.offset)

/-- The files of a store follow one another from the first position to the last. -/
def Ordered (store : FileStore) : Prop :=
  Metainfo.checkFiles 0 store.files = .ok store.size

theorem place?_eq (ordered : store.Ordered) (member : file ∈ store.files)
    (has : file.Has position) :
    store.place? position = some (Path.resolve (store.path file), position - file.offset) := by
  have keeps : (store.files.find? fun file => file.Has position) = some file := by
    cases found : store.files.find? fun file => file.Has position with
    | none =>
      have absent := List.find?_eq_none.mp found file member
      exact absurd (decide_eq_true has) absent
    | some first =>
      have also : first.Has position := by simpa using List.find?_some found
      have among := List.mem_of_find?_eq_some found
      rw [Metainfo.has_unique ordered member among has also]
  rw [place?, keeps, Option.map_some]

/-- The positions of a segment are kept one behind the other in its file. -/
theorem place?_segment (ordered : store.Ordered) (member : file ∈ store.files)
    (cuts : segment.Cuts store range file) {index : Nat} (inside : index < segment.length) :
    file.Has (range.offset + segment.rangeOffset + index) ∧
      store.place? (range.offset + segment.rangeOffset + index) =
        some (Path.resolve (store.path file), segment.fileOffset + index) := by
  obtain ⟨-, within, aligned⟩ := cuts
  have has : file.Has (range.offset + segment.rangeOffset + index) := by
    simp only [FileEntry.Has, FileEntry.stop]
    omega
  have distance : range.offset + segment.rangeOffset + index - file.offset =
      segment.fileOffset + index := by omega
  exact ⟨has, by rw [place?_eq ordered member has, distance]⟩

/-- Where files are told apart, positions are. -/
theorem Laid.place?_injective (laid : store.Laid) (ordered : store.Ordered) {other : Nat}
    (within : position < store.size) (also : other < store.size)
    (same : store.place? other = store.place? position) : other = position := by
  obtain ⟨file, member, has⟩ := Metainfo.file_of_checked ordered (Nat.zero_le _) within
  obtain ⟨twin, among, holds⟩ := Metainfo.file_of_checked ordered (Nat.zero_le _) also
  rw [place?_eq ordered member has, place?_eq ordered among holds, Option.some.injEq,
    Prod.mk.injEq] at same
  obtain rfl := List.inj_on_of_nodup_map laid.distinct among member same.1
  simp only [FileEntry.Has] at has holds
  omega

/-! ### Files that are made -/

/-- A file that is new stands in the place of one of some entries, and is full of zeros. -/
def Fresh (store : FileStore) (files : List FileEntry) (before after : Disk) : Prop :=
  ∀ names content, after.find? names = some (.file content) →
    before.find? names = some (.file content) ∨
      ∃ file ∈ files, names = Path.resolve (store.path file) ∧
        content = List.replicate file.length 0

theorem createFile_fresh (store : FileStore) (disk : Disk) (file : FileEntry) :
    store.Fresh [file] disk (store.createFile disk file).1 := by
  have spares := Disk.makeParents_spares disk (store.path file)
  intro names content
  unfold createFile
  dsimp only
  split
  · rename_i parents
    rw [parents] at spares
    exact fun found => Or.inl (spares names content found)
  · rename_i middle parents
    rw [parents] at spares
    split
    · exact fun found => Or.inl (spares names content found)
    · unfold Disk.writeFile
      cases opened : middle.openToWrite (store.path file) with
      | error cause => exact fun found => Or.inl (spares names content found)
      | ok place =>
        obtain ⟨same, below, -, -⟩ := Disk.openToWrite_ok opened
        dsimp only
        rw [Disk.find?_put middle below]
        split
        · rename_i here
          rintro ⟨⟩
          exact Or.inr ⟨file, List.mem_singleton_self _, here.trans same, rfl⟩
        · exact fun found => Or.inl (spares names content found)

theorem forEach_createFile_fresh (store : FileStore) (disk : Disk) (files : List FileEntry) :
    store.Fresh files disk (forEach store.createFile disk files).1 := by
  induction files generalizing disk with
  | nil => exact fun _ _ found => Or.inl found
  | cons file rest ih =>
    have first := createFile_fresh store disk file
    have alone : ∀ (names : List String) (content : Bytes),
        (∃ entry ∈ [file], names = Path.resolve (store.path entry) ∧
          content = List.replicate entry.length 0) →
        ∃ entry ∈ file :: rest, names = Path.resolve (store.path entry) ∧
          content = List.replicate entry.length 0 := by
      rintro names content ⟨entry, member, blank⟩
      exact ⟨entry, List.mem_cons.mpr (Or.inl (List.mem_singleton.mp member)), blank⟩
    intro names content
    rw [forEach]
    split
    · rename_i middle made
      rw [made] at first
      intro found
      rcases ih middle names content found with standing | ⟨entry, member, blank⟩
      · exact (first names content standing).imp_right (alone names content)
      · exact Or.inr ⟨entry, List.mem_cons_of_mem _ member, blank⟩
    · rename_i made
      rw [made] at first
      exact fun found => (first names content found).imp_right (alone names content)

/-- No file stands yet where one of the torrent is to be. -/
def Vacant (store : FileStore) (disk : Disk) : Prop :=
  ∀ file ∈ store.files, ∀ content,
    disk.find? (Path.resolve (store.path file)) ≠ some (.file content)

/-- Where no file stood, each file that is made is as long as one of those that share its place, and
full of zeros. -/
theorem Vacant.zeros (vacant : store.Vacant disk)
    (created : store.create disk = (made, .ok ())) (member : file ∈ store.files)
    (found : made.find? (Path.resolve (store.path file)) = some (.file content)) :
    ∃ twin ∈ store.files, Path.resolve (store.path file) = Path.resolve (store.path twin) ∧
      content = List.replicate twin.length 0 := by
  have fresh := forEach_createFile_fresh store disk store.files
  rw [show forEach store.createFile disk store.files = (made, .ok ()) from created] at fresh
  exact (fresh _ _ found).resolve_left (vacant file member content)

/-! ### What is written -/

/-- Files hold what was put at each place last, and zeros besides. -/
structure Keeps (store : FileStore) (disk : Disk)
    (known : Option (List String × Nat) → Option UInt8) : Prop where
  written : ∀ place byte, known (some place) = some byte → disk.byte? place = some byte
  blank : ∀ file ∈ store.files, ∀ index byte,
    known (some (Path.resolve (store.path file), index)) = none →
      disk.byte? (Path.resolve (store.path file), index) = some byte → byte = 0

/-- Files that were just made hold zeros. -/
theorem Vacant.keeps (vacant : store.Vacant disk) (created : store.create disk = (made, .ok ())) :
    store.Keeps made fun _ => none where
  written := nofun
  blank := by
    intro file member index byte _ held
    unfold Disk.byte? at held
    split at held
    · rename_i content found
      dsimp only at found
      obtain ⟨twin, -, -, rfl⟩ := vacant.zeros created member found
      exact List.eq_of_mem_replicate (List.mem_of_getElem? held)
    · cases held

/-- What is laid down for a segment is laid down in its file, from where the segment starts. -/
theorem lay_segment {known : Option (List String × Nat) → Option UInt8} (ordered : store.Ordered)
    (member : file ∈ store.files) (cuts : segment.Cuts store range file)
    (sized : data.length = segment.length) (names : List String) (index : Nat) :
    Trace.lay store.place? (range.offset + segment.rangeOffset) data known (some (names, index)) =
      if names = Path.resolve (store.path file) ∧ segment.fileOffset ≤ index ∧
          index < segment.fileOffset + data.length then data[index - segment.fileOffset]?
      else known (some (names, index)) := by
  have kept : ∀ offset < data.length,
      store.place? (range.offset + segment.rangeOffset + offset) =
        some (Path.resolve (store.path file), segment.fileOffset + offset) :=
    fun offset inside => (place?_segment ordered member cuts (sized ▸ inside)).2
  split
  · rename_i here
    obtain ⟨same, lower, upper⟩ := here
    obtain rfl := same.symm
    refine Trace.lay_used (by omega) ?_ fun offset inside same => ?_
    · rw [kept _ (by omega), Nat.add_sub_of_le lower]
    · rw [kept offset inside, Option.some.injEq, Prod.mk.injEq] at same
      omega
  · rename_i elsewhere
    refine Trace.lay_unused fun offset inside same => elsewhere ?_
    rw [kept offset inside, Option.some.injEq, Prod.mk.injEq] at same
    exact ⟨same.1.symm, by omega, by omega⟩

end FileStore

/-! ### One file that is written -/

namespace Disk

variable {names other : List String} {offset index : Nat} {byte : UInt8}

/-- Data that is written behind the end of a file leaves zeros before it. -/
theorem eq_zero_of_overwrite (beyond : content.length ≤ index)
    (outside : ¬(offset ≤ index ∧ index < offset + data.length))
    (held : (overwrite content offset data)[index]? = some byte) : byte = 0 := by
  have front := length_front content offset
  by_cases gap : index < offset
  · rw [overwrite, List.append_assoc, List.getElem?_append_left (by rw [front]; exact gap),
      List.getElem?_append_right (by rw [List.length_take]; omega)] at held
    exact List.eq_of_mem_replicate (List.mem_of_getElem? held)
  · have length : (overwrite content offset data).length ≤ index := by
      rw [overwrite, List.length_append, List.length_append, front, List.length_drop]
      omega
    rw [List.getElem?_eq_none length] at held
    cases held

theorem byte?_put_self (below : names ≠ []) (index : Nat) :
    (disk.put names (.file content)).byte? (names, index) = content[index]? :=
  byte?_file (find?_put_self disk below _) index

/-- What a file holds that was opened to be written, be it new. -/
theorem byte?_standing
    (standing : disk.find? names = some (.file content) ∨ disk.find? names = none ∧ content = [])
    (index : Nat) : disk.byte? (names, index) = content[index]? := by
  rcases standing with found | ⟨free, rfl⟩
  · exact byte?_file found index
  · simp [byte?, free]

/-- A byte stays that is not in the part of a file which is written. -/
theorem byte?_of_before (below : names ≠ [])
    (standing : disk.find? names = some (.file content) ∨ disk.find? names = none ∧ content = [])
    (outside : ¬(other = names ∧ offset ≤ index ∧ index < offset + data.length))
    (held : disk.byte? (other, index) = some byte) :
    (disk.put names (.file (overwrite content offset data))).byte? (other, index) = some byte := by
  by_cases same : other = names
  · subst same
    rw [byte?_standing standing] at held
    obtain ⟨short, -⟩ := List.getElem?_eq_some_iff.mp held
    have apart : ¬(offset ≤ index ∧ index < offset + data.length) :=
      fun inside => outside ⟨rfl, inside⟩
    rw [byte?_put_self below, getElem?_overwrite_outside short (by omega), held]
  · rw [byte?_put_other below same, held]

/-- A byte that is not in the part of a file which is written was there before, or it is a zero. -/
theorem byte?_of_after (below : names ≠ [])
    (standing : disk.find? names = some (.file content) ∨ disk.find? names = none ∧ content = [])
    (outside : ¬(other = names ∧ offset ≤ index ∧ index < offset + data.length))
    (held : (disk.put names (.file (overwrite content offset data))).byte? (other, index) =
      some byte) : disk.byte? (other, index) = some byte ∨ byte = 0 := by
  by_cases same : other = names
  · subst same
    have apart : ¬(offset ≤ index ∧ index < offset + data.length) :=
      fun inside => outside ⟨rfl, inside⟩
    rw [byte?_put_self below] at held
    by_cases short : index < content.length
    · rw [getElem?_overwrite_outside short (by omega)] at held
      exact Or.inl ((byte?_standing standing index).trans held)
    · exact Or.inr (eq_zero_of_overwrite (Nat.le_of_not_lt short) apart held)
  · rw [byte?_put_other below same] at held
    exact Or.inl held

end Disk

namespace FileStore

/-- The file of a segment holds the part that was written to it; nothing else has changed. -/
theorem writeSegment_keeps {known : Option (List String × Nat) → Option UInt8}
    (ordered : store.Ordered) (member : file ∈ store.files) (cuts : segment.Cuts store range file)
    (inside : segment.rangeOffset + segment.length ≤ data.length) (keeps : store.Keeps disk known)
    (written : writeSegment data disk segment = (after, .ok ())) :
    store.Keeps after (Trace.lay store.place? (range.offset + segment.rangeOffset)
      ((data.drop segment.rangeOffset).take segment.length) known) := by
  have sized : ((data.drop segment.rangeOffset).take segment.length).length = segment.length := by
    simp only [List.length_take, List.length_drop]
    omega
  unfold writeSegment at written
  generalize (data.drop segment.rangeOffset).take segment.length = part at sized written ⊢
  rw [cuts.path] at written
  split at written
  · cases written
  · rename_i names content opened
    obtain ⟨same, below, standing, -⟩ := Disk.openToWrite_ok opened
    obtain rfl := same.symm
    cases written
    have laid := @lay_segment store file range part segment known ordered member cuts sized
    constructor
    · rintro ⟨names, index⟩ byte put
      rw [laid] at put
      split at put
      · rename_i here
        obtain ⟨same, lower, upper⟩ := here
        obtain rfl := same.symm
        rw [Disk.byte?_put_self below, Disk.getElem?_overwrite_inside lower upper, put]
      · rename_i elsewhere
        exact Disk.byte?_of_before below standing elsewhere (keeps.written _ _ put)
    · intro other among index byte unknown found
      rw [laid] at unknown
      split at unknown
      · rw [List.getElem?_eq_none_iff] at unknown
        omega
      · rename_i elsewhere
        rcases Disk.byte?_of_after below standing elsewhere found with stood | zero
        · exact keeps.blank other among index byte unknown stood
        · exact zero

theorem writeSegment_extends (written : writeSegment data disk segment = (after, .ok ())) :
    disk.Extends after ∧ ∃ content, after.Leads segment.path content := by
  unfold writeSegment at written
  split at written
  · cases written
  · rename_i names content opened
    obtain ⟨-, below, standing, leads⟩ := Disk.openToWrite_ok opened
    cases written
    have grown : content.length ≤ (Disk.overwrite content segment.fileOffset
        ((data.drop segment.rangeOffset).take segment.length)).length := by
      simp only [Disk.overwrite, List.length_append, List.length_take, List.length_replicate,
        List.length_drop]
      omega
    exact ⟨Disk.extends_put below standing grown, _, leads _⟩

theorem forEach_writeSegment_keeps {known : Option (List String × Nat) → Option UInt8}
    (ordered : store.Ordered)
    (cut : ∀ segment ∈ segments, ∃ file ∈ store.files, segment.Cuts store range file)
    (tiles : Segment.Tiles start data.length segments) (keeps : store.Keeps disk known)
    (done : forEach (writeSegment data) disk segments = (after, .ok ())) :
    store.Keeps after
      (Trace.lay store.place? (range.offset + start) (data.drop start) known) := by
  induction segments generalizing disk start known with
  | nil =>
    cases done
    obtain rfl : start = data.length := tiles
    rw [List.drop_length]
    exact keeps
  | cons segment rest ih =>
    obtain ⟨rfl, -, later⟩ := tiles
    rw [forEach] at done
    split at done
    · rename_i middle written
      obtain ⟨file, member, cuts⟩ := cut segment List.mem_cons_self
      have inside : segment.rangeOffset + segment.length ≤ data.length := later.le
      have first := writeSegment_keeps ordered member cuts inside keeps written
      have others :=
        ih (fun other among => cut other (List.mem_cons_of_mem _ among)) later first done
      have sized : ((data.drop segment.rangeOffset).take segment.length).length =
          segment.length := by
        simp only [List.length_take, List.length_drop]
        omega
      have whole : data.drop segment.rangeOffset =
          (data.drop segment.rangeOffset).take segment.length ++
            data.drop (segment.rangeOffset + segment.length) := by
        rw [← List.drop_drop, List.take_append_drop]
      rw [whole, Trace.lay_append, sized, Nat.add_assoc]
      exact others
    · cases done

theorem forEach_writeSegment_extends
    (done : forEach (writeSegment data) disk segments = (after, .ok ())) :
    disk.Extends after ∧ ∀ segment ∈ segments, ∃ content, after.Leads segment.path content := by
  induction segments generalizing disk with
  | nil =>
    cases done
    exact ⟨.refl _, fun _ absent => absurd absent List.not_mem_nil⟩
  | cons segment rest ih =>
    rw [forEach] at done
    split at done
    · rename_i middle written
      obtain ⟨grows, content, leads⟩ := writeSegment_extends written
      obtain ⟨further, others⟩ := ih done
      refine ⟨grows.trans further, List.forall_mem_cons.mpr ⟨?_, others⟩⟩
      obtain ⟨longer, leads, -⟩ := further _ _ leads
      exact ⟨longer, leads⟩
    · cases done

/-- A write that succeeds is one of data as long as its range to segments that it reaches. -/
theorem write_ok (written : store.write disk range data = (after, .ok ())) :
    data.length = range.length ∧ range.stop ≤ store.size ∧
      forEach (writeSegment data) disk (store.files.filterMap (store.segment? range)) =
        (after, .ok ()) := by
  have fit : range.stop ≤ store.size ∧ data.length = range.length := by
    by_contra unfit
    obtain ⟨fault, refused⟩ := write_refused disk unfit
    rw [refused] at written
    cases written
  obtain ⟨within, exact⟩ := fit
  simp only [write, exact, ne_eq, not_true_eq_false, ↓reduceIte, segments_eq within] at written
  exact ⟨exact, within, written⟩

/-- One disk becomes another by writes that all succeed. -/
inductive Writes (store : FileStore) : Disk → Trace → Disk → Prop
  | nil (disk : Disk) : Writes store disk [] disk
  | cons {before middle after : Disk} {range : ByteRange} {data : Bytes} {trace : Trace}
      (written : store.write before range data = (middle, .ok ()))
      (rest : Writes store middle trace after) : Writes store before ((range, data) :: trace) after

theorem Writes.keeps {known : Option (List String × Nat) → Option UInt8} (ordered : store.Ordered)
    (writes : store.Writes before trace after) (keeps : store.Keeps before known) :
    store.Keeps after (Trace.replay store.place? trace known) := by
  induction writes generalizing known with
  | nil disk => exact keeps
  | @cons before middle after range data trace written rest ih =>
    obtain ⟨exact, within, done⟩ := write_ok written
    have located := segments_eq within
    have tiles := tiles_filterMap store ordered within
    rw [Nat.zero_sub, Nat.min_zero, ← exact] at tiles
    exact ih (forEach_writeSegment_keeps ordered (segments_cut located) tiles keeps done)

/-- Files never get shorter, and a file with a position that was written can be opened. -/
theorem Writes.extends (writes : store.Writes before trace after) :
    before.Extends after ∧ ∀ position, trace.Covers position → position < store.size ∧
      ∀ file ∈ store.files, file.Has position →
        ∃ content, after.Leads (store.path file) content := by
  induction writes with
  | nil disk => exact ⟨.refl disk, fun _ ⟨_, absent, _⟩ => absurd absent List.not_mem_nil⟩
  | @cons before middle after range data trace written rest ih =>
    obtain ⟨exact, within, done⟩ := write_ok written
    obtain ⟨grows, opened⟩ := forEach_writeSegment_extends done
    obtain ⟨further, reached⟩ := ih
    refine ⟨grows.trans further, ?_⟩
    rintro position ⟨write, among, lower, upper⟩
    rcases List.mem_cons.mp among with rfl | later
    · have stop : range.stop = range.offset + range.length := rfl
      dsimp only at lower upper
      refine ⟨by omega, fun file member has => ?_⟩
      obtain ⟨segment, found, -⟩ := segment?_puts store has lower (by omega)
      obtain ⟨content, leads⟩ := opened segment (List.mem_filterMap.mpr ⟨file, member, found⟩)
      rw [(cuts_of_segment? found).path] at leads
      obtain ⟨longer, leads, -⟩ := further _ _ leads
      exact ⟨longer, leads⟩
    · exact reached position ⟨write, later, lower, upper⟩

/-! ### What is read -/

theorem readSegment_eq_ok {part : Bytes} :
    readSegment disk segment = .ok part ↔ ∃ content, disk.Leads segment.path content ∧
      part = (content.drop segment.fileOffset).take segment.length ∧
        part.length = segment.length := by
  unfold readSegment
  constructor
  · intro read
    split at read
    · cases read
    · cases read
    · rename_i content opened
      dsimp only at read
      split at read
      · rename_i whole
        cases read
        exact ⟨content, Disk.openToRead_eq_ok.mp opened, rfl, whole⟩
      · cases read
  · rintro ⟨content, leads, rfl, whole⟩
    simp only [Disk.openToRead_eq_ok.mpr leads, whole, ↓reduceIte]

/-- Of a buffer that is filled in order, what lies before the first segment stays, and every other
byte is that of the segment which has it. -/
theorem getElem?_fillBuffer {stop : Nat} {buffer : Bytes}
    (tiles : Segment.Tiles start stop segments) (sized : stop ≤ buffer.length)
    (filled : fillBuffer disk buffer segments = .ok data) :
    (∀ index < start, data[index]? = buffer[index]?) ∧
      ∀ index, start ≤ index → index < stop → ∃ segment ∈ segments, ∃ part,
        readSegment disk segment = .ok part ∧ segment.rangeOffset ≤ index ∧
          index < segment.rangeOffset + segment.length ∧
          data[index]? = part[index - segment.rangeOffset]? := by
  induction segments generalizing buffer start with
  | nil =>
    cases filled
    obtain rfl : start = stop := tiles
    exact ⟨fun _ _ => rfl, fun index lower upper => by omega⟩
  | cons segment rest ih =>
    obtain ⟨rfl, -, later⟩ := tiles
    rw [fillBuffer] at filled
    split at filled
    · cases filled
    · rename_i part read
      have whole := length_readSegment read
      have inside := later.le
      have length : (Disk.overwrite buffer segment.rangeOffset part).length = buffer.length :=
        Disk.length_overwrite (by omega)
      obtain ⟨front, back⟩ := ih later (by omega) filled
      constructor
      · intro index ahead
        rw [front index (by omega), Disk.getElem?_overwrite_outside (by omega) (by omega)]
      · intro index lower upper
        by_cases here : index < segment.rangeOffset + segment.length
        · refine ⟨segment, List.mem_cons_self, part, read, lower, here, ?_⟩
          rw [front index here, Disk.getElem?_overwrite_inside lower (by omega)]
        · obtain ⟨other, member, found⟩ := back index (by omega) upper
          exact ⟨other, List.mem_cons_of_mem _ member, found⟩

/-- What is read of a position is the byte that stands where the position is kept. -/
theorem read_byte (ordered : store.Ordered) (within : range.stop ≤ store.size)
    (read : store.read disk range = .ok data) {index : Nat} (inside : index < range.length) :
    ∃ file ∈ store.files, ∃ distance byte,
      store.place? (range.offset + index) = some (Path.resolve (store.path file), distance) ∧
        disk.byte? (Path.resolve (store.path file), distance) = some byte ∧
        data[index]? = some byte := by
  have located := segments_eq within
  have tiles := tiles_filterMap store ordered within
  rw [Nat.zero_sub, Nat.min_zero] at tiles
  simp only [FileStore.read, located] at read
  obtain ⟨-, each⟩ := getElem?_fillBuffer tiles (by rw [List.length_replicate]) read
  obtain ⟨segment, member, part, found, lower, upper, same⟩ := each index (Nat.zero_le _) inside
  obtain ⟨file, among, cuts⟩ := segments_cut located segment member
  obtain ⟨content, leads, rfl, whole⟩ := readSegment_eq_ok.mp found
  obtain ⟨-, kept⟩ :=
    place?_segment ordered among cuts (show index - segment.rangeOffset < segment.length by omega)
  have position : range.offset + segment.rangeOffset + (index - segment.rangeOffset) =
      range.offset + index := by omega
  rw [position] at kept
  have stands := leads.found
  rw [cuts.path] at stands
  rw [List.getElem?_take_of_lt (by omega), List.getElem?_drop] at same
  have long : segment.fileOffset + (index - segment.rangeOffset) < content.length := by
    rw [List.length_take, List.length_drop] at whole
    omega
  refine ⟨file, among, _, content[segment.fileOffset + (index - segment.rangeOffset)], kept, ?_, ?_⟩
  · rw [Disk.byte?_file stands, List.getElem?_eq_getElem long]
  · rw [same, List.getElem?_eq_getElem long]

theorem fillBuffer_total (read : ∀ segment ∈ segments, ∃ part, readSegment disk segment = .ok part)
    (buffer : Bytes) : ∃ data, fillBuffer disk buffer segments = .ok data := by
  induction segments generalizing buffer with
  | nil => exact ⟨buffer, rfl⟩
  | cons segment rest ih =>
    obtain ⟨part, first⟩ := read segment List.mem_cons_self
    simp only [fillBuffer, first]
    exact ih (fun other member => read other (List.mem_cons_of_mem _ member)) _

/-- A range is read if every file that has some of it can be opened and is long enough. -/
theorem read_total (within : range.stop ≤ store.size)
    (each : ∀ file ∈ store.files, ∀ segment, store.segment? range file = some segment →
      ∃ content, disk.Leads (store.path file) content ∧
        segment.fileOffset + segment.length ≤ content.length) :
    ∃ data, store.read disk range = .ok data := by
  simp only [FileStore.read, segments_eq within]
  refine fillBuffer_total (fun segment member => ?_) _
  obtain ⟨file, among, found⟩ := List.mem_filterMap.mp member
  obtain ⟨content, leads, long⟩ := each file among segment found
  refine ⟨_, readSegment_eq_ok.mpr ⟨content, ?_, rfl, ?_⟩⟩
  · rw [(cuts_of_segment? found).path]
    exact leads
  · simp only [List.length_take, List.length_drop]
    omega

/-! ### Reading behind writes -/

/-- Whatever is read is the byte that was written last to where its position is kept, or a zero. -/
theorem Writes.read_last (ordered : store.Ordered) (vacant : store.Vacant disk)
    (created : store.create disk = (made, .ok ())) (writes : store.Writes made trace after)
    (within : range.stop ≤ store.size) (read : store.read after range = .ok data) :
    data.length = range.length ∧ ∀ index < range.length, data[index]? =
      some ((trace.last store.place? (store.place? (range.offset + index))).getD 0) := by
  have keeps := writes.keeps ordered (vacant.keeps created)
  refine ⟨length_read read, fun index inside => ?_⟩
  obtain ⟨file, member, distance, byte, kept, held, same⟩ := read_byte ordered within read inside
  rw [kept, same]
  cases found : trace.last store.place? (some (Path.resolve (store.path file), distance)) with
  | none => rw [keeps.blank file member distance byte found held, Option.getD_none]
  | some other =>
    have stood := keeps.written _ other found
    rw [held] at stood
    rw [Option.getD_some, Option.some.inj stood]

/-- A range can be read once all of its bytes are written. -/
theorem Writes.read_covered (ordered : store.Ordered) (vacant : store.Vacant disk)
    (created : store.create disk = (made, .ok ())) (writes : store.Writes made trace after)
    (within : range.stop ≤ store.size)
    (covered : ∀ position, range.offset ≤ position → position < range.stop →
      trace.Covers position) : ∃ data, store.read after range = .ok data := by
  have keeps := writes.keeps ordered (vacant.keeps created)
  obtain ⟨-, reached⟩ := writes.extends
  refine read_total within fun file member segment found => ?_
  have cuts := cuts_of_segment? found
  have inside := segment?_inside found
  have positive : 0 < segment.length := by
    rcases segment?_eq store range file with ⟨none, -⟩ | ⟨other, same, shared, -, -, -, length⟩
    · rw [none] at found
      cases found
    · obtain rfl : other = segment := Option.some.inj (same.symm.trans found)
      omega
  have stop : range.stop = range.offset + range.length := rfl
  -- The last byte of the segment was written, so the file is long enough for all of it.
  obtain ⟨has, kept⟩ :=
    place?_segment ordered member cuts (show segment.length - 1 < segment.length by omega)
  have final := covered _ (by omega)
    (show range.offset + segment.rangeOffset + (segment.length - 1) < range.stop by omega)
  obtain ⟨content, leads⟩ := (reached _ final).2 file member has
  refine ⟨content, leads, ?_⟩
  have known := (@Trace.isSome_last _ _ store.place? _ trace).mpr ⟨_, final, kept⟩
  obtain ⟨byte, last⟩ := Option.isSome_iff_exists.mp known
  have stands := keeps.written _ byte last
  rw [Disk.byte?_file leads.found] at stands
  obtain ⟨long, -⟩ := List.getElem?_eq_some_iff.mp stands
  omega

/-- Files that have places of their own are made at their full lengths. -/
theorem Laid.made_whole (laid : store.Laid) (fits : ∀ file ∈ store.files, store.Fits disk file)
    (vacant : store.Vacant disk) (created : store.create disk = (made, .ok ()))
    (member : file ∈ store.files) :
    ∃ content, made.Leads (store.path file) content ∧ content.length = file.length := by
  obtain ⟨other, done, -, opens⟩ := create_ok laid fits
  obtain ⟨rfl, -⟩ := Prod.mk.inj (done.symm.trans created)
  obtain ⟨content, opened⟩ := opens file member
  have read := opened.openToRead (laid.legal file member) (laid.named file member)
  have leads := Disk.openToRead_eq_ok.mp read
  obtain ⟨twin, among, same, rfl⟩ := vacant.zeros created member leads.found
  obtain rfl := List.inj_on_of_nodup_map laid.distinct member among same
  exact ⟨_, leads, List.length_replicate⟩

/-- Files that have places of their own are read wherever they are, written or not. -/
theorem Laid.read_blank (laid : store.Laid) (fits : ∀ file ∈ store.files, store.Fits disk file)
    (ordered : store.Ordered) (vacant : store.Vacant disk)
    (created : store.create disk = (made, .ok ())) (writes : store.Writes made trace after)
    (within : range.stop ≤ store.size) :
    ∃ data, store.read after range = .ok data ∧ data.length = range.length ∧
      ∀ index < range.length,
        data[index]? = some ((trace.last id (range.offset + index)).getD 0) := by
  obtain ⟨grows, reached⟩ := writes.extends
  have total : ∃ data, store.read after range = .ok data := by
    refine read_total within fun file member segment found => ?_
    obtain ⟨content, leads, whole⟩ := laid.made_whole fits vacant created member
    obtain ⟨longer, leads, grown⟩ := grows _ _ leads
    have inside := (cuts_of_segment? found).within
    exact ⟨longer, leads, by omega⟩
  obtain ⟨data, read⟩ := total
  obtain ⟨length, each⟩ := writes.read_last ordered vacant created within read
  refine ⟨data, read, length, fun index inside => ?_⟩
  have stop : range.stop = range.offset + range.length := rfl
  have alone : ∀ other, trace.Covers other →
      store.place? other = store.place? (range.offset + index) → other = range.offset + index :=
    fun other covers same =>
      laid.place?_injective ordered (by omega) (reached other covers).1 same
  rw [each index inside, Trace.last_eq alone]

end FileStore

/-- What is read behind any writes that succeed. A new store in memory reads a range exactly if each
of its bytes was written, and gives what was written last; content that it is given at first is as
good as written. A store of files whose files were made where none stood before never reads anything
but the byte that was written last to where a position is kept, or a zero where none was; it reads
whatever is written in full. If nothing is in the way of its files and they are told apart, it reads
every range, with a zero for each byte that was never written: so it does as the store in memory
does for just those ranges that are written in full. -/
theorem reads_last_written (trace : Trace) (range : ByteRange) :
    (∀ (size : Nat) (after : MemoryStore), (MemoryStore.empty size).Writes trace after →
      range.stop ≤ size →
        ((∃ data, after.read range = .ok data) ↔
          ∀ position, range.offset ≤ position → position < range.stop → trace.Covers position) ∧
        ∀ data, after.read range = .ok data → data.length = range.length ∧
          ∀ index < range.length, trace.last id (range.offset + index) = data[index]?) ∧
    (∀ (content : Bytes) (after : MemoryStore),
      (MemoryStore.ofContent content).Writes trace after → range.stop ≤ content.length →
        ∃ data, after.read range = .ok data ∧ data.length = range.length ∧
          ∀ index < range.length, Trace.last id ((⟨0, content.length⟩, content) :: trace)
            (range.offset + index) = data[index]?) ∧
    ∀ (info : Metainfo) (store : FileStore) (disk made after : Disk), info.validate = .ok () →
      store.files = info.files → store.Vacant disk → store.create disk = (made, .ok ()) →
      store.Writes made trace after → range.stop ≤ info.totalLength →
        (∀ data, store.read after range = .ok data → data.length = range.length ∧
          ∀ index < range.length, data[index]? =
            some ((trace.last store.place? (store.place? (range.offset + index))).getD 0)) ∧
        ((∀ position, range.offset ≤ position → position < range.stop →
          trace.Covers position) → ∃ data, store.read after range = .ok data) ∧
        (store.Laid → (∀ file ∈ store.files, store.Fits disk file) →
          ∃ data, store.read after range = .ok data ∧ data.length = range.length ∧
            ∀ index < range.length,
              data[index]? = some ((trace.last id (range.offset + index)).getD 0)) := by
  refine ⟨fun size after writes within => writes.read within,
    fun content after writes within => writes.read_ofContent within, ?_⟩
  intro info store disk made after valid listed vacant created writes within
  have checked := Metainfo.files_checked valid
  rw [← listed] at checked
  have size : store.size = info.totalLength := FileStore.size_eq checked
  rw [← size] at checked within
  exact ⟨fun data read => writes.read_last checked vacant created within read,
    fun covered => writes.read_covered checked vacant created within covered,
    fun laid fits => laid.read_blank fits checked vacant created writes within⟩

namespace Sample

theorem drawer_vacant : drawer.Vacant .empty := by
  intro file _ content
  unfold Disk.find?
  split <;> nofun

theorem drawer_fits_empty : ∀ file ∈ drawer.files, drawer.Fits .empty file := by
  have free : ∀ file ∈ drawer.files, Path.resolve (drawer.path file) ≠ [] := by decide
  intro file member
  constructor
  · intro place _ content
    unfold Disk.find?
    split <;> nofun
  · rw [Disk.find?, if_neg (free file member)]
    nofun

/-- The files of the drawer as they are made. -/
def blankDrawer : Disk :=
  ⟨[(["d"], .directory), (["d", "a"], .file [0, 0, 0]), (["d", "b"], .directory),
    (["d", "c"], .file []), (["d", "b", "e"], .file [0, 0])]⟩

/-- The files of the drawer behind a write across the end of the first. -/
def drawerInUse : Disk :=
  ⟨[(["d"], .directory), (["d", "a"], .file [0, 0, 7]), (["d", "b"], .directory),
    (["d", "c"], .file []), (["d", "b", "e"], .file [8, 0])]⟩

end Sample

/-- Two bytes are written across the end of a file, and read together with one on either side that
never was written. The store in memory refuses that. -/
theorem reads_last_written_drawer :
    Sample.tray.validate = .ok () ∧ Sample.drawer.Vacant .empty ∧
      Sample.drawer.create .empty = (Sample.blankDrawer, .ok ()) ∧
      Sample.drawer.Writes Sample.blankDrawer [(⟨2, 2⟩, [7, 8])] Sample.drawerInUse ∧
      Sample.drawer.read Sample.drawerInUse ⟨1, 4⟩ = .ok [0, 7, 8, 0] ∧
      ∃ memory, (MemoryStore.empty 5).Writes [(⟨2, 2⟩, [7, 8])] memory ∧
        ∀ data, memory.read ⟨1, 4⟩ ≠ .ok data := by
  have valid : Sample.tray.validate = .ok () := rfl
  have created : Sample.drawer.create .empty = (Sample.blankDrawer, .ok ()) := by decide +kernel
  have written : Sample.drawer.write Sample.blankDrawer ⟨2, 2⟩ [7, 8] =
      (Sample.drawerInUse, .ok ()) := by decide +kernel
  have writes := FileStore.Writes.cons written (.nil _)
  have stored : (MemoryStore.empty 5).Writes [(⟨2, 2⟩, [7, 8])]
      { cells := [none, none, some 7, some 8, none] } := .cons rfl (.nil _)
  obtain ⟨memories, -, layouts⟩ := reads_last_written [(⟨2, 2⟩, [7, 8])] ⟨1, 4⟩
  refine ⟨valid, Sample.drawer_vacant, created, writes, ?_, _, stored, ?_⟩
  · obtain ⟨-, -, blanks⟩ :=
      layouts _ _ _ _ _ valid rfl Sample.drawer_vacant created writes (by decide)
    obtain ⟨data, read, length, each⟩ := blanks Sample.drawer_laid Sample.drawer_fits_empty
    have bytes : ∀ index < 4, some ((Trace.last id [(⟨2, 2⟩, [7, 8])] (1 + index)).getD 0) =
        [0, 7, 8, (0 : UInt8)][index]? := by decide
    have four : data.length = 4 := length
    have same : data = [0, 7, 8, 0] := by
      apply List.ext_getElem?
      intro index
      by_cases inside : index < 4
      · exact (each index inside).trans (bytes index inside)
      · rw [List.getElem?_eq_none (by omega), List.getElem?_eq_none (by simpa using inside)]
    rw [read, same]
  · intro data read
    obtain ⟨write, member, lower, -⟩ :=
      (memories 5 _ stored (by decide)).1.mp ⟨data, read⟩ 1 (by decide) (by decide)
    rw [List.mem_singleton.mp member] at lower
    exact absurd lower (by decide)

end BitTorrent
