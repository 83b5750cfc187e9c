import BitTorrent.Metainfo.Reader
import BitTorrent.Proofs.Paths
import BitTorrent.Proofs.Segments

/-!
Where the files of a torrent are put. The name of a torrent and the parts of the paths in it are
joined behind the base directory as they are: an absolute one replaces whatever stands before it,
and `..` leads up. So a file stays inside of every base directory exactly if none of them is
absolute and they never lead above the base or back to it.
-/

set_option autoImplicit false

namespace BitTorrent

namespace Path

variable {here below parts : List String} {depth : Nat} {path : String}

/-! ### Places inside of a directory -/

/-- Where a path leads in a working directory. -/
def resolveFrom (here : List String) (path : String) : List String :=
  resolveParts (if isAbsolute path.toList then [] else here) (Path.parts path)

/-- A place is strictly inside of a directory. -/
def Inside (directory place : List String) : Prop :=
  ∃ rest, rest ≠ [] ∧ place = directory ++ rest

/-- How deep a walk ends that starts at some depth below a directory; none if it leaves the
directory on the way. -/
def depth? : Nat → List String → Option Nat
  | depth, [] => some depth
  | depth, part :: rest =>
    if part ≠ ".." then depth? (depth + 1) rest
    else if depth = 0 then none
    else depth? (depth - 1) rest

/-- A walk never leaves the directory that it starts in, and ends below it. -/
def Descends (parts : List String) : Prop :=
  (depth? 0 parts).any (0 < ·)

instance (parts : List String) : Decidable (Descends parts) :=
  inferInstanceAs (Decidable (_ = true))

/-- A path stays below whatever directory it is joined to. -/
def Confined (path : String) : Prop :=
  isAbsolute path.toList = false ∧ Descends (Path.parts path)

instance (path : String) : Decidable (Confined path) :=
  inferInstanceAs (Decidable (_ ∧ _))

/-- A walk that never leaves a directory ends as deep below it as it says, wherever that
directory is. -/
theorem resolveParts_of_depth (here below : List String)
    (deep : depth? below.length parts = some depth) :
    ∃ rest, rest.length = depth ∧ resolveParts (here ++ below) parts = here ++ rest := by
  induction parts generalizing below with
  | nil => exact ⟨below, Option.some.inj deep, rfl⟩
  | cons part rest ih =>
    rw [depth?] at deep
    rw [resolveParts_cons, enter]
    split at deep
    · rename_i notUp
      rw [if_neg notUp, List.append_assoc]
      refine ih _ ?_
      rw [List.length_append, List.length_singleton]
      exact deep
    · rename_i up
      rw [if_pos (Decidable.not_not.mp up)]
      split at deep
      · cases deep
      · rename_i above
        have some_ : below ≠ [] := fun none => above (congrArg List.length none)
        rw [List.dropLast_append_of_ne_nil some_]
        refine ih _ ?_
        rw [List.length_dropLast]
        exact deep

/-- A walk that leaves a directory goes on from the enclosing one, and knows nothing any more of
the directory that it has left. -/
theorem resolveParts_of_left (below : List String) (left : depth? below.length parts = none) :
    ∃ rest, ∀ here, resolveParts (here ++ below) parts = resolveParts here.dropLast rest := by
  induction parts generalizing below with
  | nil => cases left
  | cons part rest ih =>
    rw [depth?] at left
    split at left
    · rename_i notUp
      have longer : (below ++ [part]).length = below.length + 1 := by
        rw [List.length_append, List.length_singleton]
      obtain ⟨others, same⟩ := ih (below ++ [part]) (longer.symm ▸ left)
      refine ⟨others, fun here => ?_⟩
      rw [resolveParts_cons, enter, if_neg notUp, List.append_assoc]
      exact same here
    · rename_i up
      have up := Decidable.not_not.mp up
      split at left
      · rename_i bare
        have empty : below = [] := List.eq_nil_of_length_eq_zero bare
        refine ⟨rest, fun here => ?_⟩
        rw [resolveParts_cons, enter, if_pos up, empty, List.append_nil]
      · rename_i above
        have some_ : below ≠ [] := fun none => above (congrArg List.length none)
        obtain ⟨others, same⟩ :=
          ih below.dropLast (List.length_dropLast.symm ▸ left)
        refine ⟨others, fun here => ?_⟩
        rw [resolveParts_cons, enter, if_pos up, List.dropLast_append_of_ne_nil some_]
        exact same here

theorem resolveFrom_push (relative : isAbsolute path.toList = false) (here : List String)
    (base : String) :
    resolveFrom here (push base path) =
      resolveParts (resolveFrom here base) (Path.parts path) := by
  rw [resolveFrom, isAbsolute_push, relative, Bool.or_false, parts_push relative,
    resolveParts_append, resolveFrom]

/-- A path stays inside of every directory that it is joined to exactly if it is not absolute and
its walk descends. -/
theorem inside_iff (path : String) :
    (∀ here base, Inside (resolveFrom here base) (resolveFrom here (push base path))) ↔
      Confined path := by
  constructor
  · intro inside
    have relative : isAbsolute path.toList = false := by
      by_contra absolute
      -- An absolute path replaces every base, also one that is the path itself.
      obtain ⟨rest, some_, same⟩ := inside [] path
      rw [push_of_absolute (Bool.not_eq_false _ ▸ absolute)] at same
      exact some_ (List.self_eq_append_right.mp same)
    refine ⟨relative, ?_⟩
    cases deep : depth? 0 (Path.parts path) with
    | none =>
      -- Out of two directories the walk leads to one and the same place.
      obtain ⟨rest, same⟩ := resolveParts_of_left [] deep
      obtain ⟨first, -, insideFirst⟩ := inside [] "a"
      obtain ⟨second, -, insideSecond⟩ := inside [] "b"
      rw [resolveFrom_push relative] at insideFirst insideSecond
      have placeFirst : resolveFrom [] "a" = ["a"] ++ [] := by decide
      have placeSecond : resolveFrom [] "b" = ["b"] ++ [] := by decide
      rw [placeFirst, same] at insideFirst
      rw [placeSecond, same] at insideSecond
      have clash := insideFirst.symm.trans insideSecond
      exact absurd (List.cons.inj clash).1 (by decide)
    | some depth =>
      obtain ⟨rest, sized, ends⟩ := resolveParts_of_depth [] [] deep
      obtain ⟨more, some_, same⟩ := inside [] ""
      rw [resolveFrom_push relative] at same
      have root : resolveFrom [] "" = [] ++ [] := by decide
      rw [root, ends] at same
      have below : 0 < depth := by
        rw [← sized]
        refine List.length_pos_iff.mpr fun none => some_ ?_
        rw [none] at same
        exact same.symm
      simp [Descends, deep, below]
  · rintro ⟨relative, descends⟩ here base
    obtain ⟨depth, deep, below⟩ := (Option.any_eq_true _ _).mp descends
    obtain ⟨rest, sized, ends⟩ :=
      resolveParts_of_depth (resolveFrom here base) [] deep
    refine ⟨rest, List.ne_nil_of_length_pos (sized ▸ of_decide_eq_true below), ?_⟩
    rw [resolveFrom_push relative]
    rw [List.append_nil] at ends
    exact ends

/-- Parts that are joined one after the other, none of them absolute, lead one walk. -/
theorem parts_foldl {texts : List String}
    (relative : ∀ text ∈ texts, isAbsolute text.toList = false) :
    Path.parts (texts.foldl push path) = Path.parts path ++ texts.flatMap Path.parts := by
  induction texts generalizing path with
  | nil => rw [List.foldl_nil, List.flatMap_nil, List.append_nil]
  | cons text rest ih =>
    rw [List.foldl_cons, ih fun other later => relative other (List.mem_cons_of_mem _ later),
      parts_push (relative text List.mem_cons_self), List.flatMap_cons, List.append_assoc]

theorem isAbsolute_foldl (path : String) (texts : List String) :
    isAbsolute (texts.foldl push path).toList = false ↔
      isAbsolute path.toList = false ∧ ∀ text ∈ texts, isAbsolute text.toList = false := by
  induction texts generalizing path with
  | nil => simp
  | cons text rest ih =>
    rw [List.foldl_cons, ih, isAbsolute_push, Bool.or_eq_false_iff, List.forall_mem_cons,
      and_assoc]

theorem confined_foldl (path : String) (texts : List String) :
    Confined (texts.foldl push path) ↔
      isAbsolute path.toList = false ∧ (∀ text ∈ texts, isAbsolute text.toList = false) ∧
        Descends (Path.parts path ++ texts.flatMap Path.parts) := by
  rw [Confined, isAbsolute_foldl, and_assoc]
  refine and_congr_right fun _ => and_congr_right fun relative => ?_
  rw [parts_foldl relative]

end Path

/-! ### The paths of a torrent file -/

namespace Metainfo

open Bencode (Entries field?)

variable {name joined : String}

theorem joinPath_ok {parts : List Bencode} (read : joinPath name parts = .ok joined) :
    ∃ texts : List Bytes, parts = texts.map .bytes ∧
      joined = (texts.map Text.ofBytesLossy).foldl Path.push name := by
  induction parts generalizing name with
  | nil =>
    cases read
    exact ⟨[], rfl, rfl⟩
  | cons part rest ih =>
    cases part with
    | bytes text =>
      obtain ⟨texts, same, joins⟩ := ih read
      exact ⟨text :: texts, by rw [same, List.map_cons], joins⟩
    | int | list | dict => cases read

/-- What a torrent file gives for a file behind the name of the torrent: the path of an entry of its
list of files, or nothing where it has no such list. -/
def Gives (info : Entries) (texts : List Bytes) : Prop :=
  match field? info "files" with
  | some (.list entries) => ∃ fields, .dict fields ∈ entries ∧
    field? fields "path" = some (.list (texts.map .bytes))
  | _ => texts = []

theorem gives_listed {info : Entries} {entries : List Bencode} {texts : List Bytes}
    (listed : field? info "files" = some (.list entries)) :
    Gives info texts ↔ ∃ fields, .dict fields ∈ entries ∧
      field? fields "path" = some (.list (texts.map .bytes)) := by
  rw [Gives, listed]

theorem gives_nothing {info : Entries}
    (unlisted : ∀ entries, field? info "files" ≠ some (.list entries)) : Gives info [] := by
  unfold Gives
  split
  · rename_i entries listed
    exact absurd listed (unlisted entries)
  · rfl

/-- A computation that succeeds has succeeded in its first step. -/
theorem ok_of_bind {α β ε : Type} {first : Except ε α} {next : α → Except ε β} {result : β}
    (read : (first >>= next) = .ok result) :
    ∃ value, first = .ok value ∧ next value = .ok result := by
  cases first with
  | error fault => cases read
  | ok value => exact ⟨value, rfl, read⟩

theorem fileOf_ok {entry : Bencode} {file : String × Nat} (read : fileOf name entry = .ok file) :
    ∃ (fields : Entries) (texts : List Bytes), entry = .dict fields ∧
      field? fields "path" = some (.list (texts.map .bytes)) ∧
      file.1 = (texts.map Text.ofBytesLossy).foldl Path.push name := by
  cases entry with
  | dict fields =>
    obtain ⟨value, -, read⟩ := ok_of_bind read
    obtain ⟨length, -, read⟩ := ok_of_bind read
    split at read
    · rename_i parts listed
      obtain ⟨joined, joins, done⟩ := ok_of_bind read
      obtain ⟨texts, rfl, same⟩ := joinPath_ok joins
      cases done
      exact ⟨fields, texts, rfl, listed, same⟩
    · cases read
  | int | bytes | list => cases read

theorem mem_of_mapM {entries : List Bencode} {files : List (String × Nat)}
    (read : entries.mapM (fileOf name) = .ok files) :
    ∀ file ∈ files, ∃ entry ∈ entries, fileOf name entry = .ok file := by
  induction entries generalizing files with
  | nil =>
    cases read
    exact fun file none => absurd none List.not_mem_nil
  | cons entry rest ih =>
    rw [List.mapM_cons] at read
    obtain ⟨first, found, read⟩ := ok_of_bind read
    obtain ⟨others, more, done⟩ := ok_of_bind read
    cases done
    intro file member
    rcases List.mem_cons.mp member with rfl | later
    · exact ⟨entry, List.mem_cons_self, found⟩
    · obtain ⟨other, among, same⟩ := ih more file later
      exact ⟨other, List.mem_cons_of_mem _ among, same⟩

/-- Every path is made of the name of the torrent and what is given for the file. -/
theorem filesOf_ok {info : Entries} {files : List (String × Nat)}
    (read : filesOf info name = .ok files) :
    ∀ file ∈ files, ∃ texts, Gives info texts ∧
      file.1 = (texts.map Text.ofBytesLossy).foldl Path.push name := by
  unfold filesOf at read
  split at read
  · rename_i entries listed
    intro file member
    obtain ⟨entry, among, found⟩ := mem_of_mapM read file member
    obtain ⟨fields, texts, rfl, given, joins⟩ := fileOf_ok found
    exact ⟨texts, (gives_listed listed).mpr ⟨fields, among, given⟩, joins⟩
  · rename_i unlisted
    obtain ⟨value, -, read⟩ := ok_of_bind read
    obtain ⟨length, -, done⟩ := ok_of_bind read
    cases done
    intro file member
    rw [List.mem_singleton.mp member]
    exact ⟨[], gives_nothing unlisted, rfl⟩

theorem mem_placeFiles {offset : Nat} {files : List (String × Nat)} {file : FileEntry}
    (member : file ∈ placeFiles offset files) : (file.path, file.length) ∈ files := by
  induction files generalizing offset with
  | nil => cases member
  | cons first rest ih =>
    rcases List.mem_cons.mp member with rfl | later
    · exact List.mem_cons_self
    · exact List.mem_cons_of_mem _ (ih later)

theorem bytesField_ok {entries : Entries} {key : String} {value : Bytes}
    (read : bytesField entries key = .ok value) : field? entries key = some (.bytes value) := by
  unfold bytesField at read
  split at read
  · cases read
    assumption
  · cases read

/-- The parts that a description is put together from. -/
theorem ofInfo_ok {root entries : Entries} {info : Metainfo}
    (read : ofInfo root entries = .ok info) :
    ∃ called stride pieceLength hashes files, field? entries "name" = some (.bytes called) ∧
      pieceLengthOf stride = .ok pieceLength ∧
      filesOf entries (Text.ofBytesLossy called) = .ok files ∧
      info = { ofFiles (sha1 (Bencode.encode (.dict entries))) (Text.ofBytesLossy called)
        pieceLength hashes files with trackers := trackersOf root } := by
  obtain ⟨called, named, read⟩ := ok_of_bind read
  obtain ⟨stride, -, read⟩ := ok_of_bind read
  obtain ⟨pieceLength, sized, read⟩ := ok_of_bind read
  obtain ⟨joined, -, read⟩ := ok_of_bind read
  obtain ⟨hashes, -, read⟩ := ok_of_bind read
  obtain ⟨files, listed, done⟩ := ok_of_bind read
  cases done
  exact ⟨called, stride, pieceLength, hashes, files, bytesField_ok named, sized, listed, rfl⟩

theorem ofRoot_ok {root : Entries} {info : Metainfo} (read : ofRoot root = .ok info) :
    ∃ entries, field? root "info" = some (.dict entries) ∧ ofInfo root entries = .ok info := by
  unfold ofRoot at read
  split at read
  · cases read
  · rename_i entries found
    exact ⟨entries, found, read⟩
  · cases read

theorem ofBencode?_ok {bytes : Bytes} {info : Metainfo} (read : ofBencode? bytes = .ok info) :
    ∃ root entries, Bencode.decode? bytes = some (.dict root) ∧
      field? root "info" = some (.dict entries) ∧ ofInfo root entries = .ok info := by
  unfold ofBencode? at read
  split at read
  · cases read
  · rename_i root decoded
    obtain ⟨entries, found, described⟩ := ofRoot_ok read
    exact ⟨root, entries, decoded, found, described⟩
  · cases read

/-- What is known of a torrent file that is accepted: its name and its paths are those of the
dictionary in it. -/
theorem ofBytes_ok {bytes : Bytes} {info : Metainfo} (read : ofBytes bytes = .ok info) :
    ∃ root entries called, Bencode.decode? bytes = some (.dict root) ∧
      field? root "info" = some (.dict entries) ∧ field? entries "name" = some (.bytes called) ∧
      info.name = Text.ofBytesLossy called ∧
      ∀ file ∈ info.files, ∃ texts, Gives entries texts ∧
        file.path = (texts.map Text.ofBytesLossy).foldl Path.push info.name := by
  unfold ofBytes at read
  split at read
  · cases read
  rename_i described parsed
  have same : described = info := by
    split at read
    · split at read <;> cases read
      rfl
    · cases read
  subst same
  obtain ⟨root, entries, decoded, found, read⟩ := ofBencode?_ok parsed
  obtain ⟨called, stride, pieceLength, hashes, files, named, -, listed, rfl⟩ := ofInfo_ok read
  exact ⟨root, entries, called, decoded, found, named, rfl,
    fun file member => filesOf_ok listed _ (mem_placeFiles member)⟩

end Metainfo

/-- For a torrent file that is accepted, all paths that its files are opened at are the base
directory joined with the name of the torrent and the texts that are given for the file. They lie
strictly inside of the base directory, whichever it is and wherever it is read, exactly if none of
the texts is absolute and together they lead down only. -/
theorem FileStore.confined_iff {bytes : Bytes} {info : Metainfo}
    (read : Metainfo.ofBytes bytes = .ok info) :
    ∃ root entries called, Bencode.decode? bytes = some (.dict root) ∧
      Bencode.field? root "info" = some (.dict entries) ∧
      Bencode.field? entries "name" = some (.bytes called) ∧
      info.name = Text.ofBytesLossy called ∧
      (∀ base range segments, (FileStore.mk base info.files).segments range = .ok segments →
        ∀ segment ∈ segments, ∃ file ∈ info.files, segment.path = Path.push base file.path) ∧
      ∀ file ∈ info.files,
        ((∀ here base, Path.Inside (Path.resolveFrom here base)
          (Path.resolveFrom here (Path.push base file.path))) ↔ Path.Confined file.path) ∧
        ∃ texts, Metainfo.Gives entries texts ∧
          file.path = (texts.map Text.ofBytesLossy).foldl Path.push info.name ∧
          (Path.Confined file.path ↔
            Path.isAbsolute info.name.toList = false ∧
            (∀ text ∈ texts, Path.isAbsolute (Text.ofBytesLossy text).toList = false) ∧
            Path.Descends (Path.parts info.name ++
              texts.flatMap fun text => Path.parts (Text.ofBytesLossy text))) := by
  obtain ⟨root, entries, called, decoded, found, named, same, paths⟩ := Metainfo.ofBytes_ok read
  refine ⟨root, entries, called, decoded, found, named, same, ?_, ?_⟩
  · intro base range segments located segment member
    obtain ⟨file, among, cut⟩ := segments_cut located segment member
    exact ⟨file, among, cut.path⟩
  · intro file member
    obtain ⟨texts, given, joins⟩ := paths file member
    refine ⟨Path.inside_iff file.path, texts, given, joins, ?_⟩
    rw [joins, Path.confined_foldl, List.forall_mem_map, List.flatMap_map]

namespace Sample

/-- A torrent file with two files, one of them above the directory of the torrent and its base, the
other one at an absolute path. -/
def stray : Bytes :=
  Bytes.ofText ("d4:infod5:filesl" ++ "d6:lengthi4e4:pathl2:..2:..4:evilee" ++
    "d6:lengthi4e4:pathl9:/etc/evilee" ++ "e4:name1:t12:piece lengthi8e6:pieces20:" ++
    "aaaaaaaaaaaaaaaaaaaaee")

end Sample

/-- The paths of a torrent file are taken as they are. -/
theorem FileStore.confined_iff_stray :
    ∃ info, Metainfo.ofBytes Sample.stray = .ok info ∧
      info.files.map (·.path) = ["t/../../evil", "/etc/evil"] ∧
      ∀ file ∈ info.files, ¬∀ here base, Path.Inside (Path.resolveFrom here base)
        (Path.resolveFrom here (Path.push base file.path)) := by
  have paths : (Metainfo.ofBytes Sample.stray).toOption.map (·.files.map (·.path)) =
      some ["t/../../evil", "/etc/evil"] := by decide +kernel
  have stray : ∀ path ∈ ["t/../../evil", "/etc/evil"], ¬Path.Confined path := by decide
  cases read : Metainfo.ofBytes Sample.stray with
  | error failure =>
    rw [read] at paths
    cases paths
  | ok info =>
    rw [read] at paths
    have listed := Option.some.inj paths
    refine ⟨info, rfl, listed, ?_⟩
    intro file member inside
    obtain ⟨_, _, _, _, _, _, _, _, all⟩ := confined_iff read
    have among : file.path ∈ ["t/../../evil", "/etc/evil"] := by
      rw [← listed]
      exact List.mem_map_of_mem member
    exact stray file.path among ((all file member).1.mp inside)

end BitTorrent
