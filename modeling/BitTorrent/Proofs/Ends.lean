import BitTorrent.Proofs.Confinement
import BitTorrent.Proofs.Recheck

/-!
The ends of the files of a torrent as sums in words of 64 bits. Each length in a torrent file is a
number of 63 bits, but nothing bounds their sum. Where it leaves the word, a reader that checks its
sums has no result; one whose sums wrap takes the remainder for the length of the torrent, and its
own check of the layout makes the same sums again and finds nothing.
-/

set_option autoImplicit false

namespace BitTorrent

/-! ### Integers that are read -/

theorem Numeral.natural?_lt {bound n : Nat} {chars : List Char}
    (read : natural? bound chars = some n) : n < bound := by
  simp only [natural?, Option.bind_eq_bind, Option.bind_eq_some_iff] at read
  obtain ⟨value, -, bounded⟩ := read
  split at bounded
  · rename_i below
    cases bounded
    exact below
  · cases bounded

theorem Numeral.integer?_lt {bound : Nat} {value : Int} {chars : List Char} (positive : 0 < bound)
    (read : integer? bound chars = some value) : value < bound := by
  unfold integer? at read
  split at read
  · simp only [Option.bind_eq_bind, Option.bind_eq_some_iff] at read
    obtain ⟨n, -, bounded⟩ := read
    split at bounded <;> cases bounded
    omega
  · obtain ⟨n, natural, rfl⟩ := Option.map_eq_some_iff.mp read
    exact Int.ofNat_lt.mpr (natural?_lt natural)

namespace Bencode

variable {fuel : Nat} {input rest : Bytes} {value : Bencode} {items : List Bencode}
  {entries after : Entries}

/-- The integers in a value, at whatever depth, are below the first number beyond 63 bits. -/
inductive Small : Bencode → Prop
  | int {value : Int} (below : value < Word.bound63) : Small (.int value)
  | bytes (value : Bytes) : Small (.bytes value)
  | list {items : List Bencode} (each : ∀ item ∈ items, Small item) : Small (.list items)
  | dict {entries : Entries} (each : ∀ entry ∈ entries, Small entry.2) : Small (.dict entries)

theorem small_insert {key : Bytes} (each : ∀ entry ∈ entries, Small entry.2) (small : Small value) :
    ∀ entry ∈ insert entries key value, Small entry.2 := by
  induction entries with
  | nil => simpa [insert] using small
  | cons first rest ih =>
    obtain ⟨here, later⟩ := List.forall_mem_cons.mp each
    rw [insert]
    split
    · exact List.forall_mem_cons.mpr ⟨small, each⟩
    · split
      · exact List.forall_mem_cons.mpr ⟨small, later⟩
      · exact List.forall_mem_cons.mpr ⟨here, ih later⟩

theorem small_field? {key : String} (each : ∀ entry ∈ entries, Small entry.2)
    (found : field? entries key = some value) : Small value := by
  obtain ⟨entry, listed, rfl⟩ := Option.map_eq_some_iff.mp found
  exact each entry (List.mem_of_find?_eq_some listed)

theorem readInt_lt {number : Int} (read : readInt input = some (number, rest)) :
    number < Word.bound63 := by
  simp only [readInt, Option.bind_eq_bind, Option.bind_eq_some_iff] at read
  obtain ⟨⟨digits, back⟩, -, value, spelled, ⟨⟩⟩ := read
  exact Numeral.integer?_lt (by decide) spelled

/-- What each of the readers with some fuel gives is small. -/
structure Bounded (fuel : Nat) : Prop where
  value : ∀ {input rest value}, read fuel input = some (value, rest) → Small value
  items : ∀ {input rest items}, readItems fuel input = some (items, rest) →
    ∀ item ∈ items, Small item
  entries : ∀ {input rest before after}, readEntries fuel input before = some (after, rest) →
    (∀ entry ∈ before, Small entry.2) → ∀ entry ∈ after, Small entry.2

theorem Bounded.read_succ (bounded : Bounded fuel)
    (found : read (fuel + 1) input = some (value, rest)) : Small value := by
  cases input with
  | nil => cases found
  | cons lead behind =>
    rw [read] at found
    split at found
    · obtain ⟨⟨number, back⟩, whole, ⟨⟩⟩ := Option.map_eq_some_iff.mp found
      exact .int (readInt_lt whole)
    split at found
    · obtain ⟨⟨content, back⟩, -, ⟨⟩⟩ := Option.map_eq_some_iff.mp found
      exact .bytes content
    split at found
    · obtain ⟨⟨items, back⟩, listed, ⟨⟩⟩ := Option.map_eq_some_iff.mp found
      exact .list (bounded.items listed)
    split at found
    · obtain ⟨⟨entries, back⟩, listed, ⟨⟩⟩ := Option.map_eq_some_iff.mp found
      exact .dict (bounded.entries listed fun _ none => absurd none List.not_mem_nil)
    · cases found

theorem bounded (fuel : Nat) : Bounded fuel := by
  induction fuel with
  | zero => exact ⟨nofun, nofun, nofun⟩
  | succ fuel ih =>
    refine ⟨ih.read_succ, ?_, ?_⟩
    · intro input rest items found
      rw [readItems] at found
      split at found
      · cases found
        exact fun _ none => absurd none List.not_mem_nil
      · simp only [Option.bind_eq_bind, Option.bind_eq_some_iff] at found
        obtain ⟨⟨item, middle⟩, first, ⟨others, back⟩, later, ⟨⟩⟩ := found
        exact List.forall_mem_cons.mpr ⟨ih.value first, ih.items later⟩
    · intro input rest before after found each
      rw [readEntries] at found
      split at found
      · cases found
        exact each
      · simp only [Option.bind_eq_bind, Option.bind_eq_some_iff] at found
        obtain ⟨⟨name, middle⟩, -, key, -, ⟨value, back⟩, second, later⟩ := found
        exact ih.entries later (small_insert each (ih.value second))

theorem decode?_small (found : decode? input = some value) : Small value := by
  obtain ⟨⟨value, rest⟩, read, rfl⟩ := Option.map_eq_some_iff.mp found
  exact (bounded _).value read

end Bencode

/-! ### Descriptions that are read -/

namespace Metainfo

open Bencode (Entries Small field?)

variable {name : String} {info placed : Metainfo} {files : List (String × Nat)}
  {word : Nat → Option Nat} {bytes : Bytes} {bound offset total : Nat}

theorem lengthField_lt {entries : Entries} {length : Nat}
    (each : ∀ entry ∈ entries, Small entry.2)
    (read : (intField entries "length" >>= lengthOf) = .ok length) : length < Word.bound63 := by
  obtain ⟨value, found, read⟩ := ok_of_bind read
  unfold intField at found
  split at found
  · rename_i number listed
    cases found
    cases Bencode.small_field? each listed with
    | int below =>
      unfold lengthOf at read
      split at read <;> cases read
      omega
  · cases found

theorem fileOf_lt {entry : Bencode} {file : String × Nat} (small : Small entry)
    (read : fileOf name entry = .ok file) : file.2 < Word.bound63 := by
  cases small with
  | @dict fields each =>
    obtain ⟨value, found, read⟩ := ok_of_bind read
    obtain ⟨length, counted, read⟩ := ok_of_bind read
    have short : length < Word.bound63 :=
      lengthField_lt each (by rw [found]; exact counted)
    split at read
    · obtain ⟨joined, -, done⟩ := ok_of_bind read
      cases done
      exact short
    · cases read
  | int | bytes | list => cases read

/-- Each length that is read is a number of 63 bits. -/
theorem filesOf_lt {entries : Entries} (each : ∀ entry ∈ entries, Small entry.2)
    (read : filesOf entries name = .ok files) : ∀ file ∈ files, file.2 < Word.bound63 := by
  unfold filesOf at read
  split at read
  · rename_i listed
    intro file member
    obtain ⟨entry, among, found⟩ := mem_of_mapM read file member
    cases Bencode.small_field? each listed with
    | list small => exact fileOf_lt (small entry among) found
  · obtain ⟨value, found, read⟩ := ok_of_bind read
    obtain ⟨length, counted, done⟩ := ok_of_bind read
    cases done
    intro file member
    rw [List.mem_singleton.mp member]
    exact lengthField_lt each (by rw [found]; exact counted)

/-- What a reader makes of a description: files with lengths of 63 bits, one behind the other, and
pieces that are not empty. -/
structure Drafted (info : Metainfo) (files : List (String × Nat)) : Prop where
  short : ∀ file ∈ files, file.2 < Word.bound63
  placed : info.files = placeFiles 0 files
  total : info.totalLength = lengthSum files
  positive : 0 < info.pieceLength

theorem ofBencode?_drafted (read : ofBencode? bytes = .ok info) : ∃ files, info.Drafted files := by
  obtain ⟨root, entries, decoded, found, described⟩ := ofBencode?_ok read
  obtain ⟨called, stride, pieceLength, hashes, files, -, sized, listed, rfl⟩ := ofInfo_ok described
  cases Bencode.decode?_small decoded with
  | dict outer =>
    cases Bencode.small_field? outer found with
    | dict inner =>
      refine ⟨files, filesOf_lt inner listed, rfl, rfl, ?_⟩
      unfold pieceLengthOf at sized
      split at sized <;> cases sized
      change 0 < stride.toNat
      omega

/-! ### Sums in words -/

/-- Places files one behind the other from an offset on, with each sum in a word, and gives the end
of the last as well. -/
def placeIn (word : Nat → Option Nat) : Nat → List (String × Nat) → Option (List FileEntry × Nat)
  | offset, [] => some ([], offset)
  | offset, (path, length) :: rest => do
    let stop ← word (offset + length)
    let (files, total) ← placeIn word stop rest
    some (⟨path, offset, length⟩ :: files, total)

/-- The check of the files, with each end in a word. -/
def checkIn (word : Nat → Option Nat) :
    Nat → List FileEntry → Option (Except LayoutFault Nat)
  | cursor, [] => some (.ok cursor)
  | cursor, file :: rest =>
    if file.offset = cursor then do
      let stop ← word file.stop
      checkIn word stop rest
    else some (.error (.fileGap file.path file.offset cursor))

/-- The check of a description, with each end of a file in a word. -/
def validateIn (word : Nat → Option Nat) (info : Metainfo) : Option (Except LayoutFault Unit) :=
  if info.pieceLength = 0 then some (.error .zeroPieceLength)
  else do
    let expected ← Word.divCeil? Word.bound64 info.totalLength info.pieceLength
    if expected ≠ info.hashes.length then
      some (.error (.pieceCount expected info.totalLength info.hashes.length))
    else
      match ← checkIn word 0 info.files with
      | .error fault => some (.error fault)
      | .ok covered =>
        if covered = info.totalLength then some (.ok ())
        else some (.error (.coverage covered info.totalLength))

/-- A description whose files are placed with sums in words. -/
def placedIn (word : Nat → Option Nat) (info : Metainfo) : Option Metainfo := do
  let (files, total) ← placeIn word 0 (info.files.map fun file => (file.path, file.length))
  some { info with files := files, totalLength := total }

/-- Reads a torrent file and checks its layout, with all sums of lengths in words. -/
def readIn (word : Nat → Option Nat) (bytes : Bytes) : Option (Except Failure Metainfo) :=
  match ofBencode? bytes with
  | .error fault => some (.error (.fault (.metainfo fault)))
  | .ok info => do
    let placed ← info.placedIn word
    match ← placed.validateIn word with
    | .error fault => some (.error (.fault (.layout fault)))
    | .ok () => some (.ok placed)

end Metainfo

/-- A number in a word that wraps. -/
def Word.wrap? (bound value : Nat) : Option Nat :=
  some (value % bound)

namespace Metainfo

variable {name : String} {info placed : Metainfo} {files : List (String × Nat)}
  {word : Nat → Option Nat} {bytes : Bytes} {bound offset total : Nat}

/-- A description with what is left of its sums in words that wrap. -/
def wrapped (info : Metainfo) : Metainfo :=
  { info with
    files := info.files.map fun file => { file with offset := file.offset % Word.bound64 }
    totalLength := info.totalLength % Word.bound64 }

/-- A description is accepted if it lists as many pieces as its length fills. -/
def counted (info : Metainfo) : Except Failure Metainfo :=
  let expected := chunkCount info.pieceLength info.totalLength
  if expected = info.hashes.length then .ok info
  else .error (.fault (.layout (.pieceCount expected info.totalLength info.hashes.length)))

theorem paths_placeFiles (offset : Nat) (files : List (String × Nat)) :
    (placeFiles offset files).map (fun file => (file.path, file.length)) = files := by
  induction files generalizing offset with
  | nil => rfl
  | cons file rest ih => rw [placeFiles, List.map_cons, ih]

/-- Sums that are checked one by one are checked by the last of them. -/
theorem placeIn_fit (files : List (String × Nat)) (fits : offset < bound) :
    placeIn (Word.fit? bound) offset files =
      if offset + lengthSum files < bound then
        some (placeFiles offset files, offset + lengthSum files)
      else none := by
  induction files generalizing offset with
  | nil =>
    rw [lengthSum, Nat.add_zero, if_pos fits]
    rfl
  | cons file rest ih =>
    rw [placeIn, lengthSum, ← Nat.add_assoc]
    by_cases next : offset + file.2 < bound
    · simp only [Word.fit?_of_lt next, Option.bind_eq_bind, Option.bind_some, ih next]
      split <;> rfl
    · have beyond : ¬offset + file.2 + lengthSum rest < bound := by omega
      simp only [Word.fit?, next, beyond, ↓reduceIte, Option.bind_eq_bind, Option.bind_none]

/-- Sums that wrap one by one are the remainders of the sums. -/
theorem placeIn_wrap (bound offset : Nat) (files : List (String × Nat)) :
    placeIn (Word.wrap? bound) (offset % bound) files =
      some ((placeFiles offset files).map fun file => { file with offset := file.offset % bound },
        (offset + lengthSum files) % bound) := by
  induction files generalizing offset with
  | nil => rfl
  | cons file rest ih =>
    have next : Word.wrap? bound (offset % bound + file.2) = some ((offset + file.2) % bound) := by
      rw [Word.wrap?, Nat.mod_add_mod]
    simp only [placeIn, next, ih, Option.bind_eq_bind, Option.bind_some, lengthSum,
      ← Nat.add_assoc]
    rfl

/-- The check makes the sums again that placed the files, whatever becomes of them in a word. -/
theorem checkIn_placed {entries : List FileEntry}
    (made : placeIn word offset files = some (entries, total)) :
    checkIn word offset entries = some (.ok total) := by
  induction files generalizing offset entries with
  | nil =>
    cases made
    rfl
  | cons file rest ih =>
    simp only [placeIn, Option.bind_eq_bind, Option.bind_eq_some_iff] at made
    obtain ⟨stop, sum, ⟨others, final⟩, later, ⟨⟩⟩ := made
    simp only [checkIn, FileEntry.stop, sum, Option.bind_eq_bind, Option.bind_some, ↓reduceIte]
    exact ih later

theorem stop_lt_iff (fits : offset < bound) :
    (∀ file ∈ placeFiles offset files, file.stop < bound) ↔ offset + lengthSum files < bound := by
  induction files generalizing offset with
  | nil => simpa [placeFiles, lengthSum] using fits
  | cons file rest ih =>
    rw [placeFiles, List.forall_mem_cons, lengthSum, ← Nat.add_assoc]
    simp only [FileEntry.stop]
    by_cases next : offset + file.2 < bound
    · exact (and_iff_right next).trans (ih next)
    · exact iff_of_false (fun each => next each.1) (by omega)

theorem lengthSum_le (short : ∀ file ∈ files, file.2 < bound) :
    lengthSum files ≤ files.length * (bound - 1) := by
  induction files with
  | nil => exact Nat.zero_le _
  | cons file rest ih =>
    obtain ⟨first, others⟩ := List.forall_mem_cons.mp short
    have later := ih others
    rw [lengthSum, List.length_cons, Nat.succ_mul]
    omega

/-- Behind the placing of the files, all that is left to check is the number of pieces. -/
theorem readIn_placed (read : ofBencode? bytes = .ok info) (positive : 0 < info.pieceLength)
    (made : info.placedIn word = some placed) (fits : placed.totalLength < Word.bound64) :
    readIn word bytes = some placed.counted := by
  have again := made
  simp only [placedIn, Option.bind_eq_bind, Option.bind_eq_some_iff] at made
  obtain ⟨⟨entries, total⟩, placing, ⟨⟩⟩ := made
  have checked := checkIn_placed placing
  have expected : Word.divCeil? Word.bound64 total info.pieceLength =
      some (chunkCount info.pieceLength total) := Word.divCeil?_of_lt positive fits
  simp only [readIn, read, again, Option.bind_eq_bind, Option.bind_some, validateIn,
    Nat.ne_of_gt positive, ↓reduceIte, expected, checked, counted]
  by_cases same : chunkCount info.pieceLength total = info.hashes.length
  · simp only [same, ne_eq, not_true_eq_false, ↓reduceIte, Option.bind_some]
  · simp only [same, ne_eq, not_false_eq_true, ↓reduceIte, Option.bind_some]

namespace Drafted

variable (drafted : info.Drafted files)

include drafted

theorem listed : (info.files.map fun file => (file.path, file.length)) = files := by
  rw [drafted.placed, paths_placeFiles]

/-- Sums that are checked give the description itself, unless they leave the word. -/
theorem placedIn_fit :
    info.placedIn (Word.fit? Word.bound64) =
      if info.totalLength < Word.bound64 then some info else none := by
  rw [placedIn, drafted.listed, placeIn_fit files (by decide), Nat.zero_add, ← drafted.total,
    ← drafted.placed]
  split <;> rfl

theorem placedIn_wrap : info.placedIn (Word.wrap? Word.bound64) = some info.wrapped := by
  have placing := placeIn_wrap Word.bound64 0 files
  rw [Nat.zero_mod, Nat.zero_add, ← drafted.total, ← drafted.placed] at placing
  rw [placedIn, drafted.listed, placing]
  rfl

/-- The files end in words exactly if the last of them does. -/
theorem fits_iff :
    (∀ file ∈ info.files, file.stop < Word.bound64) ↔ info.totalLength < Word.bound64 := by
  rw [drafted.placed, drafted.total, stop_lt_iff (by decide), Nat.zero_add]

theorem lengths : ∀ file ∈ info.files, file.length < Word.bound63 := by
  intro file member
  rw [drafted.placed] at member
  exact drafted.short _ (mem_placeFiles member)

/-- It takes three files to leave a word. -/
theorem total_lt (few : info.files.length ≤ 2) : info.totalLength < Word.bound64 := by
  have bounded := lengthSum_le drafted.short
  have counted := congrArg List.length drafted.listed
  rw [List.length_map] at counted
  rw [drafted.total]
  simp only [Word.bound63, Word.bound64] at bounded ⊢
  omega

/-- Where the sums stay in words there is nothing to wrap. -/
theorem wrapped_eq (fits : info.totalLength < Word.bound64) : info.wrapped = info := by
  have each : ∀ file ∈ info.files,
      { file with offset := file.offset % Word.bound64 } = id file := by
    intro file member
    have below := drafted.fits_iff.mpr fits file member
    simp only [FileEntry.stop] at below
    rw [Nat.mod_eq_of_lt (by omega)]
    rfl
  rw [wrapped, List.map_congr_left each, List.map_id, Nat.mod_eq_of_lt fits]

/-- Without words the files are in order, and the number of pieces is checked likewise. -/
theorem ofBytes_eq (read : ofBencode? bytes = .ok info) :
    ofBytes bytes =
      if info.totalLength < Word.bound64 then info.counted else .error .refused := by
  have tiled := tile_placeFiles 0 files
  rw [Nat.zero_add, ← drafted.total, ← drafted.placed] at tiled
  have all : info.fitsWords = decide (info.totalLength < Word.bound64) := by
    rw [Bool.eq_iff_iff, fitsWords, List.all_eq_true, decide_eq_true_eq, ← drafted.fits_iff]
    simp only [decide_eq_true_eq]
  simp only [ofBytes, read, all, decide_eq_true_eq, validate, Nat.ne_of_gt drafted.positive,
    checkFiles_eq_ok.mpr tiled, ↓reduceIte, counted]
  by_cases same : chunkCount info.pieceLength info.totalLength = info.hashes.length
  · simp only [same, ne_eq, not_true_eq_false, ↓reduceIte]
  · simp only [same, ne_eq, not_false_eq_true, ↓reduceIte]

/-- Checked sums have a result if the length of the torrent is a word. -/
theorem readIn_fit (read : ofBencode? bytes = .ok info) :
    readIn (Word.fit? Word.bound64) bytes =
      if info.totalLength < Word.bound64 then some info.counted else none := by
  have placing := drafted.placedIn_fit
  split
  · rename_i fits
    rw [if_pos fits] at placing
    exact readIn_placed read drafted.positive placing fits
  · rename_i beyond
    rw [if_neg beyond] at placing
    simp only [readIn, read, placing, Option.bind_eq_bind, Option.bind_none]

/-- Sums that wrap always have a result. -/
theorem readIn_wrap (read : ofBencode? bytes = .ok info) :
    readIn (Word.wrap? Word.bound64) bytes = some info.wrapped.counted :=
  readIn_placed read drafted.positive drafted.placedIn_wrap (Nat.mod_lt _ (by decide))

end Drafted

/-- How a torrent file is read with sums in words. Sums that are checked give what is read, and have
no result exactly if the lengths of the files, of 63 bits each, exceed a word together, which takes
three files or more; then some file ends beyond the word. Sums that wrap always have a result: what
is left of the total length passes for it, and the torrent is accepted if it lists as many pieces as
that fills. Where the total length is a word the two agree. -/
theorem ofBytes_sums (bytes : Bytes) :
    ofBytes bytes = (readIn (Word.fit? Word.bound64) bytes).getD (.error .refused) ∧
    (readIn (Word.fit? Word.bound64) bytes = none ↔
      ∃ info, ofBencode? bytes = .ok info ∧ Word.bound64 ≤ info.totalLength) ∧
    ∀ info, ofBencode? bytes = .ok info →
      (∀ file ∈ info.files, file.length < Word.bound63) ∧
      (info.files.length ≤ 2 → info.totalLength < Word.bound64) ∧
      ((∀ file ∈ info.files, file.stop < Word.bound64) ↔ info.totalLength < Word.bound64) ∧
      readIn (Word.wrap? Word.bound64) bytes = some info.wrapped.counted ∧
      (info.totalLength < Word.bound64 →
        readIn (Word.wrap? Word.bound64) bytes = readIn (Word.fit? Word.bound64) bytes) := by
  cases read : ofBencode? bytes with
  | error fault =>
    have either : ∀ word, readIn word bytes = some (.error (.fault (.metainfo fault))) :=
      fun word => by rw [readIn, read]
    have whole : ofBytes bytes = .error (.fault (.metainfo fault)) := by rw [ofBytes, read]
    rw [either, whole]
    exact ⟨rfl, iff_of_false nofun nofun, nofun⟩
  | ok info =>
    obtain ⟨files, drafted⟩ := ofBencode?_drafted read
    have checked := drafted.readIn_fit read
    have wrapping := drafted.readIn_wrap read
    refine ⟨?_, ?_, ?_⟩
    · rw [drafted.ofBytes_eq read, checked]
      split <;> rfl
    · simp only [checked, ite_eq_right_iff, reduceCtorEq, imp_false, Nat.not_lt, Except.ok.injEq,
        exists_eq_left']
    · rintro _ ⟨⟩
      refine ⟨drafted.lengths, drafted.total_lt, drafted.fits_iff, wrapping, fun fits => ?_⟩
      rw [wrapping, checked, if_pos fits, drafted.wrapped_eq fits]

end Metainfo

namespace Sample

/-- A torrent file with three files that end four bytes beyond a word, and one piece of eight
bytes. -/
def surge : Bytes :=
  Bytes.ofText ("d4:infod5:filesl" ++ "d6:lengthi9223372036854775807e4:pathl1:aee" ++
    "d6:lengthi9223372036854775807e4:pathl1:bee" ++ "d6:lengthi6e4:pathl1:cee" ++
    "e4:name1:t12:piece lengthi8e6:pieces20:" ++ "aaaaaaaaaaaaaaaaaaaaee")

end Sample

/-- Checked sums refuse the file. Sums that wrap take it for a torrent of four bytes. -/
theorem Metainfo.ofBytes_sums_surge :
    ∃ info, ofBencode? Sample.surge = .ok info ∧ info.totalLength = Word.bound64 + 4 ∧
      readIn (Word.fit? Word.bound64) Sample.surge = none ∧
      ofBytes Sample.surge = .error .refused ∧
      readIn (Word.wrap? Word.bound64) Sample.surge = some (.ok info.wrapped) ∧
      info.wrapped.totalLength = 4 := by
  have numbers : (ofBencode? Sample.surge).toOption.map
      (fun info => (info.totalLength, info.pieceLength, info.hashes.length)) =
        some (Word.bound64 + 4, 8, 1) := by decide +kernel
  obtain ⟨whole, overflow, each⟩ := ofBytes_sums Sample.surge
  cases read : ofBencode? Sample.surge with
  | error fault =>
    rw [read] at numbers
    cases numbers
  | ok info =>
    rw [read] at numbers
    simp only [Except.toOption, Option.map_some, Option.some.injEq, Prod.mk.injEq] at numbers
    obtain ⟨total, pieceLength, hashes⟩ := numbers
    obtain ⟨-, -, -, wrapping, -⟩ := each info read
    have none := overflow.mpr ⟨info, read, by omega⟩
    have left : info.wrapped.totalLength = 4 := by
      rw [wrapped, total]
      rfl
    have enough : info.wrapped.counted = .ok info.wrapped := by
      simp only [counted, left]
      simp only [wrapped, pieceLength, hashes]
      rfl
    rw [none] at whole
    exact ⟨info, rfl, total, none, whole, enough ▸ wrapping, left⟩

end BitTorrent
