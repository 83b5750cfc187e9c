import BitTorrent.Proofs.Confinement
import BitTorrent.Proofs.Reading

/-!
The info hash of a torrent file. If the info value is spelled canonically, the hash is that of its
characters in the file, whatever stands around them. Other spellings of the same value make no
difference to what is read.
-/

set_option autoImplicit false

namespace BitTorrent

/-- What stands around the info value in a torrent file: its key, the other entries of the root and
whatever follows the root. -/
structure Site where
  front : List (Written × Written)
  key : Written
  back : List (Written × Written)
  junk : Bytes

namespace Site

/-- The root of a torrent file with a certain info value. -/
def root (site : Site) (info : Written) : Written :=
  .dict (site.front ++ (site.key, info) :: site.back)

/-- A torrent file with a certain info value. -/
def input (site : Site) (info : Written) : Bytes :=
  (site.root info).text ++ site.junk

/-- The root is accepted, and the info value in it is the one that counts. -/
structure Holds (site : Site) (decoder : Decoder) (info : Written) : Prop where
  accepted : ((site.root info).value? decoder).isSome = true
  named : site.key.name? decoder = some (Bytes.ofText "info")
  last : ∀ entry ∈ site.back, entry.1.name? decoder ≠ some (Bytes.ofText "info")

end Site

namespace Metainfo

/-- The description in a value that was read. -/
def ofValue : Option Bencode → Except MetainfoFault Metainfo
  | none => .error .notBencode
  | some (.dict root) => ofRoot root
  | some _ => .error .rootNotDictionary

/-- A description whose layout is checked. -/
def checked : Except MetainfoFault Metainfo → Except Failure Metainfo
  | .error fault => .error (.fault (.metainfo fault))
  | .ok info =>
    if info.fitsWords then
      match info.validate with
      | .error fault => .error (.fault (.layout fault))
      | .ok () => .ok info
    else .error .refused

end Metainfo

/-- Reads a torrent file by means of some decoder of bencoded values. -/
def Decoder.parse (decoder : Decoder) (input : Bytes) : Except Failure Metainfo :=
  Metainfo.checked (Metainfo.ofValue (decoder.read input))

theorem Bencode.parse_decoder : Bencode.decoder.parse = Metainfo.ofBytes := by
  funext input
  have same : Metainfo.ofBencode? input = Metainfo.ofValue (Bencode.decode? input) := by
    unfold Metainfo.ofBencode? Metainfo.ofValue
    rfl
  rw [Metainfo.ofBytes, same]
  rfl

namespace Metainfo

open Bencode (Entries field? encode)

theorem checked_ok {described : Except MetainfoFault Metainfo} {info : Metainfo}
    (accepted : checked described = .ok info) : described = .ok info := by
  unfold checked at accepted
  split at accepted
  · cases accepted
  · split at accepted
    · split at accepted <;> cases accepted
      rfl
    · cases accepted

/-- The info hash is that of the canonical form of the info value. -/
theorem infoHash_ofValue {value : Option Bencode} {info : Metainfo}
    (read : ofValue value = .ok info) :
    ∃ root described, value = some (.dict root) ∧ field? root "info" = some described ∧
      info.infoHash = sha1 (encode described) := by
  unfold ofValue at read
  split at read
  · cases read
  · rename_i root
    obtain ⟨entries, found, described⟩ := ofRoot_ok read
    obtain ⟨-, -, -, -, -, -, -, -, rfl⟩ := ofInfo_ok described
    exact ⟨root, _, rfl, found, rfl⟩
  · cases read

end Metainfo

namespace Site

open Bencode (field?)
open Written (Rewritten pair?)

variable {decoder : Decoder} {site : Site} {info other : Written}

/-- The last of several elements with a property. -/
theorem exists_last {α : Type} {good : α → Prop} {list : List α} (some_good : ∃ x ∈ list, good x) :
    ∃ front x back, list = front ++ x :: back ∧ good x ∧ ∀ y ∈ back, ¬ good y := by
  induction list using List.reverseRecOn with
  | nil =>
    obtain ⟨x, inside, -⟩ := some_good
    cases inside
  | append_singleton list last ih =>
    by_cases ends : good last
    · exact ⟨list, last, [], rfl, ends, fun y inside => nomatch inside⟩
    · obtain ⟨x, inside, holds⟩ := some_good
      have earlier : x ∈ list := by
        rcases List.mem_append.mp inside with inside | same
        · exact inside
        · rw [List.mem_singleton.mp same] at holds
          exact absurd holds ends
      obtain ⟨front, y, back, rfl, found, rest⟩ := ih ⟨x, earlier, holds⟩
      refine ⟨front, y, back ++ [last], by simp, found, ?_⟩
      intro z among
      rcases List.mem_append.mp among with before | same
      · exact rest z before
      · exact List.mem_singleton.mp same ▸ ends

/-- Every pair comes from an entry. -/
theorem mem_of_pairs {entries : List (Written × Written)} {pairs : Bencode.Entries}
    (read : entries.mapM (pair? decoder) = some pairs) :
    ∀ pair ∈ pairs, ∃ entry ∈ entries, entry.1.name? decoder = some pair.1 := by
  induction entries generalizing pairs with
  | nil =>
    cases read
    exact fun pair inside => nomatch inside
  | cons entry rest ih =>
    simp only [List.mapM_cons, Option.bind_eq_bind, Option.bind_eq_some_iff] at read
    obtain ⟨first, here, others, later, ⟨⟩⟩ := read
    rw [List.forall_mem_cons]
    constructor
    · exact ⟨entry, List.mem_cons_self, (Written.pair?_eq_some.mp here).1⟩
    · intro pair inside
      obtain ⟨other, among, named⟩ := ih later pair inside
      exact ⟨other, List.mem_cons_of_mem _ among, named⟩

/-- What is found under the key is the value that the site holds. -/
theorem Holds.value? (holds : site.Holds decoder info) :
    ∃ root described, (site.root info).value? decoder = some (.dict root) ∧
      info.value? decoder = some described ∧ field? root "info" = some described := by
  obtain ⟨value, accepted⟩ := Option.isSome_iff_exists.mp holds.accepted
  have denotes := accepted
  rw [root, Written.value?_dict, Option.map_eq_some_iff] at accepted
  obtain ⟨pairs, read, rfl⟩ := accepted
  simp only [List.mapM_append, List.mapM_cons, Option.bind_eq_bind, Option.bind_eq_some_iff,
    Option.pure_def, Option.some.injEq] at read
  obtain ⟨before, -, _, ⟨⟨name, described⟩, here, behind, later, rfl⟩, rfl⟩ := read
  obtain ⟨named, valued⟩ := Written.pair?_eq_some.mp here
  rw [holds.named, Option.some.injEq] at named
  subst named
  refine ⟨_, described, denotes, valued, Written.find?_gather ?_⟩
  intro pair inside same
  obtain ⟨entry, among, spelled⟩ := mem_of_pairs later pair inside
  exact holds.last entry among (same ▸ spelled)

/-- A file with an info value that is rewritten reads as before. -/
theorem Holds.parse_rewritten (lawful : decoder.Lawful) (holds : site.Holds decoder info)
    (rewritten : Rewritten decoder info other) :
    decoder.parse (site.input other) = decoder.parse (site.input info) := by
  have same : (site.root other).value? decoder = (site.root info).value? decoder := by
    simp only [root, Written.value?_dict, List.mapM_append, List.mapM_cons, Written.pair?,
      rewritten.value?_eq]
  obtain ⟨value, accepted⟩ := Option.isSome_iff_exists.mp holds.accepted
  have first := (lawful.reads (site.input info) value).mpr
    ⟨site.root info, site.junk, rfl, accepted⟩
  have second := (lawful.reads (site.input other) value).mpr
    ⟨site.root other, site.junk, rfl, same.trans accepted⟩
  rw [Decoder.parse, Decoder.parse, first, second]

/-- The hash of a canonical info value is that of its characters. -/
theorem Holds.infoHash (lawful : decoder.Lawful) (holds : site.Holds decoder info)
    (canonical : info.Canonical) {result : Metainfo}
    (parsed : decoder.parse (site.input info) = .ok result) :
    result.infoHash = sha1 info.text := by
  obtain ⟨root, described, accepted, denotes, found⟩ := holds.value?
  have read := (lawful.reads (site.input info) _).mpr ⟨site.root info, site.junk, rfl, accepted⟩
  obtain ⟨entries, value, same, here, hashed⟩ :=
    Metainfo.infoHash_ofValue (Metainfo.checked_ok parsed)
  rw [read] at same
  cases same
  rw [found] at here
  cases here
  rw [hashed, canonical.encode_eq lawful denotes]

/-- Every file that is accepted has an info value. -/
theorem exists_holds (lawful : decoder.Lawful) {input : Bytes} {result : Metainfo}
    (parsed : decoder.parse input = .ok result) :
    ∃ (site : Site) (info : Written), site.Holds decoder info ∧ site.input info = input := by
  obtain ⟨root, described, read, found, -⟩ :=
    Metainfo.infoHash_ofValue (Metainfo.checked_ok parsed)
  obtain ⟨written, junk, rfl, accepted⟩ := (lawful.reads input _).mp read
  obtain ⟨entries, rfl⟩ : ∃ entries, written = .dict entries := by
    cases written with
    | dict entries => exact ⟨entries, rfl⟩
    | bytes length content =>
      rw [Written.value?, Option.ite_none_right_eq_some] at accepted
      cases accepted.2
    | _ =>
      obtain ⟨_, -, wrong⟩ := Option.map_eq_some_iff.mp accepted
      cases wrong
  have denotes := accepted
  rw [Written.value?_dict, Option.map_eq_some_iff] at accepted
  obtain ⟨pairs, pairing, ⟨⟩⟩ := accepted
  have named : ∃ entry ∈ entries, entry.1.name? decoder = some (Bytes.ofText "info") := by
    by_contra absent
    have nothing : field? (Written.gather pairs) "info" = none := by
      apply Written.find?_gather_none
      intro pair inside same
      obtain ⟨entry, among, spelled⟩ := mem_of_pairs pairing pair inside
      exact absent ⟨entry, among, same ▸ spelled⟩
    rw [nothing] at found
    cases found
  obtain ⟨front, ⟨key, info⟩, back, rfl, spelled, last⟩ := exists_last named
  exact ⟨⟨front, key, back, junk⟩, info, ⟨by rw [root, denotes]; rfl, spelled, last⟩, rfl⟩

end Site

/-- For every file that is accepted, whoever reads it: it has an info value, and if that is spelled
canonically, the info hash is the digest of its characters. However the info value is rewritten, the
same is read. -/
theorem Decoder.infoHash_of_canonical {decoder : Decoder} (lawful : decoder.Lawful) {input : Bytes}
    {result : Metainfo} (parsed : decoder.parse input = .ok result) :
    (∃ (site : Site) (info : Written), site.Holds decoder info ∧ site.input info = input) ∧
      ∀ (site : Site) (info : Written), site.Holds decoder info → site.input info = input →
        (info.Canonical → result.infoHash = sha1 info.text) ∧
        ∀ other, Written.Rewritten decoder info other →
          decoder.parse (site.input other) = .ok result := by
  refine ⟨Site.exists_holds lawful parsed, ?_⟩
  rintro site info holds rfl
  exact ⟨fun canonical => holds.infoHash lawful canonical parsed,
    fun other rewritten => (holds.parse_rewritten lawful rewritten).trans parsed⟩

namespace Sample

/-- A text as a byte string behind its length. -/
def spelled (text : String) : Written :=
  .bytes (Numeral.bytes (Bytes.ofText text).length) (Bytes.ofText text)

/-- The name of the torrent. -/
def title : Written × Written :=
  (spelled "name", spelled "a")

/-- The description of one file. -/
def profile : Written :=
  .dict [(spelled "length", .int [53]), title, (spelled "piece length", .int [56]),
    (spelled "pieces", spelled "aaaaaaaaaaaaaaaaaaaa")]

/-- The same with the name in front, and a length with a sign and a zero. -/
def disguised : Written :=
  .dict [title, (spelled "length", .int [43, 48, 53]), (spelled "piece length", .int [56]),
    (spelled "pieces", spelled "aaaaaaaaaaaaaaaaaaaa")]

/-- A root whose keys do not ascend, and something behind it. -/
def surroundings : Site :=
  ⟨[(spelled "zone", spelled "b")], spelled "info", [(spelled "announce", spelled "c")],
    Bytes.ofText "junk"⟩

end Sample

/-- The info hash of a file with a root in disorder and something behind it. -/
theorem Decoder.infoHash_of_canonical_profile :
    ∃ info, Metainfo.ofBytes (Sample.surroundings.input Sample.profile) = .ok info ∧
      info.infoHash = sha1 Sample.profile.text ∧
      Metainfo.ofBytes (Sample.surroundings.input Sample.disguised) = .ok info := by
  have holds : Sample.surroundings.Holds Bencode.decoder Sample.profile :=
    ⟨by decide +kernel, by decide +kernel, by decide +kernel⟩
  have text : ∀ text ∈ ["length", "name", "a", "piece length", "pieces", "aaaaaaaaaaaaaaaaaaaa"],
      (Sample.spelled text).Canonical := by
    intro text inside
    apply Written.Canonical.bytes
    revert text
    decide +kernel
  have canonical : Sample.profile.Canonical := by
    apply @Written.Canonical.dict _
      (["length", "name", "piece length", "pieces"].map Bytes.ofText)
    · rfl
    · decide +kernel
    · simp [Sample.title, text]
    · have length : (Written.int [53]).Canonical := .int rfl
      have pieceLength : (Written.int [56]).Canonical := .int rfl
      simp [Sample.title, text, length, pieceLength]
  have rewritten : Written.Rewritten Bencode.decoder Sample.profile Sample.disguised := by
    have swapped := @Written.rewritten_perm Bencode.decoder _ _
      (List.Perm.swap Sample.title (Sample.spelled "length", .int [53])
        [(Sample.spelled "piece length", .int [56]),
          (Sample.spelled "pieces", Sample.spelled "aaaaaaaaaaaaaaaaaaaa")]) (by decide +kernel)
    have longer : Written.Respelled Bencode.decoder (.int [53]) (.int [43, 48, 53]) :=
      @Written.Respelled.int _ _ _ 5 (by decide +kernel) (by decide +kernel)
    exact swapped.tail (.value [Sample.title] _ _ longer)
  have accepted :
      (Metainfo.ofBytes (Sample.surroundings.input Sample.profile)).toBool = true := by
    decide +kernel
  rw [← Bencode.parse_decoder] at accepted ⊢
  cases parsed : Bencode.decoder.parse (Sample.surroundings.input Sample.profile) with
  | error failure =>
    rw [parsed] at accepted
    cases accepted
  | ok info =>
    obtain ⟨-, each⟩ := infoHash_of_canonical Bencode.decoder_lawful parsed
    obtain ⟨hashed, unchanged⟩ := each Sample.surroundings Sample.profile holds rfl
    exact ⟨info, rfl, hashed canonical, unchanged Sample.disguised rewritten⟩

end BitTorrent
