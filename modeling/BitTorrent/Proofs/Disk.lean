import BitTorrent.Proofs.Paths
import BitTorrent.Store.Disk

/-!
Walks along paths on a disk: what a change of one entry does to them, and how the directories that
lead to a file are made.
-/

set_option autoImplicit false

namespace BitTorrent.Disk

open BitTorrent.Path (enter places resolveParts)

variable {disk before after : Disk} {here there front back parts names : List String}
  {part path : String} {content : Bytes}

/-! ### Entries -/

theorem find?_replace (entries : List (List String × DiskEntry)) (names other : List String)
    (entry : DiskEntry) :
    ((entries.map fun old => if old.1 = names then (names, entry) else old).find?
        (·.1 = other)).map (·.2) =
      if other = names ∧ entries.any (·.1 = names) then some entry
      else (entries.find? (·.1 = other)).map (·.2) := by
  induction entries with
  | nil => simp
  | cons old rest ih =>
    by_cases replaced : old.1 = names
    · by_cases same : other = names
      · simp [replaced, same]
      · have apart : names ≠ other := Ne.symm same
        simp only [List.map_cons, replaced, ↓reduceIte, List.find?_cons, apart, decide_false, ih,
          same, false_and]
    · by_cases found : old.1 = other
      · have apart : other ≠ names := fun same => replaced (found.trans same)
        simp [found, apart]
      · simp only [List.map_cons, replaced, ↓reduceIte, List.find?_cons, found, decide_false, ih,
          List.any_cons, Bool.false_or]

theorem find?_put (disk : Disk) {names : List String} (below : names ≠ []) (other : List String)
    (entry : DiskEntry) :
    (disk.put names entry).find? other =
      if other = names then some entry else disk.find? other := by
  unfold find? put
  by_cases root : other = []
  · have apart : other ≠ names := fun same => below (same.symm.trans root)
    simp only [root, ↓reduceIte, Ne.symm below]
  · simp only [root, ↓reduceIte]
    split
    · rename_i known
      rw [find?_replace]
      simp only [known, and_true]
    · rename_i unknown
      have absent : disk.entries.find? (·.1 = names) = none := by
        rw [List.find?_eq_none]
        intro old member same
        exact unknown (List.any_eq_true.mpr ⟨old, member, same⟩)
      rw [List.find?_append]
      by_cases same : other = names
      · subst same
        simp [absent]
      · have apart : names ≠ other := Ne.symm same
        simp [same, apart]

theorem find?_put_self (disk : Disk) (below : names ≠ []) (entry : DiskEntry) :
    (disk.put names entry).find? names = some entry := by
  simp only [find?_put disk below, ↓reduceIte]

theorem find?_put_other {other : List String} (disk : Disk) (below : names ≠ [])
    (apart : other ≠ names) (entry : DiskEntry) :
    (disk.put names entry).find? other = disk.find? other := by
  simp only [find?_put disk below, apart, ↓reduceIte]

/-- What stands on a disk still stands there later. -/
def Grows (before after : Disk) : Prop :=
  ∀ names entry, before.find? names = some entry → after.find? names = some entry

theorem Grows.refl (disk : Disk) : disk.Grows disk :=
  fun _ _ found => found

theorem Grows.trans {middle : Disk} (first : before.Grows middle) (second : middle.Grows after) :
    before.Grows after :=
  fun names entry found => second names entry (first names entry found)

/-- New on a disk are directories at some places that were free. -/
def Paves (before after : Disk) (ways : List (List String)) : Prop :=
  ∀ names, after.find? names = before.find? names ∨
    (before.find? names = none ∧ after.find? names = some .directory ∧ names ∈ ways)

theorem Paves.refl (disk : Disk) (ways : List (List String)) : disk.Paves disk ways :=
  fun _ => Or.inl rfl

theorem Paves.mono {ways more : List (List String)} (paves : before.Paves after ways)
    (inside : ∀ place ∈ ways, place ∈ more) : before.Paves after more := by
  intro names
  rcases paves names with same | ⟨free, made, among⟩
  · exact Or.inl same
  · exact Or.inr ⟨free, made, inside names among⟩

theorem Paves.trans {middle : Disk} {ways : List (List String)}
    (first : before.Paves middle ways) (second : middle.Paves after ways) :
    before.Paves after ways := by
  intro names
  rcases first names with same | ⟨free, made, among⟩
  · rw [← same]
    exact second names
  · refine Or.inr ⟨free, ?_, among⟩
    rcases second names with kept | ⟨absent, -, -⟩
    · rw [kept, made]
    · rw [made] at absent
      cases absent

/-- A directory put at a free place. -/
theorem put_paves {ways : List (List String)} (below : names ≠ [])
    (free : disk.find? names = none) (among : names ∈ ways) :
    disk.Paves (disk.put names .directory) ways := by
  intro other
  rw [find?_put disk below]
  by_cases same : other = names
  · subst same
    exact Or.inr ⟨free, by simp only [↓reduceIte], among⟩
  · simp only [same, ↓reduceIte, true_or]

/-! ### Walks -/

/-- Where a walk ends that leads to some names below a directory. -/
def arrival (disk : Disk) (names : List String) : Location :=
  match disk.find? names with
  | some .directory => .directory names
  | some (.file content) => .name names (some content)
  | none => .name names none

theorem arrival_directory (found : disk.find? names = some .directory) :
    disk.arrival names = .directory names := by
  rw [arrival, found]

theorem arrival_file (found : disk.find? names = some (.file content)) :
    disk.arrival names = .name names (some content) := by
  rw [arrival, found]

/-- Every part is short enough for a name. -/
def Short (parts : List String) : Prop :=
  ∀ part ∈ parts, part.utf8ByteSize ≤ maxName

theorem follow_up (disk : Disk) (here rest : List String) :
    disk.follow here (".." :: rest) = disk.follow here.dropLast rest := by
  rw [follow]
  simp only [↓reduceIte]

theorem follow_name (disk : Disk) {here rest : List String} {part : String} (notUp : part ≠ "..")
    (short : part.utf8ByteSize ≤ maxName) :
    disk.follow here (part :: rest) =
      match disk.find? (here ++ [part]), rest with
      | some .directory, rest => disk.follow (here ++ [part]) rest
      | some (.file content), [] => .ok (.name (here ++ [part]) (some content))
      | some (.file _), _ :: _ => .error .notDirectory
      | none, [] => .ok (.name (here ++ [part]) none)
      | none, _ :: _ => .error .notFound := by
  have fits : ¬maxName < part.utf8ByteSize := Nat.not_lt.mpr short
  cases found : disk.find? (here ++ [part]) with
  | none => cases rest <;> simp only [follow, notUp, fits, found, ↓reduceIte]
  | some entry => cases entry <;> cases rest <;> simp only [follow, notUp, fits, found, ↓reduceIte]

theorem follow_long (disk : Disk) {here rest : List String} {part : String} (notUp : part ≠ "..")
    (long : ¬part.utf8ByteSize ≤ maxName) :
    disk.follow here (part :: rest) = .error .nameTooLong := by
  rw [follow]
  simp only [notUp, Nat.not_le.mp long, ↓reduceIte]

/-- A walk into a directory goes on from there. -/
theorem follow_append (led : disk.follow here front = .ok (.directory there)) :
    disk.follow here (front ++ back) = disk.follow there back := by
  induction front generalizing here with
  | nil =>
    cases led
    rfl
  | cons part rest ih =>
    by_cases up : part = ".."
    · subst up
      rw [follow_up] at led
      rw [List.cons_append, follow_up]
      exact ih led
    · by_cases short : part.utf8ByteSize ≤ maxName
      · rw [follow_name disk up short] at led
        rw [List.cons_append, follow_name disk up short]
        split at led
        · rename_i standing
          rw [standing]
          exact ih led
        all_goals cases led
      · rw [follow_long disk up short] at led
        cases led

/-- The directory that a walk ends in is the one that its parts resolve to. -/
theorem follow_resolves (led : disk.follow here parts = .ok (.directory there)) :
    there = resolveParts here parts := by
  induction parts generalizing here with
  | nil =>
    cases led
    rfl
  | cons part rest ih =>
    rw [Path.resolveParts_cons]
    by_cases up : part = ".."
    · subst up
      rw [follow_up] at led
      exact ih led
    · by_cases short : part.utf8ByteSize ≤ maxName
      · rw [follow_name disk up short] at led
        split at led
        · rw [Path.enter_name up]
          exact ih led
        all_goals cases led
      · rw [follow_long disk up short] at led
        cases led

/-- Only directories matter on the way. -/
theorem follow_congr
    (kept : ∀ names, before.find? names = some .directory → after.find? names = some .directory)
    (led : before.follow here parts = .ok (.directory there)) :
    after.follow here parts = .ok (.directory there) := by
  induction parts generalizing here with
  | nil => exact led
  | cons part rest ih =>
    by_cases up : part = ".."
    · subst up
      rw [follow_up] at led ⊢
      exact ih led
    · by_cases short : part.utf8ByteSize ≤ maxName
      · rw [follow_name before up short] at led
        rw [follow_name after up short]
        split at led
        · rename_i directory
          rw [kept _ directory]
          exact ih led
        all_goals cases led
      · rw [follow_long before up short] at led
        cases led

/-- A walk that ends at a name goes through a directory to it. -/
theorem follow_split {content : Option Bytes}
    (led : disk.follow here parts = .ok (.name names content)) :
    ∃ front part there, parts = front ++ [part] ∧ part ≠ ".." ∧ part.utf8ByteSize ≤ maxName ∧
      disk.follow here front = .ok (.directory there) ∧ names = there ++ [part] ∧
      disk.find? names = content.map .file := by
  induction parts generalizing here with
  | nil => cases led
  | cons part rest ih =>
    by_cases up : part = ".."
    · subst up
      rw [follow_up] at led
      obtain ⟨front, last, there, rfl, notUp, short, through, same, standing⟩ := ih led
      refine ⟨".." :: front, last, there, rfl, notUp, short, ?_, same, standing⟩
      rw [follow_up]
      exact through
    · by_cases short : part.utf8ByteSize ≤ maxName
      · rw [follow_name disk up short] at led
        split at led
        · rename_i directory
          obtain ⟨front, last, there, rfl, notUp, fits, through, same, standing⟩ := ih led
          refine ⟨part :: front, last, there, rfl, notUp, fits, ?_, same, standing⟩
          rw [follow_name disk up short, directory]
          exact through
        · rename_i content standing
          cases led
          exact ⟨[], part, here, rfl, up, short, rfl, rfl, standing⟩
        · cases led
        · rename_i standing
          cases led
          exact ⟨[], part, here, rfl, up, short, rfl, rfl, standing⟩
        · cases led
      · rw [follow_long disk up short] at led
        cases led

/-- Where a walk into a directory and on to a name there ends. -/
theorem follow_concat (led : disk.follow here front = .ok (.directory there)) (notUp : part ≠ "..")
    (short : part.utf8ByteSize ≤ maxName) :
    disk.follow here (front ++ [part]) = .ok (disk.arrival (there ++ [part])) := by
  rw [follow_append led, follow_name disk notUp short, arrival]
  cases disk.find? (there ++ [part]) with
  | none => rfl
  | some entry => cases entry <;> rfl

/-- The walk to a name leads to whatever stands there on a disk with the same directories. -/
theorem follow_moved {content : Option Bytes}
    (kept : ∀ names, before.find? names = some .directory → after.find? names = some .directory)
    (led : before.follow here parts = .ok (.name names content)) :
    after.follow here parts = .ok (after.arrival names) := by
  obtain ⟨front, part, there, rfl, notUp, short, through, rfl, -⟩ := follow_split led
  exact follow_concat (follow_congr kept through) notUp short

/-- The names that a walk ends at are those that its parts resolve to. -/
theorem follow_name_resolves {content : Option Bytes}
    (led : disk.follow here parts = .ok (.name names content)) :
    names = resolveParts here parts ∧ names ≠ [] ∧ disk.find? names = content.map .file := by
  obtain ⟨front, part, there, rfl, notUp, -, through, rfl, standing⟩ := follow_split led
  refine ⟨?_, by simp, standing⟩
  rw [Path.resolveParts_append, ← follow_resolves through, Path.resolveParts_cons,
    Path.enter_name notUp]
  rfl

/-- What is put where a walk ends at a free name is found there. -/
theorem follow_put (led : disk.follow here parts = .ok (.name names none)) (entry : DiskEntry) :
    (disk.put names entry).follow here parts = .ok ((disk.put names entry).arrival names) := by
  obtain ⟨-, below, free⟩ := follow_name_resolves led
  have kept : ∀ other, disk.find? other = some .directory →
      (disk.put names entry).find? other = some .directory := by
    intro other directory
    have apart : other ≠ names := by
      rintro rfl
      rw [free] at directory
      cases directory
    rw [find?_put_other disk below apart, directory]
  exact follow_moved kept led

/-! ### Ways without files -/

/-- No file stands at any of some places. -/
def Clear (disk : Disk) (ways : List (List String)) : Prop :=
  ∀ place ∈ ways, ∀ content, disk.find? place ≠ some (.file content)

theorem Clear.paved {ways more : List (List String)} (clear : before.Clear ways)
    (paves : before.Paves after more) : after.Clear ways := by
  intro place member content found
  rcases paves place with same | ⟨-, made, -⟩
  · exact clear place member content (same ▸ found)
  · rw [made] at found
    cases found

/-- One part leads to a directory or to a free name, unless there is a file. -/
theorem follow_one (short : part.utf8ByteSize ≤ maxName) (clear : disk.Clear [enter here part]) :
    disk.follow here [part] = .ok (.directory (enter here part)) ∨
      disk.follow here [part] = .ok (.name (enter here part) none) := by
  by_cases up : part = ".."
  · subst up
    rw [follow_up]
    exact Or.inl rfl
  · rw [follow_name disk up short]
    rw [Path.enter_name up] at clear ⊢
    cases standing : disk.find? (here ++ [part]) with
    | none => exact Or.inr rfl
    | some entry =>
      cases entry with
      | directory => exact Or.inl rfl
      | file content => exact absurd standing (clear _ (List.mem_singleton_self _) content)

/-- Where no file is in the way, a walk ends in a directory, at a free name, or misses a directory
on the way. -/
theorem follow_clear (short : Short parts) (clear : disk.Clear (places here parts)) :
    disk.follow here parts = .ok (.directory (resolveParts here parts)) ∨
      (disk.follow here parts = .ok (.name (resolveParts here parts) none) ∧
        resolveParts here parts ∈ places here parts) ∨
      disk.follow here parts = .error .notFound := by
  induction parts generalizing here with
  | nil => exact Or.inl rfl
  | cons part rest ih =>
    have fits : part.utf8ByteSize ≤ maxName := short part List.mem_cons_self
    have shorter : Short rest := fun other member => short other (List.mem_cons_of_mem _ member)
    have later : disk.Clear (places (enter here part) rest) :=
      fun place member => clear place (List.mem_cons_of_mem _ member)
    have first : disk.Clear [enter here part] := by
      intro place member
      rw [List.mem_singleton.mp member]
      exact clear _ List.mem_cons_self
    have whole : part :: rest = [part] ++ rest := rfl
    rw [Path.resolveParts_cons, places]
    rcases follow_one fits first with directory | free
    · rw [whole, follow_append directory]
      rcases ih shorter later with led | ⟨led, inside⟩ | lost
      · exact Or.inl led
      · exact Or.inr (Or.inl ⟨led, List.mem_cons_of_mem _ inside⟩)
      · exact Or.inr (Or.inr lost)
    · cases rest with
      | nil => exact Or.inr (Or.inl ⟨free, List.mem_cons_self⟩)
      | cons next more =>
        obtain ⟨front, last, there, single, notUp, -, through, same, standing⟩ := follow_split free
        obtain ⟨rfl, rfl⟩ : front = [] ∧ last = part := by
          cases front with
          | nil => exact ⟨rfl, (List.singleton_inj.mp single).symm⟩
          | cons head tail => cases tail <;> cases single
        cases through
        rw [same] at standing
        refine Or.inr (Or.inr ?_)
        rw [follow_name disk notUp fits, standing]
        rfl

/-! ### Making directories -/

/-- A path can be followed on a disk without a fault of its own. -/
structure Legal (path : String) : Prop where
  plain : path.toList.contains (Char.ofNat 0) = false
  short : Short (Path.parts path)

/-- What is legal for a path is legal for its enclosing directory. -/
theorem Legal.parent {parent : String} (legal : Legal path)
    (split : Path.parts path = Path.parts parent ++ [part])
    (chars : ∀ char ∈ parent.toList, char ∈ path.toList ∨ char = '/') : Legal parent where
  plain := by
    have plain := legal.plain
    rw [List.contains_eq_mem, decide_eq_false_iff_not] at plain ⊢
    intro nul
    rcases chars _ nul with below | slash
    · exact plain below
    · exact absurd slash (by decide)
  short := by
    intro other member
    exact legal.short other (split ▸ List.mem_append_left _ member)

theorem Legal.last (legal : Legal path) (split : Path.parts path = names ++ [part]) :
    part.utf8ByteSize ≤ maxName :=
  legal.short part (split ▸ List.mem_append_right _ (List.mem_singleton_self _))

theorem locate_eq (disk : Disk) (legal : Legal path) (tidy : Path.Tidy path)
    (some_ : path ≠ "") :
    disk.locate path = disk.follow [] (Path.parts path) := by
  unfold locate
  simp only [legal.plain, some_, Bool.false_eq_true, ↓reduceIte]
  split
  · rename_i led
    rw [tidy.endsInPoint, led]
    rfl
  · rfl

/-- Makes sure of a directory where the way to it is there. -/
theorem ensureDirectory_ok (legal : Legal path) (tidy : Path.Tidy path) (some_ : path ≠ "")
    (led : disk.follow [] (Path.parts path) = .ok (.directory (Path.resolve path)) ∨
      (disk.follow [] (Path.parts path) = .ok (.name (Path.resolve path) none) ∧
        Path.resolve path ∈ places [] (Path.parts path))) :
    ∃ made, disk.ensureDirectory path = .ok made ∧
      made.follow [] (Path.parts path) = .ok (.directory (Path.resolve path)) ∧
      disk.Paves made (places [] (Path.parts path)) := by
  have located := locate_eq disk legal tidy some_
  rcases led with directory | ⟨free, inside⟩
  · rw [directory] at located
    refine ⟨disk, ?_, directory, .refl disk _⟩
    simp only [ensureDirectory, makeDirectory, isDirectory, located, ↓reduceIte]
  · rw [free] at located
    obtain ⟨-, below, absent⟩ := follow_name_resolves free
    refine ⟨disk.put (Path.resolve path) .directory, ?_, ?_, put_paves below absent inside⟩
    · simp only [ensureDirectory, makeDirectory, located]
    · rw [follow_put free, arrival_directory (find?_put_self disk below _)]

/-- The directories of a path are made where no file is in the way. -/
theorem makeWay_ok {fuel : Nat} (legal : Legal path) (tidy : Path.Tidy path)
    (clear : disk.Clear (places [] (Path.parts path))) (enough : (Path.parts path).length < fuel) :
    ∃ made, makeWay fuel disk path = (made, .ok ()) ∧
      made.follow [] (Path.parts path) = .ok (.directory (Path.resolve path)) ∧
      disk.Paves made (places [] (Path.parts path)) := by
  -- The induction is on the fuel: an enclosing directory has a part less.
  induction fuel generalizing path with
  | zero => omega
  | succ fuel ih =>
    by_cases bare : path = ""
    · subst bare
      exact ⟨disk, rfl, rfl, .refl disk _⟩
    · rw [makeWay]
      simp only [bare, ↓reduceIte]
      have cases_ := follow_clear legal.short clear
      rcases cases_ with directory | free | lost
      · obtain ⟨made, ensured, led, paves⟩ := ensureDirectory_ok legal tidy bare (.inl directory)
        exact ⟨made, by simp only [ensured], led, paves⟩
      · obtain ⟨made, ensured, led, paves⟩ := ensureDirectory_ok legal tidy bare (.inr free)
        exact ⟨made, by simp only [ensured], led, paves⟩
      · have located := locate_eq disk legal tidy bare
        rw [lost] at located
        have missing : disk.ensureDirectory path = .error .notFound := by
          simp only [ensureDirectory, makeDirectory, isDirectory, located, Bool.false_eq_true,
            ↓reduceIte]
        have parted : Path.parts path ≠ [] := by
          intro none
          rw [none] at lost
          cases lost
        obtain ⟨parent, last, found, tidyAbove, chars, split, resolved, ways, way⟩ :=
          tidy.enclosing parted
        have among : Path.resolve path ∈ places [] (Path.parts path) := by
          rw [ways]
          exact List.mem_append_right _ (List.mem_singleton_self _)
        have below : ∀ place ∈ places [] (Path.parts parent),
            place ∈ places [] (Path.parts path) := by
          intro place member
          rw [ways, way]
          exact List.mem_append_left _ member
        have shorter : (Path.parts parent).length < fuel := by
          rw [split, List.length_append, List.length_singleton] at enough
          omega
        obtain ⟨middle, madeAbove, ledAbove, pavesAbove⟩ :=
          ih (legal.parent split chars) tidyAbove
            (fun place member => clear place (below place member)) shorter
        have only : middle.Clear [enter (Path.resolve parent) last] := by
          intro place member
          rw [List.mem_singleton.mp member, ← resolved]
          exact (clear.paved pavesAbove) _ among
        have led : middle.follow [] (Path.parts path) = .ok (.directory (Path.resolve path)) ∨
            (middle.follow [] (Path.parts path) = .ok (.name (Path.resolve path) none) ∧
              Path.resolve path ∈ places [] (Path.parts path)) := by
          have step := follow_one (legal.last split) only
          rw [← follow_append ledAbove, ← split, ← resolved] at step
          exact step.imp id fun free => ⟨free, among⟩
        obtain ⟨made, ensured, arrives, paves⟩ := ensureDirectory_ok legal tidy bare led
        refine ⟨made, ?_, arrives, (pavesAbove.mono below).trans paves⟩
        simp only [missing, found, madeAbove, ensured, attempt]

/-- The directories that lead to a file are made where no file is in the way. What is at the end of
the path is then found there. -/
theorem makeParents_ok (legal : Legal path) (file : Path.NamesFile path)
    (clear : disk.Clear (Path.passed path)) :
    ∃ made, disk.makeParents path = (made, .ok ()) ∧
      made.follow [] (Path.parts path) = .ok (made.arrival (Path.resolve path)) ∧
      disk.Paves made (Path.passed path) := by
  obtain ⟨front, name, named, notUp⟩ := file.parts_eq
  have parted : Path.parts path ≠ [] := by simp [named]
  obtain ⟨parent, last, found, tidy, chars, split, resolved, -, way⟩ := file.tidy.enclosing parted
  obtain rfl : last = name := by
    rw [split] at named
    exact List.singleton_inj.mp (List.append_inj' named rfl).2
  rw [way] at clear ⊢
  have enough : (Path.parts parent).length < parent.length + 1 :=
    Nat.lt_succ_of_le (Path.length_parts parent)
  obtain ⟨made, result, led, paves⟩ := makeWay_ok (legal.parent split chars) tidy clear enough
  refine ⟨made, ?_, ?_, paves⟩
  · simp only [makeParents, found, makeDirectories, result]
    rfl
  · rw [split, follow_concat led notUp (legal.last split), resolved, Path.enter_name notUp]

/-! ### Files -/

/-- A path leads to a file with a given content. -/
def Opens (disk : Disk) (path : String) (content : Bytes) : Prop :=
  disk.follow [] (Path.parts path) = .ok (.name (Path.resolve path) (some content))

theorem Opens.found (opens : disk.Opens path content) :
    Path.resolve path ≠ [] ∧ disk.find? (Path.resolve path) = some (.file content) :=
  (follow_name_resolves opens).2

theorem Opens.unique {other : Bytes} (opens : disk.Opens path content)
    (again : disk.Opens path other) : content = other := by
  have same := opens.found.2.symm.trans again.found.2
  cases same
  rfl

/-- A path leads to a file still when the file has another content. -/
theorem Opens.moved {changed : Bytes} (opens : before.Opens path content)
    (kept : ∀ names, before.find? names = some .directory → after.find? names = some .directory)
    (found : after.find? (Path.resolve path) = some (.file changed)) :
    after.Opens path changed := by
  rw [Opens, follow_moved kept opens, arrival_file found]

theorem Opens.grows (opens : before.Opens path content) (grows : before.Grows after) :
    after.Opens path content :=
  opens.moved (fun names => grows names .directory) (grows _ _ opens.found.2)

/-- A file that is given another content leaves the directories and the other files. -/
theorem Opens.put (opens : disk.Opens path content) (changed : Bytes) :
    (disk.put (Path.resolve path) (.file changed)).Opens path changed ∧
      ∀ other kept, Path.resolve other ≠ Path.resolve path → disk.Opens other kept →
        (disk.put (Path.resolve path) (.file changed)).Opens other kept := by
  obtain ⟨below, standing⟩ := opens.found
  have directories : ∀ names, disk.find? names = some .directory →
      (disk.put (Path.resolve path) (.file changed)).find? names = some .directory := by
    intro names directory
    have apart : names ≠ Path.resolve path := by
      rintro rfl
      rw [standing] at directory
      cases directory
    rw [find?_put_other disk below apart, directory]
  refine ⟨opens.moved directories (find?_put_self disk below _), ?_⟩
  intro other kept apart opensOther
  refine opensOther.moved directories ?_
  rw [find?_put_other disk below apart]
  exact opensOther.found.2

theorem Opens.openToWrite (opens : disk.Opens path content) (legal : Legal path)
    (file : Path.NamesFile path) :
    disk.openToWrite path = .ok (Path.resolve path, content) := by
  have located := locate_eq disk legal file.tidy file.ne_empty
  rw [opens] at located
  simp only [Disk.openToWrite, located, file.namesDirectory, Bool.false_eq_true, ↓reduceIte,
    Option.getD_some]

theorem Opens.openToRead (opens : disk.Opens path content) (legal : Legal path)
    (file : Path.NamesFile path) : disk.openToRead path = .ok (some content) := by
  have located := locate_eq disk legal file.tidy file.ne_empty
  rw [opens] at located
  simp only [Disk.openToRead, located, file.namesDirectory, Bool.false_eq_true, ↓reduceIte]

end BitTorrent.Disk
