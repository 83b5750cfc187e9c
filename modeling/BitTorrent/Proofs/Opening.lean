import BitTorrent.Proofs.Disk

/-!
Files that are opened by whatever path. An open that succeeds finds the file at the names that the
path resolves to; a file that is written is found by every path that led to it before, and making
directories makes no file.
-/

set_option autoImplicit false

namespace BitTorrent.Disk

variable {disk before middle after : Disk} {names : List String} {path : String}
  {content changed : Bytes}

/-! ### Opening -/

/-- Where a path leads is a matter of the walk along its parts and of the path alone. -/
theorem locate_eq_name {found : Option Bytes} :
    disk.locate path = .ok (.name names found) ↔
      (path.toList.contains (Char.ofNat 0) = false ∧ path ≠ "" ∧ Path.endsInPoint path = false) ∧
        disk.follow [] (Path.parts path) = .ok (.name names found) := by
  unfold locate
  by_cases nul : path.toList.contains (Char.ofNat 0) = true
  · simp only [nul, ↓reduceIte, reduceCtorEq, Bool.true_eq_false, false_and]
  · rw [Bool.not_eq_true] at nul
    by_cases bare : path = ""
    · simp [bare]
    · simp only [nul, bare, Bool.false_eq_true, ↓reduceIte, ne_eq, not_false_eq_true, true_and]
      cases led : disk.follow [] (Path.parts path) with
      | error cause => simp
      | ok location =>
        cases location with
        | directory => simp
        | name => by_cases point : Path.endsInPoint path = true <;> simp [point]

/-- A path opens a file with a given content. -/
structure Leads (disk : Disk) (path : String) (content : Bytes) : Prop where
  located : disk.locate path = .ok (.name (Path.resolve path) (some content))
  named : Path.namesDirectory path = false

theorem openToRead_eq_ok : disk.openToRead path = .ok (some content) ↔ disk.Leads path content := by
  constructor
  · intro opened
    unfold openToRead at opened
    split at opened
    · cases opened
    · cases opened
    · cases opened
    · rename_i located
      split at opened
      · cases opened
      · rename_i named
        cases opened
        obtain ⟨-, led⟩ := locate_eq_name.mp located
        obtain rfl := (follow_name_resolves led).1
        exact ⟨located, Bool.not_eq_true _ ▸ named⟩
  · rintro ⟨located, named⟩
    simp only [openToRead, located, named, Bool.false_eq_true, ↓reduceIte]

theorem Leads.found (leads : disk.Leads path content) :
    disk.find? (Path.resolve path) = some (.file content) :=
  (follow_name_resolves (locate_eq_name.mp leads.located).2).2.2

/-- A path leads to a file still when the file has another content. -/
theorem Leads.moved (leads : before.Leads path content)
    (kept : ∀ names, before.find? names = some .directory → after.find? names = some .directory)
    (found : after.find? (Path.resolve path) = some (.file changed)) :
    after.Leads path changed := by
  obtain ⟨proper, led⟩ := locate_eq_name.mp leads.located
  refine ⟨locate_eq_name.mpr ⟨proper, ?_⟩, leads.named⟩
  rw [follow_moved kept led, arrival_file found]

/-- A file leaves the directories where it does not stand in the place of one. -/
theorem directory_put (below : names ≠ []) (apart : disk.find? names ≠ some .directory)
    (other : List String) (directory : disk.find? other = some .directory) :
    (disk.put names (.file content)).find? other = some .directory := by
  have different : other ≠ names := by
    rintro rfl
    exact apart directory
  rw [find?_put_other disk below different, directory]

/-- A file that is opened to be written was there, or its name was free. When it is written the path
leads to it. -/
theorem openToWrite_ok (opened : disk.openToWrite path = .ok (names, content)) :
    names = Path.resolve path ∧ names ≠ [] ∧
      (disk.find? names = some (.file content) ∨ disk.find? names = none ∧ content = []) ∧
      ∀ changed, (disk.put names (.file changed)).Leads path changed := by
  unfold openToWrite at opened
  split at opened
  · cases opened
  · cases opened
  · rename_i names' found located
    split at opened
    · cases opened
    · rename_i named
      cases opened
      obtain ⟨proper, led⟩ := locate_eq_name.mp located
      obtain ⟨same, below, standing⟩ := follow_name_resolves led
      have apart : disk.find? names ≠ some .directory := by
        rw [standing]
        cases found <;> nofun
      refine ⟨same, below, ?_, fun changed => ⟨locate_eq_name.mpr ⟨proper, ?_⟩, ?_⟩⟩
      · cases found with
        | none => exact Or.inr ⟨standing, rfl⟩
        | some content => exact Or.inl standing
      · rw [follow_moved (directory_put below apart) led,
          arrival_file (find?_put_self disk below _), same]
        rfl
      · exact Bool.not_eq_true _ ▸ named

/-- Every path that leads to a file leads to one that is no shorter. -/
def Extends (before after : Disk) : Prop :=
  ∀ path content, before.Leads path content →
    ∃ longer, after.Leads path longer ∧ content.length ≤ longer.length

theorem Extends.refl (disk : Disk) : disk.Extends disk :=
  fun _ content leads => ⟨content, leads, Nat.le_refl _⟩

theorem Extends.trans (first : before.Extends middle) (second : middle.Extends after) :
    before.Extends after := by
  intro path content leads
  obtain ⟨longer, leads, grown⟩ := first path content leads
  obtain ⟨longest, leads, more⟩ := second path longer leads
  exact ⟨longest, leads, Nat.le_trans grown more⟩

theorem extends_put (below : names ≠ [])
    (standing : disk.find? names = some (.file content) ∨ disk.find? names = none ∧ content = [])
    (grown : content.length ≤ changed.length) :
    disk.Extends (disk.put names (.file changed)) := by
  have apart : disk.find? names ≠ some .directory := by
    rcases standing with found | ⟨free, -⟩
    · rw [found]
      nofun
    · rw [free]
      nofun
  intro path other leads
  by_cases here : Path.resolve path = names
  · subst here
    rcases standing with found | ⟨free, -⟩
    · obtain ⟨⟩ := found.symm.trans leads.found
      exact ⟨changed, leads.moved (directory_put below apart) (find?_put_self disk below _), grown⟩
    · cases free.symm.trans leads.found
  · refine ⟨other, leads.moved (directory_put below apart) ?_, Nat.le_refl _⟩
    rw [find?_put_other disk below here, leads.found]

/-! ### Making directories -/

/-- No file is new on a disk. -/
def Spares (before after : Disk) : Prop :=
  ∀ names content, after.find? names = some (.file content) →
    before.find? names = some (.file content)

theorem Spares.refl (disk : Disk) : disk.Spares disk :=
  fun _ _ found => found

theorem Spares.trans (first : before.Spares middle) (second : middle.Spares after) :
    before.Spares after :=
  fun names content found => first names content (second names content found)

theorem spares_put (below : names ≠ []) : disk.Spares (disk.put names .directory) := by
  intro other content found
  rw [find?_put disk below] at found
  split at found
  · cases found
  · exact found

theorem ensureDirectory_spares (ensured : disk.ensureDirectory path = .ok after) :
    disk.Spares after := by
  unfold ensureDirectory makeDirectory at ensured
  split at ensured
  · rename_i made
    cases ensured
    split at made
    · cases made
    · rename_i located
      cases made
      obtain ⟨-, led⟩ := locate_eq_name.mp located
      exact spares_put (follow_name_resolves led).2.1
    · cases made
  · split at ensured <;> cases ensured
    exact .refl disk

theorem attempt_spares {result : Except DeviceError Disk}
    (spares : ∀ after, result = .ok after → disk.Spares after) :
    disk.Spares (disk.attempt result).1 := by
  cases result with
  | ok after => exact spares after rfl
  | error cause => exact .refl disk

theorem makeWay_spares (fuel : Nat) (disk : Disk) (path : String) :
    disk.Spares (makeWay fuel disk path).1 := by
  induction fuel generalizing disk path with
  | zero => exact attempt_spares fun after ensured => ensureDirectory_spares ensured
  | succ fuel ih =>
    rw [makeWay]
    split
    · exact .refl disk
    · split
      · rename_i ensured
        exact ensureDirectory_spares ensured
      · rename_i parent _ _
        have above := ih disk parent
        split
        · rename_i made
          rw [made] at above
          exact above
        · rename_i made
          rw [made] at above
          exact above.trans (attempt_spares fun after ensured => ensureDirectory_spares ensured)
      · exact .refl disk

theorem makeParents_spares (disk : Disk) (path : String) :
    disk.Spares (disk.makeParents path).1 := by
  unfold makeParents
  split
  · exact .refl disk
  · exact makeWay_spares _ disk _

end BitTorrent.Disk
