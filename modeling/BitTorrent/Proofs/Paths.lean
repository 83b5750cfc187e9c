import BitTorrent.Path
import Mathlib.Data.List.TakeWhile

/-!
Paths part by part: what joining two paths and going to the enclosing directory do to the parts of a
path, and the places that a walk along its parts leads to.
-/

set_option autoImplicit false

namespace BitTorrent.Path

theorem splitChars_eq (path : List Char) : splitChars path = path.splitOn '/' := by
  induction path with
  | nil => rfl
  | cons char rest ih =>
    rw [splitChars, List.splitOn, List.splitOnP_cons_eq_if_modifyHead, ih]
    by_cases slash : char = '/'
    · simp only [slash, ↓reduceIte, BEq.rfl]
      rfl
    · have kept : (char == '/') = false := beq_eq_false_iff_ne.mpr slash
      simp only [slash, kept, ↓reduceIte, Bool.false_eq_true]
      change _ = (rest.splitOn '/').modifyHead (List.cons char)
      cases split : rest.splitOn '/' with
      | nil => exact absurd split (List.splitOn_ne_nil _ _)
      | cons first more => rfl

theorem splitChars_append (front back : List Char) :
    splitChars (front ++ '/' :: back) = splitChars front ++ splitChars back := by
  simp only [splitChars_eq, List.splitOn]
  exact List.splitOnP_append_cons front back (beq_self_eq_true '/')

theorem not_mem_of_mem_splitChars {path part : List Char} (member : part ∈ splitChars path) :
    '/' ∉ part := by
  induction path generalizing part with
  | nil =>
    rw [List.mem_singleton.mp member]
    exact List.not_mem_nil
  | cons char rest ih =>
    rw [splitChars] at member
    split at member
    · rcases List.mem_cons.mp member with rfl | later
      · exact List.not_mem_nil
      · exact ih later
    · rename_i other
      split at member
      · rename_i first more split
        rcases List.mem_cons.mp member with rfl | later
        · rw [List.mem_cons, not_or]
          exact ⟨Ne.symm other, ih (split ▸ List.mem_cons_self)⟩
        · exact ih (split ▸ List.mem_cons_of_mem _ later)
      · rw [List.mem_singleton.mp member, List.mem_singleton]
        exact Ne.symm other

theorem mem_of_mem_splitChars {path part : List Char} (member : part ∈ splitChars path)
    {char : Char} (inside : char ∈ part) : char ∈ path := by
  induction path generalizing part with
  | nil =>
    rw [List.mem_singleton.mp member] at inside
    exact absurd inside List.not_mem_nil
  | cons first rest ih =>
    rw [splitChars] at member
    split at member
    · rcases List.mem_cons.mp member with rfl | later
      · exact absurd inside List.not_mem_nil
      · exact List.mem_cons_of_mem _ (ih later inside)
    · split at member
      · rename_i head more split
        rcases List.mem_cons.mp member with rfl | later
        · rcases List.mem_cons.mp inside with rfl | inside
          · exact List.mem_cons_self
          · exact List.mem_cons_of_mem _ (ih (split ▸ List.mem_cons_self) inside)
        · exact List.mem_cons_of_mem _ (ih (split ▸ List.mem_cons_of_mem _ later) inside)
      · rw [List.mem_singleton.mp member, List.mem_singleton] at inside
        exact inside ▸ List.mem_cons_self

/-- A text between slashes names something if it is neither empty nor a single point. -/
def Names (part : List Char) : Prop :=
  part ≠ [] ∧ part ≠ ['.']

instance (part : List Char) : Decidable (Names part) :=
  inferInstanceAs (Decidable (_ ∧ _))

/-- The naming texts among those between slashes. -/
def named (texts : List (List Char)) : List String :=
  (texts.filter fun text => Names text).map String.ofList

theorem named_append (front back : List (List Char)) :
    named (front ++ back) = named front ++ named back := by
  simp only [named, List.filter_append, List.map_append]

theorem named_eq_nil {texts : List (List Char)} :
    named texts = [] ↔ ∀ text ∈ texts, ¬Names text := by
  simp only [named, List.map_eq_nil_iff, List.filter_eq_nil_iff, decide_eq_true_eq]

theorem parts_eq (path : String) : parts path = named (splitChars path.toList) := by
  rw [parts, named, List.filter_map]
  congr 1
  apply List.filter_congr
  intro text _
  have empty : String.ofList text = "" ↔ text = [] := by
    rw [← String.toList_inj, String.toList_ofList]
    rfl
  have point : String.ofList text = "." ↔ text = ['.'] := by
    rw [← String.toList_inj, String.toList_ofList]
    rfl
  rw [Function.comp_apply, decide_eq_decide]
  simp only [Names, ne_eq, empty, point]

/-- There are no more texts between slashes than characters, those without any aside. -/
theorem countP_splitChars (chars : List Char) :
    (splitChars chars).countP (fun text => text ≠ []) ≤ chars.length := by
  induction chars with
  | nil => exact Nat.le_refl 0
  | cons char rest ih =>
    rw [splitChars, List.length_cons]
    split
    · rw [List.countP_cons_of_neg (by simp)]
      omega
    · split
      · rename_i first more split
        rw [split, List.countP_cons] at ih
        rw [List.countP_cons_of_pos (by simp)]
        omega
      · rw [List.countP_cons_of_pos (by simp), List.countP_nil]
        omega

theorem length_parts (path : String) : (parts path).length ≤ path.length := by
  have texts := countP_splitChars path.toList
  have fewer : (splitChars path.toList).countP (fun text => Names text) ≤
      (splitChars path.toList).countP (fun text => text ≠ []) :=
    List.countP_mono_left fun text _ names => by simpa using (of_decide_eq_true names).1
  rw [parts_eq, named, List.length_map, ← List.countP_eq_length_filter]
  rw [String.length_toList] at texts
  omega

/-! ### Joining -/

theorem push_of_absolute {path part : String} (absolute : isAbsolute part.toList = true) :
    push path part = part := by
  simp only [push, pushChars, absolute, ↓reduceIte, String.ofList_toList]

/-- A path is joined part by part. -/
theorem parts_push {path part : String} (relative : isAbsolute part.toList = false) :
    parts (push path part) = parts path ++ parts part := by
  simp only [parts_eq, push, String.toList_ofList, pushChars, relative, Bool.false_eq_true,
    ↓reduceIte]
  split
  · rename_i bare
    rw [Bool.or_eq_true, List.isEmpty_iff, decide_eq_true_eq] at bare
    rcases bare with empty | slash
    · rw [empty]
      rfl
    · obtain ⟨front, ends⟩ := List.getLast?_eq_some_iff.mp slash
      have blank : named (splitChars []) = [] := rfl
      rw [ends, List.append_assoc, List.singleton_append, splitChars_append, splitChars_append,
        named_append, named_append, blank, List.append_nil]
  · rw [splitChars_append, named_append]

theorem isAbsolute_push (path part : String) :
    isAbsolute (push path part).toList =
      (isAbsolute path.toList || isAbsolute part.toList) := by
  simp only [push, String.toList_ofList, pushChars]
  cases absolute : isAbsolute part.toList with
  | true => simp only [↓reduceIte, absolute, Bool.or_true]
  | false =>
    simp only [Bool.false_eq_true, ↓reduceIte, Bool.or_false]
    cases path.toList with
    | nil => exact absolute
    | cons first rest => split <;> rfl

/-! ### Walks -/

/-- Enters what a part names in a directory; `..` leads to the enclosing directory. -/
def enter (here : List String) (part : String) : List String :=
  if part = ".." then here.dropLast else here ++ [part]

theorem enter_name {part : String} (notUp : part ≠ "..") (here : List String) :
    enter here part = here ++ [part] := by
  simp only [enter, notUp, ↓reduceIte]

theorem resolveParts_cons (here : List String) (part : String) (rest : List String) :
    resolveParts here (part :: rest) = resolveParts (enter here part) rest := by
  rw [resolveParts, enter]
  split <;> rfl

theorem resolveParts_append (here front back : List String) :
    resolveParts here (front ++ back) = resolveParts (resolveParts here front) back := by
  induction front generalizing here with
  | nil => rfl
  | cons part rest ih => rw [List.cons_append, resolveParts_cons, resolveParts_cons, ih]

/-- The places that a walk leads to, one for each part. -/
def places : List String → List String → List (List String)
  | _, [] => []
  | here, part :: rest => enter here part :: places (enter here part) rest

theorem places_append (here front back : List String) :
    places here (front ++ back) = places here front ++ places (resolveParts here front) back := by
  induction front generalizing here with
  | nil => rfl
  | cons part rest ih =>
    rw [List.cons_append, places, places, ih, resolveParts_cons, List.cons_append]

/-- The places that a path leads through before its last part. -/
def passed (path : String) : List (List String) :=
  places [] (parts path).dropLast

/-! ### The enclosing directory -/

/-- What stands behind the last slash of a path names something, or the path has no parts. -/
def Tidy (path : String) : Prop :=
  path = "" ∨ path = "/" ∨
    ∃ front name, splitChars path.toList = front ++ [name] ∧ Names name

/-- What stands behind the last slash of a path is a name that a file can have. -/
def NamesFile (path : String) : Prop :=
  ∃ front name, splitChars path.toList = front ++ [name] ∧ Names name ∧ name ≠ ['.', '.']

theorem NamesFile.tidy {path : String} (file : NamesFile path) : Tidy path := by
  obtain ⟨front, name, split, names, -⟩ := file
  exact Or.inr (Or.inr ⟨front, name, split, names⟩)

theorem NamesFile.ne_empty {path : String} (file : NamesFile path) : path ≠ "" := by
  rintro rfl
  obtain ⟨front, name, split, names, -⟩ := file
  have parted : [] ++ [[]] = front ++ [name] := split
  exact names.1 (List.singleton_inj.mp (List.append_inj' parted rfl).2).symm

theorem NamesFile.parts_eq {path : String} (file : NamesFile path) :
    ∃ front name, parts path = front ++ [name] ∧ name ≠ ".." := by
  obtain ⟨front, name, split, names, notUp⟩ := file
  refine ⟨named front, String.ofList name, ?_, ?_⟩
  · rw [Path.parts_eq, split, named_append]
    congr 1
    simp only [named, List.filter_cons, names, decide_true, ↓reduceIte, List.filter_nil,
      List.map_cons, List.map_nil]
  · intro up
    rw [← String.toList_inj, String.toList_ofList] at up
    exact notUp up

/-- A path to a file does not end in a slash. -/
theorem NamesFile.namesDirectory {path : String} (file : NamesFile path) :
    namesDirectory path = false := by
  obtain ⟨front, name, split, names, -⟩ := file
  rw [Path.namesDirectory, decide_eq_false_iff_not]
  intro slash
  obtain ⟨rest, ends⟩ := List.getLast?_eq_some_iff.mp slash
  rw [ends, splitChars_append] at split
  have last := (List.append_inj' split rfl).2
  exact names.1 (List.singleton_inj.mp last).symm

theorem Tidy.endsInPoint {path : String} (tidy : Tidy path) : endsInPoint path = false := by
  rcases tidy with rfl | rfl | ⟨front, name, split, names⟩
  · rfl
  · rfl
  · have kept : ((splitChars path.toList).reverse.dropWhile (·.isEmpty)) =
        name :: front.reverse := by
      rw [split, List.reverse_append, List.reverse_singleton, List.singleton_append,
        List.dropWhile_cons_of_neg]
      rw [List.isEmpty_iff]
      exact names.1
    unfold Path.endsInPoint
    rw [kept]
    split
    · rename_i head rest same
      exact absurd (List.cons.inj same).1 names.2
    · rfl

theorem dropUnnamed_eq (texts : List (List Char)) :
    dropUnnamed texts = texts.dropWhile fun text => !decide (Names text) := by
  unfold dropUnnamed
  congr 1
  funext text
  rw [← decide_not, decide_eq_decide]
  simp only [Names, ne_eq, not_and_or, Decidable.not_not]

/-- What is dropped off the end names nothing, and what then stands at the end names something. -/
theorem dropUnnamed_reverse (texts : List (List Char)) :
    named (dropUnnamed texts.reverse).reverse = named texts ∧
      ∀ text ∈ (dropUnnamed texts.reverse).head?, Names text := by
  constructor
  · have dropped : texts = (dropUnnamed texts.reverse).reverse ++
        (texts.reverse.takeWhile fun text => !decide (Names text)).reverse := by
      rw [← List.reverse_append, dropUnnamed_eq, List.takeWhile_append_dropWhile,
        List.reverse_reverse]
    have unnamed : named
        (texts.reverse.takeWhile fun text => !decide (Names text)).reverse = [] := by
      rw [named_eq_nil]
      intro text member
      have skipped := List.mem_takeWhile_imp (List.mem_reverse.mp member)
      simpa using skipped
    conv => rhs; rw [dropped, named_append, unnamed, List.append_nil]
  · intro text first
    have kept := List.head?_dropWhile_not (fun text => !decide (Names text)) texts.reverse
    rw [dropUnnamed_eq, Option.mem_def] at first
    rw [first] at kept
    simpa using kept

theorem splitChars_intercalate {texts : List (List Char)} (some_ : texts ≠ [])
    (free : ∀ text ∈ texts, '/' ∉ text) :
    splitChars ("/".intercalate (texts.map String.ofList)).toList = texts := by
  have same : (texts.map String.ofList).map String.toList = texts := by
    rw [List.map_map]
    conv => rhs; rw [← List.map_id texts]
    apply List.map_congr_left
    intro text _
    exact String.toList_ofList
  rw [String.toList_intercalate, same, splitChars_eq]
  exact List.splitOn_intercalate '/' free some_

theorem mem_intercalate {texts : List (List Char)} {char : Char}
    (member : char ∈ ("/".intercalate (texts.map String.ofList)).toList) :
    char = '/' ∨ ∃ text ∈ texts, char ∈ text := by
  rw [String.toList_intercalate] at member
  induction texts with
  | nil => exact absurd member List.not_mem_nil
  | cons text rest ih =>
    cases rest with
    | nil =>
      refine Or.inr ⟨text, List.mem_cons_self, ?_⟩
      simpa [List.intercalate] using member
    | cons next more =>
      simp only [List.map_cons, List.intercalate_cons_cons, String.toList_ofList,
        List.mem_append] at member ih
      rcases member with (inside | slash) | later
      · exact Or.inr ⟨text, List.mem_cons_self, inside⟩
      · exact Or.inl (List.mem_singleton.mp slash)
      · rcases ih later with slash | ⟨other, among, inside⟩
        · exact Or.inl slash
        · exact Or.inr ⟨other, List.mem_cons_of_mem _ among, inside⟩

/-- The enclosing directory of a path has all parts of it but the last. -/
theorem Tidy.parent {path : String} (tidy : Tidy path) (some_ : parts path ≠ []) :
    ∃ parent, parent? path = some parent ∧ parts parent = (parts path).dropLast ∧ Tidy parent ∧
      ∀ char ∈ parent.toList, char ∈ path.toList ∨ char = '/' := by
  rcases tidy with rfl | rfl | ⟨front, name, split, names⟩
  · exact absurd rfl some_
  · exact absurd rfl some_
  have kept : dropUnnamed (splitChars path.toList).reverse = name :: front.reverse := by
    rw [dropUnnamed_eq, split, List.reverse_append, List.reverse_singleton, List.singleton_append,
      List.dropWhile_cons_of_neg]
    simp [names]
  have above : (parts path).dropLast = named front := by
    rw [parts_eq, split, named_append]
    have single : named [name] = [String.ofList name] := by
      simp [named, names]
    rw [single, List.dropLast_concat]
  obtain ⟨same, first⟩ := dropUnnamed_reverse front
  unfold parent?
  rw [kept, above]
  dsimp only
  cases rest : dropUnnamed front.reverse with
  | nil =>
    rw [rest] at same
    refine ⟨_, rfl, ?_, ?_, ?_⟩
    · rw [← same]
      split <;> rfl
    · split
      · exact Or.inr (Or.inl rfl)
      · exact Or.inl rfl
    · intro char member
      split at member
      · exact Or.inr (List.mem_singleton.mp member)
      · exact absurd member List.not_mem_nil
  | cons last others =>
    rw [rest] at same first
    have among : ∀ text ∈ (last :: others).reverse, text ∈ splitChars path.toList := by
      intro text member
      have inside : text ∈ dropUnnamed front.reverse := rest ▸ List.mem_reverse.mp member
      have original := List.mem_reverse.mp ((List.dropWhile_sublist _).mem inside)
      rw [split]
      exact List.mem_append_left _ original
    have again : splitChars ("/".intercalate ((last :: others).reverse.map String.ofList)).toList =
        (last :: others).reverse :=
      splitChars_intercalate (by simp) fun text member =>
        not_mem_of_mem_splitChars (among text member)
    refine ⟨_, rfl, ?_, ?_, ?_⟩
    · rw [parts_eq, again, same]
    · refine Or.inr (Or.inr ⟨others.reverse, last, ?_, first last rfl⟩)
      rw [again, List.reverse_cons]
    · intro char member
      rcases mem_intercalate member with slash | ⟨text, inside, found⟩
      · exact Or.inr slash
      · exact Or.inl (mem_of_mem_splitChars (among text inside) found)

/-- A path leads one step on from its enclosing directory. -/
theorem Tidy.enclosing {path : String} (tidy : Tidy path) (some_ : parts path ≠ []) :
    ∃ parent last, parent? path = some parent ∧ Tidy parent ∧
      (∀ char ∈ parent.toList, char ∈ path.toList ∨ char = '/') ∧
      parts path = parts parent ++ [last] ∧ resolve path = enter (resolve parent) last ∧
      places [] (parts path) = passed path ++ [resolve path] ∧
      passed path = places [] (parts parent) := by
  obtain ⟨parent, found, above, tidyAbove, chars⟩ := tidy.parent some_
  have split : parts path = parts parent ++ [(parts path).getLast some_] := by
    rw [above, List.dropLast_concat_getLast]
  generalize (parts path).getLast some_ = last at split
  have way : passed path = places [] (parts parent) := by
    rw [passed, above]
  have resolved : resolve path = enter (resolve parent) last := by
    rw [resolve, split, resolveParts_append, resolveParts_cons]
    rfl
  refine ⟨parent, last, found, tidyAbove, chars, split, resolved, ?_, way⟩
  rw [way, resolved, split, places_append]
  rfl

end BitTorrent.Path
