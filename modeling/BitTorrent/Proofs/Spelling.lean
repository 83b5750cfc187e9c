import BitTorrent.Proofs.Numerals
import Mathlib.Logic.Relation

/-!
Bencoded values as they are written. One value has many spellings: an integer or a length may be
spelled in more than one way, and a dictionary may list its keys in any order. Only one of them is
canonical, and that is the one that is written out.
-/

set_option autoImplicit false

namespace BitTorrent

/-- A value as it is written: the characters of integers and lengths, and the entries of
dictionaries one behind the other. -/
inductive Written where
  | int (digits : Bytes)
  | bytes (length content : Bytes)
  | list (items : List Written)
  | dict (entries : List (Written × Written))

/-- A decoder of bencoded values, the spellings that it accepts, and the values that it takes for
keys. -/
structure Decoder where
  integer? : Bytes → Option Int
  length? : Bytes → Option Nat
  key? : Bencode → Option Bytes
  read : Bytes → Option Bencode

namespace Written

mutual

/-- The characters of a value. -/
def text : Written → Bytes
  | .int digits => 105 :: digits ++ [101]
  | .bytes length content => length ++ 58 :: content
  | .list items => 108 :: itemsText items ++ [101]
  | .dict entries => 100 :: entriesText entries ++ [101]

def itemsText : List Written → Bytes
  | [] => []
  | item :: rest => text item ++ itemsText rest

def entriesText : List (Written × Written) → Bytes
  | [] => []
  | (key, value) :: rest => text key ++ text value ++ entriesText rest

end

/-- Keys and values put into a dictionary one after the other: the last of equal keys counts. -/
def gather (pairs : Bencode.Entries) : Bencode.Entries :=
  pairs.foldl (fun entries pair => Bencode.insert entries pair.1 pair.2) []

mutual

/-- The value that is written, if a decoder accepts all its spellings. -/
def value? (decoder : Decoder) : Written → Option Bencode
  | .int digits => (decoder.integer? digits).map .int
  | .bytes length content =>
    if decoder.length? length = some content.length then some (.bytes content) else none
  | .list items => (itemValues? decoder items).map .list
  | .dict entries => (pairs? decoder entries).map fun pairs => .dict (gather pairs)

def itemValues? (decoder : Decoder) : List Written → Option (List Bencode)
  | [] => some []
  | item :: rest => do
    let value ← value? decoder item
    let values ← itemValues? decoder rest
    some (value :: values)

def pairs? (decoder : Decoder) : List (Written × Written) → Option Bencode.Entries
  | [] => some []
  | (key, value) :: rest => do
    let key ← (value? decoder key).bind decoder.key?
    let value ← value? decoder value
    let pairs ← pairs? decoder rest
    some ((key, value) :: pairs)

end

/-- The key that a value is written for. -/
def name? (decoder : Decoder) (key : Written) : Option Bytes :=
  (key.value? decoder).bind decoder.key?

/-- The content of a byte string. -/
def content? : Written → Option Bytes
  | .bytes _ content => some content
  | _ => none

/-- Nothing is spelled longer than need be, and keys are byte strings that ascend. -/
inductive Canonical : Written → Prop
  | int {digits : Bytes} (short : Numeral.shortestInteger digits = true) : Canonical (.int digits)
  | bytes {length content : Bytes} (short : Numeral.shortest length = true) :
      Canonical (.bytes length content)
  | list {items : List Written} (each : ∀ item ∈ items, Canonical item) : Canonical (.list items)
  | dict {entries : List (Written × Written)} {names : List Bytes}
      (named : entries.map (·.1.content?) = names.map some)
      (ascending : names.Pairwise (Bencode.keyBefore · · = true))
      (keys : ∀ entry ∈ entries, Canonical entry.1)
      (values : ∀ entry ∈ entries, Canonical entry.2) : Canonical (.dict entries)

/-- One change of the spelling at any depth: another spelling of the same integer or length, or two
entries with different keys the other way round. -/
inductive Respelled (decoder : Decoder) : Written → Written → Prop
  | int {old new : Bytes} {value : Int} (before : decoder.integer? old = some value)
      (after : decoder.integer? new = some value) : Respelled decoder (.int old) (.int new)
  | bytes {old new content : Bytes} (before : decoder.length? old = some content.length)
      (after : decoder.length? new = some content.length) :
      Respelled decoder (.bytes old content) (.bytes new content)
  | item {old new : Written} (front back : List Written) (change : Respelled decoder old new) :
      Respelled decoder (.list (front ++ old :: back)) (.list (front ++ new :: back))
  | key {old new : Written} (front back : List (Written × Written)) (value : Written)
      (change : Respelled decoder old new) :
      Respelled decoder (.dict (front ++ (old, value) :: back))
        (.dict (front ++ (new, value) :: back))
  | value {old new : Written} (front back : List (Written × Written)) (key : Written)
      (change : Respelled decoder old new) :
      Respelled decoder (.dict (front ++ (key, old) :: back)) (.dict (front ++ (key, new) :: back))
  | swap {first second : Written × Written} (front back : List (Written × Written))
      (different : first.1.name? decoder ≠ second.1.name? decoder) :
      Respelled decoder (.dict (front ++ first :: second :: back))
        (.dict (front ++ second :: first :: back))

/-- Any number of changes of the spelling. -/
def Rewritten (decoder : Decoder) : Written → Written → Prop :=
  Relation.ReflTransGen (Respelled decoder)

end Written

/-- What is taken for granted of a decoder: a spelling stands for the number that it denotes, a byte
string is a key for itself, and a value is read from the front of an input, whatever follows. -/
structure Decoder.Lawful (decoder : Decoder) : Prop where
  integers : ∀ digits value, decoder.integer? digits = some value →
    Numeral.denoted? digits = some value
  lengths : ∀ digits length, decoder.length? digits = some length →
    Numeral.denoted? digits = some (length : Int)
  keys : ∀ content, decoder.key? (.bytes content) = some content
  reads : ∀ input value, decoder.read input = some value ↔
    ∃ (written : Written) (junk : Bytes), input = written.text ++ junk ∧
      written.value? decoder = some value

namespace Bencode

/-! ### Entries in order -/

variable {key other : Bytes} {value first second : Bencode} {entries pairs : Entries}

/-- Keys stand in the order of the alphabet. -/
theorem keyBefore_iff : keyBefore key other = true ↔ key < other := by
  induction key generalizing other with
  | nil => cases other <;> simp [keyBefore]
  | cons byte rest ih =>
    cases other with
    | nil => simp [keyBefore]
    | cons next more => simp [keyBefore, List.cons_lt_cons_iff, ih]

theorem keyBefore_asymm (before : keyBefore key other = true) : keyBefore other key = false := by
  rw [keyBefore_iff] at before
  rw [← Bool.not_eq_true, keyBefore_iff]
  exact List.lt_asymm before

theorem keyBefore_irrefl (key : Bytes) : keyBefore key key = false := by
  rw [← Bool.not_eq_true, keyBefore_iff]
  exact List.lt_irrefl key

theorem keyBefore_trans {last : Bytes} (before : keyBefore key other = true)
    (later : keyBefore other last = true) : keyBefore key last = true := by
  rw [keyBefore_iff] at before later ⊢
  exact List.lt_trans before later

/-- Of two different keys one stands before the other. -/
theorem keyBefore_total (different : key ≠ other) :
    keyBefore key other = true ∨ keyBefore other key = true := by
  rw [keyBefore_iff, keyBefore_iff]
  by_contra neither
  obtain ⟨notBefore, notBehind⟩ := not_or.mp neither
  exact different (List.le_antisymm (List.not_lt.mp notBehind) (List.not_lt.mp notBefore))

theorem insert_before (before : keyBefore key other = true) (old : Bencode) (rest : Entries) :
    insert ((other, old) :: rest) key value = (key, value) :: (other, old) :: rest := by
  rw [insert, if_pos before]

theorem insert_same (key : Bytes) (old : Bencode) (rest : Entries) :
    insert ((key, old) :: rest) key value = (key, value) :: rest := by
  rw [insert, keyBefore_irrefl, if_neg (by simp), if_pos rfl]

theorem insert_behind (behind : keyBefore other key = true) (old : Bencode) (rest : Entries) :
    insert ((other, old) :: rest) key value = (other, old) :: insert rest key value := by
  have different : key ≠ other := by
    rintro rfl
    rw [keyBefore_irrefl] at behind
    cases behind
  rw [insert, keyBefore_asymm behind, if_neg (by simp), if_neg different]

/-- A key behind all others is put at the end. -/
theorem insert_last (last : ∀ entry ∈ entries, keyBefore entry.1 key = true) :
    insert entries key value = entries ++ [(key, value)] := by
  induction entries with
  | nil => rfl
  | cons entry rest ih =>
    obtain ⟨before, later⟩ := List.forall_mem_cons.mp last
    rw [insert_behind before, ih later]
    rfl

/-- Of two keys, the first one may as well be set behind the second one. -/
theorem insert_comm_of_before (before : keyBefore key other = true) :
    insert (insert entries key first) other second =
      insert (insert entries other second) key first := by
  induction entries with
  | nil => rw [insert, insert, insert_behind before, insert_before before, insert]
  | cons entry rest ih =>
    obtain ⟨name, old⟩ := entry
    by_cases here : key = name
    · subst here
      rw [insert_same, insert_behind before, insert_behind before, insert_same]
    · rcases keyBefore_total here with front | back
      · rw [insert_before front, insert_behind before]
        by_cases there : other = name
        · subst there
          rw [insert_same, insert_before before]
        · rcases keyBefore_total there with earlier | later
          · rw [insert_before earlier, insert_before before]
          · rw [insert_behind later, insert_before front]
      · have later := keyBefore_trans back before
        rw [insert_behind back, insert_behind later, insert_behind later, insert_behind back, ih]

/-- It does not matter in which order different keys are set. -/
theorem insert_comm (different : key ≠ other) :
    insert (insert entries key first) other second =
      insert (insert entries other second) key first := by
  rcases keyBefore_total different with before | behind
  · exact insert_comm_of_before before
  · exact (insert_comm_of_before behind).symm

theorem find?_insert (entries : Entries) (key : Bytes) (value : Bencode) (name : Bytes) :
    find? (insert entries key value) name =
      if key = name then some value else find? entries name := by
  induction entries with
  | nil => by_cases same : key = name <;> simp [insert, find?, same]
  | cons entry rest ih =>
    obtain ⟨other, old⟩ := entry
    by_cases here : key = other
    · subst here
      rw [insert_same]
      by_cases same : key = name <;> simp [find?, same]
    · rcases keyBefore_total here with before | behind
      · rw [insert_before before]
        by_cases same : key = name <;> simp [find?, same]
      · rw [insert_behind behind]
        by_cases mine : other = name
        · subst mine
          simp [find?, here]
        · simp only [find?, List.find?_cons, mine, decide_false] at ih ⊢
          exact ih

end Bencode

namespace Written

open Bencode (Entries encode encodeBytes encodeItems encodeEntries keyBefore)

/-! ### Dictionaries -/

/-- Pairs whose keys ascend are the entries themselves. -/
theorem gather_ascending {pairs : Entries}
    (ascending : pairs.Pairwise fun first second => keyBefore first.1 second.1 = true) :
    gather pairs = pairs := by
  have onto : ∀ entries : Entries, (entries ++ pairs).Pairwise
      (fun first second => keyBefore first.1 second.1 = true) →
      pairs.foldl (fun entries pair => Bencode.insert entries pair.1 pair.2) entries =
        entries ++ pairs := by
    clear ascending
    induction pairs with
    | nil => exact fun entries _ => (List.append_nil entries).symm
    | cons pair rest ih =>
      intro entries sorted
      have last : ∀ entry ∈ entries, keyBefore entry.1 pair.1 = true :=
        fun entry inside =>
          (List.pairwise_append.mp sorted).2.2 entry inside pair List.mem_cons_self
      rw [List.foldl_cons, Bencode.insert_last last, ih, List.append_assoc]
      · rfl
      · rw [List.append_assoc]
        exact sorted
  exact onto [] ascending

/-- Two pairs with different keys may stand the other way round. -/
theorem gather_swap {first second : Bytes × Bencode} (different : first.1 ≠ second.1)
    (front back : Entries) :
    gather (front ++ first :: second :: back) = gather (front ++ second :: first :: back) := by
  simp only [gather, List.foldl_append, List.foldl_cons, Bencode.insert_comm different]

/-- The last of the pairs with a key counts. -/
theorem find?_gather {front back : Entries} {key : Bytes} {value : Bencode}
    (last : ∀ pair ∈ back, pair.1 ≠ key) :
    Bencode.find? (gather (front ++ (key, value) :: back)) key = some value := by
  rw [gather, List.foldl_append, List.foldl_cons]
  generalize front.foldl _ [] = entries
  induction back using List.reverseRecOn with
  | nil => rw [List.foldl_nil, Bencode.find?_insert, if_pos rfl]
  | append_singleton back pair ih =>
    have here : pair.1 ≠ key := last pair (List.mem_append_right _ List.mem_cons_self)
    rw [List.foldl_append, List.foldl_cons, List.foldl_nil, Bencode.find?_insert, if_neg here]
    exact ih fun other inside => last other (List.mem_append_left _ inside)

/-- Nothing is found under a key that no pair has. -/
theorem find?_gather_none {pairs : Entries} {key : Bytes} (absent : ∀ pair ∈ pairs, pair.1 ≠ key) :
    Bencode.find? (gather pairs) key = none := by
  induction pairs using List.reverseRecOn with
  | nil => rfl
  | append_singleton pairs pair ih =>
    have here : pair.1 ≠ key := absent pair (List.mem_append_right _ List.mem_cons_self)
    rw [gather, List.foldl_append, List.foldl_cons, List.foldl_nil, Bencode.find?_insert,
      if_neg here]
    exact ih fun other inside => absent other (List.mem_append_left _ inside)

/-! ### Values -/

variable {decoder : Decoder}

/-- The key and the value of an entry. -/
def pair? (decoder : Decoder) (entry : Written × Written) : Option (Bytes × Bencode) := do
  let key ← entry.1.name? decoder
  let value ← entry.2.value? decoder
  some (key, value)

theorem pairs?_eq (entries : List (Written × Written)) :
    pairs? decoder entries = entries.mapM (pair? decoder) := by
  induction entries with
  | nil => rfl
  | cons entry rest ih =>
    simp only [pairs?, List.mapM_cons, ih, pair?, name?]
    simp [Option.bind_assoc]

theorem itemValues?_eq (items : List Written) :
    itemValues? decoder items = items.mapM (value? decoder) := by
  induction items with
  | nil => rfl
  | cons item rest ih =>
    simp only [itemValues?, List.mapM_cons, ih]
    rfl

theorem value?_list (items : List Written) :
    (list items).value? decoder = (items.mapM (value? decoder)).map .list := by
  rw [value?, itemValues?_eq]

theorem value?_dict (entries : List (Written × Written)) :
    (dict entries).value? decoder =
      (entries.mapM (pair? decoder)).map fun pairs => .dict (gather pairs) := by
  rw [value?, pairs?_eq]

theorem pair?_eq_some {entry : Written × Written} {pair : Bytes × Bencode} :
    pair? decoder entry = some pair ↔
      entry.1.name? decoder = some pair.1 ∧ entry.2.value? decoder = some pair.2 := by
  obtain ⟨key, value⟩ := pair
  simp [pair?, Option.bind_eq_some_iff]

/-- A change of the spelling leaves the value as it is. -/
theorem Respelled.value?_eq {old new : Written} (change : Respelled decoder old new) :
    new.value? decoder = old.value? decoder := by
  induction change with
  | int before after => rw [value?, value?, before, after]
  | bytes before after => rw [value?, value?, if_pos before, if_pos after]
  | item front back _ ih => simp only [value?_list, List.mapM_append, List.mapM_cons, ih]
  | key front back value _ ih =>
    simp only [value?_dict, List.mapM_append, List.mapM_cons, pair?, name?, ih]
  | value front back key _ ih =>
    simp only [value?_dict, List.mapM_append, List.mapM_cons, pair?, ih]
  | @swap first second front back different =>
    simp only [value?_dict, List.mapM_append, List.mapM_cons]
    cases front.mapM (pair? decoder) with
    | none => rfl
    | some before =>
      cases here : pair? decoder first with
      | none => cases pair? decoder second <;> rfl
      | some one =>
        cases there : pair? decoder second with
        | none => rfl
        | some two =>
          cases back.mapM (pair? decoder) with
          | none => rfl
          | some behind =>
            have apart : two.1 ≠ one.1 := by
              intro same
              apply different
              rw [(pair?_eq_some.mp here).1, (pair?_eq_some.mp there).1, same]
            exact congrArg (some ∘ Bencode.dict) (gather_swap apart before behind)

theorem Rewritten.value?_eq {old new : Written} (rewritten : Rewritten decoder old new) :
    new.value? decoder = old.value? decoder := by
  induction rewritten with
  | refl => rfl
  | tail _ change ih => rw [change.value?_eq, ih]

/-- The entries of a dictionary may be permuted at will if their keys are different. -/
theorem rewritten_perm {entries others : List (Written × Written)} (perm : entries.Perm others)
    (distinct : (entries.map (·.1.name? decoder)).Nodup) :
    Rewritten decoder (dict entries) (dict others) := by
  have behind : ∀ front, Rewritten decoder (dict (front ++ entries)) (dict (front ++ others)) := by
    induction perm with
    | nil => exact fun _ => .refl
    | @cons entry before after _ ih =>
      intro front
      have rest := ih (List.nodup_cons.mp distinct).2 (front ++ [entry])
      simpa using rest
    | @swap first second rest =>
      intro front
      apply Relation.ReflTransGen.single
      refine .swap front rest fun same => ?_
      simp [same] at distinct
    | @trans before between after first _ ih later =>
      intro front
      have again : (between.map (·.1.name? decoder)).Nodup := (first.map _).nodup_iff.mp distinct
      exact (ih distinct front).trans (later again front)
  exact behind []

/-! ### Canonical spellings -/

/-- A byte string is the key that it spells. -/
theorem name?_of_content? (lawful : decoder.Lawful) {key : Written} {content name : Bytes}
    (bytes : key.content? = some content) (named : key.name? decoder = some name) :
    name = content ∧ key.value? decoder = some (.bytes content) := by
  unfold content? at bytes
  split at bytes
  case h_2 => cases bytes
  cases bytes
  rw [name?, Option.bind_eq_some_iff] at named
  obtain ⟨value, accepted, same⟩ := named
  have denotes := accepted
  simp only [value?, Option.ite_none_right_eq_some, Option.some.injEq] at accepted
  obtain ⟨-, rfl⟩ := accepted
  rw [lawful.keys, Option.some.injEq] at same
  exact ⟨same.symm, denotes⟩

theorem encodeItems_eq {items : List Written} {values : List Bencode}
    (each : ∀ item ∈ items, ∀ value, item.value? decoder = some value → encode value = item.text)
    (read : items.mapM (value? decoder) = some values) : encodeItems values = itemsText items := by
  induction items generalizing values with
  | nil =>
    cases read
    rfl
  | cons item rest ih =>
    obtain ⟨here, later⟩ := List.forall_mem_cons.mp each
    simp only [List.mapM_cons, Option.bind_eq_bind, Option.bind_eq_some_iff] at read
    obtain ⟨value, first, values, others, ⟨⟩⟩ := read
    rw [encodeItems, itemsText, here value first, ih later others]

/-- Entries with byte strings as keys are written out as they are spelled. -/
theorem encodeEntries_eq (lawful : decoder.Lawful) {entries : List (Written × Written)}
    {names : List Bytes} {pairs : Entries} (named : entries.map (·.1.content?) = names.map some)
    (keys : ∀ entry ∈ entries, ∀ value, entry.1.value? decoder = some value →
      encode value = entry.1.text)
    (values : ∀ entry ∈ entries, ∀ value, entry.2.value? decoder = some value →
      encode value = entry.2.text)
    (read : entries.mapM (pair? decoder) = some pairs) :
    pairs.map (·.1) = names ∧ encodeEntries pairs = entriesText entries := by
  induction entries generalizing names pairs with
  | nil =>
    cases read
    rw [List.map_nil, eq_comm, List.map_eq_nil_iff] at named
    subst named
    exact ⟨rfl, rfl⟩
  | cons entry rest ih =>
    obtain ⟨name, names, rfl⟩ : ∃ name more, names = name :: more := by
      apply List.exists_cons_of_ne_nil
      rintro rfl
      cases named
    simp only [List.map_cons, List.cons.injEq] at named
    obtain ⟨content, named⟩ := named
    obtain ⟨keyHere, keysLater⟩ := List.forall_mem_cons.mp keys
    obtain ⟨valueHere, valuesLater⟩ := List.forall_mem_cons.mp values
    simp only [List.mapM_cons, Option.bind_eq_bind, Option.bind_eq_some_iff] at read
    obtain ⟨⟨key, value⟩, first, pairs, others, ⟨⟩⟩ := read
    obtain ⟨spelled, denoted⟩ := pair?_eq_some.mp first
    obtain ⟨rfl, bytes⟩ := name?_of_content? lawful content spelled
    obtain ⟨same, whole⟩ := ih named keysLater valuesLater others
    constructor
    · rw [List.map_cons, same]
    · obtain ⟨left, right⟩ := entry
      have written : encodeBytes key = left.text := keyHere _ bytes
      rw [encodeEntries, entriesText, written, valueHere value denoted, whole]

/-- A canonical spelling is what is written out for its value. -/
theorem Canonical.encode_eq (lawful : decoder.Lawful) {written : Written}
    (canonical : written.Canonical) {value : Bencode}
    (denotes : written.value? decoder = some value) : encode value = written.text := by
  induction canonical generalizing value with
  | int short =>
    obtain ⟨number, accepted, rfl⟩ := Option.map_eq_some_iff.mp denotes
    have spelled := lawful.integers _ _ accepted
    rw [encode, text, Numeral.integerBytes_of_shortest short spelled]
  | @bytes length content short =>
    simp only [value?, Option.ite_none_right_eq_some, Option.some.injEq] at denotes
    obtain ⟨accepted, rfl⟩ := denotes
    obtain ⟨number, same, spelled⟩ :=
      Numeral.denoted?_of_shortest short (lawful.lengths _ _ accepted)
    rw [encode, text, encodeBytes, Int.ofNat_inj.mp same, spelled]
  | list _ ih =>
    rw [value?_list, Option.map_eq_some_iff] at denotes
    obtain ⟨values, read, rfl⟩ := denotes
    rw [encode, text, encodeItems_eq (fun item inside _ => ih item inside) read]
  | dict named ascending _ _ keys values =>
    rw [value?_dict, Option.map_eq_some_iff] at denotes
    obtain ⟨pairs, read, rfl⟩ := denotes
    obtain ⟨rfl, whole⟩ := encodeEntries_eq lawful named (fun entry inside _ => keys entry inside)
      (fun entry inside _ => values entry inside) read
    rw [encode, text, gather_ascending (List.pairwise_map.mp ascending), whole]

end Written

end BitTorrent
