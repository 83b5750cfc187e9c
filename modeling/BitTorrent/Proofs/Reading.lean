import BitTorrent.Proofs.Spelling

/-!
What the decoder of bencoded values reads: a value in any of its spellings from the front of an
input, and nothing else. Its fuel never runs out before the input does.
-/

set_option autoImplicit false

namespace BitTorrent.Bencode

open Written (itemsText entriesText pair? gather)

/-- The decoder of bencoded values: integers are words of 64 bits, a length starts with a digit, and
a key may be a list of small integers. -/
def decoder : Decoder where
  integer? digits := Numeral.integer? Word.bound63 (charsOf digits)
  length? digits :=
    if digits.head?.any isDigit then Numeral.natural? Word.bound64 (charsOf digits) else none
  key? := keyOf?
  read := decode?

/-! ### Integers and byte strings -/

theorem splitAt?_eq_some {mark : UInt8} {input front back : Bytes} :
    splitAt? mark input = some (front, back) ↔ input = front ++ mark :: back ∧ mark ∉ front := by
  induction input generalizing front with
  | nil => simp [splitAt?]
  | cons byte rest ih =>
    rw [splitAt?]
    by_cases here : byte = mark
    · subst here
      rw [if_pos rfl]
      constructor
      · rintro ⟨⟩
        exact ⟨rfl, List.not_mem_nil⟩
      · rintro ⟨same, absent⟩
        cases front with
        | nil =>
          cases same
          rfl
        | cons first more =>
          cases same
          exact absurd List.mem_cons_self absent
    · rw [if_neg here, Option.map_eq_some_iff]
      constructor
      · rintro ⟨⟨more, back⟩, split, ⟨⟩⟩
        obtain ⟨rfl, absent⟩ := ih.mp split
        exact ⟨rfl, List.not_mem_cons_of_ne_of_not_mem (Ne.symm here) absent⟩
      · rintro ⟨same, absent⟩
        cases front with
        | nil =>
          cases same
          exact absurd rfl here
        | cons first more =>
          cases same
          exact ⟨(more, back), ih.mpr ⟨rfl, (List.not_mem_of_not_mem_cons absent)⟩, rfl⟩

/-- The marks behind an integer and behind a length are no part of a number. -/
theorem marks_of_denoted? {digits : Bytes} {value : Int}
    (denoted : Numeral.denoted? digits = some value) : 101 ∉ digits ∧ 58 ∉ digits := by
  have each := Numeral.mem_of_denoted? denoted
  constructor
  · intro inside
    rcases each 101 inside with digit | plus | minus
    · cases digit
    · cases plus
    · cases minus
  · intro inside
    rcases each 58 inside with digit | plus | minus
    · cases digit
    · cases plus
    · cases minus

theorem readInt_eq_some {input rest : Bytes} {value : Int} :
    readInt input = some (value, rest) ↔
      ∃ digits, input = digits ++ 101 :: rest ∧ decoder.integer? digits = some value := by
  simp only [readInt, Option.bind_eq_bind, Option.bind_eq_some_iff, Option.some.injEq,
    Prod.mk.injEq]
  constructor
  · rintro ⟨⟨digits, back⟩, split, number, read, rfl, rfl⟩
    exact ⟨digits, (splitAt?_eq_some.mp split).1, read⟩
  · rintro ⟨digits, rfl, read⟩
    have absent := (marks_of_denoted? (Numeral.integer?_denoted read)).1
    exact ⟨(digits, rest), splitAt?_eq_some.mpr ⟨rfl, absent⟩, value, read, rfl, rfl⟩

theorem length?_eq_some {digits : Bytes} {length : Nat} :
    decoder.length? digits = some length ↔
      ∃ lead more, digits = lead :: more ∧ isDigit lead = true ∧
        Numeral.natural? Word.bound64 (charsOf digits) = some length := by
  cases digits with
  | nil => simp [decoder]
  | cons lead more => by_cases digit : isDigit lead = true <;> simp [decoder, digit]

theorem readBytes_eq_some {lead : UInt8} {input rest content : Bytes}
    (digit : isDigit lead = true) :
    readBytes (lead :: input) = some (content, rest) ↔
      ∃ length, lead :: input = length ++ 58 :: (content ++ rest) ∧
        decoder.length? length = some content.length := by
  simp only [readBytes, Option.bind_eq_bind, Option.bind_eq_some_iff]
  constructor
  · rintro ⟨⟨digits, back⟩, split, length, read, bounded⟩
    obtain ⟨same, absent⟩ := splitAt?_eq_some.mp split
    split at bounded
    case isFalse => cases bounded
    case isTrue within =>
    cases bounded
    refine ⟨digits, ?_, ?_⟩
    · rw [same, List.take_append_drop]
    · rw [List.length_take_of_le within, length?_eq_some]
      cases digits with
      | nil =>
        cases same
        cases digit
      | cons first more =>
        cases same
        exact ⟨lead, more, rfl, digit, read⟩
  · rintro ⟨length, same, accepted⟩
    obtain ⟨-, -, -, -, read⟩ := length?_eq_some.mp accepted
    have absent := (marks_of_denoted? (Numeral.natural?_denoted read)).2
    have split := splitAt?_eq_some.mpr ⟨same, absent⟩
    refine ⟨(length, content ++ rest), split, content.length, read, ?_⟩
    simp

/-! ### What is read was written -/

/-- What each of the readers with some fuel gives was written at the front of the input. -/
structure Sound (fuel : Nat) : Prop where
  value : ∀ {input rest value}, read fuel input = some (value, rest) →
    ∃ written : Written, input = written.text ++ rest ∧ written.value? decoder = some value
  items : ∀ {input rest values}, readItems fuel input = some (values, rest) →
    ∃ written, input = itemsText written ++ 101 :: rest ∧
      written.mapM (Written.value? decoder) = some values
  entries : ∀ {input rest before after}, readEntries fuel input before = some (after, rest) →
    ∃ written pairs, input = entriesText written ++ 101 :: rest ∧
      written.mapM (pair? decoder) = some pairs ∧
      after = pairs.foldl (fun entries pair => insert entries pair.1 pair.2) before

theorem Sound.read_succ {fuel : Nat} (sound : Sound fuel) {input rest : Bytes} {value : Bencode}
    (read : read (fuel + 1) input = some (value, rest)) :
    ∃ written : Written, input = written.text ++ rest ∧ written.value? decoder = some value := by
  cases input with
  | nil => cases read
  | cons lead behind =>
    rw [Bencode.read] at read
    split at read
    · rename_i same
      subst same
      obtain ⟨⟨number, back⟩, found, ⟨⟩⟩ := Option.map_eq_some_iff.mp read
      obtain ⟨digits, rfl, accepted⟩ := readInt_eq_some.mp found
      refine ⟨.int digits, by simp [Written.text], ?_⟩
      rw [Written.value?, accepted, Option.map_some]
    split at read
    · rename_i digit
      obtain ⟨⟨content, back⟩, found, ⟨⟩⟩ := Option.map_eq_some_iff.mp read
      obtain ⟨length, same, accepted⟩ := (readBytes_eq_some digit).mp found
      refine ⟨.bytes length content, by simp [Written.text, same], ?_⟩
      rw [Written.value?, if_pos accepted]
    split at read
    · rename_i same
      subst same
      obtain ⟨⟨values, back⟩, found, ⟨⟩⟩ := Option.map_eq_some_iff.mp read
      obtain ⟨items, rfl, accepted⟩ := sound.items found
      refine ⟨.list items, by simp [Written.text], ?_⟩
      rw [Written.value?_list, accepted, Option.map_some]
    split at read
    · rename_i same
      subst same
      obtain ⟨⟨entries, back⟩, found, ⟨⟩⟩ := Option.map_eq_some_iff.mp read
      obtain ⟨written, pairs, rfl, accepted, rfl⟩ := sound.entries found
      refine ⟨.dict written, by simp [Written.text], ?_⟩
      rw [Written.value?_dict, accepted, Option.map_some]
      rfl
    · cases read

/-- A mark at the front of an input is all of its front. -/
theorem eq_of_head? {input : Bytes} {mark : UInt8} (front : input.head? = some mark) :
    input = mark :: input.tail := by
  cases input with
  | nil => cases front
  | cons lead rest =>
    cases front
    rfl

theorem sound (fuel : Nat) : Sound fuel := by
  induction fuel with
  | zero => exact ⟨nofun, nofun, nofun⟩
  | succ fuel ih =>
    refine ⟨ih.read_succ, ?_, ?_⟩
    · intro input rest values found
      rw [readItems] at found
      split at found
      · rename_i ended
        cases found
        exact ⟨[], eq_of_head? ended, rfl⟩
      · simp only [Option.bind_eq_bind, Option.bind_eq_some_iff] at found
        obtain ⟨⟨value, middle⟩, first, ⟨values, back⟩, others, ⟨⟩⟩ := found
        obtain ⟨item, rfl, denotes⟩ := ih.value first
        obtain ⟨items, rfl, denote⟩ := ih.items others
        refine ⟨item :: items, by simp [itemsText], ?_⟩
        simp [List.mapM_cons, denotes, denote]
    · intro input rest before after found
      rw [readEntries] at found
      split at found
      · rename_i ended
        cases found
        exact ⟨[], [], eq_of_head? ended, rfl, rfl⟩
      · simp only [Option.bind_eq_bind, Option.bind_eq_some_iff] at found
        obtain ⟨⟨name, middle⟩, first, key, named, ⟨value, back⟩, second, others⟩ := found
        obtain ⟨left, rfl, denotes⟩ := ih.value first
        obtain ⟨right, rfl, valued⟩ := ih.value second
        obtain ⟨written, pairs, rfl, denote, rfl⟩ := ih.entries others
        have spelled : left.name? decoder = some key := by
          rw [Written.name?, denotes, Option.bind_some]
          exact named
        have here : pair? decoder (left, right) = some (key, value) :=
          Written.pair?_eq_some.mpr ⟨spelled, valued⟩
        refine ⟨(left, right) :: written, (key, value) :: pairs, by simp [entriesText], ?_, rfl⟩
        simp [List.mapM_cons, here, denote]

/-! ### What is written is read -/

theorem lead_of_length? {digits : Bytes} {length : Nat}
    (accepted : decoder.length? digits = some length) :
    ∃ lead more, digits = lead :: more ∧ isDigit lead = true := by
  obtain ⟨lead, more, same, digit, -⟩ := length?_eq_some.mp accepted
  exact ⟨lead, more, same, digit⟩

/-- No value starts with the mark behind the last one of several. -/
theorem head?_text {written : Written} {value : Bencode}
    (denotes : written.value? decoder = some value) (rest : Bytes) :
    (written.text ++ rest).head? ≠ some 101 := by
  cases written with
  | bytes length content =>
    simp only [Written.value?, Option.ite_none_right_eq_some] at denotes
    obtain ⟨lead, more, rfl, digit⟩ := lead_of_length? denotes.1
    simp only [Written.text, List.cons_append, List.head?_cons, ne_eq, Option.some.injEq]
    rintro rfl
    cases digit
  | _ => simp [Written.text]

theorem text_positive {written : Written} {value : Bencode}
    (denotes : written.value? decoder = some value) : 0 < written.text.length := by
  cases written with
  | bytes length content =>
    simp only [Written.text, List.length_append, List.length_cons]
    omega
  | _ => simp [Written.text]

/-- Each of the readers reads what is written, whatever follows it; fuel for as many calls as there
are characters is enough. -/
structure Complete (fuel : Nat) : Prop where
  value : ∀ {written : Written} {value : Bencode}, written.value? decoder = some value →
    written.text.length ≤ fuel → ∀ rest,
      read fuel (written.text ++ rest) = some (value, rest)
  items : ∀ {items : List Written} {values : List Bencode},
    items.mapM (Written.value? decoder) = some values → (itemsText items).length < fuel → ∀ rest,
      readItems fuel (itemsText items ++ 101 :: rest) = some (values, rest)
  entries : ∀ {entries : List (Written × Written)} {pairs : Entries},
    entries.mapM (pair? decoder) = some pairs → (entriesText entries).length < fuel →
      ∀ before rest, readEntries fuel (entriesText entries ++ 101 :: rest) before =
        some (pairs.foldl (fun entries pair => insert entries pair.1 pair.2) before, rest)

theorem Complete.read_succ {fuel : Nat} (complete : Complete fuel) {written : Written}
    {value : Bencode} (denotes : written.value? decoder = some value)
    (enough : written.text.length ≤ fuel + 1) (rest : Bytes) :
    read (fuel + 1) (written.text ++ rest) = some (value, rest) := by
  cases written with
  | int digits =>
    obtain ⟨number, accepted, rfl⟩ := Option.map_eq_some_iff.mp denotes
    have found : readInt (digits ++ 101 :: rest) = some (number, rest) :=
      readInt_eq_some.mpr ⟨digits, rfl, accepted⟩
    simp only [Written.text, List.cons_append, List.append_assoc, List.nil_append]
    rw [read, if_pos rfl, found]
    rfl
  | bytes length content =>
    simp only [Written.value?, Option.ite_none_right_eq_some, Option.some.injEq] at denotes
    obtain ⟨accepted, rfl⟩ := denotes
    obtain ⟨lead, more, rfl, digit⟩ := lead_of_length? accepted
    have found : readBytes (lead :: (more ++ 58 :: (content ++ rest))) = some (content, rest) :=
      (readBytes_eq_some digit).mpr ⟨lead :: more, rfl, accepted⟩
    have different : lead ≠ 105 := by
      rintro rfl
      cases digit
    simp only [Written.text, List.cons_append, List.append_assoc]
    rw [read, if_neg different, if_pos digit, found]
    rfl
  | list items =>
    rw [Written.value?_list, Option.map_eq_some_iff] at denotes
    obtain ⟨values, accepted, rfl⟩ := denotes
    simp only [Written.text, List.length_cons, List.length_append, List.length_nil,
      List.cons_append, List.append_assoc, List.nil_append] at enough ⊢
    have found := complete.items accepted (by omega) rest
    rw [read, if_neg (by decide), if_neg (by decide), if_pos rfl, found]
    rfl
  | dict entries =>
    rw [Written.value?_dict, Option.map_eq_some_iff] at denotes
    obtain ⟨pairs, accepted, rfl⟩ := denotes
    simp only [Written.text, List.length_cons, List.length_append, List.length_nil,
      List.cons_append, List.append_assoc, List.nil_append] at enough ⊢
    have found := complete.entries accepted (by omega) [] rest
    rw [read, if_neg (by decide), if_neg (by decide), if_neg (by decide), if_pos rfl, found]
    rfl

theorem complete (fuel : Nat) : Complete fuel := by
  induction fuel with
  | zero =>
    refine ⟨?_, nofun, nofun⟩
    intro written value denotes enough
    have positive := text_positive denotes
    omega
  | succ fuel ih =>
    refine ⟨ih.read_succ, ?_, ?_⟩
    · intro items values denote enough rest
      cases items with
      | nil =>
        cases denote
        rw [readItems]
        rfl
      | cons item more =>
        simp only [List.mapM_cons, Option.bind_eq_bind, Option.bind_eq_some_iff] at denote
        obtain ⟨value, denotes, values, others, ⟨⟩⟩ := denote
        have positive := text_positive denotes
        simp only [itemsText, List.length_append, List.append_assoc] at enough ⊢
        rw [readItems, if_neg (head?_text denotes _), ih.value denotes (by omega)]
        simp only [Option.bind_eq_bind, Option.bind_some]
        rw [ih.items others (by omega)]
        rfl
    · intro entries pairs denote enough before rest
      cases entries with
      | nil =>
        cases denote
        rw [readEntries]
        rfl
      | cons entry more =>
        obtain ⟨left, right⟩ := entry
        simp only [List.mapM_cons, Option.bind_eq_bind, Option.bind_eq_some_iff] at denote
        obtain ⟨⟨key, value⟩, first, pairs, others, ⟨⟩⟩ := denote
        obtain ⟨named, valued⟩ := Written.pair?_eq_some.mp first
        obtain ⟨name, denotes, taken⟩ := Option.bind_eq_some_iff.mp named
        dsimp only at denotes valued
        have positive := text_positive denotes
        simp only [entriesText, List.length_append, List.append_assoc] at enough ⊢
        rw [readEntries, if_neg (head?_text denotes _), ih.value denotes (by omega)]
        simp only [Option.bind_eq_bind, Option.bind_some]
        have key : keyOf? name = some key := taken
        rw [key, Option.bind_some, ih.value valued (by omega), Option.bind_some,
          ih.entries others (by omega)]
        rfl

/-- A value is read if it is written at the front of the input, and only then. -/
theorem decode?_eq_some {input : Bytes} {value : Bencode} :
    decode? input = some value ↔
      ∃ (written : Written) (junk : Bytes), input = written.text ++ junk ∧
        written.value? decoder = some value := by
  rw [decode?, Option.map_eq_some_iff]
  constructor
  · rintro ⟨⟨found, junk⟩, read, rfl⟩
    obtain ⟨written, same, denotes⟩ := (sound _).value read
    exact ⟨written, junk, same, denotes⟩
  · rintro ⟨written, junk, rfl, denotes⟩
    refine ⟨(value, junk), (complete _).value denotes ?_ junk, rfl⟩
    rw [List.length_append]
    omega

theorem decoder_lawful : decoder.Lawful where
  integers := fun _ _ => Numeral.integer?_denoted
  lengths := by
    intro digits length accepted
    obtain ⟨-, -, -, -, read⟩ := length?_eq_some.mp accepted
    exact Numeral.natural?_denoted read
  keys := fun _ => rfl
  reads := fun _ _ => decode?_eq_some

end BitTorrent.Bencode
