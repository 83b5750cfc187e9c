import BitTorrent.Text.Numeral

/-!
Reading JSON texts: one value, surrounded by blanks only. Natural numbers are kept exactly; all
other numbers are only recognised. A string whose escapes name half of a surrogate pair is
well-formed but stands for no text.
-/

set_option autoImplicit false

namespace BitTorrent

/-- A JSON value. -/
inductive Json where
  | null
  | bool (value : Bool)
  | natural (value : Nat)
  | otherNumber
  | string (text : Option String)
  | list (items : List Json)
  | object (entries : List (Option String × Json))
  deriving Repr

namespace Json

/-- The four blank characters. -/
def isBlank (char : Char) : Bool :=
  char = ' ' || char = '\n' || char = '\t' || char = '\r'

def skipBlanks (text : List Char) : List Char :=
  text.dropWhile isBlank

/-- Reads a given word. -/
def expect : List Char → List Char → Option (List Char)
  | [], text => some text
  | char :: word, first :: text => if char = first then expect word text else none
  | _ :: _, [] => none

/-- The digits at the front of a text, and what follows them. -/
def digits (text : List Char) : List Char × List Char :=
  (text.takeWhile Char.isDigit, text.dropWhile Char.isDigit)

/-- At least one digit. -/
def someDigits (text : List Char) : Option (List Char) :=
  if (digits text).1.isEmpty then none else some (digits text).2

/-- The decimal places of a number, if there are any. -/
def fraction : List Char → Option (Bool × List Char)
  | '.' :: text => (someDigits text).map (true, ·)
  | text => some (false, text)

/-- A text behind an optional sign. -/
def unsigned : List Char → List Char
  | '+' :: text => text
  | '-' :: text => text
  | text => text

/-- The exponent of a number, if there is one. -/
def exponent : List Char → Option (Bool × List Char)
  | 'e' :: text => (someDigits (unsigned text)).map (true, ·)
  | 'E' :: text => (someDigits (unsigned text)).map (true, ·)
  | text => some (false, text)

/-- Reads a number; leading zeros are not allowed. -/
def number (text : List Char) : Option (Json × List Char) := do
  let negative := text.head? = some '-'
  let (whole, rest) := digits (if negative then text.tail else text)
  let value ← Numeral.digits? 10 whole
  if whole.head? = some '0' ∧ 1 < whole.length then none
  else
    let (hasFraction, rest) ← fraction rest
    let (hasExponent, rest) ← exponent rest
    if negative ∨ hasFraction ∨ hasExponent then some (.otherNumber, rest)
    else some (.natural value, rest)

/-- The number that four hexadecimal digits spell. -/
def hexUnit : List Char → Option (Nat × List Char)
  | a :: b :: c :: d :: text => (Numeral.digits? 16 [a, b, c, d]).map (·, text)
  | _ => none

/-- The character that a one-letter escape stands for. -/
def shortEscape? : Char → Option Char
  | '"' => some '"'
  | '\\' => some '\\'
  | '/' => some '/'
  | 'b' => some (Char.ofNat 8)
  | 'f' => some (Char.ofNat 12)
  | 'n' => some '\n'
  | 'r' => some '\r'
  | 't' => some '\t'
  | _ => none

/-- Reads the rest of a string as code points, where escapes give 16-bit units. The fuel bounds the
number of characters. -/
def stringBody : Nat → List Char → Option (List Nat × List Char)
  | 0, _ => none
  | _, [] => none
  | fuel + 1, char :: text =>
    if char = '"' then some ([], text)
    else if char = '\\' then
      match text with
      | 'u' :: text => do
        let (unit, text) ← hexUnit text
        let (units, text) ← stringBody fuel text
        some (unit :: units, text)
      | escape :: text => do
        let char ← shortEscape? escape
        let (units, text) ← stringBody fuel text
        some (char.toNat :: units, text)
      | [] => none
    else if char.toNat < 32 then none
    else do
      let (units, text) ← stringBody fuel text
      some (char.toNat :: units, text)

/-- The text of code points and 16-bit units, where a pair of surrogates is one character; none if
a surrogate stands alone. -/
def textOf? : List Nat → Option (List Char)
  | [] => some []
  | [unit] => if 0xD800 ≤ unit ∧ unit ≤ 0xDFFF then none else some [Char.ofNat unit]
  | high :: low :: rest =>
    if 0xD800 ≤ high ∧ high ≤ 0xDBFF then
      if 0xDC00 ≤ low ∧ low ≤ 0xDFFF then
        (textOf? rest).map (Char.ofNat (0x10000 + (high - 0xD800) * 1024 + (low - 0xDC00)) :: ·)
      else none
    else if 0xDC00 ≤ high ∧ high ≤ 0xDFFF then none
    else (textOf? (low :: rest)).map (Char.ofNat high :: ·)

/-- Reads a string behind its opening quote. -/
def string? (text : List Char) : Option (Option String × List Char) :=
  (stringBody (text.length + 1) text).map fun (units, rest) =>
    ((textOf? units).map String.ofList, rest)

/-- Whether a list is over, goes on behind a comma, or neither. -/
def afterItem (close : Char) (text : List Char) : Option (Bool × List Char) :=
  match skipBlanks text with
  | char :: rest =>
    if char = close then some (false, rest) else if char = ',' then some (true, rest) else none
  | [] => none

mutual

/-- Reads a value behind blanks; the fuel bounds the depth of the calls. -/
def value : Nat → List Char → Option (Json × List Char)
  | 0, _ => none
  | fuel + 1, text =>
    match skipBlanks text with
    | [] => none
    | 'n' :: rest => (expect ['u', 'l', 'l'] rest).map (.null, ·)
    | 't' :: rest => (expect ['r', 'u', 'e'] rest).map (.bool true, ·)
    | 'f' :: rest => (expect ['a', 'l', 's', 'e'] rest).map (.bool false, ·)
    | '"' :: rest => (string? rest).map fun (text, rest) => (.string text, rest)
    | '[' :: rest =>
      if (skipBlanks rest).head? = some ']' then some (.list [], (skipBlanks rest).tail)
      else (items fuel rest).map fun (items, rest) => (.list items, rest)
    | '{' :: rest =>
      if (skipBlanks rest).head? = some '}' then some (.object [], (skipBlanks rest).tail)
      else (entries fuel rest).map fun (entries, rest) => (.object entries, rest)
    | text => number text

/-- Reads at least one value up to the closing bracket. -/
def items : Nat → List Char → Option (List Json × List Char)
  | 0, _ => none
  | fuel + 1, text => do
    let (item, rest) ← value fuel text
    let (more, rest) ← afterItem ']' rest
    if more then
      let (items, rest) ← items fuel rest
      some (item :: items, rest)
    else some ([item], rest)

/-- Reads at least one key with its value up to the closing brace. -/
def entries : Nat → List Char → Option (List (Option String × Json) × List Char)
  | 0, _ => none
  | fuel + 1, text =>
    match skipBlanks text with
    | '"' :: rest => do
      let (key, rest) ← string? rest
      let rest ← expect [':'] (skipBlanks rest)
      let (item, rest) ← value fuel rest
      let (more, rest) ← afterItem '}' rest
      if more then
        let (entries, rest) ← entries fuel rest
        some ((key, item) :: entries, rest)
      else some ([(key, item)], rest)
    | _ => none

end

/-- The first value under a key of an object, unless it is null. -/
def entry? (json : Json) (key : String) : Option Json :=
  match json with
  | .object entries =>
    match entries.lookup (some key) with
    | some .null | none => none
    | some value => some value
  | _ => none

/-- Reads a whole text. -/
def ofText? (text : String) : Option Json :=
  let chars := text.toList
  match value (2 * chars.length + 2) chars with
  | some (value, rest) => if (skipBlanks rest).isEmpty then some value else none
  | none => none

end Json

end BitTorrent
