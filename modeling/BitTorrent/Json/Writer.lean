import BitTorrent.Bytes
import BitTorrent.Json

/-!
Values as JSON, and JSON as text without blanks. A string that stands for no text is written as
null, and so is a number that is only recognised.
-/

set_option autoImplicit false

namespace BitTorrent

/-- Types whose values can be shown as JSON. -/
class ToJson (α : Type) where
  toJson : α → Json

export ToJson (toJson)

namespace Json

/-- An object whose keys are texts. -/
def record (entries : List (String × Json)) : Json :=
  .object (entries.map fun (key, value) => (some key, value))

def ofText (text : String) : Json :=
  .string (some text)

/-- The last two digits of the escape of a control character. -/
def escapeDigits (code : Nat) : List Char :=
  [Bytes.hexDigit (code / 16), Bytes.hexDigit (code % 16)]

/-- A character within quotes. -/
def escape (char : Char) : List Char :=
  if char = '"' then ['\\', '"']
  else if char = '\\' then ['\\', '\\']
  else if char.toNat < 32 then ['\\', 'u', '0', '0'] ++ escapeDigits char.toNat
  else [char]

/-- A text in quotes. -/
def quote (text : String) : List Char :=
  '"' :: (text.toList.flatMap escape ++ ['"'])

/-- A key in quotes and the colon behind it. -/
def writeKey : Option String → List Char
  | some key => quote key ++ [':']
  | none => ['"', '"', ':']

mutual

/-- The characters of a value. -/
def write : Json → List Char
  | .null | .otherNumber | .string none => "null".toList
  | .bool true => "true".toList
  | .bool false => "false".toList
  | .natural value => (toString value).toList
  | .string (some text) => quote text
  | .list items => '[' :: (writeItems items ++ [']'])
  | .object entries => '\x7b' :: (writeEntries entries ++ ['\x7d'])

/-- The characters of items with commas between them. -/
def writeItems : List Json → List Char
  | [] => []
  | [item] => write item
  | item :: rest => write item ++ ',' :: writeItems rest

/-- The characters of entries with commas between them. -/
def writeEntries : List (Option String × Json) → List Char
  | [] => []
  | [(key, value)] => writeKey key ++ write value
  | (key, value) :: rest => writeKey key ++ write value ++ ',' :: writeEntries rest

end

/-- The text of a value. -/
def render (json : Json) : String :=
  String.ofList (write json)

end Json

instance : ToJson Json := ⟨id⟩

instance : ToJson Nat := ⟨.natural⟩

instance : ToJson Bool := ⟨.bool⟩

instance : ToJson String := ⟨.ofText⟩

instance {α : Type} [ToJson α] : ToJson (Option α) where
  toJson
    | some value => toJson value
    | none => .null

instance {α : Type} [ToJson α] : ToJson (List α) where
  toJson items := .list (items.map toJson)

instance {α : Type} [ToJson α] : CoeOut α Json where
  coe := toJson

end BitTorrent
