import BitTorrent.Bytes
import BitTorrent.Text.Numeral
import BitTorrent.Word

/-!
Bencoded values. The writer is canonical: dictionary keys ascend and integers have no needless
characters. The reader is lenient: integers may carry a sign or leading zeros, keys may come in any
order, a key may be spelled as a list of small integers, the last of equal keys counts, and whatever
follows the value is left alone.
-/

set_option autoImplicit false

namespace BitTorrent

/-- A bencoded value; dictionaries list their entries with strictly ascending keys. -/
inductive Bencode where
  | int (value : Int)
  | bytes (value : Bytes)
  | list (items : List Bencode)
  | dict (entries : List (Bytes × Bencode))
  deriving Repr

namespace Bencode

/-- The entries of a dictionary. -/
abbrev Entries := List (Bytes × Bencode)

/-- Whether a key stands before another: byte by byte, a part before the whole. -/
def keyBefore : Bytes → Bytes → Bool
  | _, [] => false
  | [], _ :: _ => true
  | a :: as, b :: bs => a < b || (a = b && keyBefore as bs)

/-- Sets the value of a key in ascending entries. -/
def insert (entries : Entries) (key : Bytes) (value : Bencode) : Entries :=
  match entries with
  | [] => [(key, value)]
  | (other, old) :: rest =>
    if keyBefore key other then (key, value) :: (other, old) :: rest
    else if key = other then (key, value) :: rest
    else (other, old) :: insert rest key value

/-- The value of a key. -/
def find? (entries : Entries) (key : Bytes) : Option Bencode :=
  (entries.find? fun entry => entry.1 = key).map (·.2)

/-- The value of a key that is given as text. -/
def field? (entries : Entries) (key : String) : Option Bencode :=
  find? entries (Bytes.ofText key)

/-- A byte string after its length and a colon. -/
def encodeBytes (value : Bytes) : Bytes :=
  Numeral.bytes value.length ++ 58 :: value

mutual

/-- The canonical form of a value. -/
def encode : Bencode → Bytes
  | .int value => 105 :: Numeral.integerBytes value ++ [101]
  | .bytes value => encodeBytes value
  | .list items => 108 :: encodeItems items ++ [101]
  | .dict entries => 100 :: encodeEntries entries ++ [101]

def encodeItems : List Bencode → Bytes
  | [] => []
  | item :: rest => encode item ++ encodeItems rest

def encodeEntries : List (Bytes × Bencode) → Bytes
  | [] => []
  | (key, value) :: rest => encodeBytes key ++ encode value ++ encodeEntries rest

end

/-- The bytes before the first occurrence of a mark, and those behind it. -/
def splitAt? (mark : UInt8) : Bytes → Option (Bytes × Bytes)
  | [] => none
  | byte :: rest =>
    if byte = mark then some ([], rest)
    else (splitAt? mark rest).map fun (front, back) => (byte :: front, back)

/-- Bytes as characters with the same numbers. -/
def charsOf (bytes : Bytes) : List Char :=
  bytes.map fun byte => Char.ofNat byte.toNat

/-- The integer up to the closing mark. -/
def readInt (input : Bytes) : Option (Int × Bytes) := do
  let (digits, rest) ← splitAt? 101 input
  let value ← Numeral.integer? Word.bound63 (charsOf digits)
  some (value, rest)

/-- The byte string whose length stands before the colon. -/
def readBytes (input : Bytes) : Option (Bytes × Bytes) := do
  let (digits, rest) ← splitAt? 58 input
  let length ← Numeral.natural? Word.bound64 (charsOf digits)
  if length ≤ rest.length then some (rest.take length, rest.drop length) else none

def isDigit (byte : UInt8) : Bool :=
  48 ≤ byte && byte ≤ 57

/-- The bytes that a dictionary key stands for. -/
def keyOf? : Bencode → Option Bytes
  | .bytes value => some value
  | .list items => items.mapM fun item =>
    match item with
    | .int value => if 0 ≤ value ∧ value ≤ 255 then some (UInt8.ofNat value.toNat) else none
    | _ => none
  | _ => none

mutual

/-- Reads one value; the fuel bounds the depth of the calls. -/
def read : Nat → Bytes → Option (Bencode × Bytes)
  | 0, _ => none
  | _, [] => none
  | fuel + 1, lead :: rest =>
    if lead = 105 then (readInt rest).map fun (value, rest) => (.int value, rest)
    else if isDigit lead then
      (readBytes (lead :: rest)).map fun (value, rest) => (.bytes value, rest)
    else if lead = 108 then (readItems fuel rest).map fun (items, rest) => (.list items, rest)
    else if lead = 100 then
      (readEntries fuel rest []).map fun (entries, rest) => (.dict entries, rest)
    else none

/-- Reads values up to the closing mark. -/
def readItems : Nat → Bytes → Option (List Bencode × Bytes)
  | 0, _ => none
  | fuel + 1, input =>
    if input.head? = some 101 then some ([], input.tail)
    else do
      let (item, rest) ← read fuel input
      let (items, rest) ← readItems fuel rest
      some (item :: items, rest)

/-- Reads keys and values up to the closing mark into the entries read before. -/
def readEntries : Nat → Bytes → Entries → Option (Entries × Bytes)
  | 0, _, _ => none
  | fuel + 1, input, entries =>
    if input.head? = some 101 then some (entries, input.tail)
    else do
      let (key, rest) ← read fuel input
      let key ← keyOf? key
      let (value, rest) ← read fuel rest
      readEntries fuel rest (insert entries key value)

end

/-- Reads the value at the front of a byte string. -/
def decode? (input : Bytes) : Option Bencode :=
  (read (2 * input.length + 2) input).map (·.1)

end Bencode

end BitTorrent
