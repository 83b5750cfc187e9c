import BitTorrent.Bytes
import BitTorrent.Json

/-!
Looking things up in JSON objects. What is missing or of another kind counts as zero or empty.
-/

set_option autoImplicit false

namespace BitTorrent.Json

/-- The value under a key, or null. -/
def entry (json : Json) (key : String) : Json :=
  (json.entry? key).getD .null

/-- A number, also one that is written as a text. -/
def toNat : Json → Nat
  | natural value => value
  | string (some text) => text.toNat?.getD 0
  | _ => 0

def toText : Json → String
  | string (some text) => text
  | _ => ""

def toList : Json → List Json
  | list items => items
  | _ => []

/-- Whether a value is a natural number. -/
def isNatural : Json → Bool
  | natural _ => true
  | _ => false

def nat? (json : Json) (key : String) : Option Nat :=
  (json.entry? key).map toNat

def nat (json : Json) (key : String) : Nat :=
  (json.entry key).toNat

def text? (json : Json) (key : String) : Option String :=
  (json.entry? key).map toText

def text (json : Json) (key : String) : String :=
  (json.entry key).toText

/-- The truth under a key, or a default. -/
def flag (json : Json) (key : String) (default : Bool := false) : Bool :=
  match json.entry? key with
  | some (bool value) => value
  | _ => default

def listAt (json : Json) (key : String) : List Json :=
  (json.entry key).toList

def nats (json : Json) (key : String) : List Nat :=
  (json.listAt key).map toNat

def texts (json : Json) (key : String) : List String :=
  (json.listAt key).map toText

end BitTorrent.Json
