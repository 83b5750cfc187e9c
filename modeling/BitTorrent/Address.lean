import BitTorrent.Text.Numeral

/-!
Internet addresses and the addresses of sockets: reading them from text and writing them in the
canonical form, where the longest run of zero groups is left out.
-/

set_option autoImplicit false

namespace BitTorrent

/-- An Internet address: four bytes, or eight groups of sixteen bits. -/
inductive IpAddress where
  | v4 (a b c d : UInt8)
  | v6 (groups : Vector UInt16 8)
  deriving DecidableEq, Repr

/-- A host, a port and, for eight-group addresses, the number of a scope. -/
structure Address where
  ip : IpAddress
  port : UInt16
  scope : UInt32 := 0
  deriving DecidableEq, Repr

namespace Address

/-- What a reader makes of the front of a text, and the text behind it. -/
abbrev Read (α : Type) := List Char → Option (α × List Char)

/-- One given character. -/
def readChar (char : Char) : Read Unit
  | first :: rest => if first = char then some ((), rest) else none
  | [] => none

/-- A run of digits below `bound`: at most `most` digits, and no needless zero in front unless
`padded` allows it. -/
def readNumber (base bound : Nat) (most : Option Nat) (padded : Bool) : Read Nat := fun text =>
  let run := text.takeWhile fun char => (Numeral.digit? base char).isSome
  let rest := text.drop run.length
  match Numeral.digits? base run with
  | none => none
  | some value =>
    if value < bound ∧ run.length ≤ most.getD run.length ∧
        (padded ∨ run.length = 1 ∨ run.head? ≠ some '0') then
      some (value, rest)
    else none

/-- Four numbers below 256 separated by points. -/
def readV4 : Read (UInt8 × UInt8 × UInt8 × UInt8) := fun text => do
  let octet := readNumber 10 256 (some 3) false
  let (a, text) ← octet text
  let ((), text) ← readChar '.' text
  let (b, text) ← octet text
  let ((), text) ← readChar '.' text
  let (c, text) ← octet text
  let ((), text) ← readChar '.' text
  let (d, text) ← octet text
  some ((.ofNat a, .ofNat b, .ofNat c, .ofNat d), text)

/-- At most `limit` groups separated by colons; the last two may be written as four numbers, and
the flag says that they were. The groups read before are counted by `read`. -/
def readGroups : Nat → Nat → List Char → List Nat × Bool × List Char
  | 0, _, text => ([], false, text)
  | limit + 1, read, text =>
    let entry := if read = 0 then some text else (readChar ':' text).map (·.2)
    match entry with
    | none => ([], false, text)
    | some inner =>
      match (if 0 < limit then readV4 inner else none) with
      | some ((a, b, c, d), rest) =>
        ([a.toNat * 256 + b.toNat, c.toNat * 256 + d.toNat], true, rest)
      | none =>
        match readNumber 16 65536 (some 4) true inner with
        | none => ([], false, text)
        | some (group, rest) =>
          let (more, dotted, rest) := readGroups limit (read + 1) rest
          (group :: more, dotted, rest)

/-- Eight groups as one address; missing groups are zero. -/
def ofGroups (groups : List Nat) : IpAddress :=
  .v6 (Vector.ofFn fun i => UInt16.ofNat (groups.getD i.val 0))

/-- An eight-group address, where two colons stand for at least one zero group. -/
def readV6 : Read IpAddress := fun text =>
  let (head, dotted, rest) := readGroups 8 0 text
  if head.length = 8 then some (ofGroups head, rest)
  else if dotted then none
  else do
    let ((), rest) ← readChar ':' rest
    let ((), rest) ← readChar ':' rest
    let (tail, _, rest) := readGroups (7 - head.length) 0 rest
    some (ofGroups (head ++ List.replicate (8 - head.length - tail.length) 0 ++ tail), rest)

/-- An Internet address of either kind. -/
def readIp : Read IpAddress := fun text =>
  match readV4 text with
  | some ((a, b, c, d), rest) => some (.v4 a b c d, rest)
  | none => readV6 text

/-- The port behind a colon. -/
def readPort : Read UInt16 := fun text => do
  let ((), text) ← readChar ':' text
  let (port, text) ← readNumber 10 65536 none true text
  some (.ofNat port, text)

/-- The scope number behind a percent sign; zero if there is none. -/
def readScope : Read UInt32 := fun text =>
  match readChar '%' text with
  | none => some (0, text)
  | some ((), inner) => match readNumber 10 4294967296 none true inner with
    | some (scope, rest) => some (.ofNat scope, rest)
    | none => some (0, text)

/-- A four-number address with its port. -/
def readSocketV4 : Read Address := fun text => do
  let ((a, b, c, d), text) ← readV4 text
  let (port, text) ← readPort text
  some (⟨.v4 a b c d, port, 0⟩, text)

/-- A bracketed eight-group address with its port. -/
def readSocketV6 : Read Address := fun text => do
  let ((), text) ← readChar '[' text
  let (ip, text) ← readV6 text
  let (scope, text) ← readScope text
  let ((), text) ← readChar ']' text
  let (port, text) ← readPort text
  some (⟨ip, port, scope⟩, text)

/-- The value if nothing is left of the text. -/
def whole {α : Type} : Option (α × List Char) → Option α
  | some (value, []) => some value
  | _ => none

/-- A socket address that takes up the whole text. -/
def ofText? (text : String) : Option Address :=
  whole (readSocketV4 text.toList <|> readSocketV6 text.toList)

end Address

namespace IpAddress

/-- An Internet address that takes up the whole text. -/
def ofText? (text : String) : Option IpAddress :=
  Address.whole (Address.readIp text.toList)

/-- The longest of the runs of zeros that start at the positions of a list, the first among equals,
as its start and length. -/
def longestZeros : List UInt16 → Nat → Nat × Nat
  | [], position => (position, 0)
  | group :: rest, position =>
    let here := ((group :: rest).takeWhile (· = 0)).length
    let later := longestZeros rest (position + 1)
    if later.2 ≤ here then (position, here) else later

/-- A number in lower-case hexadecimal digits. -/
def hexText (n : Nat) : String :=
  String.ofList (Nat.toDigits 16 n)

/-- Groups separated by colons. -/
def groupsText (groups : List UInt16) : String :=
  ":".intercalate (groups.map fun group => hexText group.toNat)

/-- The canonical text. Of eight groups, the longest run of at least two zeros, the first among
equals, becomes two colons; an embedded four-number address is written with points. -/
def text : IpAddress → String
  | .v4 a b c d => s!"{a.toNat}.{b.toNat}.{c.toNat}.{d.toNat}"
  | .v6 groups =>
    match groups.toList with
    | [0, 0, 0, 0, 0, 0xFFFF, high, low] =>
      let octet (n : Nat) : String := toString n
      "::ffff:" ++ ".".intercalate
        [octet (high.toNat / 256), octet (high.toNat % 256), octet (low.toNat / 256),
          octet (low.toNat % 256)]
    | list =>
      let (start, count) := longestZeros list 0
      if 1 < count then
        groupsText (list.take start) ++ "::" ++ groupsText (list.drop (start + count))
      else groupsText list

end IpAddress

/-- The canonical text of a socket address. -/
def Address.text (address : Address) : String :=
  match address.ip with
  | .v4 .. => address.ip.text ++ ":" ++ toString address.port.toNat
  | .v6 .. =>
    let scope := if address.scope = 0 then "" else "%" ++ toString address.scope.toNat
    "[" ++ address.ip.text ++ scope ++ "]:" ++ toString address.port.toNat

end BitTorrent
