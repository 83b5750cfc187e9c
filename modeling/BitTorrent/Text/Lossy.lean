import BitTorrent.Bytes

/-!
Reading bytes as UTF-8 text. Well-formed sequences become characters; each maximal ill-formed part
becomes one replacement character.
-/

set_option autoImplicit false

namespace BitTorrent.Text

/-- A byte that continues a multi-byte sequence. -/
def isContinuation (byte : UInt8) : Bool :=
  0x80 ≤ byte && byte ≤ 0xBF

/-- The second bytes that may follow a lead byte: overlong forms, surrogates and numbers beyond
the last code point are excluded here. -/
def isSecond (lead second : UInt8) : Bool :=
  if lead = 0xE0 then 0xA0 ≤ second && second ≤ 0xBF
  else if lead = 0xED then 0x80 ≤ second && second ≤ 0x9F
  else if lead = 0xF0 then 0x90 ≤ second && second ≤ 0xBF
  else if lead = 0xF4 then 0x80 ≤ second && second ≤ 0x8F
  else isContinuation second

/-- The number of bytes of the sequence that a lead byte opens; zero if it opens none. -/
def sequenceLength (lead : UInt8) : Nat :=
  if lead < 0x80 then 1
  else if 0xC2 ≤ lead && lead ≤ 0xDF then 2
  else if 0xE0 ≤ lead && lead ≤ 0xEF then 3
  else if 0xF0 ≤ lead && lead ≤ 0xF4 then 4
  else 0

/-- The replacement character. -/
def replacement : Char := Char.ofNat 0xFFFD

/-- The first character of a byte string and the number of bytes it takes. -/
def firstChar (lead : UInt8) (rest : Bytes) : Char × Nat :=
  let bits (byte : UInt8) : Nat := byte.toNat % 64
  match sequenceLength lead, rest with
  | 1, _ => (Char.ofNat lead.toNat, 1)
  | 2, b :: _ =>
    if isSecond lead b then (Char.ofNat (lead.toNat % 32 * 64 + bits b), 2) else (replacement, 1)
  | 3, [b] => if isSecond lead b then (replacement, 2) else (replacement, 1)
  | 3, b :: c :: _ =>
    if isSecond lead b then
      if isContinuation c then
        (Char.ofNat ((lead.toNat % 16 * 64 + bits b) * 64 + bits c), 3)
      else (replacement, 2)
    else (replacement, 1)
  | 4, [b] => if isSecond lead b then (replacement, 2) else (replacement, 1)
  | 4, [b, c] =>
    if isSecond lead b then
      if isContinuation c then (replacement, 3) else (replacement, 2)
    else (replacement, 1)
  | 4, b :: c :: d :: _ =>
    if isSecond lead b then
      if isContinuation c then
        if isContinuation d then
          (Char.ofNat (((lead.toNat % 8 * 64 + bits b) * 64 + bits c) * 64 + bits d), 4)
        else (replacement, 3)
      else (replacement, 2)
    else (replacement, 1)
  | _, _ => (replacement, 1)

/-- The characters of a byte string of at most `fuel` bytes. -/
def lossyChars : Nat → Bytes → List Char
  | 0, _ => []
  | _, [] => []
  | fuel + 1, lead :: rest =>
    let (char, width) := firstChar lead rest
    char :: lossyChars fuel (rest.drop (width - 1))

/-- Reads bytes as UTF-8, replacing what is ill-formed. -/
def ofBytesLossy (bytes : Bytes) : String :=
  String.ofList (lossyChars bytes.length bytes)

/-- Reads bytes as UTF-8 if they are well-formed throughout. -/
def ofBytes? (bytes : Bytes) : Option String :=
  String.fromUTF8? ⟨bytes.toArray⟩

end BitTorrent.Text
