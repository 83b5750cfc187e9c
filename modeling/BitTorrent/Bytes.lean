/-! Byte strings, big-endian numbers and hexadecimal text. -/

set_option autoImplicit false

namespace BitTorrent

/-- A byte string. -/
abbrev Bytes := List UInt8

namespace Bytes

/-- The low `width` bytes of a number, most significant first. -/
def ofNat : Nat → Nat → Bytes
  | 0, _ => []
  | width + 1, n => ofNat width (n / 256) ++ [UInt8.ofNat n]

/-- The number that a big-endian byte string spells. -/
def toNat (bytes : Bytes) : Nat :=
  bytes.foldl (fun value byte => value * 256 + byte.toNat) 0

@[simp] theorem length_ofNat (width n : Nat) : (ofNat width n).length = width := by
  induction width generalizing n with
  | zero => rfl
  | succ width ih => simp [ofNat, ih]

theorem toNat_concat (bytes : Bytes) (byte : UInt8) :
    toNat (bytes ++ [byte]) = toNat bytes * 256 + byte.toNat := by
  simp [toNat, List.foldl_append]

/-- How many byte strings of a width there are. -/
def countOf : Nat → Nat
  | 0 => 1
  | width + 1 => 256 * countOf width

/-- Big-endian bytes read back as the number, reduced to their width. -/
theorem toNat_ofNat (width n : Nat) : toNat (ofNat width n) = n % countOf width := by
  induction width generalizing n with
  | zero => simp [ofNat, toNat, countOf, Nat.mod_one]
  | succ width ih =>
    rw [ofNat, toNat_concat, ih, countOf, Nat.mod_mul]
    have low : (UInt8.ofNat n).toNat = n % 256 := by simp
    omega

/-- The lower-case hexadecimal digit of a number below sixteen. -/
def hexDigit (n : Nat) : Char :=
  if n < 10 then Char.ofNat (48 + n) else Char.ofNat (87 + n)

/-- Two lower-case hexadecimal digits for every byte. -/
def hex (bytes : Bytes) : String :=
  String.ofList (bytes.flatMap fun byte => [hexDigit (byte.toNat / 16), hexDigit (byte.toNat % 16)])

/-- The value of a hexadecimal digit; zero for any other character. -/
def hexValue (char : Char) : Nat :=
  if char.isDigit then char.toNat - 48
  else if 'a' ≤ char && char ≤ 'f' then char.toNat - 87
  else if 'A' ≤ char && char ≤ 'F' then char.toNat - 55
  else 0

/-- The bytes of pairs of hexadecimal digits. -/
def ofHex : List Char → Bytes
  | high :: low :: rest => UInt8.ofNat (16 * hexValue high + hexValue low) :: ofHex rest
  | _ => []

/-- The UTF-8 bytes of a text. -/
def ofText (text : String) : Bytes :=
  text.toUTF8.toList

end Bytes

/-- A SHA-1 value. -/
abbrev Digest := Vector UInt8 20

/-- The twenty bytes that name a peer. -/
abbrev PeerId := Vector UInt8 20

/-- Twenty bytes as a fixed-size value. -/
def Digest.ofBytes? (bytes : Bytes) : Option Digest :=
  if exact : bytes.length = 20 then some ⟨bytes.toArray, by simpa using exact⟩ else none

end BitTorrent
