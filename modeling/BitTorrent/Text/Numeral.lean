/-! Decimal and hexadecimal numerals. -/

set_option autoImplicit false

namespace BitTorrent.Numeral

/-- The value of a digit in a base of at most sixteen. -/
def digit? (base : Nat) (char : Char) : Option Nat :=
  let value :=
    if '0' ≤ char ∧ char ≤ '9' then char.toNat - 48
    else if 'a' ≤ char ∧ char ≤ 'f' then char.toNat - 87
    else if 'A' ≤ char ∧ char ≤ 'F' then char.toNat - 55
    else base
  if value < base then some value else none

/-- Reads a run of digits from left to right onto a value. -/
def accumulate? (base : Nat) : List Char → Nat → Option Nat
  | [], value => some value
  | char :: rest, value => do accumulate? base rest (value * base + (← digit? base char))

/-- A number of at least one digit in a base. -/
def digits? (base : Nat) (chars : List Char) : Option Nat :=
  if chars.isEmpty then none else accumulate? base chars 0

/-- A decimal number below `bound`; a plus sign may stand in front. -/
def natural? (bound : Nat) (chars : List Char) : Option Nat := do
  let body := match chars with
    | '+' :: rest => rest
    | _ => chars
  let value ← digits? 10 body
  if value < bound then some value else none

/-- A decimal integer from `-bound` to `bound - 1`; a sign may stand in front. -/
def integer? (bound : Nat) (chars : List Char) : Option Int :=
  match chars with
  | '-' :: rest => do
    let value ← digits? 10 rest
    if value ≤ bound then some (-(value : Int)) else none
  | _ => (natural? bound chars).map Int.ofNat

/-- The decimal digits of a number as bytes. -/
def bytes (n : Nat) : List UInt8 :=
  (Nat.toDigits 10 n).map fun char => UInt8.ofNat char.toNat

/-- The decimal digits of an integer as bytes, after a minus sign if it is negative. -/
def integerBytes (n : Int) : List UInt8 :=
  if n < 0 then 45 :: bytes n.natAbs else bytes n.natAbs

end BitTorrent.Numeral
