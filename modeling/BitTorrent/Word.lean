/-! The bounds of numbers that are kept in words of a fixed width: the first number beyond each. -/

set_option autoImplicit false

namespace BitTorrent.Word

/-- The first number beyond 16 bits. -/
def bound16 : Nat := 65536

/-- The first number beyond 32 bits. -/
def bound32 : Nat := 4294967296

/-- The first number beyond 63 bits. -/
def bound63 : Nat := 9223372036854775808

/-- The first number beyond 64 bits. -/
def bound64 : Nat := 18446744073709551616

end BitTorrent.Word
