/-!
Quotients rounded to the nearest integer, a half going to the even neighbour, and numbers written
with a fixed count of decimal places.
-/

set_option autoImplicit false

namespace BitTorrent.Rounded

/-- The integer nearest to `num / den`; a half goes to the even neighbour. -/
def nearest (num den : Nat) : Nat :=
  let whole := num / den
  let twice := 2 * (num % den)
  if twice < den then whole
  else if den < twice then whole + 1
  else whole + whole % 2

/-- The nearest integer is at most half a unit away. -/
theorem nearest_within (num den : Nat) (positive : 0 < den) :
    2 * num ≤ 2 * (nearest num den * den) + den ∧ 2 * (nearest num den * den) ≤ 2 * num + den := by
  have split := Nat.div_add_mod num den
  have small := Nat.mod_lt num positive
  have once : (num / den + 1) * den = den * (num / den) + den := by
    rw [Nat.add_mul, Nat.mul_comm, Nat.one_mul]
  have same : num / den * den = den * (num / den) := Nat.mul_comm _ _
  unfold nearest
  simp only
  split
  · omega
  · split
    · omega
    · rcases Nat.mod_two_eq_zero_or_one (num / den) with even | odd
      · rw [even, Nat.add_zero]; omega
      · rw [odd]; omega

/-- A finite non-negative binary64 number as `mantissa * 2 ^ exponent`. -/
structure Binary where
  mantissa : Nat
  exponent : Int

/-- The bit that a normal number has in front of its 52 bits of fraction. -/
def hidden : Nat := 4503599627370496

/-- The exact value of a finite non-negative binary64 number. -/
def Binary.ofFloat (x : Float) : Binary :=
  let bits : Nat := x.toBits.toNat
  let fraction : Nat := bits % hidden
  let field : Nat := bits / hidden % 2048
  if field = 0 then ⟨fraction, -1074⟩ else ⟨hidden + fraction, (field : Int) - 1075⟩

/-- The value times `scale`, rounded to an integer. -/
def Binary.scaled (x : Binary) (scale : Nat) : Nat :=
  match x.exponent with
  | .ofNat up => x.mantissa * scale * Nat.pow 2 up
  | .negSucc down => nearest (x.mantissa * scale) (Nat.pow 2 (down + 1))

/-- A finite non-negative binary64 number with `places` decimal places. -/
def fixed (places : Nat) (x : Float) : String :=
  let scale := Nat.pow 10 places
  let units := (Binary.ofFloat x).scaled scale
  let whole := toString (units / scale)
  if places = 0 then whole
  else
    let fraction := toString (units % scale)
    whole ++ "." ++ String.ofList (List.replicate (places - fraction.length) '0') ++ fraction

end BitTorrent.Rounded
