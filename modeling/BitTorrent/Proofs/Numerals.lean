import BitTorrent.Bencode
import Mathlib.Data.List.Induction

/-!
Decimal spellings of a number: there may be many, but only one that is as short as can be, and that
is the one that is written.
-/

set_option autoImplicit false

namespace BitTorrent.Numeral

open Bencode (charsOf isDigit)

/-- The integer that decimal digits stand for, behind a sign if there is one. -/
def denoted? : Bytes → Option Int
  | 45 :: digits => (digits? 10 (charsOf digits)).map fun value : Nat => -(value : Int)
  | 43 :: digits => (digits? 10 (charsOf digits)).map Int.ofNat
  | digits => (digits? 10 (charsOf digits)).map Int.ofNat

/-- Decimal digits without needless zeros in front. -/
def shortest (digits : Bytes) : Bool :=
  digits.all isDigit && !digits.isEmpty && (digits.head? ≠ some 48 || digits = [48])

/-- The digits of an integer that has a sign only if it is negative. -/
def shortestInteger : Bytes → Bool
  | 45 :: digits => shortest digits && digits ≠ [48]
  | digits => shortest digits

/-! ### Digits -/

theorem digit_facts : ∀ byte : UInt8, isDigit byte = true →
    digit? 10 (Char.ofNat byte.toNat) = some (byte.toNat - 48) ∧
      UInt8.ofNat (byte.toNat - 48).digitChar.toNat = byte ∧
      48 ≤ byte.toNat ∧ byte.toNat ≤ 57 := by
  intro byte
  have each : ∀ value : Fin 256, isDigit (UInt8.ofNat value.val) = true →
      digit? 10 (Char.ofNat value.val) = some (value.val - 48) ∧
        UInt8.ofNat (value.val - 48).digitChar.toNat = UInt8.ofNat value.val ∧
        48 ≤ value.val ∧ value.val ≤ 57 := by
    decide +kernel
  simpa using each byte.toFin

theorem accumulate?_concat (base : Nat) (front : List Char) (last : Char) (value : Nat) :
    accumulate? base (front ++ [last]) value =
      (accumulate? base front value).bind fun before =>
        (digit? base last).map fun digit => before * base + digit := by
  induction front generalizing value with
  | nil =>
    simp only [List.nil_append, accumulate?, Option.bind_some]
    cases digit? base last <;> rfl
  | cons first rest ih =>
    simp only [List.cons_append, accumulate?]
    cases digit? base first with
    | none => rfl
    | some digit => exact ih _

theorem bytes_of_lt {n : Nat} (small : n < 10) : bytes n = [UInt8.ofNat n.digitChar.toNat] := by
  rw [bytes, Nat.toDigits_of_lt_base small]
  rfl

theorem bytes_of_le {n : Nat} (large : 10 ≤ n) :
    bytes n = bytes (n / 10) ++ [UInt8.ofNat (n % 10).digitChar.toNat] := by
  rw [bytes, Nat.toDigits_of_base_le (by decide) large, List.map_append]
  rfl

theorem shortest_iff {digits : Bytes} :
    shortest digits = true ↔
      (∀ byte ∈ digits, isDigit byte = true) ∧ digits ≠ [] ∧
        (digits.head? = some 48 → digits = [48]) := by
  simp only [shortest, Bool.and_eq_true, List.all_eq_true, Bool.not_eq_eq_eq_not, Bool.not_true,
    List.isEmpty_eq_false_iff, Bool.or_eq_true, decide_eq_true_eq, and_assoc]
  rw [← imp_iff_not_or]

/-- Digits without needless zeros are those that are written for their number. -/
theorem bytes_of_shortest {digits : Bytes} (short : shortest digits = true) {n : Nat}
    (read : accumulate? 10 (charsOf digits) 0 = some n) : bytes n = digits := by
  induction digits using List.reverseRecOn generalizing n with
  | nil => cases short
  | append_singleton front last ih =>
    obtain ⟨decimal, -, lead⟩ := shortest_iff.mp short
    obtain ⟨value, char, low, high⟩ := digit_facts last (decimal last (by simp))
    have chars : charsOf (front ++ [last]) = charsOf front ++ [Char.ofNat last.toNat] := by
      simp [charsOf]
    rw [chars, accumulate?_concat, value] at read
    cases before : accumulate? 10 (charsOf front) 0 with
    | none =>
      rw [before] at read
      cases read
    | some most =>
      simp only [before, Option.bind_some, Option.map_some, Option.some.injEq] at read
      by_cases alone : front = []
      · subst alone
        cases before
        rw [bytes_of_lt (by omega), ← read, Nat.zero_mul, Nat.zero_add, char]
        rfl
      · -- the front has no needless zero either, and is not zero itself
        have head : front.head? ≠ some 48 := by
          intro zero
          have whole := lead (by simp [zero])
          have counted := congrArg List.length whole
          simp only [List.length_append, List.length_singleton] at counted
          exact alone (List.length_eq_zero_iff.mp (by omega))
        have shortFront : shortest front = true := shortest_iff.mpr
          ⟨fun byte inside => decimal byte (List.mem_append_left _ inside), alone,
            fun zero => absurd zero head⟩
        have written := ih shortFront before
        have positive : most ≠ 0 := by
          rintro rfl
          exact head (written ▸ rfl)
        have ones : n % 10 = last.toNat - 48 := by omega
        have tens : n / 10 = most := by omega
        rw [bytes_of_le (by omega), tens, ones, written, char]

/-! ### Integers and lengths -/

theorem digits?_eq_some {digits : Bytes} {n : Nat} :
    digits? 10 (charsOf digits) = some n ↔
      digits ≠ [] ∧ accumulate? 10 (charsOf digits) 0 = some n := by
  cases digits <;> simp [digits?, charsOf]

/-- Bytes that start with a digit have no sign. -/
theorem denoted?_of_isDigit {lead : UInt8} (digit : isDigit lead = true) (rest : Bytes) :
    denoted? (lead :: rest) = (digits? 10 (charsOf (lead :: rest))).map Int.ofNat := by
  have minus : lead ≠ 45 := by
    rintro rfl
    cases digit
  have plus : lead ≠ 43 := by
    rintro rfl
    cases digit
  unfold denoted?
  split
  · rename_i same
    cases same
    exact absurd rfl minus
  · rename_i same
    cases same
    exact absurd rfl plus
  · rfl

theorem denoted?_of_shortest {digits : Bytes} (short : shortest digits = true) {value : Int}
    (denoted : denoted? digits = some value) :
    ∃ n : Nat, value = n ∧ bytes n = digits := by
  obtain ⟨decimal, filled, -⟩ := shortest_iff.mp short
  obtain ⟨lead, rest, rfl⟩ := List.exists_cons_of_ne_nil filled
  rw [denoted?_of_isDigit (decimal lead List.mem_cons_self), Option.map_eq_some_iff] at denoted
  obtain ⟨n, read, rfl⟩ := denoted
  exact ⟨n, rfl, bytes_of_shortest short (digits?_eq_some.mp read).2⟩

/-- The shortest spelling of an integer is the one that is written. -/
theorem integerBytes_of_shortest {digits : Bytes} (short : shortestInteger digits = true)
    {value : Int} (denoted : denoted? digits = some value) : integerBytes value = digits := by
  unfold shortestInteger at short
  split at short
  · rename_i rest
    simp only [Bool.and_eq_true, decide_eq_true_eq] at short
    simp only [denoted?, Option.map_eq_some_iff] at denoted
    obtain ⟨n, read, rfl⟩ := denoted
    have written := bytes_of_shortest short.1 (digits?_eq_some.mp read).2
    have positive : n ≠ 0 := by
      rintro rfl
      exact short.2 (written ▸ rfl)
    rw [integerBytes, if_pos (by omega), Int.natAbs_neg, Int.natAbs_natCast, written]
  · obtain ⟨n, rfl, written⟩ := denoted?_of_shortest short denoted
    rw [integerBytes, if_neg (by omega), Int.natAbs_natCast, written]

theorem sign_facts : ∀ byte : UInt8,
    (Char.ofNat byte.toNat = '+' → byte = 43) ∧ (Char.ofNat byte.toNat = '-' → byte = 45) := by
  intro byte
  have each : ∀ value : Fin 256,
      (Char.ofNat value.val = '+' → UInt8.ofNat value.val = 43) ∧
        (Char.ofNat value.val = '-' → UInt8.ofNat value.val = 45) := by
    decide +kernel
  simpa using each byte.toFin

/-- Whatever is read as a number below a bound stands for that number. -/
theorem natural?_denoted {bound n : Nat} {digits : Bytes}
    (read : natural? bound (charsOf digits) = some n) : denoted? digits = some (n : Int) := by
  cases digits with
  | nil => cases read
  | cons lead rest =>
    simp only [natural?, Option.bind_eq_bind, Option.bind_eq_some_iff] at read
    obtain ⟨value, body, bounded⟩ := read
    split at bounded
    case isFalse => cases bounded
    cases bounded
    split at body
    · rename_i chars same
      simp only [charsOf, List.map_cons, List.cons.injEq] at same
      obtain ⟨sign, rfl⟩ := same
      rw [(sign_facts lead).1 sign]
      exact congrArg (Option.map Int.ofNat) body
    · rename_i unsigned
      unfold denoted?
      split
      · rename_i same
        cases same
        cases body
      · rename_i same
        cases same
        exact absurd rfl (unsigned _)
      · exact congrArg (Option.map Int.ofNat) body

/-- Whatever is read as an integer within bounds stands for that integer. -/
theorem integer?_denoted {bound : Nat} {value : Int} {digits : Bytes}
    (read : integer? bound (charsOf digits) = some value) : denoted? digits = some value := by
  unfold integer? at read
  split at read
  · rename_i chars same
    cases digits with
    | nil => cases same
    | cons lead rest =>
      simp only [charsOf, List.map_cons, List.cons.injEq] at same
      obtain ⟨sign, rfl⟩ := same
      simp only [Option.bind_eq_bind, Option.bind_eq_some_iff] at read
      obtain ⟨n, body, bounded⟩ := read
      split at bounded
      case isFalse => cases bounded
      cases bounded
      rw [(sign_facts lead).2 sign]
      exact congrArg (Option.map fun value : Nat => -(value : Int)) body
  · obtain ⟨n, natural, rfl⟩ := Option.map_eq_some_iff.mp read
    exact natural?_denoted natural

theorem decimal_of_accumulate? {digits : Bytes} {value n : Nat}
    (read : accumulate? 10 (charsOf digits) value = some n) :
    ∀ byte ∈ digits, isDigit byte = true := by
  have each : ∀ value : Fin 256, (digit? 10 (Char.ofNat value.val)).isSome = true →
      isDigit (UInt8.ofNat value.val) = true := by
    decide +kernel
  induction digits generalizing value with
  | nil => exact fun byte inside => nomatch inside
  | cons lead rest ih =>
    simp only [charsOf, List.map_cons, accumulate?, Option.bind_eq_bind,
      Option.bind_eq_some_iff] at read
    obtain ⟨digit, first, later⟩ := read
    have here : isDigit lead = true := by
      simpa using each lead.toFin (Option.isSome_iff_exists.mpr ⟨digit, first⟩)
    exact List.forall_mem_cons.mpr ⟨here, ih later⟩

/-- A spelling of a number has nothing in it but digits and signs. -/
theorem mem_of_denoted? {digits : Bytes} {value : Int} (denoted : denoted? digits = some value) :
    ∀ byte ∈ digits, isDigit byte = true ∨ byte = 43 ∨ byte = 45 := by
  have decimal : ∀ {rest : Bytes} {n : Nat}, digits? 10 (charsOf rest) = some n →
      ∀ byte ∈ rest, isDigit byte = true :=
    fun read => decimal_of_accumulate? (digits?_eq_some.mp read).2
  unfold denoted? at denoted
  split at denoted
  · obtain ⟨n, read, -⟩ := Option.map_eq_some_iff.mp denoted
    exact List.forall_mem_cons.mpr
      ⟨Or.inr (Or.inr rfl), fun byte inside => Or.inl (decimal read byte inside)⟩
  · obtain ⟨n, read, -⟩ := Option.map_eq_some_iff.mp denoted
    exact List.forall_mem_cons.mpr
      ⟨Or.inr (Or.inl rfl), fun byte inside => Or.inl (decimal read byte inside)⟩
  · obtain ⟨n, read, -⟩ := Option.map_eq_some_iff.mp denoted
    exact fun byte inside => Or.inl (decimal read byte inside)

end BitTorrent.Numeral
