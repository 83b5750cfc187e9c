import BitTorrent.Sha1
import Mathlib.Data.UInt
import Mathlib.Logic.Function.Iterate

/-!
SHA-1 on natural numbers, for strings that begin with blocks of zeros. Such a block has nothing but
zeros scheduled, and the kernel computes with natural numbers directly.
-/

set_option autoImplicit false

namespace BitTorrent.Sha1

/-- The five chaining words as numbers. -/
structure Tally where
  a : Nat
  b : Nat
  c : Nat
  d : Nat
  e : Nat
  deriving DecidableEq

def Chain.tally (chain : Chain) : Tally :=
  ⟨chain.a.toNat, chain.b.toNat, chain.c.toNat, chain.d.toNat, chain.e.toNat⟩

theorem Chain.tally_injective {first second : Chain} (same : first.tally = second.tally) :
    first = second := by
  rcases first with ⟨a, b, c, d, e⟩
  rcases second with ⟨_, _, _, _, _⟩
  simp only [Chain.tally, Tally.mk.injEq, UInt32.toNat_inj] at same
  obtain ⟨rfl, rfl, rfl, rfl, rfl⟩ := same
  rfl

/-- Hands a number on once it is computed: the kernel would carry along how it is computed. -/
def computed {α : Type} (number : Nat) (next : Nat → α) : α :=
  match number with
  | 0 => next 0
  | number + 1 => next (number + 1)

theorem computed_eq {α : Type} (number : Nat) (next : Nat → α) :
    computed number next = next number := by
  cases number <;> rfl

namespace Tally

/-- Thirty-two bits. -/
def modulus : Nat := 4294967296

def rotateLeft (word amount : Nat) : Nat :=
  (word <<< amount) % modulus ||| word >>> (32 - amount)

/-- The Boolean function and the constant of a round, added up. -/
def mix (round b c d : Nat) : Nat :=
  if round < 20 then ((b &&& c) ||| ((modulus - 1 - b) &&& d)) + 0x5A827999
  else if round < 40 then (b ^^^ c ^^^ d) + 0x6ED9EBA1
  else if round < 60 then ((b &&& c) ||| (b &&& d) ||| (c &&& d)) + 0x8F1BBCDC
  else (b ^^^ c ^^^ d) + 0xCA62C1D6

/-- The last `left` rounds with nothing but zeros scheduled. -/
def rounds : Nat → Tally → Tally
  | 0, tally => tally
  | left + 1, ⟨a, b, c, d, e⟩ =>
    computed ((rotateLeft a 5 + mix (79 - left) b c d + e) % modulus) fun first =>
      computed (rotateLeft b 30) fun third => rounds left ⟨first, a, third, c, d⟩

/-- Absorbs a block of zeros. -/
def absorb (tally : Tally) : Tally :=
  let last := rounds 80 tally
  computed ((tally.a + last.a) % modulus) fun a =>
    computed ((tally.b + last.b) % modulus) fun b =>
      computed ((tally.c + last.c) % modulus) fun c =>
        computed ((tally.d + last.d) % modulus) fun d =>
          computed ((tally.e + last.e) % modulus) fun e => ⟨a, b, c, d, e⟩

end Tally

theorem toNat_sum (first second : UInt32) :
    (first + second).toNat = (first.toNat + second.toNat) % Tally.modulus :=
  UInt32.toNat_add first second

theorem toNat_rotateLeft_five (word : UInt32) :
    (rotateLeft word 5).toNat = Tally.rotateLeft word.toNat 5 := by
  simp [rotateLeft, Tally.rotateLeft, Tally.modulus]

theorem toNat_rotateLeft_thirty (word : UInt32) :
    (rotateLeft word 30).toNat = Tally.rotateLeft word.toNat 30 := by
  simp [rotateLeft, Tally.rotateLeft, Tally.modulus]

theorem toNat_mix (round : Nat) (b c d : UInt32) :
    (mix round b c d).1.toNat + (mix round b c d).2.toNat =
      Tally.mix round b.toNat c.toNat d.toNat := by
  unfold mix Tally.mix Tally.modulus
  split
  · simp [UInt32.size]
  · split
    · simp
    · split <;> simp

/-- A round with a zero scheduled. -/
theorem tally_turn (chain : Chain) (round : Nat) :
    (chain.turn round 0).tally = ⟨(Tally.rotateLeft chain.tally.a 5 +
      Tally.mix round chain.tally.b chain.tally.c chain.tally.d + chain.tally.e) % Tally.modulus,
      chain.tally.a, Tally.rotateLeft chain.tally.b 30, chain.tally.c, chain.tally.d⟩ := by
  have first := toNat_rotateLeft_five chain.a
  have mixed := toNat_mix round chain.b chain.c chain.d
  simp only [Chain.turn, Chain.tally, Tally.mk.injEq, toNat_rotateLeft_thirty, and_self, and_true,
    UInt32.toNat_add, UInt32.toNat_zero, Tally.modulus]
  omega

theorem tally_rounds (left : Nat) (chain : Chain) :
    (rounds left (List.replicate 16 0) chain).tally = Tally.rounds left chain.tally := by
  induction left generalizing chain with
  | zero => rfl
  | succ left ih =>
    -- The window of zeros moves on to a window of zeros.
    have window : (List.replicate 16 (0 : UInt32)).tail ++ [rotateLeft (0 ^^^ 0 ^^^ 0 ^^^ 0) 1] =
      List.replicate 16 0 := by decide
    have step : rounds (left + 1) (List.replicate 16 0) chain =
        rounds left (List.replicate 16 0) (chain.turn (79 - left) 0) := by
      rw [rounds]
      exact congrArg (rounds left · _) window
    rw [step, ih, tally_turn, Tally.rounds, computed_eq, computed_eq]

theorem words_zeros : words (List.replicate 64 0) = List.replicate 16 0 := by
  decide

theorem tally_absorb (chain : Chain) :
    (chain.absorb (List.replicate 64 0)).tally = chain.tally.absorb := by
  have last := tally_rounds 80 chain
  simp only [Chain.absorb, words_zeros, Tally.absorb, computed_eq, ← last]
  simp only [Chain.tally, toNat_sum]

/-- Blocks of zeros in front of others are absorbed as numbers. -/
theorem absorbAll_zeros (count more : Nat) (chain : Chain) (rest : Bytes) :
    ∃ middle : Chain, middle.tally = Nat.iterate Tally.absorb count chain.tally ∧
      absorbAll (count + more) chain (List.replicate (64 * count) 0 ++ rest) =
        absorbAll more middle rest := by
  induction count generalizing chain with
  | zero => exact ⟨chain, rfl, by simp⟩
  | succ count ih =>
    obtain ⟨middle, tally, absorbed⟩ := ih (chain.absorb (List.replicate 64 0))
    have split : List.replicate (64 * (count + 1)) 0 ++ rest =
        List.replicate 64 (0 : UInt8) ++ (List.replicate (64 * count) 0 ++ rest) := by
      rw [← List.append_assoc, List.replicate_append_replicate]
      congr 2
      omega
    refine ⟨middle, by rw [tally, tally_absorb, Function.iterate_succ_apply], ?_⟩
    rw [split, Nat.add_right_comm, absorbAll, List.take_left' (List.length_replicate ..),
      List.drop_left' (List.length_replicate ..)]
    exact absorbed

/-- The chaining words behind a block of zeros as long as those that peers are asked for. -/
def zeroChain : Chain :=
  ⟨527682490, 3150011514, 3460553233, 2381015215, 3306555271⟩

theorem tally_zeroChain : Nat.iterate Tally.absorb 256 Chain.initial.tally = zeroChain.tally := by
  decide +kernel

/-- What is left to absorb behind the zeros if one more byte follows them. -/
def lastBlock (byte : UInt8) : Bytes :=
  byte :: 0x80 :: (List.replicate 54 0 ++ Bytes.ofNat 8 131080)

theorem padded_zeros (byte : UInt8) :
    padded (List.replicate 16384 0 ++ [byte]) = List.replicate (64 * 256) 0 ++ lastBlock byte := by
  simp only [padded, List.length_append, List.length_replicate, List.length_cons, List.length_nil,
    List.append_assoc, List.cons_append, List.nil_append, lastBlock]

theorem sha1_zeros (byte : UInt8) :
    (sha1 (List.replicate 16384 0 ++ [byte])).toArray =
      (zeroChain.absorb (lastBlock byte)).bytes.toArray := by
  obtain ⟨middle, tally, absorbed⟩ := absorbAll_zeros 256 1 Chain.initial (lastBlock byte)
  rw [tally_zeroChain] at tally
  obtain rfl := Chain.tally_injective tally
  have blocks : (List.replicate (64 * 256) 0 ++ lastBlock byte).length / 64 = 256 + 1 := by
    simp only [List.length_append, List.length_replicate, lastBlock, List.length_cons,
      Bytes.length_ofNat]
  simp only [sha1, padded_zeros, blocks, absorbed]
  rfl

/-- The last byte makes a difference. -/
theorem sha1_zeros_ne :
    sha1 (List.replicate 16384 0 ++ [1]) ≠ sha1 (List.replicate 16384 0 ++ [0]) := by
  intro same
  have arrays := congrArg Vector.toArray same
  rw [sha1_zeros, sha1_zeros] at arrays
  revert arrays
  decide +kernel

end BitTorrent.Sha1
