import BitTorrent.Bytes

/-! SHA-1: padding, the eighty rounds of one block, and the digest of a byte string. -/

set_option autoImplicit false

namespace BitTorrent.Sha1

/-- The five chaining words. -/
structure Chain where
  a : UInt32
  b : UInt32
  c : UInt32
  d : UInt32
  e : UInt32

def Chain.initial : Chain :=
  ⟨0x67452301, 0xEFCDAB89, 0x98BADCFE, 0x10325476, 0xC3D2E1F0⟩

/-- The message, a one bit, zeros up to 56 bytes modulo 64, and the bit length in eight bytes. -/
def padded (message : Bytes) : Bytes :=
  message ++ 0x80 :: (List.replicate ((119 - message.length % 64) % 64) 0 ++
    Bytes.ofNat 8 (8 * message.length))

/-- Big-endian words of a byte string whose length is a multiple of four. -/
def words : Bytes → List UInt32
  | a :: b :: c :: d :: rest =>
    ((a.toUInt32 <<< 24) ||| (b.toUInt32 <<< 16) ||| (c.toUInt32 <<< 8) ||| d.toUInt32) ::
      words rest
  | _ => []

def rotateLeft (word amount : UInt32) : UInt32 :=
  (word <<< amount) ||| (word >>> (32 - amount))

/-- The Boolean function and the constant of a round. -/
def mix (round : Nat) (b c d : UInt32) : UInt32 × UInt32 :=
  if round < 20 then ((b &&& c) ||| (~~~b &&& d), 0x5A827999)
  else if round < 40 then (b ^^^ c ^^^ d, 0x6ED9EBA1)
  else if round < 60 then ((b &&& c) ||| (b &&& d) ||| (c &&& d), 0x8F1BBCDC)
  else (b ^^^ c ^^^ d, 0xCA62C1D6)

/-- One round with the word scheduled for it. -/
def Chain.turn (chain : Chain) (round : Nat) (word : UInt32) : Chain :=
  let (f, k) := mix round chain.b chain.c chain.d
  ⟨rotateLeft chain.a 5 + f + chain.e + k + word, chain.a, rotateLeft chain.b 30, chain.c, chain.d⟩

/-- Runs the last `left` rounds; `window` holds the next sixteen scheduled words. -/
def rounds : Nat → List UInt32 → Chain → Chain
  | 0, _, chain => chain
  | left + 1, window, chain =>
    let next := rotateLeft
      (window.getD 13 0 ^^^ window.getD 8 0 ^^^ window.getD 2 0 ^^^ window.getD 0 0) 1
    rounds left (window.tail ++ [next]) (chain.turn (79 - left) (window.getD 0 0))

/-- Absorbs one block of sixty-four bytes. -/
def Chain.absorb (chain : Chain) (block : Bytes) : Chain :=
  let last := rounds 80 (words block) chain
  ⟨chain.a + last.a, chain.b + last.b, chain.c + last.c, chain.d + last.d, chain.e + last.e⟩

/-- Absorbs `count` blocks from the front of a byte string. -/
def absorbAll : Nat → Chain → Bytes → Chain
  | 0, chain, _ => chain
  | count + 1, chain, bytes => absorbAll count (chain.absorb (bytes.take 64)) (bytes.drop 64)

/-- The chaining words in order, each in four bytes. -/
def Chain.bytes (chain : Chain) : Bytes :=
  [chain.a, chain.b, chain.c, chain.d, chain.e].flatMap fun word => Bytes.ofNat 4 word.toNat

end BitTorrent.Sha1

namespace BitTorrent

/-- The SHA-1 digest of a byte string. -/
def sha1 (message : Bytes) : Digest :=
  let bytes := Sha1.padded message
  let chain := Sha1.absorbAll (bytes.length / 64) Sha1.Chain.initial bytes
  ⟨chain.bytes.toArray, by simp [Sha1.Chain.bytes]⟩

end BitTorrent
