import BitTorrent.Text.Rounded

/-!
A token bucket: bytes may pass at a rate, with one second's worth of burst. Bytes beyond that are
never refused; they are told how long to wait. The rules are stated over any kind of quantity, so
that they can be run in binary64 and reasoned about in exact numbers. Moments are counted in
nanoseconds.
-/

set_option autoImplicit false

namespace BitTorrent

/-- Numbers that bytes, seconds and bytes per second can be counted in. -/
class Quantity (α : Type) where
  ofNat : Nat → α
  /-- A span of nanoseconds in seconds. -/
  seconds : Nat → α
  add : α → α → α
  sub : α → α → α
  mul : α → α → α
  div : α → α → α
  /-- The smaller of two. -/
  least : α → α → α
  isNegative : α → Bool

/-- Exact quantities. -/
instance : Quantity Rat where
  ofNat n := n
  seconds nanoseconds := (nanoseconds : Rat) / 1000000000
  add := (· + ·)
  sub := (· - ·)
  mul := (· * ·)
  div := (· / ·)
  least a b := if a ≤ b then a else b
  isNegative a := a < 0

/-- Quantities in binary64; whole seconds and the rest are converted apart. -/
instance : Quantity Float where
  ofNat := Float.ofNat
  seconds nanoseconds :=
    Float.ofNat (nanoseconds / 1000000000) + Float.ofNat (nanoseconds % 1000000000) / 1000000000
  add := (· + ·)
  sub := (· - ·)
  mul := (· * ·)
  div := (· / ·)
  least a b := if b < a then b else a
  isNegative a := a < 0

/-- A bucket that fills at `rate` tokens a second up to `capacity`, and was last filled at the
moment `updated`. A rate of zero means no limit. -/
structure Bucket (α : Type) where
  rate : Nat
  tokens : α
  capacity : α
  updated : Nat
  deriving Repr

namespace Bucket

open Quantity

variable {α : Type} [Quantity α]

/-- A full bucket. -/
def new (rate now : Nat) : Bucket α :=
  ⟨rate, ofNat rate, ofNat rate, now⟩

/-- Adds the tokens that have come in since the last time. -/
def refill (bucket : Bucket α) (now : Nat) : Bucket α :=
  let earned := mul (seconds (now - bucket.updated)) (ofNat bucket.rate)
  { bucket with tokens := least (add bucket.tokens earned) bucket.capacity, updated := now }

/-- Changes the rate. The tokens earned so far are kept up to the new capacity; a bucket that goes
to or from no limit is full. -/
def setRate (bucket : Bucket α) (now rate : Nat) : Bucket α :=
  let capacity : α := ofNat rate
  let filled := bucket.refill now
  if bucket.rate = 0 ∨ rate = 0 then ⟨rate, capacity, capacity, now⟩
  else ⟨rate, least filled.tokens capacity, capacity, now⟩

def isUnlimited (bucket : Bucket α) : Bool :=
  bucket.rate = 0

/-- Takes tokens for some bytes, more than there are if need be, and gives the seconds to wait
until the debt is paid. -/
def reserve (bucket : Bucket α) (now bytes : Nat) : Bucket α × α :=
  if bucket.rate = 0 then (bucket, ofNat 0)
  else
    let filled := bucket.refill now
    let left := sub filled.tokens (ofNat bytes)
    let debt := if isNegative left then sub (ofNat 0) left else ofNat 0
    ({ filled with tokens := left }, div debt (ofNat bucket.rate))

/-- A wait in whole nanoseconds, a half going to the even neighbour; a wait of 2 ^ 64 seconds or
more cannot be counted. -/
def nanoseconds? (wait : Float) : Option Nat :=
  if wait < 18446744073709551616 then some ((Rounded.Binary.ofFloat wait).scaled 1000000000)
  else none

end Bucket

end BitTorrent
