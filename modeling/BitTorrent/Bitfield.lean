import BitTorrent.Bitfield.Packed

/-!
Sets of pieces below a fixed count, kept in their wire form: a bit for each piece, packed in bytes
with the spare bits clear.
-/

set_option autoImplicit false

namespace BitTorrent

/-- A set of pieces below `size`: the bit of each piece says whether it is in the set. -/
structure Bitfield where
  size : Nat
  bytes : Bytes
  counted : bytes.length = Bitfield.byteCount size
  clear : ∀ piece, size ≤ piece → Bitfield.bit bytes piece = false
  deriving DecidableEq, Repr

namespace Bitfield

/-- A set from bytes that are just enough for its pieces; spare bits are ignored. -/
def ofPacked (size : Nat) (bytes : Bytes) (counted : bytes.length = byteCount size) : Bitfield where
  size := size
  bytes := clearSpare size bytes
  counted := (length_clearSpare size bytes).trans counted
  clear piece behind := by
    rw [bit_clearSpare counted, decide_eq_false (Nat.not_lt.mpr behind), Bool.and_false]

/-- No piece. -/
def empty (size : Nat) : Bitfield where
  size := size
  bytes := List.replicate (byteCount size) 0
  counted := List.length_replicate
  clear piece _ := bit_clear _ piece

/-- Every piece. -/
def full (size : Nat) : Bitfield :=
  ofPacked size (List.replicate (byteCount size) 0xFF) List.length_replicate

/-- Whether a piece is in the set; a piece that is out of range is not. -/
def has (field : Bitfield) (piece : Nat) : Bool :=
  bit field.bytes piece

/-- Whether each piece is in the set, in order. -/
def bits (field : Bitfield) : List Bool :=
  (List.range field.size).map field.has

theorem byte_inside (field : Bitfield) {piece : Nat} (inside : piece < field.size) :
    piece / 8 < field.bytes.length := by
  rw [field.counted, byteCount]
  omega

/-- Adds a piece; a piece that is out of range changes nothing. -/
def insert (field : Bitfield) (piece : Nat) : Bitfield :=
  if inside : piece < field.size then
    { size := field.size
      bytes := field.bytes.modify (piece / 8) (· ||| mask piece)
      counted := (List.length_modify ..).trans field.counted
      clear := fun other behind => by
        have different : piece ≠ other := Nat.ne_of_lt (Nat.lt_of_lt_of_le inside behind)
        rw [bit_set (field.byte_inside inside), field.clear other behind,
          decide_eq_false different]
        rfl }
  else field

/-- Membership of a piece that is in range. -/
def get? (field : Bitfield) (piece : Nat) : Option Bool :=
  if piece < field.size then some (field.has piece) else none

/-- Adds a piece that is in range. -/
def insert? (field : Bitfield) (piece : Nat) : Option Bitfield :=
  if piece < field.size then some (field.insert piece) else none

/-- The number of pieces in the set. -/
def count (field : Bitfield) : Nat :=
  (field.bytes.map popCount).foldl (· + ·) 0

/-- Whether every piece is in the set. -/
def isFull (field : Bitfield) : Bool :=
  field.count = field.size

/-- Whether no piece is in the set. -/
def isEmpty (field : Bitfield) : Bool :=
  field.bytes.all (· == 0)

/-- The pieces of one set that another lacks, if both range over the same pieces. -/
def difference? (field other : Bitfield) : Option Bitfield :=
  if sized : field.size = other.size then
    have paired : field.bytes.length = other.bytes.length := by
      rw [field.counted, other.counted, sized]
    some
      { size := field.size
        bytes := List.zipWith (fun mine theirs => mine &&& ~~~theirs) field.bytes other.bytes
        counted := by rw [List.length_zipWith, ← paired, Nat.min_self, field.counted]
        clear := fun piece behind => by
          rw [bit_without paired, field.clear piece behind, Bool.false_and] }
  else none

/-- The pieces of one set that another lacks; none, if they range over different pieces. -/
def difference (field other : Bitfield) : Bitfield :=
  (field.difference? other).getD (empty field.size)

/-- Whether a set has a piece that another lacks. -/
def hasMissingFrom (field other : Bitfield) : Bool :=
  (field.bytes.zip other.bytes).any fun (mine, theirs) => mine &&& ~~~theirs != 0

/-- Whether a set has a piece that another lacks, if both range over the same pieces. -/
def hasMissingFrom? (field other : Bitfield) : Option Bool :=
  if field.size = other.size then some (field.hasMissingFrom other) else none

/-- The pieces of the set in ascending order. -/
def toList (field : Bitfield) : List Nat :=
  (field.bytes.zipIdx.filter fun (byte, _) => byte != 0).flatMap fun (byte, index) =>
    ((List.range 8).filter fun i => byte &&& mask i != 0).map fun i => index * 8 + i

/-- The wire form. -/
def toBytes (field : Bitfield) : Bytes :=
  field.bytes

/-- Reads a wire form of exactly the right size; bits behind the last piece are ignored. -/
def ofBytes? (size : Nat) (bytes : Bytes) : Option Bitfield :=
  if counted : bytes.length = byteCount size then some (ofPacked size bytes counted) else none

@[simp] theorem size_empty (size : Nat) : (empty size).size = size := rfl

@[simp] theorem size_full (size : Nat) : (full size).size = size := rfl

@[simp] theorem size_insert (field : Bitfield) (piece : Nat) :
    (field.insert piece).size = field.size := by
  unfold insert
  split <;> rfl

@[simp] theorem size_difference (field other : Bitfield) :
    (field.difference other).size = field.size := by
  unfold difference difference?
  split <;> rfl

/-- The wire form has one byte for every eight pieces, rounded up. -/
@[simp] theorem length_toBytes (field : Bitfield) :
    field.toBytes.length = byteCount field.size :=
  field.counted

end Bitfield

end BitTorrent
