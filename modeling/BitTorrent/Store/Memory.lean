import BitTorrent.Fault
import BitTorrent.Sha1

/-!
A store that keeps the bytes of a torrent in memory and knows which were ever written. Failures can
be injected for all further reads or writes.
-/

set_option autoImplicit false

namespace BitTorrent

/-- One cell for every byte; a cell that was never written is empty. -/
structure MemoryStore where
  cells : List (Option UInt8)
  failWrites : Option Fault := none
  failReads : Option Fault := none
  deriving DecidableEq, Repr

namespace MemoryStore

/-- A store of a given size with nothing in it. -/
def empty (size : Nat) : MemoryStore :=
  { cells := List.replicate size none }

/-- A store that holds given content. -/
def ofContent (content : Bytes) : MemoryStore :=
  { cells := content.map some }

def size (store : MemoryStore) : Nat :=
  store.cells.length

/-- The byte at a position, if it was written. -/
def byte? (store : MemoryStore) (position : Nat) : Option UInt8 :=
  (store.cells[position]?).join

/-- The content, where a byte that was never written is zero. -/
def contents (store : MemoryStore) : Bytes :=
  store.cells.map (·.getD 0)

/-- Replaces the cells from a position on by data that fits. -/
def splice (cells : List (Option UInt8)) (offset : Nat) (data : Bytes) : List (Option UInt8) :=
  cells.take offset ++ data.map some ++ cells.drop (offset + data.length)

/-- Writes data that is as long as its range. -/
def write (store : MemoryStore) (range : ByteRange) (data : Bytes) : Except Fault MemoryStore :=
  match store.failWrites with
  | some fault => .error fault
  | none =>
    if store.size < range.stop then .error (.store (.beyondStore store.size range))
    else if data.length ≠ range.length then .error (.store (.dataLength range))
    else .ok { store with cells := splice store.cells range.offset data }

/-- The values of cells that are all written. -/
def allWritten? : List (Option UInt8) → Option Bytes
  | cells => if cells.all (·.isSome) then some (cells.map (·.getD 0)) else none

/-- Reads a range whose bytes were all written. -/
def read (store : MemoryStore) (range : ByteRange) : Except Fault Bytes :=
  match store.failReads with
  | some fault => .error fault
  | none =>
    if store.size < range.stop then .error (.store (.beyondStore store.size range))
    else
      match allWritten? ((store.cells.drop range.offset).take range.length) with
      | some data => .ok data
      | none => .error (.store (.unwritten range))

/-- The digest of the bytes of a range. -/
def checksum (store : MemoryStore) (range : ByteRange) : Except Fault Digest :=
  (store.read range).map sha1

end MemoryStore

end BitTorrent
