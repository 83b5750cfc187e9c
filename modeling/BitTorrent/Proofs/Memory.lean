import BitTorrent.Store.Memory

set_option autoImplicit false

namespace BitTorrent.MemoryStore

/-- From a position on, the store holds given bytes, all of them written. -/
def Holds (store : MemoryStore) (offset : Nat) (content : Bytes) : Prop :=
  ∀ index < content.length, store.byte? (offset + index) = content[index]?

/-- Bytes between two positions determine what the store holds there. -/
theorem Holds.congr {store other : MemoryStore} {offset : Nat} {content : Bytes}
    (holds : store.Holds offset content)
    (same : ∀ position, offset ≤ position → position < offset + content.length →
      other.byte? position = store.byte? position) : other.Holds offset content := by
  intro index inside
  rw [same (offset + index) (by omega) (by omega)]
  exact holds index inside

theorem Holds.unique {store : MemoryStore} {offset : Nat} {first second : Bytes}
    (holdsFirst : store.Holds offset first) (holdsSecond : store.Holds offset second)
    (sized : first.length = second.length) : first = second := by
  apply List.ext_getElem?
  intro index
  by_cases inside : index < first.length
  · rw [← holdsFirst index inside, holdsSecond index (by omega)]
  · rw [List.getElem?_eq_none (by omega), List.getElem?_eq_none (by omega)]

theorem Holds.slice {store : MemoryStore} {offset : Nat} {content : Bytes}
    (holds : store.Holds offset content) (start length : Nat) :
    store.Holds (offset + start) ((content.drop start).take length) := by
  intro index inside
  simp only [List.length_take, List.length_drop] at inside
  rw [Nat.add_assoc, holds (start + index) (by omega), List.getElem?_take_of_lt (by omega),
    List.getElem?_drop]

theorem length_splice {cells : List (Option UInt8)} {offset : Nat} {data : Bytes}
    (fits : offset + data.length ≤ cells.length) :
    (splice cells offset data).length = cells.length := by
  simp only [splice, List.length_append, List.length_take, List.length_map, List.length_drop]
  omega

theorem getElem?_splice_inside {cells : List (Option UInt8)} {offset position : Nat} {data : Bytes}
    (fits : offset + data.length ≤ cells.length) (lower : offset ≤ position)
    (upper : position < offset + data.length) :
    (splice cells offset data)[position]? = data[position - offset]?.map some := by
  have front : (cells.take offset).length = offset := List.length_take_of_le (by omega)
  rw [splice, List.append_assoc, List.getElem?_append_right (by omega), front,
    List.getElem?_append_left (by rw [List.length_map]; omega), List.getElem?_map]

theorem getElem?_splice_outside {cells : List (Option UInt8)} {offset position : Nat} {data : Bytes}
    (fits : offset + data.length ≤ cells.length)
    (outside : position < offset ∨ offset + data.length ≤ position) :
    (splice cells offset data)[position]? = cells[position]? := by
  have front : (cells.take offset).length = offset := List.length_take_of_le (by omega)
  rcases outside with before | behind
  · rw [splice, List.append_assoc, List.getElem?_append_left (by omega),
      List.getElem?_take_of_lt before]
  · have shift : offset + data.length + (position - (offset + data.length)) = position := by omega
    rw [splice, List.getElem?_append_right
      (by rw [List.length_append, front, List.length_map]; omega), List.length_append, front,
      List.length_map, List.getElem?_drop, shift]

/-- What a write that is accepted leaves behind. -/
theorem write_ok {store after : MemoryStore} {range : ByteRange} {data : Bytes}
    (written : store.write range data = .ok after) :
    data.length = range.length ∧ range.stop ≤ store.size ∧ after.size = store.size ∧
      (∀ position, range.offset ≤ position → position < range.stop →
        after.byte? position = data[position - range.offset]?) ∧
      ∀ position, position < range.offset ∨ range.stop ≤ position →
        after.byte? position = store.byte? position := by
  unfold write at written
  split at written
  · cases written
  · split at written
    · cases written
    · split at written
      · cases written
      · rename_i within exact
        have exact : data.length = range.length := Decidable.not_not.mp exact
        have within : range.stop ≤ store.size := by omega
        have fits : range.offset + data.length ≤ store.cells.length := by
          rw [exact]
          exact within
        cases written
        refine ⟨exact, within, length_splice fits, ?_, ?_⟩
        · intro position lower upper
          change ((splice store.cells range.offset data)[position]?).join = _
          rw [getElem?_splice_inside fits lower (by rw [exact]; exact upper)]
          cases data[position - range.offset]? <;> rfl
        · intro position outside
          change ((splice store.cells range.offset data)[position]?).join = _
          rw [getElem?_splice_outside fits (by rw [exact]; exact outside)]
          rfl

theorem allWritten?_eq_some {cells : List (Option UInt8)} {data : Bytes} :
    allWritten? cells = some data ↔ cells = data.map some := by
  induction cells generalizing data with
  | nil =>
    cases data <;> simp [allWritten?]
  | cons cell rest ih =>
    cases cell with
    | none => cases data <;> simp [allWritten?]
    | some byte =>
      cases data with
      | nil => simp [allWritten?]
      | cons head tail =>
        have tails := @ih tail
        simp only [allWritten?, Option.ite_none_right_eq_some, Option.some.injEq] at tails ⊢
        simp only [List.all_cons, Option.isSome_some, Bool.true_and, List.map_cons,
          Option.getD_some, List.cons.injEq, Option.some.injEq, ← tails]
        constructor
        · rintro ⟨all, rfl, rest⟩
          exact ⟨rfl, all, rest⟩
        · rintro ⟨rfl, all, rest⟩
          exact ⟨all, rfl, rest⟩

/-- A read that succeeds returns the bytes that the store holds in the range. -/
theorem read_ok {store : MemoryStore} {range : ByteRange} {data : Bytes}
    (success : store.read range = .ok data) :
    data.length = range.length ∧ range.stop ≤ store.size ∧ store.Holds range.offset data := by
  unfold read at success
  split at success
  · cases success
  · split at success
    · cases success
    · rename_i within
      split at success
      · rename_i bytes found
        cases success
        rw [allWritten?_eq_some] at found
        have within : range.offset + range.length ≤ store.cells.length := by
          simp only [size, ByteRange.stop] at within
          omega
        have sized : data.length = range.length := by
          have lengths := congrArg List.length found
          simp only [List.length_take, List.length_drop, List.length_map] at lengths
          omega
        refine ⟨sized, within, ?_⟩
        intro index inside
        have cell := congrArg (·[index]?) found
        simp only [List.getElem?_map] at cell
        rw [List.getElem?_take_of_lt (by omega), List.getElem?_drop] at cell
        rw [byte?, cell]
        cases data[index]? <;> rfl
      · cases success

theorem checksum_ok {store : MemoryStore} {range : ByteRange} {digest : Digest}
    (success : store.checksum range = .ok digest) :
    ∃ content : Bytes, content.length = range.length ∧ range.stop ≤ store.size ∧
      store.Holds range.offset content ∧ sha1 content = digest := by
  unfold checksum at success
  cases found : store.read range with
  | error fault => simp [found, Except.map] at success
  | ok content =>
    obtain ⟨sized, within, holds⟩ := read_ok found
    simp only [found, Except.map, Except.ok.injEq] at success
    exact ⟨content, sized, within, holds, success⟩

end BitTorrent.MemoryStore
