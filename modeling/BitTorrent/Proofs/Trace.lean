import Mathlib.Logic.Function.Basic
import BitTorrent.Proofs.Backed

/-!
What a series of writes leaves behind: at each place the byte that was put there last. A store in
memory gives back just that, and refuses a range with a byte that was never put there.
-/

set_option autoImplicit false

namespace BitTorrent

/-- Writes in the order in which they are carried out. -/
abbrev Trace := List (ByteRange × Bytes)

namespace Trace

variable {Place : Type} [DecidableEq Place] {place : Nat → Place} {known : Place → Option UInt8}
  {key : Place} {start position index : Nat} {data : Bytes} {trace : Trace}

/-- Data that is put down from a position on, each byte at the place that keeps its position. -/
def lay (place : Nat → Place) : Nat → Bytes → (Place → Option UInt8) → Place → Option UInt8
  | _, [], known => known
  | start, byte :: rest, known =>
    lay place (start + 1) rest (Function.update known (place start) (some byte))

/-- What is at each place behind a series of writes. -/
def replay (place : Nat → Place) (trace : Trace) (known : Place → Option UInt8) :
    Place → Option UInt8 :=
  trace.foldl (fun known write => lay place write.1.offset write.2 known) known

/-- The byte that a series of writes put at each place last, if any did. -/
def last (place : Nat → Place) (trace : Trace) : Place → Option UInt8 :=
  replay place trace fun _ => none

/-- Some write put a byte at a position. -/
def Covers (trace : Trace) (position : Nat) : Prop :=
  ∃ write ∈ trace, write.1.offset ≤ position ∧ position < write.1.offset + write.2.length

/-! ### One write -/

theorem lay_append (front back : Bytes) :
    lay place start (front ++ back) known =
      lay place (start + front.length) back (lay place start front known) := by
  induction front generalizing start known with
  | nil => rfl
  | cons byte rest ih =>
    have next : start + (rest.length + 1) = start + 1 + rest.length := by omega
    rw [List.cons_append, lay, lay, ih, List.length_cons, next]

theorem lay_unused (unused : ∀ index < data.length, place (start + index) ≠ key) :
    lay place start data known key = known key := by
  induction data generalizing start known with
  | nil => rfl
  | cons byte rest ih =>
    have first : key ≠ place start := Ne.symm (unused 0 (Nat.zero_lt_succ _))
    rw [lay, ih, Function.update_of_ne first]
    intro index inside
    have next : start + 1 + index = start + (index + 1) := by omega
    rw [next]
    exact unused (index + 1) (Nat.succ_lt_succ inside)

/-- A place that keeps just one of the positions gets the byte of that position. -/
theorem lay_used (inside : index < data.length) (here : place (start + index) = key)
    (only : ∀ other < data.length, place (start + other) = key → other = index) :
    lay place start data known key = data[index]? := by
  induction data generalizing start known index with
  | nil => cases inside
  | cons byte rest ih =>
    have shift : ∀ other, start + 1 + other = start + (other + 1) := by omega
    cases index with
    | zero =>
      rw [lay, lay_unused]
      · rw [← here]
        exact Function.update_self ..
      · intro other within same
        rw [shift] at same
        cases only (other + 1) (Nat.succ_lt_succ within) same
    | succ index =>
      rw [lay, List.getElem?_cons_succ]
      refine ih (Nat.lt_of_succ_lt_succ inside) ?_ ?_
      · rw [shift]
        exact here
      · intro other within same
        rw [shift] at same
        exact Nat.succ.inj (only (other + 1) (Nat.succ_lt_succ within) same)

/-- What is laid down counts at a place that keeps one position only. -/
theorem lay_eq (alone : ∀ index < data.length, place (start + index) = place position →
      start + index = position) :
    lay place start data known (place position) =
      if start ≤ position ∧ position < start + data.length then data[position - start]?
      else known (place position) := by
  split
  · rename_i inside
    have here : start + (position - start) = position := Nat.add_sub_of_le inside.1
    refine lay_used (by omega) (congrArg place here) fun other within same => ?_
    have single := alone other within same
    omega
  · rename_i outside
    refine lay_unused fun index within same => outside ?_
    have single := alone index within same
    omega

theorem isSome_lay :
    (lay place start data known key).isSome ↔
      (known key).isSome ∨ ∃ index < data.length, place (start + index) = key := by
  induction data generalizing start known with
  | nil => simp [lay]
  | cons byte rest ih =>
    have shift : ∀ index, start + 1 + index = start + (index + 1) := by omega
    rw [lay, ih, List.length_cons]
    constructor
    · rintro (before | ⟨index, inside, same⟩)
      · by_cases first : key = place start
        · exact Or.inr ⟨0, Nat.zero_lt_succ _, first.symm⟩
        · rw [Function.update_of_ne first] at before
          exact Or.inl before
      · rw [shift] at same
        exact Or.inr ⟨index + 1, Nat.succ_lt_succ inside, same⟩
    · rintro (before | ⟨index, inside, same⟩)
      · left
        by_cases first : key = place start
        · rw [first, Function.update_self]
          rfl
        · rw [Function.update_of_ne first]
          exact before
      · cases index with
        | zero =>
          left
          rw [← same, Nat.add_zero, Function.update_self]
          rfl
        | succ index =>
          rw [← shift] at same
          exact Or.inr ⟨index, Nat.lt_of_succ_lt_succ inside, same⟩

/-! ### A series of writes -/

theorem replay_cons (range : ByteRange) (data : Bytes) (trace : Trace) :
    replay place ((range, data) :: trace) known =
      replay place trace (lay place range.offset data known) :=
  rfl

theorem isSome_replay :
    (replay place trace known key).isSome ↔
      (known key).isSome ∨ ∃ position, trace.Covers position ∧ place position = key := by
  induction trace generalizing known with
  | nil => simp [replay, Covers]
  | cons write rest ih =>
    obtain ⟨range, data⟩ := write
    rw [replay_cons, ih, isSome_lay, or_assoc]
    refine or_congr Iff.rfl ?_
    constructor
    · rintro (⟨index, inside, same⟩ | ⟨position, ⟨write, member, among⟩, same⟩)
      · exact ⟨range.offset + index, ⟨_, List.mem_cons_self, by dsimp only; omega⟩, same⟩
      · exact ⟨position, ⟨write, List.mem_cons_of_mem _ member, among⟩, same⟩
    · rintro ⟨position, ⟨write, member, lower, upper⟩, same⟩
      rcases List.mem_cons.mp member with rfl | later
      · dsimp only at lower upper
        refine Or.inl ⟨position - range.offset, by omega, ?_⟩
        rw [Nat.add_sub_of_le lower, same]
      · exact Or.inr ⟨position, ⟨write, later, lower, upper⟩, same⟩

/-- A byte was put at the place of every position that is covered, and nowhere else. -/
theorem isSome_last :
    (trace.last place key).isSome ↔ ∃ position, trace.Covers position ∧ place position = key := by
  simp [last, isSome_replay]

/-- Where a place keeps one position only, positions tell places apart. -/
theorem last_eq (alone : ∀ other, trace.Covers other → place other = place position →
      other = position) : trace.last place (place position) = trace.last id position := by
  -- The induction carries what was known before, which need only agree at the position.
  suffices agree : ∀ (known : Place → Option UInt8) (before : Nat → Option UInt8),
      known (place position) = before position →
        replay place trace known (place position) = replay id trace before position from
    agree _ _ rfl
  induction trace with
  | nil => exact fun known before same => same
  | cons write rest ih =>
    obtain ⟨range, data⟩ := write
    intro known before same
    have here : ∀ index < data.length, place (range.offset + index) = place position →
        range.offset + index = position := fun index inside =>
      alone _ ⟨_, List.mem_cons_self, by dsimp only; omega⟩
    have later : ∀ other, Covers rest other → place other = place position → other = position :=
      fun other ⟨write, member, among⟩ => alone other ⟨write, List.mem_cons_of_mem _ member, among⟩
    rw [replay_cons, replay_cons]
    refine ih later _ _ ?_
    have plain := @lay_eq Nat _ id before range.offset position data fun _ _ same => same
    rw [lay_eq here, same]
    exact plain.symm

end Trace

/-! ### Memory -/

namespace MemoryStore

variable {store before after : MemoryStore} {range : ByteRange} {data : Bytes} {trace : Trace}

/-- One store becomes another by writes that all succeed. -/
inductive Writes : MemoryStore → Trace → MemoryStore → Prop
  | nil (store : MemoryStore) : Writes store [] store
  | cons {before middle after : MemoryStore} {range : ByteRange} {data : Bytes} {trace : Trace}
      (written : before.write range data = .ok middle) (rest : Writes middle trace after) :
      Writes before ((range, data) :: trace) after

theorem write_eq_lay (written : before.write range data = .ok after) :
    after.byte? = Trace.lay id range.offset data before.byte? := by
  obtain ⟨exact, -, -, inside, outside⟩ := write_ok written
  have ends : range.stop = range.offset + data.length := by rw [exact]; rfl
  funext position
  refine Eq.trans ?_ (@Trace.lay_eq Nat _ id _ _ position _ fun _ _ same => same).symm
  split
  · rename_i among
    exact inside position among.1 (by omega)
  · exact outside position (by omega)

theorem Writes.byte?_eq (writes : before.Writes trace after) :
    after.byte? = Trace.replay id trace before.byte? := by
  induction writes with
  | nil store => rfl
  | cons written rest ih => rw [ih, write_eq_lay written, Trace.replay_cons]

theorem Writes.kept (writes : before.Writes trace after) :
    after.size = before.size ∧ after.failReads = before.failReads := by
  induction writes with
  | nil store => exact ⟨rfl, rfl⟩
  | cons written rest ih =>
    obtain ⟨-, -, sized, -⟩ := write_ok written
    exact ⟨ih.1.trans sized, ih.2.trans (write_failReads written)⟩

theorem byte?_empty (size : Nat) : (empty size).byte? = fun _ => none := by
  funext position
  simp only [byte?, empty, List.getElem?_replicate]
  split <;> rfl

/-- A store that is new can read a range exactly if each of its bytes was written, and then gives
what was written last. -/
theorem Writes.read {size : Nat} (writes : (empty size).Writes trace after)
    (within : range.stop ≤ size) :
    ((∃ data, after.read range = .ok data) ↔
      ∀ position, range.offset ≤ position → position < range.stop → trace.Covers position) ∧
    ∀ data, after.read range = .ok data → data.length = range.length ∧
      ∀ index < range.length, trace.last id (range.offset + index) = data[index]? := by
  have bytes : after.byte? = trace.last id := by
    rw [writes.byte?_eq, byte?_empty]
    rfl
  obtain ⟨sized, readable⟩ := writes.kept
  have covered : after.Covers range ↔
      ∀ position, range.offset ≤ position → position < range.stop → trace.Covers position := by
    simp [Covers, bytes, Trace.isSome_last]
  rw [← covered]
  refine ⟨⟨?_, fun covers => ?_⟩, fun data found => ?_⟩
  · rintro ⟨data, found⟩
    obtain ⟨exact, -, holds⟩ := read_ok found
    exact holds.covers exact
  · refine covers.read ?_ readable
    rw [sized, MemoryStore.size, empty, List.length_replicate]
    exact within
  · obtain ⟨exact, -, holds⟩ := read_ok found
    refine ⟨exact, fun index inside => ?_⟩
    rw [← bytes]
    exact holds index (exact ▸ inside)

/-- Content that a store is given at first is as good as written. -/
theorem write_ofContent (content : Bytes) :
    (empty content.length).write ⟨0, content.length⟩ content = .ok (ofContent content) := by
  simp [write, empty, ofContent, size, ByteRange.stop, splice]

/-- A store that is given some content at first can read every range. -/
theorem Writes.read_ofContent {content : Bytes} (writes : (ofContent content).Writes trace after)
    (within : range.stop ≤ content.length) :
    ∃ data, after.read range = .ok data ∧ data.length = range.length ∧
      ∀ index < range.length, Trace.last id ((⟨0, content.length⟩, content) :: trace)
        (range.offset + index) = data[index]? := by
  obtain ⟨readable, given⟩ := (Writes.cons (write_ofContent content) writes).read within
  have covered : ∀ position, range.offset ≤ position → position < range.stop →
      Trace.Covers ((⟨0, content.length⟩, content) :: trace) position := by
    intro position _ upper
    exact ⟨_, List.mem_cons_self, Nat.zero_le _, by dsimp only; omega⟩
  obtain ⟨data, read⟩ := readable.mpr covered
  exact ⟨data, read, given data read⟩

end MemoryStore

end BitTorrent
