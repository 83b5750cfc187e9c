import Mathlib.Data.Finset.Card
import BitTorrent.Proofs.Bitfield

/-!
A bitfield is a finite set of pieces: what its bytes are read as, and what every operation on the
bytes comes to.
-/

set_option autoImplicit false

namespace BitTorrent.Bitfield

variable {field other : Bitfield} {size piece : Nat} {bytes : Bytes}

/-- The pieces below `size` whose bit is set, counted from the highest bit of the first byte. -/
def setBits (size : Nat) (bytes : Bytes) : Finset Nat :=
  {piece ∈ Finset.range size | (bytes.flatMap unpackByte)[piece]? = some true}

/-- The pieces of a set, read off its wire form. -/
def members (field : Bitfield) : Finset Nat :=
  setBits field.size field.toBytes

theorem mem_setBits (counted : bytes.length = byteCount size) :
    piece ∈ setBits size bytes ↔ bit bytes piece = true ∧ piece < size := by
  rw [setBits, Finset.mem_filter, Finset.mem_range, getElem?_flatMap_unpackByte, and_comm]
  refine and_congr_left fun inside => ?_
  have held : piece < 8 * bytes.length := by
    rw [counted, byteCount]
    omega
  rw [if_pos held, Option.some.injEq]

@[simp] theorem mem_members : piece ∈ field.members ↔ field.has piece = true := by
  rw [members, mem_setBits (length_toBytes field)]
  exact and_iff_left_of_imp lt_size_of_has

theorem members_ofPacked (counted : bytes.length = byteCount size) :
    (ofPacked size bytes counted).members = setBits size bytes := by
  ext piece
  rw [mem_members, has_ofPacked, Bool.and_eq_true, decide_eq_true_eq, mem_setBits counted]

theorem members_empty (size : Nat) : (empty size).members = ∅ := by
  ext piece
  rw [mem_members, has_empty]
  simp only [Bool.false_eq_true, Finset.notMem_empty]

theorem members_full (size : Nat) : (full size).members = Finset.range size := by
  ext piece
  rw [mem_members, has_full, decide_eq_true_eq, Finset.mem_range]

theorem members_insert (inside : piece < field.size) :
    (field.insert piece).members = Insert.insert piece field.members := by
  ext other
  rw [mem_members, has_insert, Finset.mem_insert, mem_members]
  simp only [Bool.or_eq_true, Bool.and_eq_true, decide_eq_true_eq]
  constructor
  · rintro (held | ⟨same, -⟩)
    · exact Or.inr held
    · exact Or.inl same.symm
  · rintro (rfl | held)
    · exact Or.inr ⟨rfl, inside⟩
    · exact Or.inl held

theorem members_difference (sized : field.size = other.size) :
    (field.difference other).members = field.members \ other.members := by
  ext piece
  rw [mem_members, has_difference sized, Finset.mem_sdiff, mem_members, mem_members,
    Bool.and_eq_true, Bool.not_eq_true', Bool.not_eq_true]

theorem members_subset (field : Bitfield) : field.members ⊆ Finset.range field.size :=
  Finset.filter_subset _ _

/-- Sets over the same pieces are equal if they have the same members. -/
theorem eq_iff_members :
    field = other ↔ field.size = other.size ∧ field.members = other.members := by
  constructor
  · rintro rfl
    exact ⟨rfl, rfl⟩
  · rintro ⟨sized, same⟩
    refine ext_has sized fun piece => Bool.eq_iff_iff.mpr ?_
    rw [← mem_members, ← mem_members, same]

theorem count_eq_card (field : Bitfield) : field.count = field.members.card := by
  have counted : field.count = ((List.range field.size).filter field.has).length := by
    rw [count_eq, bits, List.count_eq_countP, List.countP_map, ← List.countP_eq_length_filter]
    exact List.countP_congr fun piece _ => by simp only [Function.comp_apply, beq_iff_eq]
  have listed : ((List.range field.size).filter field.has).toFinset = field.members := by
    ext piece
    rw [List.mem_toFinset, List.mem_filter, List.mem_range, mem_members]
    exact and_iff_right_of_imp lt_size_of_has
  rw [counted, ← listed, List.toFinset_card_of_nodup (List.nodup_range.filter _)]

theorem isEmpty_iff_members : field.isEmpty = true ↔ field.members = ∅ := by
  rw [← Bool.not_eq_false, isEmpty_eq_false, Finset.eq_empty_iff_forall_notMem]
  simp only [mem_members, not_exists]

theorem isFull_iff_members : field.isFull = true ↔ field.members = Finset.range field.size := by
  rw [isFull_iff, Finset.Subset.antisymm_iff, and_iff_right field.members_subset]
  simp only [Finset.subset_iff, Finset.mem_range, mem_members]

theorem hasMissingFrom_iff_members (sized : field.size = other.size) :
    field.hasMissingFrom other = true ↔ (field.members \ other.members).Nonempty := by
  rw [hasMissingFrom_iff sized, Finset.Nonempty]
  simp only [Finset.mem_sdiff, mem_members, Bool.not_eq_true]

/-- The bytes are listed in order, and so are the bits of each. -/
theorem toList_ascending (field : Bitfield) : field.toList.Pairwise (· < ·) := by
  have bytes : field.bytes.zipIdx.Pairwise fun first second => first.2 < second.2 := by
    rw [← List.pairwise_map (f := Prod.snd), List.zipIdx_map_snd]
    exact List.pairwise_lt_range'
  unfold toList
  rw [List.pairwise_flatMap]
  constructor
  · rintro ⟨byte, index⟩ -
    rw [List.pairwise_map]
    exact (List.pairwise_lt_range.filter _).imp fun before => Nat.add_lt_add_left before _
  · refine (bytes.filter _).imp ?_
    rintro ⟨first, i⟩ ⟨second, j⟩ before piece inFirst later inSecond
    obtain ⟨low, inside, rfl⟩ := List.mem_map.mp inFirst
    obtain ⟨high, -, rfl⟩ := List.mem_map.mp inSecond
    have small := List.mem_range.mp (List.mem_filter.mp inside).1
    dsimp only at before
    omega

theorem toFinset_toList (field : Bitfield) : field.toList.toFinset = field.members := by
  ext piece
  rw [List.mem_toFinset, mem_toList, mem_members]

/-- What the operations on the bytes of a set are to the set of its pieces. -/
structure Refines (field : Bitfield) : Prop where
  bytes : field.toBytes.length = (field.size + 7) / 8
  spare : ∀ i, field.size ≤ i → i < 8 * field.toBytes.length →
    (field.toBytes.flatMap unpackByte)[i]? = some false
  membership : ∀ piece < field.size, field.get? piece = some (decide (piece ∈ field.members))
  insertion : ∀ piece < field.size, ∃ added, field.insert? piece = some added ∧
    added.size = field.size ∧ added.members = Insert.insert piece field.members
  cardinality : field.count = field.members.card
  emptiness : field.isEmpty = true ↔ field.members = ∅
  fullness : field.isFull = true ↔ field.members = Finset.range field.size
  difference : ∀ other, field.size = other.size → ∃ rest, field.difference? other = some rest ∧
    rest.size = field.size ∧ rest.members = field.members \ other.members
  missing : ∀ other, field.size = other.size →
    field.hasMissingFrom? other = some (decide (field.members \ other.members).Nonempty)
  listing : field.toList.Pairwise (· < ·) ∧ field.toList.toFinset = field.members
  equality : ∀ other, (field == other) = decide (field.size = other.size ∧
    field.members = other.members)
  reading : ofBytes? field.size field.toBytes = some field

theorem refines (field : Bitfield) : field.Refines where
  bytes := length_toBytes field
  spare i behind inside := by
    rw [getElem?_flatMap_unpackByte, if_pos inside, toBytes, field.clear i behind]
  membership piece inside := by
    rw [get?, if_pos inside]
    simp only [mem_members, Bool.decide_eq_true]
  insertion piece inside :=
    ⟨field.insert piece, if_pos inside, size_insert field piece, members_insert inside⟩
  cardinality := field.count_eq_card
  emptiness := isEmpty_iff_members
  fullness := isFull_iff_members
  difference other sized := by
    have some_difference : field.difference? other = some (field.difference other) := by
      rw [difference, difference?, dif_pos sized, Option.getD_some]
    exact ⟨_, some_difference, size_difference field other, members_difference sized⟩
  missing other sized := by
    rw [hasMissingFrom?, if_pos sized, Option.some.injEq, Bool.eq_iff_iff,
      hasMissingFrom_iff_members sized, decide_eq_true_eq]
  listing := ⟨field.toList_ascending, field.toFinset_toList⟩
  equality other := by
    rw [Bool.eq_iff_iff, beq_iff_eq, decide_eq_true_eq, eq_iff_members]
  reading := field.ofBytes?_toBytes

/-- Bytes are a set if they are just enough for its pieces, whatever their spare bits. The set
without a piece, that with every piece and those read from bytes have the pieces that they should,
and on every set the operations on bytes are those on the finite set of its pieces. -/
theorem refines_finset (size : Nat) :
    ((empty size).size = size ∧ (empty size).members = ∅) ∧
    ((full size).size = size ∧ (full size).members = Finset.range size) ∧
    (∀ bytes, (ofBytes? size bytes).map (fun field => (field.size, field.members)) =
      if bytes.length = (size + 7) / 8 then some (size, setBits size bytes) else none) ∧
    ∀ field : Bitfield, field.Refines := by
  refine ⟨⟨rfl, members_empty size⟩, ⟨rfl, members_full size⟩, fun bytes => ?_, refines⟩
  by_cases counted : bytes.length = byteCount size
  · rw [ofBytes?, dif_pos counted, Option.map_some, members_ofPacked counted]
    exact (if_pos counted).symm
  · rw [ofBytes?, dif_neg counted]
    exact (if_neg counted).symm

/-- Ten pieces of two bytes of ones: six spare bits are ignored. -/
theorem refines_finset_ones :
    ∃ field, ofBytes? 10 [0xFF, 0xFF] = some field ∧ field.toBytes = [0xFF, 0xC0] ∧
      field.members = Finset.range 10 ∧ field.count = 10 := by
  obtain ⟨-, -, read, refined⟩ := refines_finset 10
  obtain ⟨field, found, held⟩ := Option.map_eq_some_iff.mp ((read [0xFF, 0xFF]).trans (if_pos rfl))
  have members : field.members = Finset.range 10 := (Prod.mk.inj held).2.trans (by decide)
  refine ⟨field, found, ?_, members, ?_⟩
  · cases found
    rfl
  · rw [(refined field).cardinality, members, Finset.card_range]

end BitTorrent.Bitfield
