import BitTorrent.Bitfield

set_option autoImplicit false

namespace BitTorrent.Bitfield

/-! ### Membership -/

theorem lt_size_of_has {field : Bitfield} {piece : Nat} (present : field.has piece = true) :
    piece < field.size := by
  refine Nat.lt_of_not_le fun behind => ?_
  exact Bool.false_ne_true ((field.clear piece behind).symm.trans present)

theorem has_empty (size piece : Nat) : (empty size).has piece = false :=
  bit_clear _ piece

theorem has_ofPacked {size : Nat} {bytes : Bytes} (counted : bytes.length = byteCount size)
    (piece : Nat) :
    (ofPacked size bytes counted).has piece = (bit bytes piece && decide (piece < size)) :=
  bit_clearSpare counted piece

theorem has_full (size piece : Nat) : (full size).has piece = decide (piece < size) := by
  rw [full, has_ofPacked]
  by_cases inside : piece < size
  · have held : piece / 8 < byteCount size := by
      rw [byteCount]
      omega
    rw [bit_ones held, Bool.true_and]
  · rw [decide_eq_false inside, Bool.and_false]

theorem has_insert (field : Bitfield) (added piece : Nat) :
    (field.insert added).has piece =
      (field.has piece || (decide (added = piece) && decide (piece < field.size))) := by
  unfold insert
  split
  · rename_i inside
    change bit (field.bytes.modify (added / 8) (· ||| mask added)) piece = _
    rw [bit_set (field.byte_inside inside)]
    by_cases same : added = piece
    · subst same
      rw [decide_eq_true inside, Bool.and_true]
      rfl
    · rw [decide_eq_false same, Bool.false_and]
      rfl
  · rename_i outside
    by_cases same : added = piece
    · subst same
      rw [decide_eq_false outside, Bool.and_false, Bool.or_false]
    · rw [decide_eq_false same, Bool.false_and, Bool.or_false]

theorem has_difference {field other : Bitfield} (sized : field.size = other.size) (piece : Nat) :
    (field.difference other).has piece = (field.has piece && !other.has piece) := by
  have paired : field.bytes.length = other.bytes.length := by
    rw [field.counted, other.counted, sized]
  rw [difference, difference?, dif_pos sized]
  exact bit_without paired piece

/-- Sets over the same pieces are equal if they have the same ones. -/
theorem ext_has {field other : Bitfield} (sized : field.size = other.size)
    (same : ∀ piece, field.has piece = other.has piece) : field = other := by
  have bytes : field.bytes = other.bytes :=
    eq_of_bit (by rw [field.counted, other.counted, sized]) same
  cases field
  cases other
  dsimp only at sized bytes
  subst sized bytes
  rfl

/-! ### Listing and counting -/

theorem mem_toList (field : Bitfield) (piece : Nat) :
    piece ∈ field.toList ↔ field.has piece = true := by
  simp only [toList, List.mem_flatMap, List.mem_filter, List.mem_map, List.mem_range, Prod.exists,
    List.mem_zipIdx_iff_getElem?]
  constructor
  · rintro ⟨byte, index, ⟨found, -⟩, i, ⟨inside, set⟩, rfl⟩
    rw [has, bit_at field.bytes index inside, found]
    exact set
  · intro present
    have inside := field.byte_inside (lt_size_of_has present)
    have split : piece / 8 * 8 + piece % 8 = piece := by omega
    have set : (field.bytes[piece / 8] &&& mask (piece % 8) != 0) = true := by
      rwa [has, ← split, bit_at field.bytes _ (Nat.mod_lt _ (by decide)),
        List.getElem?_eq_getElem inside] at present
    have filled : (field.bytes[piece / 8] != 0) = true := by
      refine bne_iff_ne.mpr fun zero => ?_
      rw [zero, and_mask] at set
      exact Bool.false_ne_true (BitVec.getLsbD_zero.symm.trans set)
    exact ⟨_, _, ⟨List.getElem?_eq_getElem inside, filled⟩, _,
      ⟨Nat.mod_lt _ (by decide), set⟩, split⟩

/-- The bits of the wire form are those of the pieces, and clear ones behind them. -/
theorem toBytes_unpacked (field : Bitfield) :
    field.toBytes.flatMap unpackByte =
      field.bits ++ List.replicate (8 * byteCount field.size - field.size) false := by
  apply List.ext_getElem?
  intro index
  have width : field.bits.length = field.size := by rw [bits, List.length_map, List.length_range]
  rw [getElem?_flatMap_unpackByte, length_toBytes, List.getElem?_append, width]
  by_cases inside : index < field.size
  · have held : index < 8 * byteCount field.size := by
      rw [byteCount]
      omega
    simp only [inside, held, ↓reduceIte, bits, List.getElem?_map, List.getElem?_range,
      Option.map_some]
    rfl
  · have bound : index - field.size < 8 * byteCount field.size - field.size ↔
        index < 8 * byteCount field.size := by omega
    have spare : bit field.toBytes index = false := field.clear index (Nat.not_lt.mp inside)
    simp only [inside, ↓reduceIte, List.getElem?_replicate, bound, spare]

theorem count_eq (field : Bitfield) : field.count = field.bits.count true := by
  have counted : (field.toBytes.flatMap unpackByte).count true = field.count := by
    rw [List.count_flatMap, List.sum_eq_foldl_nat]
    rfl
  have spare (count : Nat) : (List.replicate count false).count true = 0 := by
    simp only [List.count_replicate, Bool.false_eq_true, ↓reduceIte, beq_iff_eq]
  rw [← counted, toBytes_unpacked, List.count_append, spare, Nat.add_zero]

theorem isFull_iff (field : Bitfield) :
    field.isFull = true ↔ ∀ piece < field.size, field.has piece = true := by
  have width : field.bits.length = field.size := by rw [bits, List.length_map, List.length_range]
  have counted : field.isFull = true ↔ field.bits.count true = field.bits.length := by
    rw [isFull, decide_eq_true_eq, count_eq, width]
  rw [counted, List.count_eq_length, bits, List.forall_mem_map]
  simp only [List.mem_range, eq_comm]

theorem isEmpty_eq_false (field : Bitfield) :
    field.isEmpty = false ↔ ∃ piece, field.has piece = true := by
  change _ ↔ ∃ piece, bit field.bytes piece = true
  simp only [exists_bit_iff, isEmpty, List.all_eq_false, beq_iff_eq, ne_eq]

theorem hasMissingFrom_iff {field other : Bitfield} (sized : field.size = other.size) :
    field.hasMissingFrom other = true ↔
      ∃ piece, field.has piece = true ∧ other.has piece = false := by
  have paired : field.bytes.length = other.bytes.length := by
    rw [field.counted, other.counted, sized]
  let without := List.zipWith (fun mine theirs => mine &&& ~~~theirs) field.bytes other.bytes
  have missing (piece : Nat) :
      bit without piece = (field.has piece && !other.has piece) := bit_without paired piece
  have looked : field.hasMissingFrom other = without.any (· != 0) := by
    rw [hasMissingFrom, show without = _ from (List.map_uncurry_zip_eq_zipWith ..).symm,
      List.any_map]
    rfl
  rw [looked, List.any_eq_true]
  simp only [bne_iff_ne, ← exists_bit_iff, missing, Bool.and_eq_true, Bool.not_eq_true']

/-! ### The wire form -/

theorem ofBytes?_eq_some {size : Nat} {bytes : Bytes} {field : Bitfield} :
    ofBytes? size bytes = some field ↔
      ∃ counted : bytes.length = byteCount size, field = ofPacked size bytes counted := by
  unfold ofBytes?
  split
  · rename_i counted
    simp only [Option.some.injEq, counted, exists_true_left, eq_comm]
  · rename_i short
    simp only [reduceCtorEq, false_iff, not_exists]
    exact fun counted => absurd counted short

theorem size_of_ofBytes? {size : Nat} {bytes : Bytes} {field : Bitfield}
    (read : ofBytes? size bytes = some field) : field.size = size := by
  obtain ⟨_, rfl⟩ := ofBytes?_eq_some.mp read
  rfl

/-- In the wire form the bits behind the last piece are clear. -/
theorem spare_toBytes (field : Bitfield) {i : Nat} (behind : field.size ≤ i) :
    (field.toBytes.flatMap unpackByte).getD i false = false := by
  rw [List.getD_eq_getElem?_getD, getElem?_flatMap_unpackByte]
  split
  · exact field.clear i behind
  · rfl

/-- Who reads the wire form of a set gets the set. -/
theorem ofBytes?_toBytes (field : Bitfield) : ofBytes? field.size field.toBytes = some field := by
  refine ofBytes?_eq_some.mpr ⟨length_toBytes field, ext_has rfl fun piece => ?_⟩
  rw [has_ofPacked]
  change field.has piece = (field.has piece && decide (piece < field.size))
  by_cases inside : piece < field.size
  · rw [decide_eq_true inside, Bool.and_true]
  · rw [decide_eq_false inside, Bool.and_false]
    exact Bool.eq_false_iff.mpr fun present => inside (lt_size_of_has present)

end BitTorrent.Bitfield
