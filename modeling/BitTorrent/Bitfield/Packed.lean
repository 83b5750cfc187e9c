import BitTorrent.Bytes

/-!
Bits packed in bytes, the first in the highest bit of the first byte. Where fewer bits are meant
than the bytes have, those behind the last one are spare.
-/

set_option autoImplicit false

namespace BitTorrent.Bitfield

/-- The number of bytes that it takes for some bits. -/
def byteCount (size : Nat) : Nat :=
  (size + 7) / 8

/-- A bit alone in its byte. -/
def mask (index : Nat) : UInt8 :=
  0x80 >>> UInt8.ofNat (index % 8)

/-- Whether a bit is set; behind the last byte none is. -/
def bit (bytes : Bytes) (index : Nat) : Bool :=
  bytes.getD (index / 8) 0 &&& mask index != 0

/-- Clears the spare bits of bytes that are just enough. -/
def clearSpare (size : Nat) (bytes : Bytes) : Bytes :=
  let spare := 8 * bytes.length - size
  if 0 < spare then bytes.modify (bytes.length - 1) (· &&& 0xFF <<< UInt8.ofNat spare) else bytes

/-- The eight bits of a byte, the highest first. -/
def unpackByte (byte : UInt8) : List Bool :=
  (List.range 8).map fun i => byte.toNat.testBit (7 - i)

/-- The number of bits of a byte that are set. -/
def popCount (byte : UInt8) : Nat :=
  (unpackByte byte).count true

theorem mask_mod (index : Nat) : mask (index % 8) = mask index := by
  rw [mask, mask, Nat.mod_mod]

theorem and_mask (byte : UInt8) (index : Nat) :
    (byte &&& mask index != 0) = byte.toBitVec.getLsbD (7 - index % 8) := by
  have all : ∀ (byte : Fin 256) (i : Fin 8),
      ((⟨⟨byte⟩⟩ : UInt8) &&& mask i.val != 0) = (⟨byte⟩ : BitVec 8).getLsbD (7 - i.val) := by
    decide +kernel
  rw [← mask_mod]
  exact all byte.toBitVec.toFin ⟨index % 8, Nat.mod_lt _ (by decide)⟩

theorem getLsbD_mask (set index : Nat) :
    (mask set).toBitVec.getLsbD (7 - index % 8) = decide (set % 8 = index % 8) := by
  have all : ∀ i j : Fin 8, (mask i.val).toBitVec.getLsbD (7 - j.val) = decide (i.val = j.val) := by
    decide +kernel
  rw [← mask_mod]
  exact all ⟨set % 8, Nat.mod_lt _ (by decide)⟩ ⟨index % 8, Nat.mod_lt _ (by decide)⟩

/-- Ones shifted to the left by the number of spare bits stand where the others are. -/
theorem getLsbD_kept {spare : Nat} (few : spare < 8) (index : Nat) :
    ((0xFF : UInt8) <<< UInt8.ofNat spare).toBitVec.getLsbD (7 - index % 8) =
      decide (index % 8 + spare < 8) := by
  have all : ∀ i j : Fin 8, ((0xFF : UInt8) <<< UInt8.ofNat i.val).toBitVec.getLsbD (7 - j.val) =
      decide (j.val + i.val < 8) := by
    decide +kernel
  exact all ⟨spare, few⟩ ⟨index % 8, Nat.mod_lt _ (by decide)⟩

theorem getLsbD_not (byte : UInt8) (index : Nat) :
    (~~~byte).toBitVec.getLsbD (7 - index % 8) = !byte.toBitVec.getLsbD (7 - index % 8) := by
  have inside : 7 - index % 8 < 8 := by omega
  rw [UInt8.toBitVec_not, BitVec.getLsbD_not, decide_eq_true inside, Bool.true_and]

theorem bit_eq (bytes : Bytes) (index : Nat) :
    bit bytes index = ((bytes[index / 8]?).getD 0).toBitVec.getLsbD (7 - index % 8) := by
  rw [bit, and_mask, List.getD_eq_getElem?_getD]

theorem bit_of_behind {bytes : Bytes} {index : Nat} (behind : bytes.length ≤ index / 8) :
    bit bytes index = false := by
  rw [bit_eq, List.getElem?_eq_none behind]
  exact BitVec.getLsbD_zero

theorem bit_of_inside {bytes : Bytes} {index : Nat} (inside : index / 8 < bytes.length) :
    bit bytes index = bytes[index / 8].toBitVec.getLsbD (7 - index % 8) := by
  rw [bit_eq, List.getElem?_eq_getElem inside, Option.getD_some]

theorem bit_clear (count index : Nat) : bit (List.replicate count 0) index = false := by
  rw [bit_eq, List.getElem?_replicate]
  split <;> exact BitVec.getLsbD_zero

theorem bit_ones {count index : Nat} (inside : index / 8 < count) :
    bit (List.replicate count 0xFF) index = true := by
  have ones : ∀ i : Fin 8, (0xFF : UInt8).toBitVec.getLsbD (7 - i.val) = true := by decide
  rw [bit_eq, List.getElem?_replicate, if_pos inside]
  exact ones ⟨index % 8, Nat.mod_lt _ (by decide)⟩

/-- Setting a bit leaves all others alone. -/
theorem bit_set {bytes : Bytes} {set : Nat} (inside : set / 8 < bytes.length) (index : Nat) :
    bit (bytes.modify (set / 8) (· ||| mask set)) index =
      (bit bytes index || decide (set = index)) := by
  simp only [bit_eq, List.getElem?_modify, Option.map_eq_map]
  by_cases here : set / 8 = index / 8
  · have same : set % 8 = index % 8 ↔ set = index := by omega
    rw [here] at inside
    simp only [here, ↓reduceIte, List.getElem?_eq_getElem inside, Option.map_some,
      Option.getD_some, UInt8.toBitVec_or, BitVec.getLsbD_or, getLsbD_mask, same]
  · have different : set ≠ index := fun same => here (congrArg (· / 8) same)
    simp only [here, different, ↓reduceIte, Option.map_id', decide_false, Bool.or_false]

theorem bit_without {bytes others : Bytes} (sized : bytes.length = others.length) (index : Nat) :
    bit (List.zipWith (fun mine theirs => mine &&& ~~~theirs) bytes others) index =
      (bit bytes index && !bit others index) := by
  by_cases inside : index / 8 < bytes.length
  · have paired : index / 8 < others.length := sized ▸ inside
    rw [bit_of_inside inside, bit_of_inside paired, bit_eq, List.getElem?_zipWith]
    simp only [List.getElem?_eq_getElem inside, List.getElem?_eq_getElem paired, Option.getD_some,
      UInt8.toBitVec_and, BitVec.getLsbD_and, getLsbD_not]
  · have behind : bytes.length ≤ index / 8 := Nat.not_lt.mp inside
    rw [bit_of_behind behind, Bool.false_and]
    exact bit_of_behind (by rw [List.length_zipWith]; omega)

theorem length_clearSpare (size : Nat) (bytes : Bytes) :
    (clearSpare size bytes).length = bytes.length := by
  unfold clearSpare
  dsimp only
  split
  · exact List.length_modify ..
  · rfl

theorem bit_clearSpare {size : Nat} {bytes : Bytes} (counted : bytes.length = byteCount size)
    (index : Nat) :
    bit (clearSpare size bytes) index = (bit bytes index && decide (index < size)) := by
  rw [byteCount] at counted
  have few : 8 * bytes.length - size < 8 := by omega
  unfold clearSpare
  dsimp only
  by_cases inside : index / 8 < bytes.length
  · split
    · by_cases last : bytes.length - 1 = index / 8
      · -- In the last byte the spare bits are the lowest ones.
        have kept : index % 8 + (8 * bytes.length - size) < 8 ↔ index < size := by omega
        simp only [bit_eq, List.getElem?_modify, last, ↓reduceIte, List.getElem?_eq_getElem inside,
          Option.map_eq_map, Option.map_some, Option.getD_some, UInt8.toBitVec_and,
          BitVec.getLsbD_and, getLsbD_kept few, kept]
      · have before : index < size := by omega
        simp only [bit_eq, List.getElem?_modify, last, ↓reduceIte, Option.map_eq_map,
          Option.map_id', before, decide_true, Bool.and_true]
    · have before : index < size := by omega
      rw [decide_eq_true before, Bool.and_true]
  · have behind : bytes.length ≤ index / 8 := Nat.not_lt.mp inside
    rw [bit_of_behind behind, Bool.false_and]
    split
    · exact bit_of_behind (by rw [List.length_modify]; exact behind)
    · exact bit_of_behind behind

theorem byte_ext {left right : UInt8}
    (same : ∀ i < 8, (left &&& mask i != 0) = (right &&& mask i != 0)) : left = right := by
  apply UInt8.eq_of_toBitVec_eq
  apply BitVec.eq_of_getLsbD_eq
  intro place inside
  have counted : 7 - (7 - place) % 8 = place := by omega
  have agreed := same (7 - place) (by omega)
  rwa [and_mask, and_mask, counted] at agreed

/-- A byte that is not zero has a bit that is set. -/
theorem exists_bit {byte : UInt8} (filled : byte ≠ 0) : ∃ i < 8, (byte &&& mask i != 0) = true := by
  refine Decidable.byContradiction fun none => filled (byte_ext fun i inside => ?_)
  have absent : (byte &&& mask i != 0) = false :=
    Bool.eq_false_iff.mpr fun set => none ⟨i, inside, set⟩
  rw [absent, and_mask]
  exact BitVec.getLsbD_zero.symm

theorem bit_at (bytes : Bytes) (index : Nat) {i : Nat} (inside : i < 8) :
    bit bytes (index * 8 + i) = ((bytes[index]?).getD 0 &&& mask i != 0) := by
  have byte_index : (index * 8 + i) / 8 = index := by omega
  have bit_index : (index * 8 + i) % 8 = i := by omega
  rw [bit, ← mask_mod, byte_index, bit_index, List.getD_eq_getElem?_getD]

theorem eq_of_bit {bytes others : Bytes} (sized : bytes.length = others.length)
    (same : ∀ index, bit bytes index = bit others index) : bytes = others := by
  apply List.ext_getElem sized
  intro index inside paired
  apply byte_ext
  intro i small
  have agreed := same (index * 8 + i)
  rwa [bit_at bytes index small, bit_at others index small, List.getElem?_eq_getElem inside,
    List.getElem?_eq_getElem paired] at agreed

/-- A bit is set where a byte is not zero. -/
theorem exists_bit_iff (bytes : Bytes) :
    (∃ index, bit bytes index = true) ↔ ∃ byte ∈ bytes, byte ≠ 0 := by
  constructor
  · rintro ⟨index, set⟩
    have inside : index / 8 < bytes.length :=
      Nat.lt_of_not_le fun behind => Bool.false_ne_true ((bit_of_behind behind).symm.trans set)
    refine ⟨_, List.getElem_mem inside, fun zero => ?_⟩
    rw [bit_of_inside inside, zero] at set
    exact Bool.false_ne_true (BitVec.getLsbD_zero.symm.trans set)
  · rintro ⟨byte, member, filled⟩
    obtain ⟨index, inside, rfl⟩ := List.getElem_of_mem member
    obtain ⟨i, small, set⟩ := exists_bit filled
    exact ⟨index * 8 + i, by rwa [bit_at bytes index small, List.getElem?_eq_getElem inside]⟩

/-- The bits in a row are those that are found one by one. -/
theorem getElem?_flatMap_unpackByte (bytes : Bytes) (index : Nat) :
    (bytes.flatMap unpackByte)[index]? =
      if index < 8 * bytes.length then some (bit bytes index) else none := by
  induction bytes generalizing index with
  | nil => rfl
  | cons byte rest ih =>
    have width : (unpackByte byte).length = 8 := by
      rw [unpackByte, List.length_map, List.length_range]
    rw [List.flatMap_cons, List.getElem?_append, width, List.length_cons]
    by_cases front : index < 8
    · have inside : index < 8 * (rest.length + 1) := by omega
      have first : index / 8 = 0 := by omega
      have place : index % 8 = index := by omega
      simp only [front, inside, ↓reduceIte, unpackByte, List.getElem?_map, List.getElem?_range,
        Option.map_some, bit_eq, first, place, List.getElem?_cons_zero, Option.getD_some]
      rfl
    · have bound : index - 8 < 8 * rest.length ↔ index < 8 * (rest.length + 1) := by omega
      have next : index / 8 = (index - 8) / 8 + 1 := by omega
      have place : index % 8 = (index - 8) % 8 := by omega
      simp only [front, ↓reduceIte, ih, bound, bit_eq, next, place, List.getElem?_cons_succ]

end BitTorrent.Bitfield
