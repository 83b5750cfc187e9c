import BitTorrent.Store.Files

/-! Reading a range of a torrent's bytes from files: a read that succeeds gives all of it. -/

set_option autoImplicit false

namespace BitTorrent

/-- Data that is placed inside some content leaves its length as it is. -/
theorem Disk.length_overwrite {content data : Bytes} {offset : Nat}
    (inside : offset + data.length ≤ content.length) :
    (overwrite content offset data).length = content.length := by
  simp only [overwrite, List.length_append, List.length_take, List.length_replicate,
    List.length_drop]
  omega

namespace FileStore

theorem length_readSegment {disk : Disk} {segment : Segment} {part : Bytes}
    (read : readSegment disk segment = .ok part) : part.length = segment.length := by
  unfold readSegment at read
  split at read
  · cases read
  · cases read
  · dsimp only at read
    split at read
    · rename_i whole
      cases read
      exact whole
    · cases read

theorem length_fillBuffer {disk : Disk} {segments : List Segment} {buffer data : Bytes}
    (inside : ∀ segment ∈ segments, segment.rangeOffset + segment.length ≤ buffer.length)
    (filled : fillBuffer disk buffer segments = .ok data) : data.length = buffer.length := by
  induction segments generalizing buffer with
  | nil =>
    cases filled
    rfl
  | cons segment rest ih =>
    unfold fillBuffer at filled
    split at filled
    · cases filled
    · rename_i part read
      have sized := length_readSegment read
      have fits := inside segment List.mem_cons_self
      have same := @Disk.length_overwrite buffer part segment.rangeOffset (sized.symm ▸ fits)
      rw [← same]
      refine ih ?_ filled
      intro other member
      rw [same]
      exact inside other (List.mem_cons_of_mem _ member)

/-- The part of a range that lies in a file lies in the range. -/
theorem segment?_inside {store : FileStore} {range : ByteRange} {file : FileEntry}
    {segment : Segment} (found : store.segment? range file = some segment) :
    segment.rangeOffset + segment.length ≤ range.length := by
  obtain ⟨shared, met, rfl⟩ := Option.map_eq_some_iff.mp found
  unfold ByteRange.meet? at met
  dsimp only at met
  split at met
  · cases met
    simp only [ByteRange.stop] at *
    omega
  · cases met

/-- A read that succeeds gives as many bytes as the range has. -/
theorem length_read {store : FileStore} {disk : Disk} {range : ByteRange} {data : Bytes}
    (read : store.read disk range = .ok data) : data.length = range.length := by
  unfold FileStore.read at read
  split at read
  · cases read
  · rename_i segments located
    have filled := length_fillBuffer ?_ read
    · rw [filled, List.length_replicate]
    · intro segment member
      rw [List.length_replicate]
      unfold FileStore.segments at located
      split at located
      · cases located
      · cases located
        obtain ⟨file, -, found⟩ := List.mem_filterMap.mp member
        exact segment?_inside found

end FileStore

end BitTorrent
