import BitTorrent.Proofs.Codec
import BitTorrent.Proofs.Redundancy

/-!
Whether two engines understand each other's greeting, the set of complete pieces that either sends
first. The set takes a byte for eight pieces, and nothing bounds the number of pieces of a torrent;
the frames that an engine accepts are bounded by its settings, which only have to leave room for a
block. So a greeting is understood exactly if it is not too long for whoever is greeted.
-/

set_option autoImplicit false

namespace BitTorrent

/-- A session whose connection takes payloads of at most `limit` bytes reads a stream as one
message, which is this event for it. -/
def Session.Takes (session : Session) (limit now : Nat) (stream : Bytes) (event : Event)
    (later : Session) : Prop :=
  ∃ length message, Framing.readMessage limit stream = (.payload length (.ok message), []) ∧
    session.receive now message = (later, .ok event)

/-- The bytes of the greeting in a torrent of some pieces, without the length in front. -/
def greetingLength (pieces : Nat) : Nat :=
  1 + Bitfield.byteCount pieces

theorem length_greeting (field : Bitfield) :
    (Message.bitfield field.toBytes).payload.length = greetingLength field.size := by
  rw [greetingLength, ← Bitfield.length_toBytes, Nat.add_comm]
  rfl

variable {session later : Session} {field : Bitfield} {limit now : Nat} {event : Event}

/-- A set of pieces of the right size is taken over. -/
theorem Session.receive_bitfield_ok (isOpen : session.phase.isOpen = true)
    (sized : session.bitfield.size = field.size) :
    session.receive now (.bitfield field.toBytes) =
      ({ session with phase := .active, lastReceived := now, bitfield := field },
        .ok .bitfield) := by
  have read : Bitfield.ofBytes? session.bitfield.size field.toBytes = some field := by
    rw [sized, Bitfield.ofBytes?_toBytes]
  simp only [receive, isOpen, ↓reduceIte, apply, read]

/-- A set of pieces is read exactly if its frame is within the limit, and can be written. -/
theorem Session.takes_bitfield (isOpen : session.phase.isOpen = true)
    (sized : session.bitfield.size = field.size) :
    session.Takes limit now (Message.bitfield field.toBytes).encode event later ↔
      (greetingLength field.size ≤ limit ∧ greetingLength field.size < Word.bound32) ∧
        event = .bitfield ∧
        later = { session with phase := .active, lastReceived := now, bitfield := field } := by
  have reads : greetingLength field.size ≤ limit → greetingLength field.size < Word.bound32 →
      Framing.readMessage limit (Message.bitfield field.toBytes).encode =
        (.payload (greetingLength field.size) (.ok (.bitfield field.toBytes)), []) := by
    intro within narrow
    rw [← length_greeting] at within narrow ⊢
    have fits : (Message.bitfield field.toBytes).Fits := trivial
    have read := Framing.readMessage_encode fits narrow within []
    rwa [List.append_nil] at read
  have received := @receive_bitfield_ok session field now isOpen sized
  constructor
  · rintro ⟨length, message, read, outcome⟩
    obtain ⟨spelled, counted⟩ := Framing.readMessage_ok read
    have same := congrArg List.length spelled
    rw [List.append_nil, Framing.length_encode, Framing.length_encode, Framing.frameLength,
      Framing.frameLength, length_greeting, ← counted] at same
    obtain ⟨within, narrow⟩ := Framing.readMessage_within read
    rw [← Nat.add_left_cancel same] at within narrow
    cases (reads within narrow).symm.trans read
    cases received.symm.trans outcome
    exact ⟨⟨within, narrow⟩, rfl, rfl⟩
  · rintro ⟨⟨within, narrow⟩, rfl, rfl⟩
    exact ⟨_, _, reads within narrow, received⟩

/-- Every engine accepts the frame of a block. -/
theorem Settings.le_maxFrameLength {settings : Settings} (valid : settings.validate = .ok ()) :
    blockSize + 9 ≤ settings.maxFrameLength := by
  unfold validate at valid
  repeat' split at valid
  all_goals first
    | cases valid; done
    | omega

/-- The greeting is the only thing that a turn says when both handshakes are exchanged. -/
theorem Turn.frames_greet (worker : Worker) (download : Download) :
    Framing.frames (worker.turn download).greet.outbox =
      (Message.bitfield download.holdings.completed.toBytes).encode :=
  List.append_nil _

theorem readMessage_greeting_long (worker : Worker) {download : Download}
    (beyond : limit < greetingLength download.holdings.completed.size)
    (narrow : greetingLength download.holdings.completed.size < Word.bound32) :
    Framing.readMessage limit (Framing.frames (worker.turn download).greet.outbox) =
      (.failed (.fault (.violation
        (.frameTooLarge (greetingLength download.holdings.completed.size) limit))),
        (Message.bitfield download.holdings.completed.toBytes).payload) := by
  rw [Turn.frames_greet]
  rw [← length_greeting] at beyond narrow ⊢
  have read := Framing.readMessage_encode_long narrow beyond []
  rwa [List.append_nil, List.append_nil] at read

namespace Sample

/-- A torrent whose pieces are single bytes. -/
def grains (count : Nat) : Metainfo :=
  .ofFiles (sha1 []) "grains" 1 (List.replicate count (sha1 [])) [("grains", count)]

/-- The settings that accept the shortest frames. -/
def narrow : Settings :=
  { maxFrameLength := 16393 }

theorem ofMetainfo_grains (count : Nat) :
    ∃ torrent, Torrent.ofMetainfo (grains count) = .ok torrent ∧ torrent.pieceCount = count := by
  have valid : (grains count).validate = .ok () := by
    simp [Metainfo.validate, grains, Metainfo.ofFiles, Metainfo.lengthSum, Metainfo.placeFiles,
      Metainfo.checkFiles, FileEntry.stop, Metainfo.chunkCount]
  have filled : (Torrent.layOut (grains count)).any (·.length = 0) = false := by
    rw [List.any_eq_false]
    intro piece member
    obtain ⟨⟨hash, index⟩, inside, rfl⟩ := List.mem_map.mp member
    have below := (List.mem_zipIdx inside).2.1
    simp [grains, Metainfo.ofFiles, Metainfo.lengthSum] at below ⊢
    omega
  have counted : (Torrent.layOut (grains count)).length = count := by
    simp [Torrent.layOut, grains, Metainfo.ofFiles]
  simp only [Torrent.ofMetainfo, valid, filled, Bool.false_eq_true, ↓reduceIte]
  exact ⟨_, rfl, counted⟩

end Sample

/-- Whatever an engine has of a torrent, another engine for the same torrent understands its
greeting exactly if the payload, one byte and another for every eight pieces, is not longer than the
other accepts and its length can be written; it learns from it what is there. A longer greeting is
refused for its length. With up to 131136 pieces, all engines that can run understand each other. -/
theorem greeting_taken_iff (torrent : Torrent) (ours theirs : Settings) (selector : Selector)
    (ownId : PeerId) (draws : List Nat) (stretches : List Stretch) (worker : Worker)
    (session : Session) (now : Nat) (isOpen : session.phase.isOpen = true)
    (sized : session.bitfield.size = torrent.pieceCount) :
    let download := ((Crowd.start torrent ours selector ownId draws).run stretches).download
    let stream := Framing.frames (worker.turn download).greet.outbox
    let taken := session.Takes theirs.maxFrameLength now stream
    ((∃ event later, taken event later) ↔
      greetingLength torrent.pieceCount ≤ theirs.maxFrameLength ∧
        greetingLength torrent.pieceCount < Word.bound32) ∧
    (∀ event later, taken event later →
      event = .bitfield ∧ later.bitfield = download.holdings.completed) ∧
    (theirs.maxFrameLength < greetingLength torrent.pieceCount →
      greetingLength torrent.pieceCount < Word.bound32 →
      (Framing.readMessage theirs.maxFrameLength stream).1 = .failed (.fault (.violation
        (.frameTooLarge (greetingLength torrent.pieceCount) theirs.maxFrameLength)))) ∧
    (theirs.validate = .ok () → torrent.pieceCount ≤ 131136 →
      ∃ later, taken .bitfield later) := by
  intro download stream taken
  have start := Crowd.start_sound torrent ours selector ownId draws
  have size : download.holdings.completed.size = torrent.pieceCount :=
    (start.run stretches).sized.trans (congrArg Torrent.pieceCount (start.run_torrent stretches))
  have takes : ∀ event later, taken event later ↔
      (greetingLength torrent.pieceCount ≤ theirs.maxFrameLength ∧
        greetingLength torrent.pieceCount < Word.bound32) ∧ event = .bitfield ∧
        later = { session with
          phase := .active, lastReceived := now, bitfield := download.holdings.completed } := by
    intro event later
    rw [← size]
    change session.Takes _ _ (Framing.frames (worker.turn download).greet.outbox) _ _ ↔ _
    rw [Turn.frames_greet]
    exact Session.takes_bitfield isOpen (sized.trans size.symm)
  refine ⟨⟨?_, ?_⟩, ?_, ?_, ?_⟩
  · rintro ⟨event, later, taken⟩
    exact ((takes event later).mp taken).1
  · intro within
    exact ⟨_, _, (takes _ _).mpr ⟨within, rfl, rfl⟩⟩
  · intro event later taken
    obtain ⟨-, rfl, rfl⟩ := (takes event later).mp taken
    exact ⟨rfl, rfl⟩
  · intro beyond narrow
    rw [← size] at beyond narrow ⊢
    exact congrArg Prod.fst (readMessage_greeting_long worker beyond narrow)
  · intro valid few
    have room := Settings.le_maxFrameLength valid
    have short : greetingLength torrent.pieceCount ≤ blockSize + 9 := by
      unfold greetingLength Bitfield.byteCount blockSize
      omega
    have narrow : greetingLength torrent.pieceCount < Word.bound32 := by
      unfold blockSize at short
      unfold Word.bound32
      omega
    exact ⟨_, (takes _ _).mpr ⟨⟨Nat.le_trans short room, narrow⟩, rfl, rfl⟩⟩

/-- Two engines that accept the shortest frames just understand each other. -/
theorem greeting_taken_iff_grains :
    ∃ torrent, Torrent.ofMetainfo (Sample.grains 131136) = .ok torrent ∧
      torrent.pieceCount = 131136 ∧ Sample.narrow.validate = .ok () ∧
      let download := (Crowd.start torrent Sample.narrow ⟨.sequential, false⟩ Sample.peerId
        []).download
      let session := (download.newSession Sample.first 0).connecting.handshakeDone 0 Sample.peerId
        .none
      let stream := Framing.frames (Worker.turn ⟨session, 0, [], none⟩ download).greet.outbox
      session.phase.isOpen = true ∧ session.bitfield.size = torrent.pieceCount ∧
        ∃ later, session.Takes Sample.narrow.maxFrameLength 0 stream .bitfield later := by
  obtain ⟨torrent, laid, count⟩ := Sample.ofMetainfo_grains 131136
  refine ⟨torrent, laid, count, rfl, ?_⟩
  intro download session stream
  have sized : session.bitfield.size = torrent.pieceCount := Bitfield.size_empty _
  obtain ⟨-, -, -, taken⟩ := greeting_taken_iff torrent Sample.narrow Sample.narrow
    ⟨.sequential, false⟩ Sample.peerId [] [] ⟨session, 0, [], none⟩ session 0 rfl sized
  exact ⟨rfl, sized, taken rfl (Nat.le_of_eq count)⟩

/-- Two engines that accept the shortest frames do not understand each other when a torrent has a
piece more. -/
theorem greeting_refused_grains :
    ∃ torrent, Torrent.ofMetainfo (Sample.grains 131137) = .ok torrent ∧
      Sample.narrow.validate = .ok () ∧
      let download := (Crowd.start torrent Sample.narrow ⟨.sequential, false⟩ Sample.peerId
        []).download
      let session := (download.newSession Sample.first 0).connecting.handshakeDone 0 Sample.peerId
        .none
      let stream := Framing.frames (Worker.turn ⟨session, 0, [], none⟩ download).greet.outbox
      (Framing.readMessage Sample.narrow.maxFrameLength stream).1 =
          .failed (.fault (.violation (.frameTooLarge 16394 16393))) ∧
        ∀ event later, ¬ session.Takes Sample.narrow.maxFrameLength 0 stream event later := by
  obtain ⟨torrent, laid, count⟩ := Sample.ofMetainfo_grains 131137
  refine ⟨torrent, laid, rfl, ?_⟩
  intro download session stream
  have size : download.holdings.completed.size = 131137 :=
    (Bitfield.size_empty _).trans count
  have long : greetingLength download.holdings.completed.size = 16394 := by
    rw [size]
    rfl
  have read := @readMessage_greeting_long 16393 ⟨session, 0, [], none⟩ download
    (by rw [long]; decide) (by rw [long]; decide)
  rw [long] at read
  refine ⟨congrArg Prod.fst read, ?_⟩
  rintro event later ⟨length, message, taken, -⟩
  cases read.symm.trans taken

end BitTorrent
