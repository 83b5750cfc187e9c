import BitTorrent.Proofs.Digest
import BitTorrent.Proofs.Honest

/-!
Who is banned for a corrupt piece. It is the sender of the last block, whoever sent the bytes that
are wrong; but some block of the piece was sent with wrong bytes.
-/

set_option autoImplicit false

namespace BitTorrent

/-- A byte of a range that the store holds is not that of the content. -/
structure MemoryStore.Strays (store : MemoryStore) (content : Bytes) (range : ByteRange)
    (position : Nat) (byte : UInt8) : Prop where
  lower : range.offset ≤ position
  upper : position < range.stop
  stored : store.byte? position = some byte
  wrong : content[position]? ≠ some byte

/-- A range whose digest is not that of its content holds a wrong byte. -/
theorem MemoryStore.strays_of_checksum {store : MemoryStore} {content : Bytes} {range : ByteRange}
    (inside : range.stop ≤ content.length) {digest : Digest}
    (hashed : store.checksum range = .ok digest) (mismatch : digest ≠ sha1 (range.cut content)) :
    ∃ position byte, store.Strays content range position byte := by
  obtain ⟨bytes, sized, -, held, rfl⟩ := checksum_ok hashed
  have cut := ByteRange.length_cut inside
  by_contra none
  refine mismatch (congrArg sha1 (List.ext_getElem? fun index => ?_))
  by_cases within : index < range.length
  · have stored := held index (by omega)
    rw [List.getElem?_eq_getElem (by omega)] at stored ⊢
    rw [range.getElem?_cut content within]
    by_contra other
    exact none ⟨_, _, by omega, by simp only [ByteRange.stop]; omega, stored, Ne.symm other⟩
  · rw [List.getElem?_eq_none (by omega), List.getElem?_eq_none (by omega)]

namespace Swarm

variable {start swarm : Swarm} {happening : Happening} {peer : Peer} {deposit : Deposit}
  {content : Bytes}

theorem Deposits.request_within (deposits : swarm.Deposits happening peer deposit) :
    ∃ piece, swarm.download.torrent.piece? deposit.request.piece = some piece ∧
      piece.offset ≤ deposit.range.offset ∧ deposit.range.stop ≤ piece.offset + piece.length ∧
      deposit.data.length = deposit.range.length := by
  obtain ⟨-, now, message, -, sent⟩ := deposits
  obtain ⟨piece, answers⟩ := sent.answers
  obtain ⟨within, range⟩ := Piece.subRange?_eq_some.mp answers.inside
  refine ⟨piece, answers.found, ?_, ?_, ?_⟩
  · rw [range]
    exact Nat.le_add_right _ _
  · rw [range]
    simp only [ByteRange.stop]
    omega
  · rw [range]
    exact answers.sized

/-- A block is sent for a piece with a wrong byte, which is in the store when the piece is found
corrupt. -/
def Falsifies (content : Bytes) (deposit : Deposit) (piece : Piece) (culprit : Peer)
    (swarm : Swarm) (happening : Happening) : Prop :=
  ∃ other, swarm.Deposits happening culprit other ∧
    other.request.piece = deposit.request.piece ∧ other.data ≠ other.range.cut content ∧
    ∃ position byte, other.Brings position byte ∧
      deposit.store.Strays content piece.range position byte

/-- Behind every piece that is found corrupt there is a block with a wrong byte. -/
theorem Deposits.falsified (sound : start.Sound)
    (describes : start.download.torrent.Describes content)
    (empty : ∀ position, start.store.byte? position = none) {before : List Happening}
    (deposits : (start.run before).Deposits happening peer deposit) {piece : Piece}
    (corrupts : deposit.Corrupts piece) :
    start.download.torrent.piece? deposit.request.piece = some piece ∧
      ∃ culprit, start.Meets (before ++ [happening]) (Falsifies content deposit piece culprit) := by
  obtain ⟨⟨turn, waits⟩, digest, hashed, mismatch⟩ := corrupts
  have same : ∀ happenings, (start.run happenings).download.torrent = start.download.torrent :=
    run_torrent sound
  have found : start.download.torrent.piece? deposit.request.piece = some piece := by
    obtain ⟨-, now, message, rfl, sent⟩ := deposits
    rw [← same before]
    exact (congrArg Download.torrent sent.download_eq).symm ▸ (Turn.afterWrite_hashes waits).1
  refine ⟨found, ?_⟩
  rw [describes.hashed found] at mismatch
  obtain ⟨position, byte, strays⟩ :=
    MemoryStore.strays_of_checksum (describes.inside found) hashed mismatch
  have stepped : start.run (before ++ [happening]) = (start.run before).step happening :=
    run_append _ _ _
  have stored : (start.run (before ++ [happening])).store.byte? position = some byte := by
    rw [stepped, deposits.store_eq (sound.run before)]
    exact strays.stored
  rcases run_brings sound _ stored with original | ⟨earlier, guilty, later, split, met⟩
  · exact nomatch (empty position).symm.trans original
  · obtain ⟨culprit, other, sent, brings⟩ := met
    refine ⟨culprit, earlier, guilty, later, split, other, sent, ?_, ?_, position, byte, brings,
      strays⟩
    · obtain ⟨piece', located, lower, upper, sized⟩ := sent.request_within
      rw [same earlier] at located
      by_contra different
      have apart := describes.tiled.apart located found different
      obtain ⟨index, rfl, inside⟩ := brings
      have within := (List.getElem?_eq_some_iff.mp inside).1
      have lowest := strays.lower
      have highest := strays.upper
      simp only [ByteRange.stop, Piece.range] at lowest highest upper
      omega
    · obtain ⟨index, rfl, inside⟩ := brings
      intro right
      have within := (List.getElem?_eq_some_iff.mp inside).1
      obtain ⟨-, -, -, -, sized⟩ := sent.request_within
      rw [right, ByteRange.getElem?_cut _ _ (by omega)] at inside
      exact strays.wrong inside

/-- Whoever sends the last block of a corrupt piece is banned if the policy says so. -/
theorem Condemns.banned {ip : IpAddress} {piece : Piece} (sound : swarm.Sound)
    (condemns : swarm.Condemns happening ip peer deposit piece) :
    (swarm.step happening).download.isBanned ip = true := by
  obtain ⟨policy, ⟨connected, now, message, rfl, sent⟩, rfl, ⟨turn, waits⟩, digest, hashed,
    mismatch⟩ := condemns
  have same := sent.download_eq
  obtain ⟨found, all⟩ := Turn.afterWrite_hashes waits
  rw [same] at found all
  rw [sound.receive_download connected]
  change ((swarm.scene peer).turn.receiveStored (swarm.scene peer).store now
    message).2.turn.download.isBanned _ = true
  rw [sent.outcome_hashed found all]
  have sized := Turn.conclude_sized (sent.sized (sound.scene connected)) piece deposit.request
  have corrupt := @Turn.Checks.corrupt (deposit.turn.conclude piece deposit.request) piece digest
    mismatch
  have filled := (Turn.fillPipeline_pursues (corrupt.sized sized)).1
  simp only [Turn.settleChecksum, hashed, Turn.afterChecksum, mismatch, ↓reduceIte,
    Turn.corrupt_eq]
  rw [Download.isBanned, filled.banned]
  have rules : (deposit.turn.conclude piece
      deposit.request).download.settings.corruptionPolicy = .ban := by
    change deposit.turn.download.settings.corruptionPolicy = .ban
    rw [same]
    exact policy
  have sender : (deposit.turn.conclude piece deposit.request).session.address.ip =
      peer.address.ip := congrArg Address.ip sent.address_eq
  rw [← sender]
  exact Download.reject_banned rules piece _

end Swarm

section

variable {name : String} {pieceLength : Nat} {files : List (String × Bytes)} {info : Metainfo}
  {torrent : Torrent} {settings : Settings} {selector : Selector} {ownId : PeerId}
  {draws : List Nat} {happenings : List Happening}

/-- Whoever is banned although nobody asked for it has sent the last block of a piece that is
corrupt then. Some peer has sent a block for that piece whose bytes are not those of the content,
and a wrong byte of it is in the store when the piece is hashed. It is another peer than the banned
one if nothing but content came from there. -/
theorem run_blames (made : Metainfo.ofContent? name pieceLength files = some info)
    (built : Torrent.ofMetainfo info = .ok torrent) {ip : IpAddress}
    (unasked : .ban ip ∉ happenings) :
    let content := files.flatMap (·.2)
    let start := Swarm.start torrent settings selector ownId draws (.empty content.length)
    (start.run happenings).download.isBanned ip = true →
      settings.corruptionPolicy = .ban ∧
      ∃ before happening after peer deposit piece,
        happenings = before ++ happening :: after ∧
        (start.run before).Condemns happening ip peer deposit piece ∧
        torrent.piece? deposit.request.piece = some piece ∧
        ∃ culprit, start.Meets (before ++ [happening])
            (Swarm.Falsifies content deposit piece culprit) ∧
          ((∀ address now message, .receive address now message ∈ happenings →
            address.ip = ip → message.Carries torrent content) → culprit.address.ip ≠ ip) := by
  intro content start banned
  have sound : start.Sound := Swarm.start_sound torrent settings selector ownId draws _
  have describes : start.download.torrent.Describes content :=
    Torrent.ofContent?_describes made built
  have empty : ∀ position, start.store.byte? position = none := by
    intro position
    by_cases inside : position < content.length <;>
      simp [start, Swarm.start, MemoryStore.byte?, MemoryStore.empty, inside]
  rcases Swarm.run_bans sound happenings banned with original | ⟨before, happening, after, rfl, met⟩
  · cases original
  · rcases met with rfl | ⟨peer, deposit, piece, condemns⟩
    · simp at unasked
    · have rules : settings.corruptionPolicy = .ban := by
        have policy := condemns.policy
        rwa [Swarm.run_settings sound before] at policy
      obtain ⟨found, culprit, falsified⟩ :=
        condemns.deposits.falsified sound describes empty condemns.corrupts
      refine ⟨rules, before, happening, after, peer, deposit, piece, rfl, condemns, found, culprit,
        falsified, ?_⟩
      rintro carried rfl
      obtain ⟨earlier, guilty, later, split, other, deposits, -, -, position, byte, brings,
        strays⟩ := falsified
      have own := Swarm.run_torrent sound earlier
      obtain ⟨-, now, message, rfl, sent⟩ := deposits
      have member : .receive culprit.address now message ∈ before ++ happening :: after := by
        have inside : .receive culprit.address now message ∈ before ++ [happening] := by simp [split]
        simp only [List.mem_append, List.mem_cons, List.not_mem_nil, or_false] at inside ⊢
        exact inside.imp id Or.inl
      refine strays.wrong (sent.brings (own ▸ describes.tiled) ?_ brings)
      exact own ▸ carried culprit.address now message member rfl

end

/-! A piece of two blocks: one peer sends a wrong byte and chokes, another sends the rest. -/

namespace Sample

def blank : Bytes :=
  List.replicate 16385 0

def wideInfo : Metainfo :=
  .ofFiles (sha1 (Bytes.ofText "sample")) "sample" 16385 [sha1 blank] [("sample", 16385)]

def widePiece : Piece :=
  ⟨0, sha1 blank, 0, 16385⟩

def wide : Torrent :=
  ⟨sha1 (Bytes.ofText "sample"), "sample", 16385, 16385, [widePiece], [⟨"sample", 0, 16385⟩], []⟩

theorem ofContent?_blank :
    Metainfo.ofContent? "sample" 16385 [("sample", blank)] = some wideInfo := by
  have sized : blank.length = 16385 := List.length_replicate ..
  have whole : blank.take 16385 = blank := List.take_of_length_le (Nat.le_of_eq sized)
  have single : Metainfo.chunkCount 16385 16385 = 1 := rfl
  rw [Metainfo.ofContent?, if_neg (by decide)]
  simp only [List.flatMap_cons, List.flatMap_nil, List.append_nil, sized, single, Metainfo.chunks,
    whole, List.map_cons, List.map_nil]
  rfl

theorem ofMetainfo_wideInfo : Torrent.ofMetainfo wideInfo = .ok wide := by
  have valid : wideInfo.validate = .ok () := rfl
  have pieces : Torrent.layOut wideInfo = [widePiece] := by
    simp [Torrent.layOut, wideInfo, Metainfo.ofFiles, Metainfo.lengthSum, widePiece]
  simp only [Torrent.ofMetainfo, valid, pieces]
  rfl

def wideStart : Swarm :=
  .start wide { pipelineDepth := 2 } ⟨.sequential, false⟩ peerId [] (.empty 16385)

/-- The first peer sends the second block with a wrong byte and chokes; the second peer is asked
for the first block. -/
def mixture : List Happening :=
  offer first ++ [.receive first 0 (.piece 0 16384 [1]), .receive first 0 .choke] ++ offer second

/-- The second peer sends the first block as it should be. -/
def remainder : Happening :=
  .receive second 0 (.piece 0 0 (List.replicate 16384 0))

/-- Only the first block of the piece is missing, and the second peer is asked for it. -/
def isMixed (swarm : Swarm) : Bool :=
  swarm.peers.any (fun peer => decide (peer.address = second) && peer.session.phase.isOpen &&
    decide (⟨0, 0, 16384⟩ ∈ peer.session.downloads)) &&
  !swarm.download.holdings.has 0 &&
  (swarm.download.holdings.fetch widePiece ⟨0, 0, 16384⟩).allFetched 0 &&
  swarm.store.failReads.isNone && swarm.store.failWrites.isNone &&
  decide (swarm.store.byte? 16384 = some 1)

theorem isMixed_mixture : isMixed (wideStart.run mixture) = true := by
  decide +kernel

/-- The second peer is banned for the piece that the first has spoilt. -/
theorem condemns_remainder : ∃ peer deposit,
    (wideStart.run mixture).Condemns remainder second.ip peer deposit widePiece := by
  have sound : wideStart.Sound := Swarm.start_sound _ _ _ _ _ _
  have own : (wideStart.run mixture).download.torrent = wide := Swarm.run_torrent sound mixture
  have rules : (wideStart.run mixture).download.settings = { pipelineDepth := 2 } :=
    Swarm.run_settings sound mixture
  have mixed := isMixed_mixture
  simp only [isMixed, Bool.and_eq_true, Bool.not_eq_true', Option.isNone_iff_eq_none,
    decide_eq_true_eq] at mixed
  obtain ⟨⟨⟨⟨⟨asked, missing⟩, all⟩, readable⟩, writable⟩, wrong⟩ := mixed
  obtain ⟨peer, connected, found⟩ := List.any_eq_true.mp asked
  simp only [Bool.and_eq_true, decide_eq_true_eq] at found
  obtain ⟨⟨same, isOpen⟩, isAsked⟩ := found
  generalize wideStart.run mixture = swarm at *
  have located : swarm.download.torrent.piece? 0 = some widePiece := own ▸ rfl
  have sized : (List.replicate 16384 (0 : UInt8)).length = 16384 := List.length_replicate ..
  have answers : (swarm.scene peer).Answers ⟨0, 0, 16384⟩ (List.replicate 16384 0) widePiece
      ⟨0, 16384⟩ := ⟨isAsked, sized, located, missing, rfl⟩
  have last : swarm.store.Covers ⟨16384, 1⟩ := by
    intro position lower upper
    simp only [ByteRange.stop] at lower upper
    obtain rfl : position = 16384 := by omega
    rw [wrong]
    rfl
  have room : ¬ swarm.store.size < 16384 := by
    have within := last.within (by decide)
    simp only [ByteRange.stop] at within
    omega
  obtain ⟨store, taken⟩ : ∃ store,
      swarm.store.write ⟨0, 16384⟩ (List.replicate 16384 0) = .ok store := by
    simp only [MemoryStore.write, writable, ByteRange.stop, Nat.zero_add, room, sized,
      ne_eq, not_true_eq_false, ↓reduceIte]
    exact ⟨_, rfl⟩
  have deposits := answers.deposits isOpen 0 taken
  have hashed : store.checksum widePiece.range = .ok (sha1 (List.replicate 16384 0 ++ [1])) := by
    obtain ⟨-, -, -, inside, outside⟩ := MemoryStore.write_ok taken
    have length : (List.replicate 16384 (0 : UInt8) ++ [1]).length = 16385 := by
      rw [List.length_append, sized]
      rfl
    refine MemoryStore.Holds.checksum ?_ length (by decide)
      ((MemoryStore.write_failReads taken).trans readable)
    intro index within
    change store.byte? (0 + index) = _
    rw [Nat.zero_add]
    by_cases first : index < 16384
    · rw [inside index (Nat.zero_le _) (by simp only [ByteRange.stop]; omega), Nat.sub_zero,
        List.getElem?_append_left (by omega)]
    · obtain rfl : index = 16384 := by omega
      rw [outside 16384 (by simp [ByteRange.stop]), wrong, List.getElem?_append_right (by omega),
        sized]
      rfl
  refine ⟨peer, _, by rw [rules], ⟨connected, 0, _, by rw [same]; rfl, deposits⟩, by rw [same],
    ⟨_, Turn.afterWrite_last located all⟩, _, hashed, ?_⟩
  have content : blank = List.replicate 16384 0 ++ [0] := List.replicate_succ'
  change _ ≠ sha1 blank
  rw [content]
  exact Sha1.sha1_zeros_ne

theorem banned_remainder :
    (wideStart.run (mixture ++ [remainder])).download.isBanned second.ip = true := by
  have sound : wideStart.Sound := Swarm.start_sound _ _ _ _ _ _
  obtain ⟨peer, deposit, condemns⟩ := condemns_remainder
  have single : ∀ swarm : Swarm, swarm.run [remainder] = swarm.step remainder := fun _ => rfl
  rw [Swarm.run_append, single]
  exact condemns.banned (sound.run mixture)

theorem unasked_remainder (ip : IpAddress) : .ban ip ∉ mixture ++ [remainder] := by
  intro member
  simp only [mixture, offer, remainder, List.mem_append, List.mem_cons, List.not_mem_nil,
    reduceCtorEq, or_false] at member

/-- Nothing but content comes from the second peer. -/
theorem carries_remainder (address : Address) (now : Nat) (message : Message)
    (received : .receive address now message ∈ mixture ++ [remainder])
    (sender : address.ip = second.ip) : message.Carries wide blank := by
  have other : first.ip ≠ second.ip := by decide
  simp only [mixture, offer, remainder, List.mem_append, List.mem_cons, List.not_mem_nil, or_false,
    reduceCtorEq, false_or, Happening.receive.injEq] at received
  rcases received with (((same | same) | same | same) | same | same) | same
  · exact absurd (same.1 ▸ sender) other
  · exact absurd (same.1 ▸ sender) other
  · exact absurd (same.1 ▸ sender) other
  · exact absurd (same.1 ▸ sender) other
  · rw [same.2.2]
    trivial
  · rw [same.2.2]
    trivial
  · rw [same.2.2]
    have zeros : (blank.drop (0 * wide.pieceLength + 0)).take 16384 = List.replicate 16384 0 := by
      rw [Nat.zero_mul, List.drop_zero, blank, List.take_replicate]
      rfl
    change _ = (blank.drop _).take (List.replicate 16384 (0 : UInt8)).length
    rw [List.length_replicate, zeros]

/-- A peer that never sent anything but content can be banned. -/
theorem innocent_banned :
    Metainfo.ofContent? "sample" 16385 [("sample", blank)] = some wideInfo ∧
      Torrent.ofMetainfo wideInfo = .ok wide ∧
      (wideStart.run (mixture ++ [remainder])).download.isBanned second.ip = true ∧
      .ban second.ip ∉ mixture ++ [remainder] ∧
      ∀ address now message, .receive address now message ∈ mixture ++ [remainder] →
        address.ip = second.ip → message.Carries wide blank :=
  ⟨ofContent?_blank, ofMetainfo_wideInfo, banned_remainder, unasked_remainder second.ip,
    carries_remainder⟩

/-- Another peer than the banned one has sent a wrong block then. -/
theorem run_blames_remainder : ∃ before happening peer deposit,
    (wideStart.run before).Condemns happening second.ip peer deposit widePiece ∧
      ∃ culprit, culprit.address.ip ≠ second.ip ∧ wideStart.Meets (before ++ [happening])
        (Swarm.Falsifies blank deposit widePiece culprit) := by
  have same : [("sample", blank)].flatMap (·.2) = blank := by
    simp only [List.flatMap_cons, List.flatMap_nil, List.append_nil]
  have blames := @run_blames "sample" 16385 [("sample", blank)] wideInfo wide { pipelineDepth := 2 }
    ⟨.sequential, false⟩ peerId [] (mixture ++ [remainder]) ofContent?_blank ofMetainfo_wideInfo
    second.ip (unasked_remainder second.ip)
  have sized : blank.length = 16385 := List.length_replicate ..
  rw [same] at blames
  dsimp only at blames
  rw [sized] at blames
  obtain ⟨-, before, happening, after, peer, deposit, piece, -, condemns, found, culprit, met,
    innocent⟩ := blames banned_remainder
  have single : piece = widePiece := by
    have member := List.mem_of_getElem? found
    exact List.mem_singleton.mp member
  exact ⟨before, happening, peer, deposit, single ▸ condemns, culprit, innocent carries_remainder,
    single ▸ met⟩

end Sample

end BitTorrent
