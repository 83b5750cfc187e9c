import Mathlib.Data.List.Induction
import BitTorrent.Framing
import BitTorrent.Proofs.Metering

/-!
The wire format is a bijection between messages and the payloads that are accepted, and framing is
self-delimiting: reading undoes writing on every concatenation of frames, and what was read spells
the bytes that the reads took.
-/

set_option autoImplicit false

namespace BitTorrent

namespace Bytes

theorem ofNat_toNat (bytes : Bytes) : ofNat bytes.length (toNat bytes) = bytes := by
  induction bytes using List.reverseRecOn with
  | nil => rfl
  | append_singleton front byte ih =>
    have low := byte.toNat_lt
    have quotient : (toNat front * 256 + byte.toNat) / 256 = toNat front := by omega
    have digit : UInt8.ofNat (toNat front * 256 + byte.toNat) = byte := by
      apply UInt8.toNat_inj.mp
      simp only [UInt8.toNat_ofNat']
      omega
    rw [List.length_append, List.length_singleton, ofNat, toNat_concat, quotient, digit, ih]

theorem toNat_lt (bytes : Bytes) : toNat bytes < countOf bytes.length := by
  induction bytes using List.reverseRecOn with
  | nil => decide
  | append_singleton front byte ih =>
    have low := byte.toNat_lt
    rw [List.length_append, List.length_singleton, toNat_concat, countOf]
    omega

theorem toNat_ofNat_of_lt {width n : Nat} (small : n < countOf width) :
    toNat (ofNat width n) = n := by
  rw [toNat_ofNat, Nat.mod_eq_of_lt small]

/-- Takes a number off the front of some bytes; none where they do not reach. -/
def number? (width : Nat) (bytes : Bytes) : Option (Nat × Bytes) :=
  if width ≤ bytes.length then some (toNat (bytes.take width), bytes.drop width) else none

theorem number?_of_le {width : Nat} {bytes : Bytes} (reaches : width ≤ bytes.length) :
    number? width bytes = some (toNat (bytes.take width), bytes.drop width) :=
  if_pos reaches

end Bytes

namespace Opcode

theorem toNat_ofNat (opcode : Opcode) : (UInt8.ofNat opcode.toNat).toNat = opcode.toNat := by
  cases opcode <;> rfl

theorem read_toNat (opcode : Opcode) : read opcode.toNat = .ok opcode := by
  cases opcode <;> rfl

theorem toNat_of_read {value : Nat} {opcode : Opcode} (known : read value = .ok opcode) :
    opcode.toNat = value := by
  unfold read at known
  split at known
  · rename_i found
    cases known
    unfold ofNat? at found
    split at found <;> first | (cases found; rfl) | cases found
  · cases known

theorem ofNat?_eq_none_iff : ∀ value, ofNat? value = none ↔ 9 < value
  | 0 | 1 | 2 | 3 | 4 | 5 | 6 | 7 | 8 | 9 => by decide
  | value + 10 => by simp only [ofNat?, true_iff]; omega

theorem read_error_iff (value : Nat) :
    (∃ violation, read value = .error violation) ↔ 9 < value := by
  rw [← ofNat?_eq_none_iff, read]
  cases ofNat? value <;> simp

/-- Whether a body has a size that its opcode allows. -/
def Allows (opcode : Opcode) (size : Nat) : Prop :=
  opcode.bodySize.1 ≤ size ∧ (opcode.bodySize.2 = false → size = opcode.bodySize.1)

theorem not_allows_iff (opcode : Opcode) (size : Nat) :
    ¬ opcode.Allows size ↔ size < opcode.bodySize.1 ∨
      (opcode.bodySize.2 = false ∧ size ≠ opcode.bodySize.1) := by
  rw [Allows, Classical.not_and_iff_not_or_not, Nat.not_le, Classical.not_imp]

end Opcode

namespace Message

/-- The sizes that the bodies of the ten opcodes have: none for the first four, one number, any
bits, three numbers for requests and cancels, two numbers and data, and a port. -/
def Sized (opcode size : Nat) : Prop :=
  match opcode with
  | 0 | 1 | 2 | 3 => size = 0
  | 4 => size = 4
  | 5 => True
  | 6 | 8 => size = 12
  | 7 => 8 ≤ size
  | 9 => size = 2
  | _ => False

theorem allows_iff_sized (opcode : Opcode) (size : Nat) :
    opcode.Allows size ↔ Sized opcode.toNat size := by
  cases opcode <;> simp [Opcode.Allows, Opcode.bodySize, Opcode.toNat, Sized] <;> omega

theorem decode_of_allows {lead : UInt8} {body : Bytes} {opcode : Opcode}
    (known : Opcode.read lead.toNat = .ok opcode) (allowed : opcode.Allows body.length) :
    decode (lead :: body) = .ok (ofBody body opcode) := by
  simp only [decode, known]
  exact if_neg fun refused => (opcode.not_allows_iff _).mpr refused allowed

theorem decode_of_not_allows {lead : UInt8} {body : Bytes} {opcode : Opcode}
    (known : Opcode.read lead.toNat = .ok opcode) (refused : ¬ opcode.Allows body.length) :
    decode (lead :: body) =
      .error (.malformedFrame opcode.name opcode.bodySize.2 opcode.bodySize.1 body.length) := by
  simp only [decode, known]
  exact if_pos ((opcode.not_allows_iff _).mp refused)

/-- What a payload that decodes is made of. -/
theorem decode_ok {payload : Bytes} {message : Message} (decoded : decode payload = .ok message) :
    (payload = [] ∧ message = keepAlive) ∨
    ∃ lead body opcode, payload = lead :: body ∧ Opcode.read lead.toNat = .ok opcode ∧
      opcode.Allows body.length ∧ message = ofBody body opcode := by
  cases payload with
  | nil => exact .inl ⟨rfl, by cases decoded; rfl⟩
  | cons lead body =>
    right
    cases known : Opcode.read lead.toNat with
    | error violation => simp [decode, known] at decoded
    | ok opcode =>
      by_cases allowed : opcode.Allows body.length
      · rw [decode_of_allows known allowed] at decoded
        exact ⟨lead, body, opcode, rfl, known, allowed, by cases decoded; rfl⟩
      · rw [decode_of_not_allows known allowed] at decoded
        cases decoded

theorem toNat_four {n : Nat} (small : n < Word.bound32) : Bytes.toNat (Bytes.ofNat 4 n) = n :=
  Bytes.toNat_ofNat_of_lt small

theorem drop_two_numbers (first second : Nat) (rest : Bytes) :
    (Bytes.ofNat 4 first ++ Bytes.ofNat 4 second ++ rest).drop 8 = rest := by
  rw [List.drop_left' (by simp)]

theorem second_number (first second : Nat) (rest : Bytes) :
    ((Bytes.ofNat 4 first ++ Bytes.ofNat 4 second ++ rest).drop 4).take 4 =
      Bytes.ofNat 4 second := by
  rw [List.append_assoc, List.drop_left' (by simp), List.take_left' (by simp)]

theorem first_number (first second : Nat) (rest : Bytes) :
    (Bytes.ofNat 4 first ++ Bytes.ofNat 4 second ++ rest).take 4 = Bytes.ofNat 4 first := by
  rw [List.append_assoc, List.take_left' (by simp)]

theorem readRequest_requestBody {r : BlockRequest}
    (fits : r.piece < Word.bound32 ∧ r.start < Word.bound32 ∧ r.length < Word.bound32) :
    readRequest (requestBody r) = r := by
  simp only [readRequest, requestBody, first_number, second_number, drop_two_numbers,
    toNat_four fits.1, toNat_four fits.2.1, toNat_four fits.2.2]

/-- The numbers of a body of three, put together again. -/
theorem requestBody_readRequest {body : Bytes} (sized : body.length = 12) :
    requestBody (readRequest body) = body := by
  have split : body = body.take 4 ++ (body.drop 4).take 4 ++ body.drop 8 := by
    rw [List.append_assoc, show body.drop 8 = (body.drop 4).drop 4 by rw [List.drop_drop],
      List.take_append_drop, List.take_append_drop]
  have first : (body.take 4).length = 4 := by simp [sized]
  have second : ((body.drop 4).take 4).length = 4 := by simp [sized]
  have third : (body.drop 8).length = 4 := by simp [sized]
  have spelled (part : Bytes) (four : part.length = 4) :
      Bytes.ofNat 4 (Bytes.toNat part) = part := by
    rw [← four, Bytes.ofNat_toNat]
  simp only [requestBody, readRequest, spelled _ first, spelled _ second, spelled _ third]
  exact split.symm

/-- The body of an encoded message has a size that the opcode allows, and reads back. -/
theorem ofBody_body {message : Message} {opcode : Opcode} (fits : message.Fits)
    (own : message.opcode? = some opcode) :
    opcode.Allows message.body.length ∧ ofBody message.body opcode = message := by
  cases message <;> cases own
  case have_ index =>
    exact ⟨by simp [body, Opcode.Allows, Opcode.bodySize], by
      simp only [body, ofBody, toNat_four fits]⟩
  case request r =>
    exact ⟨by simp [body, requestBody, Opcode.Allows, Opcode.bodySize], by
      simp only [body, ofBody, readRequest_requestBody fits]⟩
  case cancel r =>
    exact ⟨by simp [body, requestBody, Opcode.Allows, Opcode.bodySize], by
      simp only [body, ofBody, readRequest_requestBody fits]⟩
  case piece index start data =>
    refine ⟨by simp [body, Opcode.Allows, Opcode.bodySize]; omega, ?_⟩
    simp only [body, ofBody, first_number, second_number, drop_two_numbers, toNat_four fits.1,
      toNat_four fits.2]
  case port number =>
    refine ⟨by simp [body, Opcode.Allows, Opcode.bodySize], ?_⟩
    simp only [body, ofBody, Bytes.toNat_ofNat_of_lt (show number < Bytes.countOf 2 from fits)]
  all_goals exact ⟨by simp [body, Opcode.Allows, Opcode.bodySize], rfl⟩

theorem toNat_lt_of_length {body : Bytes} {width : Nat} (sized : body.length = width) :
    Bytes.toNat body < Bytes.countOf width :=
  sized ▸ body.toNat_lt

/-- What a body of an allowed size says is a message that is encoded by that body. -/
theorem body_ofBody {body : Bytes} {opcode : Opcode} (allowed : opcode.Allows body.length) :
    (ofBody body opcode).opcode? = some opcode ∧ (ofBody body opcode).body = body ∧
      (ofBody body opcode).Fits := by
  have spelled {part : Bytes} {width : Nat} (sized : part.length = width) :
      Bytes.ofNat width (Bytes.toNat part) = part := by
    rw [← sized, Bytes.ofNat_toNat]
  have small {part : Bytes} (sized : part.length = 4) : Bytes.toNat part < Word.bound32 :=
    toNat_lt_of_length sized
  cases opcode <;> simp only [Opcode.Allows, Opcode.bodySize] at allowed
  case have_ =>
    have sized : body.length = 4 := allowed.2 trivial
    exact ⟨rfl, spelled sized, small sized⟩
  case request =>
    have sized : body.length = 12 := allowed.2 trivial
    exact ⟨rfl, requestBody_readRequest sized, small (by simp [sized]), small (by simp [sized]),
      small (by simp [sized])⟩
  case cancel =>
    have sized : body.length = 12 := allowed.2 trivial
    exact ⟨rfl, requestBody_readRequest sized, small (by simp [sized]), small (by simp [sized]),
      small (by simp [sized])⟩
  case port =>
    have sized : body.length = 2 := allowed.2 trivial
    exact ⟨rfl, spelled sized, toNat_lt_of_length sized⟩
  case piece =>
    have first : (body.take 4).length = 4 := by simp; omega
    have second : ((body.drop 4).take 4).length = 4 := by simp; omega
    refine ⟨rfl, ?_, small first, small second⟩
    simp only [ofBody, Message.body, spelled first, spelled second]
    rw [List.append_assoc, show body.drop 8 = (body.drop 4).drop 4 by rw [List.drop_drop],
      List.take_append_drop, List.take_append_drop]
  case bitfield => exact ⟨rfl, rfl, trivial⟩
  all_goals
    exact ⟨rfl, (List.eq_nil_of_length_eq_zero (allowed.2 trivial)).symm, trivial⟩

theorem decode_payload {message : Message} (fits : message.Fits) :
    decode message.payload = .ok message := by
  cases own : message.opcode? with
  | none => cases message <;> first | rfl | cases own
  | some opcode =>
    obtain ⟨allowed, same⟩ := ofBody_body fits own
    have known : Opcode.read (UInt8.ofNat opcode.toNat).toNat = .ok opcode := by
      rw [Opcode.toNat_ofNat, Opcode.read_toNat]
    rw [payload, own]
    exact (decode_of_allows known allowed).trans (congrArg _ same)

theorem payload_of_decode {bytes : Bytes} {message : Message}
    (decoded : decode bytes = .ok message) : message.payload = bytes ∧ message.Fits := by
  rcases decode_ok decoded with ⟨rfl, rfl⟩ | ⟨lead, body, opcode, rfl, known, allowed, rfl⟩
  · exact ⟨rfl, trivial⟩
  · obtain ⟨own, same, fits⟩ := body_ofBody allowed
    have leads : UInt8.ofNat opcode.toNat = lead := by
      rw [Opcode.toNat_of_read known, UInt8.ofNat_toNat]
    refine ⟨?_, fits⟩
    rw [payload, own]
    simp only [leads, same]

theorem decode_error_iff (bytes : Bytes) :
    (∃ violation, decode bytes = .error violation) ↔
      ∃ lead body, bytes = lead :: body ∧ (9 < lead.toNat ∨ ¬ Sized lead.toNat body.length) := by
  constructor
  · rintro ⟨violation, failed⟩
    cases bytes with
    | nil => cases failed
    | cons lead body =>
      refine ⟨lead, body, rfl, ?_⟩
      cases known : Opcode.read lead.toNat with
      | error cause => exact .inl ((Opcode.read_error_iff _).mp ⟨cause, known⟩)
      | ok opcode =>
        right
        intro sized
        rw [← Opcode.toNat_of_read known, ← allows_iff_sized] at sized
        rw [decode_of_allows known sized] at failed
        cases failed
  · rintro ⟨lead, body, rfl, high | unsized⟩
    · obtain ⟨cause, unknown⟩ := (Opcode.read_error_iff _).mpr high
      exact ⟨cause, by simp only [decode, unknown]⟩
    · cases known : Opcode.read lead.toNat with
      | error cause => exact ⟨cause, by simp only [decode, known]⟩
      | ok opcode =>
        rw [← Opcode.toNat_of_read known, ← allows_iff_sized] at unsized
        exact ⟨_, decode_of_not_allows known unsized⟩

/-- Reads a body number by number, as far as it reaches; none where it does not. -/
def ofBody? (body : Bytes) : Opcode → Option Message
  | .choke => some choke
  | .unchoke => some unchoke
  | .interested => some interested
  | .notInterested => some notInterested
  | .bitfield => some (bitfield body)
  | .have_ => do
    let (index, _) ← Bytes.number? 4 body
    return have_ index
  | .port => do
    let (number, _) ← Bytes.number? 2 body
    return port number
  | .request => do
    let (index, rest) ← Bytes.number? 4 body
    let (start, rest) ← Bytes.number? 4 rest
    let (length, _) ← Bytes.number? 4 rest
    return request ⟨index, start, length⟩
  | .cancel => do
    let (index, rest) ← Bytes.number? 4 body
    let (start, rest) ← Bytes.number? 4 rest
    let (length, _) ← Bytes.number? 4 rest
    return cancel ⟨index, start, length⟩
  | .piece => do
    let (index, rest) ← Bytes.number? 4 body
    let (start, data) ← Bytes.number? 4 rest
    return piece index start data

/-- Reads a payload number by number; none where a read would go past its end. -/
def decode? : Bytes → Option (Except Violation Message)
  | [] => some (.ok keepAlive)
  | lead :: body =>
    match Opcode.read lead.toNat with
    | .error violation => some (.error violation)
    | .ok opcode =>
      let (size, larger) := opcode.bodySize
      if body.length < size ∨ (larger = false ∧ body.length ≠ size) then
        some (.error (.malformedFrame opcode.name larger size body.length))
      else (ofBody? body opcode).map .ok

theorem ofBody?_of_allows {body : Bytes} {opcode : Opcode} (allowed : opcode.Allows body.length) :
    ofBody? body opcode = some (ofBody body opcode) := by
  have whole {width : Nat} (sized : body.length = width) : body.take width = body := by
    rw [← sized, List.take_length]
  cases opcode <;> simp only [Opcode.Allows, Opcode.bodySize] at allowed
  case have_ =>
    have sized : body.length = 4 := allowed.2 trivial
    simp [ofBody?, ofBody, Bytes.number?_of_le (Nat.le_of_eq sized.symm), whole sized]
  case port =>
    have sized : body.length = 2 := allowed.2 trivial
    simp [ofBody?, ofBody, Bytes.number?_of_le (Nat.le_of_eq sized.symm), whole sized]
  case request =>
    have sized : body.length = 12 := allowed.2 trivial
    have last : (body.drop 8).take 4 = body.drop 8 := List.take_of_length_le (by simp [sized])
    simp [ofBody?, ofBody, readRequest, Bytes.number?, sized, last]
  case cancel =>
    have sized : body.length = 12 := allowed.2 trivial
    have last : (body.drop 8).take 4 = body.drop 8 := List.take_of_length_le (by simp [sized])
    simp [ofBody?, ofBody, readRequest, Bytes.number?, sized, last]
  case piece =>
    have first : 4 ≤ body.length := by omega
    have second : 4 ≤ (body.drop 4).length := by simp; omega
    simp [ofBody?, ofBody, Bytes.number?_of_le first, Bytes.number?_of_le second]
  all_goals rfl

theorem decode?_eq (bytes : Bytes) : decode? bytes = some (decode bytes) := by
  cases bytes with
  | nil => rfl
  | cons lead body =>
    cases known : Opcode.read lead.toNat with
    | error violation => simp only [decode?, decode, known]
    | ok opcode =>
      simp only [decode?, decode, known]
      split
      · rfl
      · rename_i fine
        rw [← Opcode.not_allows_iff, not_not] at fine
        rw [ofBody?_of_allows fine, Option.map_some]

end Message

namespace Handshake

theorem protocol_length : protocol.length = 19 := by decide +kernel

theorem fixed_append {size : Nat} (value : Vector UInt8 size) (rest : Bytes) :
    fixed size (value.toList ++ rest) = value := by
  apply Vector.ext
  intro index inside
  have within : index < value.toList.length := by simpa using inside
  rw [fixed, Vector.getElem_ofFn, List.getD_eq_getElem?_getD, List.getElem?_append_left within]
  simp [inside]

theorem toList_fixed {size : Nat} {bytes : Bytes} (long : size ≤ bytes.length) :
    (fixed size bytes).toList = bytes.take size := by
  apply List.ext_getElem
  · simp [long]
  · intro index inside _
    have within : index < size := by simpa using inside
    have reached : index < bytes.length := Nat.lt_of_lt_of_le within long
    simp [fixed, List.getD_eq_getElem?_getD, List.getElem?_eq_getElem reached]

theorem length_encode (handshake : Handshake) : handshake.encode.length = 68 := by
  simp [encode, protocol_length]

theorem decode_encode (handshake : Handshake) : decode handshake.encode = .ok handshake := by
  obtain ⟨⟨capabilities⟩, hash, name⟩ := handshake
  have first : (encode ⟨⟨capabilities⟩, hash, name⟩).drop 20 =
      capabilities.toList ++ (hash.toList ++ name.toList) := by
    simp only [encode, List.drop_succ_cons, List.append_assoc]
    exact List.drop_left' protocol_length
  have second : (encode ⟨⟨capabilities⟩, hash, name⟩).drop 28 = hash.toList ++ name.toList := by
    rw [show 28 = 20 + 8 from rfl, ← List.drop_drop, first]
    exact List.drop_left' (by simp)
  have third : (encode ⟨⟨capabilities⟩, hash, name⟩).drop 48 = name.toList ++ [] := by
    rw [show 48 = 28 + 20 from rfl, ← List.drop_drop, second, List.append_nil]
    exact List.drop_left' (by simp)
  have named : ((encode ⟨⟨capabilities⟩, hash, name⟩).drop 1).take 19 = protocol := by
    simp only [encode, List.drop_succ_cons, List.drop_zero, List.append_assoc]
    exact List.take_left' protocol_length
  rw [decode, if_neg (by simp [length_encode]), if_neg (by simp [encode]),
    if_neg (not_not.mpr named), first, second, third, fixed_append, fixed_append, fixed_append]

theorem encode_of_decode {bytes : Bytes} {handshake : Handshake}
    (decoded : decode bytes = .ok handshake) : handshake.encode = bytes := by
  unfold decode at decoded
  split at decoded
  · cases decoded
  · rename_i sized
    split at decoded
    · cases decoded
    · rename_i lead
      split at decoded
      · cases decoded
      · rename_i named
        cases decoded
        have long : bytes.length = 68 := not_not.mp sized
        have name : (bytes.drop 1).take 19 = protocol := not_not.mp named
        have first : bytes = 19 :: bytes.drop 1 := by
          cases bytes with
          | nil => cases long
          | cons byte rest =>
            have same : byte = 19 := by simpa using lead
            rw [same, List.drop_succ_cons, List.drop_zero]
        have last : (bytes.drop 48).take 20 = bytes.drop 48 :=
          List.take_of_length_le (by simp [long])
        simp only [encode]
        rw [toList_fixed (by simp [long]), toList_fixed (by simp [long]),
          toList_fixed (by simp [long]), last, ← name]
        conv => rhs; rw [first]
        have join (start count : Nat) :
            (bytes.drop start).take count ++ bytes.drop (start + count) = bytes.drop start := by
          rw [← List.drop_drop, List.take_append_drop]
        rw [List.append_assoc, List.append_assoc, join 28 20, join 20 8, join 1 19]

end Handshake

namespace Framing

theorem takeExact_append {count : Nat} {front : Bytes} (sized : front.length = count)
    (rest : Bytes) : takeExact count (front ++ rest) = (.ok front, rest) := by
  rw [takeExact, if_pos (by simp [sized]), List.take_left' sized, List.drop_left' sized]

theorem takeExact_ok {count : Nat} {stream taken rest : Bytes}
    (read : takeExact count stream = (.ok taken, rest)) :
    stream = taken ++ rest ∧ taken.length = count := by
  unfold takeExact at read
  split at read
  · rename_i reaches
    cases read
    exact ⟨(List.take_append_drop count stream).symm, List.length_take_of_le reaches⟩
  · cases read

/-- Reading undoes writing a handshake, and leaves what stands behind it. -/
theorem readHandshake_encode (handshake : Handshake) (rest : Bytes) :
    readHandshake (handshake.encode ++ rest) = (.ok handshake, rest) := by
  obtain ⟨frame, split⟩ : ∃ frame, handshake.encode = [19] ++ frame := ⟨_, rfl⟩
  have sized : frame.length = 67 := by
    have whole := handshake.length_encode
    rw [split] at whole
    simpa using whole
  have decoded : Handshake.decode ([19] ++ frame) = .ok handshake := by
    rw [← split, Handshake.decode_encode]
  simp only [readHandshake, split, List.append_assoc]
  rw [takeExact_append (show [(19 : UInt8)].length = 1 from rfl)]
  simp only [ne_eq, not_true_eq_false, if_false, takeExact_append sized, decoded]

/-- A handshake that was read spells the bytes that the read took. -/
theorem readHandshake_ok {stream rest : Bytes} {handshake : Handshake}
    (read : readHandshake stream = (.ok handshake, rest)) : stream = handshake.encode ++ rest := by
  unfold readHandshake at read
  split at read
  · cases read
  · rename_i lead behind first
    split at read
    · cases read
    · split at read
      · cases read
      · rename_i frame left second
        split at read
        · cases read
        · rename_i decoded
          cases read
          rw [Handshake.encode_of_decode decoded, List.append_assoc, ← (takeExact_ok second).1,
            (takeExact_ok first).1]

/-- Reading undoes writing a message, and leaves what stands behind it. -/
theorem readMessage_encode {limit : Nat} {message : Message} (fits : message.Fits)
    (narrow : message.payload.length < Word.bound32) (within : message.payload.length ≤ limit)
    (rest : Bytes) :
    readMessage limit (message.encode ++ rest) =
      (.payload message.payload.length (.ok message), rest) := by
  simp only [readMessage, Message.encode, List.append_assoc]
  rw [takeExact_append (Bytes.length_ofNat 4 _)]
  simp only [Message.toNat_four narrow, if_neg (Nat.not_lt.mpr within)]
  rw [takeExact_append rfl]
  simp only [Message.decode_payload fits]

/-- A message whose payload is longer than the limit is refused. -/
theorem readMessage_encode_long {limit : Nat} {message : Message}
    (narrow : message.payload.length < Word.bound32) (beyond : limit < message.payload.length)
    (rest : Bytes) :
    readMessage limit (message.encode ++ rest) =
      (.failed (.fault (.violation (.frameTooLarge message.payload.length limit))),
        message.payload ++ rest) := by
  simp only [readMessage, Message.encode, List.append_assoc]
  rw [takeExact_append (Bytes.length_ofNat 4 _)]
  simp only [Message.toNat_four narrow, if_pos beyond]

/-- A message that was read spells the bytes that the read took. -/
theorem readMessage_ok {limit length : Nat} {stream rest : Bytes} {message : Message}
    (read : readMessage limit stream = (.payload length (.ok message), rest)) :
    stream = message.encode ++ rest ∧ length = message.payload.length := by
  unfold readMessage at read
  split at read
  · cases read
  · rename_i lead behind first
    simp only at read
    split at read
    · cases read
    · split at read
      · cases read
      · rename_i payload left second
        simp only [Prod.mk.injEq, Arrival.payload.injEq] at read
        obtain ⟨⟨counted, decoded⟩, rfl⟩ := read
        have spelled := (Message.payload_of_decode decoded).1
        obtain ⟨front, four⟩ := takeExact_ok first
        obtain ⟨back, sized⟩ := takeExact_ok second
        have prefixed : Bytes.ofNat 4 payload.length = lead := by
          rw [sized, ← four, Bytes.ofNat_toNat]
        exact ⟨by rw [Message.encode, spelled, prefixed, List.append_assoc, ← back, front],
          by rw [spelled, sized, counted]⟩

/-- A payload that was read is no longer than the limit, and its length fits its field. -/
theorem readMessage_within {limit length : Nat} {stream rest : Bytes}
    {message : Except Violation Message}
    (read : readMessage limit stream = (.payload length message, rest)) :
    length ≤ limit ∧ length < Word.bound32 := by
  unfold readMessage at read
  split at read
  · cases read
  · rename_i lead behind first
    obtain ⟨-, four⟩ := takeExact_ok first
    have narrow := Bytes.toNat_lt lead
    rw [four] at narrow
    dsimp only at read
    split at read
    · cases read
    · rename_i within
      split at read
      · cases read
      · cases read
        exact ⟨Nat.not_lt.mp within, narrow⟩

/-- The frames of some messages, one behind the other. -/
def frames (messages : List Message) : Bytes :=
  messages.flatMap Message.encode

@[simp] theorem frames_cons (message : Message) (later : List Message) :
    frames (message :: later) = message.encode ++ frames later := rfl

/-- Whether a message can be written, and read where payloads are limited. -/
structure Sendable (limit : Nat) (message : Message) : Prop where
  fits : message.Fits
  narrow : message.payload.length < Word.bound32
  within : message.payload.length ≤ limit

theorem length_encode (message : Message) :
    message.encode.length = frameLength message.payload.length := by
  simp [Message.encode, frameLength]

theorem readMessages_cons {limit fuel length : Nat} {stream rest : Bytes} {message : Message}
    (read : readMessage limit stream = (.payload length (.ok message), rest))
    (some_bytes : stream ≠ []) :
    readMessages limit (fuel + 1) stream =
      { readMessages limit fuel rest with
        messages := message :: (readMessages limit fuel rest).messages
        traffic := frameLength length + (readMessages limit fuel rest).traffic } := by
  cases stream with
  | nil => exact absurd rfl some_bytes
  | cons byte behind => rw [readMessages, read]; simp

theorem encode_ne_nil (message : Message) (rest : Bytes) : message.encode ++ rest ≠ [] := by
  intro none_
  have sized := congrArg List.length none_
  simp [length_encode, frameLength] at sized

/-- Reading undoes writing messages one behind the other. -/
theorem readMessages_frames {limit : Nat} {messages : List Message}
    (sendable : ∀ message ∈ messages, Sendable limit message) (fuel : Nat)
    (enough : messages.length ≤ fuel) :
    readMessages limit fuel (frames messages) = ⟨messages, none, [], (frames messages).length⟩ := by
  induction messages generalizing fuel with
  | nil => cases fuel <;> rfl
  | cons message later ih =>
    obtain ⟨fits, narrow, within⟩ := sendable message List.mem_cons_self
    obtain ⟨less, rfl⟩ : ∃ less, fuel = less + 1 := ⟨fuel - 1, by simp at enough; omega⟩
    have rest := ih (fun other inside => sendable other (List.mem_cons_of_mem _ inside)) less
      (by simpa using enough)
    rw [frames_cons, readMessages_cons (readMessage_encode fits narrow within _)
      (encode_ne_nil message _), rest, List.length_append, length_encode]

theorem length_le_frames (messages : List Message) :
    messages.length ≤ (frames messages).length := by
  induction messages with
  | nil => exact Nat.le_refl _
  | cons message later ih =>
    rw [frames_cons, List.length_append, length_encode, List.length_cons, frameLength]
    omega

/-- A read of a message that fails with a cause, and what it leaves. -/
def Fails (limit : Nat) (stream : Bytes) (cause : Failure) (left : Bytes) : Prop :=
  readMessage limit stream = (.failed cause, left) ∨
  ∃ length violation, readMessage limit stream = (.payload length (.error violation), left) ∧
    cause = .fault (.violation violation)

/-- Whether reading messages ended where it says: with a failing read of what it had not yet
taken, or without one. -/
def EndsAt (limit : Nat) (reading : Reading) (tail : Bytes) : Prop :=
  match reading.failure with
  | none => reading.left = tail
  | some cause => Fails limit tail cause reading.left

/-- Messages that were read spell the bytes that their reads took. -/
theorem readMessages_spells (limit fuel : Nat) (stream : Bytes) :
    ∃ tail, stream = frames (readMessages limit fuel stream).messages ++ tail ∧
      EndsAt limit (readMessages limit fuel stream) tail := by
  induction fuel generalizing stream with
  | zero => exact ⟨stream, by simp [readMessages, frames], by simp [readMessages, EndsAt]⟩
  | succ fuel ih =>
    by_cases empty : stream = []
    · subst empty
      exact ⟨[], by simp [readMessages, frames], by simp [readMessages, EndsAt]⟩
    · cases read : readMessage limit stream with
      | mk arrival rest =>
        cases stream with
        | nil => exact absurd rfl empty
        | cons byte behind =>
        cases arrival with
        | failed cause =>
          refine ⟨byte :: behind, by simp [readMessages, read, frames], ?_⟩
          simp only [readMessages, read, EndsAt]
          exact .inl read
        | payload length content =>
          cases content with
          | error violation =>
            refine ⟨byte :: behind, by simp [readMessages, read, frames], ?_⟩
            simp only [readMessages, read, EndsAt]
            exact .inr ⟨length, violation, read, rfl⟩
          | ok message =>
            obtain ⟨tail, spelled, ends⟩ := ih rest
            rw [readMessages_cons read empty]
            refine ⟨tail, ?_, ends⟩
            rw [frames_cons, List.append_assoc, ← spelled]
            exact (readMessage_ok read).1

/-- Reads messages past a meter, as many as there are moments: every payload is charged to the
meter, at its moment, before the next one is read. -/
def readPast (limit meter : Nat) : List Nat → Shaper → Bytes → List Message × Shaper × Bytes
  | [], shaper, stream => ([], shaper, stream)
  | now :: later, shaper, stream =>
    match readMessage limit stream with
    | (.failed _, rest) => ([], shaper, rest)
    | (.payload length content, rest) =>
      let charged :=
        (shaper.advance now (shaper.passage .download meter (frameLength length))).1
      match content with
      | .error _ => ([], charged, rest)
      | .ok message =>
        let (messages, after, left) := readPast limit meter later charged rest
        (message :: messages, after, left)

/-- A meter counts the bytes of all frames that are read past it. -/
theorem readPast_frames {limit meter : Nat} {messages : List Message}
    (sendable : ∀ message ∈ messages, Sendable limit message) (moments : List Nat)
    (timed : moments.length = messages.length) (shaper : Shaper) (rooted : shaper.Rooted)
    (present : meter < shaper.parents.length) :
    ∃ after, readPast limit meter moments shaper (frames messages) = (messages, after, []) ∧
      after.total .download meter = shaper.total .download meter + (frames messages).length := by
  induction messages generalizing moments shaper with
  | nil =>
    obtain rfl := List.eq_nil_of_length_eq_zero timed
    exact ⟨shaper, rfl, rfl⟩
  | cons message later ih =>
    cases moments with
    | nil => cases timed
    | cons now moments =>
      obtain ⟨fits, narrow, within⟩ := sendable message List.mem_cons_self
      have charged := Shaper.total_advance rooted present now (frameLength message.payload.length)
      have still := Shaper.parents_advance shaper now
        (shaper.passage .download meter (frameLength message.payload.length))
      have rest : ∀ other ∈ later, Sendable limit other :=
        fun other inside => sendable other (List.mem_cons_of_mem _ inside)
      obtain ⟨after, read, total⟩ := ih rest moments (by simpa using timed)
        (shaper.advance now
          (shaper.passage .download meter (frameLength message.payload.length))).1
        (by rw [Shaper.Rooted, still]; exact rooted) (by rw [still]; exact present)
      refine ⟨after, ?_, ?_⟩
      · simp only [frames_cons, readPast, readMessage_encode fits narrow within, read]
      · rw [total, charged, frames_cons, List.length_append, length_encode]
        omega

open Message in
/-- The wire format is a bijection, also as a stream. A message survives its encoding, and a payload
that decodes is the one its message is encoded by; decoding fails exactly on an unknown opcode and
on a body of a size that the opcode does not have, and never reads past the payload. A handshake
and any messages that the limit admits are read back from their frames, without a byte left over,
and a meter on the way counts exactly those frames. Whatever a stream holds, what was read from it
spells the bytes that the successful reads took. -/
theorem wire_bijective :
    (∀ message : Message, message.Fits → decode (message.encode.drop 4) = .ok message) ∧
    (∀ bytes message, decode bytes = .ok message →
      message.encode = Bytes.ofNat 4 bytes.length ++ bytes) ∧
    (∀ bytes, (∃ violation, decode bytes = .error violation) ↔
      ∃ lead body, bytes = lead :: body ∧ (9 < lead.toNat ∨ ¬ Sized lead.toNat body.length)) ∧
    (∀ bytes, decode? bytes = some (decode bytes)) ∧
    (∀ limit handshake messages, (∀ message ∈ messages, Sendable limit message) →
      readHandshake (handshake.encode ++ frames messages) = (.ok handshake, frames messages) ∧
      readAll limit (frames messages) = ⟨messages, none, [], (frames messages).length⟩ ∧
      ∀ (shaper : Shaper) (meter : Nat) (moments : List Nat), shaper.Rooted →
        meter < shaper.parents.length → moments.length = messages.length →
        ∃ after, readPast limit meter moments shaper (frames messages) = (messages, after, []) ∧
          after.total .download meter =
            shaper.total .download meter + (frames messages).length) ∧
    (∀ stream handshake rest, readHandshake stream = (.ok handshake, rest) →
      stream = handshake.encode ++ rest) ∧
    (∀ limit fuel stream, ∃ tail,
      stream = frames (readMessages limit fuel stream).messages ++ tail ∧
      EndsAt limit (readMessages limit fuel stream) tail) := by
  refine ⟨?_, ?_, decode_error_iff, decode?_eq, ?_, fun _ _ _ => readHandshake_ok,
    readMessages_spells⟩
  · intro message fits
    rw [encode, List.drop_left' (Bytes.length_ofNat 4 _), decode_payload fits]
  · intro bytes message decoded
    rw [encode, (payload_of_decode decoded).1]
  · intro limit handshake messages sendable
    exact ⟨readHandshake_encode _ _, readMessages_frames sendable _ (length_le_frames messages),
      fun shaper _ moments rooted present timed =>
        readPast_frames sendable moments timed shaper rooted present⟩

/-- Three messages that are read back, and the thirty bytes that a meter counts for them. -/
theorem wire_bijective_requests :
    readAll 13 (frames [.keepAlive, .have_ 7, .request ⟨1, 2, 3⟩]) =
      ⟨[.keepAlive, .have_ 7, .request ⟨1, 2, 3⟩], none, [], 30⟩ ∧
    ∃ after, readPast 13 0 [5, 6, 7] (Shaper.new 0 0 0)
        (frames [.keepAlive, .have_ 7, .request ⟨1, 2, 3⟩]) =
          ([.keepAlive, .have_ 7, .request ⟨1, 2, 3⟩], after, []) ∧
      after.total .download 0 = 30 := by
  have sendable : ∀ message ∈ [Message.keepAlive, .have_ 7, .request ⟨1, 2, 3⟩],
      Sendable 13 message := by
    intro message inside
    simp only [List.mem_cons, List.not_mem_nil, or_false] at inside
    rcases inside with rfl | rfl | rfl <;>
      exact ⟨by simp [Message.Fits, Word.bound32], by decide, by decide⟩
  obtain ⟨-, reading, metered⟩ := wire_bijective.2.2.2.2.1 13
    ⟨.none, Vector.replicate 20 0, Vector.replicate 20 0⟩ _ sendable
  exact ⟨reading, metered (Shaper.new 0 0 0) 0 [5, 6, 7] (Shaper.new_rooted 0 0 0) (by decide) rfl⟩

end Framing

end BitTorrent
