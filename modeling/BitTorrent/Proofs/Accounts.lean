import Mathlib.Data.List.Induction
import Mathlib.Data.List.Nodup
import BitTorrent.Proofs.Bitfield
import BitTorrent.Proofs.Handlers
import BitTorrent.Proofs.Swarm

/-!
The books of a session. Whoever sees only the calls on a session and their responses can tell which
requests are open: each is entered when the session accepts it, and leaves once, for a reason that
the calls show. The queue is what these books say, in the order of acceptance.
-/

set_option autoImplicit false

namespace BitTorrent

namespace Session

/-- A call on a session. -/
inductive Call where
  | connecting
  | handshakeDone (now : Nat) (peerId : PeerId) (capabilities : Capabilities)
  | receive (now : Nat) (message : Message)
  | choke
  | unchoke
  | showInterest
  | withdrawInterest
  | request (request : BlockRequest)
  | takeUpload
  | assign (piece : Option Nat)
  | dropRequests (piece : Nat)
  | sent (now : Nat)
  | reset
  deriving DecidableEq

/-- What a call gives to its caller. -/
inductive Response where
  | done
  | said (message : Option Message)
  | received (outcome : Except Violation Event)
  | requested (outcome : Except PeerFault Message)
  | taken (upload : Option BlockRequest)

/-- Calls with their responses, the first call first. -/
abbrev History := List (Call × Response)

/-- Makes a call; a request that is refused leaves the session as it is. -/
def call (session : Session) : Call → Session × Response
  | .connecting => (session.connecting, .done)
  | .handshakeDone now peerId capabilities =>
    (session.handshakeDone now peerId capabilities, .done)
  | .receive now message => (session.receive now message).map id .received
  | .choke => session.choke.map id .said
  | .unchoke => session.unchoke.map id .said
  | .showInterest => session.showInterest.map id .said
  | .withdrawInterest => session.withdrawInterest.map id .said
  | .request request =>
    match session.request request with
    | .ok (after, message) => (after, .requested (.ok message))
    | .error fault => (session, .requested (.error fault))
  | .takeUpload => session.takeUpload.map id .taken
  | .assign piece => (session.assign piece, .done)
  | .dropRequests piece => (session.dropRequests piece, .done)
  | .sent now => (session.sent now, .done)
  | .reset => (session.reset, .done)

/-- The session after some calls. -/
def after (session : Session) (calls : List Call) : Session :=
  calls.foldl (fun session call => (session.call call).1) session

/-- Some calls on a session with their responses. -/
def history (session : Session) : List Call → History
  | [] => []
  | call :: rest => (call, (session.call call).2) :: (session.call call).1.history rest

/-- What holds of a session with a peer of a torrent of `pieces` pieces at all times. -/
structure Regular (pieces depth : Nat) (session : Session) : Prop where
  limit : session.depth = max depth 1
  bounded : session.downloads.length ≤ max depth 1
  choked : session.peerChoking = true → session.downloads = []
  serving : session.upload.isSome = true → session.amChoking = false
  size : session.bitfield.size = pieces
  spare : ∀ i, pieces ≤ i →
    (session.bitfield.toBytes.flatMap Bitfield.unpackByte).getD i false = false

end Session

open Session

/-- An accepted request, with the number of the call that brought it. -/
structure Entry where
  accepted : Nat
  request : BlockRequest
  deriving DecidableEq

/-- An entry that has left the queue, with the number of the call that made it leave. -/
structure Departure where
  entry : Entry
  left : Nat
  deriving DecidableEq

/-- What can be told from calls and responses: their number, who waits and who has left. -/
structure Ledger where
  calls : Nat
  waiting : List Entry
  gone : List Departure

/-- What makes a request leave the queue. -/
inductive Frees (request : BlockRequest) : Call → Response → Prop
  | block {now : Nat} {data : Bytes} (sized : data.length = request.length) :
    Frees request (.receive now (.piece request.piece request.start data))
      (.received (.ok (.block request data)))
  | choked {now : Nat} {dropped : List BlockRequest} (member : request ∈ dropped) :
    Frees request (.receive now .choke) (.received (.ok (.choked dropped)))
  | dropped : Frees request (.dropRequests request.piece) .done
  | reset : Frees request .reset .done

/-- The call of an entry's number has accepted its request. -/
def Entry.Accepted (entry : Entry) (history : History) : Prop :=
  history[entry.accepted]? =
    some (.request entry.request, .requested (.ok (.request entry.request)))

namespace Ledger

/-- Nothing has happened. -/
def empty : Ledger :=
  ⟨0, [], []⟩

/-- All entries that have ever been made. -/
def entries (ledger : Ledger) : List Entry :=
  ledger.waiting ++ ledger.gone.map (·.entry)

/-- Another call, at which some of those who wait leave. -/
def release (ledger : Ledger) (leaves : Entry → Bool) : Ledger where
  calls := ledger.calls + 1
  waiting := ledger.waiting.filter (!leaves ·)
  gone := ledger.gone ++ (ledger.waiting.filter leaves).map (⟨·, ledger.calls⟩)

/-- The request that a call enters in the books. -/
def entered? : Call → Response → Option BlockRequest
  | .request request, .requested (.ok _) => some request
  | _, _ => none

/-- Enters a call and its response. A block serves whoever has waited longest for it. -/
def note (ledger : Ledger) : Call → Response → Ledger
  | .request request, .requested (.ok _) =>
    { ledger with
      calls := ledger.calls + 1, waiting := ledger.waiting ++ [⟨ledger.calls, request⟩] }
  | .receive _ _, .received (.ok (.block request _)) =>
    ledger.release fun entry => ledger.waiting.find? (·.request = request) = some entry
  | .receive _ _, .received (.ok (.choked _)) => ledger.release fun _ => true
  | .dropRequests piece, _ => ledger.release (·.request.piece = piece)
  | .reset, _ => ledger.release fun _ => true
  | _, _ => { ledger with calls := ledger.calls + 1 }

/-- The books of some calls with their responses. -/
def of (history : History) : Ledger :=
  history.foldl (fun ledger (call, response) => ledger.note call response) empty

/-- Every accepted request is entered once and waits in the order of acceptance; who has left had a
reason. -/
structure Accounts (ledger : Ledger) (history : History) : Prop where
  entered : ∀ entry, entry ∈ ledger.entries ↔ entry.Accepted history
  once : ledger.entries.Nodup
  order : ledger.waiting.Pairwise (·.accepted < ·.accepted)
  freed : ∀ departure ∈ ledger.gone,
    departure.entry.accepted < departure.left ∧
      ∃ call response, history[departure.left]? = some (call, response) ∧
        Frees departure.entry.request call response

/-- Who waits before the call of a number: who was accepted by then and had not left. -/
def WaitsAt (ledger : Ledger) (moment : Nat) (entry : Entry) : Prop :=
  entry ∈ ledger.entries ∧ entry.accepted < moment ∧
    ∀ departure ∈ ledger.gone, departure.entry = entry → moment ≤ departure.left

end Ledger

/-! What every call keeps of a session. -/

namespace Session

variable {session : Session} {pieces depth : Nat}

/-- The wire form takes care of the bits behind the last piece. -/
theorem Regular.of (limit : session.depth = max depth 1)
    (bounded : session.downloads.length ≤ max depth 1)
    (choked : session.peerChoking = true → session.downloads = [])
    (serving : session.upload.isSome = true → session.amChoking = false)
    (size : session.bitfield.size = pieces) : session.Regular pieces depth :=
  ⟨limit, bounded, choked, serving, size,
    fun _ behind => Bitfield.spare_toBytes _ (size ▸ behind)⟩

theorem new_regular (address : Address) (pieces depth now : Nat) :
    (new address pieces depth now).Regular pieces depth :=
  .of rfl (Nat.zero_le _) (fun _ => rfl) (absurd · Bool.false_ne_true)
    (Bitfield.size_empty pieces)

theorem apply_regular (regular : session.Regular pieces depth) (message : Message) :
    (session.apply message).1.Regular pieces depth := by
  have ⟨limit, bounded, choked, serving, size, _⟩ := regular
  cases message with
  | keepAlive | port => exact regular
  | choke => exact .of limit (Nat.zero_le _) (fun _ => rfl) serving size
  | unchoke => exact .of limit bounded (absurd · Bool.false_ne_true) serving size
  | interested | notInterested => exact .of limit bounded choked serving size
  | have_ piece =>
    simp only [apply]
    split
    · exact .of limit bounded choked serving ((Bitfield.size_insert _ _).trans size)
    · exact regular
  | bitfield bytes =>
    simp only [apply]
    split
    · rename_i field read
      exact .of limit bounded choked serving ((Bitfield.size_of_ofBytes? read).trans size)
    · exact regular
  | request request =>
    simp only [apply]
    split
    · exact regular
    · split
      · exact regular
      · rename_i unchoked
        exact .of limit bounded choked (fun _ => Bool.eq_false_iff.mpr unchoked) size
  | piece index start data =>
    simp only [apply]
    split
    · have shorter : (session.downloads.eraseP (answers index start data)).length ≤ max depth 1 :=
        Nat.le_trans List.length_eraseP_le bounded
      exact .of limit shorter (fun closed => by simp only [choked closed, List.eraseP_nil]) serving
        size
    · exact regular
  | cancel request =>
    simp only [apply]
    split
    · exact .of limit bounded choked (absurd · Bool.false_ne_true) size
    · exact regular

theorem call_regular (regular : session.Regular pieces depth) (call : Call) :
    (session.call call).1.Regular pieces depth := by
  have ⟨limit, bounded, choked, serving, size, _⟩ := regular
  cases call with
  | connecting | handshakeDone | assign | sent => exact .of limit bounded choked serving size
  | receive now message =>
    simp only [Session.call, receive, Prod.map_fst, id_eq]
    split
    · have awake : { session with phase := .active, lastReceived := now }.Regular pieces depth :=
        .of limit bounded choked serving size
      exact apply_regular awake message
    · exact regular
  | choke =>
    simp only [Session.call, choke, Prod.map_fst, id_eq]
    split
    · exact regular
    · exact .of limit bounded choked (absurd · Bool.false_ne_true) size
  | unchoke =>
    simp only [Session.call, unchoke, Prod.map_fst, id_eq]
    split
    · exact .of limit bounded choked (fun _ => rfl) size
    · exact regular
  | showInterest =>
    simp only [Session.call, showInterest, Prod.map_fst, id_eq]
    split
    · exact regular
    · exact .of limit bounded choked serving size
  | withdrawInterest =>
    simp only [Session.call, withdrawInterest, Prod.map_fst, id_eq]
    split
    · exact .of limit bounded choked serving size
    · exact regular
  | request request =>
    simp only [Session.call, Session.request]
    cases room : session.canRequest with
    | false => exact regular
    | true =>
      rw [canRequest, Bool.and_eq_true, Bool.not_eq_true', decide_eq_true_eq, limit] at room
      have longer : (session.downloads ++ [request]).length ≤ max depth 1 := by
        rw [List.length_append, List.length_singleton]
        exact room.2
      exact .of limit longer
        (fun closed => absurd (room.1.symm.trans closed) Bool.false_ne_true) serving size
  | takeUpload => exact .of limit bounded choked (absurd · Bool.false_ne_true) size
  | dropRequests piece =>
    exact .of limit (Nat.le_trans (List.length_filter_le _ _) bounded)
      (fun closed => by simp only [Session.call, dropRequests, choked closed, List.filter_nil])
      serving size
  | reset =>
    exact .of limit (Nat.zero_le _) (fun _ => rfl) (absurd · Bool.false_ne_true)
      ((Bitfield.size_empty _).trans size)

/-- A message that is refused changes nothing. -/
theorem apply_refused {message : Message} {violation : Violation}
    (refused : (session.apply message).2 = .error violation) :
    (session.apply message).1 = session := by
  cases message with
  | have_ piece =>
    simp only [apply] at refused ⊢
    split
    · rename_i inside
      rw [if_pos inside] at refused
      cases refused
    · rfl
  | bitfield bytes =>
    simp only [apply] at refused ⊢
    split
    · rename_i field read
      rw [read] at refused
      cases refused
    · rfl
  | request request =>
    simp only [apply] at refused ⊢
    split
    · rfl
    · rename_i idle
      simp only [idle] at refused
      split at refused <;> cases refused
  | piece index start data =>
    simp only [apply] at refused
    split at refused <;> cases refused
  | cancel request =>
    simp only [apply] at refused
    split at refused <;> cases refused
  | _ => cases refused

/-- A received message that is refused changes nothing but how far the connection has come and when
it was last heard of. -/
theorem receive_refused (now : Nat) (message : Message) {violation : Violation}
    (refused : (session.receive now message).2 = .error violation) :
    (session.receive now message).1 =
      { session with
        phase := (session.receive now message).1.phase
        lastReceived := (session.receive now message).1.lastReceived } := by
  unfold receive at refused ⊢
  split at refused
  · rename_i isOpen
    rw [if_pos isOpen, apply_refused refused]
  · rename_i closed
    rw [if_neg closed]

end Session

namespace Ledger

variable {ledger : Ledger} {history : History} {queue : List BlockRequest}
  {call : Call} {response : Response}

/-- The books of a run and its queue after it. -/
structure Tallies (ledger : Ledger) (history : History) (queue : List BlockRequest) :
    Prop extends ledger.Accounts history where
  calls : ledger.calls = history.length
  queue : queue = ledger.waiting.map (·.request)

theorem empty_tallies : empty.Tallies [] [] where
  entered := fun entry => by simp [empty, entries, Entry.Accepted]
  once := List.nodup_nil
  order := List.Pairwise.nil
  freed := nofun
  calls := rfl
  queue := rfl

theorem accepted_append (entry : Entry) (history : History) (last : Call × Response) :
    entry.Accepted (history ++ [last]) ↔ entry.Accepted history ∨
      entry.accepted = history.length ∧
        last = (.request entry.request, .requested (.ok (.request entry.request))) := by
  unfold Entry.Accepted
  rcases Nat.lt_trichotomy entry.accepted history.length with earlier | same | later
  · rw [List.getElem?_append_left earlier]
    constructor
    · exact .inl
    · rintro (accepted | ⟨same, _⟩)
      · exact accepted
      · omega
  · rw [same, List.getElem?_concat_length, List.getElem?_eq_none (Nat.le_refl _)]
    simp
  · rw [List.getElem?_eq_none (by simp; omega), List.getElem?_eq_none (by omega)]
    simp
    omega

theorem accepted_take {entry : Entry} {history : History} {moment : Nat} :
    entry.Accepted (history.take moment) ↔ entry.Accepted history ∧ entry.accepted < moment := by
  rw [Entry.Accepted, List.getElem?_take]
  split
  · rename_i before
    exact ⟨fun accepted => ⟨accepted, before⟩, And.left⟩
  · rename_i behind
    exact ⟨nofun, fun both => absurd both.2 behind⟩

theorem Accounts.lt_length (accounts : ledger.Accounts history) {entry : Entry}
    (member : entry ∈ ledger.entries) : entry.accepted < history.length :=
  (List.getElem?_eq_some_iff.mp ((accounts.entered entry).mp member)).1

/-- Why somebody left does not change when more is heard. -/
theorem Accounts.freed_append (accounts : ledger.Accounts history) (last : Call × Response)
    {departure : Departure} (member : departure ∈ ledger.gone) :
    departure.entry.accepted < departure.left ∧
      ∃ call response, (history ++ [last])[departure.left]? = some (call, response) ∧
        Frees departure.entry.request call response := by
  obtain ⟨later, call, response, heard, frees⟩ := accounts.freed departure member
  have inside := (List.getElem?_eq_some_iff.mp heard).1
  exact ⟨later, call, response, (List.getElem?_append_left inside).trans heard, frees⟩

theorem entries_accept (ledger : Ledger) (request : BlockRequest) (message : Message) :
    (ledger.note (.request request) (.requested (.ok message))).entries.Perm
      (⟨ledger.calls, request⟩ :: ledger.entries) := by
  rw [note, entries, List.append_assoc, List.singleton_append]
  exact List.perm_middle

theorem entries_release (ledger : Ledger) (leaves : Entry → Bool) :
    (ledger.release leaves).entries.Perm ledger.entries := by
  have moved : ((ledger.waiting.filter leaves).map fun entry =>
      (⟨entry, ledger.calls⟩ : Departure).entry) = ledger.waiting.filter leaves :=
    List.map_id _
  have split : (ledger.waiting.filter (!leaves ·) ++ ledger.waiting.filter leaves).Perm
      ledger.waiting :=
    List.perm_append_comm.trans (List.filter_append_perm leaves ledger.waiting)
  simp only [entries, release, List.map_append, List.map_map, Function.comp_def, moved]
  exact (List.perm_append_comm_assoc _ _ _).trans
    ((split.append_left _).trans List.perm_append_comm)

theorem Tallies.accept (tallies : ledger.Tallies history queue) (request : BlockRequest) :
    (ledger.note (.request request) (.requested (.ok (.request request)))).Tallies
      (history ++ [(.request request, .requested (.ok (.request request)))])
      (queue ++ [request]) where
  entered := fun entry => by
    rw [accepted_append, ← tallies.entered, (ledger.entries_accept request _).mem_iff,
      List.mem_cons, ← tallies.calls]
    rcases entry with ⟨accepted, asked⟩
    simp only [Entry.mk.injEq, Prod.mk.injEq, Call.request.injEq, Response.requested.injEq,
      Except.ok.injEq, Message.request.injEq, and_self, eq_comm (a := asked)]
    exact or_comm
  once := by
    rw [(ledger.entries_accept request _).nodup_iff, List.nodup_cons]
    refine ⟨fun member => ?_, tallies.once⟩
    have earlier := tallies.lt_length member
    rw [← tallies.calls] at earlier
    exact Nat.lt_irrefl _ earlier
  order := by
    rw [note, List.pairwise_append]
    refine ⟨tallies.order, List.pairwise_singleton _ _, fun entry member last added => ?_⟩
    rw [List.mem_singleton.mp added, tallies.calls]
    exact tallies.lt_length (List.mem_append_left _ member)
  freed := fun _ member => tallies.freed_append _ member
  calls := by
    rw [List.length_append, ← tallies.calls]
    rfl
  queue := by
    rw [note, List.map_append, ← tallies.queue]
    rfl

theorem Tallies.release (tallies : ledger.Tallies history queue) (leaves : Entry → Bool)
    (other : entered? call response = none)
    (freed : ∀ entry ∈ ledger.waiting, leaves entry = true → Frees entry.request call response) :
    (ledger.release leaves).Tallies (history ++ [(call, response)])
      ((ledger.waiting.filter (!leaves ·)).map (·.request)) where
  entered := fun entry => by
    rw [accepted_append, ← tallies.entered, (ledger.entries_release leaves).mem_iff]
    refine ⟨.inl, fun either => either.resolve_right fun ⟨_, last⟩ => ?_⟩
    rw [(Prod.mk.inj last).1, (Prod.mk.inj last).2] at other
    cases other
  once := (ledger.entries_release leaves).nodup_iff.mpr tallies.once
  order := tallies.order.filter _
  freed := fun departure member => by
    rcases List.mem_append.mp member with before | now
    · exact tallies.freed_append _ before
    · obtain ⟨entry, picked, rfl⟩ := List.mem_map.mp now
      obtain ⟨waiting, leaving⟩ := List.mem_filter.mp picked
      have earlier := tallies.lt_length (List.mem_append_left _ waiting)
      rw [← tallies.calls] at earlier
      exact ⟨earlier, call, response, by rw [tallies.calls, List.getElem?_concat_length],
        freed entry waiting leaving⟩
  calls := by
    rw [List.length_append, ← tallies.calls]
    rfl
  queue := rfl

theorem release_nobody (ledger : Ledger) :
    ledger.release (fun _ => false) = { ledger with calls := ledger.calls + 1 } := by
  simp [release]

/-- A call that neither enters a request nor makes one leave. -/
theorem Tallies.idle (tallies : ledger.Tallies history queue)
    (other : entered? call response = none) :
    { ledger with calls := ledger.calls + 1 }.Tallies (history ++ [(call, response)]) queue := by
  have kept := tallies.release (fun _ => false) other
    fun _ _ leaves => absurd leaves Bool.false_ne_true
  have all : ledger.waiting.filter (fun _ => !false) = ledger.waiting := List.filter_eq_self.mpr
    fun _ _ => rfl
  rwa [release_nobody, all, ← tallies.queue] at kept

/-- Without whoever has waited longest for a block, one request for it less is open. -/
theorem map_request_release (waiting : List Entry) (once : waiting.Nodup)
    (request : BlockRequest) :
    (waiting.filter fun entry =>
        !decide (waiting.find? (·.request = request) = some entry)).map (·.request) =
      (waiting.map (·.request)).erase request := by
  induction waiting with
  | nil => rfl
  | cons entry rest ih =>
    obtain ⟨fresh, once⟩ := List.nodup_cons.mp once
    by_cases same : entry.request = request
    · have others : ∀ other ∈ rest, (!decide (some entry = some other)) = true := by
        intro other member
        have different : entry ≠ other := fun equal => fresh (equal ▸ member)
        simpa using different
      rw [List.find?_cons_of_pos (by simpa using same), List.map_cons, same,
        List.erase_cons_head, List.filter_cons_of_neg (by simp), List.filter_eq_self.mpr others]
    · have kept : rest.find? (·.request = request) ≠ some entry := by
        intro found
        exact same (by simpa using List.find?_some found)
      rw [List.find?_cons_of_neg (by simpa using same), List.map_cons,
        List.erase_cons_tail (by simpa using same), List.filter_cons_of_pos (by simpa using kept),
        List.map_cons, ih once]

theorem Tallies.block (tallies : ledger.Tallies history queue) (now : Nat) {request : BlockRequest}
    {data : Bytes} (sized : data.length = request.length) :
    (ledger.note (.receive now (.piece request.piece request.start data))
      (.received (.ok (.block request data)))).Tallies
      (history ++ [(.receive now (.piece request.piece request.start data),
        .received (.ok (.block request data)))])
      (queue.erase request) := by
  have once : ledger.waiting.Nodup := (List.nodup_append.mp tallies.once).1
  rw [tallies.queue, ← map_request_release ledger.waiting once request]
  refine tallies.release _ rfl fun entry _ first => ?_
  have same : entry.request = request := by
    simpa using List.find?_some (of_decide_eq_true first)
  exact same ▸ .block (same ▸ sized)

/-- Everybody leaves. -/
theorem Tallies.clear (tallies : ledger.Tallies history queue)
    (other : entered? call response = none)
    (freed : ∀ request ∈ queue, Frees request call response) :
    (ledger.release fun _ => true).Tallies (history ++ [(call, response)]) [] := by
  have none : ledger.waiting.filter (fun _ => !true) = [] := List.filter_eq_nil_iff.mpr
    fun _ _ => by decide
  have cleared := tallies.release (fun _ => true) other fun entry member _ =>
    freed _ (tallies.queue ▸ List.mem_map_of_mem member)
  rwa [none] at cleared

variable {session : Session}

theorem Tallies.apply (tallies : ledger.Tallies history session.downloads) (now : Nat)
    (message : Message) :
    (ledger.note (.receive now message) (.received (session.apply message).2)).Tallies
      (history ++ [(.receive now message, .received (session.apply message).2)])
      (session.apply message).1.downloads := by
  cases message with
  | choke => exact tallies.clear rfl fun _ member => .choked member
  | piece index start data =>
    simp only [Session.apply, answers_eq]
    cases found : session.downloads.find? ((⟨index, start, data.length⟩ : BlockRequest) == ·) with
    | none => exact tallies.idle rfl
    | some request =>
      obtain rfl := eq_of_beq (List.find?_some found)
      rw [← List.erase_eq_eraseP]
      exact tallies.block now rfl
  | have_ | bitfield | cancel =>
    simp only [Session.apply]
    split <;> exact tallies.idle rfl
  | request request =>
    simp only [Session.apply]
    split
    · exact tallies.idle rfl
    · split <;> exact tallies.idle rfl
  | _ => exact tallies.idle rfl

/-- The books stay right when another call is entered. -/
theorem Tallies.note (tallies : ledger.Tallies history session.downloads) (call : Call) :
    (ledger.note call (session.call call).2).Tallies (history ++ [(call, (session.call call).2)])
      (session.call call).1.downloads := by
  cases call with
  | receive now message =>
    simp only [Session.call, receive, Prod.map_fst, Prod.map_snd, id_eq]
    split
    · have awake : ledger.Tallies history
          { session with phase := .active, lastReceived := now }.downloads := tallies
      exact awake.apply now message
    · exact tallies.idle rfl
  | request request =>
    simp only [Session.call, Session.request]
    cases session.canRequest with
    | false => exact tallies.idle rfl
    | true => exact tallies.accept request
  | dropRequests piece =>
    have kept : (ledger.release (·.request.piece = piece)).Tallies
        (history ++ [(.dropRequests piece, .done)]) _ :=
      tallies.release _ rfl fun entry _ same => of_decide_eq_true same ▸ .dropped
    have rest : session.downloads.filter (·.piece ≠ piece) =
        (ledger.waiting.filter fun entry => !decide (entry.request.piece = piece)).map
          (·.request) := by
      rw [tallies.queue, List.filter_map]
      simp only [Function.comp_def, ne_eq, decide_not]
    rw [← rest] at kept
    exact kept
  | reset => exact tallies.clear rfl fun _ _ => .reset
  | choke | unchoke | showInterest | withdrawInterest =>
    simp only [Session.call, Session.choke, Session.unchoke, Session.showInterest,
      Session.withdrawInterest, Prod.map_fst, Prod.map_snd, id_eq]
    split <;> exact tallies.idle rfl
  | _ => exact tallies.idle rfl

theorem of_append (history : History) (call : Call) (response : Response) :
    of (history ++ [(call, response)]) = (of history).note call response :=
  List.foldl_append

theorem calls_note (ledger : Ledger) (call : Call) (response : Response) :
    (ledger.note call response).calls = ledger.calls + 1 := by
  unfold note
  split <;> rfl

/-- Who has left stays away, and who leaves at a call is entered with its number. -/
theorem gone_note (ledger : Ledger) (call : Call) (response : Response) :
    ∃ more, (ledger.note call response).gone = ledger.gone ++ more ∧
      ∀ departure ∈ more, departure.left = ledger.calls := by
  have released : ∀ leaves, ∃ more, (ledger.release leaves).gone = ledger.gone ++ more ∧
      ∀ departure ∈ more, departure.left = ledger.calls := fun leaves =>
    ⟨_, rfl, fun departure member => by
      obtain ⟨_, _, rfl⟩ := List.mem_map.mp member
      rfl⟩
  have nobody : ∃ more, ledger.gone = ledger.gone ++ more ∧
      ∀ departure ∈ more, departure.left = ledger.calls :=
    ⟨[], (List.append_nil _).symm, nofun⟩
  unfold note
  split
  · exact nobody
  · exact released _
  · exact released _
  · exact released _
  · exact released _
  · exact nobody

theorem gone_of_append (history more : History) :
    ∃ later, (of (history ++ more)).gone = (of history).gone ++ later ∧
      ∀ departure ∈ later, (of history).calls ≤ departure.left := by
  suffices general : ∀ ledger : Ledger, ∃ later,
      (more.foldl (fun ledger (call, response) => ledger.note call response) ledger).gone =
        ledger.gone ++ later ∧ ∀ departure ∈ later, ledger.calls ≤ departure.left by
    rw [of, List.foldl_append]
    exact general _
  induction more with
  | nil => exact fun ledger => ⟨[], (List.append_nil _).symm, nofun⟩
  | cons entry rest ih =>
    intro ledger
    obtain ⟨now, here, at_⟩ := ledger.gone_note entry.1 entry.2
    obtain ⟨later, there, after⟩ := ih (ledger.note entry.1 entry.2)
    rw [calls_note] at after
    refine ⟨now ++ later, ?_, fun departure member => ?_⟩
    · rw [List.foldl_cons, there, here, List.append_assoc]
    · rcases List.mem_append.mp member with first | behind
      · exact Nat.le_of_eq (at_ departure first).symm
      · exact Nat.le_of_succ_le (after departure behind)

/-- Who waits after the first calls is told by the books of the whole run. -/
theorem mem_waiting_take {history : History} {moment : Nat}
    {queue last : List BlockRequest} (earlier : (of (history.take moment)).Tallies
      (history.take moment) queue)
    (whole : (of history).Tallies history last) (entry : Entry) :
    entry ∈ (of (history.take moment)).waiting ↔ (of history).WaitsAt moment entry := by
  obtain ⟨later, gone, after⟩ := gone_of_append (history.take moment) (history.drop moment)
  rw [List.take_append_drop] at gone
  constructor
  · intro waiting
    have member : entry ∈ (of (history.take moment)).entries := List.mem_append_left _ waiting
    obtain ⟨accepted, before⟩ := accepted_take.mp ((earlier.entered entry).mp member)
    refine ⟨(whole.entered entry).mpr accepted, before, fun departure left same => ?_⟩
    have inside := (whole.freed departure left).2
    rw [gone] at left
    rcases List.mem_append.mp left with already | behind
    · have twice := (List.nodup_append.mp earlier.once).2.2 entry waiting departure.entry
        (List.mem_map_of_mem already)
      exact absurd same.symm twice
    · obtain ⟨call, response, heard, -⟩ := inside
      have bound := (List.getElem?_eq_some_iff.mp heard).1
      have limit := after departure behind
      rw [earlier.calls, List.length_take] at limit
      omega
  · rintro ⟨member, before, stays⟩
    have accepted := accepted_take.mpr ⟨(whole.entered entry).mp member, before⟩
    rcases List.mem_append.mp ((earlier.entered entry).mpr accepted) with waiting | left
    · exact waiting
    · obtain ⟨departure, already, rfl⟩ := List.mem_map.mp left
      obtain ⟨-, call, response, heard, -⟩ := earlier.freed departure already
      have bound := (List.getElem?_eq_some_iff.mp heard).1
      have limit := stays departure (gone ▸ List.mem_append_left _ already) rfl
      rw [List.length_take] at bound
      omega

end Ledger

namespace Session

theorem after_append (session : Session) (calls more : List Call) :
    session.after (calls ++ more) = (session.after calls).after more :=
  List.foldl_append

theorem history_append (session : Session) (calls more : List Call) :
    session.history (calls ++ more) =
      session.history calls ++ (session.after calls).history more := by
  induction calls generalizing session with
  | nil => rfl
  | cons call rest ih => exact congrArg _ (ih (session.call call).1)

theorem history_take (session : Session) (calls : List Call) (moment : Nat) :
    (session.history calls).take moment = session.history (calls.take moment) := by
  induction calls generalizing session moment with
  | nil => rw [history, List.take_nil, List.take_nil, history]
  | cons call rest ih =>
    cases moment with
    | zero => rfl
    | succ moment => exact congrArg _ (ih (session.call call).1 moment)

/-- The response to a call is what the session after the calls before it gives. -/
theorem history_getElem? {session : Session} {calls : List Call} {moment : Nat} {call : Call}
    {response : Response} (heard : (session.history calls)[moment]? = some (call, response)) :
    response = ((session.after (calls.take moment)).call call).2 := by
  induction calls generalizing session moment with
  | nil => cases heard
  | cons first rest ih =>
    cases moment with
    | zero =>
      cases heard
      rfl
    | succ moment => exact ih heard

theorem after_regular (address : Address) (pieces depth now : Nat) (calls : List Call) :
    ((new address pieces depth now).after calls).Regular pieces depth := by
  induction calls using List.reverseRecOn with
  | nil => exact new_regular address pieces depth now
  | append_singleton calls call ih =>
    rw [after_append]
    exact call_regular ih call

/-- After every run of calls on a new session the books are right. -/
theorem after_tallies (address : Address) (pieces depth now : Nat) (calls : List Call) :
    (Ledger.of ((new address pieces depth now).history calls)).Tallies
      ((new address pieces depth now).history calls)
      ((new address pieces depth now).after calls).downloads := by
  induction calls using List.reverseRecOn with
  | nil => exact Ledger.empty_tallies
  | append_singleton calls call ih =>
    rw [after_append, history_append, history, history, Ledger.of_append]
    exact ih.note call

end Session

/-- At all times the queue holds exactly the requests that were accepted and have not left, in the
order of acceptance; they leave once, and for a reason. -/
theorem calls_account (address : Address) (pieces depth now : Nat) (calls : List Call) :
    let fresh := Session.new address pieces depth now
    let session := fresh.after calls
    let history := fresh.history calls
    let ledger := Ledger.of history
    session.Regular pieces depth ∧
      ledger.Accounts history ∧
      (∀ moment, ∃ waiting : List Entry,
        (fresh.after (calls.take moment)).downloads = waiting.map (·.request) ∧
          waiting.Pairwise (·.accepted < ·.accepted) ∧
          (∀ entry, entry ∈ waiting ↔ ledger.WaitsAt moment entry) ∧
          ∀ now dropped, history[moment]? =
            some (.receive now .choke, .received (.ok (.choked dropped))) →
            dropped = waiting.map (·.request)) ∧
      ∀ now message violation, (session.receive now message).2 = .error violation →
        (session.receive now message).1 =
          { session with
            phase := (session.receive now message).1.phase
            lastReceived := (session.receive now message).1.lastReceived } := by
  intro fresh session history ledger
  have whole := Session.after_tallies address pieces depth now calls
  refine ⟨Session.after_regular address pieces depth now calls, whole.toAccounts,
    fun moment => ?_, fun now message _ refused => Session.receive_refused now message refused⟩
  have earlier := Session.after_tallies address pieces depth now (calls.take moment)
  rw [← Session.history_take] at earlier
  refine ⟨(Ledger.of (history.take moment)).waiting, earlier.queue, earlier.order,
    Ledger.mem_waiting_take earlier whole, fun now dropped heard => ?_⟩
  have response := Session.history_getElem? heard
  rw [← earlier.queue]
  simp only [Session.call, Session.receive, Prod.map_snd] at response
  split at response
  · cases response
    rfl
  · cases response

/-- The same block is asked for twice. It comes once, and the peer chokes us. -/
def Sample.repeated : List Call :=
  [.handshakeDone 0 peerId .none, .receive 0 .unchoke, .request request, .request request,
    .request ⟨0, 4, 4⟩, .receive 0 (.piece 0 0 content), .dropRequests 1, .receive 0 .choke]

/-- The request that was made first is the one that is answered. -/
theorem calls_account_repeated :
    let history := (Session.new Sample.first 1 3 0).history Sample.repeated
    (Ledger.of history).waiting = [] ∧
      (Ledger.of history).gone =
        [⟨⟨2, Sample.request⟩, 5⟩, ⟨⟨3, Sample.request⟩, 7⟩, ⟨⟨4, ⟨0, 4, 4⟩⟩, 7⟩] ∧
      (Ledger.of history).Accounts history :=
  ⟨by decide +kernel, by decide +kernel, (calls_account Sample.first 1 3 0 Sample.repeated).2.1⟩

end BitTorrent
