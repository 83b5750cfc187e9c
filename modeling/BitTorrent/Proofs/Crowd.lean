import BitTorrent.Proofs.Worker
import Mathlib.Data.List.Induction

/-!
What connected peers learn about our pieces. A peer is sent the set of complete pieces once, and
every piece that is completed from its registration on is put into its mailbox. Handlers interleave
at their waits, and the store answers what it likes.
-/

set_option autoImplicit false

namespace BitTorrent

/-- A torrent and its connected peers, any number of which may be waiting for the store. -/
structure Crowd where
  download : Download
  workers : List Worker

/-- What happens between two waits. A worker that is abandoned leaves its entry behind. -/
inductive Stretch where
  | join (address : Address) (peerId : PeerId) (source : PeerSource)
      (capabilities : Capabilities) (now : Nat)
  | perform (address : Address) (deed : Deed)
  | leave (address : Address)
  | abandon (address : Address)
  | know (address : Address) (peerId : Option PeerId) (source : PeerSource)
  | forget (address : Address)
  | shutdown
  | ban (ip : IpAddress)
  | recheck (store : MemoryStore)

/-- The piece that a command is about. -/
def Command.news? : Command → Option Nat
  | .have_ piece => some piece
  | .disconnect => none

/-- The piece that a message announces on its own. -/
def Message.news? : Message → Option Nat
  | .have_ index => some index
  | _ => none

namespace Download

/-- The pieces that wait in a mailbox to be announced. -/
def pending (download : Download) (number : Nat) : List Nat :=
  (download.roster.queued number).filterMap Command.news?

/-- Whether what is broadcast reaches a mailbox. -/
def Reaches (download : Download) (number : Nat) : Prop :=
  number ∈ download.roster.numbers ∧ download.roster.takes number = true

end Download

namespace Worker

/-- The pieces that were announced on their own. -/
def told (worker : Worker) : List Nat :=
  worker.sent.filterMap Message.news?

/-- Whether the set of complete pieces was sent. -/
def Greeted (worker : Worker) : Prop :=
  ∃ bytes, .bitfield bytes ∈ worker.sent

/-- Whether a set that was sent has a piece, read the way a peer reads it. -/
def Shown (worker : Worker) (pieces piece : Nat) : Prop :=
  ∃ bytes field, .bitfield bytes ∈ worker.sent ∧
    Bitfield.ofBytes? pieces bytes = some field ∧ field.has piece = true

/-- Whether a piece was made known to the peer, or is about to be. -/
def Learns (worker : Worker) (download : Download) (piece : Nat) : Prop :=
  worker.Shown download.torrent.pieceCount piece ∨
    piece ∈ worker.told ++ download.pending worker.mailbox

end Worker

namespace Crowd

/-- Nobody is connected, and no piece is complete. -/
def start (torrent : Torrent) (settings : Settings) (selector : Selector) (ownId : PeerId)
    (draws : List Nat) : Crowd where
  download := (Download.new torrent settings ownId draws).withSelector selector
  workers := []

def worker? (crowd : Crowd) (address : Address) : Option Worker :=
  crowd.workers.find? (·.address = address)

/-- Changes who is known. -/
def withRoster (crowd : Crowd) (roster : Roster) : Crowd :=
  { crowd with download := crowd.download.withRoster roster }

/-- Takes over what a handler leaves behind. -/
def put (crowd : Crowd) (download : Download) (worker : Worker) : Crowd where
  download := download
  workers := crowd.workers.map fun other =>
    if other.address = worker.address then worker else other

/-- Takes over what a worker leaves behind that is gone. -/
def dismiss (crowd : Crowd) (download : Download) (worker : Worker) : Crowd where
  download := download.withRoster (download.roster.close worker.mailbox)
  workers := crowd.workers.filter (·.address ≠ worker.address)

def join (crowd : Crowd) (address : Address) (peerId : PeerId) (source : PeerSource)
    (capabilities : Capabilities) (now : Nat) : Crowd :=
  match crowd.download.roster.attach address peerId source with
  | .error _ => crowd
  | .ok (roster, mailbox) =>
    let session := (crowd.download.newSession address now).connecting.handshakeDone now peerId
      capabilities
    ⟨crowd.download.withRoster roster, crowd.workers ++ [⟨session, mailbox, [], none⟩]⟩

def perform (crowd : Crowd) (address : Address) (deed : Deed) : Crowd :=
  match crowd.worker? address with
  | none => crowd
  | some worker =>
    match worker.perform crowd.download deed with
    | none => crowd
    | some (turn, next) => crowd.put turn.download (worker.after turn next)

/-- Pieces are completed for what the store holds before anybody is connected. -/
def step (crowd : Crowd) : Stretch → Crowd
  | .join address peerId source capabilities now =>
    crowd.join address peerId source capabilities now
  | .perform address deed => crowd.perform address deed
  | .leave address =>
    match crowd.worker? address with
    | none => crowd
    | some worker => crowd.dismiss (worker.turn crowd.download).onDisconnect.download worker
  | .abandon address =>
    match crowd.worker? address with
    | none => crowd
    | some worker => crowd.dismiss crowd.download worker
  | .know address peerId source =>
    crowd.withRoster (crowd.download.roster.add address peerId source).1
  | .forget address => crowd.withRoster (crowd.download.roster.forget address).1
  | .shutdown => { crowd with download := crowd.download.shutdown }
  | .ban ip => { crowd with download := crowd.download.ban ip }
  | .recheck store =>
    if crowd.workers.isEmpty then { crowd with download := (crowd.download.recheck store).1 }
    else crowd

/-- What a crowd becomes as one stretch runs after the other. -/
def run (crowd : Crowd) (stretches : List Stretch) : Crowd :=
  stretches.foldl step crowd

/-- A stretch puts the news of a piece into a mailbox. -/
def Queues (crowd : Crowd) (stretch : Stretch) (number piece : Nat) : Prop :=
  (crowd.download.pending number).count piece <
    ((crowd.step stretch).download.pending number).count piece

end Crowd

namespace Download

variable {address : Address} {number : Nat} {before middle after : Download}

/-- The shared state changes, and a mailbox gets the news of the pieces that become complete. -/
structure Informs (address : Address) (number : Nat) (before after : Download) : Prop where
  torrent : after.torrent = before.torrent
  size : after.holdings.completed.size = before.holdings.completed.size
  lined : (address, some number) ∈ before.roster.lines →
    (address, some number) ∈ after.roster.lines
  isOpen : after.roster.takes number = before.roster.takes number
  grows : ∀ {piece}, before.holdings.has piece = true → after.holdings.has piece = true
  news : ∃ news : List Command,
    after.roster.queued number = before.roster.queued number ++ news ∧
    (news.filterMap Command.news?).Nodup ∧
    (∀ piece ∈ news.filterMap Command.news?,
      after.holdings.has piece = true ∧ before.holdings.has piece = false) ∧
    (before.Reaches number → ∀ {piece}, after.holdings.has piece = true →
      before.holdings.has piece = false → piece ∈ news.filterMap Command.news?)

/-- Nothing becomes complete, and the mailbox stays as it is. -/
theorem Informs.still (torrent : after.torrent = before.torrent)
    (completed : after.holdings.completed = before.holdings.completed)
    (lined : (address, some number) ∈ before.roster.lines →
      (address, some number) ∈ after.roster.lines)
    (isOpen : after.roster.takes number = before.roster.takes number)
    (queued : after.roster.queued number = before.roster.queued number) :
    before.Informs address number after where
  torrent := torrent
  size := by rw [completed]
  lined := lined
  isOpen := isOpen
  grows := by
    intro piece held
    rwa [Holdings.has, completed]
  news := by
    refine ⟨[], by rw [queued, List.append_nil], List.nodup_nil, ?_, ?_⟩
    · intro piece member
      cases member
    · intro _ piece held missing
      rw [Holdings.has, completed] at held
      cases held.symm.trans missing

/-- What happens afterwards concerns neither the pieces nor who is known. -/
theorem Informs.quiet {turn later : Turn} (informs : before.Informs address number turn.download)
    (quiet : turn.Quiet later) : before.Informs address number later.download where
  torrent := quiet.torrent.trans informs.torrent
  size := by rw [quiet.completed, informs.size]
  lined := fun member => quiet.lines ▸ informs.lined member
  isOpen := (Roster.takes_congr quiet.mailboxes number).trans informs.isOpen
  grows := by
    intro piece held
    rw [Holdings.has, quiet.completed]
    exact informs.grows held
  news := by
    obtain ⟨news, queued, distinct, fresh, whole⟩ := informs.news
    refine ⟨news, (Roster.queued_congr quiet.mailboxes number).trans queued, distinct, ?_, ?_⟩
    · intro piece member
      rw [Holdings.has, quiet.completed]
      exact fresh piece member
    · intro reached piece held missing
      rw [Holdings.has, quiet.completed] at held
      exact whole reached held missing

theorem broadcast_informs (orderly : before.roster.Orderly) (command : Command)
    (silent : command.news? = none) :
    before.Informs address number
      (before.withRoster (before.roster.broadcast command).1) where
  torrent := rfl
  size := rfl
  lined := fun member => (Roster.lines_broadcast before.roster command).symm ▸ member
  isOpen := Roster.takes_broadcast _ _ _
  grows := id
  news := by
    have queued := Roster.queued_broadcast command number orderly.numbers
    split at queued
    · refine ⟨[command], queued, ?_, ?_, ?_⟩
      · rw [List.filterMap_cons_none silent]
        exact List.nodup_nil
      · rw [List.filterMap_cons_none silent]
        exact fun _ member => nomatch member
      · intro _ piece held missing
        exact nomatch held.symm.trans missing
    · refine ⟨[], queued.trans (List.append_nil _).symm, List.nodup_nil,
        (fun _ member => nomatch member), ?_⟩
      intro _ piece held missing
      exact nomatch held.symm.trans missing

/-- A piece that becomes complete is announced to everybody; one that is complete is not. -/
theorem verify_informs (orderly : before.roster.Orderly) (piece : Piece) :
    before.Informs address number (before.verify piece) := by
  have has : ∀ other, (before.verify piece).holdings.has other =
      (before.holdings.has other ||
        (decide (piece.index = other) && decide (other < before.holdings.completed.size))) := by
    intro other
    rw [holdings_verify, Holdings.has_complete]
  have fresh : (before.complete piece.index).2 = true ↔
      piece.index < before.holdings.completed.size ∧ before.holdings.has piece.index = false := by
    simp only [complete, Holdings.complete]
    split
    · rename_i inside
      simp [inside]
    · rename_i outside
      simp [outside]
  have grows : ∀ {other}, before.holdings.has other = true →
      (before.verify piece).holdings.has other = true := by
    intro other held
    rw [has, held, Bool.true_or]
  have size : (before.verify piece).holdings.completed.size = before.holdings.completed.size := by
    rw [holdings_verify, Holdings.size_complete]
  by_cases new : (before.complete piece.index).2 = true
  · have announced : before.verify piece =
        (before.complete piece.index).1.announce piece.index := if_pos new
    obtain ⟨inside, missing⟩ := fresh.mp new
    have only : ∀ {other}, (before.verify piece).holdings.has other = true →
        before.holdings.has other = false → other = piece.index := by
      intro other held absent
      rw [has, absent, Bool.false_or, Bool.and_eq_true, decide_eq_true_eq] at held
      exact held.1.symm
    have held : (before.verify piece).holdings.has piece.index = true := by
      rw [has]
      simp [inside]
    have queued := Roster.queued_broadcast (.have_ piece.index) number orderly.numbers
    refine ⟨by rw [announced]; rfl, size, ?_, ?_, grows, ?_⟩
    · intro member
      rw [announced]
      exact (Roster.lines_broadcast before.roster (.have_ piece.index)).symm ▸ member
    · rw [announced]
      exact Roster.takes_broadcast _ _ _
    · split at queued
      · refine ⟨[.have_ piece.index], by rw [announced]; exact queued,
          List.nodup_singleton _, ?_, ?_⟩
        · intro other member
          rw [List.mem_singleton.mp member]
          exact ⟨held, missing⟩
        · intro _ other now absent
          exact List.mem_singleton.mpr (only now absent)
      · rename_i unreached
        refine ⟨[], by rw [announced, List.append_nil]; exact queued, List.nodup_nil,
          (fun _ member => absurd member List.not_mem_nil), ?_⟩
        exact fun reached => absurd reached unreached
  · have same : before.verify piece = (before.complete piece.index).1 := if_neg new
    refine ⟨by rw [same]; rfl, size, by rw [same]; exact id, by rw [same]; rfl, grows, [],
      by rw [same, List.append_nil]; rfl, List.nodup_nil,
      (fun _ member => absurd member List.not_mem_nil), ?_⟩
    intro _ other held absent
    rw [has, absent, Bool.false_or, Bool.and_eq_true, decide_eq_true_eq, decide_eq_true_eq] at held
    obtain ⟨rfl, inside⟩ := held
    exact absurd (fresh.mpr ⟨inside, absent⟩) new

/-- Pieces stay complete, and a mailbox gets the news of a piece only as it becomes complete. -/
structure Heralds (before after : Download) : Prop where
  grows : ∀ {piece}, before.holdings.has piece = true → after.holdings.has piece = true
  fresh : ∀ {number piece},
    (before.pending number).count piece < (after.pending number).count piece →
      before.holdings.has piece = false ∧ after.holdings.has piece = true

/-- No mailbox gets anything. -/
theorem Heralds.silent
    (grows : ∀ {piece}, before.holdings.has piece = true → after.holdings.has piece = true)
    (fewer : ∀ number, (after.pending number).Sublist (before.pending number)) :
    before.Heralds after where
  grows := grows
  fresh := fun more => absurd more (Nat.not_lt.mpr ((fewer _).count_le _))

theorem Informs.fresh (informs : before.Informs address number after) {piece : Nat}
    (more : (before.pending number).count piece < (after.pending number).count piece) :
    before.holdings.has piece = false ∧ after.holdings.has piece = true := by
  obtain ⟨news, queued, -, fresh, -⟩ := informs.news
  have pending : after.pending number = before.pending number ++ news.filterMap Command.news? := by
    rw [pending, queued, List.filterMap_append]
    rfl
  rw [pending, List.count_append] at more
  have inside : 0 < (news.filterMap Command.news?).count piece := by omega
  exact (fresh piece (List.count_pos_iff.mp inside)).symm

end Download

namespace Worker

variable {worker : Worker} {before after download : Download} {turn : Turn} {next : Next}

/-- What a connected peer knows of our pieces. -/
structure Informed (worker : Worker) (download : Download) : Prop where
  genuine : ∀ piece, worker.Learns download piece → download.holdings.has piece = true
  once : (worker.told ++ download.pending worker.mailbox).Nodup
  whole : worker.Greeted → ∀ piece, download.holdings.has piece = true →
    worker.Learns download piece

/-- A worker is reached by what is broadcast and knows what there is to know. -/
structure Settled (worker : Worker) (download : Download) : Prop where
  lined : (worker.address, some worker.mailbox) ∈ download.roster.lines
  isOpen : download.roster.takes worker.mailbox = true
  sized : worker.session.bitfield.size = download.holdings.completed.size
  informed : worker.Informed download

theorem Settled.reached (settled : worker.Settled download) :
    download.Reaches worker.mailbox :=
  ⟨Roster.mem_numbers.mpr ⟨_, settled.lined⟩, settled.isOpen⟩

/-- News that come do not change what is known. -/
theorem Informed.informs (informed : worker.Informed before)
    (informs : before.Informs worker.address worker.mailbox after)
    (reached : before.Reaches worker.mailbox) : worker.Informed after := by
  obtain ⟨news, queued, distinct, fresh, whole⟩ := informs.news
  have pending : after.pending worker.mailbox =
      before.pending worker.mailbox ++ news.filterMap Command.news? := by
    rw [Download.pending, queued, List.filterMap_append]
    rfl
  have learns : ∀ piece, worker.Learns after piece ↔
      worker.Learns before piece ∨ piece ∈ news.filterMap Command.news? := by
    intro piece
    rw [Learns, Learns, pending, informs.torrent, ← List.append_assoc, List.mem_append, or_assoc]
  refine ⟨?_, ?_, ?_⟩
  · intro piece learned
    rcases (learns piece).mp learned with known | new
    · exact informs.grows (informed.genuine piece known)
    · exact (fresh piece new).1
  · rw [pending, ← List.append_assoc]
    refine List.nodup_append'.mpr ⟨informed.once, distinct, ?_⟩
    intro piece known new
    have held := informed.genuine piece (Or.inr known)
    exact nomatch held.symm.trans (fresh piece new).2
  · intro greeted piece held
    cases earlier : before.holdings.has piece with
    | true => exact (learns piece).mpr (Or.inl (informed.whole greeted piece earlier))
    | false => exact (learns piece).mpr (Or.inr (whole reached held earlier))

theorem Settled.informs (settled : worker.Settled before)
    (informs : before.Informs worker.address worker.mailbox after) : worker.Settled after where
  lined := informs.lined settled.lined
  isOpen := informs.isOpen.trans settled.isOpen
  sized := settled.sized.trans informs.size.symm
  informed := settled.informed.informs informs settled.reached

/-- What is known does not change when the same sets were sent and the same pieces were told or
wait to be. -/
theorem Informed.congr {other : Worker} (informed : worker.Informed before)
    (shown : ∀ bytes, .bitfield bytes ∈ other.sent ↔ .bitfield bytes ∈ worker.sent)
    (listed : other.told ++ after.pending other.mailbox =
      worker.told ++ before.pending worker.mailbox)
    (torrent : after.torrent = before.torrent)
    (completed : after.holdings.completed = before.holdings.completed) :
    other.Informed after := by
  have learns : ∀ piece, other.Learns after piece ↔ worker.Learns before piece := by
    intro piece
    simp only [Learns, Shown, shown, listed, torrent]
  refine ⟨?_, listed ▸ informed.once, ?_⟩
  · intro piece learned
    rw [Holdings.has, completed]
    exact informed.genuine piece ((learns piece).mp learned)
  · rintro ⟨bytes, sent⟩ piece held
    rw [Holdings.has, completed] at held
    exact (learns piece).mpr (informed.whole ⟨bytes, (shown bytes).mp sent⟩ piece held)

theorem news_of_quiet {said : List Message} (quiet : ∀ message ∈ said, message.announces = false) :
    said.filterMap Message.news? = [] := by
  rw [List.filterMap_eq_nil_iff]
  intro message member
  have silent := quiet message member
  cases message with
  | have_ piece => cases silent
  | _ => rfl

theorem not_bitfield_of_quiet {said : List Message}
    (quiet : ∀ message ∈ said, message.announces = false) (bytes : Bytes) :
    .bitfield bytes ∉ said :=
  fun member => nomatch quiet _ member

theorem Settled.begin (settled : worker.Settled download) (next : Next) :
    (worker.after (worker.turn download) next).Settled download := by
  have sent : (worker.after (worker.turn download) next).sent = worker.sent := List.append_nil _
  refine ⟨settled.lined, settled.isOpen, settled.sized, settled.informed.congr ?_ ?_ rfl rfl⟩
  · intro bytes
    rw [sent]
  · rw [told, sent]
    rfl

/-- A turn that says nothing more about our pieces changes nothing that its peer knows. -/
theorem Settled.quiet {base said : Turn} {before : Next}
    (settled : (worker.after base before).Settled base.download) (quiet : base.Quiet said)
    (next : Next) : (worker.after said next).Settled said.download := by
  obtain ⟨messages, same, silent⟩ := quiet.outbox
  have sent : (worker.after said next).sent = (worker.after base before).sent ++ messages := by
    rw [after, after, same, List.append_assoc]
  have address : (worker.after said next).address = (worker.after base before).address :=
    quiet.address
  refine ⟨?_, ?_, ?_, settled.informed.congr ?_ ?_ quiet.torrent quiet.completed⟩
  · rw [address, quiet.lines]
    exact settled.lined
  · exact (Roster.takes_congr quiet.mailboxes _).trans settled.isOpen
  · rw [quiet.completed]
    exact quiet.sized.trans settled.sized
  · intro bytes
    rw [sent, List.mem_append]
    exact or_iff_left (not_bitfield_of_quiet silent bytes)
  · have told : (worker.after said next).told = (worker.after base before).told := by
      rw [told, sent, List.filterMap_append, news_of_quiet silent, List.append_nil, told]
    have pending : said.download.pending worker.mailbox =
        base.download.pending worker.mailbox := by
      rw [Download.pending, Roster.queued_congr quiet.mailboxes, Download.pending]
    rw [told]
    exact congrArg _ pending

/-- Whoever is sent the set of complete pieces knows them all. -/
theorem Settled.greet (settled : worker.Settled download)
    (sized : download.holdings.completed.size = download.torrent.pieceCount) (next : Next) :
    (worker.after (worker.turn download).greet next).Settled download := by
  have sent : (worker.after (worker.turn download).greet next).sent =
      worker.sent ++ [.bitfield download.holdings.completed.toBytes] := rfl
  have told : (worker.after (worker.turn download).greet next).told = worker.told := by
    rw [told, sent, List.filterMap_append]
    exact List.append_nil _
  have read := Bitfield.ofBytes?_toBytes download.holdings.completed
  rw [sized] at read
  refine ⟨settled.lined, settled.isOpen, settled.sized, ?_, ?_, ?_⟩
  · rintro piece (⟨bytes, field, member, decoded, held⟩ | listed)
    · rw [sent, List.mem_append, List.mem_singleton] at member
      rcases member with earlier | same
      · exact settled.informed.genuine piece (Or.inl ⟨bytes, field, earlier, decoded, held⟩)
      · cases same
        cases read.symm.trans decoded
        exact held
    · rw [told] at listed
      exact settled.informed.genuine piece (Or.inr listed)
  · rw [told]
    exact settled.informed.once
  · intro _ piece held
    exact Or.inl ⟨_, _, List.mem_append_right _ (List.mem_singleton_self _), read, held⟩

/-- The first piece that waits to be told is told. -/
theorem Settled.news {middle : Turn} {piece : Nat} {rest : List Command}
    (settled : worker.Settled download)
    (queued : download.roster.queued worker.mailbox = .have_ piece :: rest)
    (quiet : ((worker.turn download).take worker.mailbox rest).Quiet middle) :
    (worker.after (middle.say (.have_ piece)) (.done (.ok .stay))).Settled middle.download := by
  obtain ⟨messages, same, silent⟩ := quiet.outbox
  have sent : (worker.after (middle.say (.have_ piece)) (.done (.ok .stay))).sent =
      worker.sent ++ (messages ++ [.have_ piece]) := by
    have outbox : middle.outbox = messages := same
    rw [after, Turn.say, outbox]
  have address : (worker.after (middle.say (.have_ piece)) (.done (.ok .stay))).address =
      worker.address := quiet.address
  have left : middle.download.roster.queued worker.mailbox = rest :=
    (Roster.queued_congr quiet.mailboxes _).trans (Roster.queued_rest queued)
  refine ⟨?_, ?_, ?_, settled.informed.congr ?_ ?_ quiet.torrent quiet.completed⟩
  · rw [address, quiet.lines]
    exact settled.lined
  · refine (Roster.takes_congr quiet.mailboxes _).trans ?_
    exact (Roster.takes_setQueue _ _ _ _).trans settled.isOpen
  · rw [quiet.completed]
    exact quiet.sized.trans settled.sized
  · intro bytes
    rw [sent, List.mem_append, List.mem_append, List.mem_singleton]
    constructor
    · rintro (earlier | said | same)
      · exact earlier
      · exact absurd said (not_bitfield_of_quiet silent bytes)
      · cases same
    · exact Or.inl
  · have told : (worker.after (middle.say (.have_ piece)) (.done (.ok .stay))).told =
        worker.told ++ [piece] := by
      rw [told, sent, List.filterMap_append, List.filterMap_append, news_of_quiet silent]
      rfl
    have pending : download.pending worker.mailbox =
        piece :: rest.filterMap Command.news? := by
      rw [Download.pending, queued]
      rfl
    rw [told, pending, List.append_assoc]
    exact congrArg (fun commands => worker.told ++ piece :: commands.filterMap Command.news?) left

/-- Whatever a worker does, its peer knows what there is to know. -/
theorem Tells.settled (tells : worker.Tells download turn) (settled : worker.Settled download)
    (orderly : download.roster.Orderly)
    (sized : download.holdings.completed.size = download.torrent.pieceCount) (next : Next) :
    (worker.after turn next).Settled turn.download := by
  cases tells with
  | nothing quiet => exact (settled.begin next).quiet quiet next
  | pieces => exact settled.greet sized next
  | verified piece quiet =>
    have verified := settled.informs (Download.verify_informs orderly piece)
    exact (verified.begin next).quiet quiet next
  | news piece rest queued before later => exact (settled.news queued before).quiet later next
  | dismissed rest queued =>
    have sent : (worker.after ((worker.turn download).take worker.mailbox rest) next).sent =
        worker.sent := List.append_nil _
    refine ⟨settled.lined, (Roster.takes_setQueue _ _ _ _).trans settled.isOpen, settled.sized,
      settled.informed.congr ?_ ?_ rfl rfl⟩
    · intro bytes
      rw [sent]
    · have left : ((worker.turn download).take worker.mailbox rest).download.pending
          worker.mailbox = download.pending worker.mailbox := by
        have taken := Roster.queued_rest queued
        rw [Download.pending, Download.pending, queued]
        exact (congrArg (List.filterMap Command.news?) taken).trans rfl
      rw [told, sent]
      exact congrArg (worker.told ++ ·) left

theorem Tells.address (tells : worker.Tells download turn) :
    turn.session.address = worker.address := by
  cases tells with
  | nothing quiet | verified _ quiet => exact quiet.address
  | pieces | dismissed => rfl
  | news piece rest queued before later => exact later.address.trans before.address

/-- What a worker does is news to the others if it completes a piece. -/
theorem Tells.informs (tells : worker.Tells download turn) (orderly : download.roster.Orderly)
    {address : Address} {number : Nat} (other : number ≠ worker.mailbox) :
    download.Informs address number turn.download := by
  have same : ∀ rest, download.Informs address number
      ((worker.turn download).take worker.mailbox rest).download := fun rest =>
    .still rfl rfl id (Roster.takes_setQueue _ _ _ _) (Roster.queued_setQueue other)
  have start : download.Informs address number (worker.turn download).download :=
    .still rfl rfl id rfl rfl
  cases tells with
  | nothing quiet => exact start.quiet quiet
  | pieces => exact start
  | verified piece quiet =>
    have verified : download.Informs address number
        (worker.turn (download.verify piece)).download := Download.verify_informs orderly piece
    exact verified.quiet quiet
  | news piece rest queued before later =>
    rename_i middle
    have silent := (same rest).quiet before
    have said : download.Informs address number (middle.say (.have_ piece)).download := silent
    exact said.quiet later
  | dismissed rest => exact same rest

theorem Tells.roster (tells : worker.Tells download turn) :
    turn.download.roster.lines = download.roster.lines ∧
      turn.download.roster.mailboxes.length = download.roster.mailboxes.length := by
  have boxes : ∀ {first second : Turn}, first.Quiet second →
      second.download.roster.mailboxes.length = first.download.roster.mailboxes.length := by
    intro first second quiet
    rw [quiet.mailboxes]
  cases tells with
  | nothing quiet => exact ⟨quiet.lines, boxes quiet⟩
  | pieces => exact ⟨rfl, rfl⟩
  | verified piece quiet =>
    refine ⟨quiet.lines.trans ?_, (boxes quiet).trans ?_⟩
    · change (download.verify piece).roster.lines = _
      unfold Download.verify
      split
      · exact Roster.lines_broadcast _ _
      · rfl
    · change (download.verify piece).roster.mailboxes.length = _
      unfold Download.verify
      split
      · exact Roster.length_broadcast _ _
      · rfl
  | news piece rest queued before later =>
    refine ⟨later.lines.trans before.lines, (boxes later).trans ((boxes before).trans ?_)⟩
    exact List.length_modify _ _ _
  | dismissed rest => exact ⟨rfl, List.length_modify _ _ _⟩

/-- A mailbox gets the news of a piece only as a worker completes it. -/
theorem Tells.heralds (tells : worker.Tells download turn) (orderly : download.roster.Orderly) :
    download.Heralds turn.download := by
  have others := @Tells.informs _ _ _ tells orderly worker.address (worker.mailbox + 1)
    (Nat.succ_ne_self _)
  refine ⟨others.grows, ?_⟩
  intro number piece more
  by_cases own : number = worker.mailbox
  · subst own
    have fewer : ∀ {rest : List Command},
        turn.download.roster.queued worker.mailbox = rest →
        (rest.filterMap Command.news?).Sublist (download.pending worker.mailbox) →
        download.holdings.has piece = false ∧ turn.download.holdings.has piece = true := by
      intro rest left sublist
      rw [← left] at sublist
      exact absurd more (Nat.not_lt.mpr (sublist.count_le _))
    cases tells with
    | nothing quiet =>
      have start : download.Informs worker.address worker.mailbox (worker.turn download).download :=
        .still rfl rfl id rfl rfl
      exact (start.quiet quiet).fresh more
    | pieces => exact absurd more (Nat.lt_irrefl _)
    | verified piece quiet =>
      have verified : download.Informs worker.address worker.mailbox
          (worker.turn (download.verify piece)).download := Download.verify_informs orderly piece
      exact (verified.quiet quiet).fresh more
    | news piece rest queued before later =>
      refine @fewer rest ?_ ?_
      · refine (Roster.queued_congr later.mailboxes _).trans ?_
        exact (Roster.queued_congr before.mailboxes _).trans (Roster.queued_rest queued)
      · rw [Download.pending, queued]
        exact List.sublist_cons_self _ _
    | dismissed rest queued =>
      refine fewer (Roster.queued_rest queued) ?_
      rw [Download.pending, queued]
      exact List.Sublist.refl _
  · exact (@Tells.informs _ _ _ tells orderly worker.address number own).fresh more

end Worker

namespace Crowd

variable {crowd : Crowd}

/-- Everybody who is connected is reached by what is broadcast and knows what there is to know. -/
structure Sound (crowd : Crowd) : Prop where
  orderly : crowd.download.roster.Orderly
  sized : crowd.download.holdings.completed.size = crowd.download.torrent.pieceCount
  addresses : (crowd.workers.map (·.address)).Nodup
  settled : ∀ worker ∈ crowd.workers, worker.Settled crowd.download

theorem worker?_some {address : Address} {worker : Worker}
    (found : crowd.worker? address = some worker) : worker ∈ crowd.workers :=
  List.mem_of_find?_eq_some found

theorem worker?_address {address : Address} {worker : Worker}
    (found : crowd.worker? address = some worker) : worker.address = address := by
  simpa using List.find?_some found

theorem Sound.same (sound : crowd.Sound) {worker other : Worker}
    (there : worker ∈ crowd.workers) (member : other ∈ crowd.workers)
    (equal : other.address = worker.address) : other = worker :=
  List.inj_on_of_nodup_map sound.addresses member there equal

/-- No two workers have the same mailbox. -/
theorem Sound.apart (sound : crowd.Sound) {worker other : Worker}
    (there : worker ∈ crowd.workers) (member : other ∈ crowd.workers)
    (different : other.address ≠ worker.address) : other.mailbox ≠ worker.mailbox := by
  intro same
  have left := (sound.settled other member).lined
  rw [same] at left
  exact different (sound.orderly.owner left (sound.settled worker there).lined)

/-- A handler of one worker is run, and the others hear of it. -/
theorem Sound.put (sound : crowd.Sound) {worker after : Worker} {download : Download}
    (there : worker ∈ crowd.workers) (address : after.address = worker.address)
    (orderly : download.roster.Orderly)
    (others : ∀ {address number}, number ≠ worker.mailbox →
      crowd.download.Informs address number download)
    (mine : after.Settled download)
    (size : download.holdings.completed.size = download.torrent.pieceCount) :
    (crowd.put download after).Sound where
  orderly := orderly
  sized := size
  addresses := by
    have same : (crowd.put download after).workers.map (·.address) =
        crowd.workers.map (·.address) := by
      rw [Crowd.put, List.map_map]
      apply List.map_congr_left
      intro other _
      simp only [Function.comp]
      split
      · rename_i here
        exact here.symm
      · rfl
    rw [same]
    exact sound.addresses
  settled := by
    intro one member
    obtain ⟨other, earlier, rfl⟩ := List.mem_map.mp member
    split
    · exact mine
    · rename_i elsewhere
      rw [address] at elsewhere
      exact (sound.settled other earlier).informs (others (sound.apart there earlier elsewhere))

/-- Whoever stays behind when a worker goes misses nothing. -/
theorem Sound.dismiss_informs (sound : crowd.Sound) {worker other : Worker} {download : Download}
    (there : worker ∈ crowd.workers) (torrent : download.torrent = crowd.download.torrent)
    (completed : download.holdings.completed = crowd.download.holdings.completed)
    (mailboxes : download.roster.mailboxes = crowd.download.roster.mailboxes)
    (kept : ∀ {address box}, address ≠ worker.address →
      (address, box) ∈ crowd.download.roster.lines → (address, box) ∈ download.roster.lines)
    (member : other ∈ (crowd.dismiss download worker).workers) :
    other ∈ crowd.workers ∧ crowd.download.Informs other.address other.mailbox
      (crowd.dismiss download worker).download := by
  obtain ⟨earlier, different⟩ := List.mem_filter.mp member
  have elsewhere : other.address ≠ worker.address := by simpa using different
  have apart := sound.apart there earlier elsewhere
  refine ⟨earlier, .still torrent completed (kept elsewhere) ?_ ?_⟩
  · exact (Roster.takes_close apart).trans (Roster.takes_congr mailboxes _)
  · exact (Roster.queued_close apart).trans (Roster.queued_congr mailboxes _)

/-- A worker goes, and the others do not notice. -/
theorem Sound.dismiss (sound : crowd.Sound) {worker : Worker} {download : Download}
    (there : worker ∈ crowd.workers) (torrent : download.torrent = crowd.download.torrent)
    (completed : download.holdings.completed = crowd.download.holdings.completed)
    (mailboxes : download.roster.mailboxes = crowd.download.roster.mailboxes)
    (fewer : download.roster.lines.Sublist crowd.download.roster.lines)
    (kept : ∀ {address box}, address ≠ worker.address →
      (address, box) ∈ crowd.download.roster.lines → (address, box) ∈ download.roster.lines) :
    (crowd.dismiss download worker).Sound where
  orderly := by
    refine sound.orderly.fewer fewer (Nat.le_of_eq ?_)
    rw [← mailboxes]
    exact (List.length_modify _ _ _).symm
  sized := by
    change download.holdings.completed.size = download.torrent.pieceCount
    rw [completed, torrent]
    exact sound.sized
  addresses := sound.addresses.sublist (List.filter_sublist.map _)
  settled := by
    intro other member
    obtain ⟨earlier, informs⟩ :=
      sound.dismiss_informs there torrent completed mailboxes kept member
    exact (sound.settled other earlier).informs informs

/-- The shared state changes, and every worker hears of it. -/
theorem Sound.informed (sound : crowd.Sound) {download : Download}
    (orderly : download.roster.Orderly)
    (informs : ∀ worker ∈ crowd.workers,
      crowd.download.Informs worker.address worker.mailbox download)
    (size : download.holdings.completed.size = download.torrent.pieceCount) :
    Sound ⟨download, crowd.workers⟩ where
  orderly := orderly
  sized := size
  addresses := sound.addresses
  settled := fun worker member => (sound.settled worker member).informs (informs worker member)

/-- Whoever is connected already misses nothing when a worker comes. -/
theorem Sound.join_informs (sound : crowd.Sound) {address : Address} {peerId : PeerId}
    {source : PeerSource} {roster : Roster} {mailbox : Nat}
    (attached : crowd.download.roster.attach address peerId source = .ok (roster, mailbox))
    {worker : Worker} (member : worker ∈ crowd.workers) :
    worker.address ≠ address ∧ crowd.download.Informs worker.address worker.mailbox
      (crowd.download.withRoster roster) := by
  obtain ⟨-, -, others⟩ := sound.orderly.attach attached
  obtain ⟨rfl, boxes, -⟩ := Roster.attach_lines attached
  have lined := (sound.settled worker member).lined
  have elsewhere : worker.address ≠ address := by
    intro same
    have connected := sound.orderly.isConnected lined
    rw [same, (Roster.attach_ok attached).1] at connected
    cases connected
  exact ⟨elsewhere, .still rfl rfl (others elsewhere)
    (Roster.takes_grown boxes (sound.orderly.inside lined)) (Roster.queued_grown boxes _)⟩

theorem Sound.join (sound : crowd.Sound) (address : Address) (peerId : PeerId)
    (source : PeerSource) (capabilities : Capabilities) (now : Nat) :
    (crowd.join address peerId source capabilities now).Sound := by
  unfold Crowd.join
  split
  · exact sound
  · rename_i roster mailbox attached
    obtain ⟨orderly, mine, -⟩ := sound.orderly.attach attached
    have others := fun {worker} => @Sound.join_informs _ sound _ _ _ _ _ attached worker
    obtain ⟨rfl, boxes, -⟩ := Roster.attach_lines attached
    refine ⟨orderly, sound.sized, ?_, ?_⟩
    · rw [List.map_append, List.map_singleton]
      refine List.nodup_append'.mpr ⟨sound.addresses, List.nodup_singleton _,
        List.disjoint_singleton.mpr ?_⟩
      intro member
      obtain ⟨worker, inside, same⟩ := List.mem_map.mp member
      exact (others inside).1 same
    · intro worker member
      rcases List.mem_append.mp member with earlier | new
      · exact (sound.settled worker earlier).informs (others earlier).2
      · rw [List.mem_singleton.mp new]
        have nothing : (crowd.download.withRoster roster).pending
            crowd.download.roster.mailboxes.length = [] :=
          congrArg (List.filterMap Command.news?) (Roster.queued_newest boxes)
        refine ⟨mine, Roster.takes_newest boxes, (Bitfield.size_empty _).trans sound.sized.symm,
          ?_, ?_, ?_⟩
        · rintro piece (⟨_, _, sent, -⟩ | listed)
          · cases sent
          · rw [nothing] at listed
            cases listed
        · rw [nothing]
          exact List.nodup_nil
        · rintro ⟨_, sent⟩
          cases sent

theorem Sound.perform (sound : crowd.Sound) (address : Address) (deed : Deed) :
    (crowd.perform address deed).Sound := by
  unfold Crowd.perform
  split
  · exact sound
  · rename_i worker found
    split
    · exact sound
    · rename_i turn next performed
      have there := worker?_some found
      have settled := sound.settled worker there
      have tells := worker.perform_tells settled.sized performed
      obtain ⟨lines, boxes⟩ := tells.roster
      have orderly := sound.orderly.fewer (lines ▸ List.Sublist.refl _) (Nat.le_of_eq boxes.symm)
      have others : ∀ {address number}, number ≠ worker.mailbox →
          crowd.download.Informs address number turn.download :=
        fun other => tells.informs sound.orderly other
      have some_ := @others address (worker.mailbox + 1) (Nat.succ_ne_self _)
      refine sound.put there tells.address orderly others
        (tells.settled settled sound.orderly sound.sized next) ?_
      rw [some_.size, some_.torrent]
      exact sound.sized

theorem Sound.leave (sound : crowd.Sound) {worker : Worker} (there : worker ∈ crowd.workers) :
    (crowd.dismiss (worker.turn crowd.download).onDisconnect.download worker).Sound := by
  have quiet := (worker.turn crowd.download).onDisconnect_quiet
  have lines : (worker.turn crowd.download).onDisconnect.download.roster.lines =
      crowd.download.roster.lines.filter (·.1 ≠ worker.address) := Turn.lines_onDisconnect _
  refine sound.dismiss there quiet.torrent quiet.completed quiet.mailboxes ?_ ?_
  · rw [lines]
    exact List.filter_sublist
  · intro address box elsewhere member
    rw [lines]
    exact List.mem_filter.mpr ⟨member, by simpa using elsewhere⟩

theorem know_informs (crowd : Crowd) (address : Address) (peerId : Option PeerId)
    (source : PeerSource) (worker : Worker) :
    crowd.download.Informs worker.address worker.mailbox
      (crowd.withRoster (crowd.download.roster.add address peerId source).1).download := by
  have boxes := crowd.download.roster.mailboxes_add address peerId source
  exact .still rfl rfl ((crowd.download.roster.mem_lines_add address peerId source).1 _)
    (Roster.takes_congr boxes _) (Roster.queued_congr boxes _)

/-- A peer that becomes known changes nothing for those who are connected. -/
theorem Sound.know (sound : crowd.Sound) (address : Address) (peerId : Option PeerId)
    (source : PeerSource) :
    (crowd.withRoster (crowd.download.roster.add address peerId source).1).Sound :=
  sound.informed (sound.orderly.add address peerId source)
    (fun worker _ => crowd.know_informs address peerId source worker) sound.sized

theorem Sound.forget_informs (sound : crowd.Sound) (address : Address) (worker : Worker) :
    crowd.download.Informs worker.address worker.mailbox
      (crowd.withRoster (crowd.download.roster.forget address).1).download := by
  unfold Roster.forget
  split
  · rename_i entry found
    split
    · exact .still rfl rfl id rfl rfl
    · rename_i alone
      refine .still rfl rfl ?_ rfl rfl
      intro lined
      have connected := sound.orderly.isConnected lined
      have different : worker.address ≠ address := by
        intro same
        rw [same, Roster.isConnected, found] at connected
        exact alone connected
      change _ ∈ (crowd.download.roster.remove address).lines
      rw [Roster.lines_remove]
      exact List.mem_filter.mpr ⟨lined, by simpa using different⟩
  · exact .still rfl rfl id rfl rfl

/-- Nobody who is connected is forgotten. -/
theorem Sound.forget (sound : crowd.Sound) (address : Address) :
    (crowd.withRoster (crowd.download.roster.forget address).1).Sound := by
  have orderly : (crowd.download.roster.forget address).1.Orderly := by
    unfold Roster.forget
    split
    · split
      · exact sound.orderly
      · refine sound.orderly.fewer ?_ (Nat.le_refl _)
        change (crowd.download.roster.remove address).lines.Sublist _
        rw [Roster.lines_remove]
        exact List.filter_sublist
    · exact sound.orderly
  exact sound.informed orderly (fun worker _ => sound.forget_informs address worker) sound.sized

theorem Sound.recheck (sound : crowd.Sound) (alone : crowd.workers = []) (store : MemoryStore) :
    Sound { crowd with download := (crowd.download.recheck store).1 } := by
  have kept := @Download.recheck_induction (fun later =>
    later.roster = crowd.download.roster ∧ later.torrent = crowd.download.torrent ∧
      later.holdings.completed.size = crowd.download.holdings.completed.size) store
    (fun _ _ earlier => ⟨earlier.1, earlier.2.1,
      (Holdings.size_complete _ _).trans earlier.2.2⟩) crowd.download ⟨rfl, rfl, rfl⟩
  obtain ⟨roster, torrent, size⟩ := kept
  refine sound.informed (roster ▸ sound.orderly) ?_ ?_
  · intro worker member
    rw [alone] at member
    cases member
  · rw [size, torrent]
    exact sound.sized

theorem Sound.step (sound : crowd.Sound) (stretch : Stretch) : (crowd.step stretch).Sound := by
  cases stretch with
  | join address peerId source capabilities now =>
    exact sound.join address peerId source capabilities now
  | perform address deed => exact sound.perform address deed
  | leave address =>
    unfold Crowd.step
    dsimp only
    split
    · exact sound
    · rename_i worker found
      exact sound.leave (worker?_some found)
  | abandon address =>
    unfold Crowd.step
    dsimp only
    split
    · exact sound
    · rename_i worker found
      exact sound.dismiss (worker?_some found) rfl rfl rfl (List.Sublist.refl _) fun _ => id
  | know address peerId source => exact sound.know address peerId source
  | forget address => exact sound.forget address
  | shutdown =>
    have lines := Roster.lines_broadcast crowd.download.roster .disconnect
    have boxes := Roster.length_broadcast crowd.download.roster .disconnect
    refine sound.informed (sound.orderly.fewer ?_ (Nat.le_of_eq boxes.symm)) ?_ sound.sized
    · exact lines ▸ List.Sublist.refl _
    · exact fun worker _ => Download.broadcast_informs sound.orderly .disconnect rfl
  | ban ip =>
    unfold Crowd.step
    dsimp only
    unfold Download.ban
    split
    · exact sound
    · exact sound.informed sound.orderly (fun _ _ => .still rfl rfl id rfl rfl) sound.sized
  | recheck store =>
    unfold Crowd.step
    dsimp only
    split
    · rename_i alone
      exact sound.recheck (List.isEmpty_iff.mp alone) store
    · exact sound

/-- The mailbox of a worker that goes is emptied, and no other changes. -/
theorem dismiss_heralds {worker : Worker} {download : Download}
    (completed : download.holdings.completed = crowd.download.holdings.completed)
    (mailboxes : download.roster.mailboxes = crowd.download.roster.mailboxes) :
    crowd.download.Heralds (crowd.dismiss download worker).download := by
  refine .silent ?_ ?_
  · intro piece held
    change download.holdings.has piece = true
    rw [Holdings.has, completed]
    exact held
  · intro number
    by_cases own : number = worker.mailbox
    · rw [own, dismiss, Download.pending, Download.withRoster, Roster.queued_closed]
      exact List.nil_sublist _
    · have kept := (Roster.queued_close own).trans (Roster.queued_congr mailboxes number)
      rw [dismiss, Download.pending, Download.withRoster, kept, Download.pending]

theorem join_heralds (address : Address) (peerId : PeerId) (source : PeerSource)
    (capabilities : Capabilities) (now : Nat) :
    crowd.download.Heralds (crowd.join address peerId source capabilities now).download := by
  unfold Crowd.join
  split
  · exact .silent id fun _ => .refl _
  · rename_i roster mailbox attached
    obtain ⟨-, boxes, -⟩ := Roster.attach_lines attached
    refine .silent id fun number => ?_
    rw [Download.pending, Download.withRoster, Roster.queued_grown boxes, Download.pending]

/-- Whatever happens, a mailbox gets the news of a piece only as it becomes complete. -/
theorem Sound.heralds (sound : crowd.Sound) (stretch : Stretch) :
    crowd.download.Heralds (crowd.step stretch).download := by
  have unchanged : crowd.download.Heralds crowd.download := .silent id fun _ => .refl _
  cases stretch with
  | join address peerId source capabilities now =>
    exact join_heralds address peerId source capabilities now
  | perform address deed =>
    unfold Crowd.step Crowd.perform
    dsimp only
    split
    · exact unchanged
    · rename_i worker found
      split
      · exact unchanged
      · rename_i turn next performed
        have settled := sound.settled worker (worker?_some found)
        exact (worker.perform_tells settled.sized performed).heralds sound.orderly
  | leave address =>
    unfold Crowd.step
    dsimp only
    split
    · exact unchanged
    · rename_i worker found
      have quiet := (worker.turn crowd.download).onDisconnect_quiet
      exact dismiss_heralds quiet.completed quiet.mailboxes
  | abandon address =>
    unfold Crowd.step
    dsimp only
    split
    · exact unchanged
    · exact dismiss_heralds rfl rfl
  | know address peerId source =>
    refine .silent id fun number => ?_
    have boxes := crowd.download.roster.mailboxes_add address peerId source
    have same : (crowd.step (.know address peerId source)).download.pending number =
        crowd.download.pending number :=
      congrArg (List.filterMap Command.news?) (Roster.queued_congr boxes number)
    rw [same]
  | forget address =>
    refine .silent id fun number => ?_
    change ((crowd.download.roster.forget address).1.queued number).filterMap _ |>.Sublist _
    unfold Roster.forget
    split
    · split <;> exact .refl _
    · exact .refl _
  | shutdown =>
    refine ⟨id, fun more => ?_⟩
    exact (@Download.broadcast_informs ⟨.v4 0 0 0 0, 0, 0⟩ _ _ sound.orderly .disconnect
      rfl).fresh more
  | ban ip =>
    unfold Crowd.step
    dsimp only
    unfold Download.ban
    split <;> exact .silent id fun _ => .refl _
  | recheck store =>
    unfold Crowd.step
    dsimp only
    split
    · have roster := @Download.recheck_induction
        (fun later => later.roster = crowd.download.roster) store
        (fun _ _ earlier => earlier) crowd.download rfl
      refine .silent (crowd.download.recheck_evolves store).complete fun number => ?_
      rw [Download.pending, roster, Download.pending]
    · exact unchanged

theorem start_sound (torrent : Torrent) (settings : Settings) (selector : Selector)
    (ownId : PeerId) (draws : List Nat) :
    (start torrent settings selector ownId draws).Sound :=
  ⟨Roster.empty_orderly, Bitfield.size_empty _, List.nodup_nil, (fun _ member => nomatch member)⟩

theorem Sound.run (sound : crowd.Sound) (stretches : List Stretch) :
    (crowd.run stretches).Sound := by
  induction stretches generalizing crowd with
  | nil => exact sound
  | cons stretch later ih => exact ih (sound.step stretch)

theorem run_append (crowd : Crowd) (before after : List Stretch) :
    crowd.run (before ++ after) = (crowd.run before).run after :=
  List.foldl_append

/-- Complete pieces stay complete. -/
theorem Sound.run_grows (sound : crowd.Sound) (stretches : List Stretch) {piece : Nat}
    (held : crowd.download.holdings.has piece = true) :
    (crowd.run stretches).download.holdings.has piece = true := by
  induction stretches generalizing crowd with
  | nil => exact held
  | cons stretch later ih => exact ih (sound.step stretch) ((sound.heralds stretch).grows held)

end Crowd

/-- However the handlers interleave, and whatever the store answers: the peers that were sent the
complete pieces know of exactly those that are complete now, from what they were sent and what
waits for them; no peer is told of a piece that is not complete; and the news of a piece are put
into a mailbox once at most, of which at any time they wait there or were passed on. -/
theorem run_announced (torrent : Torrent) (settings : Settings) (selector : Selector)
    (ownId : PeerId) (draws : List Nat) (stretches : List Stretch) :
    let start := Crowd.start torrent settings selector ownId draws
    let crowd := start.run stretches
    (∀ worker ∈ crowd.workers,
      (worker.Greeted → ∀ piece,
        crowd.download.holdings.has piece = true ↔ worker.Learns crowd.download piece) ∧
      (∀ piece, worker.Learns crowd.download piece →
        crowd.download.holdings.has piece = true) ∧
      (worker.told ++ crowd.download.pending worker.mailbox).Nodup) ∧
    ∀ before first middle second after number piece,
      stretches = before ++ first :: (middle ++ second :: after) →
      (start.run before).Queues first number piece →
      ¬ (start.run (before ++ first :: middle)).Queues second number piece := by
  intro start crowd
  have sound : start.Sound := Crowd.start_sound torrent settings selector ownId draws
  refine ⟨?_, ?_⟩
  · intro worker member
    have informed := ((sound.run stretches).settled worker member).informed
    exact ⟨fun greeted piece => ⟨informed.whole greeted piece, informed.genuine piece⟩,
      informed.genuine, informed.once⟩
  · intro before first middle second after number piece _ queues again
    have earlier := sound.run before
    have held := ((earlier.heralds first).fresh queues).2
    have later := (earlier.step first).run_grows middle held
    have missing := (((sound.run (before ++ first :: middle)).heralds second).fresh again).1
    rw [Crowd.run_append] at missing
    exact nomatch later.symm.trans missing

/-- The second peer is sent our pieces while the only block of the piece is being written for the
first, and is told of the piece afterwards. -/
def Sample.relay : List Stretch :=
  [.join first peerId .incoming .none 0, .join second peerId .incoming .none 0,
    .perform first .greet, .perform first (.receive 0 (.have_ 0)),
    .perform first (.receive 0 .unchoke), .perform first (.receive 0 (.piece 0 0 content)),
    .perform second .greet, .perform first (.resume (.written (.ok ()))),
    .perform first (.resume (.hashed (.ok (sha1 content)))), .perform second .obey]

/-- The second peer learns of the piece from a message, which waits for the first as well. -/
theorem run_announced_relay :
    let crowd := (Crowd.start Sample.torrent {} ⟨.sequential, false⟩ Sample.peerId []).run
      Sample.relay
    ∃ worker ∈ crowd.workers, worker.address = Sample.second ∧ worker.told = [0] ∧
      worker.Greeted ∧ crowd.download.pending 0 = [0] ∧
      (crowd.download.holdings.has 0 = true ↔ worker.Learns crowd.download 0) := by
  have reached : let crowd := (Crowd.start Sample.torrent {} ⟨.sequential, false⟩
        Sample.peerId []).run Sample.relay;
      (crowd.worker? Sample.second).map (fun worker => (worker.address, worker.sent)) =
        some (Sample.second, [.bitfield [0], .have_ 0]) ∧ crowd.download.pending 0 = [0] := by
    decide +kernel
  obtain ⟨facts, -⟩ :=
    run_announced Sample.torrent {} ⟨.sequential, false⟩ Sample.peerId [] Sample.relay
  -- What is known of the crowd is enough; it must not be computed again.
  generalize (Crowd.start Sample.torrent {} ⟨.sequential, false⟩ Sample.peerId []).run
    Sample.relay = crowd at facts reached ⊢
  obtain ⟨found, pending⟩ := reached
  obtain ⟨worker, located, same⟩ := Option.map_eq_some_iff.mp found
  obtain ⟨address, sent⟩ := Prod.mk.inj same
  have there := Crowd.worker?_some located
  have greeted : worker.Greeted := ⟨[0], sent ▸ List.mem_cons_self⟩
  have told : worker.told = [0] := by
    rw [Worker.told, sent]
    rfl
  exact ⟨worker, there, address, told, greeted, pending, (facts worker there).1 greeted 0⟩

end BitTorrent
