import BitTorrent.Proofs.Ledger

/-!
What a turn does to get blocks from its peer: it takes a piece or gives it back, opens requests or
withdraws them, and declares its interest. Nothing else of the session or the shared state changes.
Only blocks of missing pieces that the peer has, or that were being fetched from it, are asked for,
and interest is declared only in a peer that has a missing piece.
-/

set_option autoImplicit false

namespace BitTorrent

theorem Session.receive_keeps (session : Session) (now : Nat) (message : Message) :
    (session.receive now message).1.assigned = session.assigned ∧
      (session.receive now message).1.address = session.address ∧
      (session.receive now message).1.bitfield.size = session.bitfield.size := by
  unfold receive
  split
  · cases message with
    | have_ piece =>
      simp only [apply]
      split
      · exact ⟨rfl, rfl, Bitfield.size_insert _ _⟩
      · exact ⟨rfl, rfl, rfl⟩
    | bitfield bytes =>
      simp only [apply]
      split
      · rename_i field read
        exact ⟨rfl, rfl, Bitfield.size_of_ofBytes? read⟩
      · exact ⟨rfl, rfl, rfl⟩
    | request request =>
      simp only [apply]
      split
      · exact ⟨rfl, rfl, rfl⟩
      · split <;> exact ⟨rfl, rfl, rfl⟩
    | piece | cancel =>
      simp only [apply]
      split <;> exact ⟨rfl, rfl, rfl⟩
    | _ => exact ⟨rfl, rfl, rfl⟩
  · exact ⟨rfl, rfl, rfl⟩

namespace Turn

/-- A block of a missing piece that the peer has, or that is being fetched from it. -/
def Wants (turn : Turn) (request : BlockRequest) : Prop :=
  turn.download.torrent.IsBlock request ∧ turn.download.holdings.has request.piece = false ∧
    (turn.session.assigned = some request.piece ∨ turn.session.bitfield.has request.piece = true)

/-- The peer has a piece, and it is missing here. -/
def Lacks (turn : Turn) (piece : Nat) : Prop :=
  turn.session.bitfield.has piece = true ∧ turn.download.holdings.has piece = false

/-- What is said to the peer to get blocks from it. -/
inductive Courts (turn : Turn) : Message → Prop
  | interested : Courts turn .interested
  | notInterested : Courts turn .notInterested
  | request (request : BlockRequest) : turn.Wants request → Courts turn (.request request)
  | cancel (request : BlockRequest) :
      request ∈ turn.session.downloads ∨ turn.Wants request → Courts turn (.cancel request)

/-- A turn gets on with fetching. -/
structure Pursues (turn after : Turn) : Prop where
  download : after.download = { turn.download with
    assignments := after.download.assignments, draws := after.download.draws }
  session : after.session = { turn.session with
    amInterested := after.session.amInterested
    downloads := after.session.downloads
    assigned := after.session.assigned }
  chosen : ∀ {piece}, after.session.assigned = some piece →
    turn.session.assigned = some piece ∨ turn.Lacks piece
  opened : ∀ {request}, request ∈ after.session.downloads →
    request ∈ turn.session.downloads ∨ turn.Wants request
  interest : after.session.amInterested = true →
    turn.session.amInterested = true ∨ ∃ piece, turn.Lacks piece
  foreign : ∀ {piece address}, address ≠ turn.session.address →
    (piece, address) ∈ after.download.assignments → (piece, address) ∈ turn.download.assignments
  listed : ∀ {piece}, (piece, turn.session.address) ∈ after.download.assignments →
    after.session.assigned = some piece ∨
      ((piece, turn.session.address) ∈ turn.download.assignments ∧
        turn.session.assigned ≠ some piece)
  outbox : ∃ said, after.outbox = turn.outbox ++ said ∧ ∀ message ∈ said, turn.Courts message

variable {turn middle after : Turn}

theorem Pursues.bitfield (pursues : turn.Pursues after) :
    after.session.bitfield = turn.session.bitfield := by
  rw [pursues.session]

theorem Pursues.address (pursues : turn.Pursues after) :
    after.session.address = turn.session.address := by
  rw [pursues.session]

theorem Pursues.torrent (pursues : turn.Pursues after) :
    after.download.torrent = turn.download.torrent := by
  rw [pursues.download]

theorem Pursues.holdings (pursues : turn.Pursues after) :
    after.download.holdings = turn.download.holdings := by
  rw [pursues.download]

/-- Messages are said, and the session is changed, without a piece being taken or given back. -/
theorem Pursues.still {session : Session} {said : List Message}
    (same : session = { turn.session with
      amInterested := session.amInterested, downloads := session.downloads })
    (opened : ∀ {request}, request ∈ session.downloads →
      request ∈ turn.session.downloads ∨ turn.Wants request)
    (interest : session.amInterested = true →
      turn.session.amInterested = true ∨ ∃ piece, turn.Lacks piece)
    (courts : ∀ message ∈ said, turn.Courts message) :
    turn.Pursues { turn with session := session, outbox := turn.outbox ++ said } where
  download := rfl
  session := by rw [same]
  chosen := by
    intro piece taken
    rw [same] at taken
    exact Or.inl taken
  opened := opened
  interest := interest
  foreign := fun _ member => member
  listed := by
    intro piece member
    rw [same]
    by_cases mine : turn.session.assigned = some piece
    · exact Or.inl mine
    · exact Or.inr ⟨member, mine⟩
  outbox := ⟨said, rfl, courts⟩

theorem Pursues.refl (turn : Turn) : turn.Pursues turn := by
  have still := @Pursues.still turn turn.session [] rfl Or.inl Or.inl fun _ inside => nomatch inside
  rwa [List.append_nil] at still

theorem Pursues.wants (pursues : turn.Pursues after) {request : BlockRequest}
    (wants : after.Wants request) : turn.Wants request := by
  obtain ⟨block, missing, origin⟩ := wants
  rw [pursues.torrent] at block
  rw [pursues.holdings] at missing
  refine ⟨block, missing, ?_⟩
  rcases origin with taken | held
  · exact (pursues.chosen taken).imp_right And.left
  · exact Or.inr (pursues.bitfield ▸ held)

theorem Pursues.lacks (pursues : turn.Pursues after) {piece : Nat} :
    after.Lacks piece ↔ turn.Lacks piece := by
  rw [Lacks, Lacks, pursues.bitfield, pursues.holdings]

theorem Pursues.courts (pursues : turn.Pursues after) {message : Message}
    (courts : after.Courts message) : turn.Courts message := by
  cases courts with
  | interested => exact .interested
  | notInterested => exact .notInterested
  | request request wants => exact .request request (pursues.wants wants)
  | cancel request asked =>
    exact .cancel request (asked.elim pursues.opened fun wants => Or.inr (pursues.wants wants))

theorem Pursues.trans (first : turn.Pursues middle) (second : middle.Pursues after) :
    turn.Pursues after where
  download := by rw [second.download, first.download]
  session := by rw [second.session, first.session]
  chosen := by
    intro piece taken
    rcases second.chosen taken with earlier | lacks
    · exact first.chosen earlier
    · exact Or.inr (first.lacks.mp lacks)
  opened := by
    intro request asked
    rcases second.opened asked with earlier | wants
    · exact first.opened earlier
    · exact Or.inr (first.wants wants)
  interest := by
    intro interested
    rcases second.interest interested with earlier | ⟨piece, lacks⟩
    · exact first.interest earlier
    · exact Or.inr ⟨piece, first.lacks.mp lacks⟩
  foreign := fun other member =>
    first.foreign other (second.foreign (first.address ▸ other) member)
  listed := by
    intro piece member
    rw [← first.address] at member
    rcases second.listed member with taken | ⟨earlier, different⟩
    · exact Or.inl taken
    · rw [first.address] at earlier
      rcases first.listed earlier with taken | before
      · exact absurd taken different
      · exact Or.inr before
  outbox := by
    obtain ⟨said, left, courts⟩ := first.outbox
    obtain ⟨more, right, later⟩ := second.outbox
    refine ⟨said ++ more, by rw [right, left, List.append_assoc], ?_⟩
    intro message inside
    rcases List.mem_append.mp inside with old | new
    · exact courts message old
    · exact first.courts (later message new)

theorem unassign_pursues (turn : Turn) : turn.Pursues turn.unassign := by
  unfold unassign
  cases assigned : turn.session.assigned with
  | none => exact .refl turn
  | some piece =>
    refine {
      download := rfl
      session := rfl
      chosen := (nomatch ·)
      opened := Or.inl
      interest := Or.inl
      foreign := fun _ member => (List.mem_filter.mp member).1
      listed := ?_
      outbox := ⟨[], (List.append_nil _).symm, fun _ inside => nomatch inside⟩ }
    intro other member
    obtain ⟨old, kept⟩ := List.mem_filter.mp member
    refine Or.inr ⟨old, ?_⟩
    rintro same
    rw [assigned] at same
    cases same
    simp at kept

theorem mem_assign {download : Download} {piece other : Nat} {address own : Address} :
    (other, address) ∈ (download.assign piece own).assignments ↔
      (other, address) ∈ download.assignments ∨ (other = piece ∧ address = own) := by
  unfold Download.assign
  split
  · rename_i known
    constructor
    · exact Or.inl
    · rintro (member | ⟨rfl, rfl⟩)
      · exact member
      · exact known
  · simp only [List.mem_append, List.mem_singleton, Prod.mk.injEq]

theorem assignPiece_pursues {chosen : Option Nat} {exhausted : List Nat}
    (sized : turn.session.bitfield.size = turn.download.holdings.completed.size)
    (unassigned : turn.session.assigned = none)
    (assign : turn.assignPiece exhausted = (after, chosen)) :
    turn.Pursues after ∧ after.session.downloads = turn.session.downloads ∧
      ∀ {piece}, chosen = some piece →
        after.session.assigned = some piece ∧ after.download.holdings.has piece = false := by
  cases chosen with
  | none =>
    obtain ⟨rfl, -⟩ := assignPiece_none sized assign
    exact ⟨.refl _, rfl, (nomatch ·)⟩
  | some piece =>
    obtain ⟨-, held, missing, -, -, rfl⟩ := assignPiece_some sized assign
    have still : (turn.download.assign piece turn.session.address).holdings.has piece = false := by
      rwa [Download.holdings_assign]
    refine ⟨?_, rfl, fun same => Option.some.inj same ▸ ⟨rfl, still⟩⟩
    refine {
      download := ?_
      session := rfl
      chosen := ?_
      opened := Or.inl
      interest := Or.inl
      foreign := ?_
      listed := ?_
      outbox := ⟨[], (List.append_nil _).symm, fun _ inside => nomatch inside⟩ }
    · unfold Download.assign
      split <;> rfl
    · rintro other taken
      cases taken
      exact Or.inr ⟨held, missing⟩
    · intro other address different member
      exact (mem_assign.mp member).resolve_right fun both => different both.2
    · intro other member
      rcases mem_assign.mp member with old | ⟨rfl, -⟩
      · exact Or.inr ⟨old, by rw [unassigned]; exact nofun⟩
      · exact Or.inl rfl

theorem currentPiece_pursues {chosen : Option Nat} {exhausted : List Nat}
    (sized : turn.session.bitfield.size = turn.download.holdings.completed.size)
    (current : turn.currentPiece exhausted = (after, chosen)) :
    turn.Pursues after ∧ after.session.downloads = turn.session.downloads ∧
      ∀ {piece}, chosen = some piece →
        after.session.assigned = some piece ∧ after.download.holdings.has piece = false := by
  unfold currentPiece at current
  cases assigned : turn.session.assigned with
  | none =>
    simp only [assigned] at current
    exact assignPiece_pursues sized assigned current
  | some piece =>
    simp only [assigned] at current
    split at current
    · rename_i useful
      simp only [Bool.and_eq_true, Bool.not_eq_true'] at useful
      cases current
      exact ⟨.refl _, rfl, fun same => Option.some.inj same ▸ ⟨assigned, useful.1⟩⟩
    · have released := turn.unassign_pursues
      have apart : turn.unassign.session = turn.session.assign none := by
        simp only [unassign, assigned]
      have same : turn.unassign.session.bitfield.size =
          turn.unassign.download.holdings.completed.size := by
        rw [released.bitfield, released.holdings]
        exact sized
      obtain ⟨taken, downloads, useful⟩ :=
        assignPiece_pursues same (by rw [apart]; rfl) current
      exact ⟨released.trans taken, downloads.trans (by rw [apart]; rfl), useful⟩

theorem withdrawInterest_pursues (turn : Turn) :
    turn.Pursues (turn.follow turn.session.withdrawInterest) := by
  unfold Session.withdrawInterest
  cases interested : turn.session.amInterested with
  | true =>
    exact @Pursues.still turn { turn.session with amInterested := false } [.notInterested] rfl
      Or.inl (nomatch ·) (fun message inside => List.mem_singleton.mp inside ▸ .notInterested)
  | false =>
    exact .refl turn

theorem court_pursues {piece : Nat} (lacks : turn.Lacks piece) : turn.Pursues turn.court := by
  unfold court Session.showInterest
  cases interested : turn.session.amInterested with
  | true => exact .refl turn
  | false =>
    exact @Pursues.still turn { turn.session with amInterested := true } [.interested] rfl
      Or.inl (fun _ => Or.inr ⟨piece, lacks⟩)
      (fun message inside => List.mem_singleton.mp inside ▸ .interested)

theorem giveUp_pursues (turn : Turn) (exhausted : List Nat) :
    turn.Pursues (turn.giveUp exhausted) := by
  unfold giveUp
  split
  · exact turn.withdrawInterest_pursues
  · exact .refl turn

theorem loseInterest_pursues (turn : Turn) : turn.Pursues turn.loseInterest := by
  unfold loseInterest
  split
  · exact turn.withdrawInterest_pursues
  · exact .refl turn

theorem ask_pursues {index : Nat} {piece : Piece} {block : Block}
    (assigned : turn.session.assigned = some index)
    (missing : turn.download.holdings.has index = false)
    (found : turn.download.torrent.piece? index = some piece) (inside : block ∈ piece.blocks) :
    turn.Pursues (turn.ask index block) := by
  have wants : turn.Wants ⟨index, block.offset, block.length⟩ :=
    ⟨⟨piece, block, found, inside, rfl, rfl⟩, missing, Or.inl assigned⟩
  refine @Pursues.still turn { turn.session with
    downloads := turn.session.downloads ++ [⟨index, block.offset, block.length⟩] }
    [.request ⟨index, block.offset, block.length⟩] rfl ?_ Or.inl fun _ member =>
      List.mem_singleton.mp member ▸ .request _ wants
  intro request member
  rcases List.mem_append.mp member with earlier | asked
  · exact Or.inl earlier
  · exact Or.inr (List.mem_singleton.mp asked ▸ wants)

/-- Filling the pipeline pursues blocks and never fails. -/
theorem fill_pursues (fuel : Nat) (turn : Turn) (exhausted : List Nat)
    (sized : turn.session.bitfield.size = turn.download.holdings.completed.size) :
    turn.Pursues (fill fuel turn exhausted).1 ∧ (fill fuel turn exhausted).2 = .ok .stay := by
  induction fuel generalizing turn exhausted with
  | zero => exact ⟨.refl turn, rfl⟩
  | succ fuel ih =>
    unfold fill
    split
    · rename_i allowed
      split
      · rename_i after current
        exact ⟨(currentPiece_pursues sized current).1.trans (giveUp_pursues after exhausted), rfl⟩
      · rename_i after index current
        obtain ⟨pursues, downloads, useful⟩ := currentPiece_pursues sized current
        have allowedAfter : after.session.canRequest = true := by
          rw [← allowed, Session.canRequest, Session.canRequest, downloads, pursues.session]
        have sizedAfter : after.session.bitfield.size =
            after.download.holdings.completed.size := by
          rw [pursues.bitfield, pursues.holdings]
          exact sized
        split
        · exact ⟨pursues, rfl⟩
        · rename_i piece found
          split
          · rename_i block wanted
            obtain ⟨number, counted, rfl, -, -⟩ := Piece.nextMissing?_some wanted
            have inside : piece.block number ∈ piece.blocks :=
              Piece.mem_blocks.mpr ⟨number, counted, rfl⟩
            obtain ⟨assigned, missing⟩ := useful rfl
            have asked := ask_pursues assigned missing found inside
            simp only [Session.request, allowedAfter, ↓reduceIte]
            obtain ⟨later, stays⟩ := ih (after.ask index (piece.block number)) exhausted sizedAfter
            exact ⟨(pursues.trans asked).trans later, stays⟩
          · split
            · exact ⟨pursues, rfl⟩
            · obtain ⟨later, stays⟩ := ih after (index :: exhausted) sizedAfter
              exact ⟨pursues.trans later, stays⟩
    · exact ⟨.refl turn, rfl⟩

/-- The peer's pieces and ours range over the same torrent. -/
def Sized (turn : Turn) : Prop :=
  turn.session.bitfield.size = turn.download.holdings.completed.size

theorem Pursues.sized (pursues : turn.Pursues after) (sized : turn.Sized) : after.Sized := by
  rw [Sized, pursues.bitfield, pursues.holdings]
  exact sized

theorem fillPipeline_pursues (sized : turn.Sized) :
    turn.Pursues turn.fillPipeline.1 ∧ turn.fillPipeline.2 = .ok .stay :=
  fill_pursues _ turn [] sized

theorem onAvailability_pursues (sized : turn.Sized) :
    turn.publish.Pursues turn.onAvailability.1 ∧ ∃ flow, turn.onAvailability.2 = .ok flow := by
  rw [onAvailability_eq]
  split
  · exact ⟨.refl _, .leave, rfl⟩
  · split
    · rename_i useful
      obtain ⟨piece, lacks⟩ :=
        (Bitfield.hasMissingFrom_iff sized).mp (Bool.and_eq_true_iff.mp useful).1
      have courted := @court_pursues turn.publish piece lacks
      split
      · exact ⟨courted, .stay, rfl⟩
      · obtain ⟨filled, stays⟩ := fillPipeline_pursues (courted.sized sized)
        exact ⟨courted.trans filled, .stay, stays⟩
    · exact ⟨.refl _, .stay, rfl⟩

/-- Completing a piece elsewhere makes a turn withdraw its requests and say so. -/
theorem cancelRequests_pursues (turn : Turn) (piece : Nat) :
    ∃ middle, turn.Pursues middle ∧ turn.cancelRequests piece = middle.say (.have_ piece) := by
  have dropped := @Pursues.still turn (turn.session.dropRequests piece)
    ((turn.session.downloads.filter (·.piece = piece)).map Message.cancel) rfl
    (fun member => Or.inl (List.mem_filter.mp member).1) Or.inl (by
      intro message inside
      obtain ⟨request, asked, rfl⟩ := List.mem_map.mp inside
      exact .cancel request (Or.inl (List.mem_filter.mp asked).1))
  unfold cancelRequests
  dsimp only
  split
  · exact ⟨_, dropped.trans (unassign_pursues _), rfl⟩
  · exact ⟨_, dropped, rfl⟩

theorem cancelRequests_sized (sized : turn.Sized) (piece : Nat) :
    (turn.cancelRequests piece).Sized := by
  obtain ⟨middle, cancelled, told⟩ := turn.cancelRequests_pursues piece
  rw [told]
  exact cancelled.sized sized

/-- Behind the withdrawn requests and the news a turn gets on with fetching. -/
theorem onLocalHave_follows (sized : turn.Sized) (piece : Nat) :
    (turn.cancelRequests piece).Pursues (turn.onLocalHave piece).1 ∧
      ∃ flow, (turn.onLocalHave piece).2 = .ok flow := by
  have sizedAfter := cancelRequests_sized sized piece
  unfold onLocalHave
  dsimp only
  split
  · exact ⟨.refl _, .leave, rfl⟩
  · split
    · exact ⟨loseInterest_pursues _, .stay, rfl⟩
    · obtain ⟨filled, stays⟩ := fillPipeline_pursues sizedAfter
      split
      · rename_i failed
        rw [failed] at stays
        cases stays
      · rename_i later flow ended
        rw [ended] at filled
        exact ⟨filled.trans (loseInterest_pursues _), .stay, rfl⟩

theorem onLocalHave_pursues (sized : turn.Sized) (piece : Nat) :
    ∃ middle, turn.Pursues middle ∧
      (middle.say (.have_ piece)).Pursues (turn.onLocalHave piece).1 ∧
      ∃ flow, (turn.onLocalHave piece).2 = .ok flow := by
  obtain ⟨middle, cancelled, told⟩ := turn.cancelRequests_pursues piece
  exact ⟨middle, cancelled, told ▸ onLocalHave_follows sized piece⟩

/-- What an event changes before its turn gets on with fetching. -/
inductive Basis (turn : Turn) : Event → Turn → Prop
  | same (event : Event) : Basis turn event turn
  | published (event : Event) : event = .bitfield ∨ (∃ piece, event = .have_ piece) →
      Basis turn event turn.publish
  | unchoked : Basis turn .interested (turn.follow turn.session.unchoke)
  | choked : Basis turn .notInterested (turn.follow turn.session.choke)

/-- Why a turn that reacts to an event ends with a violation. -/
inductive Objects (turn : Turn) : Event → Violation → Prop
  | request {request : BlockRequest} {violation : Violation} :
      checkRequest turn.download request = .error violation →
      Objects turn (.request request) violation
  | block {request : BlockRequest} {violation : Violation} (data : Bytes) :
      (∀ piece, turn.download.torrent.piece? request.piece = some piece →
        piece.subRange? request.start request.length = none) →
      Objects turn (.block request data) violation

/-- How the reaction to an event ends, for now. -/
inductive Reacts (turn : Turn) (event : Event) : Next → Prop
  | ended (flow : Flow) : Reacts turn event (.done (.ok flow))
  | objected (violation : Violation) : turn.Objects event violation →
      Reacts turn event (.done (.error (.violation violation)))
  | waits (request : BlockRequest) (data : Bytes) (piece : Piece) (range : ByteRange) :
      event = .block request data →
      turn.download.torrent.piece? request.piece = some piece →
      turn.download.holdings.has request.piece = false →
      piece.subRange? request.start request.length = some range →
      Reacts turn event (.wait (.write request range data))

/-- Every reaction to an event is one change and then fetching. -/
theorem handle_pursues (sized : turn.Sized) (event : Event) :
    ∃ base, turn.Basis event base ∧ base.Pursues (turn.handle event).1 ∧
      turn.Reacts event (turn.handle event).2 := by
  cases event with
  | keepAlive | ignored | port | cancel =>
    exact ⟨turn, .same _, .refl turn, .ended .stay⟩
  | bitfield =>
    obtain ⟨pursues, flow, ended⟩ := onAvailability_pursues sized
    refine ⟨_, .published _ (Or.inl rfl), pursues, ?_⟩
    simp only [handle, Turn.ended, ended]
    exact .ended flow
  | have_ piece =>
    obtain ⟨pursues, flow, ended⟩ := onAvailability_pursues sized
    refine ⟨_, .published _ (Or.inr ⟨piece, rfl⟩), pursues, ?_⟩
    simp only [handle, Turn.ended, ended]
    exact .ended flow
  | unchoked =>
    obtain ⟨pursues, stays⟩ := fillPipeline_pursues sized
    refine ⟨turn, .same _, pursues, ?_⟩
    simp only [handle, Turn.ended, stays]
    exact .ended .stay
  | choked dropped => exact ⟨turn, .same _, turn.unassign_pursues, .ended _⟩
  | interested => exact ⟨_, .unchoked, .refl _, .ended .stay⟩
  | notInterested => exact ⟨_, .choked, .refl _, .ended .stay⟩
  | request request =>
    refine ⟨turn, .same _, ?_⟩
    simp only [handle]
    split
    · rename_i violation refused
      exact ⟨.refl turn, .objected violation (.request refused)⟩
    · exact ⟨.refl turn, .ended .stay⟩
  | block request data =>
    refine ⟨turn, .same _, ?_⟩
    simp only [handle, onBlock]
    split
    · rename_i absent
      refine ⟨.refl turn, .objected _ (.block data ?_)⟩
      intro piece found
      cases absent.symm.trans found
    · rename_i piece found
      split
      · obtain ⟨pursues, stays⟩ := fillPipeline_pursues sized
        exact ⟨pursues, by simp only [stays]; exact .ended .stay⟩
      · rename_i missing
        split
        · rename_i outside
          refine ⟨.refl turn, .objected _ (.block data ?_)⟩
          intro other same
          cases found.symm.trans same
          exact outside
        · rename_i range inside
          have incomplete := Bool.eq_false_iff.mpr missing
          exact ⟨.refl turn, .waits request data piece range rfl found incomplete inside⟩

/-- What the hash of a piece changes before its turn gets on with fetching. -/
inductive Checks (turn : Turn) (piece : Piece) : Except Fault Digest → Turn → Prop
  | unreadable (fault : Fault) : Checks turn piece (.error fault) { turn with
      download := (turn.download.withHoldings
        (turn.download.holdings.markAll piece.index false)).record fault }
  | intact : Checks turn piece (.ok piece.hash) { turn with
      download := turn.download.verify piece }
  | corrupt (digest : Digest) : digest ≠ piece.hash → Checks turn piece (.ok digest) { turn with
      download := turn.download.reject piece turn.session.address.ip }

theorem Checks.sized {piece : Piece} {outcome : Except Fault Digest} {base : Turn}
    (checks : turn.Checks piece outcome base) (sized : turn.Sized) : base.Sized := by
  cases checks with
  | unreadable fault =>
    rw [Sized, Download.holdings_record]
    exact sized
  | intact =>
    rw [Sized, Download.holdings_verify, Holdings.size_complete]
    exact sized
  | corrupt digest =>
    rw [Sized, Download.holdings_reject]
    exact sized

theorem afterChecksum_pursues (sized : turn.Sized) (piece : Piece)
    (outcome : Except Fault Digest) :
    ∃ base, turn.Checks piece outcome base ∧
      base.Pursues (turn.afterChecksum piece outcome).1 ∧
      ((∃ fault, outcome = .error fault ∧ (turn.afterChecksum piece outcome).2 = .error fault) ∨
        (turn.afterChecksum piece outcome).2 = .ok .stay) := by
  cases outcome with
  | error fault => exact ⟨_, .unreadable fault, .refl _, Or.inl ⟨fault, rfl, rfl⟩⟩
  | ok digest =>
    by_cases intact : digest = piece.hash
    · subst intact
      have checks := @Checks.intact turn piece
      obtain ⟨pursues, stays⟩ := fillPipeline_pursues (checks.sized sized)
      refine ⟨_, checks, ?_⟩
      simp only [afterChecksum, ↓reduceIte, verified_eq]
      exact ⟨pursues, Or.inr stays⟩
    · have checks := @Checks.corrupt turn piece digest intact
      obtain ⟨pursues, stays⟩ := fillPipeline_pursues (checks.sized sized)
      refine ⟨_, checks, ?_⟩
      simp only [afterChecksum, intact, ↓reduceIte, corrupt_eq]
      exact ⟨pursues, Or.inr stays⟩

/-- What the answer to a write changes before its turn gets on with fetching, and how it ends. -/
inductive Stores (turn : Turn) (request : BlockRequest) : Except Fault Unit → Turn → Next → Prop
  | lost (fault : Fault) : Stores turn request (.error fault)
      { turn with download := turn.download.record fault } (.done (.error fault))
  | unknown : turn.download.torrent.piece? request.piece = none →
      Stores turn request (.ok ()) turn (.done (.error (.violation (.unknownPiece request))))
  | stored (piece : Piece) : turn.download.torrent.piece? request.piece = some piece →
      Stores turn request (.ok ())
        (turn.withHoldings (turn.download.holdings.fetch piece request)) (.done (.ok .stay))
  | last (piece : Piece) : turn.download.torrent.piece? request.piece = some piece →
      Stores turn request (.ok ())
        { turn with
          download := (turn.download.withHoldings
            (turn.download.holdings.fetch piece request)).releaseAll request.piece
          session := turn.session.assign none } (.wait (.checksum piece))

theorem afterWrite_pursues (sized : turn.Sized) (request : BlockRequest)
    (outcome : Except Fault Unit) :
    ∃ base, turn.Stores request outcome base (turn.afterWrite request outcome).2 ∧
      base.Pursues (turn.afterWrite request outcome).1 := by
  cases outcome with
  | error fault => exact ⟨_, .lost fault, .refl _⟩
  | ok =>
    cases found : turn.download.torrent.piece? request.piece with
    | none =>
      have refused : turn.afterWrite request (.ok ()) =
          (turn, .done (.error (.violation (.unknownPiece request)))) := by
        simp only [afterWrite, found]
      rw [refused]
      exact ⟨turn, .unknown found, .refl turn⟩
    | some piece =>
      rw [afterWrite_ok found]
      dsimp only
      split
      · exact ⟨_, .last piece found, .refl _⟩
      · have marked : (turn.withHoldings (turn.download.holdings.fetch piece request)).Sized := by
          change _ = (turn.download.holdings.fetch piece request).completed.size
          rw [Holdings.completed_fetch]
          exact sized
        obtain ⟨pursues, stays⟩ := fillPipeline_pursues marked
        refine ⟨_, ?_, pursues⟩
        rw [ended, stays]
        exact .stored piece found

end Turn

end BitTorrent
