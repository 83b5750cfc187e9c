import BitTorrent.Proofs.Frame
import Mathlib.Data.List.Perm.Subperm

/-!
The requests of a connection are kept going by moves, and there are rounds enough for all of them.
-/

set_option autoImplicit false

namespace BitTorrent

open Relation (ReflTransGen)

namespace Scene

@[simp] theorem follow_turn (scene : Scene) : scene.follow scene.turn = scene := by
  simp [follow, turn]

theorem follow_say (scene : Scene) (turn : Turn) (message : Message) :
    scene.follow (turn.say message) = (scene.follow turn).logged [.sent message] := by
  simp [follow, logged, Turn.say]

theorem logged_nil (scene : Scene) : scene.logged [] = scene := by
  simp [logged]

theorem follow_follow (scene : Scene) (turn : Turn) (session : Session) (message : Option Message) :
    scene.follow (turn.follow (session, message)) =
      ((scene.follow turn).withSession session).logged (message.toList.map .sent) := by
  cases message with
  | none => simp [Turn.follow, follow, withSession, logged]
  | some message => simp [Turn.follow, follow, withSession, logged, Turn.say]

theorem follow_unassign (scene : Scene) (turn : Turn) :
    scene.follow turn.unassign = (scene.follow turn).free := by
  cases assigned : turn.session.assigned with
  | none =>
    simp [Turn.unassign, assigned, follow, free, Download.free, withDownload, withSession,
      Session.assign]
    rw [← assigned]
  | some piece =>
    simp [Turn.unassign, assigned, follow, free, Download.free, withDownload, withSession]

end Scene

namespace Turn

theorem size_foldl_insert (field : Bitfield) (pieces : List Nat) :
    (pieces.foldl Bitfield.insert field).size = field.size := by
  induction pieces generalizing field with
  | nil => rfl
  | cons piece rest ih => rw [List.foldl_cons, ih, Bitfield.size_insert]

theorem has_foldl_insert {field : Bitfield} {pieces : List Nat} {piece : Nat}
    (absent : (pieces.foldl Bitfield.insert field).has piece = false)
    (inside : piece < field.size) : field.has piece = false ∧ piece ∉ pieces := by
  induction pieces generalizing field with
  | nil => exact ⟨absent, List.not_mem_nil⟩
  | cons first rest ih =>
    have later := ih absent (by rwa [Bitfield.size_insert])
    rw [Bitfield.has_insert] at later
    simp only [Bool.or_eq_false_iff, Bool.and_eq_false_iff, decide_eq_false_iff_not] at later
    refine ⟨later.1.1, ?_⟩
    intro member
    rcases List.mem_cons.mp member with rfl | member
    · rcases later.1.2 with different | outside
      · exact different rfl
      · exact outside inside
    · exact later.2 member

theorem mem_of_foldl_insert {field : Bitfield} {pieces : List Nat} {piece : Nat}
    (present : (pieces.foldl Bitfield.insert field).has piece = true) :
    field.has piece = true ∨ piece ∈ pieces := by
  induction pieces generalizing field with
  | nil => exact Or.inl present
  | cons first rest ih =>
    rcases ih present with earlier | later
    · rw [Bitfield.has_insert, Bool.or_eq_true, Bool.and_eq_true, decide_eq_true_eq] at earlier
      rcases earlier with before | ⟨same, -⟩
      · exact Or.inl before
      · exact Or.inr (same ▸ List.mem_cons_self)
    · exact Or.inr (List.mem_cons_of_mem _ later)

variable {turn after : Turn} {exhausted : List Nat}

theorem assignPiece_outbox (turn : Turn) (exhausted : List Nat) :
    (turn.assignPiece exhausted).1.outbox = turn.outbox := by
  unfold assignPiece
  dsimp only
  split
  · rfl
  · split <;> rfl

/-- A piece is assigned only if it is of use and, without the end game, free. -/
theorem assignPiece_some {piece : Nat}
    (sized : turn.session.bitfield.size = turn.download.holdings.completed.size)
    (chosen : turn.assignPiece exhausted = (after, some piece)) :
    turn.download.isBanned turn.session.address.ip = false ∧
      turn.session.bitfield.has piece = true ∧ turn.download.holdings.has piece = false ∧
      piece ∉ exhausted ∧
      (turn.download.selector.endGame = false → piece ∉ turn.download.assignments.map (·.1)) ∧
      after = { turn with
        download := { turn.download.assign piece turn.session.address with
          draws := turn.download.draws.tail }
        session := turn.session.assign (some piece) } := by
  unfold assignPiece at chosen
  dsimp only at chosen
  split at chosen
  · cases chosen
  · rename_i free
    split at chosen
    · cases chosen
    · rename_i index selected
      cases chosen
      have member := Selector.choose?_mem selected
      have facts := Selector.mem_candidates
        (by rw [size_foldl_insert]; exact sized) member
      have inside : piece < turn.download.holdings.completed.size := by
        rw [← sized]
        exact Bitfield.lt_size_of_has facts.1
      have absent := has_foldl_insert facts.2.1 inside
      exact ⟨by simpa using free, facts.1, absent.1, absent.2, facts.2.2, rfl⟩

/-- Nothing is assigned to a banned peer, or if nothing that it has can be assigned. -/
theorem assignPiece_refused
    (sized : turn.session.bitfield.size = turn.download.holdings.completed.size)
    (refused : turn.assignPiece exhausted = (after, none)) :
    after = turn ∧ (turn.download.isBanned turn.session.address.ip = true ∨
      ∀ piece, turn.session.bitfield.has piece = true →
        turn.download.holdings.has piece = true ∨ piece ∈ exhausted ∨
          (turn.download.selector.endGame = false ∧
            piece ∈ turn.download.assignments.map (·.1))) := by
  unfold assignPiece at refused
  dsimp only at refused
  split at refused
  · rename_i banned
    cases refused
    exact ⟨rfl, Or.inl banned⟩
  · split at refused
    · rename_i unselected
      cases refused
      refine ⟨rfl, Or.inr fun piece held => ?_⟩
      have useless := Selector.candidates_eq_nil (by rw [size_foldl_insert]; exact sized)
        (Selector.choose?_eq_none unselected) held
      rcases useless with present | fetched
      · exact (mem_of_foldl_insert present).imp_right Or.inl
      · exact Or.inr (Or.inr fetched)
    · cases refused

theorem assignPiece_none
    (sized : turn.session.bitfield.size = turn.download.holdings.completed.size)
    (refused : turn.assignPiece exhausted = (after, none)) :
    after = turn ∧ (exhausted = [] → turn.download.isBanned turn.session.address.ip = true ∨
      ∀ piece, turn.session.bitfield.has piece = true →
        turn.download.holdings.has piece = true ∨ (turn.download.selector.endGame = false ∧
          piece ∈ turn.download.assignments.map (·.1))) := by
  obtain ⟨same, idle⟩ := assignPiece_refused sized refused
  refine ⟨same, ?_⟩
  rintro rfl
  exact idle.imp_right fun useless piece held =>
    (useless piece held).imp_right fun either => either.resolve_left List.not_mem_nil

/-- What the search for a piece to request from leaves behind. -/
structure Sought (scene : Scene) (turn after : Turn) (exhausted : List Nat)
    (chosen : Option Nat) : Prop where
  moves : Moves (scene.follow turn) (scene.follow after)
  session : after.session = turn.session.assign after.session.assigned
  useful : ∀ {piece}, chosen = some piece → after.session.assigned = some piece ∧
    after.download.holdings.has piece = false ∧ piece ∉ exhausted
  unassigned : chosen = none → after.session.assigned = none
  idle : chosen = none → exhausted = [] →
    after.download.isBanned after.session.address.ip = true ∨ (scene.follow after).Idle

theorem assignPiece_sought (scene : Scene) {chosen : Option Nat}
    (sized : turn.session.bitfield.size = turn.download.holdings.completed.size)
    (unchoked : turn.session.peerChoking = false) (unassigned : turn.session.assigned = none)
    (assign : turn.assignPiece exhausted = (after, chosen)) :
    Sought scene turn after exhausted chosen := by
  cases chosen with
  | none =>
    obtain ⟨rfl, idle⟩ := assignPiece_none sized assign
    exact {
      moves := .refl
      session := rfl
      useful := (nomatch ·)
      unassigned := fun _ => unassigned
      idle := fun _ => idle }
  | some piece =>
    obtain ⟨free, held, missing, fresh, unfetched, rfl⟩ := assignPiece_some sized assign
    refine {
      moves := .single (.took piece unassigned unchoked free held missing unfetched)
      session := rfl
      useful := ?_
      unassigned := (nomatch ·)
      idle := (nomatch ·) }
    intro other same
    cases same
    refine ⟨rfl, ?_, fresh⟩
    change (turn.download.assign piece _).holdings.has piece = false
    rwa [Download.holdings_assign]

/-- The piece to request from is assigned and of use; there is none only if nothing could be
assigned. -/
theorem currentPiece_sought (scene : Scene) {chosen : Option Nat}
    (sized : turn.session.bitfield.size = turn.download.holdings.completed.size)
    (unchoked : turn.session.peerChoking = false)
    (spent : ∀ piece ∈ exhausted, ∀ request ∈ turn.session.downloads, request.piece ≠ piece)
    (current : turn.currentPiece exhausted = (after, chosen)) :
    Sought scene turn after exhausted chosen := by
  unfold currentPiece at current
  cases assigned : turn.session.assigned with
  | none =>
    simp only [assigned] at current
    exact assignPiece_sought scene sized unchoked assigned current
  | some piece =>
    simp only [assigned] at current
    split at current
    · rename_i useful
      simp only [Bool.and_eq_true, Bool.not_eq_true', List.contains_eq_mem,
        decide_eq_false_iff_not] at useful
      cases current
      refine {
        moves := .refl
        session := rfl
        useful := ?_
        unassigned := (nomatch ·)
        idle := (nomatch ·) }
      intro other same
      cases same
      exact ⟨assigned, useful.1, useful.2⟩
    · rename_i useless
      have released : Move (scene.follow turn) (scene.follow turn.unassign) := by
        rw [Scene.follow_unassign]
        refine .released piece assigned ?_
        cases present : turn.download.holdings.has piece with
        | true => exact Or.inl present
        | false => exact Or.inr (spent piece (by simpa [present] using useless))
      have apart : turn.unassign =
          { turn with
            download := turn.download.release piece turn.session.address
            session := turn.session.assign none } := by
        simp only [unassign, assigned]
      rw [apart] at released current
      have rest : Sought scene { turn with
          download := turn.download.release piece turn.session.address
          session := turn.session.assign none } after exhausted chosen :=
        assignPiece_sought scene sized unchoked rfl current
      exact {
        moves := .head released rest.moves
        session := rest.session
        useful := rest.useful
        unassigned := rest.unassigned
        idle := rest.idle }

/-- A turn that finds nothing to ask for stays as it is or withdraws its interest. -/
theorem giveUp_cases (turn : Turn) (exhausted : List Nat) :
    turn.giveUp exhausted = turn ∨
      (turn.session.downloads = [] ∧ exhausted = [] ∧ turn.session.amInterested = true ∧
        turn.giveUp exhausted =
          { turn with
            session := { turn.session with amInterested := false } }.say .notInterested) := by
  unfold giveUp
  split
  · rename_i nothing
    rw [Bool.and_eq_true, List.isEmpty_iff, List.isEmpty_iff] at nothing
    unfold Session.withdrawInterest
    split
    · rename_i interested
      exact Or.inr ⟨nothing.1, nothing.2, interested, rfl⟩
    · exact Or.inl rfl
  · exact Or.inl rfl

theorem assigned_giveUp (turn : Turn) (exhausted : List Nat) :
    (turn.giveUp exhausted).session.assigned = turn.session.assigned := by
  rcases turn.giveUp_cases exhausted with same | ⟨-, -, -, withdrawn⟩
  · rw [same]
  · rw [withdrawn]
    rfl

theorem giveUp_course (scene : Scene) (turn : Turn) (exhausted : List Nat)
    (unassigned : turn.session.assigned = none)
    (idle : exhausted = [] →
      turn.download.isBanned turn.session.address.ip = true ∨ (scene.follow turn).Idle) :
    Course (scene.follow turn) (scene.follow (turn.giveUp exhausted)) := by
  rcases turn.giveUp_cases exhausted with same | ⟨nothing, fresh, interested, withdrawn⟩
  · rw [same]
    exact .of_moves .refl
  · refine ⟨scene.follow turn, .refl, Or.inr ?_⟩
    exact {
      interested := interested
      noRequest := nothing
      unassigned := unassigned
      idle := idle fresh
      result := by rw [withdrawn, Scene.follow_say]; rfl }

/-- A turn whose session and marks have the shape of the torrent. -/
structure Sound (turn : Turn) : Prop where
  session : turn.session.Sound turn.download.torrent.pieceCount
  holdings : turn.download.holdings.Fits turn.download.torrent

theorem Sound.sized (sound : turn.Sound) :
    turn.session.bitfield.size = turn.download.holdings.completed.size :=
  sound.session.sized.trans sound.holdings.completed.symm

end Turn

/-- What the handlers of a connection rely on. -/
def Scene.Sound (scene : Scene) : Prop :=
  scene.turn.Sound

theorem Move.steady {scene after : Scene} (move : Move scene after) (sound : scene.Sound) :
    after.Sound := by
  have torrent : after.turn.download.torrent = scene.turn.download.torrent :=
    move.evolves.torrent
  refine ⟨?_, ?_⟩
  · rw [torrent]
    exact move.sound sound.session
  · rw [torrent]
    exact move.fits sound.holdings

theorem Moves.steady {scene after : Scene} (moves : Moves scene after) (sound : scene.Sound) :
    after.Sound := by
  induction moves with
  | refl => exact sound
  | tail _ move ih => exact move.steady ih

namespace Turn

variable {turn after : Turn} {exhausted : List Nat}

theorem Sound.moves {scene : Scene} (sound : turn.Sound)
    (moves : Moves (scene.follow turn) (scene.follow after)) :
    after.Sound ∧ after.download.torrent = turn.download.torrent :=
  have later : (scene.follow after).Sound :=
    moves.steady ⟨sound.session, sound.holdings⟩
  ⟨⟨later.session, later.holdings⟩, moves.evolves.torrent⟩

/-- How the requests end: none is open only if the peer is choking or nothing is fetched from it. -/
structure Filled (scene : Scene) (turn : Turn) (outcome : Turn × Except Fault Flow) : Prop where
  course : Course (scene.follow turn) (scene.follow outcome.1)
  stays : outcome.2 = .ok .stay
  ended : outcome.1.session.peerChoking = true ∨ outcome.1.session.downloads ≠ [] ∨
    outcome.1.session.assigned = none

/-- Different pieces of a torrent are no more than it has. -/
theorem length_le_pieceCount {torrent : Torrent} (nodup : exhausted.Nodup)
    (inside : ∀ piece ∈ exhausted, piece < torrent.pieceCount) :
    exhausted.length ≤ torrent.pieceCount := by
  have among : exhausted ⊆ List.range torrent.pieceCount :=
    fun piece member => List.mem_range.mpr (inside piece member)
  simpa using (List.subperm_of_subset nodup among).length_le

/-- Pieces without a block to ask for are few. -/
structure Spent (turn : Turn) (exhausted : List Nat) : Prop where
  nodup : exhausted.Nodup
  inside : ∀ piece ∈ exhausted, piece < turn.download.torrent.pieceCount
  unasked : ∀ piece ∈ exhausted, ∀ request ∈ turn.session.downloads, request.piece ≠ piece

/-- Opens a request for a block. -/
def ask (turn : Turn) (index : Nat) (block : Block) : Turn :=
  let request : BlockRequest := ⟨index, block.offset, block.length⟩
  { turn with session := { turn.session with
    downloads := turn.session.downloads ++ [request] } }.say (.request request)

theorem ask_move (scene : Scene) {index : Nat} {piece : Piece} {block : Block}
    (assigned : turn.session.assigned = some index) (allowed : turn.session.canRequest = true)
    (missing : turn.download.holdings.has index = false)
    (found : turn.download.torrent.piece? index = some piece)
    (wanted : piece.nextMissing? (turn.download.holdings.blocks index)
      (fun block => turn.session.isRequested index block.offset) = some block) :
    Move (scene.follow turn) (scene.follow (turn.ask index block)) := by
  rw [ask, Scene.follow_say]
  exact @Move.asked (scene.follow turn) index piece block assigned allowed missing found wanted

namespace Sought

variable {scene : Scene} {chosen : Option Nat}

theorem downloads (sought : Sought scene turn after exhausted chosen) :
    after.session.downloads = turn.session.downloads := by
  rw [sought.session]
  rfl

theorem depth (sought : Sought scene turn after exhausted chosen) :
    after.session.depth = turn.session.depth := by
  rw [sought.session]
  rfl

theorem canRequest (sought : Sought scene turn after exhausted chosen) :
    after.session.canRequest = turn.session.canRequest := by
  rw [sought.session]
  rfl

end Sought

/-- A request for a piece that is not exhausted exhausts no piece. -/
theorem Spent.ask {scene : Scene} {index : Nat} (spent : turn.Spent exhausted) (sound : turn.Sound)
    (sought : Sought scene turn after exhausted (some index)) (block : Block) :
    (after.ask index block).Spent exhausted := by
  obtain ⟨_, _, fresh⟩ := sought.useful rfl
  have torrent := (sound.moves sought.moves).2
  refine ⟨spent.nodup, fun piece member => torrent ▸ spent.inside piece member, ?_⟩
  intro piece member request asked
  rcases List.mem_append.mp asked with earlier | latest
  · exact spent.unasked piece member request (sought.downloads ▸ earlier)
  · rw [List.mem_singleton.mp latest]
    rintro rfl
    exact fresh member

/-- A piece is exhausted if no block of it is on its way. -/
theorem Spent.exhaust {scene : Scene} {index : Nat} (spent : turn.Spent exhausted)
    (sound : turn.Sound) (sought : Sought scene turn after exhausted (some index))
    (nothing : ∀ request ∈ after.session.downloads, request.piece ≠ index) :
    after.Spent (index :: exhausted) := by
  obtain ⟨assigned, _, fresh⟩ := sought.useful rfl
  obtain ⟨steady, torrent⟩ := sound.moves sought.moves
  refine ⟨List.nodup_cons.mpr ⟨fresh, spent.nodup⟩, ?_, ?_⟩
  · intro piece member
    rcases List.mem_cons.mp member with rfl | member
    · exact steady.session.inside assigned
    · exact torrent ▸ spent.inside piece member
  · intro piece member request asked
    rcases List.mem_cons.mp member with rfl | member
    · exact nothing request asked
    · exact spent.unasked piece member request (sought.downloads ▸ asked)

namespace Filled

variable {scene : Scene} {outcome : Turn × Except Fault Flow}

/-- Moves may come first. -/
theorem head (moves : Moves (scene.follow turn) (scene.follow after))
    (filled : Filled scene after outcome) : Filled scene turn outcome :=
  ⟨.head moves filled.course, filled.stays, filled.ended⟩

/-- A session that may not ask for more has requests open or is choked. -/
theorem refused (scene : Scene) (sound : turn.Sound) (refused : turn.session.canRequest = false) :
    Filled scene turn turn.stay := by
  refine ⟨.of_moves .refl, rfl, ?_⟩
  cases choking : turn.session.peerChoking with
  | true => exact Or.inl choking
  | false =>
    refine Or.inr (Or.inl ?_)
    intro empty
    change turn.session.downloads = [] at empty
    have deep := sound.session.deep
    simp only [Session.canRequest, choking, empty, List.length_nil, Bool.not_false, Bool.true_and,
      decide_eq_false_iff_not] at refused
    exact refused deep

/-- Without a piece to ask for, nothing is fetched. -/
theorem givenUp (sought : Sought scene turn after exhausted none) :
    Filled scene turn (after.giveUp exhausted).stay := by
  have unassigned := sought.unassigned rfl
  have course := giveUp_course scene after exhausted unassigned (sought.idle rfl)
  exact ⟨.head sought.moves course, rfl,
    Or.inr (Or.inr ((after.assigned_giveUp exhausted).trans unassigned))⟩

end Filled

/-- The pipeline is filled by moves. Every round opens a request or exhausts a piece, so the rounds
suffice. -/
theorem fill_filled (scene : Scene) (fuel : Nat) (turn : Turn) (exhausted : List Nat)
    (sound : turn.Sound) (spent : turn.Spent exhausted)
    (room : turn.session.depth - turn.session.downloads.length +
      (turn.download.torrent.pieceCount - exhausted.length) < fuel) :
    Filled scene turn (fill fuel turn exhausted) := by
  -- `room` carries the induction: a round lowers either the requests that fit or the pieces left.
  induction fuel generalizing turn exhausted with
  | zero => omega
  | succ fuel ih =>
    unfold fill
    split
    · rename_i allowed
      have limits := allowed
      simp only [Session.canRequest, Bool.and_eq_true, Bool.not_eq_true',
        decide_eq_true_eq] at limits
      split
      · rename_i after current
        exact .givenUp (currentPiece_sought scene sound.sized limits.1 spent.unasked current)
      · rename_i after index current
        have sought := currentPiece_sought scene sound.sized limits.1 spent.unasked current
        obtain ⟨assigned, missing, fresh⟩ := sought.useful rfl
        obtain ⟨steady, torrent⟩ := sound.moves sought.moves
        have downloads := sought.downloads
        have depth := sought.depth
        have allowedAfter := sought.canRequest.trans allowed
        split
        · rename_i absent
          rw [Torrent.piece?, List.getElem?_eq_none_iff] at absent
          exact absurd (steady.session.inside assigned) (Nat.not_lt.mpr absent)
        · rename_i piece found
          split
          · rename_i block wanted
            simp only [Session.request, allowedAfter, ↓reduceIte]
            change Filled scene turn (fill fuel (after.ask index block) exhausted)
            have opened : Moves (scene.follow turn) (scene.follow (after.ask index block)) :=
              sought.moves.tail (after.ask_move scene assigned allowedAfter missing found wanted)
            have length : (after.ask index block).session.downloads.length =
                turn.session.downloads.length + 1 := by
              rw [← downloads]
              exact List.length_append
            refine .head opened (ih _ exhausted (sound.moves opened).1
              (spent.ask sound sought block) ?_)
            change after.session.depth - (after.ask index block).session.downloads.length +
              (after.download.torrent.pieceCount - exhausted.length) < fuel
            rw [length, torrent, depth]
            omega
          · split
            · rename_i coming
              refine ⟨.of_moves sought.moves, rfl, Or.inr (Or.inl ?_)⟩
              intro empty
              change after.session.downloads = [] at empty
              rw [empty] at coming
              cases coming
            · rename_i nothing
              have spentAfter : after.Spent (index :: exhausted) :=
                spent.exhaust sound sought fun request asked same =>
                  nothing (List.any_eq_true.mpr ⟨request, asked, decide_eq_true same⟩)
              have bound := length_le_pieceCount spentAfter.nodup spentAfter.inside
              refine .head sought.moves (ih after (index :: exhausted) steady spentAfter ?_)
              rw [torrent] at bound ⊢
              rw [downloads, depth]
              simp only [List.length_cons] at bound ⊢
              omega
    · rename_i refused
      exact .refused scene sound (Bool.eq_false_iff.mpr refused)

theorem fillPipeline_filled (scene : Scene) (sound : turn.Sound) :
    Filled scene turn turn.fillPipeline :=
  fill_filled scene _ turn [] sound
    ⟨List.nodup_nil, fun _ => (nomatch ·), fun _ => (nomatch ·)⟩
    (by simp only [List.length_nil]; omega)

theorem fillPipeline_stays (sound : turn.Sound) : turn.fillPipeline.2 = .ok .stay :=
  (fillPipeline_filled ⟨.empty 0, turn.download, ⟨turn.session, 0, [], false, false⟩⟩ sound).stays

end Turn

end BitTorrent
