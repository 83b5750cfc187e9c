import BitTorrent.Proofs.Pursuit

/-!
What a connection is left with when its pipeline is filled. The loop ends by itself, it asks only
for blocks that are missing and not asked for, and it stops short of the limit only where there is
nothing else to ask for.
-/

set_option autoImplicit false

namespace BitTorrent

/-- What is not asked for next is fetched or skipped. -/
theorem Piece.nextMissing?_none {piece : Piece} {fetched : List Bool} {skip : Block → Bool}
    (none : piece.nextMissing? fetched skip = none) {number : Nat}
    (inside : number < piece.blockCount) (missing : fetched[number]? = some false) :
    skip (piece.block number) = true := by
  rw [nextMissing?, Option.map_eq_none_iff, List.find?_eq_none] at none
  have listed : (piece.block number, false) ∈ piece.blocks.zip fetched := by
    apply List.mem_of_getElem? (i := number)
    rw [List.getElem?_zip_eq_some, getElem?_blocks]
    simp only [inside, ↓reduceIte, missing, and_self]
  simpa using none _ listed

namespace Turn

variable {turn after final : Turn} {exhausted : List Nat} {index : Nat}

/-- Session and marks have the shape of the torrent, and the piece that is fetched exists. -/
structure Shaped (turn : Turn) : Prop where
  bitfield : turn.session.bitfield.size = turn.download.torrent.pieceCount
  holdings : turn.download.holdings.Fits turn.download.torrent
  assigned : ∀ {piece}, turn.session.assigned = some piece →
    piece < turn.download.torrent.pieceCount

theorem Shaped.sized (shaped : turn.Shaped) : turn.Sized :=
  shaped.bitfield.trans shaped.holdings.completed.symm

theorem Shaped.pursues (shaped : turn.Shaped) (pursues : turn.Pursues after) : after.Shaped where
  bitfield := by
    rw [pursues.bitfield, pursues.torrent]
    exact shaped.bitfield
  holdings := by
    rw [pursues.holdings, pursues.torrent]
    exact shaped.holdings
  assigned := by
    intro piece taken
    rw [pursues.torrent]
    rcases pursues.chosen taken with earlier | lacks
    · exact shaped.assigned earlier
    · rw [← shaped.bitfield]
      exact Bitfield.lt_size_of_has lacks.1

/-! ### The rounds -/

/-- The rounds of the loop that fills a pipeline, from pieces that are exhausted to where it
ends. -/
inductive Fills : Turn → List Nat → Turn → Prop
  | full {turn : Turn} {exhausted : List Nat} :
      turn.session.canRequest = false → Fills turn exhausted turn
  | refused {turn after : Turn} {exhausted : List Nat} :
      turn.session.canRequest = true → turn.currentPiece exhausted = (after, none) →
      Fills turn exhausted (after.giveUp exhausted)
  | asks {turn after final : Turn} {exhausted : List Nat} {index : Nat} {piece : Piece}
      {block : Block} :
      turn.session.canRequest = true → turn.currentPiece exhausted = (after, some index) →
      after.download.torrent.piece? index = some piece →
      piece.nextMissing? (after.download.holdings.blocks index)
        (fun block => after.session.isRequested index block.offset) = some block →
      Fills (after.ask index block) exhausted final → Fills turn exhausted final
  | awaits {turn after : Turn} {exhausted : List Nat} {index : Nat} {piece : Piece} :
      turn.session.canRequest = true → turn.currentPiece exhausted = (after, some index) →
      after.download.torrent.piece? index = some piece →
      piece.nextMissing? (after.download.holdings.blocks index)
        (fun block => after.session.isRequested index block.offset) = none →
      (∃ request ∈ after.session.downloads, request.piece = index) → Fills turn exhausted after
  | exhausts {turn after final : Turn} {exhausted : List Nat} {index : Nat} {piece : Piece} :
      turn.session.canRequest = true → turn.currentPiece exhausted = (after, some index) →
      after.download.torrent.piece? index = some piece →
      piece.nextMissing? (after.download.holdings.blocks index)
        (fun block => after.session.isRequested index block.offset) = none →
      (∀ request ∈ after.session.downloads, request.piece ≠ index) →
      Fills after (index :: exhausted) final → Fills turn exhausted final

/-- What the search for a piece to request from comes to. -/
structure Seeks (turn after : Turn) (exhausted : List Nat) (chosen : Option Nat) : Prop where
  pursues : turn.Pursues after
  downloads : after.session.downloads = turn.session.downloads
  outbox : after.outbox = turn.outbox
  useful : ∀ {piece}, chosen = some piece → after.session.assigned = some piece ∧
    after.download.holdings.has piece = false ∧ piece ∉ exhausted
  useless : chosen = none → after.session.assigned = none ∧
    (after.download.isBanned after.session.address.ip = true ∨
      ∀ piece, after.session.bitfield.has piece = true →
        after.download.holdings.has piece = true ∨ piece ∈ exhausted ∨
          (after.download.selector.endGame = false ∧
            piece ∈ after.download.assignments.map (·.1)))

theorem assignPiece_seeks {chosen : Option Nat} (sized : turn.Sized)
    (unassigned : turn.session.assigned = none)
    (assign : turn.assignPiece exhausted = (after, chosen)) :
    turn.Seeks after exhausted chosen := by
  obtain ⟨pursues, downloads, useful⟩ := assignPiece_pursues sized unassigned assign
  refine {
    pursues := pursues
    downloads := downloads
    outbox := ?_
    useful := ?_
    useless := ?_ }
  · have same := turn.assignPiece_outbox exhausted
    rw [assign] at same
    exact same
  · rintro piece rfl
    obtain ⟨-, -, -, fresh, -, -⟩ := assignPiece_some sized assign
    exact ⟨(useful rfl).1, (useful rfl).2, fresh⟩
  · rintro rfl
    obtain ⟨rfl, idle⟩ := assignPiece_refused sized assign
    exact ⟨unassigned, idle⟩

theorem currentPiece_seeks {chosen : Option Nat} (sized : turn.Sized)
    (current : turn.currentPiece exhausted = (after, chosen)) :
    turn.Seeks after exhausted chosen := by
  unfold currentPiece at current
  cases assigned : turn.session.assigned with
  | none =>
    simp only [assigned] at current
    exact assignPiece_seeks sized assigned current
  | some piece =>
    simp only [assigned] at current
    split at current
    · rename_i useful
      simp only [Bool.and_eq_true, Bool.not_eq_true', List.contains_eq_mem,
        decide_eq_false_iff_not] at useful
      cases current
      exact ⟨.refl _, rfl, rfl, fun same => Option.some.inj same ▸ ⟨assigned, useful⟩,
        (nomatch ·)⟩
    · have apart : turn.unassign = { turn with
          download := turn.download.release piece turn.session.address
          session := turn.session.assign none } := by
        simp only [unassign, assigned]
      have released := turn.unassign_pursues
      have sizedAfter := released.sized sized
      rw [apart] at released sizedAfter current
      have seeks := assignPiece_seeks sizedAfter rfl current
      exact ⟨released.trans seeks.pursues, seeks.downloads, seeks.outbox, seeks.useful,
        seeks.useless⟩

namespace Seeks

variable {chosen : Option Nat}

theorem depth (seeks : turn.Seeks after exhausted chosen) :
    after.session.depth = turn.session.depth := by
  rw [seeks.pursues.session]

theorem canRequest (seeks : turn.Seeks after exhausted chosen) :
    after.session.canRequest = turn.session.canRequest := by
  rw [Session.canRequest, Session.canRequest, seeks.downloads, seeks.pursues.session]

theorem piece? (seeks : turn.Seeks after exhausted (some index)) (shaped : turn.Shaped) :
    ∃ piece, after.download.torrent.piece? index = some piece := by
  have inside := (shaped.pursues seeks.pursues).assigned (seeks.useful rfl).1
  exact ⟨_, List.getElem?_eq_getElem inside⟩

end Seeks

/-- A block that is asked for is among those of the piece that is fetched. -/
theorem Seeks.ask (seeks : turn.Seeks after exhausted (some index)) {piece : Piece} {block : Block}
    (found : after.download.torrent.piece? index = some piece)
    (wanted : piece.nextMissing? (after.download.holdings.blocks index)
      (fun block => after.session.isRequested index block.offset) = some block) :
    after.Pursues (after.ask index block) := by
  obtain ⟨number, counted, rfl, -, -⟩ := Piece.nextMissing?_some wanted
  have inside : piece.block number ∈ piece.blocks := Piece.mem_blocks.mpr ⟨number, counted, rfl⟩
  obtain ⟨assigned, missing, -⟩ := seeks.useful rfl
  exact ask_pursues assigned missing found inside

/-! ### The loop ends -/

/-- The pieces that a pass has found nothing to ask for in: all their blocks are fetched. -/
structure Dry (turn : Turn) (exhausted : List Nat) : Prop where
  nodup : exhausted.Nodup
  inside : ∀ piece ∈ exhausted, piece < turn.download.torrent.pieceCount
  fetched : ∀ piece ∈ exhausted, turn.download.holdings.allFetched piece = true

theorem Dry.nil (turn : Turn) : turn.Dry [] :=
  ⟨List.nodup_nil, fun _ none => absurd none List.not_mem_nil,
    fun _ none => absurd none List.not_mem_nil⟩

theorem Dry.pursues (dry : turn.Dry exhausted) (pursues : turn.Pursues after) :
    after.Dry exhausted := by
  refine ⟨dry.nodup, ?_, ?_⟩
  · rw [pursues.torrent]
    exact dry.inside
  · rw [pursues.holdings]
    exact dry.fetched

/-- A piece of which nothing is missing and nothing is on its way is fetched. -/
theorem allFetched_of_none {piece : Piece} (shaped : turn.Shaped)
    (found : turn.download.torrent.piece? index = some piece)
    (none : piece.nextMissing? (turn.download.holdings.blocks index)
      (fun block => turn.session.isRequested index block.offset) = none)
    (nothing : ∀ request ∈ turn.session.downloads, request.piece ≠ index) :
    turn.download.holdings.allFetched index = true := by
  rw [Holdings.allFetched, List.all_eq_true]
  intro mark member
  obtain ⟨number, located⟩ := List.mem_iff_getElem?.mp member
  cases mark with
  | true => rfl
  | false =>
    have counted : number < piece.blockCount := by
      rw [← shaped.holdings.marks found]
      exact (List.getElem?_eq_some_iff.mp located).1
    have asked := Piece.nextMissing?_none none counted located
    obtain ⟨request, among, same⟩ := List.any_eq_true.mp asked
    rw [Bool.and_eq_true, decide_eq_true_eq] at same
    exact absurd same.1 (nothing request among)

theorem Dry.exhaust {piece : Piece} (dry : turn.Dry exhausted) (shaped : turn.Shaped)
    (seeks : turn.Seeks after exhausted (some index))
    (found : after.download.torrent.piece? index = some piece)
    (none : piece.nextMissing? (after.download.holdings.blocks index)
      (fun block => after.session.isRequested index block.offset) = none)
    (nothing : ∀ request ∈ after.session.downloads, request.piece ≠ index) :
    after.Dry (index :: exhausted) := by
  have shapedAfter := shaped.pursues seeks.pursues
  have dryAfter := dry.pursues seeks.pursues
  obtain ⟨assigned, -, fresh⟩ := seeks.useful rfl
  refine ⟨List.nodup_cons.mpr ⟨fresh, dry.nodup⟩, ?_, ?_⟩
  · rw [List.forall_mem_cons]
    exact ⟨shapedAfter.assigned assigned, dryAfter.inside⟩
  · rw [List.forall_mem_cons]
    exact ⟨allFetched_of_none shapedAfter found none nothing, dryAfter.fetched⟩

/-- The rounds that a pass may still take: a round opens a request or exhausts a piece. -/
def slack (turn : Turn) (exhausted : List Nat) : Nat :=
  turn.session.depth - turn.session.downloads.length +
    (turn.download.torrent.pieceCount - exhausted.length)

theorem Seeks.slack_ask (seeks : turn.Seeks after exhausted (some index))
    (allowed : turn.session.canRequest = true) (block : Block) :
    (after.ask index block).slack exhausted < turn.slack exhausted := by
  have limit : turn.session.downloads.length < turn.session.depth := by
    simp only [Session.canRequest, Bool.and_eq_true, decide_eq_true_eq] at allowed
    exact allowed.2
  have depth : (after.ask index block).session.depth = turn.session.depth := seeks.depth
  have longer : (after.ask index block).session.downloads.length =
      turn.session.downloads.length + 1 := by
    change (after.session.downloads ++ [_]).length = _
    rw [seeks.downloads, List.length_append, List.length_singleton]
  have torrent : (after.ask index block).download.torrent = turn.download.torrent :=
    seeks.pursues.torrent
  rw [slack, slack, depth, longer, torrent]
  omega

theorem Seeks.slack_exhaust (seeks : turn.Seeks after exhausted (some index))
    (dry : after.Dry (index :: exhausted)) :
    after.slack (index :: exhausted) < turn.slack exhausted := by
  have bound := length_le_pieceCount dry.nodup dry.inside
  rw [seeks.pursues.torrent, List.length_cons] at bound
  rw [slack, slack, seeks.depth, seeks.downloads, seeks.pursues.torrent, List.length_cons]
  omega

/-- The loop comes to an end, and no more rounds than there are requests to open and pieces to
exhaust are needed for it. -/
theorem fill_ends (fuel : Nat) (turn : Turn) (exhausted : List Nat) (shaped : turn.Shaped)
    (dry : turn.Dry exhausted) (room : turn.slack exhausted < fuel) :
    ∃ final, Fills turn exhausted final ∧
      ∀ more, fill (fuel + more) turn exhausted = (final, .ok .stay) := by
  induction fuel generalizing turn exhausted with
  | zero => omega
  | succ fuel ih =>
    have next : ∀ more, fuel + 1 + more = fuel + more + 1 := fun more => by omega
    simp only [next, fill]
    cases allowed : turn.session.canRequest with
    | false => exact ⟨turn, .full allowed, fun _ => rfl⟩
    | true =>
      cases current : turn.currentPiece exhausted with
      | mk after chosen =>
        have seeks := currentPiece_seeks shaped.sized current
        cases chosen with
        | none => exact ⟨after.giveUp exhausted, .refused allowed current, fun _ => rfl⟩
        | some index =>
          obtain ⟨piece, found⟩ := seeks.piece? shaped
          cases wanted : piece.nextMissing? (after.download.holdings.blocks index)
            (fun block => after.session.isRequested index block.offset) with
          | some block =>
            have asks := seeks.pursues.trans (seeks.ask found wanted)
            have less := seeks.slack_ask allowed block
            obtain ⟨final, fills, ends⟩ := ih (after.ask index block) exhausted
              (shaped.pursues asks) (dry.pursues asks) (by omega)
            refine ⟨final, .asks allowed current found wanted fills, fun more => ?_⟩
            simp only [found, wanted, Session.request, seeks.canRequest, allowed, ↓reduceIte]
            exact ends more
          | none =>
            by_cases coming : ∃ request ∈ after.session.downloads, request.piece = index
            · have any : after.session.downloads.any (·.piece = index) = true := by
                simpa using coming
              refine ⟨after, .awaits allowed current found wanted coming, fun more => ?_⟩
              simp only [found, wanted, any, ↓reduceIte]
              rfl
            · have nothing : ∀ request ∈ after.session.downloads, request.piece ≠ index :=
                fun request among same => coming ⟨request, among, same⟩
              have any : after.session.downloads.any (·.piece = index) = false := by
                simpa using nothing
              have dryAfter := dry.exhaust shaped seeks found wanted nothing
              have less := seeks.slack_exhaust dryAfter
              obtain ⟨final, fills, ends⟩ := ih after (index :: exhausted)
                (shaped.pursues seeks.pursues) dryAfter (by omega)
              refine ⟨final, .exhausts allowed current found wanted nothing fills, fun more => ?_⟩
              simp only [found, wanted, any, Bool.false_eq_true, ↓reduceIte]
              exact ends more

/-! ### What is asked for -/

/-- A request can be opened behind those of a queue: we are not choked, the queue has room, and the
block is missing and not in the queue. -/
structure MayAsk (turn : Turn) (queue : List BlockRequest) (request : BlockRequest) : Prop where
  unchoked : turn.session.peerChoking = false
  room : queue.length < turn.session.depth
  missing : turn.download.holdings.has request.piece = false
  block : ∃ piece number, turn.download.torrent.piece? request.piece = some piece ∧
    number < piece.blockCount ∧ piece.block number = ⟨request.start, request.length⟩ ∧
    turn.download.holdings.isFetched request.piece number = false
  fresh : ∀ other ∈ queue, ¬(other.piece = request.piece ∧ other.start = request.start)

theorem MayAsk.pursues {queue : List BlockRequest} {request : BlockRequest}
    (pursues : turn.Pursues after) (may : after.MayAsk queue request) :
    turn.MayAsk queue request := by
  obtain ⟨unchoked, room, missing, block, fresh⟩ := may
  rw [pursues.session] at unchoked room
  rw [pursues.holdings] at missing block
  rw [pursues.torrent] at block
  exact ⟨unchoked, room, missing, block, fresh⟩

theorem Seeks.mayAsk {piece : Piece} {block : Block}
    (seeks : turn.Seeks after exhausted (some index)) (allowed : turn.session.canRequest = true)
    (found : after.download.torrent.piece? index = some piece)
    (wanted : piece.nextMissing? (after.download.holdings.blocks index)
      (fun block => after.session.isRequested index block.offset) = some block) :
    after.MayAsk after.session.downloads ⟨index, block.offset, block.length⟩ := by
  rw [← seeks.canRequest, Session.canRequest, Bool.and_eq_true, Bool.not_eq_true',
    decide_eq_true_eq] at allowed
  obtain ⟨number, counted, rfl, marked, unasked⟩ := Piece.nextMissing?_some wanted
  refine {
    unchoked := allowed.1
    room := allowed.2
    missing := (seeks.useful rfl).2.1
    block := ⟨piece, number, found, counted, rfl, ?_⟩
    fresh := ?_ }
  · rw [Holdings.isFetched, List.getD_eq_getElem?_getD, marked]
    rfl
  · intro other queued same
    have asked : after.session.isRequested index (piece.block number).offset = true :=
      List.any_eq_true.mpr ⟨other, queued, by simpa using same⟩
    rw [asked] at unasked
    cases unasked

/-- What is said until a turn has become another one: requests, each of which could be opened behind
those before it, and then perhaps that there is no interest any more. -/
structure Speaks (turn final : Turn) (requests : List BlockRequest) (withdrawn : List Message) :
    Prop where
  queue : final.session.downloads = turn.session.downloads ++ requests
  outbox : final.outbox = turn.outbox ++ (requests.map .request ++ withdrawn)
  last : withdrawn = [] ∨ withdrawn = [.notInterested] ∧ final.session.downloads = []
  may : ∀ front request back, requests = front ++ request :: back →
    turn.MayAsk (turn.session.downloads ++ front) request

variable {requests : List BlockRequest} {withdrawn : List Message}

/-- No request is opened. -/
theorem Speaks.silent (queue : final.session.downloads = turn.session.downloads)
    (outbox : final.outbox = turn.outbox ++ withdrawn)
    (last : withdrawn = [] ∨ withdrawn = [.notInterested] ∧ final.session.downloads = []) :
    turn.Speaks final [] withdrawn where
  queue := queue.trans (List.append_nil _).symm
  outbox := outbox
  last := last
  may := fun _ _ _ split =>
    absurd split.symm (List.append_ne_nil_of_right_ne_nil _ (List.cons_ne_nil _ _))

theorem Speaks.refl (turn : Turn) : turn.Speaks turn [] [] :=
  .silent rfl (List.append_nil _).symm (Or.inl rfl)

theorem giveUp_speaks (turn : Turn) (exhausted : List Nat) :
    ∃ withdrawn, turn.Speaks (turn.giveUp exhausted) [] withdrawn := by
  rcases turn.giveUp_cases exhausted with same | ⟨nothing, -, -, withdrawn⟩
  · rw [same]
    exact ⟨[], .refl turn⟩
  · rw [withdrawn]
    exact ⟨[.notInterested], .silent rfl rfl (Or.inr ⟨rfl, nothing⟩)⟩

/-- Nothing is said while a piece is searched for. -/
theorem Seeks.speaks {chosen : Option Nat} (seeks : turn.Seeks after exhausted chosen)
    (speaks : after.Speaks final requests withdrawn) : turn.Speaks final requests withdrawn := by
  obtain ⟨queue, outbox, last, may⟩ := speaks
  rw [seeks.downloads] at queue may
  rw [seeks.outbox] at outbox
  exact ⟨queue, outbox, last, fun front request back split =>
    (may front request back split).pursues seeks.pursues⟩

/-- One more request comes first. -/
theorem Speaks.ask {block : Block} (pursues : turn.Pursues (turn.ask index block))
    (first : turn.MayAsk turn.session.downloads ⟨index, block.offset, block.length⟩)
    (speaks : (turn.ask index block).Speaks final requests withdrawn) :
    turn.Speaks final (⟨index, block.offset, block.length⟩ :: requests) withdrawn := by
  obtain ⟨queue, outbox, last, may⟩ := speaks
  have opened : (turn.ask index block).session.downloads =
      turn.session.downloads ++ [⟨index, block.offset, block.length⟩] := rfl
  have said : (turn.ask index block).outbox =
      turn.outbox ++ [.request ⟨index, block.offset, block.length⟩] := rfl
  rw [opened] at queue may
  rw [said] at outbox
  refine ⟨?_, ?_, last, ?_⟩
  · rw [queue, List.append_assoc, List.singleton_append]
  · rw [outbox, List.append_assoc]
    rfl
  · intro front request back split
    cases front with
    | nil =>
      obtain ⟨rfl, -⟩ := List.cons.inj split
      rw [List.append_nil]
      exact first
    | cons head front =>
      obtain ⟨rfl, rest⟩ := List.cons.inj split
      have later := (may front request back rest).pursues pursues
      rw [List.append_assoc] at later
      exact later

/-- A pass says nothing else. -/
theorem Fills.speaks (fills : Fills turn exhausted final) (shaped : turn.Shaped) :
    ∃ requests withdrawn, turn.Speaks final requests withdrawn := by
  induction fills with
  | full => exact ⟨[], [], .refl _⟩
  | @refused turn after exhausted allowed current =>
    have seeks := currentPiece_seeks shaped.sized current
    obtain ⟨withdrawn, speaks⟩ := after.giveUp_speaks exhausted
    exact ⟨[], withdrawn, seeks.speaks speaks⟩
  | @asks turn after final exhausted index piece block allowed current found wanted fills ih =>
    have seeks := currentPiece_seeks shaped.sized current
    obtain ⟨requests, withdrawn, speaks⟩ := ih
      (shaped.pursues (seeks.pursues.trans (seeks.ask found wanted)))
    exact ⟨_, withdrawn, seeks.speaks (speaks.ask (seeks.ask found wanted)
      (seeks.mayAsk allowed found wanted))⟩
  | @awaits turn after exhausted index piece allowed current found wanted coming =>
    have seeks := currentPiece_seeks shaped.sized current
    exact ⟨[], [], seeks.speaks (.refl after)⟩
  | @exhausts turn after final exhausted index piece allowed current found wanted none fills ih =>
    have seeks := currentPiece_seeks shaped.sized current
    obtain ⟨requests, withdrawn, speaks⟩ := ih (shaped.pursues seeks.pursues)
    exact ⟨requests, withdrawn, seeks.speaks speaks⟩

/-! ### What is left to ask for -/

/-- There is nothing that a turn could ask for. Either all blocks of the piece that it fetches are
there or on their way, or it fetches none, and every piece that it could fetch has all its
blocks. -/
inductive Rests (turn : Turn) : Prop
  | waiting (index : Nat) :
      turn.session.assigned = some index → turn.download.holdings.has index = false →
      (∃ request ∈ turn.session.downloads, request.piece = index) →
      (∀ piece, turn.download.torrent.piece? index = some piece →
        ∀ number < piece.blockCount, turn.download.holdings.isFetched index number = true ∨
          turn.session.isRequested index (piece.block number).offset = true) →
      Rests turn
  | idle :
      turn.session.assigned = none →
      (turn.download.isBanned turn.session.address.ip = true ∨
        ∀ piece, turn.session.bitfield.has piece = true →
          turn.download.holdings.has piece = false →
          turn.download.selector.endGame = true ∨ piece ∉ turn.download.inFlight →
          turn.download.holdings.allFetched piece = true) →
      Rests turn

theorem Rests.giveUp (rests : turn.Rests) (exhausted : List Nat) :
    (turn.giveUp exhausted).Rests := by
  rcases turn.giveUp_cases exhausted with same | ⟨-, -, -, withdrawn⟩
  · rw [same]
    exact rests
  · rw [withdrawn]
    cases rests with
    | waiting index assigned missing coming there =>
      exact .waiting index assigned missing coming there
    | idle unassigned useless => exact .idle unassigned useless

/-- A pass that ends with room for a request has nothing left to ask for. -/
theorem Fills.rests (fills : Fills turn exhausted final) (shaped : turn.Shaped)
    (dry : turn.Dry exhausted) (room : final.session.canRequest = true) : final.Rests := by
  induction fills with
  | full full =>
    rw [full] at room
    cases room
  | @refused turn after exhausted allowed current =>
    have seeks := currentPiece_seeks shaped.sized current
    obtain ⟨unassigned, useless⟩ := seeks.useless rfl
    have fetched := (dry.pursues seeks.pursues).fetched
    refine Rests.giveUp (.idle unassigned (useless.imp_right ?_)) exhausted
    intro useless piece held missing eligible
    rcases useless piece held with present | dry | ⟨noEndGame, taken⟩
    · rw [present] at missing
      cases missing
    · exact fetched piece dry
    · rcases eligible with endGame | free
      · rw [noEndGame] at endGame
        cases endGame
      · exact absurd (List.mem_eraseDups.mpr taken) free
  | @asks turn after final exhausted index piece block allowed current found wanted fills ih =>
    have seeks := currentPiece_seeks shaped.sized current
    have asks := seeks.pursues.trans (seeks.ask found wanted)
    exact ih (shaped.pursues asks) (dry.pursues asks) room
  | @awaits turn after exhausted index piece allowed current found wanted coming =>
    have seeks := currentPiece_seeks shaped.sized current
    obtain ⟨assigned, missing, -⟩ := seeks.useful rfl
    refine .waiting index assigned missing coming ?_
    intro other same number counted
    obtain rfl : piece = other := Option.some.inj (found.symm.trans same)
    have marks := (shaped.pursues seeks.pursues).holdings.marks found
    have inside : number < (after.download.holdings.blocks index).length := marks ▸ counted
    cases mark : (after.download.holdings.blocks index)[number] with
    | true =>
      refine Or.inl ?_
      rw [Holdings.isFetched, List.getD_eq_getElem?_getD, List.getElem?_eq_getElem inside, mark]
      rfl
    | false =>
      exact Or.inr (Piece.nextMissing?_none wanted counted
        (List.getElem?_eq_some_iff.mpr ⟨inside, mark⟩))
  | @exhausts turn after final exhausted index piece allowed current found wanted nothing _ ih =>
    have seeks := currentPiece_seeks shaped.sized current
    exact ih (shaped.pursues seeks.pursues) (dry.exhaust shaped seeks found wanted nothing) room

/-- A piece is not fetched from anybody, or from the peer of a turn alone. -/
def Alone (turn : Turn) (piece : Nat) : Prop :=
  ∀ address, (piece, address) ∈ turn.download.assignments →
    address = turn.session.address ∧ turn.session.assigned = some piece

/-- What nobody else fetches is in flight behind a pass only if it is fetched from this peer. -/
theorem Alone.pursues {piece : Nat} (alone : turn.Alone piece) (pursues : turn.Pursues after)
    (unassigned : after.session.assigned = none) : piece ∉ after.download.inFlight := by
  intro taken
  obtain ⟨address, listed⟩ := Download.mem_inFlight.mp taken
  by_cases own : address = turn.session.address
  · subst own
    rcases pursues.listed listed with assigned | ⟨earlier, different⟩
    · rw [unassigned] at assigned
      cases assigned
    · exact different (alone _ earlier).2
  · exact own (alone _ (pursues.foreign own listed)).1

/-- A pass that opens no request for a session with none open has found nothing to ask for. -/
theorem Rests.unasked {piece : Nat} (rests : after.Rests) (pursues : turn.Pursues after)
    (none : after.session.downloads = [])
    (free : turn.download.isBanned turn.session.address.ip = false)
    (held : turn.session.bitfield.has piece = true)
    (missing : turn.download.holdings.has piece = false)
    (eligible : turn.download.selector.endGame = true ∨ turn.Alone piece) :
    turn.download.holdings.allFetched piece = true := by
  cases rests with
  | waiting index assigned missing coming =>
    obtain ⟨request, among, -⟩ := coming
    rw [none] at among
    cases among
  | idle unassigned useless =>
    have banned : after.download.isBanned after.session.address.ip =
        turn.download.isBanned turn.session.address.ip := by
      rw [pursues.download, pursues.session]
      rfl
    have endGame : after.download.selector.endGame = turn.download.selector.endGame := by
      rw [pursues.download]
    rcases useless with is | fetched
    · rw [banned, free] at is
      cases is
    · rw [← pursues.bitfield] at held
      rw [← pursues.holdings] at missing ⊢
      refine fetched piece held missing ?_
      rw [endGame]
      exact eligible.imp_right fun alone => alone.pursues pursues unassigned

/-- Filling the pipeline ends without a fault and by itself: its rounds lead to where the loop is
left, and more of them would change nothing. What it says are requests that the session has room
for, each for a block that is missing and not asked for, or else that there is no interest any more.
If room is left there is nothing else to ask for; so a session without an open request gets one as
soon as its peer has a block that is missing, of a piece that nobody else fetches or in the end
game. -/
theorem fillPipeline_maximal (shaped : turn.Shaped) :
    turn.fillPipeline.2 = .ok .stay ∧
    Fills turn [] turn.fillPipeline.1 ∧
    (∀ more, fill (turn.session.depth - turn.session.downloads.length +
      turn.download.torrent.pieceCount + 1 + more) turn [] = turn.fillPipeline) ∧
    (turn.fillPipeline.1.session.canRequest = true → turn.fillPipeline.1.Rests) ∧
    ∃ requests withdrawn,
      turn.fillPipeline.1.session.downloads = turn.session.downloads ++ requests ∧
      turn.fillPipeline.1.outbox = turn.outbox ++ (requests.map .request ++ withdrawn) ∧
      (withdrawn = [] ∨
        withdrawn = [.notInterested] ∧ turn.fillPipeline.1.session.downloads = []) ∧
      (∀ front request back, requests = front ++ request :: back →
        turn.MayAsk (turn.session.downloads ++ front) request) ∧
      (turn.session.canRequest = true → turn.session.downloads = [] →
        turn.download.isBanned turn.session.address.ip = false →
        ∀ piece, turn.session.bitfield.has piece = true →
          turn.download.holdings.has piece = false →
          turn.download.holdings.allFetched piece = false →
          turn.download.selector.endGame = true ∨ turn.Alone piece → requests ≠ []) := by
  obtain ⟨final, fills, ends⟩ := fill_ends (turn.session.depth - turn.session.downloads.length +
    turn.download.torrent.pieceCount + 1) turn [] shaped (.nil turn) (by
      rw [slack, List.length_nil]
      omega)
  have same : turn.fillPipeline = (final, .ok .stay) := ends 0
  have pursues := (fillPipeline_pursues shaped.sized).1
  rw [same] at pursues ⊢
  obtain ⟨requests, withdrawn, queue, outbox, either, may⟩ := fills.speaks shaped
  have rests := fills.rests shaped (.nil turn)
  refine ⟨rfl, fills, ends, rests, requests, withdrawn, queue, outbox, either, may, ?_⟩
  rintro allowed none free piece held missing lacking eligible rfl
  rw [none, List.append_nil] at queue
  have room : final.session.canRequest = true := by
    rw [Session.canRequest, queue, pursues.session, ← none]
    exact allowed
  have fetched := (rests room).unasked pursues queue free held missing eligible
  rw [fetched] at lacking
  cases lacking

end Turn

namespace Sample

def pair : Torrent :=
  ⟨sha1 [], "pair", 4, 8, [⟨0, sha1 [], 0, 4⟩, ⟨1, sha1 [], 4, 4⟩], [⟨"pair", 0, 8⟩], []⟩

/-- The piece that is fetched is stored and not verified; the peer has another one. -/
def stalled : Turn where
  download := { Download.new pair {} peerId [] with
    holdings := (Holdings.none pair).mark 0 0 true, assignments := [(0, first)] }
  session := { Session.new first 2 4 0 with
    peerChoking := false, bitfield := Bitfield.full 2, assigned := some 0 }
  outbox := []

theorem stalled_shaped : stalled.Shaped where
  bitfield := rfl
  holdings := (Holdings.none_fits pair).mark 0 0 true
  assigned := by
    intro piece taken
    cases taken
    decide

end Sample

/-- A piece that is stored and not verified does not stall the requests. -/
theorem Turn.fillPipeline_maximal_stalled :
    Sample.stalled.Shaped ∧ ∃ request requests,
      Sample.stalled.fillPipeline.1.session.downloads = request :: requests ∧
      Sample.stalled.MayAsk [] request := by
  obtain ⟨-, -, -, -, requests, -, queue, -, -, may, asks⟩ :=
    fillPipeline_maximal Sample.stalled_shaped
  have some_ : requests ≠ [] := by
    refine asks rfl rfl rfl 1 (by decide) (by decide) (by decide) (Or.inr ?_)
    intro address listed
    cases List.mem_singleton.mp listed
  obtain ⟨request, rest, rfl⟩ := List.exists_cons_of_ne_nil some_
  exact ⟨Sample.stalled_shaped, request, rest, queue, may [] request rest rfl⟩

end BitTorrent
