import BitTorrent.Proofs.Marks

/-!
What a call leaves behind that fails. Most failures come before anything is done; only a piece that
cannot be hashed fails behind the write of its last block, and then its blocks are missing again and
nobody fetches it.
-/

set_option autoImplicit false

namespace BitTorrent

/-- A peer that breaks the protocol does not affect the other peers of the torrent. -/
theorem Violation.not_torrentWide (violation : Violation) :
    (Fault.violation violation).isTorrentWide = false := by
  cases violation <;> rfl

namespace Download

theorem record_eq (download : Download) (fault : Fault) :
    download.record fault = { download with
      lastError := if fault.isTorrentWide then some fault else download.lastError } := by
  unfold record
  split <;> rfl

theorem record_violation (download : Download) (violation : Violation) :
    download.record (.violation violation) = download := by
  rw [record, violation.not_torrentWide]
  rfl

end Download

namespace Turn

variable {store : MemoryStore} {turn : Turn} {fault : Fault} {request : BlockRequest}
  {data : Bytes} {exhausted : List Nat}

/-! ### Calls that do not fail -/

/-- The choice of a piece changes nothing of the session but the piece. -/
theorem session_assignPiece (turn : Turn) (exhausted : List Nat) :
    ∃ piece, (turn.assignPiece exhausted).1.session = turn.session.assign piece := by
  unfold assignPiece
  dsimp only
  split
  · exact ⟨turn.session.assigned, rfl⟩
  · split
    · exact ⟨turn.session.assigned, rfl⟩
    · exact ⟨_, rfl⟩

theorem session_currentPiece (turn : Turn) (exhausted : List Nat) :
    ∃ piece, (turn.currentPiece exhausted).1.session = turn.session.assign piece := by
  unfold currentPiece
  split
  · rename_i piece assigned
    split
    · exact ⟨turn.session.assigned, rfl⟩
    · obtain ⟨next, chosen⟩ := session_assignPiece turn.unassign exhausted
      refine ⟨next, chosen.trans ?_⟩
      simp only [unassign, assigned]
      rfl
  · exact session_assignPiece turn exhausted

theorem request_ok {session : Session} (request : BlockRequest) (able : session.canRequest = true) :
    session.request request =
      .ok ({ session with downloads := session.downloads ++ [request] }, .request request) := by
  rw [Session.request, if_pos able]

/-- A request is opened only where the session allows one more, so opening it does not fail. -/
theorem fill_succeeds (fuel : Nat) (turn : Turn) (exhausted : List Nat) :
    (fill fuel turn exhausted).2 = .ok .stay := by
  induction fuel generalizing turn exhausted with
  | zero => rfl
  | succ fuel ih =>
    unfold fill
    split
    · rename_i able
      obtain ⟨piece, same⟩ := turn.session_currentPiece exhausted
      split
      · rfl
      · rename_i later index chosen
        rw [chosen] at same
        have able : later.session.canRequest = true := by
          rw [same]
          exact able
        split
        · rfl
        · split
          · rw [request_ok _ able]
            exact ih _ _
          · split
            · rfl
            · exact ih _ _
    · rfl

theorem fillPipeline_succeeds (turn : Turn) : turn.fillPipeline.2 = .ok .stay :=
  fill_succeeds _ turn []

theorem onAvailability_succeeds (turn : Turn) : ∃ flow, turn.onAvailability.2 = .ok flow := by
  unfold onAvailability
  dsimp only
  split
  · exact ⟨_, rfl⟩
  · split
    · split
      · exact ⟨_, rfl⟩
      · exact ⟨_, fillPipeline_succeeds _⟩
    · exact ⟨_, rfl⟩

theorem onLocalHave_succeeds (turn : Turn) (piece : Nat) :
    ∃ flow, (turn.onLocalHave piece).2 = .ok flow := by
  unfold onLocalHave
  dsimp only
  split
  · exact ⟨_, rfl⟩
  · split
    · exact ⟨_, rfl⟩
    · have stays := fillPipeline_succeeds (turn.cancelRequests piece)
      split
      · rename_i failed
        rw [failed] at stays
        cases stays
      · exact ⟨_, rfl⟩

/-! ### Calls that fail -/

/-- A call failed before it did anything, but that the request of the peer may have been taken. -/
structure Refused (store : MemoryStore) (turn : Turn) (fault : Fault) (outcome : Outcome) :
    Prop where
  store : outcome.store = store
  download : outcome.turn.download = turn.download.record fault
  session : outcome.turn.session = { turn.session with upload := outcome.turn.session.upload }
  outbox : outcome.turn.outbox = turn.outbox

/-- The last block of a piece was stored, and then the piece could not be hashed. -/
structure Unhashed (store : MemoryStore) (turn : Turn) (request : BlockRequest) (data : Bytes)
    (piece : Piece) (fault : Fault) (outcome : Outcome) : Prop where
  found : turn.download.torrent.piece? request.piece = some piece
  written : ∃ range, piece.subRange? request.start request.length = some range ∧
    store.write range data = .ok outcome.store
  unread : outcome.store.checksum piece.range = .error fault
  download : outcome.turn.download = { turn.download.releaseAll request.piece with
    holdings :=
      (turn.download.holdings.fetch piece request).markAll piece.index false }.record fault
  session : outcome.turn.session = turn.session.assign none
  outbox : outcome.turn.outbox = turn.outbox

theorem Refused.violated {violation : Violation}
    (same : fault = .violation violation) :
    turn.Refused store fault ⟨store, turn, .error fault⟩ where
  store := rfl
  download := by rw [same, Download.record_violation]
  session := rfl
  outbox := rfl

/-- A block that is written fails its call if it cannot be stored, or if its piece cannot be
hashed. -/
theorem settle_write_failed {piece : Piece} {range : ByteRange}
    (found : turn.download.torrent.piece? request.piece = some piece)
    (inside : piece.subRange? request.start request.length = some range)
    (failed : (settle store (turn, .wait (.write request range data))).result = .error fault) :
    let outcome := settle store (turn, .wait (.write request range data))
    turn.Refused store fault outcome ∨ turn.Unhashed store request data piece fault outcome := by
  cases taken : store.write range data with
  | error cause =>
    rw [settle_lost taken] at failed ⊢
    cases failed
    exact Or.inl ⟨rfl, rfl, rfl, rfl⟩
  | ok written =>
    cases all : (turn.download.holdings.fetch piece request).allFetched request.piece with
    | false =>
      rw [settle_stored taken found all] at failed
      cases (fillPipeline_succeeds _).symm.trans failed
    | true =>
      rw [settle_hashed taken found all] at failed ⊢
      unfold settleChecksum at failed ⊢
      cases hashed : written.checksum piece.range with
      | ok digest =>
        simp only [hashed, afterChecksum] at failed
        split at failed <;> cases (fillPipeline_succeeds _).symm.trans failed
      | error cause =>
        simp only [hashed, afterChecksum, fail] at failed ⊢
        cases failed
        exact Or.inr ⟨found, ⟨range, inside, taken⟩, hashed, rfl, rfl, rfl⟩

theorem onBlock_failed (turn : Turn) (request : BlockRequest) (data : Bytes)
    (failed : (settle store (turn.onBlock request data)).result = .error fault) :
    let outcome := settle store (turn.onBlock request data)
    turn.Refused store fault outcome ∨
      ∃ piece, turn.Unhashed store request data piece fault outcome := by
  unfold onBlock at failed ⊢
  cases found : turn.download.torrent.piece? request.piece with
  | none =>
    simp only [found, settle] at failed ⊢
    cases failed
    exact Or.inl (.violated rfl)
  | some piece =>
    simp only [found] at failed ⊢
    split at failed
    · cases (fillPipeline_succeeds turn).symm.trans failed
    · rename_i missing
      simp only [missing, Bool.false_eq_true, ↓reduceIte]
      cases inside : piece.subRange? request.start request.length with
      | none =>
        simp only [inside, settle] at failed ⊢
        cases failed
        exact Or.inl (.violated rfl)
      | some range =>
        simp only [inside] at failed ⊢
        exact (settle_write_failed found inside failed).imp_right fun unhashed => ⟨piece, unhashed⟩

/-- A reaction to an event fails before it does anything, or because the piece that a block was the
last of cannot be hashed. -/
theorem handleStored_failed {event : Event}
    (failed : (handleStored store turn event).result = .error fault) :
    let outcome := handleStored store turn event
    turn.Refused store fault outcome ∨ ∃ request data piece, event = .block request data ∧
      turn.Unhashed store request data piece fault outcome := by
  cases event with
  | keepAlive | ignored | port | cancel | interested | notInterested | choked => cases failed
  | bitfield | have_ =>
    obtain ⟨flow, succeeds⟩ := turn.onAvailability_succeeds
    cases succeeds.symm.trans failed
  | unchoked => cases (fillPipeline_succeeds turn).symm.trans failed
  | request request =>
    unfold handleStored handle at failed ⊢
    cases checked : checkRequest turn.download request with
    | error violation =>
      simp only [checked, settle] at failed ⊢
      cases failed
      exact Or.inl (.violated rfl)
    | ok _ =>
      simp only [checked] at failed
      cases failed
  | block request data =>
    refine (onBlock_failed turn request data failed).imp_right ?_
    rintro ⟨piece, unhashed⟩
    exact ⟨request, data, piece, rfl, unhashed⟩

/-- A request of the peer that cannot be served fails before anything is done. -/
theorem serveStored_failed (failed : (serveStored store turn).result = .error fault) :
    turn.Refused store fault (serveStored store turn) := by
  unfold serveStored serve Session.takeUpload at failed ⊢
  cases asked : turn.session.upload with
  | none =>
    simp only [asked] at failed
    cases failed
  | some request =>
    simp only [asked] at failed ⊢
    split at failed
    · cases failed
    · rename_i unchoked
      rw [if_neg unchoked]
      split at failed
      · cases failed
        refine ⟨rfl, ?_, rfl, rfl⟩
        exact (Download.record_violation _ _).symm
      · rename_i range located
        cases stored : store.read range with
        | ok data =>
          simp only [settle, stored, afterRead] at failed
          cases failed
        | error cause =>
          simp only [settle, stored, afterRead, fail] at failed ⊢
          cases failed
          exact ⟨rfl, rfl, rfl, rfl⟩

/-! ### What a failed call leaves as it was -/

/-- The last block of a piece was stored, and nothing else was written. The piece could not be
hashed: it is fetched from nobody, and its blocks, but no others, are missing. -/
structure Forgets (store : MemoryStore) (turn : Turn) (request : BlockRequest) (data : Bytes)
    (fault : Fault) (outcome : Outcome) : Prop where
  hashed : ∃ piece, turn.download.torrent.piece? request.piece = some piece ∧
    outcome.store.checksum piece.range = .error fault
  written : ∃ range, (turn.download.torrent.piece? request.piece).bind
      (·.subRange? request.start request.length) = some range ∧
    store.write range data = .ok outcome.store ∧
    ∀ position, position < range.offset ∨ range.stop ≤ position →
      outcome.store.byte? position = store.byte? position
  assignments : outcome.turn.download.assignments =
    turn.download.assignments.filter (·.1 ≠ request.piece)
  missing : ∀ number, outcome.turn.download.holdings.isFetched request.piece number = false
  others : ∀ other, other ≠ request.piece →
    outcome.turn.download.holdings.blocks other = turn.download.holdings.blocks other

/-- The effects of a failed call. Of the shared state, only block marks, assignments and the last
error may be others than before: what is complete, who is banned, and who is known with which
commands queued are not touched. -/
structure Contained (store : MemoryStore) (turn : Turn) (event : Option Event) (fault : Fault)
    (outcome : Outcome) : Prop where
  outbox : outcome.turn.outbox = turn.outbox
  download : outcome.turn.download = { turn.download with
    holdings := { turn.download.holdings with fetched := outcome.turn.download.holdings.fetched }
    assignments := outcome.turn.download.assignments
    lastError := if fault.isTorrentWide then some fault else turn.download.lastError }
  session : outcome.turn.session = { turn.session with
    assigned := outcome.turn.session.assigned, upload := outcome.turn.session.upload }
  unassigned : outcome.turn.session.assigned = turn.session.assigned ∨
    outcome.turn.session.assigned = none
  effects :
    (outcome.store = store ∧
      outcome.turn.download.assignments = turn.download.assignments ∧
      outcome.turn.download.holdings.fetched = turn.download.holdings.fetched) ∨
    ∃ request data, event = some (.block request data) ∧
      turn.Forgets store request data fault outcome

variable {outcome : Outcome}

theorem Refused.contained (refused : turn.Refused store fault outcome) (event : Option Event) :
    turn.Contained store event fault outcome := by
  obtain ⟨stored, download, session, outbox⟩ := refused
  rw [Download.record_eq] at download
  have assigned : outcome.turn.session.assigned = turn.session.assigned := by rw [session]
  refine ⟨outbox, by rw [download], by rw [assigned, ← session], Or.inl assigned, Or.inl ?_⟩
  rw [download]
  exact ⟨stored, rfl, rfl⟩

theorem Unhashed.forgets {piece : Piece} (tiled : turn.download.torrent.Tiled)
    (unhashed : turn.Unhashed store request data piece fault outcome) :
    turn.Forgets store request data fault outcome := by
  obtain ⟨found, ⟨range, inside, taken⟩, unread, download, -, -⟩ := unhashed
  rw [Download.record_eq, tiled.index found] at download
  have located : (turn.download.torrent.piece? request.piece).bind
      (·.subRange? request.start request.length) = some range := by
    rw [found]
    exact inside
  obtain ⟨-, -, -, -, elsewhere⟩ := MemoryStore.write_ok taken
  refine ⟨⟨piece, found, unread⟩, ⟨range, located, taken, elsewhere⟩, ?_, ?_, ?_⟩ <;> rw [download]
  · rfl
  · intro number
    exact Holdings.isFetched_markAll_false _ _ _
  · intro other different
    have kept := Holdings.blocks_markAll (turn.download.holdings.fetch piece request) request.piece
      other false
    rw [if_neg (Ne.symm different)] at kept
    exact kept.trans (Holdings.blocks_fetch_of_ne _ _ (Ne.symm different))

theorem Unhashed.contained {piece : Piece} (tiled : turn.download.torrent.Tiled)
    (unhashed : turn.Unhashed store request data piece fault outcome) :
    turn.Contained store (some (.block request data)) fault outcome := by
  have forgets := unhashed.forgets tiled
  obtain ⟨-, -, -, download, session, outbox⟩ := unhashed
  rw [Download.record_eq] at download
  refine ⟨outbox, ?_, by rw [session]; rfl, ?_, Or.inr ⟨request, data, rfl, forgets⟩⟩
  · have completed : ((turn.download.holdings.fetch piece request).markAll piece.index
        false).completed = turn.download.holdings.completed :=
      Holdings.completed_fetch turn.download.holdings piece request
    rw [download]
    simp only [← completed]
    rfl
  · rw [session]
    exact Or.inr rfl

/-- A call that fails has no effect but, where the last block of a piece was stored and the piece
could not be hashed, that the piece is to be fetched again. What a completed piece calls for does
not fail at all, and neither does the opening of requests. -/
theorem failure_contained {info : Metainfo} (store : MemoryStore) (turn : Turn)
    (built : Torrent.ofMetainfo info = .ok turn.download.torrent) :
    (∀ event fault, (handleStored store turn event).result = .error fault →
      turn.Contained store (some event) fault (handleStored store turn event)) ∧
    (∀ fault, (serveStored store turn).result = .error fault →
      turn.Contained store none fault (serveStored store turn)) ∧
    (∀ piece, ∃ flow, (turn.onLocalHave piece).2 = .ok flow) ∧
    ∀ fuel exhausted, (fill fuel turn exhausted).2 = .ok .stay := by
  refine ⟨?_, ?_, turn.onLocalHave_succeeds, fun fuel => fill_succeeds fuel turn⟩
  · intro event fault failed
    rcases handleStored_failed failed with refused | ⟨request, data, piece, rfl, unhashed⟩
    · exact refused.contained _
    · exact unhashed.contained (Torrent.ofMetainfo_tiled built)
  · intro fault failed
    exact (serveStored_failed failed).contained none

/-- The only piece is fetched from the first peer. -/
def fetching : Turn where
  download :=
    { Download.new Sample.torrent {} Sample.peerId [] with assignments := [(0, Sample.first)] }
  session :=
    { Session.new Sample.first 1 5 0 with
      phase := .active, peerChoking := false, assigned := some 0 }
  outbox := []

/-- A store that takes what it is given and gives nothing back. -/
def unreadable : MemoryStore :=
  { MemoryStore.empty 4 with failReads := some (.store (.device "read" "sample" .full)) }

theorem failure_contained_unreadable :
    Torrent.ofMetainfo Sample.info = .ok fetching.download.torrent ∧
      fetching.Contained unreadable (some (.block Sample.request Sample.content))
        (.store (.device "read" "sample" .full))
        (handleStored unreadable fetching (.block Sample.request Sample.content)) ∧
      (handleStored unreadable fetching
        (.block Sample.request Sample.content)).turn.download.assignments = [] :=
  ⟨Sample.ofMetainfo_info,
    (failure_contained unreadable fetching Sample.ofMetainfo_info).1 _ _ rfl, rfl⟩

end Turn

end BitTorrent
