import BitTorrent.Proofs.Divided
import BitTorrent.Proofs.Verified

/-!
A complete piece and the blocks that are still on their way to the store. A handler looks whether a
piece is complete before it has a block written, and the block is in the store only when the write
is over; meanwhile others go on. The bytes of a complete piece can change by such a late write and
by nothing else, and without the end game there is none.
-/

set_option autoImplicit false

namespace BitTorrent

/-- A torrent, its store, and the connected peers. An answer of the store stays in `answers` until
the handler that asked goes on. -/
structure Workshop where
  store : MemoryStore
  crowd : Crowd
  answers : Address → Option Reply

/-- What happens at a time: something that does not concern the store, the store serves what a
handler waits for, a handler goes on with the answer, or pieces are looked for. -/
inductive Shift where
  | pass (stretch : Stretch)
  | serve (address : Address)
  | resume (address : Address)
  | recheck
  | faults (writes reads : Option Fault)

/-- What may happen at any time: nobody is broken off, and connections end between handlers. -/
def Crowd.admits (crowd : Crowd) : Stretch → Bool
  | .perform _ (.resume _) | .abandon _ | .recheck _ => false
  | .leave address => (crowd.worker? address).all (·.waiting.isNone)
  | _ => true

namespace Workshop

/-- Nobody is connected, and no piece is complete. -/
def start (torrent : Torrent) (settings : Settings) (selector : Selector) (ownId : PeerId)
    (draws : List Nat) (store : MemoryStore) : Workshop where
  store := store
  crowd := .start torrent settings selector ownId draws
  answers := fun _ => none

/-- What the store has to do for a handler. -/
def pending? (shop : Workshop) (address : Address) : Option Awaiting :=
  match shop.answers address with
  | some _ => none
  | none => (shop.crowd.worker? address).bind (·.waiting)

def step (shop : Workshop) : Shift → Workshop
  | .pass stretch =>
    if shop.crowd.admits stretch then { shop with crowd := shop.crowd.step stretch } else shop
  | .serve address =>
    match shop.pending? address with
    | none => shop
    | some awaiting =>
      { shop with
        store := (shop.store.answer awaiting).1
        answers := Function.update shop.answers address (some (shop.store.answer awaiting).2) }
  | .resume address =>
    match shop.answers address with
    | none => shop
    | some reply =>
      { shop with
        crowd := shop.crowd.step (.perform address (.resume reply))
        answers := Function.update shop.answers address none }
  | .recheck => { shop with crowd := shop.crowd.step (.recheck shop.store) }
  | .faults writes reads =>
    { shop with store := { shop.store with failWrites := writes, failReads := reads } }

/-- What a workshop becomes as one shift follows the other. -/
def run (shop : Workshop) (shifts : List Shift) : Workshop :=
  shifts.foldl step shop

/-- A piece is complete, or a handler is about to learn that its bytes match its hash. -/
def Vouched (shop : Workshop) (index : Nat) : Prop :=
  shop.crowd.download.holdings.has index = true ∨
    ∃ worker ∈ shop.crowd.workers, ∃ piece, worker.waiting = some (.checksum piece) ∧
      piece.index = index ∧ shop.answers worker.address = some (.hashed (.ok piece.hash))

/-- A block of such a piece is written. -/
def Trespasses (shop : Workshop) (shift : Shift) (index : Nat) : Prop :=
  ∃ address request range data after, shift = .serve address ∧
    shop.pending? address = some (.write request range data) ∧
    shop.store.write range data = .ok after ∧ request.piece = index ∧ shop.Vouched index

/-- No such block is written in a run. -/
def Spares (shop : Workshop) (index : Nat) : List Shift → Prop
  | [] => True
  | shift :: later => ¬ shop.Trespasses shift index ∧ (shop.step shift).Spares index later

end Workshop

/-- What a handler waits for is about a piece of the torrent. -/
def Awaiting.Concerns (torrent : Torrent) : Awaiting → Prop
  | .write request range _ => ∃ piece, torrent.piece? request.piece = some piece ∧
      piece.subRange? request.start request.length = some range
  | .checksum piece => ∃ index, torrent.piece? index = some piece
  | .read _ _ => True

/-- A block that is to be written is part of a piece that is missing. -/
def Awaiting.Lacking (holdings : Holdings) : Awaiting → Prop
  | .write request _ _ => holdings.has request.piece = false
  | _ => True

namespace Worker

variable {worker : Worker} {download : Download} {turn : Turn} {awaiting : Awaiting}

theorem receive_concerns {turn after : Turn} (sized : turn.Sized) {now : Nat} {message : Message}
    (received : turn.receive now message = (after, .wait awaiting)) :
    awaiting.Concerns turn.download.torrent ∧ awaiting.Lacking turn.download.holdings := by
  obtain ⟨-, -, size⟩ := turn.session.receive_keeps now message
  unfold Turn.receive at received
  split at received
  · cases received
  · rename_i session event heard
    rw [heard] at size
    obtain ⟨-, -, -, reacts⟩ :=
      @Turn.handle_pursues { turn with session := session } (size.trans sized) event
    rw [received] at reacts
    cases reacts with
    | waits request data piece range _ found missing inside =>
      exact ⟨⟨piece, found, inside⟩, missing⟩

theorem resume_concerns {turn after : Turn} (sized : turn.Sized) {before : Awaiting} {reply : Reply}
    (resumed : turn.resume before reply = some (after, .wait awaiting)) :
    awaiting.Concerns turn.download.torrent ∧ awaiting.Lacking turn.download.holdings := by
  unfold Turn.resume at resumed
  split at resumed
  · rename_i request range data outcome
    obtain ⟨base, stores, -⟩ := Turn.afterWrite_pursues sized request outcome
    rw [Option.some.inj resumed] at stores
    cases stores with
    | last piece found => exact ⟨⟨request.piece, found⟩, trivial⟩
  · cases resumed
  · cases resumed
  · cases resumed

theorem serve_concerns {turn after : Turn} (served : turn.serve = (after, .wait awaiting)) :
    awaiting.Concerns turn.download.torrent ∧ awaiting.Lacking turn.download.holdings := by
  unfold Turn.serve at served
  split at served
  · cases served
  · dsimp only at served
    split at served
    · cases served
    · split at served <;> cases served
      exact ⟨trivial, trivial⟩

theorem perform_concerns (sized : (worker.turn download).Sized) {deed : Deed}
    (performed : worker.perform download deed = some (turn, .wait awaiting)) :
    awaiting.Concerns download.torrent ∧ awaiting.Lacking download.holdings := by
  unfold perform at performed
  dsimp only at performed
  split at performed
  · exact resume_concerns sized performed
  all_goals first
    | cases performed
    | have same := Option.some.inj performed
  · exact receive_concerns sized same
  · exact serve_concerns same
  · exact absurd same (Turn.obey_ends _ _)

/-- A handler that waits can only be resumed. -/
theorem perform_waiting {deed : Deed} {next : Next} (waits : worker.waiting ≠ none)
    (performed : worker.perform download deed = some (turn, next)) :
    ∃ reply, deed = .resume reply := by
  unfold perform at performed
  cases waiting : worker.waiting with
  | none => exact absurd waiting waits
  | some awaiting =>
    rw [waiting] at performed
    cases deed with
    | resume reply => exact ⟨reply, rfl⟩
    | _ => cases performed

/-- A piece becomes complete only by a handler that learns that its bytes match its hash. -/
theorem perform_completes (sized : (worker.turn download).Sized) {deed : Deed} {next : Next}
    (performed : worker.perform download deed = some (turn, next)) {index : Nat}
    (missing : download.holdings.has index = false)
    (complete : turn.download.holdings.has index = true) :
    ∃ piece, worker.waiting = some (.checksum piece) ∧ piece.index = index ∧
      deed = .resume (.hashed (.ok piece.hash)) := by
  have unchanged : turn.download.holdings.completed = download.holdings.completed → False := by
    intro same
    rw [Holdings.has, same] at complete
    cases missing.symm.trans complete
  unfold perform at performed
  dsimp only at performed
  split at performed
  · rename_i awaiting reply waits
    unfold Turn.resume at performed
    split at performed
    · obtain ⟨rfl, -⟩ := Prod.mk.inj (Option.some.inj performed)
      exact (unchanged (Turn.afterWrite_quiet sized _ _).completed).elim
    · rename_i piece outcome
      obtain ⟨base, checks, pursues, -⟩ := Turn.afterChecksum_pursues sized piece outcome
      have same : ((worker.turn download).afterChecksum piece outcome).1 = turn :=
        congrArg Prod.fst (Option.some.inj performed)
      rw [same] at pursues
      rw [pursues.holdings] at complete unchanged
      refine ⟨piece, waits, ?_⟩
      cases checks with
      | unreadable fault =>
        refine (unchanged ?_).elim
        change (Download.record _ fault).holdings.completed = _
        rw [Download.holdings_record]
        rfl
      | intact =>
        refine ⟨?_, rfl⟩
        rw [Download.holdings_verify, Holdings.has_complete] at complete
        have before : (worker.turn download).download.holdings.has index = false := missing
        rw [before, Bool.false_or, Bool.and_eq_true, decide_eq_true_eq] at complete
        exact complete.1
      | corrupt digest =>
        refine (unchanged ?_).elim
        change (Download.reject _ piece _).holdings.completed = _
        rw [Download.holdings_reject]
        rfl
    · obtain ⟨rfl, -⟩ := Prod.mk.inj (Option.some.inj performed)
      exact (unchanged (Turn.afterRead_quiet _ _ _).completed).elim
    · cases performed
  all_goals
    exfalso
    first
    | (cases performed; done)
    | obtain ⟨rfl, -⟩ := Prod.mk.inj (Option.some.inj performed)
  · exact unchanged rfl
  · exact unchanged (congrArg _ (Turn.receive_holdings sized _ _))
  · exact unchanged (congrArg _ (congrArg _ (Turn.serve_download _)))
  · exact unchanged (congrArg _ (Turn.obey_holdings sized _))
  · exact unchanged (congrArg _ (Turn.checkIdle_holdings _ _))

end Worker

namespace Crowd

variable {crowd : Crowd} {worker : Worker} {address : Address}

theorem Sound.worker?_eq (sound : crowd.Sound) (there : worker ∈ crowd.workers) :
    crowd.worker? worker.address = some worker := by
  cases found : crowd.worker? worker.address with
  | none =>
    have nobody := List.find?_eq_none.mp found worker there
    simp at nobody
  | some other => rw [sound.same there (worker?_some found) (worker?_address found)]

/-- The handler of one worker leaves the others alone. -/
theorem Sound.perform_keeps (sound : crowd.Sound) (there : worker ∈ crowd.workers)
    (different : worker.address ≠ address) (deed : Deed) :
    worker ∈ (crowd.perform address deed).workers := by
  unfold Crowd.perform
  split
  · exact there
  · rename_i other found
    split
    · exact there
    · rename_i turn next performed
      have present := worker?_some found
      have tells := other.perform_tells (sound.settled other present).sized performed
      have acted : ∃ one ∈ crowd.workers, one.address = (other.after turn next).address :=
        ⟨other, present, tells.address.symm⟩
      refine (mem_put acted).mpr (.inr ⟨there, fun same => ?_⟩)
      exact different (same.trans (tells.address.trans (worker?_address found)))

/-- A handler that waits for the store is left alone by what may happen at any time. -/
theorem Sound.admits_keeps (sound : crowd.Sound) {stretch : Stretch}
    (admitted : crowd.admits stretch = true) (there : worker ∈ crowd.workers)
    (waits : worker.waiting ≠ none) : worker ∈ (crowd.step stretch).workers := by
  cases stretch with
  | join address peerId source capabilities now =>
    unfold Crowd.step Crowd.join
    dsimp only
    split
    · exact there
    · exact List.mem_append_left _ there
  | perform address deed =>
    by_cases own : worker.address = address
    · subst own
      cases performed : worker.perform crowd.download deed with
      | none =>
        simp only [Crowd.step, Crowd.perform, sound.worker?_eq there, performed]
        exact there
      | some outcome =>
        obtain ⟨reply, rfl⟩ := worker.perform_waiting waits performed
        cases admitted
    · exact sound.perform_keeps there own deed
  | leave address =>
    simp only [Crowd.admits] at admitted
    unfold Crowd.step
    dsimp only
    split
    · exact there
    · rename_i gone found
      rw [found] at admitted
      refine List.mem_filter.mpr ⟨there, decide_eq_true fun same => waits ?_⟩
      rw [sound.same (worker?_some found) there same]
      simpa using admitted
  | abandon | recheck => cases admitted
  | know | forget | shutdown | ban => exact there

/-- A piece becomes complete only by a handler that learns that its bytes match its hash, or as it
is looked for. -/
theorem Sound.completes (sound : crowd.Sound) {stretch : Stretch} {index : Nat}
    (missing : crowd.download.holdings.has index = false)
    (complete : (crowd.step stretch).download.holdings.has index = true) :
    (∃ address worker piece, stretch = .perform address (.resume (.hashed (.ok piece.hash))) ∧
      crowd.worker? address = some worker ∧ worker.waiting = some (.checksum piece) ∧
      piece.index = index) ∨
    ∃ store, ∃ piece ∈ crowd.download.torrent.pieces, stretch = .recheck store ∧
      piece.index = index ∧ store.checksum piece.range = .ok piece.hash := by
  have unchanged : (crowd.step stretch).download.holdings.completed =
      crowd.download.holdings.completed → False := by
    intro same
    rw [Holdings.has, same] at complete
    cases missing.symm.trans complete
  cases stretch with
  | perform address deed =>
    unfold Crowd.step Crowd.perform at complete
    dsimp only at complete
    split at complete
    · cases missing.symm.trans complete
    · rename_i worker found
      split at complete
      · cases missing.symm.trans complete
      · rename_i turn next performed
        have sized := (sound.settled worker (worker?_some found)).sized
        obtain ⟨piece, waits, same, rfl⟩ :=
          worker.perform_completes sized performed missing complete
        exact .inl ⟨address, worker, piece, rfl, found, waits, same⟩
  | recheck store =>
    have looked := @Download.recheck_induction (fun download =>
      download.torrent = crowd.download.torrent ∧ (download.holdings.has index = true →
        crowd.download.holdings.has index = true ∨ ∃ piece ∈ crowd.download.torrent.pieces,
          piece.index = index ∧ store.checksum piece.range = .ok piece.hash)) store
      (by
        rintro download piece member intact ⟨torrent, origin⟩
        refine ⟨torrent, fun held => ?_⟩
        change (download.holdings.complete piece.index).1.has index = true at held
        rw [Holdings.has_complete, Bool.or_eq_true, Bool.and_eq_true, decide_eq_true_eq] at held
        rcases held with earlier | ⟨same, -⟩
        · exact origin earlier
        · exact .inr ⟨piece, torrent ▸ member, same, intact⟩)
      crowd.download ⟨rfl, .inl⟩
    unfold Crowd.step at complete
    dsimp only at complete
    split at complete
    · rcases looked.2 complete with earlier | ⟨piece, member, same, intact⟩
      · cases missing.symm.trans earlier
      · exact .inr ⟨store, piece, member, rfl, same, intact⟩
    · cases missing.symm.trans complete
  | join address peerId source capabilities now =>
    refine (unchanged ?_).elim
    unfold Crowd.step Crowd.join
    dsimp only
    split <;> rfl
  | leave address =>
    refine (unchanged ?_).elim
    unfold Crowd.step
    dsimp only
    split
    · rfl
    · exact (Turn.onDisconnect_quiet _).completed
  | abandon address =>
    refine (unchanged ?_).elim
    unfold Crowd.step
    dsimp only
    split <;> rfl
  | ban ip => exact (unchanged (congrArg _ (Download.holdings_ban _ ip))).elim
  | know | forget | shutdown => exact (unchanged rfl).elim

end Crowd

namespace Workshop

variable {shop : Workshop} {shift : Shift} {index : Nat} {piece : Piece} {content : Bytes}

/-- The store answers only handlers that wait, and they wait for something of the torrent. -/
structure Sound (shop : Workshop) : Prop where
  crowd : shop.crowd.Sound
  tiled : shop.crowd.download.torrent.Tiled
  concerned : ∀ worker ∈ shop.crowd.workers, ∀ awaiting, worker.waiting = some awaiting →
    awaiting.Concerns shop.crowd.download.torrent
  idle : ∀ address, (∀ worker ∈ shop.crowd.workers, worker.address = address →
    worker.waiting = none) → shop.answers address = none

/-- Whoever waits after a stretch waited before, or its handler has just begun to. -/
theorem Sound.concerns (sound : shop.Sound) {stretch : Stretch} {worker : Worker}
    (member : worker ∈ (shop.crowd.step stretch).workers) {awaiting : Awaiting}
    (waits : worker.waiting = some awaiting) :
    (worker ∈ shop.crowd.workers ∨ awaiting.Lacking shop.crowd.download.holdings) ∧
      awaiting.Concerns shop.crowd.download.torrent := by
  cases sound.crowd.fate member with
  | stays there => exact ⟨.inl there, sound.concerned worker there awaiting waits⟩
  | @acts address deed earlier turn next _ found performed same =>
    subst same
    have sized := (sound.crowd.settled earlier (Crowd.worker?_some found)).sized
    cases next with
    | done result => cases waits
    | wait begun =>
      cases waits
      obtain ⟨concerns, lacking⟩ := earlier.perform_concerns sized performed
      exact ⟨.inr lacking, concerns⟩
  | comes _ idle => cases idle.symm.trans waits

theorem Sound.next (sound : shop.Sound) (stretch : Stretch) {answers : Address → Option Reply}
    (idle : ∀ address, (∀ worker ∈ (shop.crowd.step stretch).workers, worker.address = address →
      worker.waiting = none) → answers address = none) :
    Sound ⟨shop.store, shop.crowd.step stretch, answers⟩ where
  crowd := sound.crowd.step stretch
  tiled := by
    change (shop.crowd.step stretch).download.torrent.Tiled
    rw [sound.crowd.step_torrent stretch]
    exact sound.tiled
  concerned := by
    intro worker member awaiting waits
    change awaiting.Concerns (shop.crowd.step stretch).download.torrent
    rw [sound.crowd.step_torrent stretch]
    exact (sound.concerns member waits).2
  idle := idle

/-- Somebody waits where the store has something to do. -/
theorem pending?_some {address : Address} {awaiting : Awaiting}
    (asked : shop.pending? address = some awaiting) :
    shop.answers address = none ∧ ∃ worker ∈ shop.crowd.workers, worker.address = address ∧
      worker.waiting = some awaiting := by
  unfold pending? at asked
  split at asked
  · cases asked
  · rename_i unanswered
    obtain ⟨worker, found, waits⟩ := Option.bind_eq_some_iff.mp asked
    exact ⟨unanswered, worker, Crowd.worker?_some found, Crowd.worker?_address found, waits⟩

theorem Sound.step (sound : shop.Sound) (shift : Shift) : (shop.step shift).Sound := by
  cases shift with
  | pass stretch =>
    unfold Workshop.step
    dsimp only
    split
    · rename_i admitted
      refine sound.next stretch fun address resting => sound.idle address ?_
      intro worker member same
      by_contra waits
      exact waits (resting worker (sound.crowd.admits_keeps admitted member waits) same)
    · exact sound
  | serve address =>
    unfold Workshop.step
    dsimp only
    split
    · exact sound
    · rename_i awaiting asked
      refine ⟨sound.crowd, sound.tiled, sound.concerned, fun other resting => ?_⟩
      change Function.update shop.answers address _ other = none
      by_cases same : other = address
      · obtain ⟨-, worker, there, here, waits⟩ := pending?_some asked
        cases (resting worker there (here.trans same.symm)).symm.trans waits
      · rw [Function.update_of_ne same]
        exact sound.idle other resting
  | resume address =>
    unfold Workshop.step
    dsimp only
    split
    · exact sound
    · rename_i reply answered
      refine sound.next (.perform address (.resume reply)) fun other resting => ?_
      by_cases same : other = address
      · rw [same, Function.update_self]
      · rw [Function.update_of_ne same]
        refine sound.idle other fun worker member here => ?_
        exact resting worker (sound.crowd.perform_keeps member (here ▸ same) _) here
  | recheck =>
    refine sound.next (.recheck shop.store) fun address resting => sound.idle address ?_
    unfold Crowd.step at resting
    dsimp only at resting
    split at resting <;> exact resting
  | faults writes reads => exact ⟨sound.crowd, sound.tiled, sound.concerned, sound.idle⟩

theorem Sound.run (sound : shop.Sound) (shifts : List Shift) : (shop.run shifts).Sound := by
  induction shifts generalizing shop with
  | nil => exact sound
  | cons shift later ih => exact ih (sound.step shift)

/-- The crowd changes by a stretch in which nobody is abandoned, or it does not change. -/
theorem crowd_step (shop : Workshop) (shift : Shift) :
    (shop.step shift).crowd = shop.crowd ∨
      ∃ stretch, (∀ address, stretch ≠ .abandon address) ∧
        (shop.step shift).crowd = shop.crowd.step stretch := by
  cases shift with
  | pass stretch =>
    unfold Workshop.step
    dsimp only
    split
    · rename_i admitted
      refine .inr ⟨stretch, fun address abandoned => ?_, rfl⟩
      subst abandoned
      cases admitted
    · exact .inl rfl
  | serve address =>
    unfold Workshop.step
    dsimp only
    split <;> exact .inl rfl
  | resume address =>
    unfold Workshop.step
    dsimp only
    split
    · exact .inl rfl
    · rename_i reply _
      exact .inr ⟨.perform address (.resume reply), fun _ => (nomatch ·), rfl⟩
  | recheck => exact .inr ⟨.recheck shop.store, fun _ => (nomatch ·), rfl⟩
  | faults => exact .inl rfl

theorem Sound.step_torrent (sound : shop.Sound) (shift : Shift) :
    (shop.step shift).crowd.download.torrent = shop.crowd.download.torrent := by
  rcases shop.crowd_step shift with same | ⟨stretch, -, same⟩ <;> rw [same]
  exact sound.crowd.step_torrent stretch

theorem Sound.grows (sound : shop.Sound) (shift : Shift)
    (held : shop.crowd.download.holdings.has index = true) :
    (shop.step shift).crowd.download.holdings.has index = true := by
  rcases shop.crowd_step shift with same | ⟨stretch, -, same⟩ <;> rw [same]
  · exact held
  · exact (sound.crowd.heralds stretch).grows held

theorem Sound.run_torrent (sound : shop.Sound) (shifts : List Shift) :
    (shop.run shifts).crowd.download.torrent = shop.crowd.download.torrent := by
  induction shifts generalizing shop with
  | nil => rfl
  | cons shift later ih => exact (ih (sound.step shift)).trans (sound.step_torrent shift)

/-- The bytes of a piece change by a block of it that is written, and by nothing else. -/
theorem Sound.keeps (sound : shop.Sound)
    (found : shop.crowd.download.torrent.piece? index = some piece)
    (vouched : shop.Vouched index) (spared : ¬ shop.Trespasses shift index)
    (keeps : shop.store.Keeps piece content) : (shop.step shift).store.Keeps piece content := by
  cases shift with
  | pass stretch =>
    unfold Workshop.step
    dsimp only
    split <;> exact keeps
  | resume address =>
    unfold Workshop.step
    dsimp only
    split <;> exact keeps
  | recheck => exact keeps
  | faults writes reads => exact ⟨keeps.sized, keeps.held, keeps.intact⟩
  | serve address =>
    unfold Workshop.step
    dsimp only
    split
    · exact keeps
    · rename_i awaiting asked
      change (shop.store.answer awaiting).1.Keeps piece content
      cases awaiting with
      | checksum | read => exact keeps
      | write request range data =>
        unfold MemoryStore.answer
        dsimp only
        split
        · rename_i after taken
          obtain ⟨-, worker, there, -, waits⟩ := pending?_some asked
          obtain ⟨other, located, inside⟩ := sound.concerned worker there _ waits
          obtain ⟨within, rfl⟩ := Piece.subRange?_eq_some.mp inside
          have different : index ≠ request.piece := fun same =>
            spared ⟨address, request, _, data, after, rfl, asked, taken, same.symm, vouched⟩
          have apart := sound.tiled.apart found located different
          obtain ⟨-, -, -, -, outside⟩ := MemoryStore.write_ok taken
          have length := keeps.sized
          refine ⟨keeps.sized, keeps.held.congr fun position lower upper => ?_, keeps.intact⟩
          refine outside position ?_
          simp only [ByteRange.stop]
          omega
        · exact keeps

/-- Whom the store has answered waits. -/
theorem Sound.answered (sound : shop.Sound) {address : Address} {reply : Reply}
    (answered : shop.answers address = some reply) :
    ∃ worker ∈ shop.crowd.workers, worker.address = address ∧ worker.waiting ≠ none := by
  by_contra nobody
  have unanswered := sound.idle address fun worker member same => by
    by_contra waits
    exact nobody ⟨worker, member, same, waits⟩
  cases unanswered.symm.trans answered

/-- Bytes that match the hash of a piece are its content. -/
theorem Sound.intact (sound : shop.Sound)
    (found : shop.crowd.download.torrent.piece? index = some piece) {other : Piece}
    (located : ∃ position, shop.crowd.download.torrent.piece? position = some other)
    (same : other.index = index) (hashed : shop.store.checksum other.range = .ok other.hash) :
    ∃ content, shop.store.Keeps piece content := by
  obtain ⟨position, located⟩ := located
  rw [sound.tiled.index located] at same
  subst same
  cases located.symm.trans found
  obtain ⟨content, sized, -, held, intact⟩ := MemoryStore.checksum_ok hashed
  exact ⟨content, sized, held, intact⟩

theorem Sound.vouched_pass (sound : shop.Sound) {stretch : Stretch}
    (admitted : shop.crowd.admits stretch = true)
    (vouched : Vouched { shop with crowd := shop.crowd.step stretch } index) :
    shop.Vouched index := by
  rcases vouched with held | ⟨worker, member, hashed, waits, same, answered⟩
  · refine .inl ?_
    by_contra missing
    rcases sound.crowd.completes (Bool.eq_false_iff.mpr missing) held with
      ⟨_, _, _, rfl, -⟩ | ⟨_, _, _, rfl, -⟩ <;> cases admitted
  · cases sound.crowd.fate member with
    | stays there => exact .inr ⟨worker, there, hashed, waits, same, answered⟩
    | @acts address deed earlier turn next called found performed after =>
      subst after
      have there := Crowd.worker?_some found
      have tells := earlier.perform_tells (sound.crowd.settled earlier there).sized performed
      obtain ⟨other, present, here, busy⟩ := sound.answered answered
      cases sound.crowd.same there present (here.trans tells.address)
      obtain ⟨reply, rfl⟩ := earlier.perform_waiting busy performed
      subst called
      cases admitted
    | comes _ idle => cases idle.symm.trans waits

theorem Sound.vouched_resume (sound : shop.Sound) {address : Address} {reply : Reply}
    (replied : shop.answers address = some reply)
    (vouched : Vouched { shop with
      crowd := shop.crowd.step (.perform address (.resume reply))
      answers := Function.update shop.answers address none } index) : shop.Vouched index := by
  rcases vouched with held | ⟨worker, member, hashed, waits, same, answered⟩
  · by_cases before : shop.crowd.download.holdings.has index = true
    · exact .inl before
    · rcases sound.crowd.completes (Bool.eq_false_iff.mpr before) held with
        ⟨other, worker, hashed, called, found, waits, same⟩ | ⟨_, _, _, called, -⟩
      · cases called
        have here := Crowd.worker?_address found
        exact .inr ⟨worker, Crowd.worker?_some found, hashed, waits, same, here ▸ replied⟩
      · cases called
  · change Function.update shop.answers address none worker.address = _ at answered
    have elsewhere : worker.address ≠ address := by
      intro here
      rw [here, Function.update_self] at answered
      cases answered
    rw [Function.update_of_ne elsewhere] at answered
    cases sound.crowd.fate member with
    | stays there => exact .inr ⟨worker, there, hashed, waits, same, answered⟩
    | @acts other deed earlier turn next called found performed after =>
      subst after
      cases called
      have there := Crowd.worker?_some found
      have tells := earlier.perform_tells (sound.crowd.settled earlier there).sized performed
      exact absurd (tells.address.trans (Crowd.worker?_address found)) elsewhere
    | comes _ idle => cases idle.symm.trans waits

theorem Sound.vouched_serve (sound : shop.Sound)
    (found : shop.crowd.download.torrent.piece? index = some piece) {address : Address}
    {awaiting : Awaiting} (asked : shop.pending? address = some awaiting)
    (vouched : Vouched { shop with
      store := (shop.store.answer awaiting).1
      answers := Function.update shop.answers address
        (some (shop.store.answer awaiting).2) } index) :
    shop.Vouched index ∨ ∃ content, (shop.store.answer awaiting).1.Keeps piece content := by
  rcases vouched with held | ⟨worker, member, hashed, waits, same, answered⟩
  · exact .inl (.inl held)
  · change Function.update shop.answers address _ worker.address = _ at answered
    by_cases here : worker.address = address
    · obtain ⟨-, other, there, equal, asking⟩ := pending?_some asked
      cases sound.crowd.same member there (equal.trans here.symm)
      cases waits.symm.trans asking
      rw [here, Function.update_self] at answered
      have matching : shop.store.checksum hashed.range = .ok hashed.hash :=
        Reply.hashed.inj (Option.some.inj answered)
      exact .inr (sound.intact found (sound.concerned worker member _ waits) same matching)
    · rw [Function.update_of_ne here] at answered
      exact .inl (.inr ⟨worker, member, hashed, waits, same, answered⟩)

/-- A piece is vouched for only when its bytes have just been found to match its hash. -/
theorem Sound.vouched (sound : shop.Sound)
    (found : shop.crowd.download.torrent.piece? index = some piece)
    (vouched : (shop.step shift).Vouched index) :
    shop.Vouched index ∨ ∃ content, (shop.step shift).store.Keeps piece content := by
  cases shift with
  | pass stretch =>
    unfold Workshop.step at vouched
    dsimp only at vouched
    split at vouched
    · rename_i admitted
      exact .inl (sound.vouched_pass admitted vouched)
    · exact .inl vouched
  | serve address =>
    unfold Workshop.step at vouched ⊢
    dsimp only at vouched ⊢
    split at vouched
    · exact .inl vouched
    · rename_i awaiting asked
      exact sound.vouched_serve found asked vouched
  | resume address =>
    unfold Workshop.step at vouched
    dsimp only at vouched
    split at vouched
    · exact .inl vouched
    · rename_i reply replied
      exact .inl (sound.vouched_resume replied vouched)
  | recheck =>
    rcases vouched with held | ⟨worker, member, hashed, waits, same, answered⟩
    · by_cases before : shop.crowd.download.holdings.has index = true
      · exact .inl (.inl before)
      · rcases sound.crowd.completes (Bool.eq_false_iff.mpr before) held with
          ⟨_, _, _, called, -⟩ | ⟨store, other, member, called, same, matching⟩
        · cases called
        · cases called
          obtain ⟨position, inside, rfl⟩ := List.getElem_of_mem member
          exact .inr (sound.intact found ⟨position, List.getElem?_eq_getElem inside⟩ same matching)
    · refine .inl (.inr ⟨worker, ?_, hashed, waits, same, answered⟩)
      change worker ∈ (shop.crowd.step (.recheck shop.store)).workers at member
      unfold Crowd.step at member
      dsimp only at member
      split at member <;> exact member
  | faults => exact .inl vouched

/-- As long as no block of a piece is written that was vouched for, its content stays. -/
theorem Sound.kept (sound : shop.Sound)
    (found : shop.crowd.download.torrent.piece? index = some piece) {shifts : List Shift}
    (spares : shop.Spares index shifts)
    (kept : shop.Vouched index → ∃ content, shop.store.Keeps piece content)
    (vouched : (shop.run shifts).Vouched index) :
    ∃ content, (shop.run shifts).store.Keeps piece content := by
  induction shifts generalizing shop with
  | nil => exact kept vouched
  | cons shift later ih =>
    refine ih (sound.step shift) ((sound.step_torrent shift).symm ▸ found) spares.2 ?_ vouched
    intro now
    rcases sound.vouched found now with before | fresh
    · obtain ⟨content, keeps⟩ := kept before
      exact ⟨content, sound.keeps found before spares.1 keeps⟩
    · exact fresh

/-- A complete piece keeps its content as long as no block of it is written. -/
theorem Sound.run_keeps (sound : shop.Sound)
    (found : shop.crowd.download.torrent.piece? index = some piece)
    (held : shop.crowd.download.holdings.has index = true) {shifts : List Shift}
    (spares : shop.Spares index shifts) (keeps : shop.store.Keeps piece content) :
    (shop.run shifts).store.Keeps piece content := by
  induction shifts generalizing shop with
  | nil => exact keeps
  | cons shift later ih =>
    exact ih (sound.step shift) ((sound.step_torrent shift).symm ▸ found) (sound.grows shift held)
      spares.2 (sound.keeps found (.inl held) spares.1 keeps)

theorem spares_append {before after : List Shift} :
    shop.Spares index (before ++ after) ↔
      shop.Spares index before ∧ (shop.run before).Spares index after := by
  induction before generalizing shop with
  | nil => exact ⟨fun spares => ⟨trivial, spares⟩, And.right⟩
  | cons shift later ih =>
    rw [List.cons_append, Spares, Spares, ih, and_assoc]
    rfl

/-- Nobody starts to write a block of a complete piece. -/
theorem Sound.begun (sound : shop.Sound) {worker : Worker}
    (member : worker ∈ (shop.step shift).crowd.workers) {request : BlockRequest}
    {range : ByteRange} {data : Bytes} (writing : worker.waiting = some (.write request range data))
    (held : shop.crowd.download.holdings.has request.piece = true) :
    worker ∈ shop.crowd.workers := by
  rcases shop.crowd_step shift with same | ⟨stretch, -, same⟩ <;> rw [same] at member
  · exact member
  · rcases (sound.concerns member writing).1 with earlier | lacking
    · exact earlier
    · exact nomatch held.symm.trans lacking

theorem Sound.divided (sound : shop.Sound) (divided : shop.crowd.Divided) (shift : Shift) :
    (shop.step shift).crowd.Divided := by
  rcases shop.crowd_step shift with same | ⟨stretch, orderly, same⟩ <;> rw [same]
  · exact divided
  · exact divided.step sound.crowd orderly

/-- Where no two handlers get hold of the same piece, no block is written late. -/
theorem untrespassed (divided : shop.crowd.Divided) : ¬ shop.Trespasses shift index := by
  rintro ⟨address, request, range, data, after, rfl, asked, -, rfl, vouched⟩
  obtain ⟨-, worker, there, -, writing⟩ := pending?_some asked
  have missing := (divided.waits worker there).writing writing
  rcases vouched with held | ⟨other, member, piece, hashing, same, -⟩
  · exact nomatch held.symm.trans missing
  · exact divided.unwritten member there hashing writing same.symm

theorem Sound.spares (sound : shop.Sound) (divided : shop.crowd.Divided) (shifts : List Shift) :
    shop.Spares index shifts := by
  induction shifts generalizing shop with
  | nil => trivial
  | cons shift later ih =>
    exact ⟨untrespassed divided, ih (sound.step shift) (sound.divided divided shift)⟩

theorem start_sound {torrent : Torrent} (tiled : torrent.Tiled) (settings : Settings)
    (selector : Selector) (ownId : PeerId) (draws : List Nat) (store : MemoryStore) :
    (start torrent settings selector ownId draws store).Sound where
  crowd := Crowd.start_sound torrent settings selector ownId draws
  tiled := tiled
  concerned := fun _ member => nomatch member
  idle := fun _ _ => rfl

end Workshop

section

variable {info : Metainfo} {torrent : Torrent} {settings : Settings} {selector : Selector}
  {ownId : PeerId} {draws : List Nat} {store : MemoryStore}

/-- However handlers interleave at their waits, a complete piece keeps its content unless a block of
it is written late: by a handler that already waited for the write when the piece was completed,
for none starts to write a block of a complete piece. Without the end game no block is written
late. -/
theorem run_undisturbed (built : Torrent.ofMetainfo info = .ok torrent)
    (before after : List Shift) :
    let start := Workshop.start torrent settings selector ownId draws store
    let shop := start.run before
    (∀ index piece, torrent.piece? index = some piece →
      shop.crowd.download.holdings.has index = true → start.Spares index (before ++ after) →
      ∃ content, shop.store.Keeps piece content ∧ (shop.run after).store.Keeps piece content) ∧
    (∀ shift, ∀ worker ∈ (shop.step shift).crowd.workers, ∀ request range data,
      worker.waiting = some (.write request range data) →
      shop.crowd.download.holdings.has request.piece = true → worker ∈ shop.crowd.workers) ∧
    (selector.endGame = false → ∀ index, start.Spares index (before ++ after)) := by
  intro start shop
  have tiled := Torrent.ofMetainfo_tiled built
  have begun : start.Sound := Workshop.start_sound tiled settings selector ownId draws store
  have sound : shop.Sound := begun.run before
  have same : shop.crowd.download.torrent = torrent := begun.run_torrent before
  refine ⟨?_, ?_, ?_⟩
  · intro index piece found held spares
    obtain ⟨early, late⟩ := Workshop.spares_append.mp spares
    have located : shop.crowd.download.torrent.piece? index = some piece := same ▸ found
    have nothing : ¬ start.Vouched index := by
      rintro (complete | ⟨_, member, -⟩)
      · change (Holdings.none torrent).completed.has index = true at complete
        exact nomatch (Bitfield.has_empty torrent.pieceCount index).symm.trans complete
      · cases member
    obtain ⟨content, keeps⟩ := begun.kept found early (fun vouched => absurd vouched nothing)
      (.inl held)
    exact ⟨content, keeps, sound.run_keeps located held late keeps⟩
  · intro shift worker member request range data writing held
    exact sound.begun member writing held
  · intro endGame index
    exact begun.spares (Crowd.start_divided tiled settings endGame ownId draws) (before ++ after)

end

namespace Sample

def forged : Bytes :=
  [0x65, 0x76, 0x69, 0x6c]

/-- A peer connects, has the piece, and lets us ask for it. -/
def ready (address : Address) : List Shift :=
  [.pass (.join address peerId .incoming .none 0),
    .pass (.perform address (.receive 0 (.have_ 0))),
    .pass (.perform address (.receive 0 .unchoke))]

/-- Both peers send the piece before it is complete. It is completed with what the first sent. -/
def duplicate : List Shift :=
  ready first ++ ready second ++
    [.pass (.perform first (.receive 0 (.piece 0 0 content))),
      .pass (.perform second (.receive 0 (.piece 0 0 forged))),
      .serve first, .resume first, .serve first, .resume first]

end Sample

/-- The block that the second peer sends is not asked for, and the content stays. -/
theorem run_undisturbed_duplicate :
    let start := Workshop.start Sample.torrent {} ⟨.sequential, false⟩ Sample.peerId [] (.empty 4)
    let shop := start.run Sample.duplicate
    ∃ content, shop.store.Keeps Sample.piece content ∧
      (shop.run [.serve Sample.second]).store.Keeps Sample.piece content := by
  intro start shop
  obtain ⟨keeps, -, spares⟩ := @run_undisturbed _ _ {} ⟨.sequential, false⟩ Sample.peerId []
    (.empty 4) Sample.ofMetainfo_info Sample.duplicate [.serve Sample.second]
  exact keeps 0 Sample.piece rfl (by decide +kernel) (spares rfl 0)

/-- In the end game the second peer is asked as well, and what it sent is written over the content
of the piece that is complete. -/
theorem overwritten_duplicate :
    let shop := (Workshop.start Sample.torrent {} ⟨.sequential, true⟩ Sample.peerId []
      (.empty 4)).run (Sample.duplicate ++ [.serve Sample.second])
    shop.crowd.download.holdings.has 0 = true ∧
      ¬ ∃ content, shop.store.Keeps Sample.piece content := by
  have reached : let shop := (Workshop.start Sample.torrent {} ⟨.sequential, true⟩ Sample.peerId []
        (.empty 4)).run (Sample.duplicate ++ [.serve Sample.second]);
      shop.crowd.download.holdings.has 0 = true ∧ shop.store.read ⟨0, 4⟩ = .ok Sample.forged := by
    decide +kernel
  -- What is known of the workshop is enough; it must not be computed again.
  generalize (Workshop.start Sample.torrent {} ⟨.sequential, true⟩ Sample.peerId []
    (.empty 4)).run (Sample.duplicate ++ [.serve Sample.second]) = shop at reached ⊢
  obtain ⟨complete, read⟩ := reached
  obtain ⟨-, -, holds⟩ := MemoryStore.read_ok read
  refine ⟨complete, ?_⟩
  rintro ⟨content, sized, held, intact⟩
  have same : content = Sample.forged := held.unique holds sized
  subst same
  exact absurd intact (by decide +kernel)

end BitTorrent
