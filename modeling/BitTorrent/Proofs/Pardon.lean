import BitTorrent.Proofs.Uploads

/-!
What a ban leaves alone. Whoever asks for pieces of ours, and whatever is done to serve them, the
handlers do the same with a ban and without it: lifting the ban before they run or behind them comes
to the same.
-/

set_option autoImplicit false

namespace BitTorrent

namespace Download

/-- The state without the ban of an address. -/
def pardon (download : Download) (ip : IpAddress) : Download :=
  { download with banned := download.banned.filter (· ≠ ip) }

theorem isBanned_pardon {download : Download} {ip other : IpAddress} :
    (download.pardon ip).isBanned other = true ↔ download.isBanned other = true ∧ other ≠ ip := by
  simp only [isBanned, pardon, List.contains_eq_mem, List.mem_filter, decide_eq_true_eq]

theorem record_pardon (download : Download) (ip : IpAddress) (fault : Fault) :
    (download.pardon ip).record fault = (download.record fault).pardon ip := by
  unfold record
  split <;> rfl

end Download

/-- Events that concern the uploads of the peer. -/
def Event.asksUpload : Event → Bool
  | .interested | .notInterested | .request _ | .cancel _ | .ignored => true
  | _ => false

theorem Session.receive_asks {session after : Session} {now : Nat} {message : Message}
    {event : Event} (asks : message.asksUpload = true)
    (heard : session.receive now message = (after, .ok event)) : event.asksUpload = true := by
  unfold receive at heard
  split at heard
  · cases message with
    | interested | notInterested =>
      cases heard
      rfl
    | request | cancel =>
      simp only [apply] at heard
      split at heard
      all_goals try split at heard
      all_goals
        cases heard
        try rfl
    | _ => cases asks
  · cases heard

def Turn.pardon (turn : Turn) (ip : IpAddress) : Turn :=
  { turn with download := turn.download.pardon ip }

def Outcome.pardon (outcome : Outcome) (ip : IpAddress) : Outcome :=
  { outcome with turn := outcome.turn.pardon ip }

namespace Turn

/-- What concerns the uploads is handled at once, and in the same way without a ban. -/
theorem handle_pardon (turn : Turn) (ip : IpAddress) {event : Event}
    (asks : event.asksUpload = true) :
    ∃ after result, turn.handle event = (after, .done result) ∧
      (turn.pardon ip).handle event = (after.pardon ip, .done result) := by
  cases event with
  | interested =>
    simp only [handle, Session.unchoke_eq]
    cases choking : turn.session.amChoking <;>
      simp only [pardon, choking] <;> exact ⟨_, _, rfl, rfl⟩
  | notInterested =>
    simp only [handle, Session.choke_eq]
    cases choking : turn.session.amChoking <;>
      simp only [pardon, choking] <;> exact ⟨_, _, rfl, rfl⟩
  | request request =>
    have same : checkRequest (turn.pardon ip).download request =
      checkRequest turn.download request := rfl
    simp only [handle, same]
    cases checkRequest turn.download request <;> exact ⟨_, _, rfl, rfl⟩
  | cancel | ignored => exact ⟨_, _, rfl, rfl⟩
  | _ => cases asks

theorem receiveStored_pardon (store : MemoryStore) (turn : Turn) (ip : IpAddress) (now : Nat)
    {message : Message} (asks : message.asksUpload = true) :
    (turn.pardon ip).receiveStored store now message =
      ((turn.receiveStored store now message).1,
        (turn.receiveStored store now message).2.pardon ip) := by
  have same : (turn.pardon ip).session = turn.session := rfl
  unfold receiveStored
  rw [same]
  cases heard : turn.session.receive now message with
  | mk session result =>
    cases result with
    | error violation => rfl
    | ok event =>
      obtain ⟨after, result, handled, pardoned⟩ := handle_pardon { turn with session := session } ip
        (Session.receive_asks asks heard)
      have other : ({ turn.pardon ip with session := session } : Turn) =
        ({ turn with session := session } : Turn).pardon ip := rfl
      simp only [other, handleStored, handled, pardoned]
      rfl

theorem serveStored_pardon (store : MemoryStore) (turn : Turn) (ip : IpAddress) :
    (turn.pardon ip).serveStored store = (turn.serveStored store).pardon ip := by
  have taken : turn.session.takeUpload =
    ({ turn.session with upload := none }, turn.session.upload) := rfl
  have same : (turn.pardon ip).session = turn.session := rfl
  have own : (turn.pardon ip).download.torrent = turn.download.torrent := rfl
  unfold serveStored serve
  rw [same, taken]
  cases turn.session.upload with
  | none => rfl
  | some request =>
    dsimp only
    split
    · rfl
    · rw [own]
      split
      · rfl
      · rename_i range located
        dsimp only [settle]
        cases store.read range with
        | error fault =>
          simp only [afterRead, fail, pardon, Download.record_pardon]
          rfl
        | ok data => rfl

end Turn

namespace Scene

def pardon (scene : Scene) (ip : IpAddress) : Scene :=
  { scene with download := scene.download.pardon ip }

theorem settle_pardon (scene : Scene) (ip : IpAddress) (outcome : Outcome) :
    (scene.pardon ip).settle (outcome.pardon ip) = (scene.settle outcome).pardon ip := by
  unfold settle judged Outcome.pardon
  dsimp only
  split <;> rfl

theorem receive_pardon (scene : Scene) (ip : IpAddress) (now : Nat) {message : Message}
    (asks : message.asksUpload = true) :
    (scene.pardon ip).receive now message = (scene.receive now message).pardon ip := by
  have heard : (scene.pardon ip).heard now message = scene.heard now message := by
    have same : (scene.pardon ip).peer = scene.peer := rfl
    unfold heard
    rw [same]
    cases received : scene.peer.session.receive now message with
    | mk session result =>
      cases result with
      | error violation => rfl
      | ok event =>
        obtain ⟨after, result, handled, pardoned⟩ :=
          Turn.handle_pardon { scene.turn with session := session } ip
            (Session.receive_asks asks received)
        have other : ({ (scene.pardon ip).turn with session := session } : Turn) =
          ({ scene.turn with session := session } : Turn).pardon ip := rfl
        simp only [other, handled, pardoned]
  have outcome := Turn.receiveStored_pardon scene.store scene.turn ip now asks
  unfold receive
  rw [heard, ← settle_pardon]
  exact congrArg (((scene.pardon ip).logged _).settle ·.2) outcome

theorem serve_pardon (scene : Scene) (ip : IpAddress) :
    (scene.pardon ip).serve = scene.serve.pardon ip := by
  unfold serve
  rw [← settle_pardon]
  exact congrArg (scene.pardon ip).settle (Turn.serveStored_pardon scene.store scene.turn ip)

end Scene

/-- What a peer asks for, and what is done to serve it. -/
def Happening.asksUpload : Happening → Bool
  | .receive _ _ message => message.asksUpload
  | .serve _ => true
  | _ => false

namespace Swarm

variable {swarm : Swarm} {ip : IpAddress}

def pardon (swarm : Swarm) (ip : IpAddress) : Swarm :=
  { swarm with download := swarm.download.pardon ip }

theorem on_pardon (address : Address) {handler : Scene → Scene}
    (same : ∀ scene : Scene, handler (scene.pardon ip) = (handler scene).pardon ip) :
    (swarm.pardon ip).on address handler = (swarm.on address handler).pardon ip := by
  have found : (swarm.pardon ip).peer? address = swarm.peer? address := rfl
  unfold on
  rw [found]
  split
  · rfl
  · rename_i peer _
    exact congrArg (swarm.pardon ip).put (same (swarm.scene peer))

theorem step_pardon (swarm : Swarm) (ip : IpAddress) {happening : Happening}
    (asks : happening.asksUpload = true) :
    (swarm.pardon ip).step happening = (swarm.step happening).pardon ip := by
  cases happening with
  | receive address now message =>
    exact @on_pardon swarm ip address (·.receive now message)
      fun scene => scene.receive_pardon ip now asks
  | serve address =>
    exact @on_pardon swarm ip address Scene.serve fun scene => scene.serve_pardon ip
  | _ => cases asks

/-- The uploads of all peers go on with a ban as they do without. -/
theorem run_pardon (swarm : Swarm) (ip : IpAddress) {happenings : List Happening}
    (asks : ∀ happening ∈ happenings, happening.asksUpload = true) :
    (swarm.pardon ip).run happenings = (swarm.run happenings).pardon ip := by
  induction happenings generalizing swarm with
  | nil => rfl
  | cons happening rest ih =>
    obtain ⟨first, others⟩ := List.forall_mem_cons.mp asks
    have stepped := swarm.step_pardon ip first
    exact (congrArg (·.run rest) stepped).trans (ih (swarm.step happening) others)

end Swarm

end BitTorrent
