import BitTorrent.Proofs.Worker

/-!
What a handler leaves as it stands: the settings, whose handler it is, who is known and connected
with which mailbox, and which mailboxes take commands. A handler publishes what its peer has, posts
news, and takes commands out of its own mailbox; none of that changes who is there.
-/

set_option autoImplicit false

namespace BitTorrent

namespace Roster

variable {before middle after : Roster}

/-- The same peers are known, with the same mailboxes, and the same mailboxes take commands. -/
structure Stands (before after : Roster) : Prop where
  lines : after.lines = before.lines
  length : after.mailboxes.length = before.mailboxes.length
  takes : ∀ number, after.takes number = before.takes number

theorem Stands.refl (roster : Roster) : roster.Stands roster :=
  ⟨rfl, rfl, fun _ => rfl⟩

theorem Stands.trans (first : before.Stands middle) (second : middle.Stands after) :
    before.Stands after where
  lines := second.lines.trans first.lines
  length := second.length.trans first.length
  takes := fun number => (second.takes number).trans (first.takes number)

theorem updateBitfield_stands (roster : Roster) (address : Address) (field : Bitfield) :
    roster.Stands (roster.updateBitfield address field) :=
  ⟨lines_modify (fun _ => rfl) (fun _ => rfl), rfl, fun _ => rfl⟩

theorem broadcast_stands (roster : Roster) (command : Command) :
    roster.Stands (roster.broadcast command).1 :=
  ⟨roster.lines_broadcast command, roster.length_broadcast command, roster.takes_broadcast command⟩

theorem setQueue_stands (roster : Roster) (number : Nat) (queue : List Command) :
    roster.Stands (roster.setQueue number queue) :=
  ⟨rfl, List.length_modify _ _ _, roster.takes_setQueue number queue⟩

end Roster

namespace Turn

variable {turn middle after : Turn}

/-- A turn changes neither the settings nor whose it is nor who is known. -/
structure Stands (turn after : Turn) : Prop where
  settings : after.download.settings = turn.download.settings
  address : after.session.address = turn.session.address
  roster : turn.download.roster.Stands after.download.roster

theorem Stands.trans (first : turn.Stands middle) (second : middle.Stands after) :
    turn.Stands after where
  settings := second.settings.trans first.settings
  address := second.address.trans first.address
  roster := first.roster.trans second.roster

/-- The roster is not touched at all. -/
theorem Stands.same (settings : after.download.settings = turn.download.settings)
    (address : after.session.address = turn.session.address)
    (roster : after.download.roster = turn.download.roster) : turn.Stands after :=
  ⟨settings, address, roster ▸ .refl _⟩

theorem Stands.refl (turn : Turn) : turn.Stands turn :=
  .same rfl rfl rfl

theorem Pursues.stands (pursues : turn.Pursues after) : turn.Stands after :=
  .same (by rw [pursues.download]) pursues.address (by rw [pursues.download])

/-! Fetching. That the peer's pieces and ours range over the same torrent is not needed here. -/

theorem assignPiece_stands (turn : Turn) (exhausted : List Nat) :
    turn.Stands (turn.assignPiece exhausted).1 := by
  unfold assignPiece
  dsimp only
  split
  · exact .refl turn
  · split
    · exact .refl turn
    · unfold Download.assign
      split <;> exact .same rfl rfl rfl

theorem currentPiece_stands (turn : Turn) (exhausted : List Nat) :
    turn.Stands (turn.currentPiece exhausted).1 := by
  unfold currentPiece
  split
  · split
    · exact .refl turn
    · exact turn.unassign_pursues.stands.trans (assignPiece_stands _ _)
  · exact assignPiece_stands _ _

theorem request_stands {request : BlockRequest} {session : Session} {message : Message}
    (asked : turn.session.request request = .ok (session, message)) :
    turn.Stands ({ turn with session := session }.say message) := by
  unfold Session.request at asked
  split at asked
  · cases asked
    exact .same rfl rfl rfl
  · cases asked

theorem fill_stands (fuel : Nat) (turn : Turn) (exhausted : List Nat) :
    turn.Stands (fill fuel turn exhausted).1 := by
  induction fuel generalizing turn exhausted with
  | zero => exact .refl turn
  | succ fuel ih =>
    unfold fill
    split
    · have current := turn.currentPiece_stands exhausted
      split
      · rename_i found
        rw [found] at current
        exact current.trans (giveUp_pursues _ _).stands
      · rename_i later index found
        rw [found] at current
        split
        · exact current
        · split
          · split
            · exact current
            · rename_i session message asked
              exact (current.trans (request_stands asked)).trans (ih _ _)
          · split
            · exact current
            · exact current.trans (ih _ _)
    · exact .refl turn

theorem fillPipeline_stands (turn : Turn) : turn.Stands turn.fillPipeline.1 :=
  fill_stands _ turn []

/-! Events. -/

theorem publish_stands (turn : Turn) : turn.Stands turn.publish :=
  ⟨rfl, rfl, Roster.updateBitfield_stands _ _ _⟩

theorem court_stands (turn : Turn) : turn.Stands turn.court := by
  rw [court, Session.showInterest_eq]
  cases turn.session.amInterested <;> exact .same rfl rfl rfl

theorem onAvailability_stands (turn : Turn) : turn.Stands turn.onAvailability.1 := by
  have courted := turn.publish_stands.trans turn.publish.court_stands
  rw [onAvailability_eq]
  split
  · exact turn.publish_stands
  · split
    · split
      · exact courted
      · exact courted.trans (fillPipeline_stands _)
    · exact turn.publish_stands

theorem onBlock_stands (turn : Turn) (request : BlockRequest) (data : Bytes) :
    turn.Stands (turn.onBlock request data).1 := by
  unfold onBlock
  split
  · exact .refl turn
  · split
    · exact turn.fillPipeline_stands
    · split <;> exact .refl turn

theorem handle_stands (turn : Turn) (event : Event) : turn.Stands (turn.handle event).1 := by
  cases event with
  | keepAlive | ignored | port | cancel => exact .refl turn
  | bitfield | have_ => exact turn.onAvailability_stands
  | unchoked => exact turn.fillPipeline_stands
  | choked => exact turn.unassign_pursues.stands
  | interested =>
    simp only [handle, ended, stay, Session.unchoke]
    split <;> exact .same rfl rfl rfl
  | notInterested =>
    simp only [handle, ended, stay, Session.choke]
    split <;> exact .same rfl rfl rfl
  | request =>
    simp only [handle]
    split <;> exact .refl turn
  | block request data => exact turn.onBlock_stands request data

theorem receive_stands (turn : Turn) (now : Nat) (message : Message) :
    turn.Stands (turn.receive now message).1 := by
  have kept := (turn.session.receive_keeps now message).2.1
  unfold receive
  split
  · rename_i session violation heard
    rw [heard] at kept
    exact .same rfl kept rfl
  · rename_i session event heard
    rw [heard] at kept
    have begun : turn.Stands { turn with session := session } := .same rfl kept rfl
    exact begun.trans (handle_stands _ _)

theorem serve_stands (turn : Turn) : turn.Stands turn.serve.1 := by
  unfold serve Session.takeUpload
  split
  · exact .refl turn
  · rename_i session request taken
    obtain ⟨rfl, -⟩ := Prod.mk.inj taken
    dsimp only
    split
    · exact .same rfl rfl rfl
    · split <;> exact .same rfl rfl rfl

theorem checkIdle_stands (turn : Turn) (now : Nat) : turn.Stands (turn.checkIdle now).1 := by
  unfold checkIdle
  dsimp only
  split
  · split
    · exact .refl turn
    · split <;> exact .same rfl rfl rfl
  · split
    · exact .refl turn
    · split <;> exact .same rfl rfl rfl

theorem take_stands (turn : Turn) (mailbox : Nat) (rest : List Command) :
    turn.Stands (turn.take mailbox rest) :=
  ⟨rfl, rfl, Roster.setQueue_stands _ _ _⟩

theorem onLocalHave_stands (turn : Turn) (piece : Nat) :
    turn.Stands (turn.onLocalHave piece).1 := by
  obtain ⟨middle, cancelled, told⟩ := turn.cancelRequests_pursues piece
  have said : turn.Stands (middle.say (.have_ piece)) :=
    cancelled.stands.trans (.same rfl rfl rfl)
  unfold onLocalHave
  rw [told]
  dsimp only
  split
  · exact said
  · split
    · exact said.trans (loseInterest_pursues _).stands
    · have filled := fillPipeline_stands (middle.say (.have_ piece))
      split
      · rename_i failed
        rw [failed] at filled
        exact said.trans filled
      · rename_i ended
        rw [ended] at filled
        exact said.trans (filled.trans (loseInterest_pursues _).stands)

theorem obey_stands (turn : Turn) (mailbox : Nat) : turn.Stands (turn.obey mailbox).1 := by
  unfold obey
  split
  · exact .refl turn
  · exact turn.take_stands mailbox _
  · exact (turn.take_stands mailbox _).trans (onLocalHave_stands _ _)

/-! What the store answers. -/

theorem record_stands (turn : Turn) (fault : Fault) :
    turn.Stands { turn with download := turn.download.record fault } := by
  unfold Download.record
  split <;> exact .same rfl rfl rfl

theorem afterWrite_stands (turn : Turn) (request : BlockRequest) (outcome : Except Fault Unit) :
    turn.Stands (turn.afterWrite request outcome).1 := by
  cases outcome with
  | error fault => exact turn.record_stands fault
  | ok written =>
    cases found : turn.download.torrent.piece? request.piece with
    | none =>
      simp only [afterWrite, found]
      exact .refl turn
    | some piece =>
      have marked : turn.Stands
          (turn.withHoldings (turn.download.holdings.fetch piece request)) := .same rfl rfl rfl
      rw [afterWrite_ok found]
      dsimp only
      split
      · exact .same rfl rfl rfl
      · exact marked.trans (fillPipeline_stands _)

theorem verified_stands (turn : Turn) (piece : Piece) : turn.Stands (turn.verified piece) := by
  unfold verified
  dsimp only
  split
  · exact ⟨rfl, rfl, Roster.broadcast_stands _ _⟩
  · exact .same rfl rfl rfl

theorem corrupt_stands (turn : Turn) (piece : Piece) : turn.Stands (turn.corrupt piece) := by
  unfold corrupt Download.ban
  dsimp only
  split
  · split <;> exact .same rfl rfl rfl
  · exact .same rfl rfl rfl

theorem afterChecksum_stands (turn : Turn) (piece : Piece) (outcome : Except Fault Digest) :
    turn.Stands (turn.afterChecksum piece outcome).1 := by
  cases outcome with
  | error fault =>
    have missing : turn.Stands
        (turn.withHoldings (turn.download.holdings.markAll piece.index false)) := .same rfl rfl rfl
    exact missing.trans (record_stands _ fault)
  | ok digest =>
    unfold afterChecksum
    dsimp only
    split
    · exact (turn.verified_stands piece).trans (fillPipeline_stands _)
    · exact (turn.corrupt_stands piece).trans (fillPipeline_stands _)

theorem afterRead_stands (turn : Turn) (request : BlockRequest) (outcome : Except Fault Bytes) :
    turn.Stands (turn.afterRead request outcome).1 := by
  cases outcome with
  | error fault => exact turn.record_stands fault
  | ok data => exact .same rfl rfl rfl

theorem resume_stands {awaiting : Awaiting} {reply : Reply} {next : Next}
    (resumed : turn.resume awaiting reply = some (after, next)) : turn.Stands after := by
  unfold resume at resumed
  split at resumed
  · obtain ⟨rfl, -⟩ := Prod.mk.inj (Option.some.inj resumed)
    exact turn.afterWrite_stands _ _
  · obtain ⟨rfl, -⟩ := Prod.mk.inj (Option.some.inj resumed)
    exact turn.afterChecksum_stands _ _
  · obtain ⟨rfl, -⟩ := Prod.mk.inj (Option.some.inj resumed)
    exact turn.afterRead_stands _ _
  · cases resumed

end Turn

/-- No handler changes who is there, whatever the session is like that it is called for. -/
theorem Worker.perform_stands {worker : Worker} {download : Download} {deed : Deed} {after : Turn}
    {next : Next} (performed : worker.perform download deed = some (after, next)) :
    (worker.turn download).Stands after := by
  unfold perform at performed
  dsimp only at performed
  split at performed
  · exact Turn.resume_stands performed
  all_goals first
    | (cases performed; done)
    | obtain ⟨rfl, -⟩ := Prod.mk.inj (Option.some.inj performed)
  · exact .same rfl rfl rfl
  · exact Turn.receive_stands _ _ _
  · exact Turn.serve_stands _
  · exact Turn.obey_stands _ _
  · exact Turn.checkIdle_stands _ _

end BitTorrent
