import BitTorrent.Proofs.Attendance

/-!
What the tasks of an engine do: links that make a connection or run one, readers, and listeners, one
after the other as time passes. Whatever they do, every torrent goes on by steps of a reception.
-/

set_option autoImplicit false

namespace BitTorrent

open Relation (ReflTransGen)

namespace Engine

variable {before middle after engine : Engine}

/-! Making a connection. -/

section

variable {number torrent : Nat} {address : Address} {stage : Stage} {reader : Reader}
  {transfer : Transfer}

/-- A torrent changes in a way that does not concern one of which nobody is known. -/
theorem download_modify {change : Transfer → Transfer} (alter : Download → Download)
    (altered : ∀ transfer, (change transfer).download = alter transfer.download)
    (transfers : after.transfers = before.transfers.modify torrent change) (other : Nat)
    {fresh : Download} (still : alter fresh = fresh) :
    (after.reception other fresh).download =
      if other = torrent then alter (before.reception other fresh).download
      else (before.reception other fresh).download := by
  simp only [reception, transfer?, transfers, List.getElem?_modify]
  split
  · rename_i same
    subst same
    rw [if_pos rfl]
    cases before.transfers[torrent]? with
    | none => exact still.symm
    | some transfer => exact altered transfer
  · rename_i different
    rw [if_neg (Ne.symm different)]
    cases before.transfers[other]? <;> rfl

/-- A call fails. -/
theorem giveUp_advances (there : engine.link? number = some ⟨address, stage, reader⟩)
    (calls : stage.Calls torrent) (stream : Option Nat) (cause : Failure) :
    engine.Advances (engine.giveUp number torrent address stream cause) := by
  refine .of_put there calls.firm rfl (List.length_modify _ _ _) rfl fun _ other fresh empty => ?_
  have located := attempt_of_link there other fresh
  have forgets : ∀ {download : Download}, download.roster = Roster.empty →
      download.withRoster (download.roster.forget address).1 = download := by
    rintro ⟨⟩ rfl
    rfl
  rw [download_modify (fun download => download.withRoster (download.roster.forget address).1)
    (fun _ => rfl) rfl other (forgets empty)]
  split
  · rename_i same
    subst same
    exact .single (.of_put (.fails located (calls.dials address)) rfl rfl)
  · rename_i different
    rw [calls.past different] at located
    exact Reception.put_past located

/-- A connection is registered with the torrent that has admitted it, and with no other. -/
theorem attach_advances {source : PeerSource} {stream : Nat} {handshake : Handshake}
    (there : engine.link? number = some ⟨address, stage, reader⟩)
    (firm : stage.isAbandoned = false) (mine : engine.transfer? torrent = some transfer)
    (attached : engine.attach number torrent stream address source transfer handshake = .ok after)
    (admits : ∀ {reception : Reception}, reception.download = transfer.download →
      reception.attempts[number]? = some (stage.attempt address torrent) →
      ∃ attempt : Attempt, attempt.admitted? = some (address, source) ∧
        ReflTransGen (Reception.Allowed (engine.manages torrent)) reception
          (reception.put number attempt))
    (others : ∀ {reception : Reception} {other : Nat}, other ≠ torrent →
      reception.attempts[number]? = some (stage.attempt address other) →
      ReflTransGen (Reception.Allowed (engine.manages other)) reception
        (reception.put number .past)) :
    engine.Advances after := by
  unfold attach at attached
  split at attached
  · cases attached
  · rename_i roster mailbox registered
    cases attached
    refine .of_turn there firm mine rfl rfl rfl ?_ ?_
    · intro reception current located
      obtain ⟨attempt, admitted, before⟩ := admits current located
      refine before.trans (.single ?_)
      have registers : (reception.put number attempt).roster.attach address handshake.peerId
          source = .ok (roster, mailbox) := by
        rw [← registered, ← current]
        rfl
      have step : Reception.Allowed (engine.manages torrent) _ _ :=
        .of_put (.attaches handshake.peerId (Reception.getElem?_put located) admitted registers)
          rfl rfl
      have same : ((reception.put number attempt).withRoster roster).put number
          (.live address mailbox) =
            (reception.withDownload (transfer.download.withRoster roster)).put number
              (.live address mailbox) := by
        rw [← current]
        exact Reception.put_put (reception.withRoster roster) number attempt _
      rw [same] at step
      rw [Stage.attempt_own address ?own]
      · exact step
      · rfl
    · intro reception other different located
      rw [Stage.attempt_other address different]
      exact others different located

theorem checkHandshake_bind {handshake : Handshake} {next : Except Failure Engine}
    (checked : (do engine.checkHandshake transfer address handshake; next) = .ok after) :
    next = .ok after := by
  cases result : engine.checkHandshake transfer address handshake with
  | error cause =>
    rw [result] at checked
    cases checked
  | ok _ =>
    rw [result] at checked
    exact checked

/-- A call that has dialled is answered, fails, or goes on waiting. -/
theorem hearAnswer_advances {source : PeerSource} {own limit : Nat}
    (there : engine.link? number = some ⟨address, .greeting torrent source own limit, reader⟩)
    (stream deadline : Nat) :
    engine.Advances (engine.hearAnswer number torrent address source stream deadline) := by
  unfold hearAnswer
  split
  · exact giveUp_advances there rfl _ _
  · rename_i handshake rest transfer heard mine
    dsimp only
    have alike := engine.network_alike (engine.network.setPending stream rest)
    obtain ⟨reader, moved⟩ := alike.link? there
    refine alike.advances.trans ?_
    split
    · exact giveUp_advances moved rfl _ _
    · rename_i later answered
      refine attach_advances moved rfl mine (checkHandshake_bind answered) ?_ ?_
      · intro reception current located
        refine ⟨.dialling address source, rfl, ?_⟩
        rw [Stage.attempt, if_pos rfl] at located
        rw [Reception.put_self located]
      · intro reception other different located
        rw [Stage.attempt, if_neg (Ne.symm different)] at located
        exact Reception.put_past located
  · split
    · exact giveUp_advances there rfl _ _
    · exact .refl engine

/-- A call that was admitted and dialled sends its handshake. -/
theorem greet_advances {source : PeerSource}
    (there : engine.link? number = some ⟨address, .calling torrent source, reader⟩)
    (mine : engine.transfer? torrent = some transfer)
    (admitted : transfer.download.checkAdmission address = .ok ()) (network : Network)
    (stream : Nat) (bytes : Bytes) (deadline : Nat) :
    engine.Advances (match network.write stream bytes with
      | .error cause => engine.giveUp number torrent address (some stream) (.stream cause)
      | .ok network => ({ engine with network := network }.setStage number
          (.greeting torrent source stream deadline)).hearAnswer number torrent address source
            stream deadline) := by
  split
  · exact giveUp_advances there rfl _ _
  · rename_i network written
    have alike := engine.network_alike network
    obtain ⟨reader, moved⟩ := alike.link? there
    obtain ⟨same, kept, shared⟩ := alike.transfer? mine
    refine alike.advances.trans (.trans (.of_stage moved rfl ?_)
      (hearAnswer_advances (link?_setStage moved) stream deadline))
    intro reception other current located
    by_cases same : torrent = other
    · subst same
      simp only [Stage.attempt, ↓reduceIte] at located ⊢
      exact .single (.of_put (.dials located (current _ kept ▸ shared ▸ admitted)) rfl rfl)
    · simp only [Stage.attempt, if_neg same] at located ⊢
      exact Reception.put_past located

/-- A call is admitted and dials, or fails. -/
theorem call_advances {source : PeerSource}
    (there : engine.link? number = some ⟨address, .calling torrent source, reader⟩) :
    engine.Advances (engine.call number torrent address source) := by
  unfold call
  split
  · exact .refl engine
  · rename_i transfer mine
    split
    · exact giveUp_advances there rfl _ _
    · rename_i admitted
      split
      · rename_i network dialled
        have alike := engine.network_alike network
        obtain ⟨reader, moved⟩ := alike.link? there
        exact alike.advances.trans (giveUp_advances moved rfl _ _)
      · rename_i network stream displaced dialled
        have alike := engine.network_alike network
        have told : engine.Alike (match displaced with
            | some displaced => Engine.notify { engine with network := network } displaced
            | none => { engine with network := network }) := by
          cases displaced with
          | none => exact alike
          | some other => exact alike.trans (notify_alike _ other)
        obtain ⟨reader, moved⟩ := told.link? there
        obtain ⟨same, kept, shared⟩ := told.transfer? mine
        cases displaced <;>
          exact told.advances.trans (greet_advances moved kept (shared ▸ admitted) _ _ _ _)

/-- What was accepted fails. -/
theorem reject_advances {own limit : Nat}
    (there : engine.link? number = some ⟨address, .hearing own limit, reader⟩)
    (stream : Option Nat) (cause : Failure) :
    engine.Advances (engine.reject number stream cause) := by
  refine (engine.network_alike _).advances.trans (.of_stage there rfl ?_)
  intro reception other current located
  exact .single (.of_put (.drops located (.inl rfl)) rfl rfl)

/-- What was accepted is registered with the torrent that it wants, if that admits it. -/
theorem answer_advances {own limit stream : Nat} {handshake : Handshake}
    (there : engine.link? number = some ⟨address, .hearing own limit, reader⟩)
    (answered : engine.answer number stream address handshake = .ok after) :
    engine.Advances after := by
  unfold answer at answered
  split at answered
  · cases answered
  · rename_i torrent transfer found
    have wanted : engine.manages torrent = true ∧ engine.transfer? torrent = some transfer := by
      obtain ⟨number, listed, transfers⟩ := Option.bind_eq_some_iff.mp found
      obtain ⟨same, there, pair⟩ := Option.map_eq_some_iff.mp transfers
      cases pair
      exact ⟨manages_of_find? listed, there⟩
    obtain ⟨managed, mine⟩ := wanted
    cases admitted : transfer.download.checkAdmission address with
    | error fault =>
      rw [admitted] at answered
      cases answered
    | ok _ =>
      rw [admitted] at answered
      replace answered := checkHandshake_bind answered
      cases written : engine.network.write stream (engine.greeting transfer).encode with
      | error cause =>
        rw [written] at answered
        cases answered
      | ok network =>
        rw [written] at answered
        have alike := engine.network_alike network
        obtain ⟨reader, moved⟩ := alike.link? there
        refine alike.advances.trans (attach_advances moved rfl mine answered ?_ ?_)
        · intro reception current located
          exact ⟨.answering address, rfl,
            .single (.of_managed managed (.answers located (current ▸ admitted)))⟩
        · intro reception other different located
          exact .single (.of_put (.drops located (.inl rfl)) rfl rfl)

/-- What was accepted is answered, fails, or goes on waiting. -/
theorem hearCaller_advances {own limit : Nat}
    (there : engine.link? number = some ⟨address, .hearing own limit, reader⟩)
    (stream deadline : Nat) :
    engine.Advances (engine.hearCaller number address stream deadline) := by
  unfold hearCaller
  dsimp only
  split
  · exact reject_advances there _ _
  · rename_i handshake rest heard
    have alike := engine.network_alike (engine.network.setPending stream rest)
    obtain ⟨reader, moved⟩ := alike.link? there
    refine alike.advances.trans ?_
    split
    · exact reject_advances moved _ _
    · rename_i later answered
      exact answer_advances moved answered
  · split
    · exact reject_advances there _ _
    · exact .refl engine

/-- An attempt goes on. -/
theorem establish_advances (engine : Engine) (number : Nat) :
    engine.Advances (engine.establish number) := by
  unfold establish
  split
  · rename_i there
    exact call_advances there
  · rename_i there
    exact hearAnswer_advances there _ _
  · rename_i there
    exact hearCaller_advances there _ _
  · exact .refl engine

end

/-! Running a connection. -/

section

variable {number : Nat} {address : Address} {line : Line} {connection done : Connection}
  {sending : Option Sending} {reader : Reader} {transfer later : Transfer}

/-- A running link goes on with the same connection. -/
theorem stay_advances
    (there : engine.link? number = some ⟨address, .running line connection sending, reader⟩)
    (same : done.session.address = connection.session.address)
    (own : done.mailbox = connection.mailbox) (sent : Option Sending) :
    engine.Advances (engine.setStage number (.running line done sent)) := by
  refine .of_stage there rfl fun {reception} torrent _ located => ?_
  have still : Stage.attempt address torrent (.running line done sent) =
      Stage.attempt address torrent (.running line connection sending) := by
    simp only [Stage.attempt, same, own]
  rw [still, Reception.put_self located]

/-- A running link ends after what its connection has done. -/
theorem finish_advances
    (there : engine.link? number = some ⟨address, .running line connection sending, reader⟩)
    (mine : engine.transfer? line.torrent = some transfer)
    (works : connection.Works transfer.download later.download done) :
    engine.Advances (engine.finish number line done later) := by
  have alike := engine.network_alike (engine.network.closeNear line.stream)
  obtain ⟨reader, moved⟩ := alike.link? there
  unfold finish
  refine (alike.advances.trans ?_).trans (setReader_alike _ _ _).advances
  refine .of_turn moved rfl mine rfl rfl rfl ?_ ?_
  · intro reception current located
    rw [Stage.attempt_own address rfl] at located
    refine (works.steps current located).tail (.of_put ?_ rfl rfl)
    rw [← works.address, ← works.mailbox] at located
    rw [done.download_finish later]
    exact @Reception.Step.leaves (reception.withDownload later.download) number
      ⟨done.session, done.mailbox, [], none⟩ _ located rfl
  · intro reception torrent different located
    rw [Stage.attempt_other address different] at located
    exact Reception.put_past located

/-- A running link is stopped by force. -/
theorem abandon_advances
    (there : engine.link? number = some ⟨address, .running line connection sending, reader⟩) :
    engine.Advances (engine.abandon number line connection) := by
  unfold abandon
  refine .trans ?_ (wake_alike _ _).advances
  refine .of_put there rfl rfl (List.length_modify _ _ _) rfl fun firm => ?_
  cases firm

theorem write_advances
    (there : engine.link? number = some ⟨address, .running line connection sending, reader⟩)
    (mine : engine.transfer? line.torrent = some transfer) :
    engine.Advances (engine.write number line connection transfer) := by
  unfold write
  split
  · exact stay_advances there rfl rfl none
  · split
    · exact finish_advances there mine (.still rfl rfl _)
    · rename_i network written
      have alike := engine.network_alike network
      obtain ⟨reader, moved⟩ := alike.link? there
      refine alike.advances.trans (stay_advances moved ?_ ?_ none) <;> rfl

/-- The first message of the outbox goes on through the meters. -/
theorem send_advances
    (there : engine.link? number = some ⟨address, .running line connection sending, reader⟩)
    (mine : engine.transfer? line.torrent = some transfer) (passage : Passage) :
    engine.Advances (engine.send number line connection transfer passage) := by
  have alike : engine.Alike (engine.setTransfer line.torrent
      (transfer.pass engine.now passage).1) := setTransfer_alike mine rfl
  obtain ⟨reader, moved⟩ := alike.link? there
  refine alike.advances.trans ?_
  unfold send
  dsimp only
  split
  · exact write_advances moved (transfer?_setTransfer mine)
  · exact stay_advances moved rfl rfl _
  · exact abandon_advances moved

/-- A duty is done. -/
theorem perform_advances {duty : Duty}
    (there : engine.link? number = some ⟨address, .running line connection sending, reader⟩)
    (mine : engine.transfer? line.torrent = some transfer) (written : connection.outbox = [])
    (found : connection.duty? transfer.download.roster engine.now = some duty) :
    engine.Advances (engine.perform number line connection transfer reader duty) := by
  have alike := engine.unblock_alike number reader duty
  obtain ⟨other, moved⟩ := alike.link? there
  obtain ⟨same, kept, shared⟩ := alike.transfer? mine
  have works := connection.perform_works written found
  rw [← shared] at works
  refine alike.advances.trans ?_
  unfold perform
  dsimp only
  split
  · exact finish_advances moved kept works
  · refine .trans ?_ (notifyMailboxes_alike _ _).advances
    refine .of_turn moved rfl kept rfl rfl rfl ?_ ?_
    · intro reception current located
      rw [Stage.attempt_own address rfl] at located ⊢
      rw [works.address, works.mailbox]
      have still : (reception.withDownload (connection.perform transfer engine.now
          duty).transfer.download).attempts[number]? =
            some (.live connection.session.address connection.mailbox) := located
      rw [Reception.put_self still]
      exact works.steps current located
    · intro reception torrent different located
      rw [Stage.attempt_other address different] at located ⊢
      exact Reception.put_past located

/-- The next step of a running link. -/
theorem proceed?_advances (proceeds : engine.proceed? number = some after) :
    engine.Advances after := by
  unfold proceed? at proceeds
  split at proceeds
  · rename_i address line connection sending reader there
    split at proceeds
    · cases proceeds
    · rename_i transfer mine
      split at proceeds
      · split at proceeds
        · cases proceeds
          exact send_advances there mine _
        · cases proceeds
      · cases proceeds
        exact send_advances there mine _
      · rename_i written
        split at proceeds
        · cases proceeds
          exact finish_advances there mine (.still rfl rfl _)
        · split at proceeds
          · cases proceeds
            refine stay_advances there ?_ ?_ none <;> rfl
          · obtain ⟨duty, found, same⟩ := Option.map_eq_some_iff.mp proceeds
            exact same ▸ perform_advances there mine written found
  · cases proceeds

theorem runLink_advances (fuel : Nat) (engine : Engine) (number : Nat) :
    engine.Advances (runLink fuel engine number) := by
  induction fuel generalizing engine with
  | zero => exact .refl engine
  | succ fuel ih =>
    unfold runLink
    split
    · exact .refl engine
    · rename_i later proceeds
      exact (proceed?_advances proceeds).trans (ih later)

theorem runConnected_advances (engine : Engine) (number : Nat) :
    engine.Advances (engine.runConnected number) := by
  unfold runConnected
  split
  · exact ((engine.setReader_alike number .reading).trans (wake_alike _ _)).advances.trans
      (runLink_advances _ _ number)
  · exact runLink_advances _ engine number
  · exact .refl engine

theorem pollLink_advances (engine : Engine) (number : Nat) :
    engine.Advances (engine.pollLink number) :=
  (engine.establish_advances number).trans (runConnected_advances _ number)

end

/-! Reading, and listening. -/

section

variable {number : Nat} {line : Line} {transfer : Transfer}

theorem deliver_advances (engine : Engine) (number : Nat) (frame : Frame) :
    engine.Advances (engine.deliver number frame) := by
  unfold deliver
  split
  · rename_i address line connection sending reader there
    split
    · refine .trans ?_ (wake_alike _ _).advances
      refine .trans ?_ (setReader_alike _ _ _).advances
      refine stay_advances there ?_ ?_ sending <;> rfl
    · exact (engine.setReader_alike number _).advances
  · exact ((engine.network_alike _).trans (setReader_alike _ _ _)).advances
  · exact (engine.setReader_alike number _).advances

theorem receive_advances (engine : Engine) (number : Nat) (line : Line) (passage : Passage)
    (frame : Frame) : engine.Advances (engine.receive number line passage frame) := by
  unfold receive
  split
  · exact .refl engine
  · rename_i transfer mine
    have alike : engine.Alike (engine.setTransfer line.torrent
        (transfer.pass engine.now passage).1) := setTransfer_alike mine rfl
    refine alike.advances.trans ?_
    dsimp only
    split
    · exact deliver_advances _ _ _
    · exact (setReader_alike _ _ _).advances
    · exact deliver_advances _ _ _

theorem readFrame?_advances (reads : engine.readFrame? number line = some after) :
    engine.Advances after := by
  unfold readFrame? at reads
  split at reads
  · cases reads
    exact (engine.network_alike _).advances.trans (deliver_advances _ _ _)
  · cases reads
    exact (engine.network_alike _).advances.trans (receive_advances _ _ _ _ _)
  · cases reads

theorem readOn?_advances {room : Bool} {reader : Reader}
    (reads : engine.readOn? number line room reader = some after) : engine.Advances after := by
  unfold readOn? at reads
  split at reads
  · exact readFrame?_advances reads
  · split at reads
    · cases reads
      exact engine.receive_advances _ _ _ _
    · cases reads
  · split at reads
    · cases reads
      exact engine.deliver_advances _ _
    · cases reads
  · cases reads
  · cases reads

theorem runReader_advances (fuel : Nat) (engine : Engine) (number : Nat) :
    engine.Advances (runReader fuel engine number) := by
  induction fuel generalizing engine with
  | zero => exact .refl engine
  | succ fuel ih =>
    unfold runReader
    split
    · exact .refl engine
    · rename_i later reads
      refine .trans ?_ (ih later)
      unfold readStep? at reads
      split at reads
      · exact readOn?_advances reads
      · exact readOn?_advances reads
      · cases reads

theorem acceptAll_advances (number : Nat) (waiting : List Accepted) (engine : Engine) :
    engine.Advances (acceptAll number waiting engine) := by
  induction waiting generalizing engine with
  | nil => exact (engine.network_alike _).advances
  | cons accepted rest ih =>
    cases accepted with
    | failure => exact (engine.network_alike _).advances
    | stream stream address =>
      refine .trans ?_ (ih _)
      refine .trans ?_ (wake_alike _ _).advances
      exact .of_link rfl rfl rfl fun torrent fresh =>
        .single (.of_begin (.accepts address) rfl rfl)

theorem pollListener_advances (engine : Engine) (number : Nat) :
    engine.Advances (engine.pollListener number) := by
  unfold pollListener
  split
  · exact .refl engine
  · split
    · exact acceptAll_advances number _ engine
    · exact .refl engine

/-- A task runs until it has to wait. -/
theorem poll_advances (engine : Engine) (task : Task) : engine.Advances (engine.poll task) := by
  cases task with
  | listener number => exact engine.pollListener_advances number
  | link number => exact engine.pollLink_advances number
  | reader number => exact runReader_advances _ engine number

end

/-! Time. -/

theorem fire_alike (engine : Engine) : engine.Alike engine.fire := by
  unfold fire
  dsimp only
  have sampled : engine.Alike
      { engine with transfers := engine.transfers.map (·.sample engine.now) } :=
    ⟨rfl, rfl, List.map_map⟩
  refine sampled.trans ?_
  rw [← List.foldl_map (f := Due.task) (g := wake)]
  exact foldl_wake_alike _ _

theorem drain_advances (fuel : Nat) (engine : Engine) : engine.Advances (drain fuel engine) := by
  induction fuel generalizing engine with
  | zero => exact .refl engine
  | succ fuel ih =>
    unfold drain
    split
    · exact .refl engine
    · rename_i task rest ready
      have taken : engine.Alike { engine with ready := rest } := ⟨rfl, rfl, rfl⟩
      exact taken.advances.trans ((poll_advances _ task).trans (ih _))

theorem settle_advances (engine : Engine) : engine.Advances engine.settle :=
  engine.fire_alike.advances.trans (drain_advances _ _)

theorem runUntil_advances (stop : Engine → Bool) (target fuel : Nat) (engine : Engine) :
    engine.Advances (runUntil stop target fuel engine).1 := by
  induction fuel generalizing engine with
  | zero => exact .refl engine
  | succ fuel ih =>
    have passed : ∀ moment : Nat, engine.Advances { engine.settle with now := moment } := by
      intro moment
      have later : engine.settle.Alike { engine.settle with now := moment } := ⟨rfl, rfl, rfl⟩
      exact engine.settle_advances.trans later.advances
    unfold runUntil
    dsimp only
    split
    · exact engine.settle_advances
    · split
      · split
        · exact (passed _).trans (ih _)
        · exact passed _
      · exact passed _

theorem elapse_advances (engine : Engine) (duration : Nat) :
    engine.Advances (engine.elapse duration) :=
  runUntil_advances _ _ _ engine

theorem quiesce_advances (engine : Engine) : engine.Advances engine.quiesce :=
  (engine.elapse_advances _).trans (settle_advances _)

end Engine

end BitTorrent
