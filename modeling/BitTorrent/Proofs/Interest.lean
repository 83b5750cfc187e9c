import BitTorrent.Proofs.Reachable
import Mathlib.Data.List.Induction

/-!
When interest in a peer is lost. It is withdrawn when nothing is left to fetch from the peer at that
moment. A piece that another peer gives back later does not bring it back.
-/

set_option autoImplicit false

namespace BitTorrent

open Relation (ReflTransGen)

namespace Peer

/-- A request is open, or the peer has a piece that is neither complete nor fetched from anybody. -/
def HasWork (peer : Peer) (download : Download) : Prop :=
  peer.session.downloads ≠ [] ∨ ∃ piece, peer.session.bitfield.has piece = true ∧
    download.holdings.has piece = false ∧ piece ∉ download.inFlight

/-- Nothing is asked of the peer, and nothing that it has is missing. -/
structure Useless (peer : Peer) (download : Download) : Prop where
  noRequest : peer.session.downloads = []
  unassigned : peer.session.assigned = none
  complete : ∀ {piece}, peer.session.bitfield.has piece = true →
    download.holdings.has piece = true

/-- Interest in the peer is declared, or there is no reason to. -/
def Courted (peer : Peer) (download : Download) : Prop :=
  peer.session.amInterested = true ∨ download.isBanned peer.address.ip = true ∨
    peer.Useless download

/-- Interest in the peer has just been withdrawn: nothing is asked of it, and all that it has and we
lack is being fetched already. -/
structure Dismissed (peer : Peer) (download : Download) : Prop where
  withdrawn : ∃ earlier, peer.log = earlier ++ [.sent .notInterested]
  noRequest : peer.session.downloads = []
  unassigned : peer.session.assigned = none
  noEndGame : download.selector.endGame = false
  missing : ∃ piece, peer.session.bitfield.has piece = true ∧ download.holdings.has piece = false
  fetched : ∀ piece, peer.session.bitfield.has piece = true →
    download.holdings.has piece = false → piece ∈ download.inFlight

/-- A later state of a connection, on which no interest was declared in between. -/
structure Undeclared (before after : Peer) : Prop where
  address : after.address = before.address
  mailbox : after.mailbox = before.mailbox
  log : ∃ rest, after.log = before.log ++ rest ∧ .sent .interested ∉ rest

theorem Undeclared.refl (peer : Peer) : peer.Undeclared peer :=
  ⟨rfl, rfl, [], (List.append_nil _).symm, List.not_mem_nil⟩

theorem Undeclared.trans {before middle after : Peer} (first : before.Undeclared middle)
    (second : middle.Undeclared after) : before.Undeclared after := by
  obtain ⟨entries, log, silent⟩ := first.log
  obtain ⟨more, longer, quiet⟩ := second.log
  refine ⟨second.address.trans first.address, second.mailbox.trans first.mailbox,
    entries ++ more, ?_, ?_⟩
  · rw [longer, log, List.append_assoc]
  · exact fun declared => (List.mem_append.mp declared).elim silent quiet

/-- What others do changes nothing about a peer that is courted. -/
theorem Courted.evolve {peer : Peer} {before after : Download} (courted : peer.Courted before)
    (complete : ∀ {piece}, before.holdings.has piece = true → after.holdings.has piece = true)
    (banned : ∀ {ip}, before.isBanned ip = true → after.isBanned ip = true) :
    peer.Courted after := by
  rcases courted with interested | excluded | useless
  · exact Or.inl interested
  · exact Or.inr (Or.inl (banned excluded))
  · exact Or.inr (Or.inr ⟨useless.noRequest, useless.unassigned,
      fun held => complete (useless.complete held)⟩)

theorem Courted.interested {peer : Peer} {download : Download} (courted : peer.Courted download)
    (free : download.isBanned peer.address.ip = false) (work : peer.HasWork download) :
    peer.session.amInterested = true := by
  rcases courted with interested | banned | useless
  · exact interested
  · exact nomatch free.symm.trans banned
  · rcases work with asked | ⟨piece, held, missing, _⟩
    · exact absurd useless.noRequest asked
    · exact nomatch missing.symm.trans (useless.complete held)

end Peer

/-- Messages in which we declare interest or withdraw it. -/
def Exchange.isInterest : Exchange → Bool
  | .sent .interested | .sent .notInterested => true
  | _ => false

/-- No move withdraws interest, and one that declares it says so at its end. -/
theorem Move.interest {scene after : Scene} (move : Move scene after) :
    ∃ rest, after.peer.log = scene.peer.log ++ rest ∧
      ((after.peer.session.amInterested = scene.peer.session.amInterested ∧
          ∀ entry ∈ rest, entry.isInterest = false) ∨
        (after.peer.session.amInterested = true ∧
          ∃ earlier, rest = earlier ++ [.sent .interested])) := by
  have none : ∀ entry ∈ ([] : List Exchange), entry.isInterest = false := List.forall_mem_nil _
  have one : ∀ {entry : Exchange}, entry.isInterest = false →
      ∀ other ∈ [entry], other.isInterest = false :=
    fun neutral => List.forall_mem_singleton.mpr neutral
  have more : ∀ {first last : List Exchange}, (∀ entry ∈ first, entry.isInterest = false) →
      (∀ entry ∈ last, entry.isInterest = false) →
      ∀ entry ∈ first ++ last, entry.isInterest = false :=
    fun left right => List.forall_mem_append.mpr ⟨left, right⟩
  have cancels : ∀ (requests : List BlockRequest),
      ∀ entry ∈ requests.map (Exchange.sent <| .cancel ·), entry.isInterest = false :=
    fun _ => List.forall_mem_map.mpr fun _ _ => rfl
  cases move with
  | announced now message field useful kind =>
    refine ⟨_, List.append_assoc _ _ _, ?_⟩
    change ((scene.peer.session.amInterested || useful) = _ ∧ _) ∨
      ((scene.peer.session.amInterested || useful) = true ∧ _)
    cases useful with
    | false => exact Or.inl ⟨Bool.or_false _, more (one rfl) none⟩
    | true =>
      cases interested : scene.peer.session.amInterested with
      | true => exact Or.inl ⟨rfl, more (one rfl) none⟩
      | false => exact Or.inr ⟨rfl, _, rfl⟩
  | interested now =>
    refine ⟨_, List.append_assoc _ _ _, Or.inl ⟨rfl, more (one rfl) ?_⟩⟩
    split
    · exact one rfl
    · exact none
  | notInterested now =>
    refine ⟨_, List.append_assoc _ _ _, Or.inl ⟨rfl, more (one rfl) ?_⟩⟩
    split
    · exact none
    · exact one rfl
  | told piece | recalled piece =>
    exact ⟨_, List.append_assoc _ _ _, Or.inl ⟨rfl, more (cancels _) (one rfl)⟩⟩
  | accepted | lost | stored | completed | corrupted | unreadable =>
    exact ⟨_, List.append_assoc _ _ _, Or.inl ⟨rfl, more (one rfl) (one rfl)⟩⟩
  | released | took | skipped | unserved | obeyed | parted =>
    exact ⟨[], (List.append_nil _).symm, Or.inl ⟨rfl, none⟩⟩
  | _ => exact ⟨_, rfl, Or.inl ⟨rfl, one rfl⟩⟩

/-- Every move keeps a peer courted. -/
theorem Move.courted {scene after : Scene} (move : Move scene after) (sound : scene.Sound)
    (courted : scene.peer.Courted scene.download) : after.peer.Courted after.download := by
  rcases courted with interested | banned | useless
  · obtain ⟨rest, _, ⟨same, _⟩ | ⟨declared, _⟩⟩ := move.interest
    · exact Or.inl (same.trans interested)
    · exact Or.inl declared
  · refine Or.inr (Or.inl ?_)
    rw [move.persists.address]
    exact move.evolves.banned banned
  · have unanswered : ∀ {request : BlockRequest},
        request ∉ scene.peer.session.downloads := by
      intro request asked
      rw [useless.noRequest] at asked
      cases asked
    have unclaimed : ∀ {piece : Nat}, scene.peer.session.assigned ≠ some piece := by
      intro piece assigned
      exact nomatch useless.unassigned.symm.trans assigned
    have kept : after.peer.session.downloads = [] → after.peer.session.assigned = none →
        after.peer.session.bitfield = scene.peer.session.bitfield →
        after.peer.Courted after.download := by
      intro noRequest unassigned same
      refine Or.inr (Or.inr ⟨noRequest, unassigned, ?_⟩)
      intro piece held
      rw [same] at held
      exact move.evolves.complete (useless.complete held)
    cases move with
    | choked now => exact kept rfl rfl rfl
    | announced now message field useful kind sized needless welcome =>
      cases useful with
      | true => exact Or.inl (Bool.or_true _)
      | false =>
        rcases needless rfl with nothing | banned
        · refine Or.inr (Or.inr ⟨useless.noRequest, useless.unassigned, ?_⟩)
          intro piece held
          change scene.download.holdings.has piece = true
          cases complete : scene.download.holdings.has piece with
          | true => rfl
          | false =>
            have sizes := sized.trans sound.sized
            have missing := (Bitfield.hasMissingFrom_iff sizes).mpr ⟨piece, held, complete⟩
            exact nomatch nothing.symm.trans missing
        · exact Or.inr (Or.inl banned)
    | discarded now request data asked | stray now request data asked =>
      exact absurd asked unanswered
    | lost now fault answers | stored now store answers | completed now store answers
    | corrupted now store digest answers | unreadable now store fault answers =>
      exact absurd answers.isOpen unanswered
    | released piece assigned | recalled piece assigned => exact absurd assigned unclaimed
    | took piece unassigned unchoked free held missing =>
      exact nomatch missing.symm.trans (useless.complete held)
    | asked index piece block assigned => exact absurd assigned unclaimed
    | told piece =>
      refine kept ?_ useless.unassigned rfl
      change scene.peer.session.downloads.filter (·.piece ≠ piece) = []
      rw [useless.noRequest]
      rfl
    | _ => exact kept useless.noRequest useless.unassigned rfl

/-- The last message about interest that was sent, if there is one, declares interest. -/
def interestShown (log : List Exchange) : Bool :=
  log.foldl (fun shown entry => if entry.isInterest then entry = .sent .interested else shown) false

theorem interestShown_append {log rest : List Exchange}
    (neutral : ∀ entry ∈ rest, entry.isInterest = false) :
    interestShown (log ++ rest) = interestShown log := by
  unfold interestShown
  rw [List.foldl_append]
  generalize log.foldl _ false = shown
  induction rest with
  | nil => rfl
  | cons entry rest ih =>
    rw [List.foldl_cons, neutral entry List.mem_cons_self]
    exact ih fun other member => neutral other (List.mem_cons_of_mem _ member)

theorem interestShown_snoc (log : List Exchange) (entry : Exchange)
    (interest : entry.isInterest = true) :
    interestShown (log ++ [entry]) = decide (entry = .sent .interested) := by
  unfold interestShown
  rw [List.foldl_append, List.foldl_cons, List.foldl_nil, if_pos interest]

/-- A session is interested exactly if the last that it sent about interest says so. -/
theorem interestShown_stable : Swarm.Stable fun swarm =>
    ∀ peer ∈ swarm.peers, peer.session.amInterested = interestShown peer.log := by
  refine @Swarm.peers_stable (fun _ peer => peer.session.amInterested = interestShown peer.log)
    ?_ ?_ (fun _ _ _ _ _ _ => rfl)
  · intro scene after move shown
    obtain ⟨rest, log, ⟨same, neutral⟩ | ⟨declared, earlier, rfl⟩⟩ := move.interest
    · rw [log, interestShown_append neutral, same, shown]
    · rw [log, ← List.append_assoc, interestShown_snoc _ _ rfl, declared]
      rfl
  · intro scene after withdrawal _
    rw [withdrawal.result]
    exact (interestShown_snoc scene.peer.log (.sent .notInterested) rfl).symm

/-- As long as no interest is declared, none is shown. -/
theorem interestShown_quiet {log rest : List Exchange} (calm : interestShown log = false)
    (silent : .sent .interested ∉ rest) : interestShown (log ++ rest) = false := by
  unfold interestShown at calm ⊢
  rw [List.foldl_append, calm]
  induction rest with
  | nil => rfl
  | cons entry rest ih =>
    have other : entry ≠ .sent .interested := fun same => silent (same ▸ List.mem_cons_self)
    have unchanged : (if entry.isInterest then decide (entry = .sent .interested) else false) =
        false := by
      rw [decide_eq_false other]
      exact ite_self false
    rw [List.foldl_cons, unchanged]
    exact ih fun declared => silent (List.mem_cons_of_mem _ declared)

/-- After a move we are interested in the peer, or the move declares no interest. -/
theorem Move.undeclared {scene after : Scene} (move : Move scene after) :
    after.peer.session.amInterested = true ∨ scene.peer.Undeclared after.peer := by
  obtain ⟨rest, log, ⟨_, neutral⟩ | ⟨declared, _⟩⟩ := move.interest
  · exact Or.inr ⟨move.persists.address, move.persists.mailbox, rest, log,
      fun member => nomatch neutral _ member⟩
  · exact Or.inl declared

/-- Interest is withdrawn from a peer that is banned or useless, or that is useless for now. -/
theorem Withdrawal.dismissed {scene after : Scene} (withdrawal : Withdrawal scene after) :
    after.peer.Courted after.download ∨ after.peer.Dismissed after.download := by
  obtain ⟨_, noRequest, unassigned, idle, rfl⟩ := withdrawal
  rcases idle with banned | idle
  · exact Or.inl (Or.inr (Or.inl banned))
  · by_cases missing : ∃ piece, scene.peer.session.bitfield.has piece = true ∧
        scene.download.holdings.has piece = false
    · have busy : ∀ piece, scene.peer.session.bitfield.has piece = true →
          scene.download.holdings.has piece = false →
          scene.download.selector.endGame = false ∧ piece ∈ scene.download.inFlight := by
        intro piece held lacking
        rcases idle piece held with complete | ⟨noEndGame, fetched⟩
        · exact nomatch lacking.symm.trans complete
        · exact ⟨noEndGame, List.mem_eraseDups.mpr fetched⟩
      obtain ⟨piece, held, lacking⟩ := id missing
      exact Or.inr {
        withdrawn := ⟨scene.peer.log, rfl⟩
        noRequest := noRequest
        unassigned := unassigned
        noEndGame := (busy piece held lacking).1
        missing := missing
        fetched := fun other has lacks => (busy other has lacks).2 }
    · refine Or.inl (Or.inr (Or.inr ⟨noRequest, unassigned, ?_⟩))
      intro piece held
      cases complete : scene.download.holdings.has piece with
      | true => exact complete
      | false => exact absurd ⟨piece, held, complete⟩ missing

section

variable {Past : Peer → Prop}
  (lasting : ∀ {before after : Peer}, before.Undeclared after → Past before → Past after)

include lasting

/-- A handler leaves a peer courted, dismisses it, or does not change that it was dismissed. -/
theorem Course.courted {scene after : Scene} (course : Course scene after) (sound : scene.Sound)
    (before : scene.peer.Courted scene.download ∨ Past scene.peer) :
    after.peer.Courted after.download ∨ after.peer.Dismissed after.download ∨ Past after.peer := by
  -- Only the withdrawal at the end can dismiss a peer.
  have kept : ∀ {middle : Scene}, Moves scene middle →
      middle.peer.Courted middle.download ∨ Past middle.peer := by
    intro middle moves
    induction moves with
    | refl => exact before
    | tail moved move ih =>
      rcases ih with courted | past
      · exact Or.inl (move.courted (Moves.steady moved sound) courted)
      · rcases move.undeclared with interested | undeclared
        · exact Or.inl (Or.inl interested)
        · exact Or.inr (lasting undeclared past)
  obtain ⟨middle, moves, rfl | withdrawal⟩ := course
  · exact (kept moves).imp_right Or.inr
  · exact withdrawal.dismissed.imp_right Or.inl

/-- Whatever happens, a peer is courted, has just been dismissed, or was dismissed before. -/
theorem Swarm.Step.courted {swarm after : Swarm} (step : swarm.Step after) (sound : swarm.Sound)
    (before : ∀ peer ∈ swarm.peers, peer.Courted swarm.download ∨ Past peer) :
    ∀ peer ∈ after.peers,
      peer.Courted after.download ∨ peer.Dismissed after.download ∨ Past peer := by
  have others : ∀ {download : Download}, ∀ peer ∈ swarm.peers,
      (∀ {piece}, swarm.download.holdings.has piece = true → download.holdings.has piece = true) →
      (∀ {ip}, swarm.download.isBanned ip = true → download.isBanned ip = true) →
      peer.Courted download ∨ peer.Dismissed download ∨ Past peer := by
    intro download peer member complete banned
    rcases before peer member with courted | past
    · exact Or.inl (courted.evolve complete banned)
    · exact Or.inr (Or.inr past)
  intro peer member
  cases step with
  | idle | faults writes reads => exact others peer member id id
  | @acted actor scene present course =>
    have there : swarm.Present (swarm.scene actor) := ⟨actor, present, rfl⟩
    rcases (mem_put (there.persists course.persists)).mp member with rfl | ⟨old, _⟩
    · exact course.courted lasting (sound.scene present) (before actor present)
    · exact others peer old course.evolves.complete course.evolves.banned
  | @joined address peerId source roster mailbox capabilities now attached =>
    rcases List.mem_append.mp member with old | new
    · exact others peer old id id
    · rw [List.mem_singleton.mp new]
      refine Or.inl (Or.inr (Or.inr ⟨rfl, rfl, ?_⟩))
      intro piece held
      exact nomatch (Bitfield.has_empty swarm.download.torrent.pieceCount piece).symm.trans held
  | @left gone _ =>
    have evolves := swarm.download.free_evolves gone.session
    exact others peer (List.mem_filter.mp member).1 evolves.complete evolves.banned
  | rechecked =>
    have evolves := swarm.download.recheck_evolves swarm.store
    exact others peer member evolves.complete evolves.banned
  | banned ip =>
    have evolves := swarm.download.ban_evolves ip
    exact others peer member evolves.complete evolves.banned

end

/-- Interest in a peer was withdrawn at some point of a run because all that it had and we lacked
was being fetched, and was not declared since. -/
def Swarm.Lapsed (start : Swarm) (happenings : List Happening) (peer : Peer) : Prop :=
  ∃ before after earlier, happenings = before ++ after ∧ earlier ∈ (start.run before).peers ∧
    earlier.Dismissed (start.run before).download ∧ earlier.Undeclared peer

theorem Swarm.run_courted {start : Swarm} (sound : start.Sound)
    (before : ∀ peer ∈ start.peers, peer.Courted start.download) (happenings : List Happening) :
    ∀ peer ∈ (start.run happenings).peers,
      peer.Courted (start.run happenings).download ∨ start.Lapsed happenings peer := by
  -- Taken apart at its end, since `Lapsed` speaks of what came before.
  induction happenings using List.reverseRecOn with
  | nil => exact fun peer member => Or.inl (before peer member)
  | append_singleton earlier happening ih =>
    have steady := sound.run earlier
    have lasting : ∀ {before after : Peer}, before.Undeclared after → start.Lapsed earlier before →
        start.Lapsed earlier after := by
      rintro old new undeclared ⟨first, rest, dismissed, split, member, reason, silent⟩
      exact ⟨first, rest, dismissed, split, member, reason, silent.trans undeclared⟩
    rw [run_append]
    intro peer member
    rcases (step_step steady happening).courted lasting steady ih peer member with
      courted | dismissed | lapsed
    · exact Or.inl courted
    · refine Or.inr ⟨earlier ++ [happening], [], peer, (List.append_nil _).symm, ?_⟩
      rw [run_append]
      exact ⟨member, dismissed, .refl peer⟩
    · obtain ⟨first, rest, old, rfl, others⟩ := lapsed
      exact Or.inr ⟨first, rest ++ [happening], old, List.append_assoc _ _ _, others⟩

section

variable {torrent : Torrent} {settings : Settings} {selector : Selector} {ownId : PeerId}
  {draws : List Nat} {store : MemoryStore} {happenings : List Happening} {peer : Peer}

/-- Wherever a run has led, we are interested in a peer that is not banned and has work for us,
unless interest was withdrawn when all that it had and we lacked was being fetched. With the end
game we are always interested in such a peer. -/
theorem run_interested
    (connected : peer ∈ ((Swarm.start torrent settings selector ownId draws store).run
      happenings).peers)
    (free : ((Swarm.start torrent settings selector ownId draws store).run
      happenings).download.isBanned peer.address.ip = false)
    (work : peer.HasWork ((Swarm.start torrent settings selector ownId draws store).run
      happenings).download) :
    (peer.session.amInterested = false ↔
      (Swarm.start torrent settings selector ownId draws store).Lapsed happenings peer) ∧
    (selector.endGame = true → peer.session.amInterested = true) := by
  have start := Swarm.start_sound torrent settings selector ownId draws store
  have shown := interestShown_stable.run start (fun _ => (nomatch ·))
  have reason := Swarm.run_courted start (fun _ => (nomatch ·)) happenings peer connected
  have lapsed : peer.session.amInterested = false →
      (Swarm.start torrent settings selector ownId draws store).Lapsed happenings peer := by
    intro calm
    rcases reason with courted | lapsed
    · exact nomatch calm.symm.trans (courted.interested free work)
    · exact lapsed
  refine ⟨⟨lapsed, ?_⟩, ?_⟩
  · rintro ⟨before, after, earlier, rfl, member, dismissed, silent⟩
    obtain ⟨log, withdrawn⟩ := dismissed.withdrawn
    obtain ⟨rest, longer, quiet⟩ := silent.log
    rw [shown _ peer connected, longer]
    refine interestShown_quiet ?_ quiet
    rw [withdrawn]
    exact interestShown_snoc log _ rfl
  · intro endGame
    cases interested : peer.session.amInterested with
    | true => rfl
    | false =>
      obtain ⟨before, _, _, _, _, dismissed, _⟩ := lapsed interested
      have same : selector.endGame = false :=
        (congrArg Selector.endGame (Swarm.run_selector start before)).symm.trans
          dismissed.noEndGame
      exact nomatch endGame.symm.trans same

/-- The second peer is not asked for the piece that the first one gives back. -/
theorem neglected_release :
    let swarm := Sample.start.run Sample.release
    ∃ peer ∈ swarm.peers, swarm.download.isBanned peer.address.ip = false ∧
      peer.HasWork swarm.download ∧ peer.session.amInterested = false := by
  intro swarm
  have neglected : swarm.peers.any (fun peer => !swarm.download.isBanned peer.address.ip &&
      peer.session.bitfield.has 0 && !peer.session.amInterested) = true := by decide +kernel
  have missing : swarm.download.holdings.has 0 = false := by decide +kernel
  have free : 0 ∉ swarm.download.inFlight := by decide +kernel
  obtain ⟨peer, member, found⟩ := List.any_eq_true.mp neglected
  simp only [Bool.and_eq_true, Bool.not_eq_true'] at found
  obtain ⟨⟨welcome, held⟩, calm⟩ := found
  exact ⟨peer, member, welcome, Or.inr ⟨0, held, missing, free⟩, calm⟩

theorem run_interested_release :
    ∃ peer ∈ (Sample.start.run Sample.release).peers,
      Sample.start.Lapsed Sample.release peer := by
  obtain ⟨peer, member, free, work, calm⟩ := neglected_release
  have reason := @run_interested Sample.torrent {} ⟨.sequential, false⟩ Sample.peerId [] (.empty 4)
    Sample.release peer member free work
  exact ⟨peer, member, reason.1.mp calm⟩

/-- A peer that is not banned may have work for us without our being interested. -/
theorem not_always_interested :
    ¬ ∀ (torrent : Torrent) (settings : Settings) (selector : Selector) (ownId : PeerId)
      (draws : List Nat) (store : MemoryStore) (happenings : List Happening),
      let swarm := (Swarm.start torrent settings selector ownId draws store).run happenings
      ∀ peer ∈ swarm.peers, swarm.download.isBanned peer.address.ip = false →
        peer.HasWork swarm.download → peer.session.amInterested = true := by
  intro always
  obtain ⟨peer, member, free, work, calm⟩ := neglected_release
  have interested := always Sample.torrent {} ⟨.sequential, false⟩ Sample.peerId [] (.empty 4)
    Sample.release peer member free work
  exact nomatch calm.symm.trans interested

end

end BitTorrent
