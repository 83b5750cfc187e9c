import BitTorrent.Proofs.Hosting

/-!
What comes of a torrent that is managed no longer. Its connections are asked to close, and nothing
new is begun for it; but attempts that are under way know the torrent already, and so does who takes
candidates for it, and none of them asks again whether it is still managed. The torrents of an
engine go through such tenures, so this is what an engine leaves of one that it removes.
-/

set_option autoImplicit false

namespace BitTorrent

open Relation (ReflTransGen)

namespace Attempt

/-- An attempt that has found its torrent and is not registered with it yet. -/
def isUnderway : Attempt → Bool
  | called .. | dialling .. | answering _ => true
  | _ => false

/-- An attempt that is of concern to the torrent, now or later. -/
def concerns (attempt : Attempt) : Bool :=
  attempt.isLive || attempt.isUnderway

theorem isUnderway_of_admitted {attempt : Attempt} {pair : Address × PeerSource}
    (admitted : attempt.admitted? = some pair) : attempt.isUnderway = true := by
  cases attempt <;> first | rfl | cases admitted

end Attempt

namespace Reception

variable {reception later : Reception} {number : Nat} {attempt : Attempt}

/-- Where an attempt comes from that is of concern to the torrent: it was so before, as it is or
under way; or it has just been answered, or begun. -/
inductive Arises (reception later : Reception) (number : Nat) (attempt : Attempt) : Prop
  | remains : reception.attempts[number]? = some attempt → Arises reception later number attempt
  | proceeds {earlier : Attempt} : reception.attempts[number]? = some earlier →
      earlier.isUnderway = true → Arises reception later number attempt
  | answered {address : Address} : reception.attempts[number]? = some (.accepted address) →
      attempt = .answering address → Arises reception later number attempt
  | begun {address : Address} {source : PeerSource} : number = reception.attempts.length →
      attempt = .called address source → later.attempts = reception.attempts ++ [attempt] →
      Arises reception later number attempt

theorem arises_begin {next : Attempt} (same : later.attempts = reception.attempts ++ [next])
    (new : next.concerns = true → ∃ address source, next = .called address source)
    (found : later.attempts[number]? = some attempt) (concerns : attempt.concerns = true) :
    Arises reception later number attempt := by
  have place := found
  rw [same, List.getElem?_append] at place
  split at place
  · exact .remains place
  · rename_i outside
    rw [List.getElem?_singleton] at place
    split at place
    · cases place
      obtain ⟨address, source, rfl⟩ := new concerns
      exact .begun (by omega) rfl same
    · cases place

theorem arises_put {index : Nat} {before next : Attempt}
    (there : reception.attempts[index]? = some before)
    (same : later.attempts = reception.attempts.set index next)
    (new : next.concerns = true → before.isUnderway = true ∨
      ∃ address, before = .accepted address ∧ next = .answering address)
    (found : later.attempts[number]? = some attempt) (concerns : attempt.concerns = true) :
    Arises reception later number attempt := by
  rw [same, List.getElem?_set] at found
  split at found
  · rename_i here
    subst here
    split at found
    · cases found
      rcases new concerns with underway | ⟨address, rfl, rfl⟩
      · exact .proceeds there underway
      · exact .answered there rfl
    · cases found
  · exact .remains found

/-- No step makes anything the concern of the torrent but by calling or by answering somebody. -/
theorem Step.arises (step : reception.Step later) (found : later.attempts[number]? = some attempt)
    (concerns : attempt.concerns = true) : Arises reception later number attempt := by
  cases step with
  | connects address | takes address =>
    exact arises_begin rfl (fun _ => ⟨address, _, rfl⟩) found concerns
  | accepts | ignores => exact arises_begin rfl nofun found concerns
  | dials there | answers there =>
    refine arises_put there rfl (fun _ => ?_) found concerns
    first
      | exact .inl rfl
      | exact .inr ⟨_, rfl, rfl⟩
  | fails there | drops there | leaves there => exact arises_put there rfl nofun found concerns
  | attaches peerId there admitted =>
    exact arises_put there rfl (fun _ => .inl (Attempt.isUnderway_of_admitted admitted)) found
      concerns
  | recalls | declines | works | closes | changes => exact .remains found

/-- No attempt is ever taken off the list. -/
theorem Step.longer (step : reception.Step later) :
    reception.attempts.length ≤ later.attempts.length := by
  cases step with
  | connects | takes | accepts | ignores =>
    exact Nat.le_of_lt (by simp [begin, know, withRoster, withDownload])
  | dials | answers | fails | drops | attaches | leaves =>
    exact Nat.le_of_eq List.length_set.symm
  | recalls | declines | works | closes | changes => exact Nat.le_refl _

end Reception

namespace Tenure

/-- What is left of a torrent that is managed no longer. -/
structure Outlives (removed later : Tenure) : Prop where
  unmanaged : later.managed = false
  fewer : later.intakes ≤ removed.intakes
  longer : removed.reception.attempts.length ≤ later.reception.attempts.length
  origin : ∀ {number : Nat} {attempt : Attempt},
    later.reception.attempts[number]? = some attempt → attempt.concerns = true →
      removed.reception.attempts[number]? = some attempt ∨
      (∃ earlier, removed.reception.attempts[number]? = some earlier ∧
        earlier.isUnderway = true) ∨
      (removed.reception.attempts.length ≤ number ∧ 0 < removed.intakes)

variable {tenure removed later after : Tenure}

theorem Outlives.goes (outlives : removed.Outlives later) {reception : Reception}
    (step : later.reception.Step reception) (permits : later.Permits reception) :
    removed.Outlives { later with reception := reception } where
  unmanaged := outlives.unmanaged
  fewer := outlives.fewer
  longer := Nat.le_trans outlives.longer step.longer
  origin := by
    intro number attempt found concerns
    cases step.arises found concerns with
    | remains before => exact outlives.origin before concerns
    | proceeds before underway =>
      have earlier := outlives.origin before (Bool.or_eq_true_iff.mpr (.inr underway))
      rcases earlier with same | old | new
      · exact .inr (.inl ⟨_, same, underway⟩)
      · exact .inr (.inl old)
      · exact .inr (.inr new)
    | answered before same =>
      subst same
      exact nomatch (permits.answered before found).symm.trans outlives.unmanaged
    | begun fresh same grown =>
      subst same
      have allowed := permits.called grown
      split at allowed
      · exact .inr (.inr ⟨fresh ▸ outlives.longer, Nat.lt_of_lt_of_le allowed outlives.fewer⟩)
      · exact nomatch allowed.symm.trans outlives.unmanaged

theorem Outlives.step (outlives : removed.Outlives later) (step : later.Step after) :
    removed.Outlives after := by
  cases step with
  | opens managed => exact nomatch managed.symm.trans outlives.unmanaged
  | ends left =>
    have fewer := outlives.fewer
    rw [left] at fewer
    exact ⟨outlives.unmanaged, Nat.le_of_succ_le fewer, outlives.longer, outlives.origin⟩
  | removes managed => exact nomatch managed.symm.trans outlives.unmanaged
  | goes step permits => exact outlives.goes step permits

/-- What is there of a torrent after its removal was there at its removal, or comes of what was. -/
theorem Outlives.run (run : ReflTransGen Step tenure.remove later) :
    tenure.remove.Outlives later := by
  induction run with
  | refl => exact ⟨rfl, Nat.le_refl _, Nat.le_refl _, fun found _ => .inl found⟩
  | tail _ step ih => exact ih.step step

/-- Whoever is registered when the torrent is removed is asked to close. -/
theorem queued_remove (housed : tenure.reception.Housed) {address : Address} {mailbox : Nat}
    (live : .live address mailbox ∈ tenure.reception.attempts) :
    .disconnect ∈ tenure.remove.reception.roster.queued mailbox := by
  obtain ⟨lined, takes⟩ := housed.held live
  have queued := Roster.queued_broadcast .disconnect mailbox housed.orderly.numbers
  rw [if_pos ⟨Roster.mem_numbers.mpr ⟨_, lined⟩, takes⟩] at queued
  change .disconnect ∈ (tenure.reception.roster.broadcast .disconnect).1.queued mailbox
  rw [queued]
  exact List.mem_append_right _ (List.mem_singleton_self _)

/-- An attempt that was admitted is registered after the removal as it would have been before, and
nothing is put into its mailbox. -/
theorem attaches_removed {number : Nat} {attempt : Attempt} {address : Address}
    {source : PeerSource} (there : tenure.reception.attempts[number]? = some attempt)
    (admitted : attempt.admitted? = some (address, source))
    (free : tenure.reception.roster.isConnected address = false) (peerId : PeerId) :
    ∃ later mailbox, tenure.remove.Step later ∧
      later.reception.attempts[number]? = some (.live address mailbox) ∧
      later.reception.roster.queued mailbox = [] := by
  have unregistered : tenure.remove.reception.roster.isConnected address = false :=
    (Roster.isConnected_congr (Roster.entries_broadcast _ _) address).trans free
  have here : tenure.remove.reception.attempts[number]? = some attempt := there
  cases attached : tenure.remove.reception.roster.attach address peerId source with
  | error fault =>
    rw [Roster.attach, unregistered] at attached
    cases attached
  | ok registered =>
    obtain ⟨roster, mailbox⟩ := registered
    obtain ⟨rfl, boxes, -⟩ := Roster.attach_lines attached
    have step := Reception.Step.attaches peerId here admitted attached
    have allowed : Reception.Allowed false tenure.remove.reception _ := .of_put step rfl rfl
    exact ⟨_, _, .of_allowed allowed nofun, Reception.getElem?_put here,
      Roster.queued_newest boxes⟩

end Tenure

/-- A torrent that was removed is not found any more: nobody is called for it by hand, no candidates
are taken for it, and no caller is answered that asks for it. -/
theorem Engine.remove_refuses (engine : Engine) (hash : Digest) :
    let after := (engine.remove hash).1
    (∀ address, after.connect hash address =
      (after, .error (.fault (.registry (.unknownTorrent hash))))) ∧
    (∀ candidates, after.addPeers hash candidates = .error (.registry (.unknownTorrent hash))) ∧
    ∀ number stream address handshake, handshake.infoHash = hash →
      after.answer number stream address handshake =
        .error (.fault (.violation (.unknownTorrent hash))) := by
  intro after
  have absent : after.find? hash = none := engine.find?_remove hash
  refine ⟨?_, ?_, ?_⟩
  · intro address
    simp only [Engine.connect, Engine.require, absent]
  · intro candidates
    simp only [Engine.addPeers, Engine.require, absent]
  · rintro number stream address handshake rfl
    simp only [Engine.answer, absent, Option.bind_none]

namespace Engine

variable {settings : Settings} {ownId : PeerId} {start engine later : Engine} {hash : Digest}
  {number : Nat}

/-- Whatever an engine is asked to do and whatever happens to it after it has removed a torrent: the
torrent is not managed again, and every link that runs for it then ran for it at its removal and was
asked to close, or was being made at the time. -/
theorem run_retired (begun : Engine.new settings ownId = .ok start)
    (run : ReflTransGen Act start engine) (found : engine.find? hash = some number)
    (after : ReflTransGen Act (engine.remove hash).1 later) (calm : later.Calm) :
    number ∉ later.registry.map (·.2) ∧
    ∀ (index : Nat) link address mailbox, later.link? index = some link →
      link.stage.attempt link.address number = .live address mailbox →
      ∃ old, engine.link? index = some old ∧
        (old.stage.attempt old.address number = .live address mailbox ∧
            (∃ transfer, (engine.remove hash).1.transfer? number = some transfer ∧
              .disconnect ∈ transfer.download.roster.queued mailbox) ∨
          (old.stage.attempt old.address number).isUnderway = true) := by
  have before := (new_hosts begun).run run
  have removal := before.hosts.remove hash
  have behind := removal.hosts.run after
  have inside := before.hosts.inside _ (mem_registry_of_find? found)
  obtain ⟨own, tenured⟩ :=
    behind.tenures calm number engine.transfers[number].download.torrent
  obtain ⟨other, earlier⟩ := before.tenures (removal.calm (behind.calm calm)) number own
  rw [new_tenure begun] at earlier
  have housed := (Reception.run_housed (Tenure.run_receives earlier)).1
  rw [before.hosts.tenure_remove found] at tenured
  have outlives := Tenure.Outlives.run tenured
  constructor
  · have unmanaged : ¬(later.transfers.length ≤ number ∨ number ∈ later.registry.map (·.2)) :=
      of_decide_eq_false outlives.unmanaged
    exact fun listed => unmanaged (.inr listed)
  · intro index link address mailbox there runs
    have live := (attempt_of_link there number (.new engine.transfers[number].download.torrent
      settings ownId [])).trans (congrArg some runs)
    rcases outlives.origin live rfl with same | ⟨attempt, seen, underway⟩ | ⟨-, opened⟩
    · obtain ⟨old, listed, ran⟩ := link_of_attempt (.new own settings ownId []) same
      obtain ⟨transfer, stays, parted⟩ :=
        before.hosts.transfer_remove found (.new own settings ownId [])
      have asked := Tenure.queued_remove housed (List.mem_of_getElem? same)
      rw [Reception.roster, ← parted] at asked
      exact ⟨old, listed, .inl ⟨ran, transfer, stays, asked⟩⟩
    · obtain ⟨old, listed, same⟩ := link_of_attempt (.new own settings ownId []) seen
      exact ⟨old, listed, .inr (same ▸ underway)⟩
    · exact absurd opened (Nat.lt_irrefl 0)

end Engine

/-- However calls, answers and streams of candidates interleave with the removal of a torrent:
whoever is connected to it afterwards was so at its removal, under the same mailbox, and was asked
to close then; or its attempt was under way at the removal; or it came from a stream of candidates
that was open then. So the removal is final if there was neither. Otherwise it is not: an attempt
that was admitted is registered afterwards, and is not asked to close. -/
theorem run_removed {torrent : Torrent} {settings : Settings} {ownId : PeerId} {draws : List Nat}
    {tenure : Tenure}
    (before : ReflTransGen Tenure.Step (.start torrent settings ownId draws) tenure) :
    (∀ later, ReflTransGen Tenure.Step tenure.remove later →
      ∀ (number : Nat) address mailbox,
        later.reception.attempts[number]? = some (.live address mailbox) →
          (tenure.reception.attempts[number]? = some (.live address mailbox) ∧
            .disconnect ∈ tenure.remove.reception.roster.queued mailbox) ∨
          (∃ attempt, tenure.reception.attempts[number]? = some attempt ∧
            attempt.isUnderway = true) ∨
          (tenure.reception.attempts.length ≤ number ∧ 0 < tenure.intakes)) ∧
    (tenure.intakes = 0 → (∀ attempt ∈ tenure.reception.attempts, attempt.isUnderway = false) →
      ∀ later, ReflTransGen Tenure.Step tenure.remove later → ∀ address mailbox,
        .live address mailbox ∈ later.reception.attempts →
          .live address mailbox ∈ tenure.reception.attempts ∧
            .disconnect ∈ tenure.remove.reception.roster.queued mailbox) ∧
    ∀ (number : Nat) attempt address source,
      tenure.reception.attempts[number]? = some attempt →
      attempt.admitted? = some (address, source) →
      tenure.reception.roster.isConnected address = false →
        ∃ later mailbox, tenure.remove.Step later ∧
          later.reception.attempts[number]? = some (.live address mailbox) ∧
          later.reception.roster.queued mailbox = [] := by
  have housed := (Reception.run_housed (Tenure.run_receives before)).1
  have origins : ∀ later, ReflTransGen Tenure.Step tenure.remove later →
      ∀ (number : Nat) address mailbox,
        later.reception.attempts[number]? = some (.live address mailbox) →
          (tenure.reception.attempts[number]? = some (.live address mailbox) ∧
            .disconnect ∈ tenure.remove.reception.roster.queued mailbox) ∨
          (∃ attempt, tenure.reception.attempts[number]? = some attempt ∧
            attempt.isUnderway = true) ∨
          (tenure.reception.attempts.length ≤ number ∧ 0 < tenure.intakes) := by
    intro later run number address mailbox live
    rcases (Tenure.Outlives.run run).origin live rfl with same | rest
    · exact .inl ⟨same, Tenure.queued_remove housed (List.mem_of_getElem? same)⟩
    · exact .inr rest
  refine ⟨origins, ?_, fun number attempt address source there admitted free =>
    Tenure.attaches_removed there admitted free ownId⟩
  intro closed idle later run address mailbox member
  obtain ⟨number, live⟩ := List.mem_iff_getElem?.mp member
  rcases origins later run number address mailbox live with
    ⟨same, asked⟩ | ⟨attempt, there, underway⟩ | ⟨-, opened⟩
  · exact ⟨List.mem_of_getElem? same, asked⟩
  · exact nomatch underway.symm.trans (idle attempt (List.mem_of_getElem? there))
  · omega

/-- One peer is connected when the torrent is removed and is asked to close, and another one is
being dialled and gets connected. -/
theorem run_removed_dialling : ∃ tenure : Tenure,
    ReflTransGen Tenure.Step (.start Sample.torrent {} Sample.peerId []) tenure ∧
    .disconnect ∈ tenure.remove.reception.roster.queued 0 ∧
    ∃ later mailbox, tenure.remove.Step later ∧
      later.reception.attempts[1]? = some (.live Sample.second mailbox) ∧
      later.reception.roster.queued mailbox = [] := by
  have reached : ∃ tenure : Tenure,
      ReflTransGen Tenure.Step (.start Sample.torrent {} Sample.peerId []) tenure ∧
      tenure.reception.attempts = [.live Sample.first 0, .dialling Sample.second .manual] ∧
      tenure.reception.roster.isConnected Sample.second = false := by
    refine ⟨_, .tail (.tail (.tail (.tail (.tail .refl
      (.goes (.connects Sample.first) (.of_managed rfl nofun)))
      (.goes (@Reception.Step.dials _ 0 _ _ rfl rfl) (.of_managed rfl nofun)))
      (.goes (@Reception.Step.attaches _ 0 _ _ _ _ _ Sample.peerId rfl rfl rfl)
        (.of_managed rfl nofun)))
      (.goes (.connects Sample.second) (.of_managed rfl nofun)))
      (.goes (@Reception.Step.dials _ 1 _ _ rfl rfl) (.of_managed rfl nofun)), rfl, ?_⟩
    decide
  obtain ⟨tenure, run, attempts, free⟩ := reached
  obtain ⟨origins, -, attaches⟩ := run_removed run
  have connected : tenure.remove.reception.attempts[0]? = some (.live Sample.first 0) := by
    change tenure.reception.attempts[0]? = _
    rw [attempts]
    rfl
  have asked : .disconnect ∈ tenure.remove.reception.roster.queued 0 := by
    rcases origins _ .refl 0 _ _ connected with ⟨-, asked⟩ | ⟨attempt, there, underway⟩ | ⟨few, -⟩
    · exact asked
    · rw [attempts] at there
      cases there
      cases underway
    · rw [attempts] at few
      cases few
  have dialled : tenure.reception.attempts[1]? = some (.dialling Sample.second .manual) := by
    rw [attempts]
    rfl
  exact ⟨tenure, run, asked, attaches 1 _ _ _ dialled rfl free⟩

end BitTorrent
