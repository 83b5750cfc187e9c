import BitTorrent.Proofs.Tasks

/-!
An engine and its torrents. Whatever the engine is asked to do and whatever happens to it, each of
its torrents goes through a tenure, which its removal ends. So what it sees is a run of a reception,
and its roster mirrors the links.
-/

set_option autoImplicit false

namespace BitTorrent

open Relation (ReflTransGen)

namespace Engine

variable {after engine : Engine}

/-! What an engine is asked to do. -/

section

variable {torrent : Nat} {transfer : Transfer}

/-- A torrent that is managed changes and has somebody called, which no other torrent sees. -/
theorem Advances.of_call {before after : Engine} {later : Transfer} {address : Address}
    {source : PeerSource} {reader : Reader} (managed : before.manages torrent = true)
    (mine : before.transfer? torrent = some transfer) (frame : after.frame = before.frame)
    (transfers : after.transfers = before.transfers.set torrent later)
    (links : after.links = before.links ++ [⟨address, .calling torrent source, reader⟩])
    (step : ∀ {reception : Reception}, reception.download = transfer.download →
      reception.Step ((reception.withDownload later.download).begin (.called address source))) :
    before.Advances after := by
  refine .of_link frame (by rw [transfers, List.length_set]) links fun other fresh => ?_
  rw [download_set mine transfers]
  split
  · rename_i same
    subst same
    rw [Stage.attempt, if_pos rfl]
    exact .single (.of_managed managed (step (download_of_transfer mine fresh)))
  · rename_i different
    rw [Stage.attempt, if_neg (Ne.symm different)]
    exact .single (.of_begin .ignores rfl rfl)

/-- A candidate is taken, declined, or known already. -/
theorem takeCandidate_advances (managed : engine.manages torrent = true) (candidate : Candidate) :
    engine.Advances (takeCandidate torrent engine candidate) := by
  unfold takeCandidate
  split
  · exact .refl engine
  · rename_i transfer mine
    dsimp only
    split
    · rename_i fresh
      split
      · rename_i fault declined
        refine @Advances.of_transfer _ _ torrent transfer (transfer.withRoster
          ((transfer.download.roster.add candidate.address candidate.peerId .tracker).1.forget
            candidate.address).1) mine rfl rfl (List.set_set _) ?_
        rintro ⟨_, attempts⟩ rfl
        exact .single (.of_still (@Reception.Step.declines ⟨transfer.download, attempts⟩
          candidate.address candidate.peerId fault fresh declined) rfl)
      · rename_i admitted
        refine .trans ?_ (wake_alike _ _).advances
        refine .of_call managed mine rfl rfl rfl ?_
        rintro ⟨_, attempts⟩ rfl
        exact @Reception.Step.takes ⟨transfer.download, attempts⟩ candidate.address
          candidate.peerId fresh admitted
    · rename_i known
      refine .of_transfer mine rfl rfl rfl ?_
      rintro ⟨_, attempts⟩ rfl
      exact .single (.of_still (@Reception.Step.recalls ⟨transfer.download, attempts⟩
        candidate.address candidate.peerId (Bool.not_eq_true _ ▸ known)) rfl)

/-- The connections of a torrent are asked to close. -/
theorem shutdown_advances (engine : Engine) (torrent : Nat) :
    engine.Advances (engine.shutdown torrent) := by
  refine .trans ?_ (notifyMailboxes_alike _ _).advances
  cases mine : engine.transfer? torrent with
  | none =>
    rw [modifyTransfer_absent mine]
    exact .refl engine
  | some transfer =>
    rw [modifyTransfer_eq mine]
    refine .of_transfer mine rfl rfl rfl ?_
    rintro ⟨_, attempts⟩ rfl
    exact .single (.of_still .closes rfl)

/-- Somebody is called for a torrent that is there. -/
theorem connect_advances {hash : Digest} (address : Address)
    (there : ∀ {number}, engine.find? hash = some number →
      ∃ transfer, engine.transfer? number = some transfer) :
    engine.Advances (engine.connect hash address).1 := by
  unfold connect require
  cases found : engine.find? hash with
  | none => exact .refl engine
  | some torrent =>
    obtain ⟨transfer, mine⟩ := there found
    dsimp only
    refine .trans ?_ (wake_alike _ _).advances
    rw [modifyTransfer_eq mine]
    generalize known : engine.setTransfer torrent (transfer.withRoster
      (transfer.download.roster.add address none .manual).1) = middle
    have called : engine.Advances { middle with links := middle.links ++
        [⟨address, .calling torrent .manual, .idle⟩] } := by
      subst known
      refine .of_call (manages_of_find? found) mine rfl rfl rfl ?_
      rintro ⟨_, attempts⟩ rfl
      exact @Reception.Step.connects ⟨transfer.download, attempts⟩ address
    have begun := called.trans (establish_advances _ engine.links.length)
    split
    · exact begun
    · exact begun.trans ((runUntil_advances _ _ _ _).trans (establish_advances _ _))

theorem addPeers_advances {hash : Digest} {candidates : List Candidate}
    (taken : engine.addPeers hash candidates = .ok after) : engine.Advances after := by
  unfold addPeers require at taken
  cases found : engine.find? hash with
  | none =>
    rw [found] at taken
    cases taken
  | some torrent =>
    rw [found] at taken
    cases taken
    have managed := manages_of_find? found
    clear found
    induction candidates generalizing engine with
    | nil => exact .refl engine
    | cons candidate rest ih =>
      have first := takeCandidate_advances managed candidate
      exact first.trans (ih ((first.manages torrent).trans managed))

end

/-- What happens to an engine until it is stopped. It is asked for something, runs a task, or passes
time; a torrent is changed, but not who is known to it; and the far sides and the clock do what they
like. -/
inductive Act : Engine → Engine → Prop
  | registers {engine later : Engine} {torrent : Torrent} {store : MemoryStore} {number : Nat} :
      engine.register torrent store = .ok (later, number) → Act engine later
  | removes {engine : Engine} (hash : Digest) : Act engine (engine.remove hash).1
  | connects {engine : Engine} (hash : Digest) (address : Address) :
      Act engine (engine.connect hash address).1
  | takes {engine later : Engine} {hash : Digest} {candidates : List Candidate} :
      engine.addPeers hash candidates = .ok later → Act engine later
  | runs {engine : Engine} (task : Task) : Act engine (engine.poll task)
  | elapses {engine : Engine} (duration : Nat) : Act engine (engine.elapse duration)
  | rests {engine : Engine} : Act engine engine.quiesce
  | changes {engine : Engine} {torrent : Nat} {transfer later : Transfer} :
      engine.transfer? torrent = some transfer →
      later.download.settings = transfer.download.settings →
      later.download.roster = transfer.download.roster →
      Act engine (engine.setTransfer torrent later)
  | outside {engine : Engine} (network : Network) (ready : List Task) (now : Nat) :
      Act engine { engine with network := network, ready := ready, now := now }

/-! What becomes of the torrents. -/

/-- How long a torrent has been managed, and what it sees. No stream of candidates is open between
two acts, for candidates are taken in one. -/
def tenure (engine : Engine) (torrent : Nat) (fresh : Download) : Tenure :=
  ⟨engine.manages torrent, 0, engine.reception torrent fresh⟩

theorem Advances.tenured (advances : engine.Advances after) (calm : after.Calm) (torrent : Nat)
    {fresh : Download} (empty : fresh.roster = Roster.empty) :
    ReflTransGen Tenure.Step (engine.tenure torrent fresh) (after.tenure torrent fresh) := by
  rw [tenure, tenure, advances.manages]
  exact Tenure.run_of_allowed (advances.steps calm torrent fresh empty)

/-- A torrent that comes later was seen as the fresh one that it is then. -/
theorem reception_append (engine : Engine) (transfer : Transfer)
    (registry : List (Digest × Nat)) (number : Nat) (fresh : Download) :
    Engine.reception { engine with
      transfers := engine.transfers ++ [transfer], registry := registry } number fresh =
        engine.reception number
          (if number = engine.transfers.length then transfer.download else fresh) := by
  simp only [reception, transfer?, List.getElem?_append]
  split
  · rename_i inside
    rw [if_neg (Nat.ne_of_lt inside), List.getElem?_eq_getElem inside]
  · rename_i outside
    rw [List.getElem?_eq_none (Nat.le_of_not_lt outside), List.getElem?_singleton]
    by_cases here : number = engine.transfers.length
    · rw [if_pos (by omega), if_pos here]
      rfl
    · rw [if_neg (by omega), if_neg here]

/-- One that comes was as good as managed before. -/
theorem manages_append (engine : Engine) (transfer : Transfer) (hash : Digest) (number : Nat) :
    Engine.manages { engine with
      transfers := engine.transfers ++ [transfer]
      registry := engine.registry ++ [(hash, engine.transfers.length)] } number =
        engine.manages number := by
  simp only [manages, List.length_append, List.length_singleton, List.map_append, List.map_cons,
    List.map_nil, List.mem_append, List.mem_singleton, decide_eq_decide]
  by_cases listed : number ∈ engine.registry.map (·.2)
  · exact iff_of_true (.inr (.inl listed)) (.inr listed)
  · simp only [listed, false_or, or_false]
    omega

theorem download_startSampler (transfer : Transfer) (now : Nat) :
    (transfer.startSampler now).download = transfer.download := by
  unfold Transfer.startSampler
  split <;> rfl

/-- No torrent is managed under a hash any more. -/
def unlist (engine : Engine) (hash : Digest) : Engine :=
  { engine with registry := engine.registry.filter (·.1 ≠ hash) }

theorem remove_eq {hash : Digest} {number : Nat} (found : engine.find? hash = some number) :
    (engine.remove hash).1 = (engine.unlist hash).shutdown number := by
  simp only [Engine.remove, found, unlist]

theorem remove_unknown {hash : Digest} (absent : engine.find? hash = none) :
    (engine.remove hash).1 = engine := by
  simp only [Engine.remove, absent]

theorem find?_remove (engine : Engine) (hash : Digest) :
    (engine.remove hash).1.find? hash = none := by
  cases found : engine.find? hash with
  | none => rw [remove_unknown found, found]
  | some number =>
    have registry : ((engine.unlist hash).shutdown number).registry =
        engine.registry.filter (·.1 ≠ hash) :=
      congrArg (·.2.2) (shutdown_advances (engine.unlist hash) number).frame
    rw [remove_eq found, Engine.find?, registry, List.lookup_eq_none_iff]
    intro pair member
    have other : pair.1 ≠ hash := of_decide_eq_true (List.mem_filter.mp member).2
    exact bne_iff_ne.mpr (Ne.symm other)

/-- The connections of a torrent are asked to close, and nothing else happens to it. -/
theorem reception_shutdown {torrent : Nat} {transfer : Transfer}
    (mine : engine.transfer? torrent = some transfer) (fresh : Download) :
    (engine.shutdown torrent).reception torrent fresh =
      (engine.reception torrent fresh).withDownload
        (engine.reception torrent fresh).download.shutdown := by
  rw [shutdown, (notifyMailboxes_alike _ _).reception, modifyTransfer_eq mine, reception,
    transfer?_setTransfer mine, download_of_transfer mine]
  rfl

/-- Every torrent that is managed is there, under one hash and one number. -/
structure Hosts (settings : Settings) (ownId : PeerId) (engine : Engine) : Prop where
  configured : engine.settings = settings
  named : engine.ownId = ownId
  inside : ∀ pair ∈ engine.registry, pair.2 < engine.transfers.length
  hashes : (engine.registry.map (·.1)).Nodup
  numbers : (engine.registry.map (·.2)).Nodup

/-- An engine that hosts torrents becomes another one, and each torrent goes through a tenure,
unless a link is stopped by force. Whichever torrent is to have a number later, there was one to
begin with. -/
structure Continues (settings : Settings) (ownId : PeerId) (before after : Engine) : Prop where
  hosts : after.Hosts settings ownId
  calm : after.Calm → before.Calm
  tenures : after.Calm → ∀ (number : Nat) (torrent : Torrent), ∃ own,
    ReflTransGen Tenure.Step (before.tenure number (.new own settings ownId []))
      (after.tenure number (.new torrent settings ownId []))

namespace Hosts

variable {settings : Settings} {ownId : PeerId} {number : Nat} {hash : Digest}

theorem continues (hosts : engine.Hosts settings ownId) :
    Continues settings ownId engine engine :=
  ⟨hosts, id, fun _ _ torrent => ⟨torrent, .refl⟩⟩

theorem advances (hosts : engine.Hosts settings ownId) (advances : engine.Advances after) :
    Continues settings ownId engine after where
  hosts := by
    have registry : after.registry = engine.registry := congrArg (·.2.2) advances.frame
    refine ⟨(congrArg (·.1) advances.frame).trans hosts.configured,
      (congrArg (·.2.1) advances.frame).trans hosts.named, ?_, ?_, ?_⟩ <;> rw [registry]
    · rw [advances.count]
      exact hosts.inside
    · exact hosts.hashes
    · exact hosts.numbers
  calm := advances.calm
  tenures := fun calm number torrent => ⟨torrent, advances.tenured calm number rfl⟩

theorem register (hosts : engine.Hosts settings ownId) {torrent : Torrent} {store : MemoryStore}
    (registered : engine.register torrent store = .ok (after, number)) :
    Continues settings ownId engine after := by
  unfold Engine.register at registered
  split at registered
  · cases registered
  · rename_i unknown
    cases registered
    refine ⟨⟨hosts.configured, hosts.named, ?_, ?_, ?_⟩, id, ?_⟩
    · intro pair member
      rw [List.length_append]
      rcases List.mem_append.mp member with old | new
      · exact Nat.lt_add_right 1 (hosts.inside pair old)
      · cases List.mem_singleton.mp new
        exact Nat.lt_add_one _
    · rw [List.map_append]
      refine hosts.hashes.append (List.nodup_singleton _) (List.disjoint_singleton.mpr ?_)
      intro listed
      obtain ⟨pair, member, same⟩ := List.mem_map.mp listed
      have other := List.lookup_eq_none_iff.mp unknown pair member
      rw [same, bne_self_eq_false] at other
      cases other
    · rw [List.map_append]
      refine hosts.numbers.append (List.nodup_singleton _) (List.disjoint_singleton.mpr ?_)
      intro listed
      obtain ⟨pair, member, same⟩ := List.mem_map.mp listed
      exact absurd same (Nat.ne_of_lt (hosts.inside pair member))
    · intro calm number other
      rw [tenure, manages_append, reception_append, download_startSampler, Transfer.new,
        hosts.configured, hosts.named]
      split
      · exact ⟨torrent, .refl⟩
      · exact ⟨other, .refl⟩

/-- No other torrent is removed with one. -/
theorem mem_numbers_unlist (hosts : engine.Hosts settings ownId)
    (found : engine.find? hash = some number) (index : Nat) :
    index ∈ (engine.unlist hash).registry.map (·.2) ↔
      index ∈ engine.registry.map (·.2) ∧ index ≠ number := by
  have here := mem_registry_of_find? found
  simp only [unlist, List.mem_map, List.mem_filter, decide_eq_true_eq]
  constructor
  · rintro ⟨pair, ⟨member, different⟩, rfl⟩
    refine ⟨⟨pair, member, rfl⟩, fun same => different ?_⟩
    rw [List.inj_on_of_nodup_map hosts.numbers member here same]
  · rintro ⟨⟨pair, member, rfl⟩, different⟩
    refine ⟨pair, ⟨member, fun same => different ?_⟩, rfl⟩
    rw [List.inj_on_of_nodup_map hosts.hashes member here same]

/-- The one that is removed is not managed any more, and all others are as before. -/
theorem manages_unlist (hosts : engine.Hosts settings ownId)
    (found : engine.find? hash = some number) (index : Nat) :
    (engine.unlist hash).manages index = (engine.manages index && decide (index ≠ number)) := by
  have inside := hosts.inside _ (mem_registry_of_find? found)
  rw [manages, manages, ← Bool.decide_and, decide_eq_decide, hosts.mem_numbers_unlist found]
  change engine.transfers.length ≤ index ∨ _ ↔ _
  constructor
  · rintro (beyond | ⟨listed, different⟩)
    · exact ⟨.inl beyond, Nat.ne_of_gt (Nat.lt_of_lt_of_le inside beyond)⟩
    · exact ⟨.inr listed, different⟩
  · rintro ⟨beyond | listed, different⟩
    · exact .inl beyond
    · exact .inr ⟨listed, different⟩

/-- The tenure of a torrent that is removed ends. -/
theorem tenure_remove (hosts : engine.Hosts settings ownId)
    (found : engine.find? hash = some number) (fresh : Download) :
    (engine.remove hash).1.tenure number fresh = (engine.tenure number fresh).remove := by
  have mine : (engine.unlist hash).transfer? number = some _ :=
    List.getElem?_eq_getElem (hosts.inside _ (mem_registry_of_find? found))
  have gone : (engine.unlist hash).manages number = false := by
    rw [hosts.manages_unlist found, decide_eq_false (not_not_intro rfl), Bool.and_false]
  rw [remove_eq found, tenure, (shutdown_advances _ number).manages, gone,
    reception_shutdown mine]
  rfl

/-- A torrent that is removed is still there for the links that work on it. -/
theorem transfer_remove (hosts : engine.Hosts settings ownId)
    (found : engine.find? hash = some number) (fresh : Download) :
    ∃ transfer, (engine.remove hash).1.transfer? number = some transfer ∧
      transfer.download = (engine.tenure number fresh).remove.reception.download := by
  have inside : number < (engine.remove hash).1.transfers.length := by
    rw [remove_eq found, (shutdown_advances _ number).count]
    exact hosts.inside _ (mem_registry_of_find? found)
  have there : (engine.remove hash).1.transfer? number = some _ := List.getElem?_eq_getElem inside
  refine ⟨_, there, ?_⟩
  rw [← hosts.tenure_remove found fresh]
  exact (download_of_transfer there fresh).symm

theorem remove (hosts : engine.Hosts settings ownId) (hash : Digest) :
    Continues settings ownId engine (engine.remove hash).1 := by
  cases found : engine.find? hash with
  | none =>
    rw [remove_unknown found]
    exact hosts.continues
  | some number =>
    have fewer : (engine.unlist hash).Hosts settings ownId :=
      ⟨hosts.configured, hosts.named,
        fun pair member => hosts.inside pair (List.mem_of_mem_filter member),
        hosts.hashes.sublist (List.filter_sublist.map _),
        hosts.numbers.sublist (List.filter_sublist.map _)⟩
    have advances := shutdown_advances (engine.unlist hash) number
    rw [← remove_eq found] at advances
    refine ⟨(fewer.advances advances).hosts, advances.calm, fun calm index torrent =>
      ⟨torrent, ?_⟩⟩
    by_cases mine : index = number
    · subst mine
      rw [hosts.tenure_remove found]
      exact .single (.removes (manages_of_find? found))
    · have others := advances.tenured calm index
        (show (Download.new torrent settings ownId []).roster = Roster.empty from rfl)
      rw [tenure, hosts.manages_unlist found, decide_eq_true mine, Bool.and_true] at others
      exact others

theorem act (hosts : engine.Hosts settings ownId) (act : engine.Act after) :
    Continues settings ownId engine after := by
  cases act with
  | registers registered => exact hosts.register registered
  | removes hash => exact hosts.remove hash
  | connects hash address =>
    refine hosts.advances (connect_advances address fun {number} found => ?_)
    exact ⟨_, List.getElem?_eq_getElem (hosts.inside _ (mem_registry_of_find? found))⟩
  | takes taken => exact hosts.advances (addPeers_advances taken)
  | runs task => exact hosts.advances (engine.poll_advances task)
  | elapses duration => exact hosts.advances (engine.elapse_advances duration)
  | rests => exact hosts.advances engine.quiesce_advances
  | changes mine settings roster =>
    refine hosts.advances (.of_transfer mine rfl rfl rfl ?_)
    rintro ⟨_, attempts⟩ rfl
    exact .single (.of_still (.changes _ settings roster) rfl)
  | outside network ready now => exact hosts.advances (Alike.advances ⟨rfl, rfl, rfl⟩)

/-- Act by act, every torrent goes on with its tenure. -/
theorem run (hosts : engine.Hosts settings ownId) (run : ReflTransGen Act engine after) :
    Continues settings ownId engine after := by
  induction run with
  | refl => exact hosts.continues
  | tail _ act ih =>
    have next := ih.hosts.act act
    refine ⟨next.hosts, ih.calm ∘ next.calm, fun calm number torrent => ?_⟩
    obtain ⟨middle, later⟩ := next.tenures calm number torrent
    obtain ⟨own, earlier⟩ := ih.tenures (next.calm calm) number middle
    exact ⟨own, earlier.trans later⟩

end Hosts

variable {settings : Settings} {ownId : PeerId} {start : Engine}

theorem new_hosts (begun : Engine.new settings ownId = .ok start) :
    start.Hosts settings ownId := by
  unfold Engine.new at begun
  split at begun <;> cases begun
  exact ⟨rfl, rfl, nofun, List.nodup_nil, List.nodup_nil⟩

theorem new_tenure (begun : Engine.new settings ownId = .ok start) (number : Nat)
    (torrent : Torrent) : start.tenure number (.new torrent settings ownId []) =
      .start torrent settings ownId [] := by
  unfold Engine.new at begun
  split at begun <;> cases begun
  rfl

/-- However an engine has come to be what it is, each of its torrents has gone through a tenure and
is managed if the registry says so, unless a link was stopped by force. -/
theorem run_tenured (begun : Engine.new settings ownId = .ok start)
    (run : ReflTransGen Act start engine) (calm : engine.Calm) {number : Nat}
    {transfer : Transfer} (there : engine.transfer? number = some transfer) : ∃ torrent,
      ReflTransGen Tenure.Step (.start torrent settings ownId [])
        ⟨decide (number ∈ engine.registry.map (·.2)), 0, ⟨transfer.download,
          engine.links.map fun link => link.stage.attempt link.address number⟩⟩ := by
  have continues := (new_hosts begun).run run
  obtain ⟨torrent, run⟩ := continues.tenures calm number transfer.download.torrent
  have inside : ¬engine.transfers.length ≤ number :=
    Nat.not_le.mpr (List.getElem?_eq_some_iff.mp there).1
  rw [new_tenure begun, tenure, manages, reception, there] at run
  simp only [inside, false_or] at run
  exact ⟨torrent, run⟩

/-- However an engine has come to be what it is, what each of its torrents sees is a run of a
reception, unless a link was stopped by force. -/
theorem run_receives (begun : Engine.new settings ownId = .ok start)
    (run : ReflTransGen Act start engine) (calm : engine.Calm) {number : Nat}
    {transfer : Transfer} (there : engine.transfer? number = some transfer) : ∃ torrent,
      ReflTransGen Reception.Step (.start torrent settings ownId []) ⟨transfer.download,
        engine.links.map fun link => link.stage.attempt link.address number⟩ := by
  obtain ⟨torrent, run⟩ := run_tenured begun run calm there
  exact ⟨torrent, Tenure.run_receives run⟩

/-- Who is known to a torrent of an engine is being called for it or has exactly one link that runs
for it, and every such link is known under its mailbox. -/
theorem run_mirrored (begun : Engine.new settings ownId = .ok start)
    (run : ReflTransGen Act start engine) (calm : engine.Calm) {number : Nat}
    {transfer : Transfer} (there : engine.transfer? number = some transfer) :
    (∀ address, (address, none) ∈ transfer.download.roster.lines →
      ∃ link ∈ engine.links, link.address = address ∧ link.stage.Calls number) ∧
    (∀ address mailbox, (address, some mailbox) ∈ transfer.download.roster.lines ↔
      ∃ link ∈ engine.links,
        link.stage.attempt link.address number = .live address mailbox) ∧
    ∀ (first second : Nat) (left right : Link) (address : Address) (mailbox other : Nat),
      engine.link? first = some left → engine.link? second = some right →
      left.stage.attempt left.address number = .live address mailbox →
      right.stage.attempt right.address number = .live address other → first = second := by
  obtain ⟨torrent, received⟩ := run_receives begun run calm there
  obtain ⟨housed, dialled⟩ := Reception.run_housed received
  refine ⟨?_, ?_, ?_⟩
  · intro address member
    obtain ⟨attempt, mapped, dials⟩ := dialled address member
    obtain ⟨link, linked, rfl⟩ := List.mem_map.mp mapped
    exact ⟨link, linked, Stage.calls_of_dials dials⟩
  · intro address mailbox
    refine ⟨fun member => List.mem_map.mp (housed.lived member), fun live => ?_⟩
    exact (housed.held (List.mem_map.mpr live)).1
  · intro first second left right address mailbox other one two mine yours
    exact housed.alone
      ((attempt_of_link one number transfer.download).trans (congrArg some mine))
      ((attempt_of_link two number transfer.download).trans (congrArg some yours))

end Engine

end BitTorrent
