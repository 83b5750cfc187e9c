import BitTorrent.Proofs.Reception

/-!
The limit on connections. It is looked at when an attempt is admitted, and not when the attempt is
registered: attempts that wait side by side do not see one another. The main statement says by how
much the connections can exceed the limit, and that they can.
-/

set_option autoImplicit false

namespace BitTorrent

open Relation (ReflTransGen)

namespace Roster

variable {roster after : Roster} {address : Address}

theorem connectedCount_eq (roster : Roster) :
    roster.connectedCount = roster.lines.countP (·.2.isSome) := by
  rw [lines, List.countP_map]
  rfl

theorem connectedCount_le (fewer : after.lines.Sublist roster.lines) :
    after.connectedCount ≤ roster.connectedCount := by
  rw [connectedCount_eq, connectedCount_eq]
  exact fewer.countP_le

theorem connectedCount_add (roster : Roster) (address : Address) (peerId : Option PeerId)
    (source : PeerSource) :
    (roster.add address peerId source).1.connectedCount = roster.connectedCount := by
  rw [connectedCount_eq, connectedCount_eq, lines_add]
  split
  · rfl
  · rw [List.countP_append]
    rfl

/-- To give a mailbox to the one line of an address that has none. -/
theorem countP_named {lines : List (Address × Option Nat)} (distinct : (lines.map (·.1)).Nodup)
    (vacant : (address, none) ∈ lines) (mailbox : Nat) :
    (lines.map fun line => if line.1 = address then (line.1, some mailbox) else line).countP
      (·.2.isSome) = lines.countP (·.2.isSome) + 1 := by
  obtain ⟨front, back, rfl⟩ := List.append_of_mem vacant
  rw [List.map_append, List.map_cons, List.nodup_middle, List.nodup_cons,
    ← List.map_append] at distinct
  have others : ∀ {part : List (Address × Option Nat)}, part ⊆ front ++ back →
      (part.map fun line => if line.1 = address then (line.1, some mailbox) else line) = part := by
    intro part inside
    refine (List.map_congr_left fun line member => if_neg ?_).trans (List.map_id part)
    rintro rfl
    exact distinct.1 (List.mem_map.mpr ⟨line, inside member, rfl⟩)
  rw [List.map_append, List.map_cons, others (List.subset_append_left _ _),
    others (List.subset_append_right _ _)]
  simp only [↓reduceIte, List.countP_append, List.countP_cons, Option.isSome_some,
    Option.isSome_none, Bool.false_eq_true, Nat.add_zero, Nat.add_assoc]

/-- A registration is one more connection. -/
theorem Orderly.connectedCount_attach (orderly : roster.Orderly) {peerId : PeerId}
    {source : PeerSource} {mailbox : Nat}
    (attached : roster.attach address peerId source = .ok (after, mailbox)) :
    after.connectedCount = roster.connectedCount + 1 := by
  have known := orderly.add address (some peerId) source
  obtain ⟨-, box, present⟩ := roster.mem_lines_add address (some peerId) source
  have vacant : box = none := by
    cases box with
    | none => rfl
    | some number =>
      have connected := known.isConnected present
      rw [isConnected_add, (attach_ok attached).1] at connected
      cases connected
  rw [← roster.connectedCount_add address (some peerId) source, connectedCount_eq,
    connectedCount_eq, (attach_lines attached).2.2]
  exact countP_named known.addresses (vacant ▸ present) mailbox

end Roster

theorem Download.checkAdmission_ok {download : Download} {address : Address}
    (admitted : download.checkAdmission address = .ok ()) :
    download.roster.isConnected address = false ∧
      download.roster.connectedCount < download.settings.maxConnections := by
  unfold checkAdmission at admitted
  split at admitted
  · cases admitted
  · rename_i free
    split at admitted
    · cases admitted
    · rename_i room
      exact ⟨Bool.eq_false_iff.mpr free, Nat.not_le.mp room⟩

namespace Reception

/-- How many attempts are admitted and not registered yet. -/
def pending (reception : Reception) : Nat :=
  reception.attempts.countP (·.admitted?.isSome)

/-- A step behind which at most `overlap` attempts are between admission and registration. -/
def Paced (overlap : Nat) (before after : Reception) : Prop :=
  before.Step after ∧ after.pending ≤ overlap

variable {reception : Reception} {number overlap : Nat} {before after : Attempt}

theorem pending_begin (idle : after.admitted? = none) :
    (reception.begin after).pending = reception.pending := by
  rw [pending, begin, List.countP_append, List.countP_singleton, idle]
  rfl

theorem pending_put (there : reception.attempts[number]? = some before) :
    (reception.put number after).pending + (if before.admitted?.isSome then 1 else 0) =
      reception.pending + (if after.admitted?.isSome then 1 else 0) := by
  obtain ⟨inside, same⟩ := List.getElem?_eq_some_iff.mp there
  rw [pending, put, List.countP_set inside, same, pending]
  have counted : (if before.admitted?.isSome then 1 else 0) ≤
      reception.attempts.countP (·.admitted?.isSome) := by
    split
    · rename_i admitted
      exact List.countP_pos_iff.mpr ⟨before, List.mem_of_getElem? there, admitted⟩
    · exact Nat.zero_le _
  omega

theorem Step.settings {later : Reception} (step : reception.Step later) :
    later.download.settings = reception.download.settings := by
  cases step with
  | works there performed => exact (Worker.perform_stands performed).settings
  | @leaves _ worker _ _ parted =>
    rw [parted]
    exact (worker.turn reception.download).unassign_pursues.stands.settings
  | changes download settings roster => exact settings
  | _ => rfl

/-- What is neither dialling nor answering is not pending. -/
theorem pending_put_le (there : reception.attempts[number]? = some before)
    (idle : after.admitted? = none) : (reception.put number after).pending ≤ reception.pending := by
  have counted := @pending_put reception number before after there
  rw [idle] at counted
  exact Nat.le_of_add_right_le (Nat.le_of_eq counted)

/-- Connections and pending attempts together become more only when an attempt is admitted, and then
the limit is not reached. -/
theorem Step.balance {later : Reception} (step : reception.Step later)
    (housed : reception.Housed) :
    later.roster.connectedCount + later.pending ≤
        reception.roster.connectedCount + reception.pending ∨
      later.roster.connectedCount < reception.download.settings.maxConnections := by
  cases step with
  | connects address | takes address =>
    left
    rw [pending_begin rfl]
    exact Nat.add_le_add_right (Nat.le_of_eq (Roster.connectedCount_add _ _ _ _)) _
  | recalls address =>
    exact .inl (Nat.add_le_add_right (Nat.le_of_eq (Roster.connectedCount_add _ _ _ _)) _)
  | declines address peerId =>
    left
    refine Nat.add_le_add_right ?_ _
    rw [← reception.roster.connectedCount_add address peerId .tracker]
    exact Roster.connectedCount_le (Roster.lines_forget_sublist _ _)
  | accepts | ignores =>
    left
    rw [pending_begin rfl]
    exact Nat.le_refl _
  | dials there admitted | answers there admitted =>
    exact .inr (Download.checkAdmission_ok admitted).2
  | fails there dials =>
    exact .inl (Nat.add_le_add (Roster.connectedCount_le (Roster.lines_forget_sublist _ _))
      (pending_put_le there rfl))
  | drops there unheard => exact .inl (Nat.add_le_add_left (pending_put_le there rfl) _)
  | @attaches number attempt address source roster mailbox peerId there admitted attached =>
    left
    have more := housed.orderly.connectedCount_attach attached
    have counted := @pending_put (reception.withRoster roster) number attempt
      (.live address mailbox) there
    rw [admitted] at counted
    change roster.connectedCount + _ ≤ _
    rw [more, Nat.add_assoc, Nat.add_comm 1]
    exact Nat.add_le_add_left (Nat.le_of_eq counted) _
  | works there performed =>
    have same := (Worker.perform_stands performed).roster.lines
    exact .inl (Nat.add_le_add_right (Roster.connectedCount_le (same ▸ List.Sublist.refl _)) _)
  | @leaves number worker parted there same =>
    left
    refine Nat.add_le_add (Roster.connectedCount_le ?_) (pending_put_le there rfl)
    change parted.roster.lines.Sublist _
    rw [same, Turn.lines_onDisconnect]
    exact List.filter_sublist
  | closes =>
    have same := Roster.lines_broadcast reception.roster .disconnect
    exact .inl (Nat.add_le_add_right (Roster.connectedCount_le (same ▸ List.Sublist.refl _)) _)
  | changes download settings roster =>
    exact .inl (Nat.add_le_add_right (Nat.le_of_eq (congrArg Roster.connectedCount roster)) _)

/-- The limit can be exceeded by no more than the attempts that wait side by side. -/
theorem run_bounded {torrent : Torrent} {settings : Settings} {ownId : PeerId} {draws : List Nat}
    (run : ReflTransGen (Paced overlap) (start torrent settings ownId draws) reception) :
    reception.Housed ∧ reception.download.settings = settings ∧
      reception.roster.connectedCount + reception.pending ≤
        settings.maxConnections + overlap - 1 := by
  induction run with
  | refl => exact ⟨start_housed torrent settings ownId draws, rfl, Nat.zero_le _⟩
  | tail _ paced ih =>
    obtain ⟨housed, same, bound⟩ := ih
    obtain ⟨step, few⟩ := paced
    refine ⟨step.housed housed, step.settings.trans same, ?_⟩
    rcases step.balance housed with kept | free
    · exact Nat.le_trans kept bound
    · rw [same] at free
      omega

/-! The bound is met: attempts that are admitted side by side are all registered. -/

/-- Those who are known are all connected, and no attempt is pending. -/
structure Gathered (settings : Settings) (known : List Address) (reception : Reception) :
    Prop where
  orderly : reception.roster.Orderly
  settings : reception.download.settings = settings
  idle : reception.pending = 0
  counted : reception.roster.connectedCount = known.length
  listed : ∀ line ∈ reception.roster.lines, line.1 ∈ known

/-- More accepted streams that are admitted and wait. -/
def answering (reception : Reception) (addresses : List Address) : Reception :=
  { reception with attempts := reception.attempts ++ addresses.map .answering }

theorem pending_answering (reception : Reception) (addresses : List Address) :
    (reception.answering addresses).pending = reception.pending + addresses.length := by
  rw [pending, answering, List.countP_append, List.countP_map, pending]
  exact congrArg _ (List.countP_eq_length.mpr fun _ _ => rfl)

/-- Streams are accepted and admitted one after the other. -/
theorem admits (addresses : List Address) (reception : Reception)
    (free : ∀ address ∈ addresses, reception.download.checkAdmission address = .ok ())
    (room : reception.pending + addresses.length ≤ overlap) :
    ReflTransGen (Paced overlap) reception (reception.answering addresses) := by
  induction addresses generalizing reception with
  | nil =>
    rw [answering, List.map_nil, List.append_nil]
  | cons address rest ih =>
    rw [List.length_cons] at room
    have more := reception.pending_answering [address]
    rw [List.length_singleton] at more
    have accepted : Paced overlap reception (reception.begin (.accepted address)) := by
      refine ⟨.accepts address, ?_⟩
      rw [pending_begin rfl]
      omega
    have there : (reception.begin (.accepted address)).attempts[reception.attempts.length]? =
        some (.accepted address) := List.getElem?_concat_length
    have same : (reception.begin (.accepted address)).put reception.attempts.length
        (.answering address) = reception.answering [address] := by
      simp [begin, put, answering]
    have answered : Paced overlap (reception.begin (.accepted address))
        (reception.answering [address]) := by
      refine ⟨same ▸ .answers there (free address List.mem_cons_self), ?_⟩
      rw [more]
      omega
    have later := ih (reception.answering [address])
      (fun other member => free other (List.mem_cons_of_mem _ member)) (by rw [more]; omega)
    rw [answering, answering, List.append_assoc] at later
    exact .head accepted (.head answered later)

/-- Whoever is unknown can be registered. -/
theorem attach_unknown {address : Address} (unknown : address ∉ reception.roster.lines.map (·.1))
    (peerId : PeerId) (source : PeerSource) :
    reception.roster.isConnected address = false ∧ ∃ roster mailbox,
      reception.roster.attach address peerId source = .ok (roster, mailbox) := by
  have free : reception.roster.isConnected address = false := by
    rw [Roster.isConnected, Roster.find?_eq_none.mpr unknown]
  refine ⟨free, ?_⟩
  cases attached : reception.roster.attach address peerId source with
  | ok registered => exact ⟨_, _, rfl⟩
  | error fault =>
    rw [Roster.attach, free] at attached
    cases attached

/-- Streams that were admitted are registered one after the other. -/
theorem registers {settings : Settings} (peerId : PeerId) (addresses : List Address)
    {known : List Address} {front : List Attempt} {reception : Reception}
    (attempts : reception.attempts = front ++ addresses.map .answering)
    (idle : front.countP (·.admitted?.isSome) = 0) (few : reception.pending ≤ overlap)
    (orderly : reception.roster.Orderly) (same : reception.download.settings = settings)
    (counted : reception.roster.connectedCount = known.length)
    (listed : ∀ line ∈ reception.roster.lines, line.1 ∈ known)
    (distinct : (known ++ addresses).Nodup) :
    ∃ later, ReflTransGen (Paced overlap) reception later ∧
      later.Gathered settings (known ++ addresses) := by
  induction addresses generalizing known front reception with
  | nil =>
    rw [List.map_nil, List.append_nil] at attempts
    rw [List.append_nil]
    exact ⟨reception, .refl, orderly, same, by rw [pending, attempts, idle], counted, listed⟩
  | cons address rest ih =>
    have unknown : address ∉ reception.roster.lines.map (·.1) := by
      intro member
      obtain ⟨line, inside, rfl⟩ := List.mem_map.mp member
      exact (List.nodup_append'.mp distinct).2.2 (listed line inside) List.mem_cons_self
    obtain ⟨-, roster, mailbox, attached⟩ := attach_unknown unknown peerId .incoming
    have there : reception.attempts[front.length]? = some (.answering address) := by
      rw [attempts, List.getElem?_append_right (Nat.le_refl _), Nat.sub_self]
      rfl
    have step := @Step.attaches _ _ _ _ _ _ _ peerId there rfl attached
    have fewer := Nat.le_trans (@pending_put_le (reception.withRoster roster) front.length
      (.answering address) (.live address mailbox) there rfl) few
    have next := @ih (known ++ [address]) (front ++ [.live address mailbox])
      ((reception.withRoster roster).put front.length (.live address mailbox)) ?_ ?_ fewer
      (orderly.attach attached).1 same ?_ ?_ ?_
    · obtain ⟨later, run, gathered⟩ := next
      rw [List.append_assoc] at gathered
      exact ⟨later, .head ⟨step, fewer⟩ run, gathered⟩
    · change reception.attempts.set front.length (.live address mailbox) = _
      rw [attempts]
      simp
    · rw [List.countP_append, idle]
      rfl
    · change roster.connectedCount = _
      rw [orderly.connectedCount_attach attached, counted, List.length_append]
      rfl
    · rintro ⟨other, box⟩ member
      rcases Roster.mem_lines_attach attached member with ⟨rfl, -⟩ | ⟨-, old⟩
      · exact List.mem_append_right _ (List.mem_singleton_self _)
      · exact List.mem_append_left _ (listed _ old)
    · rw [List.append_assoc]
      exact distinct

/-- As long as the limit is not reached, any number of newcomers gets through side by side. -/
theorem Gathered.wave {settings : Settings} {known : List Address} (peerId : PeerId)
    (gathered : reception.Gathered settings known) {addresses : List Address}
    (below : known.length < settings.maxConnections) (few : addresses.length ≤ overlap)
    (distinct : (known ++ addresses).Nodup) :
    ∃ later, ReflTransGen (Paced overlap) reception later ∧
      later.Gathered settings (known ++ addresses) := by
  have free : ∀ address ∈ addresses, reception.download.checkAdmission address = .ok () := by
    intro address member
    have unknown : address ∉ reception.roster.lines.map (·.1) := by
      intro inside
      obtain ⟨line, listed, rfl⟩ := List.mem_map.mp inside
      exact (List.nodup_append'.mp distinct).2.2 (gathered.listed line listed) member
    have counted : reception.download.roster.connectedCount = known.length := gathered.counted
    have free : reception.download.roster.isConnected address = false :=
      (attach_unknown unknown peerId .incoming).1
    rw [Download.checkAdmission, free, counted, gathered.settings]
    simp only [Bool.false_eq_true, ↓reduceIte, if_neg (Nat.not_le.mpr below)]
  have admitted : ReflTransGen (Paced overlap) reception (reception.answering addresses) :=
    admits addresses reception free (by rw [gathered.idle]; omega)
  have waiting : (reception.answering addresses).pending ≤ overlap := by
    rw [pending_answering, gathered.idle]
    omega
  obtain ⟨later, run, all⟩ := registers peerId addresses rfl gathered.idle waiting
    gathered.orderly gathered.settings gathered.counted gathered.listed distinct
  exact ⟨later, admitted.trans run, all⟩

/-- Newcomers that come one after the other get through up to the limit. -/
theorem Gathered.row {settings : Settings} {known : List Address} (peerId : PeerId)
    {addresses : List Address} (gathered : reception.Gathered settings known) (some_ : 0 < overlap)
    (below : (known ++ addresses).length ≤ settings.maxConnections)
    (distinct : (known ++ addresses).Nodup) :
    ∃ later, ReflTransGen (Paced overlap) reception later ∧
      later.Gathered settings (known ++ addresses) := by
  induction addresses generalizing known reception with
  | nil => exact ⟨reception, .refl, (List.append_nil known).symm ▸ gathered⟩
  | cons address rest ih =>
    rw [← List.singleton_append, ← List.append_assoc] at below distinct
    have room : known.length < settings.maxConnections := by
      simp only [List.length_append, List.length_singleton] at below
      omega
    obtain ⟨middle, first, more⟩ := gathered.wave peerId room some_ distinct.of_append_left
    obtain ⟨later, second, all⟩ := ih more below distinct
    rw [List.append_assoc] at all
    exact ⟨later, first.trans second, all⟩

/-- Newcomers up to one below the limit, and then as many as may wait side by side. -/
theorem run_full {torrent : Torrent} {settings : Settings} {ownId : PeerId} {draws : List Nat}
    (peerId : PeerId) {addresses : List Address} (distinct : addresses.Nodup)
    (open_ : 0 < settings.maxConnections) (some_ : 0 < overlap)
    (count : addresses.length = settings.maxConnections + overlap - 1) :
    ∃ reception, ReflTransGen (Paced overlap) (start torrent settings ownId draws) reception ∧
      reception.roster.connectedCount = addresses.length := by
  have empty : (start torrent settings ownId draws).Gathered settings [] :=
    ⟨Roster.empty_orderly, rfl, rfl, rfl, nofun⟩
  have split := List.take_append_drop (settings.maxConnections - 1) addresses
  have front : (addresses.take (settings.maxConnections - 1)).length =
      settings.maxConnections - 1 := by
    rw [List.length_take]
    omega
  have back : (addresses.drop (settings.maxConnections - 1)).length = overlap := by
    rw [List.length_drop]
    omega
  generalize addresses.take (settings.maxConnections - 1) = early at split front
  generalize addresses.drop (settings.maxConnections - 1) = late at split back
  subst split
  obtain ⟨middle, first, below⟩ : ∃ middle,
      ReflTransGen (Paced overlap) (start torrent settings ownId draws) middle ∧
        middle.Gathered settings ([] ++ early) :=
    empty.row peerId some_ (by rw [List.nil_append, front]; omega) distinct.of_append_left
  rw [List.nil_append] at below
  obtain ⟨later, second, all⟩ : ∃ later, ReflTransGen (Paced overlap) middle later ∧
      later.Gathered settings (early ++ late) :=
    below.wave peerId (by rw [front]; omega) (Nat.le_of_eq back) distinct
  exact ⟨later, first.trans second, all.counted⟩

end Reception

/-- However connections come about: with at most `overlap` attempts at a time between admission and
registration, connections and such attempts together never exceed the limit and `overlap - 1`; so
the limit holds if every attempt is registered or has failed before the next one is admitted.
Otherwise it does not: that many connections there can be, for the limit is not looked at again
when an attempt is registered. -/
theorem run_ceiling (torrent : Torrent) (settings : Settings) (ownId : PeerId) (draws : List Nat)
    (overlap : Nat) :
    (∀ reception, ReflTransGen (Reception.Paced overlap)
        (.start torrent settings ownId draws) reception →
      reception.roster.connectedCount + reception.pending ≤
        settings.maxConnections + overlap - 1) ∧
    ∀ addresses : List Address, addresses.Nodup → 0 < settings.maxConnections → 0 < overlap →
      addresses.length = settings.maxConnections + overlap - 1 →
      ∃ reception, ReflTransGen (Reception.Paced overlap)
          (.start torrent settings ownId draws) reception ∧
        reception.roster.connectedCount = addresses.length :=
  ⟨fun _ run => (Reception.run_bounded run).2.2, fun _ distinct open_ some_ count =>
    Reception.run_full ownId distinct open_ some_ count⟩

/-- Two connections under a limit of one, and a third attempt is not admitted any more. -/
theorem run_ceiling_abreast : ∃ reception : Reception,
    ReflTransGen (Reception.Paced 2)
      (.start Sample.torrent { maxConnections := 1 } Sample.peerId []) reception ∧
    reception.roster.connectedCount = 2 ∧ 2 + reception.pending ≤ 2 := by
  obtain ⟨bounded, reached⟩ :=
    run_ceiling Sample.torrent { maxConnections := 1 } Sample.peerId [] 2
  obtain ⟨reception, run, count⟩ :=
    reached [Sample.first, Sample.second] (by decide) (by decide) (by decide) rfl
  have counted : reception.roster.connectedCount = 2 := count
  have bound := bounded reception run
  rw [counted] at bound
  exact ⟨reception, run, counted, bound⟩

end BitTorrent
