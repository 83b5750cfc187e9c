import BitTorrent.Proofs.Standing

/-!
How the connections of one torrent come about and end. Calls, candidates and accepted streams are
attempts; an attempt goes on until it has to wait for its other side, and meanwhile the others do
what they like. Whoever is known to the torrent is being dialled or has exactly one connection.
-/

set_option autoImplicit false

namespace BitTorrent

open Relation (ReflTransGen)

/-- An attempt to connect, and what comes of it. A called one is known to the torrent and not
admitted yet, and an accepted one has still to say which torrent it wants. Those that dial or answer
are admitted and wait for the other side. A live one is registered, with its mailbox, and has not
taken its leave yet. What is past has nothing to do with the torrent, or no longer. -/
inductive Attempt where
  | called (address : Address) (source : PeerSource)
  | dialling (address : Address) (source : PeerSource)
  | accepted (address : Address)
  | answering (address : Address)
  | live (address : Address) (mailbox : Nat)
  | past
  deriving DecidableEq, Repr

namespace Attempt

/-- The address that a dial in progress goes to. -/
def dials? : Attempt → Option Address
  | called address _ | dialling address _ => some address
  | _ => none

/-- Whom an attempt will register that was admitted and is not registered yet. -/
def admitted? : Attempt → Option (Address × PeerSource)
  | dialling address source => some (address, source)
  | answering address => some (address, .incoming)
  | _ => none

def isLive : Attempt → Bool
  | live .. => true
  | _ => false

end Attempt

/-- A torrent and all attempts so far. -/
structure Reception where
  download : Download
  attempts : List Attempt

namespace Reception

/-- Nobody is known yet. -/
def start (torrent : Torrent) (settings : Settings) (ownId : PeerId) (draws : List Nat) :
    Reception where
  download := Download.new torrent settings ownId draws
  attempts := []

def roster (reception : Reception) : Roster :=
  reception.download.roster

def withDownload (reception : Reception) (download : Download) : Reception :=
  { reception with download := download }

def withRoster (reception : Reception) (roster : Roster) : Reception :=
  reception.withDownload (reception.download.withRoster roster)

/-- Somebody becomes known. -/
def know (reception : Reception) (address : Address) (peerId : Option PeerId)
    (source : PeerSource) : Reception :=
  reception.withRoster (reception.roster.add address peerId source).1

/-- Somebody who is not connected is forgotten. -/
def forget (reception : Reception) (address : Address) : Reception :=
  reception.withRoster (reception.roster.forget address).1

/-- One more attempt. -/
def begin (reception : Reception) (attempt : Attempt) : Reception :=
  { reception with attempts := reception.attempts ++ [attempt] }

/-- What becomes of an attempt. -/
def put (reception : Reception) (number : Nat) (attempt : Attempt) : Reception :=
  { reception with attempts := reception.attempts.set number attempt }

/-- What happens between two waits of anybody. A candidate that is known already is left alone, and
one that is not admitted is forgotten again. A dial that fails, for whatever reason, is forgotten,
and what was accepted is just dropped. A connection runs its handlers, one wait at a time and
whatever state its session is in, and takes its leave at some time. -/
inductive Step : Reception → Reception → Prop
  | connects {reception : Reception} (address : Address) :
      Step reception ((reception.know address none .manual).begin (.called address .manual))
  | recalls {reception : Reception} (address : Address) (peerId : Option PeerId) :
      (reception.roster.add address peerId .tracker).2 = false →
      Step reception (reception.know address peerId .tracker)
  | declines {reception : Reception} (address : Address) (peerId : Option PeerId)
      (fault : PeerFault) :
      (reception.roster.add address peerId .tracker).2 = true →
      reception.download.checkAdmission address = .error fault →
      Step reception ((reception.know address peerId .tracker).forget address)
  | takes {reception : Reception} (address : Address) (peerId : Option PeerId) :
      (reception.roster.add address peerId .tracker).2 = true →
      reception.download.checkAdmission address = .ok () →
      Step reception ((reception.know address peerId .tracker).begin (.called address .tracker))
  | accepts {reception : Reception} (address : Address) :
      Step reception (reception.begin (.accepted address))
  | ignores {reception : Reception} : Step reception (reception.begin .past)
  | dials {reception : Reception} {number : Nat} {address : Address} {source : PeerSource} :
      reception.attempts[number]? = some (.called address source) →
      reception.download.checkAdmission address = .ok () →
      Step reception (reception.put number (.dialling address source))
  | answers {reception : Reception} {number : Nat} {address : Address} :
      reception.attempts[number]? = some (.accepted address) →
      reception.download.checkAdmission address = .ok () →
      Step reception (reception.put number (.answering address))
  | fails {reception : Reception} {number : Nat} {attempt : Attempt} {address : Address} :
      reception.attempts[number]? = some attempt → attempt.dials? = some address →
      Step reception ((reception.forget address).put number .past)
  | drops {reception : Reception} {number : Nat} {attempt : Attempt} {address : Address} :
      reception.attempts[number]? = some attempt →
      attempt = .accepted address ∨ attempt = .answering address →
      Step reception (reception.put number .past)
  | attaches {reception : Reception} {number : Nat} {attempt : Attempt} {address : Address}
      {source : PeerSource} {roster : Roster} {mailbox : Nat} (peerId : PeerId) :
      reception.attempts[number]? = some attempt → attempt.admitted? = some (address, source) →
      reception.roster.attach address peerId source = .ok (roster, mailbox) →
      Step reception ((reception.withRoster roster).put number (.live address mailbox))
  | works {reception : Reception} {number : Nat} {worker : Worker} {deed : Deed} {turn : Turn}
      {next : Next} :
      reception.attempts[number]? = some (.live worker.address worker.mailbox) →
      worker.perform reception.download deed = some (turn, next) →
      Step reception (reception.withDownload turn.download)
  | leaves {reception : Reception} {number : Nat} {worker : Worker} {parted : Download} :
      reception.attempts[number]? = some (.live worker.address worker.mailbox) →
      parted = (worker.turn reception.download).onDisconnect.download →
      Step reception ((reception.withDownload
        (parted.withRoster (parted.roster.close worker.mailbox))).put number .past)
  | closes {reception : Reception} : Step reception (reception.withDownload
      reception.download.shutdown)
  | changes {reception : Reception} (download : Download) :
      download.settings = reception.download.settings → download.roster = reception.roster →
      Step reception (reception.withDownload download)

/-- Every entry with a mailbox is that of one connection, which holds the mailbox open, and every
connection has such an entry. -/
structure Housed (reception : Reception) : Prop where
  orderly : reception.roster.Orderly
  lived : ∀ {address mailbox}, (address, some mailbox) ∈ reception.roster.lines →
    .live address mailbox ∈ reception.attempts
  held : ∀ {address mailbox}, .live address mailbox ∈ reception.attempts →
    (address, some mailbox) ∈ reception.roster.lines ∧ reception.roster.takes mailbox = true
  alone : ∀ {first second : Nat} {address : Address} {mailbox other : Nat},
    reception.attempts[first]? = some (.live address mailbox) →
    reception.attempts[second]? = some (.live address other) → first = second

/-- Every entry without a mailbox is that of an address that is being dialled. -/
def Dialled (reception : Reception) : Prop :=
  ∀ address, (address, none) ∈ reception.roster.lines →
    ∃ attempt ∈ reception.attempts, attempt.dials? = some address

variable {reception : Reception} {number : Nat} {before after : Attempt}

/-! What becomes of one attempt does not concern the others. -/

theorem mem_put {attempt : Attempt} (there : reception.attempts[number]? = some before)
    (member : attempt ∈ reception.attempts) (other : attempt ≠ before) :
    attempt ∈ (reception.put number after).attempts := by
  obtain ⟨index, found⟩ := List.mem_iff_getElem?.mp member
  have apart : number ≠ index := by
    rintro rfl
    exact other (Option.some.inj (found.symm.trans there))
  exact List.mem_iff_getElem?.mpr ⟨index, (List.getElem?_set_ne apart).trans found⟩

theorem live_of_put {index mailbox : Nat} {address : Address} (gone : after.isLive = false)
    (found : (reception.put number after).attempts[index]? = some (.live address mailbox)) :
    index ≠ number ∧ reception.attempts[index]? = some (.live address mailbox) := by
  by_cases same : number = index
  · subst same
    rw [put, List.getElem?_set] at found
    simp only [↓reduceIte] at found
    split at found
    · cases found
      cases gone
    · cases found
  · exact ⟨Ne.symm same, (List.getElem?_set_ne same).symm.trans found⟩

theorem live_of_begin {index mailbox : Nat} {address : Address} (idle : after.isLive = false)
    (found : (reception.begin after).attempts[index]? = some (.live address mailbox)) :
    reception.attempts[index]? = some (.live address mailbox) := by
  rw [begin, List.getElem?_append] at found
  split at found
  · exact found
  · rw [List.getElem?_singleton] at found
    split at found
    · cases found
      cases idle
    · cases found

theorem mem_begin_live {mailbox : Nat} {address : Address} (idle : after.isLive = false) :
    .live address mailbox ∈ (reception.begin after).attempts ↔
      .live address mailbox ∈ reception.attempts := by
  refine ⟨fun member => ?_, fun member => List.mem_append_left _ member⟩
  obtain ⟨index, found⟩ := List.mem_iff_getElem?.mp member
  exact List.mem_iff_getElem?.mpr ⟨index, live_of_begin idle found⟩

theorem mem_put_live {mailbox : Nat} {address : Address}
    (there : reception.attempts[number]? = some before) (idle : before.isLive = false)
    (still : after.isLive = false) :
    .live address mailbox ∈ (reception.put number after).attempts ↔
      .live address mailbox ∈ reception.attempts := by
  refine ⟨fun member => ?_, fun member => mem_put there member ?_⟩
  · obtain ⟨index, found⟩ := List.mem_iff_getElem?.mp member
    exact List.mem_iff_getElem?.mpr ⟨index, (live_of_put still found).2⟩
  · rintro rfl
    cases idle

theorem getElem?_put (there : reception.attempts[number]? = some before) :
    (reception.put number after).attempts[number]? = some after :=
  List.getElem?_set_self (List.getElem?_eq_some_iff.mp there).1

theorem put_self (there : reception.attempts[number]? = some before) :
    reception.put number before = reception := by
  obtain ⟨download, attempts⟩ := reception
  obtain ⟨inside, same⟩ := List.getElem?_eq_some_iff.mp there
  simp only [put, ← same, List.set_getElem_self]

theorem put_put (reception : Reception) (number : Nat) (first second : Attempt) :
    (reception.put number first).put number second = reception.put number second :=
  congrArg (Reception.mk _) (List.set_set _)

/-- Nothing comes of an attempt that is past. -/
theorem put_past {step : Reception → Reception → Prop}
    (there : reception.attempts[number]? = some .past) :
    ReflTransGen step reception (reception.put number .past) := by
  rw [put_self there]

namespace Housed

/-- Neither who is connected nor who takes commands changes. -/
theorem stands (housed : reception.Housed) {download : Download}
    (stands : reception.roster.Stands download.roster) :
    (reception.withDownload download).Housed where
  orderly := housed.orderly.fewer (stands.lines ▸ List.Sublist.refl _)
    (Nat.le_of_eq stands.length.symm)
  lived := fun member => housed.lived (stands.lines ▸ member)
  held := by
    intro address mailbox member
    obtain ⟨lined, takes⟩ := housed.held member
    exact ⟨stands.lines.symm ▸ lined, (stands.takes mailbox).trans takes⟩
  alone := housed.alone

theorem know (housed : reception.Housed) (address : Address) (peerId : Option PeerId)
    (source : PeerSource) : (reception.know address peerId source).Housed where
  orderly := housed.orderly.add address peerId source
  lived := by
    intro other mailbox member
    change (other, some mailbox) ∈ (reception.roster.add address peerId source).1.lines at member
    rw [Roster.lines_add] at member
    split at member
    · exact housed.lived member
    · rcases List.mem_append.mp member with old | new
      · exact housed.lived old
      · cases List.mem_singleton.mp new
  held := by
    intro other mailbox member
    obtain ⟨lined, takes⟩ := housed.held member
    exact ⟨(reception.roster.mem_lines_add address peerId source).1 _ lined,
      (Roster.takes_congr (Roster.mailboxes_add _ _ _ _) mailbox).trans takes⟩
  alone := housed.alone

theorem forget (housed : reception.Housed) (address : Address) :
    (reception.forget address).Housed where
  orderly := housed.orderly.forget address
  lived := fun member => housed.lived (housed.orderly.mem_lines_forget.mp member).1
  held := by
    intro other mailbox member
    obtain ⟨lined, takes⟩ := housed.held member
    exact ⟨housed.orderly.mem_lines_forget.mpr ⟨lined, fun _ => nofun⟩,
      (Roster.takes_congr (Roster.mailboxes_forget _ _) mailbox).trans takes⟩
  alone := housed.alone

theorem begin (housed : reception.Housed) (idle : after.isLive = false) :
    (reception.begin after).Housed where
  orderly := housed.orderly
  lived := fun member => (mem_begin_live idle).mpr (housed.lived member)
  held := fun member => housed.held ((mem_begin_live idle).mp member)
  alone := fun left right => housed.alone (live_of_begin idle left) (live_of_begin idle right)

theorem put (housed : reception.Housed) (there : reception.attempts[number]? = some before)
    (idle : before.isLive = false) (still : after.isLive = false) :
    (reception.put number after).Housed where
  orderly := housed.orderly
  lived := fun member => (mem_put_live there idle still).mpr (housed.lived member)
  held := fun member => housed.held ((mem_put_live there idle still).mp member)
  alone := fun left right => housed.alone (live_of_put still left).2 (live_of_put still right).2

/-- Whoever is registered was not connected, and gets a mailbox that nobody has. -/
theorem attach (housed : reception.Housed) (there : reception.attempts[number]? = some before)
    (idle : before.isLive = false) {address : Address} {source : PeerSource} {peerId : PeerId}
    {roster : Roster} {mailbox : Nat}
    (attached : reception.roster.attach address peerId source = .ok (roster, mailbox)) :
    ((reception.withRoster roster).put number (.live address mailbox)).Housed := by
  obtain ⟨orderly, mine, others⟩ := housed.orderly.attach attached
  obtain ⟨rfl, boxes, -⟩ := Roster.attach_lines attached
  have vacant : ∀ {box}, .live address box ∉ reception.attempts := by
    intro box member
    have connected := housed.orderly.isConnected (housed.held member).1
    rw [(Roster.attach_ok attached).1] at connected
    cases connected
  have here : ((reception.withRoster roster).put number
      (.live address reception.roster.mailboxes.length)).attempts[number]? =
        some (.live address reception.roster.mailboxes.length) := getElem?_put there
  have found : ∀ {index other box},
      ((reception.withRoster roster).put number
        (.live address reception.roster.mailboxes.length)).attempts[index]? =
          some (.live other box) →
      (index = number ∧ other = address ∧ box = reception.roster.mailboxes.length) ∨
        reception.attempts[index]? = some (.live other box) := by
    intro index other box found
    by_cases same : number = index
    · subst same
      cases here.symm.trans found
      exact .inl ⟨rfl, rfl, rfl⟩
    · exact .inr ((List.getElem?_set_ne same).symm.trans found)
  refine ⟨orderly, ?_, ?_, ?_⟩
  · intro other box member
    rcases Roster.mem_lines_attach attached member with ⟨rfl, same⟩ | ⟨-, earlier⟩
    · cases same
      exact List.mem_of_getElem? here
    · refine mem_put there (housed.lived earlier) ?_
      rintro rfl
      cases idle
  · intro other box member
    obtain ⟨index, located⟩ := List.mem_iff_getElem?.mp member
    rcases found located with ⟨-, rfl, rfl⟩ | earlier
    · exact ⟨mine, Roster.takes_newest boxes⟩
    · have old := List.mem_of_getElem? earlier
      obtain ⟨lined, takes⟩ := housed.held old
      refine ⟨others ?_ lined,
        (Roster.takes_grown boxes (housed.orderly.inside lined)).trans takes⟩
      rintro rfl
      exact vacant old
  · intro first second other box another left right
    rcases found left with ⟨rfl, rfl, -⟩ | before <;> rcases found right with ⟨rfl, mine, -⟩ | after
    · rfl
    · exact absurd (List.mem_of_getElem? after) vacant
    · exact absurd (List.mem_of_getElem? (mine ▸ before)) vacant
    · exact housed.alone before after

/-- Who leaves takes its entry along and closes its mailbox, and no other. -/
theorem leave (housed : reception.Housed) {worker : Worker} {parted : Download}
    (there : reception.attempts[number]? = some (.live worker.address worker.mailbox))
    (leaves : parted = (worker.turn reception.download).onDisconnect.download) :
    ((reception.withDownload (parted.withRoster (parted.roster.close worker.mailbox))).put number
      .past).Housed := by
  have lines : parted.roster.lines = reception.roster.lines.filter (·.1 ≠ worker.address) := by
    rw [leaves]
    exact Turn.lines_onDisconnect _
  have boxes : parted.roster.mailboxes = reception.roster.mailboxes := by
    rw [leaves]
    exact (worker.turn reception.download).onDisconnect_quiet.mailboxes
  have own := (housed.held (List.mem_of_getElem? there)).1
  have remains : ∀ {other box}, (other, box) ∈ parted.roster.lines ↔
      (other, box) ∈ reception.roster.lines ∧ other ≠ worker.address := by
    intro other box
    rw [lines, List.mem_filter, decide_eq_true_eq]
  refine ⟨?_, ?_, ?_, ?_⟩
  · refine housed.orderly.fewer ?_ (Nat.le_of_eq ?_)
    · change parted.roster.lines.Sublist _
      rw [lines]
      exact List.filter_sublist
    · rw [← boxes]
      exact (List.length_modify _ _ _).symm
  · intro other box member
    obtain ⟨lined, different⟩ := remains.mp member
    refine mem_put there (housed.lived lined) ?_
    rintro same
    cases same
    exact different rfl
  · intro other box member
    obtain ⟨index, located⟩ := List.mem_iff_getElem?.mp member
    obtain ⟨apart, earlier⟩ := live_of_put rfl located
    obtain ⟨lined, takes⟩ := housed.held (List.mem_of_getElem? earlier)
    have different : other ≠ worker.address := by
      rintro rfl
      exact apart (housed.alone earlier there)
    refine ⟨remains.mpr ⟨lined, different⟩, ?_⟩
    have elsewhere : box ≠ worker.mailbox := by
      rintro rfl
      exact different (housed.orderly.owner lined own)
    exact ((Roster.takes_close elsewhere).trans (Roster.takes_congr boxes _)).trans takes
  · exact fun left right => housed.alone (live_of_put rfl left).2 (live_of_put rfl right).2

end Housed

namespace Dialled

theorem fewer (dialled : reception.Dialled) {download : Download}
    (fewer : ∀ {address}, (address, none) ∈ download.roster.lines →
      (address, none) ∈ reception.roster.lines) : (reception.withDownload download).Dialled :=
  fun address member => dialled address (fewer member)

theorem begin (dialled : reception.Dialled) (attempt : Attempt) :
    (reception.begin attempt).Dialled := by
  intro address member
  obtain ⟨dial, there, goes⟩ := dialled address member
  exact ⟨dial, List.mem_append_left _ there, goes⟩

/-- Somebody becomes known who is being dialled. -/
theorem know (dialled : reception.Dialled) {attempt : Attempt} {address : Address}
    (there : attempt ∈ reception.attempts) (dials : attempt.dials? = some address)
    (peerId : Option PeerId) (source : PeerSource) :
    (reception.know address peerId source).Dialled := by
  intro other member
  change (other, none) ∈ (reception.roster.add address peerId source).1.lines at member
  rw [Roster.lines_add] at member
  split at member
  · exact dialled other member
  · rcases List.mem_append.mp member with old | new
    · exact dialled other old
    · cases List.mem_singleton.mp new
      exact ⟨attempt, there, dials⟩

/-- A dial in progress goes on, or has no entry any more that would need it. -/
theorem put (dialled : reception.Dialled) (there : reception.attempts[number]? = some before)
    (kept : ∀ {address}, before.dials? = some address →
      (address, none) ∈ reception.roster.lines → after.dials? = some address) :
    (reception.put number after).Dialled := by
  intro address member
  obtain ⟨dial, old, dials⟩ := dialled address member
  by_cases same : dial = before
  · subst same
    exact ⟨after, List.mem_of_getElem? (getElem?_put there), kept dials member⟩
  · exact ⟨dial, mem_put there old same, dials⟩

end Dialled

theorem not_isLive_of_dials {address : Address} (dials : before.dials? = some address) :
    before.isLive = false := by
  cases before <;> first | rfl | cases dials

theorem not_isLive_of_admitted {pair : Address × PeerSource}
    (admitted : before.admitted? = some pair) : before.isLive = false := by
  cases before <;> first | rfl | cases admitted

theorem dials_of_admitted {address other : Address} {source : PeerSource}
    (admitted : before.admitted? = some (address, source)) (dials : before.dials? = some other) :
    other = address := by
  cases before with
  | dialling =>
    cases admitted
    cases dials
    rfl
  | answering => cases dials
  | called | accepted | live | past => cases admitted

/-- An address that is not fresh has a line already. -/
theorem lines_know_of_known {address : Address} {peerId : Option PeerId} {source : PeerSource}
    (known : (reception.roster.add address peerId source).2 = false) :
    (reception.know address peerId source).roster.lines = reception.roster.lines := by
  have present : address ∈ reception.roster.lines.map (·.1) := by
    by_contra unknown
    rw [Roster.add, Roster.find?_eq_none.mpr unknown] at known
    cases known
  exact (Roster.lines_add _ _ _ _).trans (if_pos present)

theorem Step.housed {later : Reception} (step : reception.Step later)
    (housed : reception.Housed) : later.Housed := by
  cases step with
  | connects address | takes address => exact (housed.know address _ _).begin rfl
  | recalls address => exact housed.know address _ _
  | declines address => exact (housed.know address _ _).forget address
  | accepts | ignores => exact housed.begin rfl
  | dials there | answers there => exact housed.put there rfl rfl
  | fails there dials => exact (housed.forget _).put there (not_isLive_of_dials dials) rfl
  | drops there unheard =>
    refine housed.put there ?_ rfl
    rcases unheard with rfl | rfl <;> rfl
  | attaches peerId there admitted attached =>
    exact housed.attach there (not_isLive_of_admitted admitted) attached
  | works there performed => exact housed.stands (Worker.perform_stands performed).roster
  | leaves there parted => exact housed.leave there parted
  | closes => exact housed.stands (Roster.broadcast_stands _ _)
  | changes download settings roster => exact housed.stands (roster ▸ .refl _)

theorem Step.dialled {later : Reception} (step : reception.Step later)
    (housed : reception.Housed) (dialled : reception.Dialled) : later.Dialled := by
  cases step with
  | connects address =>
    exact (dialled.begin (.called address .manual)).know
      (List.mem_append_right _ (List.mem_singleton_self _)) rfl none .manual
  | takes address peerId =>
    exact (dialled.begin (.called address .tracker)).know
      (List.mem_append_right _ (List.mem_singleton_self _)) rfl peerId .tracker
  | recalls address peerId known =>
    exact dialled.fewer fun member => lines_know_of_known known ▸ member
  | declines address peerId =>
    -- Only the line that was just added is without a dial, and that one is taken away again.
    refine dialled.fewer fun member => ?_
    have known := (housed.know address peerId .tracker).orderly
    obtain ⟨lined, other⟩ := known.mem_lines_forget.mp member
    change _ ∈ (reception.roster.add address peerId .tracker).1.lines at lined
    rw [Roster.lines_add] at lined
    split at lined
    · exact lined
    · rcases List.mem_append.mp lined with old | new
      · exact old
      · cases List.mem_singleton.mp new
        exact absurd rfl (other rfl)
  | accepts | ignores => exact dialled.begin _
  | dials there => exact dialled.put there fun dials _ => dials
  | answers there => exact dialled.put there nofun
  | fails there dials =>
    refine Dialled.put (dialled.fewer fun member => ?_) there ?_
    · exact (housed.orderly.mem_lines_forget.mp member).1
    · intro other same member
      cases dials.symm.trans same
      exact absurd rfl ((housed.orderly.mem_lines_forget.mp member).2 rfl)
  | drops there unheard =>
    refine dialled.put there ?_
    rcases unheard with rfl | rfl <;> exact nofun
  | attaches peerId there admitted attached =>
    refine Dialled.put (dialled.fewer fun member => ?_) there ?_
    · rcases Roster.mem_lines_attach attached member with ⟨-, vacant⟩ | ⟨-, old⟩
      · cases vacant
      · exact old
    · intro other same member
      rcases Roster.mem_lines_attach attached member with ⟨-, vacant⟩ | ⟨different, -⟩
      · cases vacant
      · exact absurd (dials_of_admitted admitted same) different
  | works there performed =>
    exact dialled.fewer fun member => (Worker.perform_stands performed).roster.lines ▸ member
  | leaves there parted =>
    refine Dialled.put (dialled.fewer fun member => ?_) there nofun
    rw [parted] at member
    exact (List.mem_filter.mp (Turn.lines_onDisconnect _ ▸ member)).1
  | closes => exact dialled.fewer fun member => Roster.lines_broadcast _ _ ▸ member
  | changes download settings roster => exact dialled.fewer fun member => roster ▸ member

theorem start_housed (torrent : Torrent) (settings : Settings) (ownId : PeerId)
    (draws : List Nat) : (start torrent settings ownId draws).Housed :=
  ⟨Roster.empty_orderly, nofun, nofun, nofun⟩

/-- Whatever happens in whatever order, the roster mirrors the attempts. -/
theorem run_housed {torrent : Torrent} {settings : Settings} {ownId : PeerId} {draws : List Nat}
    (run : ReflTransGen Step (start torrent settings ownId draws) reception) :
    reception.Housed ∧ reception.Dialled := by
  induction run with
  | refl => exact ⟨start_housed torrent settings ownId draws, nofun⟩
  | tail _ step ih => exact ⟨step.housed ih.1, step.dialled ih.1 ih.2⟩

end Reception

/-- However calls, candidates, accepted streams and connections interleave at their waits: every
address has one entry; one without a mailbox is being dialled; one with a mailbox has exactly one
connection, which holds the mailbox open and shares neither the address nor the mailbox with any
other; every connection has its entry; and without dials and connections nobody is known. -/
theorem run_mirrors {torrent : Torrent} {settings : Settings} {ownId : PeerId} {draws : List Nat}
    {reception : Reception}
    (run : ReflTransGen Reception.Step (.start torrent settings ownId draws) reception) :
    (reception.roster.lines.map (·.1)).Nodup ∧
    (∀ address, (address, none) ∈ reception.roster.lines →
      ∃ attempt ∈ reception.attempts, attempt.dials? = some address) ∧
    (∀ address mailbox, (address, some mailbox) ∈ reception.roster.lines →
      reception.roster.takes mailbox = true ∧
      ∃ number : Nat, reception.attempts[number]? = some (Attempt.live address mailbox) ∧
        ∀ (other : Nat) (who : Address) (box : Nat),
          reception.attempts[other]? = some (Attempt.live who box) →
          who = address ∨ box = mailbox → other = number) ∧
    (∀ address mailbox, .live address mailbox ∈ reception.attempts →
      (address, some mailbox) ∈ reception.roster.lines) ∧
    ((∀ attempt ∈ reception.attempts, attempt.dials? = none ∧ attempt.isLive = false) →
      reception.roster.entries = []) := by
  obtain ⟨housed, dialled⟩ := Reception.run_housed run
  refine ⟨housed.orderly.addresses, dialled, ?_, fun _ _ live => (housed.held live).1, ?_⟩
  · intro address mailbox lined
    have live := housed.lived lined
    obtain ⟨number, found⟩ := List.mem_iff_getElem?.mp live
    refine ⟨(housed.held live).2, number, found, ?_⟩
    rintro other who box located (rfl | rfl)
    · exact housed.alone located found
    · have same := housed.orderly.owner (housed.held (List.mem_of_getElem? located)).1 lined
      exact housed.alone (same ▸ located) found
  · intro idle
    refine List.map_eq_nil_iff.mp (List.eq_nil_iff_forall_not_mem.mpr ?_ :
      reception.roster.lines = [])
    rintro ⟨address, mailbox | mailbox⟩ member
    · obtain ⟨attempt, there, dials⟩ := dialled address member
      cases (idle attempt there).1.symm.trans dials
    · cases (idle _ (housed.lived member)).2

/-- An address is called while a connection from it comes in, which wins; the call then fails and
leaves the entry alone. Another address is being dialled. -/
theorem run_mirrors_overlap : ∃ reception : Reception,
    ReflTransGen Reception.Step (.start Sample.torrent {} Sample.peerId []) reception ∧
    reception.roster.lines = [(Sample.first, some 0), (Sample.second, none)] ∧
    (∃ attempt ∈ reception.attempts, attempt.dials? = some Sample.second) ∧
    reception.roster.takes 0 = true ∧
    ∃ number : Nat, reception.attempts[number]? = some (Attempt.live Sample.first 0) ∧
      ∀ (other : Nat) (who : Address) (box : Nat),
        reception.attempts[other]? = some (Attempt.live who box) →
        who = Sample.first ∨ box = 0 → other = number := by
  have run : ∃ reception : Reception,
      ReflTransGen Reception.Step (.start Sample.torrent {} Sample.peerId []) reception ∧
      reception.roster.lines = [(Sample.first, some 0), (Sample.second, none)] := by
    refine ⟨_, .tail (.tail (.tail (.tail (.tail (.tail (.tail .refl
      (.connects Sample.first)) (@Reception.Step.dials _ 0 _ _ rfl rfl))
      (.accepts Sample.first)) (@Reception.Step.answers _ 1 _ rfl rfl))
      (@Reception.Step.attaches _ 1 _ _ _ _ _ Sample.peerId rfl rfl rfl))
      (@Reception.Step.fails _ 0 _ _ rfl rfl)) (.takes Sample.second none rfl rfl), ?_⟩
    decide
  obtain ⟨reception, run, lines⟩ := run
  obtain ⟨-, dialled, connected, -, -⟩ := run_mirrors run
  have own : (Sample.first, some 0) ∈ reception.roster.lines := by simp [lines]
  have other : (Sample.second, none) ∈ reception.roster.lines := by simp [lines]
  obtain ⟨takes, held⟩ := connected _ _ own
  exact ⟨reception, run, lines, dialled _ other, takes, held⟩

end BitTorrent
