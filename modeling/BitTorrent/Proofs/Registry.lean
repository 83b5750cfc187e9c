import BitTorrent.Proofs.Roster
import Mathlib.Data.List.Induction

/-!
What a roster is after any series of calls: who is connected, through which mailbox and with which
published pieces follows from the calls since the last registration of an address. A registration
lasts until the address is removed, whatever else is asked for.
-/

set_option autoImplicit false

namespace BitTorrent.Roster

/-! ### Registration with a mailbox of somebody else -/

/-- Makes a mailbox. -/
def opened (roster : Roster) : Roster :=
  { roster with mailboxes := roster.mailboxes ++ [⟨[], true⟩] }

/-- Registers a connection that listens to a certain mailbox. -/
def attachTo (roster : Roster) (address : Address) (peerId : PeerId) (source : PeerSource)
    (number : Nat) : Except PeerFault Roster :=
  if roster.isConnected address then .error (.alreadyConnected address)
  else
    .ok ((roster.add address (some peerId) source).1.modify address fun entry =>
      { entry with peerId := some peerId, mailbox := some number, bitfield := none })

/-! ### Visits -/

variable {σ : Type}

/-- Calls back for one of several peers and counts the outcome. -/
def called (call : σ → PeerEntry → σ × Bool) (state : σ × Delivery) (entry : PeerEntry) :
    σ × Delivery :=
  match call state.1 entry with
  | (after, true) => (after, { state.2 with delivered := state.2.delivered + 1 })
  | (after, false) => (after, { state.2 with failed := state.2.failed + 1 })

/-- Calls back for every connected peer. -/
def visit (roster : Roster) (call : σ → PeerEntry → σ × Bool) (state : σ) : σ × Delivery :=
  roster.connected.foldl (called call) (state, ⟨0, 0⟩)

/-- Tells a peer a command; says whether it was posted. -/
def tell (command : Command) (roster : Roster) (entry : PeerEntry) : Roster × Bool :=
  match roster.send entry command with
  | .ok after => (after, true)
  | .error _ => (roster, false)

/-- The mailbox of an entry takes commands. -/
def reaches (roster : Roster) (entry : PeerEntry) : Bool :=
  entry.mailbox.any roster.takes

/-! ### Calls -/

/-- What a roster can be asked for, or that the owner of a mailbox leaves. -/
inductive Call where
  | add (address : Address) (peerId : Option PeerId) (source : PeerSource)
  | remove (address : Address)
  | attach (address : Address) (peerId : PeerId) (source : PeerSource)
  | attachTo (address : Address) (peerId : PeerId) (source : PeerSource) (number : Nat)
  | forget (address : Address)
  | updateBitfield (address : Address) (field : Bitfield)
  | broadcast (command : Command)
  | disconnectAll
  | close (number : Nat)
  deriving DecidableEq

/-- What a call leaves; a registration that fails leaves all as it is. -/
def step (roster : Roster) : Call → Roster
  | .add address peerId source => (roster.add address peerId source).1
  | .remove address => roster.remove address
  | .attach address peerId source =>
    match roster.attach address peerId source with
    | .ok (after, _) => after
    | .error _ => roster
  | .attachTo address peerId source number =>
    match roster.attachTo address peerId source number with
    | .ok after => after
    | .error _ => roster
  | .forget address => (roster.forget address).1
  | .updateBitfield address field => roster.updateBitfield address field
  | .broadcast command => (roster.broadcast command).1
  | .disconnectAll => roster.disconnectAll.1
  | .close number => roster.close number

/-- A roster that was empty, after one call and the other. -/
def run (calls : List Call) : Roster :=
  calls.foldl step empty

/-- The mailbox that a call registers an address with. -/
def Call.box? (roster : Roster) (address : Address) : Call → Option Nat
  | .attach other _ _ => if other = address then some roster.mailboxes.length else none
  | .attachTo other _ _ number => if other = address then some number else none
  | _ => none

/-- The pieces that a call publishes for an address. -/
def Call.published? (address : Address) : Call → Option Bitfield
  | .updateBitfield other field => if other = address then some field else none
  | _ => none

/-- What was published last for an address. -/
def lastPublished (address : Address) (calls : List Call) : Option Bitfield :=
  (calls.filterMap (·.published? address)).getLast?

/-- Something was begun by one of the calls, and none of those since has stopped it. -/
def Begun (begins : Roster → Call → Prop) (stop : Call) (calls since : List Call) : Prop :=
  ∃ before call, calls = before ++ call :: since ∧ begins (run before) call ∧ stop ∉ since

/-- An address was registered with a mailbox when it was not connected, and it has not been removed
by any of the calls since. -/
def Link (calls : List Call) (address : Address) (number : Nat) (since : List Call) : Prop :=
  Begun (fun roster call =>
    call.box? roster address = some number ∧ roster.isConnected address = false)
    (.remove address) calls since

/-- A mailbox was made for a connection, and its owner has not left. -/
def Alive (calls : List Call) (number : Nat) : Prop :=
  ∃ since, Begun (fun roster call =>
    ∃ address peerId source, call = .attach address peerId source ∧
      roster.isConnected address = false ∧ roster.mailboxes.length = number)
    (.close number) calls since

/-- What holds of a roster whatever it was asked for. -/
structure Lawful (calls : List Call) : Prop where
  keyed : ((run calls).entries.map (·.address)).Nodup ∧ ∀ address entry,
    (run calls).find? address = some entry ↔
      entry ∈ (run calls).entries ∧ entry.address = address
  linked : ∀ address number field,
    (∃ entry, (run calls).find? address = some entry ∧ entry.mailbox = some number ∧
      entry.bitfield = field) ↔
    ∃ since, Link calls address number since ∧ lastPublished address since = field
  lasting : ∀ address entry, (run calls).find? address = some entry →
    entry.isConnected = true → ∀ more, .remove address ∉ more →
      ∃ field, (run (calls ++ more)).find? address = some { entry with bitfield := field }
  refused : ∀ address, (run calls).isConnected address = true → ∀ peerId source number,
    (run calls).attach address peerId source = .error (.alreadyConnected address) ∧
      (run calls).attachTo address peerId source number = .error (.alreadyConnected address) ∧
      run (calls ++ [.attach address peerId source]) = run calls ∧
      run (calls ++ [.attachTo address peerId source number]) = run calls
  admitted : ∀ address, (run calls).isConnected address = false → ∀ peerId source number,
    (∃ after box, (run calls).attach address peerId source = .ok (after, box)) ∧
      ∃ after, (run calls).attachTo address peerId source number = .ok after
  published : ∃ links : List (Address × List Call), (links.map (·.1)).Nodup ∧
    (∀ address since, (address, since) ∈ links ↔ ∃ number, Link calls address number since) ∧
    (run calls).bitfields = links.filterMap fun link => lastPublished link.1 link.2
  visited : ∀ {σ : Type} (call : σ → PeerEntry → σ × Bool) (state : σ),
    ∃ visited : List PeerEntry, (visited.map (·.address)).Nodup ∧
      (∀ address, address ∈ visited.map (·.address) ↔ (run calls).isConnected address = true) ∧
      ((run calls).visit call state).1 =
        visited.foldl (fun state entry => (call state entry).1) state ∧
      ((run calls).visit call state).2.delivered + ((run calls).visit call state).2.failed =
        (run calls).connectedCount
  told : ∀ command, (run calls).broadcast command = (run calls).visit (tell command) (run calls) ∧
    ((run calls).broadcast command).2.delivered =
      (run calls).connected.countP (run calls).reaches ∧
    ∀ number, ((run calls).broadcast command).1.queued number =
      (run calls).queued number ++ List.replicate
        (if (run calls).takes number then (run calls).connected.countP (·.mailbox = some number)
          else 0) command
  alive : ∀ number, (run calls).takes number = true ↔ Alive calls number

/-! ### Single calls -/

variable {roster : Roster} {address other : Address}

theorem attach_eq (roster : Roster) (address : Address) (peerId : PeerId) (source : PeerSource) :
    roster.attach address peerId source =
      (roster.attachTo address peerId source roster.mailboxes.length).map fun after =>
        (after.opened, roster.mailboxes.length) := by
  unfold attach attachTo
  split
  · rfl
  · simp only [Except.map, opened, modify, mailboxes_add]

theorem broadcast_eq_visit (roster : Roster) (command : Command) :
    roster.broadcast command = roster.visit (tell command) roster := by
  have same : deliver command = called (tell command) := by
    funext state entry
    unfold deliver called tell
    cases state.1.send entry command <;> rfl
  rw [broadcast, visit, same]

theorem run_append (calls more : List Call) : run (calls ++ more) = more.foldl step (run calls) :=
  List.foldl_append

theorem run_concat (calls : List Call) (call : Call) :
    run (calls ++ [call]) = (run calls).step call :=
  run_append calls [call]

theorem isConnected_eq_true :
    roster.isConnected address = true ↔
      ∃ entry, roster.find? address = some entry ∧ entry.isConnected = true := by
  unfold isConnected
  cases roster.find? address <;> simp

theorem isConnected_of_mailbox {entry : PeerEntry} {number : Nat}
    (found : roster.find? address = some entry) (mailbox : entry.mailbox = some number) :
    roster.isConnected address = true := by
  rw [isConnected_eq_true]
  exact ⟨entry, found, by rw [PeerEntry.isConnected, mailbox, Option.isSome_some]⟩

theorem find?_congr {first second : Roster} (same : first.entries = second.entries)
    (address : Address) : first.find? address = second.find? address := by
  rw [find?, find?, same]

/-- Who is known keeps its entry when somebody becomes known. -/
theorem find?_add_of_known {entry : PeerEntry} (found : roster.find? other = some entry)
    (peerId : Option PeerId) (source : PeerSource) :
    (roster.add address peerId source).1.find? other =
      some (if entry.address = address then { entry with peerId := entry.peerId <|> peerId }
        else entry) := by
  unfold add
  cases known : roster.find? address with
  | some first =>
    have changed := @find?_modify roster address
      (fun entry => { entry with peerId := entry.peerId <|> peerId }) (fun _ => rfl) other
    rw [found] at changed
    exact changed
  | none =>
    have different : entry.address ≠ address := by
      rw [address_of_find? found]
      rintro rfl
      rw [found] at known
      cases known
    have earlier : roster.entries.find? (·.address = other) = some entry := found
    rw [if_neg different, find?, List.find?_append, earlier]
    rfl

/-- What the registration of an address does: it finds it free, gives it the mailbox, and leaves
everybody else as it is. -/
theorem attachTo_ok {peerId : PeerId} {source : PeerSource} {number : Nat} {after : Roster}
    (attached : roster.attachTo address peerId source number = .ok after) :
    roster.isConnected address = false ∧
      (∃ later, after.find? address = some later ∧ later.peerId = some peerId ∧
        later.mailbox = some number ∧ later.bitfield = none) ∧
      (∀ other ≠ address, after.isConnected other = roster.isConnected other ∧
        ∀ entry, roster.find? other = some entry → after.find? other = some entry) ∧
      after.mailboxes = roster.mailboxes := by
  unfold attachTo at attached
  split at attached
  · cases attached
  rename_i free
  cases attached
  have kept : ∀ entry : PeerEntry,
      { entry with peerId := some peerId, mailbox := some number, bitfield := none }.address =
        entry.address := fun _ => rfl
  refine ⟨by simpa using free, ?_, ?_, mailboxes_add ..⟩
  · obtain ⟨entry, found⟩ := @find?_add roster address (some peerId) source
    rw [find?_modify kept, found, Option.map_some, address_of_find? found, if_pos rfl]
    exact ⟨_, rfl, rfl, rfl, rfl⟩
  · intro other different
    constructor
    · rw [isConnected_modify_of_ne kept different, isConnected_add]
    · intro entry found
      have elsewhere : entry.address ≠ address := address_of_find? found ▸ different
      rw [find?_modify kept, find?_add_of_known found, if_neg elsewhere, Option.map_some,
        if_neg elsewhere]

/-- A registration, be it with a new mailbox or not, either fails or leaves what `attachTo` leaves
of the entries. -/
theorem step_attach (roster : Roster) (address : Address) (peerId : PeerId) (source : PeerSource) :
    (roster.step (.attach address peerId source)).entries =
      (roster.step (.attachTo address peerId source roster.mailboxes.length)).entries := by
  simp only [step, attach_eq]
  cases roster.attachTo address peerId source roster.mailboxes.length <;> rfl

theorem find?_forget {entry : PeerEntry} (found : roster.find? other = some entry)
    (connected : entry.isConnected = true) (address : Address) :
    (roster.forget address).1.find? other = some entry := by
  unfold forget
  cases known : roster.find? address with
  | none => exact found
  | some first =>
    dsimp only
    split
    · exact found
    · rename_i free
      rw [find?_remove, if_neg, found]
      rintro rfl
      rw [found] at known
      cases known
      exact free connected

/-- What one call leaves of the entry of a connected address: all but the pieces that it publishes,
unless the address is removed. -/
theorem find?_step {entry : PeerEntry} (found : roster.find? address = some entry)
    (connected : entry.isConnected = true) (named : entry.peerId.isSome = true) {call : Call}
    (kept : call ≠ .remove address) :
    (roster.step call).find? address =
      some { entry with bitfield := (call.published? address).or entry.bitfield } := by
  have registered : ∀ other peerId source number,
      (roster.step (.attachTo other peerId source number)).find? address = some entry := by
    intro other peerId source number
    simp only [step]
    split
    · rename_i attached
      obtain ⟨free, -, others, -⟩ := attachTo_ok attached
      refine (others address ?_).2 entry found
      rintro rfl
      rw [isConnected_eq_true.mpr ⟨entry, found, connected⟩] at free
      cases free
    · exact found
  cases call with
  | add other peerId source =>
    rw [step, find?_add_of_known found]
    obtain ⟨name, known⟩ := Option.isSome_iff_exists.mp named
    by_cases same : entry.address = other
    · simp [same, known, Call.published?]
    · simp [same, Call.published?]
  | remove other =>
    rw [step, find?_remove, if_neg, found]
    · rfl
    · rintro rfl
      exact kept rfl
  | attach other peerId source =>
    rw [find?_congr (step_attach ..)]
    exact registered ..
  | attachTo other peerId source number => exact registered ..
  | forget other => exact find?_forget found connected other
  | updateBitfield other field =>
    have same : ∀ entry : PeerEntry,
        { entry with bitfield := some field }.address = entry.address := fun _ => rfl
    obtain rfl := address_of_find? found
    rw [step, updateBitfield, find?_modify same, found, Option.map_some]
    by_cases here : entry.address = other
    · simp [here, Call.published?]
    · simp [here, Ne.symm here, Call.published?]
  | broadcast command => exact (find?_congr (entries_broadcast ..) address).trans found
  | disconnectAll => exact (find?_congr (entries_broadcast ..) address).trans found
  | close number => exact found

/-- An address that is free is connected by a registration. -/
theorem find?_step_attached (free : roster.isConnected address = false) {call : Call} {number : Nat}
    (box : call.box? roster address = some number) :
    ∃ later, (roster.step call).find? address = some later ∧ later.peerId.isSome = true ∧
      later.mailbox = some number ∧ later.bitfield = none := by
  have registered : ∀ peerId source number,
      ∃ later, (roster.step (.attachTo address peerId source number)).find? address = some later ∧
        later.peerId.isSome = true ∧ later.mailbox = some number ∧ later.bitfield = none := by
    intro peerId source number
    have attached : ∃ after, roster.attachTo address peerId source number = .ok after := by
      rw [attachTo, free]
      exact ⟨_, rfl⟩
    obtain ⟨after, attached⟩ := attached
    obtain ⟨-, ⟨later, found, name, mailbox, field⟩, -⟩ := attachTo_ok attached
    simp only [step, attached]
    exact ⟨later, found, by rw [name]; rfl, mailbox, field⟩
  cases call with
  | attach other peerId source =>
    simp only [Call.box?, Option.ite_none_right_eq_some, Option.some.injEq] at box
    obtain ⟨rfl, rfl⟩ := box
    rw [find?_congr (step_attach ..)]
    exact registered ..
  | attachTo other peerId source box' =>
    simp only [Call.box?, Option.ite_none_right_eq_some, Option.some.injEq] at box
    obtain ⟨rfl, rfl⟩ := box
    exact registered ..
  | _ => cases box

/-- Nothing but a registration connects an address. -/
theorem isConnected_step (free : roster.isConnected address = false) {call : Call}
    (box : call.box? roster address = none) : (roster.step call).isConnected address = false := by
  have registered : ∀ other ≠ address, ∀ peerId source number,
      (roster.step (.attachTo other peerId source number)).isConnected address = false := by
    intro other different peerId source number
    simp only [step]
    split
    · rename_i attached
      obtain ⟨-, -, others, -⟩ := attachTo_ok attached
      rw [(others address (Ne.symm different)).1, free]
    · exact free
  have removed : ∀ other, (roster.remove other).isConnected address = false := by
    intro other
    by_cases same : address = other
    · rw [isConnected, find?_remove, if_pos same]
    · rw [isConnected_remove same, free]
  cases call with
  | add other peerId source => rw [step, isConnected_add, free]
  | remove other => exact removed other
  | attach other peerId source =>
    rw [isConnected_congr (step_attach ..)]
    simp only [Call.box?, ite_eq_right_iff, reduceCtorEq, imp_false] at box
    exact registered other box ..
  | attachTo other peerId source number =>
    simp only [Call.box?, ite_eq_right_iff, reduceCtorEq, imp_false] at box
    exact registered other box ..
  | forget other =>
    simp only [step, forget]
    split
    · split
      · exact free
      · exact removed other
    · exact free
  | updateBitfield other field => rw [step, isConnected_updateBitfield, free]
  | broadcast command => exact (isConnected_congr (entries_broadcast ..) address).trans free
  | disconnectAll => exact (isConnected_congr (entries_broadcast ..) address).trans free
  | close number => exact free

theorem takes_closed (roster : Roster) (number : Nat) :
    (roster.close number).takes number = false := by
  unfold takes close
  cases found : roster.mailboxes[number]? <;> simp [found]

theorem takes_opened (roster : Roster) (number : Nat) :
    roster.opened.takes number = true ↔
      roster.takes number = true ∨ roster.mailboxes.length = number := by
  rcases Nat.lt_trichotomy number roster.mailboxes.length with old | same | behind
  · rw [takes_grown rfl old]
    have different : roster.mailboxes.length ≠ number := by omega
    simp [different]
  · rw [same, takes_newest rfl]
    simp
  · have absent : ∀ boxes : List Mailbox, boxes.length ≤ number → boxes[number]? = none :=
      fun boxes => List.getElem?_eq_none
    have different : roster.mailboxes.length ≠ number := by omega
    rw [takes, takes, opened, absent _ (by simp; omega), absent _ (by omega)]
    simp [different]

/-- A mailbox takes commands behind a call if it did before and its owner has not left, or if it is
the one that was made for a connection. -/
theorem takes_step (roster : Roster) (call : Call) (number : Nat) :
    (roster.step call).takes number = true ↔
      (roster.takes number = true ∧ call ≠ .close number) ∨
        ∃ address peerId source, call = .attach address peerId source ∧
          roster.isConnected address = false ∧ roster.mailboxes.length = number := by
  cases call with
  | add address peerId source => simp [step, takes, mailboxes_add]
  | remove address => simp [step, remove, takes]
  | attach address peerId source =>
    simp only [step, attach_eq]
    cases attached : roster.attachTo address peerId source roster.mailboxes.length with
    | error fault =>
      have connected : roster.isConnected address = true := by
        unfold attachTo at attached
        by_contra free
        rw [if_neg free] at attached
        cases attached
      simp [Except.map, connected]
    | ok after =>
      obtain ⟨free, -, -, boxes⟩ := attachTo_ok attached
      simp only [Except.map]
      rw [takes_opened, takes_congr boxes, boxes]
      simp [free]
  | attachTo address peerId source box =>
    simp only [step]
    split
    · rename_i attached
      obtain ⟨-, -, -, boxes⟩ := attachTo_ok attached
      simp [takes_congr boxes]
    · simp
  | forget address => simp [step, takes, mailboxes_forget]
  | updateBitfield address field => simp [step, updateBitfield, modify, takes]
  | broadcast command => simp [step, takes_broadcast]
  | disconnectAll => simp [step, disconnectAll, takes_broadcast]
  | close box =>
    by_cases same : box = number
    · simp [step, same, takes_closed]
    · simp [step, same, takes_close (Ne.symm same)]

theorem addresses_eq (roster : Roster) :
    roster.entries.map (·.address) = roster.lines.map (·.1) := by
  rw [lines, List.map_map]
  rfl

theorem addresses_modify {change : PeerEntry → PeerEntry}
    (kept : ∀ entry, (change entry).address = entry.address) :
    (roster.modify address change).lines.map (·.1) = roster.lines.map (·.1) := by
  rw [← addresses_eq, ← addresses_eq, modify, List.map_map]
  apply List.map_congr_left
  intro entry _
  simp only [Function.comp]
  split
  · exact kept entry
  · rfl

theorem addresses_add (distinct : (roster.lines.map (·.1)).Nodup) (address : Address)
    (peerId : Option PeerId) (source : PeerSource) :
    ((roster.add address peerId source).1.lines.map (·.1)).Nodup := by
  rw [lines_add]
  split
  · exact distinct
  · rename_i unknown
    rw [List.map_append, List.map_singleton]
    exact List.nodup_append'.mpr
      ⟨distinct, List.nodup_singleton _, List.disjoint_singleton.mpr unknown⟩

/-- A call keeps every address to one entry at most. -/
theorem addresses_step (distinct : (roster.lines.map (·.1)).Nodup) (call : Call) :
    ((roster.step call).lines.map (·.1)).Nodup := by
  have registered : ∀ address peerId source number,
      ((roster.step (.attachTo address peerId source number)).lines.map (·.1)).Nodup := by
    intro address peerId source number
    simp only [step]
    split
    · rename_i attached
      unfold attachTo at attached
      split at attached
      · cases attached
      · cases attached
        have kept : ∀ entry : PeerEntry,
            { entry with peerId := some peerId, mailbox := some number, bitfield := none }.address =
              entry.address := fun _ => rfl
        rw [addresses_modify kept]
        exact addresses_add distinct address (some peerId) source
    · exact distinct
  have fewer : ∀ {after : Roster}, after.lines.Sublist roster.lines →
      (after.lines.map (·.1)).Nodup := fun sub => distinct.sublist (sub.map _)
  cases call with
  | add address peerId source => exact addresses_add distinct address peerId source
  | remove address =>
    apply fewer
    rw [step, lines_remove]
    exact List.filter_sublist
  | attach address peerId source =>
    rw [← addresses_eq, step_attach, addresses_eq]
    exact registered ..
  | attachTo address peerId source number => exact registered ..
  | forget address => exact fewer (lines_forget_sublist ..)
  | updateBitfield address field =>
    have kept : ∀ entry : PeerEntry,
        { entry with bitfield := some field }.address = entry.address := fun _ => rfl
    rw [step, updateBitfield, addresses_modify kept]
    exact distinct
  | broadcast command =>
    rw [step, lines_broadcast]
    exact distinct
  | disconnectAll =>
    rw [step, disconnectAll, lines_broadcast]
    exact distinct
  | close number => exact distinct

theorem find?_iff (distinct : (roster.lines.map (·.1)).Nodup) {entry : PeerEntry} :
    roster.find? address = some entry ↔ entry ∈ roster.entries ∧ entry.address = address := by
  constructor
  · exact fun found => ⟨List.mem_of_find?_eq_some found, address_of_find? found⟩
  · rintro ⟨inside, rfl⟩
    have known : ∃ other, roster.find? entry.address = some other := by
      rw [← Option.ne_none_iff_exists', ne_eq, find?_eq_none, not_not, ← addresses_eq]
      exact List.mem_map_of_mem inside
    obtain ⟨other, found⟩ := known
    rw [← addresses_eq] at distinct
    rw [found, List.inj_on_of_nodup_map distinct (List.mem_of_find?_eq_some found) inside
      (address_of_find? found)]

/-! ### Visits -/

/-- Whoever is visited is counted once. -/
theorem foldl_called (call : σ → PeerEntry → σ × Bool) (entries : List PeerEntry)
    (state : σ × Delivery) :
    (entries.foldl (called call) state).1 =
        entries.foldl (fun state entry => (call state entry).1) state.1 ∧
      (entries.foldl (called call) state).2.delivered +
          (entries.foldl (called call) state).2.failed =
        state.2.delivered + state.2.failed + entries.length := by
  induction entries generalizing state with
  | nil => exact ⟨rfl, rfl⟩
  | cons entry rest ih =>
    obtain ⟨states, counts⟩ := ih (called call state entry)
    have here : (called call state entry).1 = (call state.1 entry).1 := by
      unfold called
      split <;> simp_all
    have one : (called call state entry).2.delivered + (called call state entry).2.failed =
        state.2.delivered + state.2.failed + 1 := by
      unfold called
      split <;> simp only <;> omega
    rw [List.foldl_cons, List.foldl_cons, states, here, List.length_cons]
    exact ⟨rfl, by omega⟩

/-- A command reaches whom it is sent to if the mailbox takes commands, once for each entry. -/
theorem foldl_deliver (command : Command) (entries : List PeerEntry) (state : Roster × Delivery) :
    (entries.foldl (deliver command) state).2.delivered =
        state.2.delivered + entries.countP state.1.reaches ∧
      ∀ number, (entries.foldl (deliver command) state).1.queued number =
        state.1.queued number ++ List.replicate
          (if state.1.takes number then entries.countP (·.mailbox = some number) else 0)
          command := by
  induction entries generalizing state with
  | nil => simp
  | cons entry rest ih =>
    obtain ⟨counts, queues⟩ := ih (deliver command state entry)
    have takes : (deliver command state entry).1.takes = state.1.takes := by
      funext box
      exact takes_deliver command state entry box
    have reaches : (deliver command state entry).1.reaches = state.1.reaches := by
      funext entry
      rw [Roster.reaches, Roster.reaches, takes]
    rw [List.foldl_cons, counts, reaches, List.countP_cons]
    constructor
    · have one : (deliver command state entry).2.delivered =
          state.2.delivered + if state.1.reaches entry then 1 else 0 := by
        unfold deliver send Roster.reaches
        cases entry.mailbox with
        | none => rfl
        | some number => cases isOpen : state.1.takes number <;> simp [isOpen]
      omega
    · intro number
      rw [queues, takes, queued_deliver, List.countP_cons]
      by_cases mine : entry.mailbox = some number
      · cases isOpen : state.1.takes number with
        | true => simp [mine, List.replicate_succ]
        | false => simp
      · simp [mine]

/-! ### Runs -/

/-- Every address has one entry, and whoever is connected has said its name. -/
structure Settled (roster : Roster) : Prop where
  addresses : (roster.lines.map (·.1)).Nodup
  named : ∀ address entry, roster.find? address = some entry → entry.isConnected = true →
    entry.peerId.isSome = true

/-- Whether a registration connects an address or none does decides what is found there. -/
theorem Settled.step (settled : roster.Settled) (call : Call) : (roster.step call).Settled where
  addresses := addresses_step settled.addresses call
  named := by
    intro address later found connected
    by_cases before : roster.isConnected address = true
    · obtain ⟨entry, known, there⟩ := isConnected_eq_true.mp before
      have name := settled.named address entry known there
      by_cases removed : call = .remove address
      · subst removed
        rw [Roster.step, find?_remove, if_pos rfl] at found
        cases found
      · rw [find?_step known there name removed] at found
        cases found
        exact name
    · have free : roster.isConnected address = false := by simpa using before
      cases box : call.box? roster address with
      | none =>
        have still := isConnected_step free box
        rw [isConnected_eq_true.mpr ⟨later, found, connected⟩] at still
        cases still
      | some number =>
        obtain ⟨other, same, name, -⟩ := find?_step_attached free box
        rw [found] at same
        cases same
        exact name

theorem settled_run (calls : List Call) : (run calls).Settled := by
  induction calls using List.reverseRecOn with
  | nil => exact ⟨List.nodup_nil, nofun⟩
  | append_singleton calls call ih =>
    rw [run_concat]
    exact ih.step call

/-- What was begun goes on with every call but one, or is begun by the last call. -/
theorem begun_concat {begins : Roster → Call → Prop} {stop call : Call} {calls since : List Call} :
    Begun begins stop (calls ++ [call]) since ↔
      (∃ earlier, since = earlier ++ [call] ∧ Begun begins stop calls earlier ∧ call ≠ stop) ∨
        (since = [] ∧ begins (run calls) call) := by
  constructor
  · rintro ⟨before, first, same, begun, going⟩
    rcases List.eq_nil_or_concat since with rfl | ⟨earlier, last, rfl⟩
    · obtain ⟨rfl, one⟩ := List.append_inj' same rfl
      cases one
      exact Or.inr ⟨rfl, begun⟩
    · rw [List.concat_eq_append] at same going ⊢
      rw [← List.cons_append, ← List.append_assoc] at same
      obtain ⟨rfl, one⟩ := List.append_inj' same rfl
      cases one
      simp only [List.mem_append, List.mem_singleton, not_or] at going
      exact Or.inl ⟨earlier, rfl, ⟨before, first, rfl, begun, going.1⟩, Ne.symm going.2⟩
  · rintro (⟨earlier, rfl, ⟨before, first, rfl, begun, going⟩, different⟩ | ⟨rfl, begun⟩)
    · refine ⟨before, first, by simp, begun, ?_⟩
      simpa [going] using Ne.symm different
    · exact ⟨calls, call, rfl, begun, List.not_mem_nil⟩

theorem link_concat {calls : List Call} {call : Call} {number : Nat} {since : List Call} :
    Link (calls ++ [call]) address number since ↔
      (∃ earlier, since = earlier ++ [call] ∧ Link calls address number earlier ∧
          call ≠ .remove address) ∨
        (since = [] ∧ call.box? (run calls) address = some number ∧
          (run calls).isConnected address = false) :=
  begun_concat

theorem not_begun_nil {begins : Roster → Call → Prop} {stop : Call} {since : List Call} :
    ¬ Begun begins stop [] since := by
  rintro ⟨before, call, same, -⟩
  simp at same

theorem lastPublished_concat (address : Address) (calls : List Call) (call : Call) :
    lastPublished address (calls ++ [call]) =
      (call.published? address).or (lastPublished address calls) := by
  rw [lastPublished, lastPublished, List.filterMap_append, List.getLast?_append]
  congr 1
  cases published : call.published? address with
  | none => rw [List.filterMap_cons_none published]; rfl
  | some field => rw [List.filterMap_cons_some published]; rfl

/-- Whoever is connected has the mailbox of its last registration, and the pieces that it has
published since. -/
def Traced (calls : List Call) (address : Address) : Prop :=
  ∀ number field,
    (∃ entry, (run calls).find? address = some entry ∧ entry.mailbox = some number ∧
      entry.bitfield = field) ↔
    ∃ since, Link calls address number since ∧ lastPublished address since = field

/-- A registration lasts with every call but a removal. -/
theorem Traced.step_connected {calls : List Call} (traced : Traced calls address)
    (before : (run calls).isConnected address = true) (call : Call) :
    Traced (calls ++ [call]) address := by
  intro number field
  obtain ⟨entry, known, connected⟩ := isConnected_eq_true.mp before
  have name := (settled_run calls).named address entry known connected
  simp only [link_concat, run_concat]
  by_cases removed : call = .remove address
  · subst removed
    simp [step, find?_remove, before]
  · rw [find?_step known connected name removed]
    constructor
    · rintro ⟨later, same, mailbox, rfl⟩
      cases same
      obtain ⟨since, link, last⟩ := (traced number entry.bitfield).mp ⟨entry, known, mailbox, rfl⟩
      refine ⟨since ++ [call], Or.inl ⟨since, rfl, link, removed⟩, ?_⟩
      rw [lastPublished_concat, last]
    · rintro ⟨since, ⟨earlier, rfl, link, -⟩ | ⟨-, -, free⟩, rfl⟩
      · obtain ⟨other, same, mailbox, last⟩ := (traced number _).mpr ⟨earlier, link, rfl⟩
        rw [known, Option.some.injEq] at same
        subst same
        exact ⟨_, rfl, mailbox, by rw [lastPublished_concat, last]⟩
      · rw [before] at free
        cases free

/-- An address that is free has no registration that lasts, so it can only be the call that
registers it. -/
theorem Traced.step_free {calls : List Call} (traced : Traced calls address)
    (free : (run calls).isConnected address = false) (call : Call) :
    Traced (calls ++ [call]) address := by
  intro number field
  have unlinked : ∀ earlier, ¬ Link calls address number earlier := by
    intro earlier link
    obtain ⟨entry, known, mailbox, -⟩ := (traced number _).mpr ⟨earlier, link, rfl⟩
    rw [isConnected_of_mailbox known mailbox] at free
    cases free
  simp only [link_concat, run_concat, unlinked, false_and, and_false, exists_false, false_or, free,
    and_true]
  cases box : call.box? (run calls) address with
  | none =>
    have still := isConnected_step free box
    constructor
    · rintro ⟨later, found, mailbox, -⟩
      rw [isConnected_of_mailbox found mailbox] at still
      cases still
    · rintro ⟨-, ⟨-, wrong⟩, -⟩
      cases wrong
  | some first =>
    obtain ⟨later, found, -, there, unpublished⟩ := find?_step_attached free box
    rw [found]
    constructor
    · rintro ⟨_, ⟨⟩, mailbox, rfl⟩
      exact ⟨[], ⟨rfl, there.symm.trans mailbox⟩, unpublished.symm⟩
    · rintro ⟨-, ⟨rfl, same⟩, rfl⟩
      exact ⟨later, rfl, there.trans same, unpublished⟩

theorem traced_run (calls : List Call) (address : Address) : Traced calls address := by
  induction calls using List.reverseRecOn with
  | nil =>
    intro number field
    constructor
    · rintro ⟨entry, found, -⟩
      cases found
    · rintro ⟨since, link, -⟩
      exact absurd link not_begun_nil
  | append_singleton calls call ih =>
    cases before : (run calls).isConnected address with
    | true => exact ih.step_connected before call
    | false => exact ih.step_free before call

/-- There is one last registration of an address at most. -/
theorem link_unique {calls : List Call} {first second : Nat} {since later : List Call}
    (left : Link calls address first since) (right : Link calls address second later) :
    since = later := by
  induction calls using List.reverseRecOn generalizing since later with
  | nil => exact absurd left not_begun_nil
  | append_singleton calls call ih =>
    have connected : ∀ {number earlier}, Link calls address number earlier →
        (run calls).isConnected address = true := by
      intro number earlier link
      obtain ⟨entry, known, mailbox, -⟩ := (traced_run calls address number _).mpr
        ⟨earlier, link, rfl⟩
      exact isConnected_of_mailbox known mailbox
    rcases link_concat.mp left with ⟨earlier, rfl, link, -⟩ | ⟨rfl, -, free⟩
    · rcases link_concat.mp right with ⟨other, rfl, again, -⟩ | ⟨rfl, -, free⟩
      · rw [ih link again]
      · rw [connected link] at free
        cases free
    · rcases link_concat.mp right with ⟨other, rfl, again, -⟩ | ⟨rfl, -, -⟩
      · rw [connected again] at free
        cases free
      · rfl

theorem takes_run (calls : List Call) (number : Nat) :
    (run calls).takes number = true ↔ Alive calls number := by
  induction calls using List.reverseRecOn with
  | nil => simp [run, empty, takes, Alive, not_begun_nil]
  | append_singleton calls call ih =>
    rw [run_concat, takes_step, ih]
    constructor
    · rintro (⟨⟨since, begun⟩, going⟩ | begun)
      · exact ⟨since ++ [call], begun_concat.mpr (Or.inl ⟨since, rfl, begun, going⟩)⟩
      · exact ⟨[], begun_concat.mpr (Or.inr ⟨rfl, begun⟩)⟩
    · rintro ⟨since, begun⟩
      rcases begun_concat.mp begun with ⟨earlier, -, before, going⟩ | ⟨-, last⟩
      · exact Or.inl ⟨⟨earlier, before⟩, going⟩
      · exact Or.inr last

/-- Until its address is removed, an entry that is connected changes in nothing but the published
pieces. -/
theorem find?_lasting {calls : List Call} {entry : PeerEntry}
    (found : (run calls).find? address = some entry) (connected : entry.isConnected = true)
    (more : List Call) (kept : .remove address ∉ more) :
    ∃ field, (run (calls ++ more)).find? address = some { entry with bitfield := field } := by
  induction more using List.reverseRecOn with
  | nil => exact ⟨entry.bitfield, by rw [List.append_nil, found]⟩
  | append_singleton more call ih =>
    simp only [List.mem_append, List.mem_singleton, not_or] at kept
    obtain ⟨field, known⟩ := ih kept.1
    have name := (settled_run calls).named address entry found connected
    rw [← List.append_assoc, run_concat,
      find?_step known connected name (Ne.symm kept.2)]
    exact ⟨_, rfl⟩

theorem nodup_connected (distinct : (roster.lines.map (·.1)).Nodup) :
    (roster.connected.map (·.address)).Nodup := by
  rw [← addresses_eq] at distinct
  exact distinct.sublist (List.filter_sublist.map _)

theorem mem_connected (distinct : (roster.lines.map (·.1)).Nodup) {entry : PeerEntry} :
    entry ∈ roster.connected ↔
      roster.find? entry.address = some entry ∧ entry.isConnected = true := by
  rw [connected, List.mem_filter, find?_iff distinct]
  simp

/-- The published pieces are those since the last registration of each connected address. -/
theorem bitfields_run (calls : List Call) :
    ∃ links : List (Address × List Call), (links.map (·.1)).Nodup ∧
      (∀ address since, (address, since) ∈ links ↔ ∃ number, Link calls address number since) ∧
      (run calls).bitfields = links.filterMap fun link => lastPublished link.1 link.2 := by
  have distinct := (settled_run calls).addresses
  have registered : ∀ entry ∈ (run calls).connected, ∃ since,
      (∃ number, Link calls entry.address number since) ∧
        lastPublished entry.address since = entry.bitfield := by
    intro entry inside
    obtain ⟨found, there⟩ := (mem_connected distinct).mp inside
    obtain ⟨number, mailbox⟩ := Option.isSome_iff_exists.mp there
    obtain ⟨since, link, last⟩ :=
      (traced_run calls entry.address number entry.bitfield).mp ⟨entry, found, mailbox, rfl⟩
    exact ⟨since, ⟨number, link⟩, last⟩
  choose! since linked last using registered
  refine ⟨(run calls).connected.map fun entry => (entry.address, since entry), ?_, ?_, ?_⟩
  · rw [List.map_map]
    exact nodup_connected distinct
  · intro address earlier
    rw [List.mem_map]
    constructor
    · rintro ⟨entry, inside, ⟨⟩⟩
      exact linked entry inside
    · rintro ⟨number, link⟩
      obtain ⟨entry, found, mailbox, -⟩ :=
        (traced_run calls address number _).mpr ⟨earlier, link, rfl⟩
      obtain rfl := address_of_find? found
      have inside : entry ∈ (run calls).connected :=
        (mem_connected distinct).mpr ⟨found, by rw [PeerEntry.isConnected, mailbox]; rfl⟩
      obtain ⟨other, again⟩ := linked entry inside
      exact ⟨entry, inside, by rw [link_unique again link]⟩
  · rw [bitfields, List.filterMap_map]
    apply List.filterMap_congr
    intro entry inside
    exact (last entry inside).symm

/-- The laws of a roster: they hold whatever it was asked for. -/
theorem run_lawful (calls : List Call) : Lawful calls where
  keyed := by
    have distinct := (settled_run calls).addresses
    exact ⟨addresses_eq (run calls) ▸ distinct, fun _ _ => find?_iff distinct⟩
  linked := traced_run calls
  lasting := fun _ _ found connected more kept => find?_lasting found connected more kept
  refused := by
    intro address connected peerId source number
    have here : ∀ number, (run calls).attachTo address peerId source number =
        .error (.alreadyConnected address) := fun number => by rw [attachTo, if_pos connected]
    refine ⟨?_, here number, ?_, ?_⟩
    · rw [attach_eq, here]
      rfl
    · rw [run_concat, step, attach_eq, here]
      rfl
    · rw [run_concat, step, here]
  admitted := by
    intro address free peerId source number
    have here : ∀ number, ∃ after, (run calls).attachTo address peerId source number = .ok after :=
      fun number => ⟨_, by rw [attachTo, if_neg (by simp [free])]⟩
    refine ⟨?_, here number⟩
    obtain ⟨after, attached⟩ := here (run calls).mailboxes.length
    rw [attach_eq, attached]
    exact ⟨_, _, rfl⟩
  published := bitfields_run calls
  visited := by
    intro σ call state
    have distinct := (settled_run calls).addresses
    obtain ⟨states, counts⟩ := foldl_called call (run calls).connected (state, ⟨0, 0⟩)
    refine ⟨(run calls).connected, nodup_connected distinct, ?_, states, ?_⟩
    · intro address
      rw [isConnected_eq_true, List.mem_map]
      constructor
      · rintro ⟨entry, inside, rfl⟩
        exact ⟨entry, (mem_connected distinct).mp inside⟩
      · rintro ⟨entry, found, there⟩
        obtain rfl := address_of_find? found
        exact ⟨entry, (mem_connected distinct).mpr ⟨found, there⟩, rfl⟩
    · rw [connectedCount, List.countP_eq_length_filter]
      exact counts.trans (Nat.zero_add _)
  told := by
    intro command
    obtain ⟨counts, queues⟩ := foldl_deliver command (run calls).connected (run calls, ⟨0, 0⟩)
    refine ⟨broadcast_eq_visit .., ?_, queues⟩
    rw [broadcast, counts, Nat.zero_add]
  alive := takes_run calls

end BitTorrent.Roster
