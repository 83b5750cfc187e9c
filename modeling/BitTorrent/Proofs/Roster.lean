import BitTorrent.Roster
import Mathlib.Data.List.Nodup

/-! Who is connected, who is told what, and what the changes of a roster do to that. -/

set_option autoImplicit false

namespace BitTorrent.Roster

variable {roster : Roster} {address other : Address}

theorem find?_modify {change : PeerEntry → PeerEntry}
    (kept : ∀ entry, (change entry).address = entry.address) (other : Address) :
    (roster.modify address change).find? other =
      (roster.find? other).map fun entry =>
        if entry.address = address then change entry else entry := by
  have same : ((fun entry : PeerEntry => decide (entry.address = other)) ∘ fun entry =>
      if entry.address = address then change entry else entry) =
        fun entry => decide (entry.address = other) := by
    funext entry
    simp only [Function.comp]
    split
    · rw [kept]
    · rfl
  simp only [find?, modify, List.find?_map, same]

theorem address_of_find? {entry : PeerEntry} (found : roster.find? address = some entry) :
    entry.address = address := by
  simpa using List.find?_some found

/-- A change that leaves the mailbox of an entry alone disconnects nobody. -/
theorem isConnected_modify {change : PeerEntry → PeerEntry}
    (kept : ∀ entry, (change entry).address = entry.address)
    (mailbox : ∀ entry, (change entry).mailbox = entry.mailbox) (other : Address) :
    (roster.modify address change).isConnected other = roster.isConnected other := by
  unfold isConnected
  rw [find?_modify kept]
  cases roster.find? other with
  | none => rfl
  | some entry =>
    simp only [Option.map_some, PeerEntry.isConnected]
    split
    · rw [mailbox]
    · rfl

theorem isConnected_updateBitfield (field : Bitfield) (other : Address) :
    (roster.updateBitfield address field).isConnected other = roster.isConnected other :=
  @isConnected_modify roster address (fun entry => { entry with bitfield := some field })
    (fun _ => rfl) (fun _ => rfl) other

theorem entries_send {entry : PeerEntry} {command : Command} {after : Roster}
    (sent : roster.send entry command = .ok after) : after.entries = roster.entries := by
  unfold send at sent
  split at sent
  · cases sent
  · split at sent
    · cases sent
      rfl
    · cases sent

theorem entries_deliver (command : Command) (state : Roster × Delivery) (entry : PeerEntry) :
    (deliver command state entry).1.entries = state.1.entries := by
  unfold deliver
  split
  · rename_i sent
    exact entries_send sent
  · rfl

theorem entries_broadcast (roster : Roster) (command : Command) :
    (roster.broadcast command).1.entries = roster.entries := by
  unfold broadcast
  generalize roster.connected = entries, (⟨0, 0⟩ : Delivery) = count
  induction entries generalizing roster count with
  | nil => rfl
  | cons entry rest ih =>
    rw [List.foldl_cons]
    have later := ih (deliver command (roster, count) entry).1
      (deliver command (roster, count) entry).2
    exact later.trans (entries_deliver command (roster, count) entry)

/-- Who is connected is a matter of the entries alone. -/
theorem isConnected_congr {first second : Roster} (same : first.entries = second.entries)
    (address : Address) : first.isConnected address = second.isConnected address := by
  simp only [isConnected, find?, same]

theorem find?_remove (roster : Roster) (address other : Address) :
    (roster.remove address).find? other =
      if other = address then none else roster.find? other := by
  simp only [find?, remove, List.find?_filter]
  by_cases same : other = address
  · simp [same]
  · rw [if_neg same]
    congr 1
    funext entry
    by_cases here : entry.address = other
    · simp [here, same]
    · simp [here]

theorem isConnected_remove (different : other ≠ address) :
    (roster.remove address).isConnected other = roster.isConnected other := by
  rw [isConnected, isConnected, find?_remove, if_neg different]

theorem isConnected_add (peerId : Option PeerId) (source : PeerSource) (other : Address) :
    (roster.add address peerId source).1.isConnected other = roster.isConnected other := by
  unfold add
  cases known : roster.find? address with
  | some entry =>
    exact @isConnected_modify roster address
      (fun entry => { entry with peerId := entry.peerId <|> peerId })
      (fun _ => rfl) (fun _ => rfl) other
  | none =>
    simp only [isConnected, find?, List.find?_append]
    cases found : roster.entries.find? (·.address = other) with
    | some entry => rfl
    | none =>
      by_cases same : address = other
      · simp only [same, List.find?_singleton, decide_true, ↓reduceIte, Option.none_or]
        rfl
      · simp only [same, List.find?_singleton, decide_false, Bool.false_eq_true, ↓reduceIte,
          Option.none_or]

theorem find?_add (peerId : Option PeerId) (source : PeerSource) :
    ∃ entry, (roster.add address peerId source).1.find? address = some entry := by
  unfold add
  cases known : roster.find? address with
  | some entry =>
    have found := @find?_modify roster address
      (fun entry => { entry with peerId := entry.peerId <|> peerId }) (fun _ => rfl) address
    rw [known] at found
    exact ⟨_, found⟩
  | none =>
    have absent : roster.entries.find? (·.address = address) = none := known
    refine ⟨⟨address, peerId, source, none, none⟩, ?_⟩
    simp only [find?, List.find?_append, absent, Option.none_or, List.find?_singleton,
      decide_true, ↓reduceIte]

theorem isConnected_modify_of_ne {change : PeerEntry → PeerEntry}
    (kept : ∀ entry, (change entry).address = entry.address) (different : other ≠ address) :
    (roster.modify address change).isConnected other = roster.isConnected other := by
  unfold isConnected
  rw [find?_modify kept]
  cases found : roster.find? other with
  | none => rfl
  | some entry =>
    have elsewhere : entry.address ≠ address := address_of_find? found ▸ different
    simp only [Option.map_some, elsewhere, ↓reduceIte]

theorem isConnected_modify_self {change : PeerEntry → PeerEntry} {entry : PeerEntry}
    (kept : ∀ entry, (change entry).address = entry.address)
    (mailbox : (change entry).isConnected = true) (found : roster.find? address = some entry) :
    (roster.modify address change).isConnected address = true := by
  unfold isConnected
  rw [find?_modify kept, found]
  simp only [Option.map_some, address_of_find? found, ↓reduceIte, mailbox]

/-- Only an address that is not connected is registered, and all others stay connected. -/
theorem attach_ok {peerId : PeerId} {source : PeerSource} {after : Roster} {mailbox : Nat}
    (attached : roster.attach address peerId source = .ok (after, mailbox)) :
    roster.isConnected address = false ∧ after.isConnected address = true ∧
      ∀ other, roster.isConnected other = true → after.isConnected other = true := by
  unfold attach at attached
  split at attached
  · cases attached
  · rename_i free
    simp only [Except.ok.injEq, Prod.mk.injEq] at attached
    obtain ⟨rfl, rfl⟩ := attached
    obtain ⟨entry, found⟩ := @find?_add roster address (some peerId) source
    refine ⟨by simpa using free, isConnected_modify_self (fun _ => rfl) rfl found, ?_⟩
    intro other connected
    have different : other ≠ address := by
      rintro rfl
      exact free connected
    have kept := @isConnected_modify_of_ne (roster.add address (some peerId) source).1 address other
      (fun entry => { entry with
        peerId := some peerId, mailbox := some roster.mailboxes.length, bitfield := none })
      (fun _ => rfl) different
    rw [isConnected_add, connected] at kept
    exact kept

/-- Who is known, each with the mailbox of its connection. -/
def lines (roster : Roster) : List (Address × Option Nat) :=
  roster.entries.map fun entry => (entry.address, entry.mailbox)

/-- The mailboxes of those who are connected. -/
def numbers (roster : Roster) : List Nat :=
  roster.entries.filterMap (·.mailbox)

theorem numbers_eq (roster : Roster) : roster.numbers = roster.lines.filterMap (·.2) := by
  rw [lines, List.filterMap_map]
  rfl

theorem takes_post (roster : Roster) (number : Nat) (command : Command) (box : Nat) :
    (roster.post number command).takes box = roster.takes box := by
  simp only [takes, post, List.getElem?_modify]
  cases roster.mailboxes[box]? with
  | none => rfl
  | some mailbox =>
    by_cases same : number = box
    · by_cases isOpen : mailbox.isOpen = true <;> simp [same, isOpen]
    · simp [same]

/-- A command is put behind those that wait in its mailbox, if that takes any. -/
theorem queued_post (roster : Roster) (number : Nat) (command : Command) (box : Nat) :
    (roster.post number command).queued box =
      if number = box ∧ roster.takes box = true then roster.queued box ++ [command]
      else roster.queued box := by
  cases found : roster.mailboxes[box]? with
  | none => simp [queued, takes, post, List.getElem?_modify, found]
  | some mailbox =>
    by_cases same : number = box
    · by_cases isOpen : mailbox.isOpen = true <;>
        simp [queued, takes, post, found, same, isOpen]
    · simp [queued, post, found, same]

theorem deliver_eq (command : Command) (state : Roster × Delivery) (entry : PeerEntry) :
    (deliver command state entry).1 =
      match entry.mailbox with
      | some number => if state.1.takes number then state.1.post number command else state.1
      | none => state.1 := by
  unfold deliver send
  cases entry.mailbox with
  | none => rfl
  | some number =>
    by_cases isOpen : state.1.takes number = true <;> simp [isOpen]

theorem takes_deliver (command : Command) (state : Roster × Delivery) (entry : PeerEntry)
    (box : Nat) : (deliver command state entry).1.takes box = state.1.takes box := by
  rw [deliver_eq]
  split
  · split
    · exact takes_post _ _ _ _
    · rfl
  · rfl

theorem queued_deliver (command : Command) (state : Roster × Delivery) (entry : PeerEntry)
    (box : Nat) :
    (deliver command state entry).1.queued box =
      if entry.mailbox = some box ∧ state.1.takes box = true then state.1.queued box ++ [command]
      else state.1.queued box := by
  rw [deliver_eq]
  cases entry.mailbox with
  | none => simp
  | some number =>
    dsimp only
    split
    · rw [queued_post]
      simp only [Option.some.injEq]
    · rename_i refused
      by_cases same : number = box
      · subst same
        simp [refused]
      · simp [same]

theorem takes_delivered (command : Command) (entries : List PeerEntry)
    (state : Roster × Delivery) (box : Nat) :
    (entries.foldl (deliver command) state).1.takes box = state.1.takes box := by
  induction entries generalizing state with
  | nil => rfl
  | cons entry rest ih => rw [List.foldl_cons, ih, takes_deliver]

/-- A command that is delivered to several peers reaches each open mailbox once. -/
theorem queued_delivered (command : Command) (entries : List PeerEntry)
    (state : Roster × Delivery) (box : Nat)
    (distinct : (entries.filterMap (·.mailbox)).Nodup) :
    (entries.foldl (deliver command) state).1.queued box =
      if box ∈ entries.filterMap (·.mailbox) ∧ state.1.takes box = true then
        state.1.queued box ++ [command]
      else state.1.queued box := by
  induction entries generalizing state with
  | nil => simp
  | cons entry rest ih =>
    rw [List.foldl_cons]
    cases mailbox : entry.mailbox with
    | none =>
      have skipped : (entry :: rest).filterMap (·.mailbox) = rest.filterMap (·.mailbox) :=
        List.filterMap_cons_none mailbox
      rw [skipped] at distinct ⊢
      rw [ih _ distinct, takes_deliver, queued_deliver]
      simp [mailbox]
    | some number =>
      have headed : (entry :: rest).filterMap (·.mailbox) =
          number :: rest.filterMap (·.mailbox) := List.filterMap_cons_some mailbox
      rw [headed] at distinct ⊢
      obtain ⟨fresh, distinct⟩ := List.nodup_cons.mp distinct
      rw [ih _ distinct, takes_deliver, queued_deliver, mailbox]
      by_cases same : number = box
      · subst same
        simp [fresh]
      · have different : box ≠ number := Ne.symm same
        simp [same, different]

theorem numbers_connected (roster : Roster) :
    roster.connected.filterMap (·.mailbox) = roster.numbers := by
  unfold connected numbers
  induction roster.entries with
  | nil => rfl
  | cons entry rest ih =>
    cases mailbox : entry.mailbox with
    | none =>
      have absent : entry.isConnected = false := by rw [PeerEntry.isConnected, mailbox]; rfl
      rw [List.filter_cons_of_neg (by simp [absent]), ih, List.filterMap_cons_none mailbox]
    | some number =>
      have present : entry.isConnected = true := by rw [PeerEntry.isConnected, mailbox]; rfl
      rw [List.filter_cons_of_pos present, List.filterMap_cons_some mailbox, ih,
        List.filterMap_cons_some mailbox]

/-- Nothing else than the command itself is delivered. -/
theorem mem_queued_broadcast {command sent : Command} {box : Nat}
    (waiting : sent ∈ (roster.broadcast command).1.queued box) :
    sent ∈ roster.queued box ∨ sent = command := by
  have all : ∀ (entries : List PeerEntry) (state : Roster × Delivery),
      sent ∈ (entries.foldl (deliver command) state).1.queued box →
        sent ∈ state.1.queued box ∨ sent = command := by
    intro entries
    induction entries with
    | nil => exact fun _ inside => Or.inl inside
    | cons entry rest ih =>
      intro state inside
      rcases ih _ inside with earlier | same
      · rw [queued_deliver] at earlier
        split at earlier
        · exact (List.mem_append.mp earlier).imp_right List.mem_singleton.mp
        · exact Or.inl earlier
      · exact Or.inr same
  exact all roster.connected (roster, ⟨0, 0⟩) waiting

theorem length_deliver (command : Command) (state : Roster × Delivery) (entry : PeerEntry) :
    (deliver command state entry).1.mailboxes.length = state.1.mailboxes.length := by
  rw [deliver_eq]
  split
  · split
    · exact List.length_modify _ _ _
    · rfl
  · rfl

theorem length_broadcast (roster : Roster) (command : Command) :
    (roster.broadcast command).1.mailboxes.length = roster.mailboxes.length := by
  have all : ∀ (entries : List PeerEntry) (state : Roster × Delivery),
      (entries.foldl (deliver command) state).1.mailboxes.length = state.1.mailboxes.length := by
    intro entries
    induction entries with
    | nil => exact fun _ => rfl
    | cons entry rest ih =>
      intro state
      rw [List.foldl_cons, ih, length_deliver]
  exact all roster.connected (roster, ⟨0, 0⟩)

theorem takes_broadcast (roster : Roster) (command : Command) (box : Nat) :
    (roster.broadcast command).1.takes box = roster.takes box :=
  takes_delivered command roster.connected (roster, ⟨0, 0⟩) box

/-- A command that is broadcast reaches the open mailbox of everybody who is connected. -/
theorem queued_broadcast (command : Command) (box : Nat) (distinct : roster.numbers.Nodup) :
    (roster.broadcast command).1.queued box =
      if box ∈ roster.numbers ∧ roster.takes box = true then roster.queued box ++ [command]
      else roster.queued box := by
  rw [← numbers_connected] at distinct ⊢
  exact queued_delivered command roster.connected (roster, ⟨0, 0⟩) box distinct

theorem lines_modify {change : PeerEntry → PeerEntry}
    (kept : ∀ entry, (change entry).address = entry.address)
    (mailbox : ∀ entry, (change entry).mailbox = entry.mailbox) :
    (roster.modify address change).lines = roster.lines := by
  rw [lines, modify, List.map_map]
  apply List.map_congr_left
  intro entry _
  simp only [Function.comp]
  split
  · rw [kept, mailbox]
  · rfl

theorem lines_broadcast (roster : Roster) (command : Command) :
    (roster.broadcast command).1.lines = roster.lines := by
  rw [lines, entries_broadcast, lines]

theorem lines_remove (roster : Roster) (address : Address) :
    (roster.remove address).lines = roster.lines.filter (·.1 ≠ address) := by
  rw [lines, lines, remove, List.filter_map]
  rfl

theorem find?_eq_none : roster.find? address = none ↔ address ∉ roster.lines.map (·.1) := by
  rw [lines, List.map_map, find?, List.find?_eq_none]
  simp only [decide_eq_true_eq, List.mem_map, Function.comp, not_exists, not_and]

theorem line_of_find? {entry : PeerEntry} (found : roster.find? address = some entry) :
    (address, entry.mailbox) ∈ roster.lines := by
  have inside := List.mem_map_of_mem (f := fun entry : PeerEntry =>
    (entry.address, entry.mailbox)) (List.mem_of_find?_eq_some found)
  rwa [address_of_find? found] at inside

/-- An address that becomes known is the last one. -/
theorem lines_add (roster : Roster) (address : Address) (peerId : Option PeerId)
    (source : PeerSource) :
    (roster.add address peerId source).1.lines =
      if address ∈ roster.lines.map (·.1) then roster.lines
      else roster.lines ++ [(address, none)] := by
  unfold add
  cases found : roster.find? address with
  | some entry =>
    have known : address ∈ roster.lines.map (·.1) := by
      by_contra unknown
      rw [find?_eq_none.mpr unknown] at found
      cases found
    rw [if_pos known]
    exact lines_modify (fun _ => rfl) (fun _ => rfl)
  | none =>
    rw [if_neg (find?_eq_none.mp found), lines, lines, List.map_append]
    rfl

theorem mailboxes_add (roster : Roster) (address : Address) (peerId : Option PeerId)
    (source : PeerSource) : (roster.add address peerId source).1.mailboxes = roster.mailboxes := by
  unfold add
  split <;> rfl

/-- Nobody's line changes when somebody becomes known, and that one has a line then. -/
theorem mem_lines_add (roster : Roster) (address : Address) (peerId : Option PeerId)
    (source : PeerSource) :
    (∀ line ∈ roster.lines, line ∈ (roster.add address peerId source).1.lines) ∧
      ∃ box, (address, box) ∈ (roster.add address peerId source).1.lines := by
  rw [lines_add]
  split
  · rename_i old
    obtain ⟨⟨_, box⟩, inside, rfl⟩ := List.mem_map.mp old
    exact ⟨fun _ => id, box, inside⟩
  · exact ⟨fun _ => List.mem_append_left _, none,
      List.mem_append_right _ (List.mem_singleton_self _)⟩

theorem attach_lines {peerId : PeerId} {source : PeerSource} {after : Roster} {mailbox : Nat}
    (attached : roster.attach address peerId source = .ok (after, mailbox)) :
    mailbox = roster.mailboxes.length ∧ after.mailboxes = roster.mailboxes ++ [⟨[], true⟩] ∧
      after.lines = (roster.add address (some peerId) source).1.lines.map fun line =>
        if line.1 = address then (line.1, some mailbox) else line := by
  unfold attach at attached
  split at attached
  · cases attached
  · simp only [Except.ok.injEq, Prod.mk.injEq] at attached
    obtain ⟨rfl, rfl⟩ := attached
    refine ⟨rfl, rfl, ?_⟩
    rw [lines, lines, modify, List.map_map, List.map_map]
    apply List.map_congr_left
    intro entry _
    simp only [Function.comp]
    split <;> rfl

/-- Every address has one entry, and every mailbox one address. -/
structure Orderly (roster : Roster) : Prop where
  addresses : (roster.lines.map (·.1)).Nodup
  owner : ∀ {first second : Address} {number : Nat}, (first, some number) ∈ roster.lines →
    (second, some number) ∈ roster.lines → first = second
  inside : ∀ {address : Address} {number : Nat}, (address, some number) ∈ roster.lines →
    number < roster.mailboxes.length

theorem empty_orderly : empty.Orderly :=
  ⟨List.nodup_nil, (nomatch ·), (nomatch ·)⟩

theorem Orderly.unique (orderly : roster.Orderly) {first second : Option Nat}
    (left : (address, first) ∈ roster.lines) (right : (address, second) ∈ roster.lines) :
    first = second := by
  have same := List.inj_on_of_nodup_map orderly.addresses left right rfl
  exact congrArg Prod.snd same

theorem Orderly.numbers (orderly : roster.Orderly) : roster.numbers.Nodup := by
  rw [numbers_eq, List.Nodup, List.pairwise_filterMap]
  refine List.Pairwise.imp_of_mem ?_ (List.pairwise_map.mp orderly.addresses)
  intro first second left right different number mine other yours same
  subst same
  obtain ⟨firstAddress, box⟩ := first
  obtain ⟨secondAddress, otherBox⟩ := second
  dsimp only at mine yours different
  subst mine
  subst yours
  exact different (orderly.owner left right)

theorem mem_numbers {number : Nat} :
    number ∈ roster.numbers ↔ ∃ address, (address, some number) ∈ roster.lines := by
  rw [numbers_eq, List.mem_filterMap]
  constructor
  · rintro ⟨⟨address, box⟩, member, same⟩
    exact ⟨address, same ▸ member⟩
  · rintro ⟨address, member⟩
    exact ⟨_, member, rfl⟩

theorem Orderly.isConnected (orderly : roster.Orderly) {number : Nat}
    (member : (address, some number) ∈ roster.lines) : roster.isConnected address = true := by
  have known : ∃ entry, roster.find? address = some entry := by
    rw [← Option.ne_none_iff_exists', ne_eq, find?_eq_none, not_not]
    exact List.mem_map_of_mem member
  obtain ⟨entry, found⟩ := known
  have box := orderly.unique (line_of_find? found) member
  rw [Roster.isConnected, found]
  simp only [PeerEntry.isConnected, box, Option.isSome_some]

/-- Nobody new is reached, and no mailbox is lost. -/
theorem Orderly.fewer {after : Roster} (orderly : roster.Orderly)
    (lines : after.lines.Sublist roster.lines)
    (longer : roster.mailboxes.length ≤ after.mailboxes.length) : after.Orderly where
  addresses := orderly.addresses.sublist (lines.map _)
  owner := fun left right => orderly.owner (lines.subset left) (lines.subset right)
  inside := fun member => Nat.lt_of_lt_of_le (orderly.inside (lines.subset member)) longer

theorem Orderly.add (orderly : roster.Orderly) (address : Address) (peerId : Option PeerId)
    (source : PeerSource) : (roster.add address peerId source).1.Orderly := by
  have boxes : (roster.add address peerId source).1.mailboxes = roster.mailboxes := by
    unfold Roster.add
    split <;> rfl
  have same := roster.lines_add address peerId source
  split at same
  · exact orderly.fewer (same ▸ List.Sublist.refl _) (boxes ▸ Nat.le_refl _)
  · rename_i unknown
    refine ⟨?_, ?_, ?_⟩
    · rw [same, List.map_append, List.map_singleton]
      exact List.nodup_append'.mpr ⟨orderly.addresses, List.nodup_singleton _,
        List.disjoint_singleton.mpr unknown⟩
    · intro first second number left right
      rw [same] at left right
      simp only [List.mem_append, List.mem_singleton, Prod.mk.injEq, reduceCtorEq, and_false,
        or_false] at left right
      exact orderly.owner left right
    · intro other number member
      rw [same] at member
      simp only [List.mem_append, List.mem_singleton, Prod.mk.injEq, reduceCtorEq, and_false,
        or_false] at member
      exact boxes ▸ orderly.inside member

/-- Whoever is registered gets a mailbox of its own, and nobody else is affected. -/
theorem Orderly.attach (orderly : roster.Orderly) {peerId : PeerId} {source : PeerSource}
    {after : Roster} {mailbox : Nat}
    (attached : roster.attach address peerId source = .ok (after, mailbox)) :
    after.Orderly ∧ (address, some mailbox) ∈ after.lines ∧
      ∀ {other box}, other ≠ address → (other, box) ∈ roster.lines →
        (other, box) ∈ after.lines := by
  obtain ⟨rfl, boxes, same⟩ := attach_lines attached
  have known := orderly.add address (some peerId) source
  have grown := roster.mailboxes_add address (some peerId) source
  obtain ⟨kept, box, present⟩ := roster.mem_lines_add address (some peerId) source
  have member : ∀ {other box}, (other, box) ∈ after.lines →
      (other = address ∧ box = some roster.mailboxes.length) ∨
        (other ≠ address ∧ (other, box) ∈ (roster.add address (some peerId) source).1.lines) := by
    intro other box inside
    rw [same] at inside
    obtain ⟨line, earlier, changed⟩ := List.mem_map.mp inside
    split at changed
    · rename_i mine
      cases changed
      exact Or.inl ⟨mine, rfl⟩
    · rename_i foreign
      cases changed
      exact Or.inr ⟨foreign, earlier⟩
  have below : ∀ {other number},
      (other, some number) ∈ (roster.add address (some peerId) source).1.lines →
        number < roster.mailboxes.length := fun inside => grown ▸ known.inside inside
  refine ⟨⟨?_, ?_, ?_⟩, ?_, ?_⟩
  · have kept : after.lines.map (·.1) =
        (roster.add address (some peerId) source).1.lines.map (·.1) := by
      rw [same, List.map_map]
      apply List.map_congr_left
      intro line _
      simp only [Function.comp]
      split <;> rfl
    rw [kept]
    exact known.addresses
  · intro first second number left right
    rcases member left with ⟨rfl, newest⟩ | ⟨-, earlier⟩
    · rcases member right with ⟨rfl, -⟩ | ⟨-, earlier⟩
      · rfl
      · have bound := below earlier
        cases newest
        exact absurd bound (Nat.lt_irrefl _)
    · rcases member right with ⟨rfl, newest⟩ | ⟨-, later⟩
      · have bound := below earlier
        cases newest
        exact absurd bound (Nat.lt_irrefl _)
      · exact known.owner earlier later
  · intro other number inside
    rw [boxes, List.length_append, List.length_singleton]
    rcases member inside with ⟨-, newest⟩ | ⟨-, earlier⟩
    · cases newest
      exact Nat.lt_succ_self _
    · exact Nat.lt_succ_of_lt (below earlier)
  · rw [same]
    exact List.mem_map.mpr ⟨(address, box), present, by simp⟩
  · intro other box different inside
    rw [same]
    exact List.mem_map.mpr ⟨(other, box), kept _ inside, by simp [different]⟩

/-- Who has a line behind a registration. -/
theorem mem_lines_attach {peerId : PeerId} {source : PeerSource} {after : Roster} {mailbox : Nat}
    (attached : roster.attach address peerId source = .ok (after, mailbox)) {other : Address}
    {box : Option Nat} (member : (other, box) ∈ after.lines) :
    (other = address ∧ box = some mailbox) ∨ (other ≠ address ∧ (other, box) ∈ roster.lines) := by
  obtain ⟨-, -, same⟩ := attach_lines attached
  rw [same] at member
  obtain ⟨line, earlier, changed⟩ := List.mem_map.mp member
  split at changed
  · rename_i mine
    cases changed
    exact .inl ⟨mine, rfl⟩
  · rename_i foreign
    cases changed
    rw [lines_add] at earlier
    split at earlier
    · exact .inr ⟨foreign, earlier⟩
    · rcases List.mem_append.mp earlier with old | new
      · exact .inr ⟨foreign, old⟩
      · cases List.mem_singleton.mp new
        exact absurd rfl foreign

/-- To forget an address takes its line away unless it is connected. -/
theorem Orderly.mem_lines_forget (orderly : roster.Orderly) {other : Address}
    {box : Option Nat} :
    (other, box) ∈ (roster.forget address).1.lines ↔
      (other, box) ∈ roster.lines ∧ (other = address → box ≠ none) := by
  unfold Roster.forget
  cases found : roster.find? address with
  | none =>
    refine ⟨fun member => ⟨member, ?_⟩, And.left⟩
    rintro rfl
    exact absurd (List.mem_map_of_mem member) (find?_eq_none.mp found)
  | some entry =>
    have line := line_of_find? found
    cases connected : entry.mailbox with
    | some number =>
      simp only [PeerEntry.isConnected, connected, Option.isSome_some, ↓reduceIte]
      refine ⟨fun member => ⟨member, ?_⟩, And.left⟩
      rintro rfl vacant
      cases orderly.unique line (vacant ▸ member) ▸ connected
    | none =>
      simp only [PeerEntry.isConnected, connected, Option.isSome_none, Bool.false_eq_true,
        ↓reduceIte, lines_remove, List.mem_filter, ne_eq, decide_not, Bool.not_eq_eq_eq_not,
        Bool.not_true, decide_eq_false_iff_not, and_congr_right_iff]
      refine fun member => ⟨fun other same => absurd same other, ?_⟩
      rintro kept rfl
      exact kept rfl (orderly.unique member (connected ▸ line))

theorem mailboxes_forget (roster : Roster) (address : Address) :
    (roster.forget address).1.mailboxes = roster.mailboxes := by
  unfold forget
  split
  · split <;> rfl
  · rfl

theorem lines_forget_sublist (roster : Roster) (address : Address) :
    (roster.forget address).1.lines.Sublist roster.lines := by
  unfold forget
  split
  · split
    · exact List.Sublist.refl _
    · rw [lines_remove]
      exact List.filter_sublist
  · exact List.Sublist.refl _

theorem Orderly.forget (orderly : roster.Orderly) (address : Address) :
    (roster.forget address).1.Orderly :=
  orderly.fewer (roster.lines_forget_sublist address)
    (Nat.le_of_eq (congrArg List.length (roster.mailboxes_forget address)).symm)

theorem queued_congr {first second : Roster} (same : first.mailboxes = second.mailboxes)
    (number : Nat) : first.queued number = second.queued number := by
  simp only [queued, same]

theorem takes_congr {first second : Roster} (same : first.mailboxes = second.mailboxes)
    (number : Nat) : first.takes number = second.takes number := by
  simp only [takes, same]

/-- What becomes of the commands in one mailbox does not concern another. -/
theorem queued_setQueue {roster : Roster} {number : Nat} {queue : List Command} {other : Nat}
    (different : other ≠ number) :
    (roster.setQueue number queue).queued other = roster.queued other := by
  simp only [queued, setQueue, List.getElem?_modify_ne _ _ (Ne.symm different)]

/-- A command that waits in a mailbox can be taken out. -/
theorem queued_rest {roster : Roster} {number : Nat} {command : Command} {rest : List Command}
    (waiting : roster.queued number = command :: rest) :
    (roster.setQueue number rest).queued number = rest := by
  unfold queued at waiting
  split at waiting
  · rename_i mailbox found
    simp [queued, setQueue, found]
  · cases waiting

theorem takes_setQueue (roster : Roster) (number : Nat) (queue : List Command) (other : Nat) :
    (roster.setQueue number queue).takes other = roster.takes other := by
  simp only [takes, setQueue, List.getElem?_modify]
  cases roster.mailboxes[other]? with
  | none => rfl
  | some mailbox => by_cases same : number = other <;> simp [same]

theorem queued_close {roster : Roster} {number other : Nat} (different : other ≠ number) :
    (roster.close number).queued other = roster.queued other := by
  simp only [queued, close, List.getElem?_modify_ne _ _ (Ne.symm different)]

theorem queued_closed (roster : Roster) (number : Nat) :
    (roster.close number).queued number = [] := by
  unfold queued close
  cases found : roster.mailboxes[number]? <;> simp [found]

/-- A new mailbox is empty. -/
theorem queued_grown {before after : Roster}
    (grown : after.mailboxes = before.mailboxes ++ [⟨[], true⟩]) (number : Nat) :
    after.queued number = before.queued number := by
  unfold queued
  by_cases inside : number < before.mailboxes.length
  · rw [grown, List.getElem?_append_left inside]
  · rw [grown, List.getElem?_append_right (Nat.not_lt.mp inside),
      List.getElem?_eq_none (Nat.not_lt.mp inside)]
    cases number - before.mailboxes.length <;> rfl

theorem takes_grown {before after : Roster}
    (grown : after.mailboxes = before.mailboxes ++ [⟨[], true⟩]) {number : Nat}
    (inside : number < before.mailboxes.length) : after.takes number = before.takes number := by
  unfold takes
  rw [grown, List.getElem?_append_left inside]

theorem takes_newest {before after : Roster}
    (grown : after.mailboxes = before.mailboxes ++ [⟨[], true⟩]) :
    after.takes before.mailboxes.length = true := by
  unfold takes
  rw [grown, List.getElem?_concat_length]

theorem queued_newest {before after : Roster}
    (grown : after.mailboxes = before.mailboxes ++ [⟨[], true⟩]) :
    after.queued before.mailboxes.length = [] := by
  unfold queued
  rw [grown, List.getElem?_concat_length]

theorem takes_close {roster : Roster} {number other : Nat} (different : other ≠ number) :
    (roster.close number).takes other = roster.takes other := by
  simp only [takes, close, List.getElem?_modify_ne _ _ (Ne.symm different)]

end BitTorrent.Roster
