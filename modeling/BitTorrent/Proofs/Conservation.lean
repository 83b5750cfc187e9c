import BitTorrent.Proofs.Ascent
import Mathlib.Algebra.GroupWithZero.Nat
import Mathlib.Algebra.Order.BigOperators.Group.Finset

/-!
Traffic through a tree of meters, with many trips under way at once. A trip pays one toll after the
other, and between any two of its tolls others may pay theirs, meters may be added and limits
changed. What a meter has counted is never more than what was sent through it directly and what the
meters below it have counted, and once all trips have ended it is exactly what was sent through it
and all meters below.
-/

set_option autoImplicit false

namespace BitTorrent

/-! ### Single tolls -/

namespace Shaper

variable {shaper : Shaper} {now bytes : Nat} {direction : Direction}

@[simp] theorem length_parents (shaper : Shaper) :
    shaper.parents.length = shaper.meters.length :=
  List.length_map _

/-- One direction of a meter. -/
def lane? (shaper : Shaper) (direction : Direction) (meter : Nat) : Option Lane :=
  (shaper.meter? meter).map (·.lane direction)

theorem total_eq (shaper : Shaper) (direction : Direction) (meter : Nat) :
    shaper.total direction meter = (shaper.lane? direction meter).elim 0 (·.total) := by
  unfold total lane?
  cases shaper.meter? meter <;> rfl

/-- A new meter has new lanes, and all others keep theirs. -/
theorem lane?_child (shaper : Shaper) (parent down up now : Nat) (direction : Direction)
    (meter : Nat) :
    (shaper.child parent down up now).1.lane? direction meter =
      if meter = shaper.meters.length then
        some ((Meter.new (some parent) down up now).lane direction)
      else shaper.lane? direction meter := by
  simp only [lane?, meter?, child]
  by_cases newest : meter = shaper.meters.length
  · simp [newest]
  · by_cases old : meter < shaper.meters.length
    · rw [List.getElem?_append_left old, if_neg newest]
    · rw [List.getElem?_eq_none (by simp; omega), List.getElem?_eq_none (by omega), if_neg newest]

/-- A new meter has counted nothing, as little as one that is not there. -/
theorem total_child (shaper : Shaper) (parent down up now : Nat) (direction : Direction)
    (meter : Nat) :
    (shaper.child parent down up now).1.total direction meter = shaper.total direction meter := by
  rw [total_eq, total_eq, lane?_child]
  split
  · rename_i newest
    have absent : shaper.meter? meter = none := List.getElem?_eq_none (by omega)
    rw [lane?, absent]
    cases direction <;> rfl
  · rfl

theorem lane?_modifyLane (shaper : Shaper) (meter : Nat) (direction : Direction)
    (change : Lane → Lane) (other : Nat) (way : Direction) :
    (shaper.modifyLane meter direction change).lane? way other =
      if meter = other ∧ direction = way then (shaper.lane? way other).map change
      else shaper.lane? way other := by
  simp only [lane?, meter?, modifyLane, List.getElem?_modify]
  cases shaper.meters[other]? with
  | none => simp
  | some found =>
    by_cases same : meter = other
    · cases direction <;> cases way <;> simp [same, Meter.setLane, Meter.lane]
    · simp [same]

/-- The lane of a meter behind a charge. -/
theorem lane?_charge (shaper : Shaper) (now : Nat) (direction : Direction) (bytes meter other : Nat)
    (way : Direction) :
    (shaper.charge now direction bytes meter).1.lane? way other =
      if meter = other ∧ direction = way then
        (shaper.lane? way other).map fun lane =>
          { lane with bucket := (lane.bucket.reserve now bytes).1 }
      else shaper.lane? way other := by
  unfold charge
  split
  · rename_i absent
    by_cases here : meter = other ∧ direction = way
    · rw [if_pos here, lane?, ← here.1, absent]
      rfl
    · rw [if_neg here]
  · rename_i found present
    rw [lane?_modifyLane]
    by_cases here : meter = other ∧ direction = way
    · rw [if_pos here, if_pos here, lane?, ← here.1, ← here.2, present]
      rfl
    · rw [if_neg here, if_neg here]

theorem pay_count (shaper : Shaper) (meter : Nat) :
    pay now direction bytes shaper [.count meter] =
      (shaper.count direction bytes meter, .through) := rfl

theorem pay_charge (shaper : Shaper) (meter : Nat) :
    (pay now direction bytes shaper [.charge meter]).1 =
      (shaper.charge now direction bytes meter).1 := by
  simp only [pay]
  split <;> rfl

end Shaper

/-! ### Trips -/

/-- Bytes that are sent through a meter and all those above it, and what is still ahead of them. A
trip is broken off where a limit asks for a wait that cannot be counted. -/
structure Trip where
  origin : Nat
  passage : Passage
  broken : Bool

/-- What is done to a limit. -/
inductive Touch where
  | opened (rate now : Nat)
  | changed (rate now : Nat)
  | charged (trip bytes now : Nat)

/-- Something that was done to one limit of a tree. -/
structure Posting where
  meter : Nat
  direction : Direction
  touch : Touch

/-- A tree of meters, all trips so far and all that was done to the limits. -/
structure Traffic where
  shaper : Shaper
  trips : List Trip
  ledger : List Posting

namespace Traffic

/-- The limits of a new meter. -/
def opened (meter down up now : Nat) : List Posting :=
  [⟨meter, .download, .opened down now⟩, ⟨meter, .upload, .opened up now⟩]

def new (down up now : Nat) : Traffic :=
  ⟨Shaper.new down up now, [], opened 0 down up now⟩

/-- What can happen: a meter is added below one that is there, a limit is changed, bytes are sent
through a meter that is there, or a trip pays the next toll. -/
inductive Event where
  | child (parent down up now : Nat)
  | limit (meter : Nat) (direction : Direction) (rate now : Nat)
  | send (meter : Nat) (direction : Direction) (bytes : Nat)
  | pay (trip now : Nat)

def child (traffic : Traffic) (parent down up now : Nat) : Traffic :=
  if parent < traffic.shaper.meters.length then
    { traffic with
      shaper := (traffic.shaper.child parent down up now).1
      ledger := traffic.ledger ++ opened traffic.shaper.meters.length down up now }
  else traffic

def limit (traffic : Traffic) (meter : Nat) (direction : Direction) (rate now : Nat) : Traffic :=
  { traffic with
    shaper := traffic.shaper.setLimit now meter direction rate
    ledger := traffic.ledger ++ [⟨meter, direction, .changed rate now⟩] }

def send (traffic : Traffic) (meter : Nat) (direction : Direction) (bytes : Nat) : Traffic :=
  if meter < traffic.shaper.meters.length then
    { traffic with
      trips := traffic.trips ++ [⟨meter, traffic.shaper.passage direction meter bytes, false⟩] }
  else traffic

/-- What a toll leaves in the ledger. -/
def noted (number now : Nat) (passage : Passage) : Toll → List Posting
  | .count _ => []
  | .charge meter => [⟨meter, passage.direction, .charged number passage.bytes now⟩]

/-- Pays the next toll of a trip that is not broken off. -/
def pay (traffic : Traffic) (number now : Nat) : Traffic :=
  match traffic.trips[number]? with
  | some ⟨origin, ⟨direction, bytes, toll :: rest⟩, false⟩ =>
    let (shaper, progress) := Shaper.pay now direction bytes traffic.shaper [toll]
    { shaper
      trips := traffic.trips.set number
        ⟨origin, ⟨direction, bytes, rest⟩, progress = .refused⟩
      ledger := traffic.ledger ++ noted number now ⟨direction, bytes, rest⟩ toll }
  | _ => traffic

def step (traffic : Traffic) : Event → Traffic
  | .child parent down up now => traffic.child parent down up now
  | .limit meter direction rate now => traffic.limit meter direction rate now
  | .send meter direction bytes => traffic.send meter direction bytes
  | .pay number now => traffic.pay number now

/-- What traffic becomes as one thing happens after the other. -/
def run (traffic : Traffic) (events : List Event) : Traffic :=
  events.foldl step traffic

theorem run_append (traffic : Traffic) (before after : List Event) :
    traffic.run (before ++ after) = (traffic.run before).run after :=
  List.foldl_append

end Traffic

/-! ### What is counted and charged -/

/-- All tolls are paid. -/
def Trip.Ended (trip : Trip) : Prop :=
  trip.passage.tolls = []

/-- The limit behind something that was done to it. -/
def Touch.follow (bucket : Option (Bucket Float)) : Touch → Option (Bucket Float)
  | .opened rate now => some (Bucket.new rate now)
  | .changed rate now => bucket.map (·.setRate now rate)
  | .charged _ bytes now => bucket.map fun bucket => (bucket.reserve now bytes).1

/-- What a trip was charged by an entry: the meter, the direction and the bytes. -/
def Posting.charge? (number : Nat) (entry : Posting) : Option (Nat × Direction × Nat) :=
  match entry.touch with
  | .charged trip bytes _ =>
    if trip = number then some (entry.meter, entry.direction, bytes) else none
  | _ => none

/-- The meters directly below another. -/
def Shaper.children (shaper : Shaper) (meter : Nat) : Finset Nat :=
  {child ∈ Finset.range shaper.meters.length | shaper.parent? child = some meter}

namespace Traffic

/-- The bytes that were sent one way through certain meters directly. -/
def sent (traffic : Traffic) (direction : Direction) (certain : Nat → Prop)
    [DecidablePred certain] : Nat :=
  (traffic.trips.map fun trip =>
    if trip.passage.direction = direction ∧ certain trip.origin then trip.passage.bytes else 0).sum

/-- All that a trip was charged so far. -/
def charges (traffic : Traffic) (number : Nat) : List (Nat × Direction × Nat) :=
  traffic.ledger.filterMap (·.charge? number)

/-- A limit as it comes of what was done to it. -/
def limitOf (traffic : Traffic) (direction : Direction) (meter : Nat) : Option (Bucket Float) :=
  traffic.ledger.foldl (fun bucket entry =>
    if entry.meter = meter ∧ entry.direction = direction then entry.touch.follow bucket
    else bucket) none

/-- What the counters and the limits of a tree have to do with the trips. A trip that has ended was
charged once by its own meter and by each above it, and by no other. -/
structure Accounted (traffic : Traffic) : Prop where
  bounded : ∀ direction meter, traffic.shaper.total direction meter ≤
    traffic.sent direction (· = meter) +
      ∑ child ∈ traffic.shaper.children meter, traffic.shaper.total direction child
  settled : (∀ trip ∈ traffic.trips, trip.Ended) → ∀ direction meter,
    traffic.shaper.total direction meter =
      traffic.sent direction (meter ∈ traffic.shaper.path ·)
  charged : ∀ number trip, traffic.trips[number]? = some trip → trip.Ended →
    traffic.charges number = (traffic.shaper.path trip.origin).map
      (·, trip.passage.direction, trip.passage.bytes)
  limits : ∀ direction meter,
    (traffic.shaper.lane? direction meter).map (·.bucket) = traffic.limitOf direction meter
  ways : ∀ meter < traffic.shaper.meters.length, (traffic.shaper.path meter).Nodup ∧
    ∀ above, above ∈ traffic.shaper.path meter ↔ traffic.shaper.Reaches meter above

end Traffic

/-! ### The tolls of a trip -/

/-- The meter that a toll is due at. -/
def Toll.meter : Toll → Nat
  | .count meter => meter
  | .charge meter => meter

/-- The meter that charges by a toll. -/
def Toll.charged? : Toll → Option Nat
  | .count _ => none
  | .charge meter => some meter

namespace Shaper

variable {shaper : Shaper} {direction : Direction} {meter : Nat}

/-- All tolls from a meter up to the root. -/
def road (shaper : Shaper) (direction : Direction) (meter : Nat) : List Toll :=
  (shaper.path meter).flatMap (tollsAt direction)

theorem mem_road (shaper : Shaper) (direction : Direction) (meter : Nat) (toll : Toll) :
    toll ∈ shaper.road direction meter ↔
      ∃ above ∈ shaper.path meter, toll = .count above ∨ toll = .charge above := by
  rw [road, List.mem_flatMap]
  apply exists_congr
  intro above
  apply and_congr_right
  intro _
  cases direction with
  | download => simp [tollsAt]
  | upload => simp [tollsAt, or_comm]

theorem road_nodup (rooted : shaper.Rooted) (present : meter < shaper.parents.length)
    (direction : Direction) : (shaper.road direction meter).Nodup := by
  rw [road, List.nodup_flatMap]
  constructor
  · intro above _
    cases direction <;> simp [tollsAt]
  · apply (path_descends rooted present).imp
    intro first second lower
    have different : second ≠ first := Nat.ne_of_lt lower
    change List.Disjoint (tollsAt direction first) (tollsAt direction second)
    cases direction <;> simp [tollsAt, different]

/-- Tolls are due from the bottom to the top, and so they are paid. -/
theorem road_descends (rooted : shaper.Rooted) (present : meter < shaper.parents.length)
    (direction : Direction) :
    (shaper.road direction meter).Pairwise fun earlier later => later.meter ≤ earlier.meter := by
  rw [road, List.pairwise_flatMap]
  constructor
  · intro above _
    cases direction <;> simp [tollsAt, Toll.meter]
  · apply (path_descends rooted present).imp
    intro first second lower earlier inFirst later inSecond
    have here : earlier.meter = first := by
      cases direction <;> simp [tollsAt] at inFirst <;> rcases inFirst with rfl | rfl <;> rfl
    have there : later.meter = second := by
      cases direction <;> simp [tollsAt] at inSecond <;> rcases inSecond with rfl | rfl <;> rfl
    omega

/-- Every meter on the way charges once. -/
theorem road_charges (shaper : Shaper) (direction : Direction) (meter : Nat) :
    (shaper.road direction meter).filterMap Toll.charged? = shaper.path meter := by
  unfold road
  induction shaper.path meter with
  | nil => rfl
  | cons above rest ih =>
    rw [List.flatMap_cons, List.filterMap_append, ih]
    cases direction <;> rfl

end Shaper

namespace Trip

variable {shaper : Shaper} {trip : Trip} {direction : Direction} {meter child : Nat}

/-- What a meter has counted for a trip: its bytes, as soon as that toll is not ahead any more. -/
def share (shaper : Shaper) (direction : Direction) (meter : Nat) (trip : Trip) : Nat :=
  if trip.passage.direction = direction ∧ meter ∈ shaper.path trip.origin ∧
      Toll.count meter ∉ trip.passage.tolls then trip.passage.bytes
  else 0

/-- A trip starts at a meter that is there, and what is ahead of it is the end of its way. -/
structure OnWay (shaper : Shaper) (trip : Trip) : Prop where
  present : trip.origin < shaper.parents.length
  ahead : trip.passage.tolls <:+ shaper.road trip.passage.direction trip.origin

/-- Who is counted by a meter was counted by all those below on its way. -/
theorem OnWay.counted (onWay : trip.OnWay shaper) (rooted : shaper.Rooted)
    (inside : meter ∈ shaper.path trip.origin) (lower : meter < child)
    (counted : Toll.count meter ∉ trip.passage.tolls) :
    Toll.count child ∉ trip.passage.tolls := by
  intro due
  obtain ⟨paid, whole⟩ := onWay.ahead
  have ordered := Shaper.road_descends rooted onWay.present trip.passage.direction
  have passed := (shaper.mem_road trip.passage.direction trip.origin (.count meter)).mpr
    ⟨meter, inside, Or.inl rfl⟩
  rw [← whole] at ordered passed
  rcases List.mem_append.mp passed with before | later
  · have wrong := (List.pairwise_append.mp ordered).2.2 _ before _ due
    simp only [Toll.meter] at wrong
    omega
  · exact counted later

/-- What a meter has counted for a trip was sent through it directly, or one of those below has
counted it. -/
theorem OnWay.share_le (onWay : trip.OnWay shaper) (rooted : shaper.Rooted)
    (direction : Direction) (meter : Nat) :
    trip.share shaper direction meter ≤
      (if trip.passage.direction = direction ∧ trip.origin = meter then trip.passage.bytes else 0) +
        ∑ child ∈ shaper.children meter, trip.share shaper direction child := by
  by_cases counted : trip.passage.direction = direction ∧ meter ∈ shaper.path trip.origin ∧
      Toll.count meter ∉ trip.passage.tolls
  · obtain ⟨way, inside, passed⟩ := counted
    by_cases first : meter = trip.origin
    · rw [if_pos ⟨way, first.symm⟩, share, if_pos ⟨way, inside, passed⟩]
      omega
    · obtain ⟨child, below, up⟩ := Shaper.exists_child rooted onWay.present inside first
      have lower := Shaper.parent?_lt rooted up
      have before := onWay.counted rooted inside lower passed
      have listed : child ∈ shaper.children meter := by
        have there := Shaper.parent?_inside up
        simp only [Shaper.length_parents] at there
        simp [Shaper.children, there, up]
      have most := Finset.single_le_sum
        (fun child _ => Nat.zero_le (trip.share shaper direction child)) listed
      have same : trip.share shaper direction child = trip.share shaper direction meter := by
        rw [share, share, if_pos ⟨way, below, before⟩, if_pos ⟨way, inside, passed⟩]
      omega
  · rw [share, if_neg counted]
    exact Nat.zero_le _

/-- The way of a trip stays what it is when meters are added. -/
theorem OnWay.grown (onWay : trip.OnWay shaper) (rooted : shaper.Rooted) {after : Shaper}
    (others : after.Rooted) (longer : shaper.parents <+: after.parents) :
    trip.OnWay after ∧ after.path trip.origin = shaper.path trip.origin := by
  have same := Shaper.path_congr rooted others onWay.present longer
  refine ⟨⟨?_, ?_⟩, same⟩
  · have more := longer.length_le
    have present := onWay.present
    omega
  · rw [Shaper.road, same]
    exact onWay.ahead

/-- A toll that is the next one of a trip is due at a meter of its way, and not a second time. -/
theorem OnWay.next {origin bytes : Nat} {toll : Toll} {rest : List Toll}
    (onWay : (Trip.mk origin ⟨direction, bytes, toll :: rest⟩ false).OnWay shaper)
    (rooted : shaper.Rooted) :
    toll.meter ∈ shaper.path origin ∧ toll ∉ rest ∧ ∀ broken,
      (Trip.mk origin ⟨direction, bytes, rest⟩ broken).OnWay shaper := by
  obtain ⟨present, ahead⟩ := onWay
  have inside := (shaper.mem_road direction origin toll).mp (ahead.subset List.mem_cons_self)
  have once := (List.IsSuffix.sublist ahead).nodup (Shaper.road_nodup rooted present direction)
  refine ⟨?_, (List.nodup_cons.mp once).1, fun _ => ⟨present, ?_⟩⟩
  · obtain ⟨above, inside, rfl | rfl⟩ := inside
    · exact inside
    · exact inside
  · exact (List.suffix_cons toll rest).trans ahead

end Trip

/-! ### Events -/

theorem sum_set {α : Type} {list : List α} {index : Nat} {old : α} (value : α → Nat)
    (found : list[index]? = some old) (new : α) :
    ((list.set index new).map value).sum + value old = (list.map value).sum + value new := by
  induction list generalizing index with
  | nil => simp at found
  | cons first rest ih =>
    cases index with
    | zero =>
      simp only [List.getElem?_cons_zero, Option.some.injEq] at found
      subst found
      simp only [List.set_cons_zero, List.map_cons, List.sum_cons]
      omega
    | succ index =>
      simp only [List.getElem?_cons_succ] at found
      have later := ih found
      simp only [List.set_cons_succ, List.map_cons, List.sum_cons]
      omega

namespace Traffic

variable {traffic : Traffic} {direction : Direction} {meter number : Nat}

/-- Every trip is on its way, its charges are those of the tolls behind it, and a meter has counted
what the trips have left there. -/
structure Sound (traffic : Traffic) : Prop where
  rooted : traffic.shaper.Rooted
  onWay : ∀ trip ∈ traffic.trips, trip.OnWay traffic.shaper
  charged : ∀ number trip, traffic.trips[number]? = some trip →
    traffic.charges number ++ (trip.passage.tolls.filterMap Toll.charged?).map
        (·, trip.passage.direction, trip.passage.bytes) =
      (traffic.shaper.path trip.origin).map (·, trip.passage.direction, trip.passage.bytes)
  unborn : ∀ number, traffic.trips.length ≤ number → traffic.charges number = []
  totals : ∀ direction meter, traffic.shaper.total direction meter =
    (traffic.trips.map (Trip.share traffic.shaper direction meter)).sum
  limits : ∀ direction meter,
    (traffic.shaper.lane? direction meter).map (·.bucket) = traffic.limitOf direction meter

theorem limitOf_append {after : Traffic} {entries : List Posting}
    (longer : after.ledger = traffic.ledger ++ entries) (direction : Direction) (meter : Nat) :
    after.limitOf direction meter =
      entries.foldl (fun bucket entry =>
        if entry.meter = meter ∧ entry.direction = direction then entry.touch.follow bucket
        else bucket) (traffic.limitOf direction meter) := by
  rw [limitOf, longer, List.foldl_append]
  rfl

theorem charges_append {after : Traffic} {entries : List Posting}
    (longer : after.ledger = traffic.ledger ++ entries) (number : Nat) :
    after.charges number = traffic.charges number ++ entries.filterMap (·.charge? number) := by
  rw [charges, longer, List.filterMap_append]
  rfl

/-- An event that moves no trip: meters may be added to the tree, and nobody is charged. -/
theorem Sound.still (sound : traffic.Sound) {after : Traffic} {entries : List Posting}
    (trips : after.trips = traffic.trips) (rooted : after.shaper.Rooted)
    (grown : traffic.shaper.parents <+: after.shaper.parents)
    (totals : ∀ direction meter,
      after.shaper.total direction meter = traffic.shaper.total direction meter)
    (ledger : after.ledger = traffic.ledger ++ entries)
    (uncharged : ∀ number, entries.filterMap (·.charge? number) = [])
    (limits : ∀ direction meter,
      (after.shaper.lane? direction meter).map (·.bucket) = after.limitOf direction meter) :
    after.Sound := by
  have ways := fun trip member => (sound.onWay trip member).grown sound.rooted rooted grown
  have charges : ∀ number, after.charges number = traffic.charges number := by
    intro number
    rw [charges_append ledger, uncharged, List.append_nil]
  refine ⟨rooted, ?_, ?_, ?_, ?_, limits⟩
  · rw [trips]
    exact fun trip member => (ways trip member).1
  · rw [trips]
    intro number trip found
    rw [(ways trip (List.mem_of_getElem? found)).2, charges]
    exact sound.charged number trip found
  · rw [trips]
    intro number behind
    rw [charges]
    exact sound.unborn number behind
  · intro direction meter
    rw [totals, sound.totals, trips]
    apply congrArg List.sum
    apply List.map_congr_left
    intro trip member
    rw [Trip.share, Trip.share, (ways trip member).2]

theorem Sound.child (sound : traffic.Sound) (parent down up now : Nat) :
    (traffic.child parent down up now).Sound := by
  unfold Traffic.child
  split
  case isFalse => exact sound
  case isTrue present =>
  have rooted := Shaper.child_rooted sound.rooted
    (show parent < traffic.shaper.parents.length by simpa using present) down up now
  refine sound.still rfl rooted ?_ ?_ rfl (fun _ => rfl) ?_
  · simp [Shaper.parents, Shaper.child]
  · exact traffic.shaper.total_child parent down up now
  · intro direction meter
    rw [limitOf_append rfl, ← sound.limits direction meter, Shaper.lane?_child]
    by_cases newest : meter = traffic.shaper.meters.length
    · subst newest
      cases direction <;> simp [opened, Touch.follow, Meter.new, Meter.lane, Lane.new]
    · simp [opened, newest, Ne.symm newest]

theorem Sound.limit (sound : traffic.Sound) (meter : Nat) (direction : Direction) (rate now : Nat) :
    (traffic.limit meter direction rate now).Sound := by
  have parents := traffic.shaper.parents_modifyLane meter direction
    fun lane => { lane with bucket := lane.bucket.setRate now rate }
  have lanes := traffic.shaper.lane?_modifyLane meter direction
    fun lane => { lane with bucket := lane.bucket.setRate now rate }
  refine sound.still rfl ?_ ?_ ?_ rfl (fun _ => rfl) ?_
  · unfold Shaper.Rooted
    rw [Traffic.limit, Shaper.setLimit, parents]
    exact sound.rooted
  · rw [Traffic.limit, Shaper.setLimit, parents]
  · intro way other
    rw [Traffic.limit, Shaper.setLimit, Shaper.total_eq, Shaper.total_eq, lanes]
    split
    · cases traffic.shaper.lane? way other <;> rfl
    · rfl
  · intro way other
    rw [limitOf_append rfl, ← sound.limits way other, Traffic.limit, Shaper.setLimit, lanes]
    by_cases here : meter = other ∧ direction = way
    · simp only [if_pos here, List.foldl_cons, List.foldl_nil, Touch.follow, Option.map_map]
      rfl
    · simp only [if_neg here, List.foldl_cons, List.foldl_nil]

/-- What is sent has not been counted yet. -/
theorem Sound.send (sound : traffic.Sound) (meter : Nat) (direction : Direction) (bytes : Nat) :
    (traffic.send meter direction bytes).Sound := by
  unfold Traffic.send
  split
  case isFalse => exact sound
  case isTrue present =>
  have inside : meter < traffic.shaper.parents.length := by simpa using present
  refine ⟨sound.rooted, ?_, ?_, ?_, ?_, sound.limits⟩
  · intro trip member
    rcases List.mem_append.mp member with old | new
    · exact sound.onWay trip old
    · rw [List.mem_singleton.mp new]
      exact ⟨inside, List.suffix_rfl⟩
  · intro number trip found
    rcases Nat.lt_or_ge number traffic.trips.length with old | behind
    · rw [List.getElem?_append_left old] at found
      exact sound.charged number trip found
    · rw [List.getElem?_append_right behind] at found
      obtain ⟨-, rfl⟩ := List.getElem?_eq_some_iff.mp found
      have nothing := sound.unborn number behind
      have tolls := traffic.shaper.road_charges direction meter
      simp only [List.getElem_singleton]
      rw [Traffic.charges] at nothing ⊢
      rw [nothing, List.nil_append]
      exact congrArg _ tolls
  · intro number behind
    apply sound.unborn number
    rw [List.length_append, List.length_singleton] at behind
    omega
  · intro way other
    rw [sound.totals way other, List.map_append, List.sum_append]
    have nothing : Trip.share traffic.shaper way other
        ⟨meter, traffic.shaper.passage direction meter bytes, false⟩ = 0 := by
      apply if_neg
      rintro ⟨-, passed, counted⟩
      exact counted ((traffic.shaper.mem_road direction meter _).mpr ⟨other, passed, Or.inl rfl⟩)
    simp [nothing]

/-- What one toll adds to the total of a meter. -/
theorem total_toll {shaper : Shaper} {toll : Toll} (present : toll.meter < shaper.parents.length)
    (now bytes : Nat) (direction way : Direction) (other : Nat) :
    (Shaper.pay now direction bytes shaper [toll]).1.total way other =
      shaper.total way other + if toll = .count other ∧ direction = way then bytes else 0 := by
  cases toll with
  | count meter =>
    obtain ⟨found, here⟩ := Shaper.meter?_eq_some present
    rw [Shaper.pay_count, Shaper.count, Shaper.total_eq, Shaper.total_eq, Shaper.lane?_modifyLane]
    by_cases counted : meter = other ∧ direction = way
    · obtain ⟨rfl, rfl⟩ := counted
      simp only [Toll.meter] at here
      simp [Shaper.lane?, here]
    · simp [counted]
  | charge meter =>
    rw [Shaper.pay_charge, Shaper.total_eq, Shaper.total_eq, Shaper.lane?_charge]
    by_cases here : meter = other ∧ direction = way
    · rw [if_pos here]
      cases shaper.lane? way other <;> simp
    · simp [here]

/-- What one toll does to a limit is what it leaves in the ledger. -/
theorem limit_toll (shaper : Shaper) (toll : Toll) (number now bytes : Nat)
    (direction way : Direction) (rest : List Toll) (other : Nat) :
    ((Shaper.pay now direction bytes shaper [toll]).1.lane? way other).map (·.bucket) =
      (noted number now ⟨direction, bytes, rest⟩ toll).foldl (fun bucket entry =>
        if entry.meter = other ∧ entry.direction = way then entry.touch.follow bucket
        else bucket) ((shaper.lane? way other).map (·.bucket)) := by
  cases toll with
  | count meter =>
    rw [Shaper.pay_count, Shaper.count, Shaper.lane?_modifyLane]
    split
    · cases shaper.lane? way other <;> rfl
    · rfl
  | charge meter =>
    rw [Shaper.pay_charge, Shaper.lane?_charge]
    simp only [noted, List.foldl_cons, List.foldl_nil]
    by_cases here : meter = other ∧ direction = way
    · rw [if_pos here, if_pos here]
      cases shaper.lane? way other <;> rfl
    · rw [if_neg here, if_neg here]

/-- A toll that is paid is counted for its trip, if it is one to count. -/
theorem share_toll {shaper : Shaper} (rooted : shaper.Rooted) {origin bytes : Nat} {toll : Toll}
    {rest : List Toll} {direction : Direction}
    (onWay : (Trip.mk origin ⟨direction, bytes, toll :: rest⟩ false).OnWay shaper)
    (broken : Bool) (way : Direction) (other : Nat) :
    Trip.share shaper way other ⟨origin, ⟨direction, bytes, rest⟩, broken⟩ =
      Trip.share shaper way other ⟨origin, ⟨direction, bytes, toll :: rest⟩, false⟩ +
        if toll = .count other ∧ direction = way then bytes else 0 := by
  obtain ⟨inside, once, -⟩ := onWay.next rooted
  simp only [Trip.share]
  by_cases counted : toll = .count other
  · subst counted
    simp only [Toll.meter] at inside
    simp [inside, once]
  · have apart : Toll.count other ≠ toll := Ne.symm counted
    simp [counted, apart]

theorem charges_noted (number other now bytes : Nat) (direction : Direction) (toll : Toll)
    (rest : List Toll) :
    (noted number now ⟨direction, bytes, rest⟩ toll).filterMap (·.charge? other) =
      if number = other then toll.charged?.toList.map (·, direction, bytes) else [] := by
  cases toll with
  | count meter => simp [noted, Toll.charged?]
  | charge meter =>
    by_cases same : number = other <;> simp [noted, Posting.charge?, Toll.charged?, same]

/-- The trip that pays a toll has been charged for what is no longer ahead, and no other trip is
charged by it. -/
theorem Sound.charged_set (sound : traffic.Sound) {origin bytes : Nat} {direction : Direction}
    {toll : Toll} {rest : List Toll}
    (found : traffic.trips[number]? = some ⟨origin, ⟨direction, bytes, toll :: rest⟩, false⟩)
    (broken : Bool) (now other : Nat) {trip : Trip}
    (located : (traffic.trips.set number ⟨origin, ⟨direction, bytes, rest⟩, broken⟩)[other]? =
      some trip) :
    traffic.charges other ++
        (noted number now ⟨direction, bytes, rest⟩ toll).filterMap (·.charge? other) ++
        (trip.passage.tolls.filterMap Toll.charged?).map
          (·, trip.passage.direction, trip.passage.bytes) =
      (traffic.shaper.path trip.origin).map (·, trip.passage.direction, trip.passage.bytes) := by
  rw [charges_noted]
  by_cases same : number = other
  · subst same
    have before := sound.charged number _ found
    rw [List.getElem?_set_self (List.getElem?_eq_some_iff.mp found).1, Option.some.injEq] at located
    subst located
    rw [if_pos rfl]
    dsimp only at before ⊢
    rw [← before, List.append_assoc, List.filterMap_cons]
    cases toll <;> rfl
  · rw [List.getElem?_set_ne same] at located
    rw [if_neg same, List.append_nil]
    exact sound.charged other trip located

/-- What the meters have counted for all trips behind a toll. -/
theorem Sound.shares_set (sound : traffic.Sound) {origin bytes : Nat} {direction : Direction}
    {toll : Toll} {rest : List Toll}
    (found : traffic.trips[number]? = some ⟨origin, ⟨direction, bytes, toll :: rest⟩, false⟩)
    (broken : Bool) (way : Direction) (other : Nat) :
    ((traffic.trips.set number ⟨origin, ⟨direction, bytes, rest⟩, broken⟩).map
        (Trip.share traffic.shaper way other)).sum =
      traffic.shaper.total way other +
        if toll = .count other ∧ direction = way then bytes else 0 := by
  have moved := sum_set (Trip.share traffic.shaper way other) found
    ⟨origin, ⟨direction, bytes, rest⟩, broken⟩
  rw [share_toll sound.rooted (sound.onWay _ (List.mem_of_getElem? found))] at moved
  rw [sound.totals]
  omega

theorem Sound.pay (sound : traffic.Sound) (number now : Nat) :
    (traffic.pay number now).Sound := by
  unfold Traffic.pay
  split
  case h_2 => exact sound
  case h_1 origin direction bytes toll rest found =>
  have onWay := sound.onWay _ (List.mem_of_getElem? found)
  obtain ⟨passed, -, further⟩ := onWay.next sound.rooted
  have present : toll.meter < traffic.shaper.parents.length :=
    (Shaper.path_le sound.rooted passed).trans_lt onWay.present
  have parents := Shaper.parents_pay now direction bytes [toll] traffic.shaper
  have totals := total_toll present now bytes direction
  have limits := limit_toll traffic.shaper toll number now bytes direction
  generalize Shaper.pay now direction bytes traffic.shaper [toll] = paid at parents totals limits
  obtain ⟨shaper, progress⟩ := paid
  dsimp only at parents totals limits ⊢
  have rooted : shaper.Rooted := by
    unfold Shaper.Rooted
    rw [parents]
    exact sound.rooted
  have ways : ∀ trip ∈ traffic.trips.set number
      ⟨origin, ⟨direction, bytes, rest⟩, decide (progress = .refused)⟩,
      trip.OnWay shaper ∧ shaper.path trip.origin = traffic.shaper.path trip.origin := by
    intro trip among
    have before : trip.OnWay traffic.shaper := by
      rcases List.mem_or_eq_of_mem_set among with old | rfl
      · exact sound.onWay trip old
      · exact further _
    exact before.grown sound.rooted rooted (parents ▸ List.prefix_rfl)
  refine ⟨rooted, fun trip among => (ways trip among).1, ?_, ?_, ?_, ?_⟩
  · intro other trip located
    rw [(ways trip (List.mem_of_getElem? located)).2, charges_append rfl]
    exact sound.charged_set found _ now other located
  · intro other behind
    rw [List.length_set] at behind
    have inside := (List.getElem?_eq_some_iff.mp found).1
    rw [charges_append rfl, sound.unborn other behind, charges_noted, if_neg (by omega)]
    rfl
  · intro way other
    rw [totals, ← sound.shares_set found]
    apply congrArg List.sum
    apply List.map_congr_left
    intro trip among
    rw [Trip.share, Trip.share, (ways trip among).2]
  · intro way other
    rw [limitOf_append rfl, ← sound.limits way other]
    exact limits way rest other

/-- One event keeps the account. -/
theorem Sound.step (sound : traffic.Sound) (event : Event) : (traffic.step event).Sound := by
  cases event with
  | child parent down up now => exact sound.child parent down up now
  | limit meter direction rate now => exact sound.limit meter direction rate now
  | send meter direction bytes => exact sound.send meter direction bytes
  | pay number now => exact sound.pay number now

theorem Sound.run (sound : traffic.Sound) (events : List Event) : (traffic.run events).Sound := by
  induction events generalizing traffic with
  | nil => exact sound
  | cons event rest ih => exact ih (sound.step event)

/-! ### The account -/

theorem sum_shares (direction : Direction) (meter : Nat) (trips : List Trip)
    (onWay : ∀ trip ∈ trips, trip.OnWay traffic.shaper) (rooted : traffic.shaper.Rooted) :
    (trips.map (Trip.share traffic.shaper direction meter)).sum ≤
      (trips.map fun trip => if trip.passage.direction = direction ∧ trip.origin = meter
          then trip.passage.bytes else 0).sum +
        ∑ child ∈ traffic.shaper.children meter,
          (trips.map (Trip.share traffic.shaper direction child)).sum := by
  induction trips with
  | nil => simp
  | cons trip rest ih =>
    have first := (onWay trip List.mem_cons_self).share_le rooted direction meter
    have later := ih fun other among => onWay other (List.mem_cons_of_mem _ among)
    simp only [List.map_cons, List.sum_cons, Finset.sum_add_distrib]
    omega

/-- The share of a trip that has ended is all its bytes, wherever it came along. -/
theorem share_ended {trip : Trip} (ended : trip.Ended) (shaper : Shaper) (direction : Direction)
    (meter : Nat) :
    trip.share shaper direction meter =
      if trip.passage.direction = direction ∧ meter ∈ shaper.path trip.origin
      then trip.passage.bytes else 0 := by
  unfold Trip.Ended at ended
  simp [Trip.share, ended]

theorem Sound.accounted (sound : traffic.Sound) : traffic.Accounted where
  bounded := by
    intro direction meter
    have most := sum_shares direction meter traffic.trips sound.onWay sound.rooted
    simp only [← sound.totals] at most
    exact most
  settled := by
    intro ended direction meter
    rw [sound.totals, sent]
    apply congrArg List.sum
    apply List.map_congr_left
    exact fun trip among => share_ended (ended trip among) ..
  charged := by
    intro number trip found ended
    have paid := sound.charged number trip found
    rw [ended] at paid
    simpa using paid
  limits := sound.limits
  ways := by
    intro meter inside
    rw [← Shaper.length_parents] at inside
    constructor
    · exact (Shaper.path_descends sound.rooted inside).imp Nat.ne_of_gt
    · exact fun above => Shaper.mem_path sound.rooted inside

/-! ### Moving on -/

/-- What a trip is behind some progress: a wait keeps what is still ahead. -/
def moved (trip : Trip) : Progress → Trip → Prop
  | .through, after => after = { trip with passage.tolls := [] }
  | .waits _ rest, after => after = { trip with passage := rest }
  | .refused, after => after.origin = trip.origin ∧ after.broken = true

end Traffic

end BitTorrent
