import BitTorrent.Proofs.Reachable

/-!
Without the end game every piece is fetched from one peer at most. The shared assignments and the
sessions agree on who that is, and only that peer is asked for blocks that are missing.
-/

set_option autoImplicit false

namespace BitTorrent

/-- A request for a block that is not fetched yet. -/
def Download.Lacks (download : Download) (request : BlockRequest) : Prop :=
  ∃ piece number, download.torrent.piece? request.piece = some piece ∧
    number < piece.blockCount ∧ request.start = (piece.block number).offset ∧
    request.length = (piece.block number).length ∧
    download.holdings.isFetched request.piece number = false

/-- Requests for missing blocks go to the peer that their piece is assigned to. -/
structure Peer.Faithful (peer : Peer) (download : Download) : Prop where
  distinct : peer.session.downloads.Nodup
  assigned : ∀ {request}, request ∈ peer.session.downloads →
    download.holdings.has request.piece = false → peer.session.assigned = some request.piece
  lacking : ∀ {request}, request ∈ peer.session.downloads →
    download.holdings.has request.piece = false → download.Lacks request

/-- The assignments name every piece once, and they say what the sessions of the connected peers
say. -/
structure Exclusive (download : Download) (connected : Peer → Prop) : Prop where
  single : (download.assignments.map (·.1)).Nodup
  owned : ∀ {piece address}, (piece, address) ∈ download.assignments →
    ∃ peer, connected peer ∧ peer.address = address
  agree : ∀ {peer piece}, connected peer →
    ((piece, peer.address) ∈ download.assignments ↔ peer.session.assigned = some piece)
  faithful : ∀ {peer}, connected peer → peer.Faithful download

/-- One peer among others. -/
def Among (peer : Peer) (others : Peer → Prop) (other : Peer) : Prop :=
  other = peer ∨ others other

namespace Exclusive

variable {download later : Download} {peer changed : Peer} {others : Peer → Prop}

theorem unique (exclusive : Exclusive download others) {first second : Peer} {piece : Nat}
    (left : others first) (right : others second) (mine : first.session.assigned = some piece)
    (yours : second.session.assigned = some piece) : first.address = second.address := by
  have pair := List.inj_on_of_nodup_map exclusive.single ((exclusive.agree left).mpr mine)
    ((exclusive.agree right).mpr yours) rfl
  exact congrArg Prod.snd pair

/-- What a handler has to see to when it changes what it shares with the others. -/
structure Change (download later : Download) (peer changed : Peer) : Prop where
  torrent : later.torrent = download.torrent
  address : changed.address = peer.address
  single : (later.assignments.map (·.1)).Nodup
  foreign : ∀ {piece address}, address ≠ peer.address →
    ((piece, address) ∈ later.assignments ↔ (piece, address) ∈ download.assignments)
  own : ∀ {piece}, (piece, peer.address) ∈ later.assignments ↔ changed.session.assigned = some piece
  complete : ∀ {piece}, download.holdings.has piece = true → later.holdings.has piece = true
  missing : ∀ {piece number}, peer.session.assigned ≠ some piece →
    later.holdings.has piece = false → download.holdings.isFetched piece number = false →
    later.holdings.isFetched piece number = false
  faithful : changed.Faithful later

theorem change (exclusive : Exclusive download (Among peer others))
    (apart : ∀ other, others other → other.address ≠ peer.address)
    (change : Change download later peer changed) : Exclusive later (Among changed others) where
  single := change.single
  owned := by
    intro piece address member
    by_cases same : address = peer.address
    · exact ⟨changed, Or.inl rfl, change.address.trans same.symm⟩
    · obtain ⟨other, connected, rfl⟩ := exclusive.owned ((change.foreign same).mp member)
      rcases connected with rfl | connected
      · exact absurd rfl same
      · exact ⟨other, Or.inr connected, rfl⟩
  agree := by
    intro other piece connected
    rcases connected with rfl | connected
    · rw [change.address]
      exact change.own
    · rw [change.foreign (apart other connected)]
      exact exclusive.agree (Or.inr connected)
  faithful := by
    intro other connected
    rcases connected with rfl | connected
    · exact change.faithful
    · have before := exclusive.faithful (Or.inr connected : Among peer others other)
      have incomplete : ∀ {piece}, later.holdings.has piece = false →
          download.holdings.has piece = false := by
        intro piece lacking
        cases held : download.holdings.has piece with
        | false => rfl
        | true => exact nomatch lacking.symm.trans (change.complete held)
      refine ⟨before.distinct, fun asked lacking => before.assigned asked (incomplete lacking), ?_⟩
      intro request asked lacking
      obtain ⟨piece, number, found, inside, start, length, fetched⟩ :=
        before.lacking asked (incomplete lacking)
      have assigned := before.assigned asked (incomplete lacking)
      have free : peer.session.assigned ≠ some request.piece := by
        intro mine
        exact apart other connected (exclusive.unique (Or.inr connected) (Or.inl rfl) assigned mine)
      exact ⟨piece, number, change.torrent ▸ found, inside, start, length,
        change.missing free lacking fetched⟩

/-- Nothing is assigned or fetched, and nothing else is asked for. -/
theorem Change.still (exclusive : Exclusive download (Among peer others))
    (torrent : later.torrent = download.torrent)
    (assignments : later.assignments = download.assignments)
    (holdings : later.holdings = download.holdings) (address : changed.address = peer.address)
    (assigned : changed.session.assigned = peer.session.assigned)
    (distinct : changed.session.downloads.Nodup)
    (fewer : changed.session.downloads ⊆ peer.session.downloads) :
    Change download later peer changed where
  torrent := torrent
  address := address
  single := assignments ▸ exclusive.single
  foreign := fun _ => by rw [assignments]
  own := by
    rw [assignments, assigned]
    exact exclusive.agree (Or.inl rfl)
  complete := holdings ▸ id
  missing := fun _ _ fetched => holdings ▸ fetched
  faithful := by
    have before := exclusive.faithful (Or.inl rfl : Among peer others peer)
    refine ⟨distinct, ?_, ?_⟩
    · intro request asked lacking
      rw [assigned]
      exact before.assigned (fewer asked) (holdings ▸ lacking)
    · intro request asked lacking
      obtain ⟨piece, number, found, rest⟩ :=
        before.lacking (fewer asked) (holdings ▸ lacking)
      exact ⟨piece, number, torrent ▸ found, holdings ▸ rest⟩

/-- Nothing is assigned or fetched, and requests are at most given up. -/
theorem Change.quiet (exclusive : Exclusive download (Among peer others))
    (torrent : later.torrent = download.torrent)
    (assignments : later.assignments = download.assignments)
    (holdings : later.holdings = download.holdings) (address : changed.address = peer.address)
    (assigned : changed.session.assigned = peer.session.assigned)
    (fewer : changed.session.downloads.Sublist peer.session.downloads) :
    Change download later peer changed :=
  .still exclusive torrent assignments holdings address assigned
    ((exclusive.faithful (Or.inl rfl)).distinct.sublist fewer) fewer.subset

theorem mem_free {session : Session} {piece : Nat} {address : Address} :
    (piece, address) ∈ (download.free session).assignments ↔
      (piece, address) ∈ download.assignments ∧
        ¬(session.assigned = some piece ∧ address = session.address) := by
  unfold Download.free
  cases assigned : session.assigned with
  | none => simp
  | some mine =>
    simp only [Download.release, List.mem_filter, Option.some.injEq]
    rw [@eq_comm _ mine]
    simp only [Bool.not_eq_true', Bool.and_eq_false_iff, decide_eq_false_iff_not, not_and_or]

theorem single_free (single : (download.assignments.map (·.1)).Nodup) (session : Session) :
    ((download.free session).assignments.map (·.1)).Nodup := by
  unfold Download.free
  split
  · exact single.sublist (List.filter_sublist.map _)
  · exact single

/-- The piece of a peer is given back; no block of it is on its way. -/
theorem Change.freed (exclusive : Exclusive download (Among peer others))
    (torrent : later.torrent = download.torrent)
    (assignments : later.assignments = (download.free peer.session).assignments)
    (holdings : later.holdings = download.holdings) (address : changed.address = peer.address)
    (unassigned : changed.session.assigned = none)
    (fewer : changed.session.downloads.Sublist peer.session.downloads)
    (useless : ∀ request ∈ changed.session.downloads,
      download.holdings.has request.piece = true) :
    Change download later peer changed where
  torrent := torrent
  address := address
  single := assignments ▸ single_free exclusive.single peer.session
  foreign := by
    intro piece other different
    rw [assignments, mem_free]
    exact ⟨And.left, fun member => ⟨member, fun mine => different mine.2⟩⟩
  own := by
    intro piece
    rw [assignments, mem_free, unassigned]
    constructor
    · rintro ⟨member, released⟩
      exact absurd ⟨(exclusive.agree (Or.inl rfl)).mp member, rfl⟩ released
    · exact (nomatch ·)
  complete := holdings ▸ id
  missing := fun _ _ fetched => holdings ▸ fetched
  faithful := by
    have before := exclusive.faithful (Or.inl rfl : Among peer others peer)
    have none : ∀ {request}, request ∈ changed.session.downloads →
        later.holdings.has request.piece ≠ false := by
      intro request asked
      rw [holdings, useless request asked]
      exact nofun
    exact ⟨before.distinct.sublist fewer, fun asked lacking => absurd lacking (none asked),
      fun asked lacking => absurd lacking (none asked)⟩

/-- A piece that nobody fetches is assigned. -/
theorem Change.took (exclusive : Exclusive download (Among peer others)) {piece : Nat}
    (unassigned : peer.session.assigned = none)
    (free : piece ∉ download.assignments.map (·.1))
    (torrent : later.torrent = download.torrent)
    (assignments : later.assignments = (download.assign piece peer.address).assignments)
    (holdings : later.holdings = download.holdings) (address : changed.address = peer.address)
    (assigned : changed.session.assigned = some piece)
    (downloads : changed.session.downloads = peer.session.downloads) :
    Change download later peer changed := by
  have absent : ∀ address, (piece, address) ∉ download.assignments :=
    fun address member => free (List.mem_map.mpr ⟨_, member, rfl⟩)
  have added : later.assignments = download.assignments ++ [(piece, peer.address)] := by
    rw [assignments, Download.assign, if_neg (absent _)]
  have before := exclusive.faithful (Or.inl rfl : Among peer others peer)
  have useless : ∀ {request}, request ∈ peer.session.downloads →
      download.holdings.has request.piece ≠ false := by
    intro request asked lacking
    exact nomatch unassigned.symm.trans (before.assigned asked lacking)
  refine {
    torrent := torrent
    address := address
    single := ?_
    foreign := ?_
    own := ?_
    complete := holdings ▸ id
    missing := fun _ _ fetched => holdings ▸ fetched
    faithful := ?_ }
  · rw [added, List.map_append]
    refine List.nodup_append.mpr ⟨exclusive.single, List.nodup_singleton _, ?_⟩
    rintro first old second new rfl
    have same : first = piece := List.mem_singleton.mp new
    exact free (same ▸ old)
  · intro other address different
    rw [added, List.mem_append, List.mem_singleton, Prod.mk.injEq]
    exact ⟨fun member => member.resolve_right fun same => different same.2, Or.inl⟩
  · intro other
    rw [added, List.mem_append, List.mem_singleton, Prod.mk.injEq, assigned, Option.some.injEq,
      exclusive.agree (Or.inl rfl), unassigned]
    simp [eq_comm]
  · exact ⟨downloads ▸ before.distinct,
      fun asked lacking => absurd (holdings ▸ lacking) (useless (downloads ▸ asked)),
      fun asked lacking => absurd (holdings ▸ lacking) (useless (downloads ▸ asked))⟩

/-- A missing block of the assigned piece is asked for. -/
theorem Change.asked (exclusive : Exclusive download (Among peer others)) {index : Nat}
    {piece : Piece} {block : Block} (assigned : peer.session.assigned = some index)
    (found : download.torrent.piece? index = some piece)
    (wanted : piece.nextMissing? (download.holdings.blocks index)
      (fun block => peer.session.isRequested index block.offset) = some block)
    (address : changed.address = peer.address)
    (same : changed.session.assigned = peer.session.assigned)
    (more : changed.session.downloads =
      peer.session.downloads ++ [⟨index, block.offset, block.length⟩]) :
    Change download download peer changed := by
  obtain ⟨number, inside, rfl, missing, skipped⟩ := Piece.nextMissing?_some wanted
  have before := exclusive.faithful (Or.inl rfl : Among peer others peer)
  refine {
    torrent := rfl
    address := address
    single := exclusive.single
    foreign := fun _ => Iff.rfl
    own := fun {piece} => same ▸ exclusive.agree (Or.inl rfl)
    complete := id
    missing := fun _ _ fetched => fetched
    faithful := ⟨?_, ?_, ?_⟩ }
  · rw [more]
    refine List.nodup_append.mpr ⟨before.distinct, List.nodup_singleton _, ?_⟩
    rintro first old second new rfl
    have present := List.mem_singleton.mp new
    simp only [Session.isRequested, List.any_eq_false] at skipped
    exact skipped first old (by rw [present]; simp)
  · intro request member lacking
    rw [same]
    rcases List.mem_append.mp (more ▸ member) with old | new
    · exact before.assigned old lacking
    · rw [List.mem_singleton.mp new]
      exact assigned
  · intro request member lacking
    rcases List.mem_append.mp (more ▸ member) with old | new
    · exact before.lacking old lacking
    · rw [List.mem_singleton.mp new]
      refine ⟨piece, number, found, inside, rfl, rfl, ?_⟩
      rw [Holdings.isFetched_eq, missing]
      rfl

/-- Fetching a missing block marks that block and no other. -/
theorem isFetched_fetch (fits : download.holdings.Fits download.torrent) {request : BlockRequest}
    {piece : Piece} (found : download.torrent.piece? request.piece = some piece) {number : Nat}
    (inside : number < piece.blockCount) (start : request.start = (piece.block number).offset)
    (other index : Nat) :
    (download.holdings.fetch piece request).isFetched other index =
      if request.piece = other ∧ number = index then true
      else download.holdings.isFetched other index := by
  have located : piece.blockAt? request.start = some number := start ▸ Piece.blockAt?_block inside
  simp only [Holdings.fetch, located]
  refine Holdings.isFetched_mark _ _ _ _ _ _ ?_
  rw [fits.marks found]
  exact inside

/-- Another request for the same piece asks for another block. -/
theorem other_block {piece : Piece} {first second : BlockRequest} {left right : Nat}
    (same : first.piece = second.piece) (different : first ≠ second)
    (startLeft : first.start = (piece.block left).offset)
    (startRight : second.start = (piece.block right).offset)
    (lengthLeft : first.length = (piece.block left).length)
    (lengthRight : second.length = (piece.block right).length) : left ≠ right := by
  rintro rfl
  rcases first with ⟨_, _, _⟩
  rcases second with ⟨_, _, _⟩
  simp only at same startLeft startRight lengthLeft lengthRight
  subst same startLeft startRight lengthLeft lengthRight
  exact different rfl

/-- A block is stored that does not complete its piece. -/
theorem Change.stored (exclusive : Exclusive download (Among peer others))
    (fits : download.holdings.Fits download.torrent) {request : BlockRequest} {piece : Piece}
    (asked : request ∈ peer.session.downloads)
    (incomplete : download.holdings.has request.piece = false)
    (found : download.torrent.piece? request.piece = some piece)
    (address : changed.address = peer.address)
    (same : changed.session.assigned = peer.session.assigned)
    (rest : changed.session.downloads = peer.session.downloads.erase request) :
    Change download (download.withHoldings (download.holdings.fetch piece request)) peer
      changed := by
  have before := exclusive.faithful (Or.inl rfl : Among peer others peer)
  have mine := before.assigned asked incomplete
  obtain ⟨_, number, located, inside, start, length, -⟩ := before.lacking asked incomplete
  cases found.symm.trans located
  have has : ∀ {index}, (download.holdings.fetch piece request).has index =
      download.holdings.has index := by
    intro index
    rw [Holdings.has, Holdings.completed_fetch]
    rfl
  refine {
    torrent := rfl
    address := address
    single := exclusive.single
    foreign := fun _ => Iff.rfl
    own := fun {piece} => same ▸ exclusive.agree (Or.inl rfl)
    complete := fun held => has.trans held
    missing := ?_
    faithful := ⟨?_, ?_, ?_⟩ }
  · intro other index free _ fetched
    change (download.holdings.fetch piece request).isFetched other index = false
    rw [isFetched_fetch fits found inside start, if_neg]
    · exact fetched
    · rintro ⟨rfl, -⟩
      exact free mine
  · rw [rest]
    exact before.distinct.erase _
  · intro other member lacking
    rw [same]
    exact before.assigned (List.mem_of_mem_erase (rest ▸ member)) (has.symm.trans lacking)
  · intro other member lacking
    rw [rest] at member
    have old := List.mem_of_mem_erase member
    have different : request ≠ other := by
      rintro rfl
      exact before.distinct.not_mem_erase member
    obtain ⟨theirs, index, foundOther, bound, startOther, lengthOther, fetched⟩ :=
      before.lacking old (has.symm.trans lacking)
    refine ⟨theirs, index, foundOther, bound, startOther, lengthOther, ?_⟩
    change (download.holdings.fetch piece request).isFetched other.piece index = false
    rw [isFetched_fetch fits found inside start, if_neg]
    · exact fetched
    · rintro ⟨shared, rfl⟩
      rw [← shared, found] at foundOther
      cases foundOther
      exact other_block shared different start startOther length lengthOther rfl

/-- Once all blocks of a piece are fetched, no request for a missing block is open. -/
theorem none_lacking (exclusive : Exclusive download (Among peer others))
    (fits : download.holdings.Fits download.torrent) {request : BlockRequest} {piece : Piece}
    (asked : request ∈ peer.session.downloads)
    (incomplete : download.holdings.has request.piece = false)
    (found : download.torrent.piece? request.piece = some piece)
    (all : (download.holdings.fetch piece request).allFetched request.piece = true)
    {other : BlockRequest} (member : other ∈ peer.session.downloads.erase request) :
    download.holdings.has other.piece = true := by
  have before := exclusive.faithful (Or.inl rfl : Among peer others peer)
  cases lacking : download.holdings.has other.piece with
  | true => rfl
  | false =>
    have mine := before.assigned asked incomplete
    have old := List.mem_of_mem_erase member
    have shared : request.piece = other.piece :=
      Option.some.inj (mine.symm.trans (before.assigned old lacking))
    have different : request ≠ other := by
      rintro rfl
      exact before.distinct.not_mem_erase member
    obtain ⟨_, number, located, inside, start, length, -⟩ := before.lacking asked incomplete
    cases found.symm.trans located
    obtain ⟨_, index, foundOther, bound, startOther, lengthOther, fetched⟩ :=
      before.lacking old lacking
    rw [← shared, found] at foundOther
    cases foundOther
    have apart := other_block shared different start startOther length lengthOther
    have marked := (Holdings.allFetched_iff _ _).mp all index
      (by rw [(fits.fetch piece request).marks found]; exact bound)
    rw [isFetched_fetch fits found inside start, if_neg (fun both => apart both.2), shared,
      fetched] at marked
    cases marked

/-- All blocks of a piece are fetched: nobody fetches it any more. -/
theorem Change.concluded (exclusive : Exclusive download (Among peer others))
    (fits : download.holdings.Fits download.torrent) {request : BlockRequest} {piece : Piece}
    (asked : request ∈ peer.session.downloads)
    (incomplete : download.holdings.has request.piece = false)
    (found : download.torrent.piece? request.piece = some piece)
    (all : (download.holdings.fetch piece request).allFetched request.piece = true)
    (torrent : later.torrent = download.torrent)
    (assignments : later.assignments = download.assignments.filter (·.1 ≠ request.piece))
    (address : changed.address = peer.address) (unassigned : changed.session.assigned = none)
    (rest : changed.session.downloads = peer.session.downloads.erase request)
    (complete : ∀ {piece}, download.holdings.has piece = true → later.holdings.has piece = true)
    (missing : ∀ {piece number}, piece ≠ request.piece → later.holdings.has piece = false →
      download.holdings.isFetched piece number = false →
      later.holdings.isFetched piece number = false) :
    Change download later peer changed := by
  have before := exclusive.faithful (Or.inl rfl : Among peer others peer)
  have mine := before.assigned asked incomplete
  have useless : ∀ {other}, other ∈ changed.session.downloads →
      later.holdings.has other.piece ≠ false := by
    intro other member
    rw [complete (none_lacking exclusive fits asked incomplete found all (rest ▸ member))]
    exact nofun
  refine {
    torrent := torrent
    address := address
    single := assignments ▸ exclusive.single.sublist (List.filter_sublist.map _)
    foreign := ?_
    own := ?_
    complete := complete
    missing := fun free => missing fun same => free (same ▸ mine)
    faithful := ⟨rest ▸ before.distinct.erase _,
      fun member lacking => absurd lacking (useless member),
      fun member lacking => absurd lacking (useless member)⟩ }
  · intro other elsewhere different
    rw [assignments, List.mem_filter]
    refine ⟨And.left, fun member => ⟨member, ?_⟩⟩
    simp only [ne_eq, decide_not, Bool.not_eq_true', decide_eq_false_iff_not]
    rintro rfl
    have pair := List.inj_on_of_nodup_map exclusive.single member
      ((exclusive.agree (Or.inl rfl)).mpr mine) rfl
    exact different (congrArg Prod.snd pair)
  · intro other
    rw [assignments, List.mem_filter, unassigned]
    constructor
    · rintro ⟨member, kept⟩
      have assigned := (exclusive.agree (Or.inl rfl)).mp member
      cases mine.symm.trans assigned
      simp at kept
    · exact (nomatch ·)

end Exclusive

namespace Holdings

theorem isFetched_fetch_of_ne (holdings : Holdings) (piece : Piece) {request : BlockRequest}
    {other : Nat} (different : request.piece ≠ other) (number : Nat) :
    (holdings.fetch piece request).isFetched other number = holdings.isFetched other number := by
  unfold fetch
  split
  · rw [isFetched_eq, blocks_mark, if_neg different, ← isFetched_eq]
  · rfl

/-- Completing a piece fetches no block of a piece that is not complete afterwards. -/
theorem isFetched_complete (holdings : Holdings) (piece : Nat) {other : Nat}
    (missing : (holdings.complete piece).1.has other = false) (number : Nat) :
    (holdings.complete piece).1.isFetched other number = holdings.isFetched other number := by
  rw [has_complete, Bool.or_eq_false_iff] at missing
  by_cases same : piece = other
  · have outside : ¬piece < holdings.completed.size := by simpa [same] using missing.2
    simp only [complete, outside, ↓reduceIte]
  · rw [isFetched_eq, blocks_complete_of_ne holdings same, ← isFetched_eq]

/-- Forgetting the blocks of a piece fetches none. -/
theorem isFetched_forgotten (holdings : Holdings) (piece : Nat) {other number : Nat}
    (missing : holdings.isFetched other number = false) :
    (holdings.markAll piece false).isFetched other number = false := by
  by_cases same : piece = other
  · rw [same]
    exact isFetched_markAll_false holdings other number
  · rwa [isFetched_markAll_of_ne holdings number false same]

end Holdings

namespace Download

theorem assignments_record (download : Download) (fault : Fault) :
    (download.record fault).assignments = download.assignments := by
  unfold record
  split <;> rfl

theorem assignments_verify (download : Download) (piece : Piece) :
    (download.verify piece).assignments = download.assignments := by
  unfold verify
  split <;> rfl

theorem assignments_ban (download : Download) (ip : IpAddress) :
    (download.ban ip).assignments = download.assignments := by
  unfold ban
  split <;> rfl

theorem assignments_reject (download : Download) (piece : Piece) (ip : IpAddress) :
    (download.reject piece ip).assignments = download.assignments := by
  unfold reject
  split
  · exact assignments_ban _ _
  · rfl

end Download

open Exclusive in
/-- Every move sees to what it has to. -/
theorem Move.change {scene after : Scene} {others : Peer → Prop} (move : Move scene after)
    (exclusive : Exclusive scene.download (Among scene.peer others))
    (endGame : scene.download.selector.endGame = false)
    (fits : scene.download.holdings.Fits scene.download.torrent) :
    Change scene.download after.download scene.peer after.peer := by
  have before := exclusive.faithful (Or.inl rfl : Among scene.peer others scene.peer)
  have evolves := move.evolves
  cases move with
  | ignored | refused | unchoked | interested | notInterested | accepted | rejected | cancelled
  | announced | skipped | served | greeted | kept | obeyed | parted =>
    exact .quiet exclusive rfl rfl rfl rfl rfl (List.Sublist.refl _)
  | unserved download origin =>
    have same : download.torrent = scene.download.torrent ∧
        download.assignments = scene.download.assignments ∧
        download.holdings = scene.download.holdings := by
      rcases origin with rfl | ⟨fault, rfl⟩
      · exact ⟨rfl, rfl, rfl⟩
      · exact ⟨(Download.record_evolves _ fault).torrent, Download.assignments_record _ fault,
          Download.holdings_record _ fault⟩
    exact .quiet exclusive same.1 same.2.1 same.2.2 rfl rfl (List.Sublist.refl _)
  | discarded | stray => exact .quiet exclusive rfl rfl rfl rfl rfl List.erase_sublist
  | lost now fault =>
    exact .quiet exclusive evolves.torrent (Download.assignments_record _ fault)
      (Download.holdings_record _ fault) rfl rfl List.erase_sublist
  | choked now =>
    exact .freed exclusive evolves.torrent rfl (Download.holdings_free _ _) rfl rfl
      (List.nil_sublist _) (fun _ => (nomatch ·))
  | released piece assigned useless =>
    refine .freed exclusive evolves.torrent rfl (Download.holdings_free _ _) rfl rfl
      (List.Sublist.refl _) ?_
    intro request asked
    cases lacking : scene.download.holdings.has request.piece with
    | true => rfl
    | false =>
      cases assigned.symm.trans (before.assigned asked lacking)
      rcases useless with complete | unasked
      · exact nomatch lacking.symm.trans complete
      · exact absurd rfl (unasked request asked)
  | took piece unassigned unchoked free held missing unfetched =>
    exact .took exclusive unassigned (unfetched endGame) evolves.torrent rfl
      (Download.holdings_assign _ _ _) rfl rfl rfl
  | asked index piece block assigned allowed missing found wanted =>
    exact .asked exclusive assigned found wanted rfl rfl rfl
  | stored now store answers =>
    exact .stored exclusive fits answers.isOpen answers.missing answers.found rfl rfl rfl
  | completed now store answers taken all =>
    refine .concluded exclusive fits answers.isOpen answers.missing answers.found all
      evolves.torrent (Download.assignments_verify _ _) rfl rfl rfl evolves.complete ?_
    intro other number elsewhere lacking fetched
    change (Download.verify _ _).holdings.has other = false at lacking
    change (Download.verify _ _).holdings.isFetched other number = false
    rw [Download.holdings_verify] at lacking ⊢
    rw [Holdings.isFetched_complete _ _ lacking]
    exact (Holdings.isFetched_fetch_of_ne _ _ elsewhere.symm number).trans fetched
  | corrupted now store digest answers taken all =>
    refine .concluded exclusive fits answers.isOpen answers.missing answers.found all
      evolves.torrent (Download.assignments_reject _ _ _) rfl rfl rfl evolves.complete ?_
    intro other number elsewhere _ fetched
    change (Download.reject _ _ _).holdings.isFetched other number = false
    rw [Download.holdings_reject]
    refine Holdings.isFetched_forgotten _ _ ?_
    exact (Holdings.isFetched_fetch_of_ne _ _ elsewhere.symm number).trans fetched
  | unreadable now store fault answers taken all =>
    refine .concluded exclusive fits answers.isOpen answers.missing answers.found all
      evolves.torrent (Download.assignments_record _ _) rfl rfl rfl evolves.complete ?_
    intro other number elsewhere _ fetched
    change (Download.record _ _).holdings.isFetched other number = false
    rw [Download.holdings_record]
    refine Holdings.isFetched_forgotten _ _ ?_
    exact (Holdings.isFetched_fetch_of_ne _ _ elsewhere.symm number).trans fetched
  | told piece assigned => exact .quiet exclusive rfl rfl rfl rfl rfl List.filter_sublist
  | recalled piece assigned =>
    refine .freed exclusive evolves.torrent rfl (Download.holdings_free _ _) rfl rfl
      List.filter_sublist ?_
    intro request asked
    obtain ⟨asked, kept⟩ := List.mem_filter.mp asked
    cases lacking : scene.download.holdings.has request.piece with
    | true => rfl
    | false =>
      cases assigned.symm.trans (before.assigned asked lacking)
      simp at kept

namespace Exclusive

variable {download later : Download} {connected : Peer → Prop}

theorem congr (exclusive : Exclusive download connected) {others : Peer → Prop}
    (same : ∀ peer, connected peer ↔ others peer) : Exclusive download others := by
  have equal : connected = others := funext fun peer => propext (same peer)
  exact equal ▸ exclusive

/-- Whatever else changes, the assignments stay what they are, and no block is fetched of a piece
that remains incomplete. -/
theorem evolve (exclusive : Exclusive download connected)
    (torrent : later.torrent = download.torrent)
    (assignments : later.assignments = download.assignments)
    (complete : ∀ {piece}, download.holdings.has piece = true → later.holdings.has piece = true)
    (missing : ∀ {piece number}, later.holdings.has piece = false →
      download.holdings.isFetched piece number = false →
      later.holdings.isFetched piece number = false) : Exclusive later connected := by
  have incomplete : ∀ {piece}, later.holdings.has piece = false →
      download.holdings.has piece = false := by
    intro piece lacking
    cases held : download.holdings.has piece with
    | false => rfl
    | true => exact nomatch lacking.symm.trans (complete held)
  refine ⟨assignments ▸ exclusive.single, fun member => exclusive.owned (assignments ▸ member),
    fun there => assignments ▸ exclusive.agree there, ?_⟩
  intro peer there
  have before := exclusive.faithful there
  refine ⟨before.distinct, fun asked lacking => before.assigned asked (incomplete lacking), ?_⟩
  intro request asked lacking
  obtain ⟨found, number, located, inside, start, length, fetched⟩ :=
    before.lacking asked (incomplete lacking)
  exact ⟨found, number, torrent ▸ located, inside, start, length, missing lacking fetched⟩

/-- Requests for blocks that are still missing remain faithful when pieces are completed. -/
theorem complete (exclusive : Exclusive download connected) (piece : Nat) :
    Exclusive (download.complete piece).1 connected :=
  exclusive.evolve rfl rfl (download.complete_evolves piece).complete
    fun lacking fetched => (Holdings.isFetched_complete _ _ lacking _).trans fetched

theorem ban (exclusive : Exclusive download connected) (ip : IpAddress) :
    Exclusive (download.ban ip) connected := by
  unfold Download.ban
  split
  · exact exclusive
  · exact exclusive.evolve rfl rfl id fun _ fetched => fetched

end Exclusive

/-- A peer that nothing is fetched from may come. -/
theorem Exclusive.joined {download : Download} {peers : List Peer} {roster : Roster} {peer : Peer}
    (exclusive : Exclusive download (· ∈ peers))
    (new : ∀ other ∈ peers, other.address ≠ peer.address)
    (unassigned : peer.session.assigned = none) (unasked : peer.session.downloads = []) :
    Exclusive (download.withRoster roster) (· ∈ peers ++ [peer]) := by
  have either : ∀ {other : Peer}, other ∈ peers ++ [peer] → other ∈ peers ∨ other = peer :=
    fun member => (List.mem_append.mp member).imp_right List.mem_singleton.mp
  refine ⟨exclusive.single, ?_, ?_, ?_⟩
  · intro piece address member
    obtain ⟨owner, there, same⟩ := exclusive.owned member
    exact ⟨owner, List.mem_append_left _ there, same⟩
  · intro other piece member
    rcases either member with old | rfl
    · exact exclusive.agree old
    · rw [unassigned]
      constructor
      · intro assigned
        obtain ⟨owner, there, same⟩ := exclusive.owned assigned
        exact absurd same (new owner there)
      · exact (nomatch ·)
  · intro other member
    rcases either member with old | rfl
    · have before := exclusive.faithful old
      exact ⟨before.distinct, before.assigned, before.lacking⟩
    · refine ⟨unasked ▸ List.nodup_nil, ?_, ?_⟩ <;>
      · intro request asked
        rw [unasked] at asked
        cases asked

/-- The piece of a peer that goes is given back. -/
theorem Exclusive.without {download : Download} {peers : List Peer} {peer : Peer}
    (exclusive : Exclusive download (· ∈ peers)) (member : peer ∈ peers)
    (unique : ∀ other ∈ peers, other.address = peer.address → other = peer) :
    Exclusive (download.free peer.session)
      (fun other => other ∈ peers ∧ other.address ≠ peer.address) := by
  have holdings := Download.holdings_free download peer.session
  have torrent := (download.free_evolves peer.session).torrent
  refine ⟨single_free exclusive.single peer.session, ?_, ?_, ?_⟩
  · intro piece address assigned
    obtain ⟨old, kept⟩ := mem_free.mp assigned
    obtain ⟨owner, there, rfl⟩ := exclusive.owned old
    refine ⟨owner, ⟨there, ?_⟩, rfl⟩
    intro same
    cases unique owner there same
    exact kept ⟨(exclusive.agree member).mp old, rfl⟩
  · rintro other piece ⟨old, different⟩
    rw [← exclusive.agree old]
    exact mem_free.trans ⟨And.left, fun assigned => ⟨assigned, fun both => different both.2⟩⟩
  · rintro other ⟨old, -⟩
    have before := exclusive.faithful old
    refine ⟨before.distinct, fun asked lacking => before.assigned asked ?_, fun asked lacking => ?_⟩
    · exact (congrArg (Holdings.has · _) holdings).symm.trans lacking
    · obtain ⟨piece, number, found, inside, start, length, fetched⟩ :=
        before.lacking asked ((congrArg (Holdings.has · _) holdings).symm.trans lacking)
      exact ⟨piece, number, (congrArg (Torrent.piece? · _) torrent).trans found, inside, start,
        length, (congrArg (Holdings.isFetched · _ _) holdings).trans fetched⟩

/-- The piece of a peer that leaves is given back. -/
theorem Exclusive.left {swarm : Swarm} {peer : Peer} (sound : swarm.Sound)
    (member : peer ∈ swarm.peers) (exclusive : Exclusive swarm.download (· ∈ swarm.peers)) :
    Exclusive (swarm.without peer).download (· ∈ (swarm.without peer).peers) := by
  have freed := exclusive.without member fun _ there same => sound.unique there member same
  have parted := @Exclusive.evolve _ (swarm.without peer).download _ freed rfl rfl id
    fun _ fetched => fetched
  refine parted.congr fun other => ?_
  simp [Swarm.without]

/-- Without the end game pieces stay exclusive. -/
theorem exclusive_stable : Swarm.Stable fun swarm =>
    swarm.download.selector.endGame = false → Exclusive swarm.download (· ∈ swarm.peers) := by
  have changed : ∀ {swarm : Swarm} {scene after : Scene}, swarm.Present scene →
      scene.peer.Persists after.peer →
      (Exclusive scene.download (Among scene.peer
        fun peer => peer ∈ swarm.peers ∧ peer.address ≠ scene.peer.address) →
        Exclusive.Change scene.download after.download scene.peer after.peer) →
      Exclusive scene.download (· ∈ (swarm.put scene).peers) →
      Exclusive after.download (· ∈ (swarm.put after).peers) := by
    intro swarm scene after present persists change before
    have among := before.congr fun peer => Swarm.mem_put present
    refine (among.change (fun _ other => other.2) (change among)).congr fun peer => ?_
    rw [Swarm.mem_put (present.persists persists), persists.address]
    rfl
  have rules : ∀ {before after : Download}, before.Evolves after →
      after.selector.endGame = false → before.selector.endGame = false := by
    intro before after evolves endGame
    rw [← evolves.selector]
    exact endGame
  refine {
    moved := ?_
    withdrawn := ?_
    joined := ?_
    left := ?_
    rechecked := ?_
    banned := ?_
    faults := fun _ _ before => before }
  · intro swarm scene after sound present move before endGame
    have same : scene.download.selector.endGame = false := rules move.evolves endGame
    exact changed present move.persists (fun exclusive => move.change exclusive same sound.holdings)
      (before same)
  · intro swarm scene after sound present withdrawal before endGame
    have same : scene.download.selector.endGame = false := by
      rw [← withdrawal.download]
      exact endGame
    refine changed present withdrawal.persists (fun exclusive => ?_) (before same)
    rw [withdrawal.result]
    exact .quiet exclusive rfl rfl rfl rfl rfl (List.Sublist.refl _)
  · intro swarm address peerId source roster mailbox capabilities now sound attached before endGame
    refine (before endGame).joined ?_ rfl rfl
    intro other there same
    have known := sound.connected other there
    rw [same] at known
    exact nomatch (Roster.attach_ok attached).1.symm.trans known
  · intro swarm peer sound member before endGame
    have same := rules (swarm.download.free_evolves peer.session) endGame
    exact (before same).left sound member
  · intro swarm _ before endGame
    have same := rules (swarm.download.recheck_evolves swarm.store) endGame
    exact @Download.recheck_induction (fun download => Exclusive download (· ∈ swarm.peers))
      swarm.store (fun _ _ exclusive => exclusive.complete _) swarm.download (before same)
  · intro swarm ip before endGame
    exact (before (rules (swarm.download.ban_evolves ip) endGame)).ban ip

section

variable {torrent : Torrent} {settings : Settings} {selector : Selector} {ownId : PeerId}
  {draws : List Nat} {store : MemoryStore}

/-- Wherever a run without the end game has led, a piece is fetched from somebody exactly if one
connected peer is assigned to it, that peer alone is noted for it, and only that peer is asked for
blocks of it while it is incomplete. -/
theorem run_exclusive (endGame : selector.endGame = false) (happenings : List Happening) :
    let swarm := (Swarm.start torrent settings selector ownId draws store).run happenings
    (∀ first ∈ swarm.peers, ∀ second ∈ swarm.peers, ∀ piece,
      first.session.assigned = some piece → second.session.assigned = some piece →
        first = second) ∧
    (∀ piece, piece ∈ swarm.download.inFlight ↔
      ∃! peer, peer ∈ swarm.peers ∧ peer.session.assigned = some piece) ∧
    (∀ peer ∈ swarm.peers, ∀ piece, peer.session.assigned = some piece →
      ∀ address, (piece, address) ∈ swarm.download.assignments ↔ address = peer.address) ∧
    (∀ peer ∈ swarm.peers, ∀ request ∈ peer.session.downloads,
      swarm.download.holdings.has request.piece = false →
        peer.session.assigned = some request.piece) ∧
    (∀ first ∈ swarm.peers, ∀ second ∈ swarm.peers, ∀ mine ∈ first.session.downloads,
      ∀ yours ∈ second.session.downloads, mine.piece = yours.piece →
        swarm.download.holdings.has mine.piece = false → first = second) := by
  intro swarm
  have start := Swarm.start_sound torrent settings selector ownId draws store
  have sound : swarm.Sound := start.run happenings
  have rules : swarm.download.selector.endGame = false :=
    (congrArg Selector.endGame (Swarm.run_selector start happenings)).trans endGame
  have empty : Exclusive (Swarm.start torrent settings selector ownId draws store).download
      (· ∈ (Swarm.start torrent settings selector ownId draws store).peers) :=
    ⟨List.nodup_nil, (nomatch ·), (nomatch ·), (nomatch ·)⟩
  have exclusive := exclusive_stable.run start (fun _ => empty) happenings rules
  have same : ∀ first ∈ swarm.peers, ∀ second ∈ swarm.peers, ∀ piece,
      first.session.assigned = some piece → second.session.assigned = some piece →
        first = second := fun first left second right piece mine yours =>
    sound.unique left right (exclusive.unique left right mine yours)
  refine ⟨same, ?_, ?_, ?_, ?_⟩
  · intro piece
    simp only [Download.inFlight, List.mem_eraseDups, List.mem_map]
    constructor
    · rintro ⟨⟨_, address⟩, member, rfl⟩
      obtain ⟨peer, there, rfl⟩ := exclusive.owned member
      have mine := (exclusive.agree there).mp member
      exact ⟨peer, ⟨there, mine⟩, fun other both => same other both.1 peer there _ both.2 mine⟩
    · rintro ⟨peer, ⟨there, mine⟩, -⟩
      exact ⟨_, (exclusive.agree there).mpr mine, rfl⟩
  · intro peer there piece mine address
    constructor
    · intro member
      obtain ⟨other, connected, rfl⟩ := exclusive.owned member
      exact exclusive.unique connected there ((exclusive.agree connected).mp member) mine
    · rintro rfl
      exact (exclusive.agree there).mpr mine
  · exact fun peer there request asked lacking => (exclusive.faithful there).assigned asked lacking
  · intro first left second right mine asked yours also shared lacking
    refine same first left second right mine.piece
      ((exclusive.faithful left).assigned asked lacking) ?_
    rw [shared] at lacking ⊢
    exact (exclusive.faithful right).assigned also lacking

/-- Of two peers that have the only piece, one is asked for it. -/
theorem run_exclusive_rivalry :
    let swarm := Sample.start.run Sample.rivalry
    Sample.start.download.selector.endGame = false ∧ swarm.peers.length = 2 ∧
      ∃! peer, peer ∈ swarm.peers ∧ peer.session.assigned = some 0 := by
  intro swarm
  have exclusive := @run_exclusive Sample.torrent {} ⟨.sequential, false⟩ Sample.peerId []
    (.empty 4) rfl Sample.rivalry
  exact ⟨rfl, by decide +kernel, (exclusive.2.1 0).mp (by decide +kernel)⟩

end

end BitTorrent
