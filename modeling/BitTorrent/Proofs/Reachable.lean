import BitTorrent.Proofs.Handlers
import Mathlib.Data.List.Nodup

/-!
What a swarm keeps in every run. A property that every move, every withdrawal of interest, and
everything that happens besides preserves holds wherever a run leads.
-/

set_option autoImplicit false

namespace BitTorrent

open Relation (ReflTransGen)

namespace Withdrawal

variable {scene after : Scene}

theorem download (withdrawal : Withdrawal scene after) : after.download = scene.download := by
  rw [withdrawal.result]
  rfl

theorem persists (withdrawal : Withdrawal scene after) : scene.peer.Persists after.peer := by
  rw [withdrawal.result]
  exact .grown rfl rfl id rfl

theorem sound (withdrawal : Withdrawal scene after) {pieces : Nat}
    (sound : scene.peer.session.Sound pieces) : after.peer.session.Sound pieces := by
  rw [withdrawal.result]
  exact ⟨sound.isOpen, sound.sized, sound.inside, sound.deep, sound.quiet⟩

end Withdrawal

theorem Course.evolves {scene after : Scene} (course : Course scene after) :
    scene.download.Evolves after.download := by
  obtain ⟨middle, moves, rfl | withdrawal⟩ := course
  · exact moves.evolves
  · rw [withdrawal.download]
    exact moves.evolves

theorem Course.persists {scene after : Scene} (course : Course scene after) :
    scene.peer.Persists after.peer := by
  obtain ⟨middle, moves, rfl | withdrawal⟩ := course
  · exact moves.persists
  · exact moves.persists.trans withdrawal.persists

namespace Download

/-- The torrent's pieces are found one after the other. -/
theorem recheckPiece_evolves (store : MemoryStore) (state : Download × Nat) (piece : Piece) :
    state.1.Evolves (recheckPiece store state piece).1 := by
  unfold recheckPiece
  split
  · split
    · exact complete_evolves _ _
    · exact .refl _
  · exact .refl _

/-- A property that completing intact pieces preserves is preserved by a recheck. -/
theorem recheck_induction {P : Download → Prop} {store : MemoryStore}
    (step : ∀ {download : Download} {piece : Piece}, piece ∈ download.torrent.pieces →
      store.checksum piece.range = .ok piece.hash → P download →
        P (download.complete piece.index).1)
    {download : Download} (start : P download) : P (download.recheck store).1 := by
  have all : ∀ (pieces : List Piece) (state : Download × Nat),
      (∀ piece ∈ pieces, piece ∈ state.1.torrent.pieces) → P state.1 →
      P (pieces.foldl (recheckPiece store) state).1 := by
    intro pieces
    induction pieces with
    | nil => exact fun state _ holds => holds
    | cons piece rest ih =>
      intro state members holds
      rw [List.foldl_cons]
      refine ih _ ?_ ?_
      · intro other member
        rw [(recheckPiece_evolves store state piece).torrent]
        exact members other (List.mem_cons_of_mem _ member)
      · unfold recheckPiece
        split
        · rename_i digest hashed
          split
          · rename_i intact
            subst intact
            exact step (members piece List.mem_cons_self) hashed holds
          · exact holds
        · exact holds
  exact all download.torrent.pieces (download, 0) (fun _ member => member) start

theorem recheck_evolves (download : Download) (store : MemoryStore) :
    download.Evolves (download.recheck store).1 :=
  recheck_induction (fun _ _ earlier => earlier.trans (complete_evolves _ _)) (.refl download)

theorem recheck_fits {download : Download} {torrent : Torrent} (store : MemoryStore)
    (fits : download.holdings.Fits torrent) :
    (download.recheck store).1.holdings.Fits torrent :=
  @recheck_induction (fun download => download.holdings.Fits torrent) store
    (fun _ _ earlier => earlier.complete _) download fits

end Download

namespace Swarm

variable {swarm : Swarm}

/-- A peer of the swarm is at the address of a scene. -/
def Present (swarm : Swarm) (scene : Scene) : Prop :=
  ∃ peer ∈ swarm.peers, peer.address = scene.peer.address

theorem Present.persists {scene after : Scene} (present : swarm.Present scene)
    (persists : scene.peer.Persists after.peer) : swarm.Present after := by
  obtain ⟨peer, member, same⟩ := present
  exact ⟨peer, member, same.trans persists.address.symm⟩

theorem mem_put {scene : Scene} (present : swarm.Present scene) {peer : Peer} :
    peer ∈ (swarm.put scene).peers ↔
      peer = scene.peer ∨ (peer ∈ swarm.peers ∧ peer.address ≠ scene.peer.address) := by
  simp only [put, List.mem_map]
  constructor
  · rintro ⟨old, member, rfl⟩
    split
    · exact Or.inl rfl
    · rename_i different
      exact Or.inr ⟨member, different⟩
  · rintro (rfl | ⟨member, different⟩)
    · obtain ⟨old, member, same⟩ := present
      exact ⟨old, member, by simp only [same, ↓reduceIte]⟩
    · exact ⟨peer, member, by simp only [different, ↓reduceIte]⟩

theorem addresses_put (swarm : Swarm) (scene : Scene) :
    (swarm.put scene).peers.map (·.address) = swarm.peers.map (·.address) := by
  simp only [put, List.map_map]
  apply List.map_congr_left
  intro peer _
  simp only [Function.comp]
  split
  · rename_i same
    exact same.symm
  · rfl

/-- What holds of every swarm that a run leads to: the marks and the sessions have the shape of the
torrent, and no two connected peers share an address. -/
structure Sound (swarm : Swarm) : Prop where
  holdings : swarm.download.holdings.Fits swarm.download.torrent
  sessions : ∀ peer ∈ swarm.peers, peer.session.Sound swarm.download.torrent.pieceCount
  apart : (swarm.peers.map (·.address)).Nodup
  connected : ∀ peer ∈ swarm.peers, swarm.download.roster.isConnected peer.address = true

theorem Sound.scene (sound : swarm.Sound) {peer : Peer} (member : peer ∈ swarm.peers) :
    (swarm.scene peer).Sound :=
  ⟨sound.sessions peer member, sound.holdings⟩

theorem Sound.unique (sound : swarm.Sound) {first second : Peer} (left : first ∈ swarm.peers)
    (right : second ∈ swarm.peers) (same : first.address = second.address) : first = second :=
  List.inj_on_of_nodup_map sound.apart left right same

theorem put_scene (sound : swarm.Sound) {peer : Peer} (member : peer ∈ swarm.peers) :
    swarm.put (swarm.scene peer) = swarm := by
  have same : swarm.peers.map (fun other =>
      if other.address = peer.address then peer else other) = swarm.peers.map id := by
    apply List.map_congr_left
    intro other present
    split
    · rename_i shared
      exact (sound.unique present member shared).symm
    · rfl
  rw [List.map_id] at same
  rcases swarm with ⟨store, download, peers⟩
  simp only [put, scene, Swarm.mk.injEq, true_and]
  exact same

/-- What a handler changes keeps a swarm sound if it keeps the session and the marks in shape. -/
theorem Sound.put {scene after : Scene} (sound : (swarm.put scene).Sound)
    (present : swarm.Present scene) (persists : scene.peer.Persists after.peer)
    (evolves : scene.download.Evolves after.download)
    (fits : after.download.holdings.Fits scene.download.torrent)
    (session : after.peer.session.Sound scene.download.torrent.pieceCount) :
    (swarm.put after).Sound := by
  have later := present.persists persists
  have torrent : after.download.torrent = scene.download.torrent := evolves.torrent
  have others : ∀ {peer : Peer}, peer ∈ (swarm.put after).peers → peer ≠ after.peer →
      peer ∈ (swarm.put scene).peers := by
    intro peer member different
    rcases (mem_put later).mp member with same | ⟨old, apart⟩
    · exact absurd same different
    · exact (mem_put present).mpr (Or.inr ⟨old, persists.address ▸ apart⟩)
  refine ⟨?_, ?_, ?_, ?_⟩
  · change after.download.holdings.Fits after.download.torrent
    rwa [torrent]
  · intro peer member
    change peer.session.Sound after.download.torrent.pieceCount
    rw [torrent]
    by_cases same : peer = after.peer
    · exact same ▸ session
    · exact sound.sessions peer (others member same)
  · rw [addresses_put, ← addresses_put swarm scene]
    exact sound.apart
  · intro peer member
    by_cases same : peer = after.peer
    · rw [same, persists.address]
      exact evolves.connected (sound.connected scene.peer ((mem_put present).mpr (Or.inl rfl)))
    · exact evolves.connected (sound.connected peer (others member same))

theorem Sound.session {scene : Scene} (sound : (swarm.put scene).Sound)
    (present : swarm.Present scene) :
    scene.peer.session.Sound scene.download.torrent.pieceCount :=
  sound.sessions scene.peer ((mem_put present).mpr (Or.inl rfl))

theorem Sound.moved {scene after : Scene} (sound : (swarm.put scene).Sound)
    (present : swarm.Present scene) (move : Move scene after) : (swarm.put after).Sound :=
  sound.put present move.persists move.evolves (move.fits sound.holdings)
    (move.sound (sound.session present))

theorem Sound.withdrawn {scene after : Scene} (sound : (swarm.put scene).Sound)
    (present : swarm.Present scene) (withdrawal : Withdrawal scene after) :
    (swarm.put after).Sound := by
  have same := withdrawal.download
  refine sound.put present withdrawal.persists (same ▸ .refl _) ?_
    (withdrawal.sound (sound.session present))
  rw [same]
  exact sound.holdings

/-- A peer that was not connected is there. -/
def enroll (swarm : Swarm) (roster : Roster) (peer : Peer) : Swarm :=
  { swarm with
    download := swarm.download.withRoster roster
    peers := swarm.peers ++ [peer] }

/-- A peer is gone. -/
def without (swarm : Swarm) (peer : Peer) : Swarm :=
  { swarm with
    download := (swarm.download.free peer.session).withRoster
      (((swarm.download.free peer.session).roster.remove peer.address).close peer.mailbox)
    peers := swarm.peers.filter (·.address ≠ peer.address) }

/-- Files can be written and read, or not. -/
def faulty (swarm : Swarm) (writes reads : Option Fault) : Swarm :=
  { swarm with store := { swarm.store with failWrites := writes, failReads := reads } }

/-- What a happening does to a swarm. -/
inductive Step (swarm : Swarm) : Swarm → Prop
  | idle : Step swarm swarm
  | acted {peer : Peer} {after : Scene} :
      peer ∈ swarm.peers → Course (swarm.scene peer) after → Step swarm (swarm.put after)
  | joined {address : Address} {peerId : PeerId} {source : PeerSource} {roster : Roster}
      {mailbox : Nat} (capabilities : Capabilities) (now : Nat) :
      swarm.download.roster.attach address peerId source = .ok (roster, mailbox) →
      Step swarm (swarm.enroll roster
        (welcome swarm.download address peerId capabilities now mailbox))
  | left {peer : Peer} : peer ∈ swarm.peers → Step swarm (swarm.without peer)
  | rechecked : Step swarm { swarm with download := (swarm.download.recheck swarm.store).1 }
  | banned (ip : IpAddress) : Step swarm { swarm with download := swarm.download.ban ip }
  | faults (writes reads : Option Fault) : Step swarm (swarm.faulty writes reads)

theorem peer?_some {address : Address} {peer : Peer} (found : swarm.peer? address = some peer) :
    peer ∈ swarm.peers ∧ peer.address = address := by
  refine ⟨List.mem_of_find?_eq_some found, ?_⟩
  simpa using List.find?_some found

theorem on_step (sound : swarm.Sound) (address : Address) {handler : Scene → Scene}
    (course : ∀ {scene : Scene}, scene.Sound → Course scene (handler scene)) :
    Step swarm (swarm.on address handler) := by
  unfold on
  split
  · exact .idle
  · rename_i peer found
    have member := (peer?_some found).1
    exact .acted member (course (sound.scene member))

theorem join_step (swarm : Swarm) (address : Address) (peerId : PeerId) (source : PeerSource)
    (capabilities : Capabilities) (now : Nat) :
    Step swarm (swarm.join address peerId source capabilities now) := by
  unfold join
  split
  · exact .idle
  · rename_i roster mailbox attached
    exact .joined capabilities now attached

theorem leave_eq {address : Address} {peer : Peer} (found : swarm.peer? address = some peer) :
    swarm.leave address = swarm.without peer := by
  have freed : ∀ turn : Turn, turn.unassign.download = turn.download.free turn.session := by
    intro turn
    cases assigned : turn.session.assigned <;>
      simp only [Turn.unassign, Download.free, assigned]
  obtain rfl := (peer?_some found).2
  simp only [leave, found, Turn.onDisconnect, freed]
  rfl

theorem leave_step (swarm : Swarm) (address : Address) : Step swarm (swarm.leave address) := by
  cases found : swarm.peer? address with
  | none =>
    simp only [leave, found]
    exact .idle
  | some peer =>
    rw [leave_eq found]
    exact .left (peer?_some found).1

theorem step_step (sound : swarm.Sound) (happening : Happening) :
    Step swarm (swarm.step happening) := by
  cases happening with
  | join address peerId source capabilities now =>
    exact join_step swarm address peerId source capabilities now
  | greet address =>
    exact on_step sound address fun _ => .of_moves (.single (Scene.greet_move _))
  | receive address now message =>
    exact on_step sound address fun steady => Scene.receive_course steady now message
  | serve address => exact on_step sound address fun _ => .of_moves (Scene.serve_moves _)
  | localHave address piece =>
    exact on_step sound address fun steady => Scene.localHave_course steady piece
  | obey address => exact on_step sound address fun steady => Scene.obey_course steady
  | checkIdle address now =>
    exact on_step sound address fun _ => .of_moves (Scene.checkIdle_moves _ now)
  | leave address => exact leave_step swarm address
  | recheck => exact .rechecked
  | ban ip => exact .banned ip
  | failWrites fault => exact .faults fault swarm.store.failReads
  | failReads fault => exact .faults swarm.store.failWrites fault

/-- Every handler keeps what moves and withdrawals keep. -/
theorem course_induction {P : Swarm → Prop} {scene after : Scene}
    (sound : (swarm.put scene).Sound) (present : swarm.Present scene) (start : P (swarm.put scene))
    (moved : ∀ {scene after : Scene}, (swarm.put scene).Sound → swarm.Present scene →
      Move scene after → P (swarm.put scene) → P (swarm.put after))
    (withdrawn : ∀ {scene after : Scene}, (swarm.put scene).Sound → swarm.Present scene →
      Withdrawal scene after → P (swarm.put scene) → P (swarm.put after))
    (course : Course scene after) :
    P (swarm.put after) ∧ (swarm.put after).Sound ∧ swarm.Present after := by
  have reached : ∀ {middle : Scene}, Moves scene middle →
      P (swarm.put middle) ∧ (swarm.put middle).Sound ∧ swarm.Present middle := by
    intro middle moves
    induction moves with
    | refl => exact ⟨start, sound, present⟩
    | tail _ move ih =>
      obtain ⟨holds, steady, there⟩ := ih
      exact ⟨moved steady there move holds, steady.moved there move, there.persists move.persists⟩
  obtain ⟨middle, moves, finish⟩ := course
  obtain ⟨holds, steady, there⟩ := reached moves
  rcases finish with rfl | withdrawal
  · exact ⟨holds, steady, there⟩
  · exact ⟨withdrawn steady there withdrawal holds, steady.withdrawn there withdrawal,
      there.persists withdrawal.persists⟩

theorem welcome_sound (download : Download) (address : Address) (peerId : PeerId)
    (capabilities : Capabilities) (now mailbox : Nat) :
    (welcome download address peerId capabilities now mailbox).session.Sound
      download.torrent.pieceCount where
  isOpen := rfl
  sized := Bitfield.size_empty _
  inside := (nomatch ·)
  deep := Nat.lt_of_lt_of_le Nat.zero_lt_one (Nat.le_max_right _ _)
  quiet := fun _ => ⟨rfl, rfl⟩

/-- Changes of the shared state outside of a handler. -/
theorem Sound.evolve {download : Download} (sound : swarm.Sound)
    (evolves : swarm.download.Evolves download)
    (fits : download.holdings.Fits swarm.download.torrent) :
    Sound { swarm with download := download } where
  holdings := by
    change download.holdings.Fits download.torrent
    rwa [evolves.torrent]
  sessions := by
    intro peer member
    change peer.session.Sound download.torrent.pieceCount
    rw [evolves.torrent]
    exact sound.sessions peer member
  apart := sound.apart
  connected := fun peer member => evolves.connected (sound.connected peer member)

theorem Sound.step {after : Swarm} (sound : swarm.Sound) (step : Step swarm after) :
    after.Sound := by
  cases step with
  | idle => exact sound
  | @acted peer scene member course =>
    have same := put_scene sound member
    exact (course_induction (P := fun _ => True) (same.symm ▸ sound) ⟨peer, member, rfl⟩ trivial
      (fun _ _ _ _ => trivial) (fun _ _ _ _ => trivial) course).2.1
  | @joined address peerId source roster mailbox capabilities now attached =>
    obtain ⟨fresh, present, kept⟩ := Roster.attach_ok attached
    refine ⟨sound.holdings, ?_, ?_, ?_⟩
    · intro peer member
      rcases List.mem_append.mp member with old | new
      · exact sound.sessions peer old
      · rw [List.mem_singleton.mp new]
        exact welcome_sound swarm.download address peerId capabilities now mailbox
    · have new : address ∉ swarm.peers.map (·.address) := by
        intro known
        obtain ⟨peer, member, rfl⟩ := List.mem_map.mp known
        rw [sound.connected peer member] at fresh
        cases fresh
      simp only [enroll, List.map_append, List.map_cons, List.map_nil]
      exact List.nodup_append.mpr ⟨sound.apart, List.nodup_singleton _, by
        rintro first old second last rfl
        rw [List.mem_singleton.mp last] at old
        exact new old⟩
    · intro peer member
      rcases List.mem_append.mp member with old | new
      · exact kept peer.address (sound.connected peer old)
      · rw [List.mem_singleton.mp new]
        exact present
  | @left peer member =>
    have evolves := swarm.download.free_evolves peer.session
    have torrent : (swarm.download.free peer.session).torrent = swarm.download.torrent :=
      evolves.torrent
    have stayed : ∀ {other : Peer}, other ∈ (swarm.without peer).peers →
        other ∈ swarm.peers ∧ other.address ≠ peer.address := by
      intro other there
      simpa [without] using there
    refine ⟨?_, ?_, ?_, ?_⟩
    · change (swarm.download.free peer.session).holdings.Fits
        (swarm.download.free peer.session).torrent
      rw [torrent, Download.holdings_free]
      exact sound.holdings
    · intro other there
      change other.session.Sound (swarm.download.free peer.session).torrent.pieceCount
      rw [torrent]
      exact sound.sessions other (stayed there).1
    · exact sound.apart.sublist (List.filter_sublist.map _)
    · intro other there
      obtain ⟨old, different⟩ := stayed there
      rw [← evolves.connected (sound.connected other old)]
      exact Roster.isConnected_remove different
  | rechecked =>
    exact sound.evolve (swarm.download.recheck_evolves swarm.store)
      (Download.recheck_fits swarm.store sound.holdings)
  | banned ip =>
    refine sound.evolve (swarm.download.ban_evolves ip) ?_
    rw [Download.holdings_ban]
    exact sound.holdings
  | faults writes reads => exact ⟨sound.holdings, sound.sessions, sound.apart, sound.connected⟩

theorem start_sound (torrent : Torrent) (settings : Settings) (selector : Selector)
    (ownId : PeerId) (draws : List Nat) (store : MemoryStore) :
    (start torrent settings selector ownId draws store).Sound where
  holdings := Holdings.none_fits torrent
  sessions := fun _ member => nomatch member
  apart := List.nodup_nil
  connected := fun _ member => nomatch member

theorem Sound.run (sound : swarm.Sound) (happenings : List Happening) :
    (swarm.run happenings).Sound := by
  induction happenings generalizing swarm with
  | nil => exact sound
  | cons happening rest ih => exact ih (sound.step (step_step sound happening))

/-- A property that nothing that happens to a sound swarm ends. -/
structure Stable (P : Swarm → Prop) : Prop where
  moved : ∀ {swarm : Swarm} {scene after : Scene}, (swarm.put scene).Sound →
    swarm.Present scene → Move scene after → P (swarm.put scene) → P (swarm.put after)
  withdrawn : ∀ {swarm : Swarm} {scene after : Scene}, (swarm.put scene).Sound →
    swarm.Present scene → Withdrawal scene after → P (swarm.put scene) → P (swarm.put after)
  joined : ∀ {swarm : Swarm} {address : Address} {peerId : PeerId} {source : PeerSource}
    {roster : Roster} {mailbox : Nat} (capabilities : Capabilities) (now : Nat), swarm.Sound →
    swarm.download.roster.attach address peerId source = .ok (roster, mailbox) → P swarm →
    P (swarm.enroll roster (welcome swarm.download address peerId capabilities now mailbox))
  left : ∀ {swarm : Swarm} {peer : Peer}, swarm.Sound → peer ∈ swarm.peers → P swarm →
    P (swarm.without peer)
  rechecked : ∀ {swarm : Swarm}, swarm.Sound → P swarm →
    P { swarm with download := (swarm.download.recheck swarm.store).1 }
  banned : ∀ {swarm : Swarm} (ip : IpAddress), P swarm →
    P { swarm with download := swarm.download.ban ip }
  faults : ∀ {swarm : Swarm} (writes reads : Option Fault), P swarm → P (swarm.faulty writes reads)

theorem Stable.step {P : Swarm → Prop} (stable : Stable P) (sound : swarm.Sound) {after : Swarm}
    (step : Step swarm after) (before : P swarm) : P after := by
  cases step with
  | idle => exact before
  | @acted peer scene member course =>
    have same := put_scene sound member
    exact (course_induction (same.symm ▸ sound) ⟨peer, member, rfl⟩ (same.symm ▸ before)
      stable.moved stable.withdrawn course).1
  | joined capabilities now attached => exact stable.joined capabilities now sound attached before
  | left member => exact stable.left sound member before
  | rechecked => exact stable.rechecked sound before
  | banned ip => exact stable.banned ip before
  | faults writes reads => exact stable.faults writes reads before

/-- What holds at the start of a run and is stable holds at its end. -/
theorem Stable.run {P : Swarm → Prop} (stable : Stable P) (sound : swarm.Sound)
    (before : P swarm) (happenings : List Happening) : P (swarm.run happenings) := by
  induction happenings generalizing swarm with
  | nil => exact before
  | cons happening rest ih =>
    have step := step_step sound happening
    exact ih (sound.step step) (stable.step sound step before)

/-- The torrent and the rules of a swarm never change. -/
theorem evolves_stable (download : Download) : Stable fun swarm =>
    swarm.download.torrent = download.torrent ∧ swarm.download.settings = download.settings ∧
      swarm.download.selector = download.selector := by
  have kept : ∀ {before after : Download}, before.Evolves after →
      (before.torrent = download.torrent ∧ before.settings = download.settings ∧
        before.selector = download.selector) →
      after.torrent = download.torrent ∧ after.settings = download.settings ∧
        after.selector = download.selector :=
    fun evolves same => ⟨evolves.torrent.trans same.1, evolves.settings.trans same.2.1,
      evolves.selector.trans same.2.2⟩
  exact {
    moved := fun _ _ move => kept move.evolves
    withdrawn := by
      intro swarm scene after _ _ withdrawal same
      change after.download.torrent = _ ∧ after.download.settings = _ ∧ after.download.selector = _
      rw [withdrawal.download]
      exact same
    joined := fun _ _ _ _ same => same
    left := by
      intro swarm peer _ _ same
      have freed := kept (swarm.download.free_evolves peer.session) same
      exact freed
    rechecked := fun {swarm} _ => kept (swarm.download.recheck_evolves swarm.store)
    banned := fun {swarm} ip => kept (swarm.download.ban_evolves ip)
    faults := fun _ _ same => same }

theorem run_torrent (sound : swarm.Sound) (happenings : List Happening) :
    (swarm.run happenings).download.torrent = swarm.download.torrent :=
  ((evolves_stable swarm.download).run sound ⟨rfl, rfl, rfl⟩ happenings).1

theorem run_settings (sound : swarm.Sound) (happenings : List Happening) :
    (swarm.run happenings).download.settings = swarm.download.settings :=
  ((evolves_stable swarm.download).run sound ⟨rfl, rfl, rfl⟩ happenings).2.1

theorem run_selector (sound : swarm.Sound) (happenings : List Happening) :
    (swarm.run happenings).download.selector = swarm.download.selector :=
  ((evolves_stable swarm.download).run sound ⟨rfl, rfl, rfl⟩ happenings).2.2

/-- What each peer keeps whatever the others do to what they share. -/
theorem sharing_stable {Q : Download → Peer → Prop}
    (evolve : ∀ {before after : Download} {peer : Peer}, before.Evolves after →
      Q before peer → Q after peer)
    (reroster : ∀ {download : Download} {peer : Peer} (roster : Roster), Q download peer →
      Q (download.withRoster roster) peer)
    (moved : ∀ {scene after : Scene}, scene.Sound → Move scene after →
      Q scene.download scene.peer → Q after.download after.peer)
    (withdrawn : ∀ {scene after : Scene}, Withdrawal scene after →
      Q scene.download scene.peer → Q after.download after.peer)
    (joined : ∀ (download : Download) (address : Address) (peerId : PeerId)
      (capabilities : Capabilities) (now mailbox : Nat),
      Q download (welcome download address peerId capabilities now mailbox)) :
    Stable fun swarm => ∀ peer ∈ swarm.peers, Q swarm.download peer := by
  have changed : ∀ {swarm : Swarm} {scene after : Scene}, swarm.Present scene →
      scene.peer.Persists after.peer → scene.download.Evolves after.download →
      (∀ peer ∈ (swarm.put scene).peers, Q scene.download peer) →
      Q after.download after.peer → ∀ peer ∈ (swarm.put after).peers, Q after.download peer := by
    intro swarm scene after present persists evolves before own peer member
    rcases (mem_put (present.persists persists)).mp member with same | ⟨old, apart⟩
    · exact same ▸ own
    · exact evolve evolves
        (before peer ((mem_put present).mpr (Or.inr ⟨old, persists.address ▸ apart⟩)))
  have own : ∀ {swarm : Swarm} {scene : Scene}, swarm.Present scene →
      (∀ peer ∈ (swarm.put scene).peers, Q scene.download peer) → Q scene.download scene.peer :=
    fun present before => before _ ((mem_put present).mpr (Or.inl rfl))
  refine {
    moved := ?_
    withdrawn := ?_
    joined := ?_
    left := ?_
    rechecked := ?_
    banned := ?_
    faults := fun _ _ before => before }
  · intro swarm scene after sound present move before
    exact changed present move.persists move.evolves before
      (moved ⟨sound.session present, sound.holdings⟩ move (own present before))
  · intro swarm scene after _ present withdrawal before
    have same : scene.download.Evolves after.download := withdrawal.download ▸ .refl _
    exact changed present withdrawal.persists same before
      (withdrawn withdrawal (own present before))
  · intro swarm address peerId source roster mailbox capabilities now _ _ before peer member
    rcases List.mem_append.mp member with old | new
    · exact reroster roster (before peer old)
    · rw [List.mem_singleton.mp new]
      exact reroster roster (joined swarm.download address peerId capabilities now mailbox)
  · intro swarm gone _ _ before peer member
    exact reroster _ (evolve (swarm.download.free_evolves gone.session)
      (before peer (List.mem_filter.mp member).1))
  · intro swarm _ before peer member
    exact evolve (swarm.download.recheck_evolves swarm.store) (before peer member)
  · intro swarm ip before peer member
    exact evolve (swarm.download.ban_evolves ip) (before peer member)

/-- What each peer keeps by itself. -/
theorem peers_stable {Q : Torrent → Peer → Prop}
    (moved : ∀ {scene after : Scene}, Move scene after →
      Q scene.download.torrent scene.peer → Q scene.download.torrent after.peer)
    (withdrawn : ∀ {scene after : Scene}, Withdrawal scene after →
      Q scene.download.torrent scene.peer → Q scene.download.torrent after.peer)
    (joined : ∀ (download : Download) (address : Address) (peerId : PeerId)
      (capabilities : Capabilities) (now mailbox : Nat),
      Q download.torrent (welcome download address peerId capabilities now mailbox)) :
    Stable fun swarm => ∀ peer ∈ swarm.peers, Q swarm.download.torrent peer := by
  refine @sharing_stable (fun download peer => Q download.torrent peer) ?_ (fun _ same => same) ?_
    ?_ joined
  · intro before after peer evolves kept
    rw [evolves.torrent]
    exact kept
  · intro scene after _ move kept
    rw [move.evolves.torrent]
    exact moved move kept
  · intro scene after withdrawal kept
    rw [withdrawal.download]
    exact withdrawn withdrawal kept

end Swarm

end BitTorrent
