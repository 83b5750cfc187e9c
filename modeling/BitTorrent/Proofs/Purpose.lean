import BitTorrent.Proofs.Recall

/-!
Interest does not last longer than what it is for. A peer whose set of pieces only grows is found
interesting for a piece that it has and that is missing, or the news of what is missing no longer
waits for it.
-/

set_option autoImplicit false

namespace BitTorrent

/-- What is fetched from a peer is among its pieces. -/
structure Session.Suited (session : Session) : Prop where
  offered : ∀ {request}, request ∈ session.downloads →
    session.bitfield.has request.piece = true
  chosen : ∀ {piece}, session.assigned = some piece → session.bitfield.has piece = true

namespace Turn

variable {turn after : Turn} {number : Nat}

theorem Pursues.suited (pursues : turn.Pursues after) (suited : turn.session.Suited) :
    after.session.Suited where
  offered := by
    intro request member
    rw [pursues.bitfield]
    rcases pursues.opened member with earlier | ⟨-, -, taken | offered⟩
    · exact suited.offered earlier
    · exact suited.chosen taken
    · exact offered
  chosen := by
    intro piece taken
    rw [pursues.bitfield]
    exact (pursues.chosen taken).elim suited.chosen And.left

/-- Interest in a peer is for a missing piece, unless news waits for it. -/
structure Purposeful (turn : Turn) (number : Nat) : Prop where
  awaited : turn.Awaited number
  suited : turn.session.Suited
  useful : turn.session.amInterested = true →
    turn.download.pending number ≠ [] ∨ ∃ piece, turn.Lacks piece

theorem Purposeful.narrows (purposeful : turn.Purposeful number) (narrows : turn.Narrows after)
    (grows : ∀ piece, turn.session.bitfield.has piece = true →
      after.session.bitfield.has piece = true) : after.Purposeful number where
  awaited := purposeful.awaited.narrows narrows
  suited :=
    ⟨fun member => grows _ (purposeful.suited.offered (narrows.fewer member)),
      fun taken => grows _ (purposeful.suited.chosen (narrows.assigned taken))⟩
  useful := by
    intro interested
    rw [Download.pending_congr narrows.mailboxes]
    refine (purposeful.useful (narrows.interest interested)).imp_right ?_
    rintro ⟨piece, offered, missing⟩
    refine ⟨piece, grows piece offered, ?_⟩
    rw [Holdings.has, narrows.completed]
    exact missing

theorem Purposeful.pursues (purposeful : turn.Purposeful number) (pursues : turn.Pursues after) :
    after.Purposeful number where
  awaited := purposeful.awaited.pursues pursues
  suited := pursues.suited purposeful.suited
  useful := by
    intro interested
    rw [Download.pending_congr pursues.quiet.mailboxes]
    rcases pursues.interest interested with earlier | ⟨piece, lacks⟩
    · exact (purposeful.useful earlier).imp_right fun ⟨piece, lacks⟩ =>
        ⟨piece, pursues.lacks.mpr lacks⟩
    · exact .inr ⟨piece, pursues.lacks.mpr lacks⟩

/-- Interest that is not withdrawn is in blocks that are on their way or in a missing piece. -/
theorem loseInterest_useful (sized : turn.Sized)
    (interested : turn.loseInterest.session.amInterested = true) :
    turn.loseInterest.session.downloads ≠ [] ∨ ∃ piece, turn.loseInterest.Lacks piece := by
  unfold loseInterest at interested ⊢
  split at interested
  · unfold Session.withdrawInterest at interested
    split at interested
    · cases interested
    · contradiction
  · rename_i purpose
    rw [if_neg purpose]
    rw [Bool.and_eq_true, not_and_or] at purpose
    refine purpose.imp ?_ ?_
    · exact fun asked empty => asked (List.isEmpty_iff.mpr empty)
    · intro useful
      rw [Bool.not_eq_true, Bool.not_eq_false'] at useful
      exact (Bitfield.hasMissingFrom_iff sized).mp useful

/-- Whoever hears the news of a piece is interested for a reason afterwards, or parts. -/
theorem onLocalHave_useful (sized : turn.Sized) (piece : Nat)
    (stays : (turn.onLocalHave piece).2 ≠ .ok .leave)
    (interested : (turn.onLocalHave piece).1.session.amInterested = true) :
    (turn.onLocalHave piece).1.session.downloads ≠ [] ∨
      ∃ missing, (turn.onLocalHave piece).1.Lacks missing := by
  have sizedAfter := cancelRequests_sized sized piece
  unfold onLocalHave at stays interested ⊢
  dsimp only at stays interested ⊢
  split at stays
  · exact absurd rfl stays
  · rename_i useful
    rw [if_neg useful] at interested ⊢
    split at stays
    · rename_i choking
      rw [if_pos choking] at interested ⊢
      exact loseInterest_useful sizedAfter interested
    · rename_i unchoked
      rw [if_neg unchoked] at interested ⊢
      obtain ⟨filled, ended⟩ := fillPipeline_pursues sizedAfter
      generalize (turn.cancelRequests piece).fillPipeline = outcome at filled ended interested ⊢
      obtain ⟨later, result⟩ := outcome
      cases ended
      exact loseInterest_useful (filled.sized sizedAfter) interested

/-- Interest that lasts is in a piece that is missing, as blocks on their way are of such pieces. -/
theorem Purposeful.hears (purposeful : turn.Purposeful number) (sized : turn.Sized) {piece : Nat}
    {rest : List Command} (queued : turn.download.roster.queued number = .have_ piece :: rest)
    (stays : ((turn.take number rest).onLocalHave piece).2 ≠ .ok .leave) :
    ((turn.take number rest).onLocalHave piece).1.Purposeful number := by
  have taken : (turn.take number rest).Sized := sized
  have awaited := purposeful.awaited.hears sized queued
  obtain ⟨middle, cancelled, followed, -⟩ := onLocalHave_pursues taken piece
  have suited := followed.suited (cancelled.suited purposeful.suited)
  refine ⟨awaited, suited, fun interested => ?_⟩
  rcases onLocalHave_useful taken piece stays interested with asked | lacks
  · obtain ⟨request, member⟩ := List.exists_mem_of_ne_nil _ asked
    have offered := suited.offered member
    cases held : ((turn.take number rest).onLocalHave piece).1.download.holdings.has
      request.piece with
    | true => exact .inl (List.ne_nil_of_mem (awaited request member held))
    | false => exact .inr ⟨request.piece, offered, held⟩
  · exact .inr lacks

end Turn

namespace Worker

variable {worker : Worker} {download later : Download} {after : Turn} {next : Next}

/-- Interest in the peer is for a missing piece, unless news waits for it. -/
def Purposeful (worker : Worker) (download : Download) : Prop :=
  (worker.turn download).Purposeful worker.mailbox

/-- A piece that is no longer missing is news. -/
theorem Purposeful.informs (purposeful : worker.Purposeful download)
    (reached : download.Reaches worker.mailbox)
    (informs : download.Informs worker.address worker.mailbox later) :
    worker.Purposeful later where
  awaited := Awaited.informs purposeful.awaited reached informs
  suited := purposeful.suited
  useful := by
    intro interested
    rcases purposeful.useful interested with waits | ⟨piece, offered, missing⟩
    · obtain ⟨news, waiting⟩ := List.exists_mem_of_ne_nil _ waits
      exact .inl (List.ne_nil_of_mem (informs.keeps waiting))
    · cases held : later.holdings.has piece with
      | true => exact .inl (List.ne_nil_of_mem (informs.brings reached held missing))
      | false => exact .inr ⟨piece, offered, held⟩

theorem Fetches.purposeful (fetches : worker.Fetches download after next)
    (settled : worker.Settled download) (orderly : download.roster.Orderly)
    (purposeful : worker.Purposeful download) (stays : next.parts = false)
    (grows : ∀ piece, worker.session.bitfield.has piece = true →
      after.session.bitfield.has piece = true) : after.Purposeful worker.mailbox := by
  cases fetches with
  | resumes narrows pursues =>
    rw [pursues.bitfield] at grows
    exact (Turn.Purposeful.narrows purposeful narrows grows).pursues pursues
  | completes piece pursues =>
    have announced : worker.Purposeful (download.verify piece) :=
      purposeful.informs settled.reached (Download.verify_informs orderly piece)
    exact announced.pursues pursues
  | hears piece rest queued =>
    refine Turn.Purposeful.hears purposeful settled.sized queued fun leaves => ?_
    rw [leaves] at stays
    cases stays
  | dismissed rest queued => cases stays

end Worker

namespace Company

variable {company : Company}

/-- No peer takes back a piece that it has announced. -/
def Grows (company : Company) (stretch : Stretch) : Prop :=
  ∀ worker ∈ company.crowd.workers, ∀ later ∈ (company.step stretch).crowd.workers,
    later.mailbox = worker.mailbox → ∀ piece ∈ worker.session.bitfield.toList,
      later.session.bitfield.has piece = true

/-- In a whole run no peer takes back a piece that it has announced. -/
def Widens (company : Company) : List Stretch → Prop
  | [] => True
  | stretch :: rest => company.Grows stretch ∧ (company.step stretch).Widens rest

theorem step_purposeful (sound : company.crowd.Sound)
    (purposeful : ∀ worker ∈ company.staying, worker.Purposeful company.crowd.download)
    {stretch : Stretch} (grows : company.Grows stretch) :
    ∀ worker ∈ (company.step stretch).staying,
      worker.Purposeful (company.step stretch).crowd.download := by
  intro worker member
  have present := (mem_staying.mp member).1
  cases fate sound member with
  | stays earlier informs =>
    have settled := sound.settled worker (mem_staying.mp earlier).1
    exact (purposeful worker earlier).informs settled.reached informs
  | @acts deed earlier turn next there performed goes_on same download =>
    subst same
    have old := (mem_staying.mp there).1
    have settled := sound.settled earlier old
    have fetches := Worker.perform_fetches settled.sized performed
    have kept : ∀ piece, earlier.session.bitfield.has piece = true →
        turn.session.bitfield.has piece = true := fun piece held =>
      grows earlier old _ present rfl piece ((Bitfield.mem_toList _ _).mpr held)
    have acted := fetches.purposeful settled sound.orderly (purposeful earlier there) goes_on kept
    rw [download]
    exact ⟨acted.awaited, acted.suited, acted.useful⟩
  | comes _ downloads assigned interest =>
    have asked : ∀ {request}, request ∉ worker.session.downloads := by
      intro request inside
      rw [downloads] at inside
      cases inside
    refine ⟨fun request inside => absurd inside asked,
      ⟨fun inside => absurd inside asked, fun taken => ?_⟩, fun interested => ?_⟩
    · cases assigned.symm.trans taken
    · cases interest.symm.trans interested

theorem run_purposeful (sound : company.crowd.Sound)
    (purposeful : ∀ worker ∈ company.staying, worker.Purposeful company.crowd.download)
    {stretches : List Stretch} (widens : company.Widens stretches) :
    ∀ worker ∈ (company.run stretches).staying,
      worker.Purposeful (company.run stretches).crowd.download := by
  induction stretches generalizing company with
  | nil => exact purposeful
  | cons stretch later ih =>
    obtain ⟨grows, rest⟩ := widens
    exact ih (step_sound sound stretch) (step_purposeful sound purposeful grows) rest

instance decidableGrows (company : Company) (stretch : Stretch) :
    Decidable (company.Grows stretch) :=
  inferInstanceAs (Decidable (∀ worker ∈ _, ∀ later ∈ _, _ → ∀ piece ∈ _, _ = _))

instance decidableWidens (company : Company) (stretches : List Stretch) :
    Decidable (company.Widens stretches) :=
  match stretches with
  | [] => isTrue trivial
  | stretch :: rest =>
    @instDecidableAnd _ _ (decidableGrows company stretch)
      (decidableWidens (company.step stretch) rest)

end Company

/-- However the handlers interleave, and whatever the store answers, as long as no peer takes back a
piece that it has announced and whoever asks to part is not called again: we are interested in a
peer for which no news of a piece waits only if it has a piece that is missing. -/
theorem run_useful (torrent : Torrent) (settings : Settings) (selector : Selector)
    (ownId : PeerId) (draws : List Nat) (stretches : List Stretch)
    (widens : (Company.start torrent settings selector ownId draws).Widens stretches) :
    let company := (Company.start torrent settings selector ownId draws).run stretches
    ∀ worker ∈ company.staying, worker.session.amInterested = true →
      (∀ piece, .have_ piece ∉ company.crowd.download.roster.queued worker.mailbox) →
      ∃ piece, worker.session.bitfield.has piece = true ∧
        company.crowd.download.holdings.has piece = false := by
  intro company worker member interested quiet
  have start : (Company.start torrent settings selector ownId draws).crowd.Sound :=
    Crowd.start_sound torrent settings selector ownId draws
  have purposeful := Company.run_purposeful start (fun _ inside => nomatch inside) widens worker
    member
  rcases purposeful.useful interested with waits | lacks
  · obtain ⟨piece, waiting⟩ := List.exists_mem_of_ne_nil _ waits
    exact absurd (Download.mem_pending.mp waiting) (quiet piece)
  · exact lacks

/-- Two pieces with the same bytes. -/
def Sample.twins : Torrent :=
  ⟨sha1 [], "twins", 4, 8, [piece, ⟨1, sha1 content, 4, 4⟩], [⟨"twins", 0, 8⟩], []⟩

/-- The first peer gives us the piece that it has, and the second peer, which has both, hears of
it. -/
def Sample.half : List Stretch :=
  [.join first peerId .incoming .none 0, .join second peerId .incoming .none 0,
    .perform first (.receive 0 (.have_ 0)), .perform second (.receive 0 (.bitfield [192])),
    .perform first (.receive 0 .unchoke), .perform second (.receive 0 .unchoke),
    .perform first (.receive 0 (.piece 0 0 content)),
    .perform first (.resume (.written (.ok ()))),
    .perform first (.resume (.hashed (.ok (sha1 content)))), .perform second .obey]

/-- The second peer is still of interest, for the other piece. -/
theorem run_useful_half :
    (Company.start Sample.twins {} ⟨.sequential, false⟩ Sample.peerId []).Widens Sample.half ∧
      let company := (Company.start Sample.twins {} ⟨.sequential, false⟩ Sample.peerId []).run
        Sample.half
      company.crowd.download.holdings.has 0 = true ∧
        ∃ worker ∈ company.staying, worker.address = Sample.second ∧
          worker.session.amInterested = true ∧
          ∃ piece, worker.session.bitfield.has piece = true ∧
            company.crowd.download.holdings.has piece = false := by
  have widens : (Company.start Sample.twins {} ⟨.sequential, false⟩ Sample.peerId []).Widens
      Sample.half := by
    decide +kernel
  have reached : let company := (Company.start Sample.twins {} ⟨.sequential, false⟩
        Sample.peerId []).run Sample.half;
      company.crowd.download.holdings.has 0 = true ∧
      company.staying.any (fun worker => decide (worker.address = Sample.second) &&
        worker.session.amInterested &&
        (company.crowd.download.roster.queued worker.mailbox).isEmpty) = true := by
    decide +kernel
  have facts := run_useful Sample.twins {} ⟨.sequential, false⟩ Sample.peerId []
    Sample.half widens
  refine ⟨widens, ?_⟩
  generalize (Company.start Sample.twins {} ⟨.sequential, false⟩ Sample.peerId []).run
    Sample.half = company at facts reached ⊢
  obtain ⟨complete, found⟩ := reached
  obtain ⟨worker, member, same⟩ := List.any_eq_true.mp found
  simp only [Bool.and_eq_true, decide_eq_true_eq, List.isEmpty_iff] at same
  obtain ⟨⟨address, interested⟩, empty⟩ := same
  have quiet : ∀ piece, .have_ piece ∉ company.crowd.download.roster.queued worker.mailbox := by
    intro piece queued
    rw [empty] at queued
    cases queued
  exact ⟨complete, worker, member, address, interested, facts worker member interested quiet⟩

end BitTorrent
