import BitTorrent.Proofs.Members
import BitTorrent.Proofs.Selection
import BitTorrent.Word

/-!
Which piece is chosen, said of the finite sets of pieces: among the useful ones the least for the
sequential policy, and the one that most of the swarm lacks for the rarest first, the least on ties.
-/

set_option autoImplicit false

namespace BitTorrent.Selector

variable {selector : Selector} {peer completed : Bitfield} {inFlight : List Nat}
variable {swarm other : List Bitfield} {draw piece : Nat}

/-- The pieces that may be chosen: those that the peer has and we lack and that nobody fetches. In
the end game, if there are none of these, all that the peer has and we lack. -/
def eligible (selector : Selector) (peer completed : Bitfield) (inFlight : List Nat) :
    Finset Nat :=
  let missing := peer.members \ completed.members
  let free := missing \ inFlight.toFinset
  if free = ∅ ∧ selector.endGame = true then missing else free

/-- The number of the swarm's sets that a piece is not in. -/
def rarity (swarm : List Bitfield) (piece : Nat) : Nat :=
  (swarm.filter fun field => piece ∉ field.members).length

/-- A piece is rarer than another, or as rare and not behind it. -/
def Precedes (swarm : List Bitfield) (piece other : Nat) : Prop :=
  rarity swarm other < rarity swarm piece ∨
    (rarity swarm other = rarity swarm piece ∧ piece ≤ other)

/-- A piece is one that the policy may choose from a set. -/
def Suits (policy : PiecePolicy) (swarm : List Bitfield) (pieces : Finset Nat) (piece : Nat) :
    Prop :=
  piece ∈ pieces ∧
    match policy with
    | .random => True
    | .sequential => ∀ other ∈ pieces, piece ≤ other
    | .rarestFirst => ∀ other ∈ pieces, Precedes swarm piece other

/-! ### Candidates -/

theorem toFinset_candidates (sized : peer.size = completed.size) :
    (selector.candidates peer completed inFlight).toFinset =
      selector.eligible peer completed inFlight := by
  have missing : (peer.difference completed).toList.toFinset =
      peer.members \ completed.members := by
    rw [Bitfield.toFinset_toList, Bitfield.members_difference sized]
  have free : ((peer.difference completed).toList.filter
      fun piece => !inFlight.contains piece).toFinset =
        (peer.members \ completed.members) \ inFlight.toFinset := by
    rw [← missing]
    ext piece
    simp only [List.mem_toFinset, List.mem_filter, Finset.mem_sdiff, Bool.not_eq_true',
      List.contains_eq_mem, decide_eq_false_iff_not]
  have none : ((peer.difference completed).toList.filter
      fun piece => !inFlight.contains piece).isEmpty = true ↔
        (peer.members \ completed.members) \ inFlight.toFinset = ∅ := by
    rw [← free, List.isEmpty_iff, List.toFinset_eq_empty_iff]
  unfold candidates eligible
  dsimp only
  simp only [Bool.and_eq_true, none]
  split
  · exact missing
  · exact free

theorem candidates_ascending : (selector.candidates peer completed inFlight).Pairwise (· < ·) := by
  unfold candidates
  dsimp only
  split
  · exact Bitfield.toList_ascending _
  · exact (Bitfield.toList_ascending _).filter _

theorem lt_size_of_eligible (member : piece ∈ selector.eligible peer completed inFlight) :
    piece < peer.size := by
  have held : piece ∈ peer.members := by
    unfold eligible at member
    dsimp only at member
    split at member
    · exact (Finset.mem_sdiff.mp member).1
    · exact (Finset.mem_sdiff.mp (Finset.mem_sdiff.mp member).1).1
  exact Finset.mem_range.mp (peer.members_subset held)

/-! ### Rarity -/

theorem lacking_eq (swarm : List Bitfield) (piece : Nat) :
    lacking swarm piece = rarity swarm piece := by
  rw [lacking, rarity, List.countP_eq_length_filter]
  congr 2
  funext field
  simp only [Bitfield.mem_members, Bool.not_eq_true, Bool.decide_eq_false]

theorem rarity_perm (same : other.Perm swarm) : rarity other = rarity swarm :=
  funext fun _ => (same.filter _).length_eq

theorem Precedes.refl (swarm : List Bitfield) (piece : Nat) : Precedes swarm piece piece :=
  Or.inr ⟨rfl, Nat.le_refl _⟩

theorem Precedes.trans {first second third : Nat} (before : Precedes swarm first second)
    (later : Precedes swarm second third) : Precedes swarm first third := by
  unfold Precedes at *
  omega

/-- Of two pieces in order the one that is kept precedes both. -/
theorem rarer_precedes (swarm : List Bitfield) {best next : Nat} (ordered : best < next) :
    Precedes swarm (rarer swarm best next) best ∧ Precedes swarm (rarer swarm best next) next := by
  unfold rarer
  rw [lacking_eq, lacking_eq]
  split
  · rename_i fewer
    exact ⟨Or.inl fewer, .refl swarm next⟩
  · rename_i enough
    refine ⟨.refl swarm best, ?_⟩
    unfold Precedes
    omega

theorem foldl_rarer_precedes {best : Nat} {rest : List Nat}
    (ascending : (best :: rest).Pairwise (· < ·)) :
    ∀ other ∈ best :: rest, Precedes swarm (rest.foldl (rarer swarm) best) other := by
  -- What is kept so far may be behind the piece that came first, but is before all that follow.
  induction rest generalizing best with
  | nil =>
    intro other member
    obtain rfl := List.mem_singleton.mp member
    exact .refl swarm other
  | cons next rest ih =>
    obtain ⟨before, later⟩ := List.pairwise_cons.mp ascending
    have ordered : best < next := before next List.mem_cons_self
    have kept : (rarer swarm best next :: rest).Pairwise (· < ·) := by
      refine List.pairwise_cons.mpr ⟨fun other member => ?_, (List.pairwise_cons.mp later).2⟩
      unfold rarer
      split
      · exact (List.pairwise_cons.mp later).1 other member
      · exact before other (List.mem_cons_of_mem _ member)
    have first := ih kept _ List.mem_cons_self
    obtain ⟨overBest, overNext⟩ := rarer_precedes swarm ordered
    intro other member
    rcases List.mem_cons.mp member with rfl | behind
    · exact first.trans overBest
    · rcases List.mem_cons.mp behind with rfl | further
      · exact first.trans overNext
      · exact ih kept other (List.mem_cons_of_mem _ further)

/-! ### Choices -/

theorem choose?_suits {candidates : List Nat} (ascending : candidates.Pairwise (· < ·))
    (chosen : selector.choose? draw swarm candidates = some piece) :
    Suits selector.policy swarm candidates.toFinset piece := by
  refine ⟨List.mem_toFinset.mpr (choose?_mem chosen), ?_⟩
  unfold choose? at chosen
  cases policy : selector.policy with
  | random => trivial
  | sequential =>
    simp only [policy] at chosen
    intro other member
    cases candidates with
    | nil => cases chosen
    | cons first rest =>
      obtain rfl : first = piece := Option.some.inj chosen
      rcases List.mem_cons.mp (List.mem_toFinset.mp member) with rfl | behind
      · exact Nat.le_refl _
      · exact Nat.le_of_lt ((List.pairwise_cons.mp ascending).1 other behind)
  | rarestFirst =>
    simp only [policy] at chosen
    intro other member
    cases candidates with
    | nil => cases chosen
    | cons first rest =>
      obtain rfl : rest.foldl (rarer swarm) first = piece := Option.some.inj chosen
      exact foldl_rarer_precedes ascending other (List.mem_toFinset.mp member)

theorem choose?_perm (same : other.Perm swarm) {candidates : List Nat} :
    selector.choose? draw other candidates = selector.choose? draw swarm candidates := by
  have rarities : lacking other = lacking swarm := funext fun piece => by
    rw [lacking_eq, lacking_eq, rarity_perm same]
  have kept : rarer other = rarer swarm := by
    funext best piece
    rw [rarer, rarer, rarities]
  have rarest : rarest? other candidates = rarest? swarm candidates := by
    cases candidates with
    | nil => rfl
    | cons first rest => rw [rarest?, rarest?, kept]
  rw [choose?, choose?, rarest]

theorem comparable_of_sized (sized : peer.size = completed.size)
    (alike : ∀ field ∈ swarm, field.size = peer.size) :
    selector.comparable peer completed inFlight swarm = true := by
  unfold comparable
  simp only [Bool.and_eq_true, Bool.or_eq_true, decide_eq_true_eq, List.all_eq_true]
  refine ⟨sized, Or.inr fun piece member field listed => ?_⟩
  rw [alike field listed]
  exact Bitfield.lt_size_of_has (mem_candidates sized member).1

/-- On sets over the same pieces a selector always comes to a result. It chooses nothing exactly if
no piece is eligible, and otherwise one that suits its policy: the least for the sequential one; for
the rarest first the one that most of the swarm lacks, the least on ties; any that is drawn for the
random one. The order in which the swarm is listed is nothing to it, and where the pieces are
numbered in words of 32 bits so are those that it chooses from. -/
theorem select?_suits (sized : peer.size = completed.size)
    (alike : ∀ field ∈ swarm, field.size = peer.size) :
    ∃ choice, selector.select? draw peer completed inFlight swarm = some choice ∧
      (choice = none ↔ selector.eligible peer completed inFlight = ∅) ∧
      (∀ piece, choice = some piece →
        Suits selector.policy swarm (selector.eligible peer completed inFlight) piece) ∧
      (∀ other, other.Perm swarm →
        selector.select? draw peer completed inFlight other = some choice) ∧
      (selector.policy = .random → ∀ piece ∈ selector.eligible peer completed inFlight,
        ∃ draw, selector.select? draw peer completed inFlight swarm = some (some piece)) ∧
      (peer.size ≤ Word.bound32 →
        ∀ piece ∈ selector.eligible peer completed inFlight, piece < Word.bound32) := by
  have chosen : ∀ draw : Nat, selector.select? draw peer completed inFlight swarm =
      some (selector.choose? draw swarm (selector.candidates peer completed inFlight)) :=
    fun draw => if_pos (comparable_of_sized sized alike)
  refine ⟨_, chosen draw, ?_, ?_, ?_, ?_, ?_⟩
  · rw [← toFinset_candidates sized, List.toFinset_eq_empty_iff]
    constructor
    · exact choose?_eq_none
    · intro none
      rw [none]
      unfold choose?
      split <;> rfl
  · intro piece picked
    rw [← toFinset_candidates sized]
    exact choose?_suits candidates_ascending picked
  · intro other same
    have listed : ∀ field ∈ other, field.size = peer.size :=
      fun field member => alike field (same.mem_iff.mp member)
    rw [select?, if_pos (comparable_of_sized sized listed), select, choose?_perm same]
  · intro random piece member
    rw [← toFinset_candidates sized, List.mem_toFinset] at member
    obtain ⟨draw, inside, rfl⟩ := List.getElem_of_mem member
    refine ⟨draw, (chosen draw).trans ?_⟩
    simp only [choose?, random, Nat.mod_eq_of_lt inside, List.getElem?_eq_getElem inside]
  · intro words piece member
    exact Nat.lt_of_lt_of_le (lt_size_of_eligible member) words

/-- Two of four pieces are lacked by two of three peers. -/
def crowd : List Bitfield :=
  [[0, 1, 2], [0, 2], [0, 2, 3]].map (·.foldl Bitfield.insert (.empty 4))

theorem select?_suits_crowd :
    (Bitfield.full 4).size = (Bitfield.empty 4).size ∧ (∀ field ∈ crowd, field.size = 4) ∧
      select? ⟨.rarestFirst, false⟩ 0 (.full 4) (.empty 4) [] crowd = some (some 1) ∧
      Suits .rarestFirst crowd (eligible ⟨.rarestFirst, false⟩ (.full 4) (.empty 4) []) 1 := by
  have alike : ∀ field ∈ crowd, field.size = 4 := by decide +kernel
  obtain ⟨choice, chosen, -, suits, -⟩ :=
    @select?_suits ⟨.rarestFirst, false⟩ (.full 4) (.empty 4) [] crowd 0 rfl alike
  have first : choice = some 1 := (Option.some.inj chosen).symm.trans (by decide +kernel)
  exact ⟨rfl, alike, first ▸ chosen, suits 1 first⟩

end BitTorrent.Selector
