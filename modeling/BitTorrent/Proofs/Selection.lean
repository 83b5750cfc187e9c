import BitTorrent.Proofs.Bitfield
import BitTorrent.Selection

set_option autoImplicit false

namespace BitTorrent.Selector

variable {selector : Selector} {peer completed : Bitfield} {inFlight : List Nat}

/-- A candidate is held by the peer and not complete; without the end game nobody fetches it. -/
theorem mem_candidates (sized : peer.size = completed.size) {piece : Nat}
    (member : piece ∈ selector.candidates peer completed inFlight) :
    peer.has piece = true ∧ completed.has piece = false ∧
      (selector.endGame = false → piece ∉ inFlight) := by
  unfold candidates at member
  dsimp only at member
  split at member
  · rename_i ending
    simp only [Bool.and_eq_true] at ending
    rw [Bitfield.mem_toList, Bitfield.has_difference sized] at member
    simp only [Bool.and_eq_true, Bool.not_eq_true'] at member
    exact ⟨member.1, member.2, fun off => absurd (ending.2.symm.trans off) (by decide)⟩
  · rw [List.mem_filter, Bitfield.mem_toList, Bitfield.has_difference sized] at member
    simp only [Bool.and_eq_true, Bool.not_eq_true'] at member
    exact ⟨member.1.1, member.1.2, fun _ inside => by simp [inside] at member⟩

/-- Without candidates, all that the peer has is complete or fetched; in the end game, complete. -/
theorem candidates_eq_nil (sized : peer.size = completed.size)
    (none : selector.candidates peer completed inFlight = []) {piece : Nat}
    (held : peer.has piece = true) :
    completed.has piece = true ∨ (selector.endGame = false ∧ piece ∈ inFlight) := by
  by_cases present : completed.has piece = true
  · exact Or.inl present
  · have missing : piece ∈ (peer.difference completed).toList := by
      rw [Bitfield.mem_toList, Bitfield.has_difference sized, held]
      simpa using present
    unfold candidates at none
    dsimp only at none
    split at none
    · rw [none] at missing
      cases missing
    · rename_i off
      have fetched : piece ∈ inFlight := by
        by_cases inside : piece ∈ inFlight
        · exact inside
        · have free : piece ∈ (peer.difference completed).toList.filter
              fun piece => !inFlight.contains piece :=
            List.mem_filter.mpr ⟨missing, by simpa using inside⟩
          rw [none] at free
          cases free
      rw [none] at off
      exact Or.inr ⟨by simpa using off, fetched⟩

theorem rarest?_mem {swarm : List Bitfield} {candidates : List Nat} {piece : Nat}
    (chosen : rarest? swarm candidates = some piece) : piece ∈ candidates := by
  cases candidates with
  | nil => cases chosen
  | cons first rest =>
    simp only [rarest?, Option.some.injEq] at chosen
    subst chosen
    induction rest generalizing first with
    | nil => exact List.mem_singleton.mpr rfl
    | cons second rest ih =>
      have kept : rarer swarm first second = first ∨ rarer swarm first second = second := by
        unfold rarer
        split
        · exact Or.inr rfl
        · exact Or.inl rfl
      have member := ih (rarer swarm first second)
      rw [List.foldl_cons]
      rcases kept with same | same <;> rw [same] at member ⊢ <;>
        simp only [List.mem_cons] at member ⊢
      · rcases member with here | later
        · exact Or.inl here
        · exact Or.inr (Or.inr later)
      · exact Or.inr member

/-- A choice is one of the candidates. -/
theorem choose?_mem {draw piece : Nat} {swarm : List Bitfield} {candidates : List Nat}
    (chosen : selector.choose? draw swarm candidates = some piece) : piece ∈ candidates := by
  unfold choose? at chosen
  split at chosen
  · exact List.mem_of_getElem? chosen
  · exact List.mem_of_mem_head? chosen
  · exact rarest?_mem chosen

/-- A choice is made as long as there is a candidate. -/
theorem choose?_eq_none {draw : Nat} {swarm : List Bitfield} {candidates : List Nat}
    (refused : selector.choose? draw swarm candidates = none) : candidates = [] := by
  cases candidates with
  | nil => rfl
  | cons first rest =>
    unfold choose? at refused
    split at refused
    · rw [List.getElem?_eq_none_iff] at refused
      have bound := Nat.mod_lt draw (show 0 < (first :: rest).length by simp)
      omega
    · cases refused
    · cases refused

end BitTorrent.Selector
