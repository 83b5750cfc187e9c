import BitTorrent.Proofs.Metering
import Mathlib.Logic.Relation

/-!
The way from a meter up to the root: it leads through the meter and all those above it, through each
of them once.
-/

set_option autoImplicit false

namespace BitTorrent.Shaper

variable {shaper other : Shaper} {meter above : Nat}

/-- The meter directly above another. -/
def parent? (shaper : Shaper) (meter : Nat) : Option Nat :=
  (shaper.parents[meter]?).join

/-- One meter is another or stands above it. -/
def Reaches (shaper : Shaper) : Nat → Nat → Prop :=
  Relation.ReflTransGen fun below above => shaper.parent? below = some above

theorem parent?_lt (rooted : shaper.Rooted) (up : shaper.parent? meter = some above) :
    above < meter := by
  apply rooted
  simpa [parent?, Option.join_eq_some_iff] using up

theorem parent?_inside (up : shaper.parent? meter = some above) :
    meter < shaper.parents.length := by
  apply Nat.lt_of_not_le
  intro outside
  simp [parent?, List.getElem?_eq_none outside] at up

theorem parent?_eq {found : Meter} (here : shaper.meter? meter = some found) :
    shaper.parent? meter = found.parent := by
  rw [meter?] at here
  simp [parent?, parents, here]

theorem ancestors_cons (present : meter < shaper.parents.length) (fuel : Nat) :
    shaper.ancestors (fuel + 1) meter =
      meter :: (shaper.parent? meter).elim [] (shaper.ancestors fuel) := by
  obtain ⟨found, here⟩ := meter?_eq_some present
  simp only [ancestors, here, parent?_eq here]
  cases found.parent <;> rfl

/-- The fuel is enough as soon as it is more than the number of the meter. -/
theorem ancestors_fuel (rooted : shaper.Rooted) (present : meter < shaper.parents.length)
    {fuel : Nat} (enough : meter < fuel) :
    shaper.ancestors fuel meter = shaper.ancestors (meter + 1) meter := by
  induction meter using Nat.strongRecOn generalizing fuel with
  | ind meter ih =>
    obtain ⟨fuel, rfl⟩ : ∃ less, fuel = less + 1 := ⟨fuel - 1, by omega⟩
    rw [ancestors_cons present, ancestors_cons present]
    cases up : shaper.parent? meter with
    | none => rfl
    | some above =>
      have lower := parent?_lt rooted up
      have first := ih above lower (by omega) (show above < fuel by omega)
      have second := ih above lower (by omega) (show above < meter by omega)
      simp only [Option.elim_some, first, second]

theorem path_cons (rooted : shaper.Rooted) (present : meter < shaper.parents.length) :
    shaper.path meter = meter :: (shaper.parent? meter).elim [] shaper.path := by
  have counted : shaper.parents.length = shaper.meters.length := by simp [parents]
  rw [path, ← counted, ancestors_fuel rooted present present, ancestors_cons present]
  cases up : shaper.parent? meter with
  | none => rfl
  | some above =>
    have lower := parent?_lt rooted up
    have below : above < shaper.parents.length := by omega
    simp only [Option.elim_some, path]
    rw [← counted, ancestors_fuel rooted below lower, ancestors_fuel rooted below below]

/-- The way depends on nothing but the parents along it. -/
theorem path_congr (rooted : shaper.Rooted) (others : other.Rooted)
    (present : meter < shaper.parents.length) (longer : shaper.parents <+: other.parents) :
    other.path meter = shaper.path meter := by
  obtain ⟨more, joined⟩ := longer
  induction meter using Nat.strongRecOn with
  | ind meter ih =>
    have same : other.parent? meter = shaper.parent? meter := by
      rw [parent?, parent?, ← joined, List.getElem?_append_left present]
    have there : meter < other.parents.length := by
      rw [← joined, List.length_append]
      omega
    rw [path_cons rooted present, path_cons others there, same]
    cases up : shaper.parent? meter with
    | none => rfl
    | some above =>
      have lower := parent?_lt rooted up
      simp only [Option.elim_some, ih above lower (by omega)]

theorem path_le (rooted : shaper.Rooted) (inside : above ∈ shaper.path meter) : above ≤ meter :=
  ancestors_le rooted _ meter above inside

/-- Meters higher up have lower numbers, so none is passed twice. -/
theorem path_descends (rooted : shaper.Rooted) (present : meter < shaper.parents.length) :
    (shaper.path meter).Pairwise (· > ·) := by
  induction meter using Nat.strongRecOn with
  | ind meter ih =>
    rw [path_cons rooted present]
    cases up : shaper.parent? meter with
    | none => simp
    | some above =>
      have lower := parent?_lt rooted up
      simp only [Option.elim_some, List.pairwise_cons]
      refine ⟨fun higher inside => ?_, ih above lower (by omega)⟩
      have most := path_le rooted inside
      omega

/-- The way leads through the meter itself and all those above it. -/
theorem mem_path (rooted : shaper.Rooted) (present : meter < shaper.parents.length) :
    above ∈ shaper.path meter ↔ shaper.Reaches meter above := by
  induction meter using Nat.strongRecOn with
  | ind meter ih =>
    rw [path_cons rooted present, List.mem_cons]
    constructor
    · rintro (rfl | higher)
      · exact .refl
      · cases up : shaper.parent? meter with
        | none => simp [up] at higher
        | some next =>
          have lower := parent?_lt rooted up
          simp only [up, Option.elim_some] at higher
          exact .head up ((ih next lower (by omega)).mp higher)
    · intro reaches
      rcases Relation.ReflTransGen.cases_head reaches with rfl | ⟨next, up, further⟩
      · exact Or.inl rfl
      · have lower := parent?_lt rooted up
        right
        simp only [up, Option.elim_some]
        exact (ih next lower (by omega)).mpr further

/-- Who is passed behind the first meter is reached from one directly below. -/
theorem exists_child (rooted : shaper.Rooted) (present : meter < shaper.parents.length)
    (inside : above ∈ shaper.path meter) (behind : above ≠ meter) :
    ∃ child ∈ shaper.path meter, shaper.parent? child = some above := by
  rcases Relation.ReflTransGen.cases_tail ((mem_path rooted present).mp inside) with
    same | ⟨child, reaches, up⟩
  · exact absurd same behind
  · exact ⟨child, (mem_path rooted present).mpr reaches, up⟩

end BitTorrent.Shaper
