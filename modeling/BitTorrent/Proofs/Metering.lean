import BitTorrent.Rate.Shaper

/-!
What the meters of a tree count: bytes on their way up from a meter are counted there once, however
long they have to wait on the way.
-/

set_option autoImplicit false

namespace BitTorrent.Shaper

/-- The parents of the meters, in their order. -/
def parents (shaper : Shaper) : List (Option Nat) :=
  shaper.meters.map (·.parent)

/-- Every meter stands behind its parent. -/
def Rooted (shaper : Shaper) : Prop :=
  ∀ meter parent : Nat, shaper.parents[meter]? = some (some parent) → parent < meter

theorem meter?_eq_some {shaper : Shaper} {meter : Nat} (present : meter < shaper.parents.length) :
    ∃ found, shaper.meter? meter = some found := by
  have inside : meter < shaper.meters.length := by simpa [parents] using present
  exact ⟨_, List.getElem?_eq_getElem inside⟩

theorem parent_lt {shaper : Shaper} (rooted : shaper.Rooted) {meter parent : Nat} {found : Meter}
    (here : shaper.meter? meter = some found) (up : found.parent = some parent) :
    parent < meter := by
  apply rooted
  rw [meter?] at here
  rw [parents, List.getElem?_map, here, Option.map_some, up]

theorem new_rooted (down up now : Nat) : (new down up now).Rooted := by
  intro meter parent found
  simp only [parents, new, Meter.new, List.map_cons, List.map_nil] at found
  cases meter <;> simp at found

theorem child_rooted {shaper : Shaper} (rooted : shaper.Rooted) {parent : Nat}
    (present : parent < shaper.parents.length) (down up now : Nat) :
    (shaper.child parent down up now).1.Rooted := by
  intro meter above found
  simp only [parents, child, List.map_append, List.map_cons, List.map_nil, Meter.new] at found
  rcases Nat.lt_or_ge meter (shaper.meters.map (·.parent)).length with old | new
  · rw [List.getElem?_append_left old] at found
    exact rooted meter above found
  · rw [List.getElem?_append_right new] at found
    obtain ⟨first, same⟩ := List.getElem?_eq_some_iff.mp found
    simp only [List.getElem_singleton, Option.some.injEq] at same
    unfold parents at present
    omega

@[simp] theorem parents_modifyLane (shaper : Shaper) (meter : Nat) (direction : Direction)
    (change : Lane → Lane) :
    (shaper.modifyLane meter direction change).parents = shaper.parents := by
  simp only [parents, modifyLane]
  apply List.ext_getElem?
  intro index
  rw [List.getElem?_map, List.getElem?_map, List.getElem?_modify]
  cases shaper.meters[index]? with
  | none => simp
  | some found => by_cases same : meter = index <;> cases direction <;> simp [same, Meter.setLane]

@[simp] theorem parents_count (shaper : Shaper) (direction : Direction) (bytes meter : Nat) :
    (shaper.count direction bytes meter).parents = shaper.parents :=
  parents_modifyLane ..

@[simp] theorem parents_charge (shaper : Shaper) (now : Nat) (direction : Direction)
    (bytes meter : Nat) : (shaper.charge now direction bytes meter).1.parents = shaper.parents := by
  unfold charge
  split
  · rfl
  · exact parents_modifyLane ..

theorem parents_pay (now : Nat) (direction : Direction) (bytes : Nat) (tolls : List Toll)
    (shaper : Shaper) : (pay now direction bytes shaper tolls).1.parents = shaper.parents := by
  induction tolls generalizing shaper with
  | nil => rfl
  | cons toll rest ih =>
    cases toll with
    | count meter => rw [pay, ih, parents_count]
    | charge meter =>
      simp only [pay]
      split
      · exact parents_charge ..
      · rw [ih, parents_charge]
      · exact parents_charge ..

@[simp] theorem parents_advance (shaper : Shaper) (now : Nat) (passage : Passage) :
    (shaper.advance now passage).1.parents = shaper.parents :=
  parents_pay ..

theorem total_modifyLane_other {shaper : Shaper} {changed meter : Nat} (other : changed ≠ meter)
    (direction : Direction) (change : Lane → Lane) :
    (shaper.modifyLane changed direction change).total direction meter =
      shaper.total direction meter := by
  simp [total, meter?, modifyLane, other]

theorem total_count {shaper : Shaper} {meter : Nat} (present : meter < shaper.parents.length)
    (direction : Direction) (bytes : Nat) :
    (shaper.count direction bytes meter).total direction meter =
      shaper.total direction meter + bytes := by
  obtain ⟨found, here⟩ := meter?_eq_some present
  simp only [meter?] at here
  cases direction <;>
    simp [total, count, meter?, modifyLane, here, Meter.setLane, Meter.lane]

theorem total_charge (shaper : Shaper) (now : Nat) (direction : Direction)
    (bytes charged meter : Nat) :
    (shaper.charge now direction bytes charged).1.total direction meter =
      shaper.total direction meter := by
  unfold charge
  split
  · rfl
  · rename_i found here
    by_cases same : charged = meter
    · subst same
      simp only [meter?] at here
      cases direction <;>
        simp [total, meter?, modifyLane, here, Meter.setLane, Meter.lane]
    · exact total_modifyLane_other same ..

/-- Tolls that do not count at a meter leave its total as it is. -/
theorem total_pay_other {meter : Nat} (now : Nat) (direction : Direction) (bytes : Nat)
    (tolls : List Toll) (elsewhere : Toll.count meter ∉ tolls) (shaper : Shaper) :
    (pay now direction bytes shaper tolls).1.total direction meter =
      shaper.total direction meter := by
  induction tolls generalizing shaper with
  | nil => rfl
  | cons toll rest ih =>
    have behind : Toll.count meter ∉ rest := fun inside => elsewhere (List.mem_cons_of_mem _ inside)
    cases toll with
    | count other =>
      have different : other ≠ meter := by
        rintro rfl
        exact elsewhere List.mem_cons_self
      rw [pay, ih behind, count, total_modifyLane_other different]
    | charge other =>
      simp only [pay]
      split
      · exact total_charge ..
      · rw [ih behind, total_charge]
      · exact total_charge ..

theorem ancestors_le {shaper : Shaper} (rooted : shaper.Rooted) (fuel meter : Nat) :
    ∀ above ∈ shaper.ancestors fuel meter, above ≤ meter := by
  induction fuel generalizing meter with
  | zero => exact fun above inside => nomatch inside
  | succ fuel ih =>
    intro above inside
    rw [ancestors] at inside
    split at inside
    · cases inside
    · rename_i found here
      rcases List.mem_cons.mp inside with rfl | higher
      · exact Nat.le_refl _
      · split at higher
        · rename_i parent up
          exact Nat.le_trans (ih parent above higher) (Nat.le_of_lt (parent_lt rooted here up))
        · cases higher

theorem path_eq {shaper : Shaper} (rooted : shaper.Rooted) {meter : Nat}
    (present : meter < shaper.parents.length) :
    ∃ above, shaper.path meter = meter :: above ∧ meter ∉ above := by
  obtain ⟨found, here⟩ := meter?_eq_some present
  have some_meters : ∃ fuel, shaper.meters.length = fuel + 1 :=
    ⟨shaper.meters.length - 1, by simp only [parents, List.length_map] at present; omega⟩
  obtain ⟨fuel, counted⟩ := some_meters
  refine ⟨_, by rw [path, counted, ancestors, here], ?_⟩
  intro inside
  split at inside
  · rename_i parent up
    have before := parent_lt rooted here up
    have later := ancestors_le rooted fuel parent meter inside
    omega
  · cases inside

/-- Downloaded bytes are counted once at the meter that they pass, before any wait. -/
theorem total_advance {shaper : Shaper} (rooted : shaper.Rooted) {meter : Nat}
    (present : meter < shaper.parents.length) (now bytes : Nat) :
    (shaper.advance now (shaper.passage .download meter bytes)).1.total .download meter =
      shaper.total .download meter + bytes := by
  obtain ⟨above, road, once⟩ := path_eq rooted present
  have elsewhere : Toll.count meter ∉ Toll.charge meter :: above.flatMap (tollsAt .download) := by
    simp [tollsAt, once]
  simp only [advance, passage, road, List.flatMap_cons, tollsAt, List.cons_append, List.nil_append]
  rw [pay]
  exact (total_pay_other now .download bytes _ elsewhere _).trans (total_count present _ _)

end BitTorrent.Shaper
