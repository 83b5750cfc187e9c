import BitTorrent.Proofs.Reception

/-!
How long a torrent is managed. While it is, anybody may be called for it, and callers are answered.
Afterwards no caller is answered, and nobody is called but by a stream of candidates that is still
open.
-/

set_option autoImplicit false

namespace BitTorrent

open Relation (ReflTransGen)

/-- Somebody who has said which torrent it wants waits for an answer. -/
def Attempt.isAnswering : Attempt → Bool
  | answering _ => true
  | _ => false

namespace Reception

variable {reception later : Reception} {managed : Bool} {number : Nat} {next : Attempt}

/-- A step in which nobody is called and no caller is answered, unless the torrent is managed. -/
structure Allowed (managed : Bool) (reception later : Reception) : Prop where
  step : reception.Step later
  called : ∀ {address source},
    later.attempts = reception.attempts ++ [.called address source] → managed = true
  answered : ∀ {number : Nat} {address : Address},
    reception.attempts[number]? = some (.accepted address) →
    later.attempts[number]? = some (.answering address) → managed = true

namespace Allowed

theorem of_managed (is : managed = true) (step : reception.Step later) :
    Allowed managed reception later :=
  ⟨step, fun _ => is, fun _ _ => is⟩

/-- A step that changes no attempt. -/
theorem of_still (step : reception.Step later) (same : later.attempts = reception.attempts) :
    Allowed managed reception later where
  step := step
  called := by
    intro address source grown
    rw [same] at grown
    exact absurd (List.self_eq_append_right.mp grown) (List.cons_ne_nil _ _)
  answered := by
    intro number address before after
    rw [same, before] at after
    cases after

/-- A step in which something becomes of one attempt, but not an answer. -/
theorem of_put (step : reception.Step later)
    (same : later.attempts = reception.attempts.set number next)
    (silent : next.isAnswering = false) : Allowed managed reception later where
  step := step
  called := by
    intro address source grown
    have longer := congrArg List.length grown
    rw [same, List.length_set, List.length_append] at longer
    exact absurd longer (Nat.ne_of_lt (Nat.lt_add_one _))
  answered := by
    intro index address before after
    rw [same, List.getElem?_set] at after
    split at after
    · split at after
      · cases after
        cases silent
      · cases after
    · cases before.symm.trans after

/-- A step with one more attempt that is not a call. -/
theorem of_begin (step : reception.Step later)
    (same : later.attempts = reception.attempts ++ [next])
    (silent : next.dials? = none) : Allowed managed reception later where
  step := step
  called := by
    intro address source grown
    rw [same, List.append_cancel_left_eq, List.singleton_inj] at grown
    rw [grown] at silent
    cases silent
  answered := by
    intro number address before after
    have inside := (List.getElem?_eq_some_iff.mp before).1
    rw [same, List.getElem?_append_left inside, before] at after
    cases after

end Allowed

end Reception

/-- A torrent that is managed, or not any more, and the number of open streams of candidates for
it. -/
structure Tenure where
  managed : Bool
  intakes : Nat
  reception : Reception

namespace Tenure

def start (torrent : Torrent) (settings : Settings) (ownId : PeerId) (draws : List Nat) : Tenure :=
  ⟨true, 0, .start torrent settings ownId draws⟩

/-- The torrent is not managed any more, and its connections are asked to close. -/
def remove (tenure : Tenure) : Tenure :=
  { tenure with
    managed := false
    reception := tenure.reception.withDownload tenure.reception.download.shutdown }

/-- A candidate is called only while a stream is open that it can come from, anybody else only while
the torrent is managed, and so is a caller answered. -/
structure Permits (tenure : Tenure) (later : Reception) : Prop where
  called : ∀ {address source},
    later.attempts = tenure.reception.attempts ++ [.called address source] →
    if source = .tracker then 0 < tenure.intakes else tenure.managed = true
  answered : ∀ {number : Nat} {address : Address},
    tenure.reception.attempts[number]? = some (.accepted address) →
    later.attempts[number]? = some (.answering address) → tenure.managed = true

theorem Permits.of_managed {tenure : Tenure} {later : Reception} (managed : tenure.managed = true)
    (manual : ∀ address, later.attempts.getLast? ≠ some (.called address .tracker)) :
    tenure.Permits later where
  called := by
    intro address source grown
    split
    · rename_i tracker
      subst tracker
      refine absurd ?_ (manual address)
      rw [grown, List.getLast?_append, List.getLast?_singleton]
      rfl
    · exact managed
  answered := fun _ _ => managed

/-- Streams of candidates are opened for a torrent that is managed, and come to an end. -/
inductive Step : Tenure → Tenure → Prop
  | opens {tenure : Tenure} : tenure.managed = true →
      Step tenure { tenure with intakes := tenure.intakes + 1 }
  | ends {tenure : Tenure} {left : Nat} : tenure.intakes = left + 1 →
      Step tenure { tenure with intakes := left }
  | removes {tenure : Tenure} : tenure.managed = true → Step tenure tenure.remove
  | goes {tenure : Tenure} {later : Reception} : tenure.reception.Step later →
      tenure.Permits later → Step tenure { tenure with reception := later }

variable {tenure later : Tenure} {managed : Bool} {intakes : Nat} {before after : Reception}

theorem run_receives (run : ReflTransGen Step tenure later) :
    ReflTransGen Reception.Step tenure.reception later.reception := by
  induction run with
  | refl => exact .refl
  | tail _ step ih =>
    cases step with
    | opens | ends => exact ih
    | removes => exact ih.tail .closes
    | goes step => exact ih.tail step

/-- A step is permitted that is allowed while a stream of candidates is open for a torrent that is
managed. -/
theorem Step.of_allowed (allowed : Reception.Allowed managed before after)
    (opened : managed = true → 0 < intakes) :
    Step ⟨managed, intakes, before⟩ ⟨managed, intakes, after⟩ := by
  refine @Step.goes ⟨managed, intakes, before⟩ after allowed.step ⟨?_, allowed.answered⟩
  intro address source grown
  have is := allowed.called grown
  split
  · exact opened is
  · exact is

/-- Steps that are allowed are a run of a tenure, in which a stream of candidates may be open in
between. -/
theorem run_of_allowed (run : ReflTransGen (Reception.Allowed managed) before after) :
    ReflTransGen Step ⟨managed, 0, before⟩ ⟨managed, 0, after⟩ := by
  cases managed with
  | false => exact run.lift (Tenure.mk false 0) fun _ _ allowed => .of_allowed allowed nofun
  | true =>
    have opens : Step ⟨true, 0, before⟩ ⟨true, 1, before⟩ := .opens rfl
    have ends : Step ⟨true, 1, after⟩ ⟨true, 0, after⟩ := .ends rfl
    have between : ReflTransGen Step ⟨true, 1, before⟩ ⟨true, 1, after⟩ :=
      run.lift (Tenure.mk true 1) fun _ _ allowed => .of_allowed allowed fun _ => Nat.one_pos
    exact .head opens (between.tail ends)

end Tenure

end BitTorrent
