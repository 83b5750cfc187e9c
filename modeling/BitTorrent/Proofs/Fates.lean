import BitTorrent.Proofs.Pursuit

/-!
What becomes of the requests of a peer that were accepted. A request is decided by the first thing
that happens behind it and concerns it: it is answered, or withdrawn by the peer or by our choking
the peer.
-/

set_option autoImplicit false

namespace BitTorrent

/-- What happens on a connection and decides about requests of the peer. -/
inductive Note where
  | accepted (request : BlockRequest)
  | cancelled (request : BlockRequest)
  | choked
  | served
  deriving DecidableEq, Repr

/-- What became of a request that was accepted. -/
inductive Fate where
  | pending
  | answered
  | withdrawn
  deriving DecidableEq, Repr

variable {request : BlockRequest} {note : Note} {notes later : List Note}

/-- The fate of a request by what happened behind it. -/
def Fate.of (request : BlockRequest) : List Note → Fate
  | [] => .pending
  | .served :: _ => .answered
  | .choked :: _ => .withdrawn
  | .cancelled other :: rest => if other = request then .withdrawn else of request rest
  | .accepted _ :: rest => of request rest

namespace Note

/-- The accepted requests that have a given fate, in the order in which they were accepted. -/
def fated (fate : Fate) : List Note → List BlockRequest
  | [] => []
  | .accepted request :: rest =>
    if Fate.of request rest = fate then request :: fated fate rest else fated fate rest
  | _ :: rest => fated fate rest

end Note

/-- Once a request is decided, it stays so. -/
theorem Fate.of_append :
    Fate.of request (notes ++ later) =
      if Fate.of request notes = .pending then Fate.of request later
      else Fate.of request notes := by
  induction notes with
  | nil => rfl
  | cons note rest ih =>
    cases note with
    | accepted other => exact ih
    | cancelled other =>
      by_cases same : other = request
      · simp only [List.cons_append, Fate.of, same, ↓reduceIte, reduceCtorEq]
      · simp only [List.cons_append, Fate.of, same, ↓reduceIte, ih]
    | choked | served => rfl

theorem Fate.not_served (pending : Fate.of request notes = .pending) : Note.served ∉ notes := by
  induction notes with
  | nil => exact List.not_mem_nil
  | cons note rest ih =>
    cases note with
    | accepted other => exact fun member => ih pending (by simpa using member)
    | cancelled other =>
      by_cases same : other = request
      · simp only [Fate.of, same, ↓reduceIte, reduceCtorEq] at pending
      · simp only [Fate.of, same, ↓reduceIte] at pending
        exact fun member => ih pending (by simpa using member)
    | choked | served => cases pending

theorem Fate.answered_served (answered : Fate.of request notes = .answered) :
    Note.served ∈ notes := by
  induction notes with
  | nil => cases answered
  | cons note rest ih =>
    cases note with
    | accepted other => exact List.mem_cons_of_mem _ (ih answered)
    | cancelled other =>
      by_cases same : other = request
      · simp only [Fate.of, same, ↓reduceIte, reduceCtorEq] at answered
      · simp only [Fate.of, same, ↓reduceIte] at answered
        exact List.mem_cons_of_mem _ (ih answered)
    | choked => cases answered
    | served => exact List.mem_cons_self

namespace Note

theorem fated_answered_nil (unserved : served ∉ notes) : fated .answered notes = [] := by
  induction notes with
  | nil => rfl
  | cons note rest ih =>
    have others := ih fun member => unserved (List.mem_cons_of_mem _ member)
    cases note with
    | accepted request =>
      have undecided : Fate.of request rest ≠ .answered := fun answered =>
        unserved (List.mem_cons_of_mem _ (Fate.answered_served answered))
      rw [fated, if_neg undecided, others]
    | cancelled | choked | served => exact others

/-- To serve the peer answers what is pending, and that comes behind all that was answered. -/
theorem answered_served : fated .answered (notes ++ [served]) =
    fated .answered notes ++ fated .pending notes := by
  induction notes with
  | nil => rfl
  | cons note rest ih =>
    cases note with
    | accepted request =>
      simp only [List.cons_append, fated, Fate.of_append]
      cases fate : Fate.of request rest with
      | pending =>
        have none := fated_answered_nil (Fate.not_served fate)
        rw [none, List.nil_append] at ih
        simp only [reduceCtorEq, ↓reduceIte, Fate.of, ih, none, List.nil_append]
      | answered => simp only [reduceCtorEq, ↓reduceIte, ih, List.cons_append]
      | withdrawn => simp only [reduceCtorEq, ↓reduceIte, ih]
    | cancelled | choked | served => exact ih

/-- The cancel of another request does not keep the pending one from being answered. -/
example : fated .answered [accepted ⟨0, 0, 4⟩, cancelled ⟨0, 4, 4⟩, served] = [⟨0, 0, 4⟩] := by
  decide

/-- Nothing but serving the peer answers a request. -/
theorem answered_append (unserved : note ≠ served) :
    fated .answered (notes ++ [note]) = fated .answered notes := by
  have undecided : ∀ request, Fate.of request [note] ≠ .answered := fun request answered =>
    unserved (List.mem_singleton.mp (Fate.answered_served answered)).symm
  induction notes with
  | nil => exact fated_answered_nil fun member => unserved (List.mem_singleton.mp member).symm
  | cons first rest ih =>
    cases first with
    | accepted request =>
      simp only [List.cons_append, fated, Fate.of_append, ih]
      cases fate : Fate.of request rest with
      | pending => simp only [reduceCtorEq, ↓reduceIte, undecided request]
      | answered | withdrawn => simp only [reduceCtorEq, ↓reduceIte]
    | cancelled | choked | served => exact ih

/-- A note leaves those pending that it does not decide; what it accepts comes behind them. -/
theorem pending_append : fated .pending (notes ++ [note]) =
    (fated .pending notes).filter (Fate.of · [note] = .pending) ++ fated .pending [note] := by
  induction notes with
  | nil => rfl
  | cons first rest ih =>
    cases first with
    | accepted request =>
      simp only [List.cons_append, fated, Fate.of_append, ih]
      cases fate : Fate.of request rest with
      | pending =>
        simp only [↓reduceIte, List.filter_cons, decide_eq_true_eq]
        split <;> rfl
      | answered | withdrawn => simp only [reduceCtorEq, ↓reduceIte]
    | cancelled | choked | served => exact ih

/-- Behind a choke nothing is pending, nor when the peer has just been served. -/
theorem pending_closed (closes : note = choked ∨ note = served) :
    fated .pending (notes ++ [note]) = [] := by
  rw [pending_append, List.append_eq_nil_iff, List.filter_eq_nil_iff]
  rcases closes with rfl | rfl <;> simp [Fate.of, fated]

/-- Of a single pending request, another one that is cancelled leaves it pending. -/
theorem pending_cancelled {upload : Option BlockRequest}
    (pending : fated .pending notes = upload.toList) :
    fated .pending (notes ++ [cancelled request]) =
      (if upload = some request then none else upload).toList := by
  rw [pending_append, pending]
  cases upload with
  | none => rfl
  | some other =>
    by_cases same : request = other
    · simp [Fate.of, fated, same]
    · simp [Fate.of, fated, same, Ne.symm same]

end Note

end BitTorrent
