import BitTorrent.Rate.Bucket
import Mathlib.Algebra.BigOperators.Intervals
import Mathlib.Algebra.Order.BigOperators.Group.Finset
import Mathlib.Algebra.Order.Field.Basic
import Mathlib.Algebra.Order.Field.Rat
import Mathlib.Data.Finset.Lattice.Fold
import Mathlib.Order.Interval.Finset.Nat
import Mathlib.Tactic.FieldSimp
import Mathlib.Tactic.Linarith
import Mathlib.Tactic.Ring

/-!
How a bucket paces those who take from it, in exact numbers: over no window of time may more bytes
pass than the rate allows and one burst, and nobody waits longer than that needs.
-/

set_option autoImplicit false

namespace BitTorrent

/-- Bytes that are asked of a bucket at some moment. -/
structure Reservation where
  moment : Nat
  bytes : Nat
  deriving DecidableEq, Repr

namespace Bucket

section Runs

variable {α : Type} [Quantity α]

/-- The bucket after the first `count` reservations. -/
def after (bucket : Bucket α) (calls : Nat → Reservation) : Nat → Bucket α
  | 0 => bucket
  | count + 1 =>
    ((bucket.after calls count).reserve (calls count).moment (calls count).bytes).1

/-- The seconds that the reservation `call` is told to wait. -/
def waitOf (bucket : Bucket α) (calls : Nat → Reservation) (call : Nat) : α :=
  ((bucket.after calls call).reserve (calls call).moment (calls call).bytes).2

end Runs

/-! ### One reservation -/

theorem tokens_refill (bucket : Bucket Rat) (now : Nat) :
    (bucket.refill now).tokens =
      min (bucket.tokens + ((now - bucket.updated : Nat) : Rat) / 1000000000 * bucket.rate)
        bucket.capacity :=
  (min_def _ _).symm

theorem debt_eq (left : Rat) :
    (if Quantity.isNegative left then Quantity.sub (Quantity.ofNat 0) left
      else Quantity.ofNat 0) = max 0 (-left) := by
  change (if decide (left < 0) = true then ((0 : Nat) : Rat) - left else ((0 : Nat) : Rat)) = _
  rcases lt_or_ge left 0 with owed | paid
  · rw [if_pos (decide_eq_true owed), Nat.cast_zero, zero_sub,
      max_eq_right (neg_nonneg.mpr owed.le)]
  · rw [if_neg (by simpa using paid), Nat.cast_zero, max_eq_left (neg_nonpos.mpr paid)]

theorem reserve_eq {bucket : Bucket Rat} (limited : bucket.rate ≠ 0) (now bytes : Nat) :
    bucket.reserve now bytes =
      ({ bucket with tokens := (bucket.refill now).tokens - bytes, updated := now },
        max 0 (-((bucket.refill now).tokens - bytes)) / bucket.rate) := by
  rw [reserve, if_neg limited]
  simp only [debt_eq]
  rfl

/-! ### The tokens after several reservations -/

/-- The bytes that are asked for from one reservation to another. -/
def demand (calls : Nat → Reservation) (first last : Nat) : Nat :=
  ∑ call ∈ Finset.Icc first last, (calls call).bytes

/-- The seconds from one reservation to another. -/
def elapsed (calls : Nat → Reservation) (first last : Nat) : Rat :=
  (((calls last).moment : Rat) - (calls first).moment) / 1000000000

/-- What is left of one burst and the tokens of a window once its bytes are taken; less than nothing
if they were not enough. -/
def slack (rate : Nat) (calls : Nat → Reservation) (first last : Nat) : Rat :=
  rate + elapsed calls first last * rate - demand calls first last

section Reservations

variable {rate : Nat} {calls : Nat → Reservation}

theorem slack_self (call : Nat) : slack rate calls call call = rate - (calls call).bytes := by
  simp only [slack, elapsed, demand, sub_self, zero_div, zero_mul, add_zero, Finset.Icc_self,
    Finset.sum_singleton]

/-- A window that goes on to the next reservation earns until then, and pays for its bytes. -/
theorem slack_succ {first last : Nat} (inside : first ≤ last) :
    slack rate calls first (last + 1) =
      slack rate calls first last + elapsed calls last (last + 1) * rate -
        (calls (last + 1)).bytes := by
  have more : demand calls first (last + 1) = demand calls first last + (calls (last + 1)).bytes :=
    Finset.sum_Icc_succ_top (Nat.le_succ_of_le inside) _
  rw [slack, slack, more, elapsed, elapsed, elapsed, Nat.cast_add]
  ring

variable {bucket : Bucket Rat}

theorem rate_after (limited : bucket.rate ≠ 0) (count : Nat) :
    (bucket.after calls count).rate = bucket.rate := by
  induction count with
  | zero => rfl
  | succ count ih => rw [after, reserve_eq (ih.trans_ne limited), ih]

theorem capacity_after (limited : bucket.rate ≠ 0) (count : Nat) :
    (bucket.after calls count).capacity = bucket.capacity := by
  induction count with
  | zero => rfl
  | succ count ih =>
    rw [after, reserve_eq ((rate_after limited count).trans_ne limited), ih]

theorem tokens_after (limited : bucket.rate ≠ 0) (count : Nat) :
    (bucket.after calls (count + 1)).tokens =
      ((bucket.after calls count).refill (calls count).moment).tokens - (calls count).bytes := by
  rw [after, reserve_eq ((rate_after limited count).trans_ne limited)]

theorem updated_after (limited : bucket.rate ≠ 0) (count : Nat) :
    (bucket.after calls (count + 1)).updated = (calls count).moment := by
  rw [after, reserve_eq ((rate_after limited count).trans_ne limited)]

/-- A wait pays for the tokens that are owed. -/
theorem waitOf_eq (limited : bucket.rate ≠ 0) (call : Nat) :
    bucket.waitOf calls call =
      max 0 (-(bucket.after calls (call + 1)).tokens / bucket.rate) := by
  rw [waitOf, reserve_eq ((rate_after limited call).trans_ne limited), rate_after limited,
    ← tokens_after limited, ← max_div_div_right (Nat.cast_nonneg _), zero_div]

/-- The bucket is full to begin with, whenever the first reservation comes. -/
theorem tokens_after_one (positive : 0 < rate) (start : Nat) :
    ((new rate start).after calls 1).tokens = slack rate calls 0 0 := by
  have earned : (0 : Rat) ≤ (((calls 0).moment - start : Nat) : Rat) / 1000000000 * rate :=
    mul_nonneg (div_nonneg (Nat.cast_nonneg _) (by norm_num)) (Nat.cast_nonneg _)
  have limited : (new rate start : Bucket Rat).rate ≠ 0 := positive.ne'
  rw [tokens_after limited, after, tokens_refill, slack_self]
  exact congrArg (· - _) (min_eq_right (le_add_of_nonneg_right earned))

theorem tokens_after_next (positive : 0 < rate) (ordered : Monotone fun call => (calls call).moment)
    (start count : Nat) :
    ((new rate start).after calls (count + 2)).tokens =
      min (((new rate start).after calls (count + 1)).tokens +
        elapsed calls count (count + 1) * rate) rate - (calls (count + 1)).bytes := by
  have limited : (new rate start : Bucket Rat).rate ≠ 0 := positive.ne'
  have later : (calls count).moment ≤ (calls (count + 1)).moment := ordered (Nat.le_succ count)
  rw [tokens_after limited, tokens_refill, updated_after limited, rate_after limited,
    capacity_after limited, Nat.cast_sub later]
  rfl

/-- What is left in the bucket is the slack of the tightest window that ends here. The tightest one
begins where the bucket was full for the last time. -/
theorem tokens_tightest (positive : 0 < rate) (ordered : Monotone fun call => (calls call).moment)
    (start last : Nat) :
    (∀ first ≤ last,
        ((new rate start).after calls (last + 1)).tokens ≤ slack rate calls first last) ∧
      ∃ first ≤ last,
        ((new rate start).after calls (last + 1)).tokens = slack rate calls first last := by
  induction last with
  | zero =>
    have begun := @tokens_after_one rate calls positive start
    refine ⟨fun first none => ?_, 0, le_rfl, begun⟩
    rw [Nat.le_zero.mp none, begun]
  | succ last ih =>
    obtain ⟨least, full, before, same⟩ := ih
    rw [tokens_after_next positive ordered]
    refine ⟨fun first inside => ?_, ?_⟩
    · rcases Nat.le_or_eq_of_le_succ inside with old | rfl
      · rw [slack_succ old]
        gcongr
        exact (min_le_left _ _).trans (by gcongr; exact least first old)
      · rw [slack_self]
        gcongr
        exact min_le_right _ _
    · -- Either the bucket has run over just now, or the window that was the tightest still is.
      rcases le_total (((new rate start).after calls (last + 1)).tokens +
        elapsed calls last (last + 1) * rate) rate with below | above
      · exact ⟨full, Nat.le_succ_of_le before, by rw [min_eq_left below, slack_succ before, same]⟩
      · exact ⟨last + 1, le_rfl, by rw [min_eq_right above, slack_self]⟩

end Reservations

/-! ### The waits -/

/-- The seconds by which the bytes of a window are ahead of the rate and one burst. -/
def excess (rate : Nat) (calls : Nat → Reservation) (first last : Nat) : Rat :=
  (demand calls first last : Rat) / rate - 1 - elapsed calls first last

/-- The second at which the bytes of a reservation may pass. -/
def release (bucket : Bucket Rat) (calls : Nat → Reservation) (call : Nat) : Rat :=
  ((calls call).moment : Rat) / 1000000000 + bucket.waitOf calls call

section Waits

variable {rate : Nat} {calls : Nat → Reservation}

theorem excess_eq (positive : 0 < rate) (first last : Nat) :
    excess rate calls first last = -slack rate calls first last / rate := by
  have nonzero : (rate : Rat) ≠ 0 := by exact_mod_cast positive.ne'
  rw [excess, slack]
  field_simp
  ring

/-- A window is ahead of the rate by no more than some time exactly if its bytes fit into the window
and that time, with one burst. -/
theorem excess_le (positive : 0 < rate) {first last : Nat} {wait : Rat} :
    excess rate calls first last ≤ wait ↔
      (demand calls first last : Rat) ≤ rate * (elapsed calls first last + wait) + rate := by
  have above : (0 : Rat) < rate := by exact_mod_cast positive
  rw [excess, sub_le_iff_le_add, sub_le_iff_le_add, div_le_iff₀ above,
    show (wait + elapsed calls first last + 1) * rate =
      rate * (elapsed calls first last + wait) + rate by ring]

/-- While a window goes on it falls behind by no more than the time that passes. -/
theorem excess_sub_le (first : Nat) {call last : Nat} (later : call ≤ last) :
    excess rate calls first call - elapsed calls call last ≤ excess rate calls first last := by
  have more : (demand calls first call : Rat) ≤ demand calls first last := by
    exact_mod_cast Finset.sum_le_sum_of_subset (Finset.Icc_subset_Icc_right later)
  have share : (demand calls first call : Rat) / rate ≤ demand calls first last / rate :=
    div_le_div_of_nonneg_right more (Nat.cast_nonneg _)
  have apart : elapsed calls first call + elapsed calls call last = elapsed calls first last := by
    rw [elapsed, elapsed, elapsed]
    ring
  rw [excess, excess]
  linarith

/-- The wait is the excess of the window that is furthest ahead. -/
theorem waitOf_new (positive : 0 < rate) (ordered : Monotone fun call => (calls call).moment)
    (start last : Nat) :
    (new rate start).waitOf calls last =
      max 0 ((Finset.range (last + 1)).sup' Finset.nonempty_range_add_one
        (excess rate calls · last)) := by
  obtain ⟨least, full, inside, same⟩ := tokens_tightest positive ordered start last
  have limited : (new rate start : Bucket Rat).rate ≠ 0 := positive.ne'
  have above : (0 : Rat) ≤ rate := Nat.cast_nonneg _
  have furthest : (Finset.range (last + 1)).sup' Finset.nonempty_range_add_one
      (excess rate calls · last) =
        -((new rate start).after calls (last + 1)).tokens / rate := by
    apply le_antisymm
    · refine Finset.sup'_le _ _ fun first member => ?_
      rw [excess_eq positive]
      exact div_le_div_of_nonneg_right
        (neg_le_neg (least first (Finset.mem_range_succ_iff.mp member))) above
    · rw [same, ← excess_eq positive]
      exact Finset.le_sup' (excess rate calls · last) (Finset.mem_range_succ_iff.mpr inside)
  rw [waitOf_eq limited, furthest]
  rfl

/-- The wait is the least that keeps every window that ends here within the rate and one burst. -/
theorem waitOf_le (positive : 0 < rate) (ordered : Monotone fun call => (calls call).moment)
    {start last : Nat} {wait : Rat} :
    (new rate start).waitOf calls last ≤ wait ↔
      0 ≤ wait ∧ ∀ first ≤ last, (demand calls first last : Rat) ≤
        rate * (elapsed calls first last + wait) + rate := by
  simp only [waitOf_new positive ordered, max_le_iff, Finset.sup'_le_iff, Finset.mem_range_succ_iff,
    excess_le positive]

theorem elapsed_nonneg (ordered : Monotone fun call => (calls call).moment) {call last : Nat}
    (later : call ≤ last) : 0 ≤ elapsed calls call last :=
  div_nonneg (sub_nonneg.mpr (by exact_mod_cast ordered later)) (by norm_num)

/-- Who came first may pass first. -/
theorem release_le (positive : 0 < rate) (ordered : Monotone fun call => (calls call).moment)
    {start call last : Nat} (later : call ≤ last) :
    (new rate start).release calls call ≤ (new rate start).release calls last := by
  obtain ⟨some, bound⟩ := (@waitOf_le rate calls positive ordered start last _).mp le_rfl
  have sooner : (new rate start).waitOf calls call ≤
      elapsed calls call last + (new rate start).waitOf calls last := by
    refine (waitOf_le positive ordered).mpr
      ⟨add_nonneg (elapsed_nonneg ordered later) some, fun first inside => ?_⟩
    have ahead := (excess_le positive).mpr (bound first (inside.trans later))
    exact (excess_le positive).mp
      (sub_le_iff_le_add'.mp ((excess_sub_le first later).trans ahead))
  have split : ((calls call).moment : Rat) / 1000000000 + elapsed calls call last =
      (calls last).moment / 1000000000 := by
    rw [elapsed]
    ring
  rw [release, release, ← split, add_assoc]
  gcongr

/-- How a bucket that was made full paces any sequence of reservations: each waits for as long as
the window that ends with it and is furthest ahead is ahead of the rate and one burst. So in no
window do more bytes pass than the rate allows and one burst, nobody is released before those who
came first, and no shorter wait would do. -/
theorem waits_exact (positive : 0 < rate) (ordered : Monotone fun call => (calls call).moment)
    (start last : Nat) :
    (new rate start).waitOf calls last =
        max 0 ((Finset.range (last + 1)).sup' Finset.nonempty_range_add_one
          fun first => (demand calls first last : Rat) / rate - 1 - elapsed calls first last) ∧
      (∀ first ≤ last, (demand calls first last : Rat) ≤
        rate * (elapsed calls first last + (new rate start).waitOf calls last) + rate) ∧
      (∀ call ≤ last, (new rate start).release calls call ≤ (new rate start).release calls last) ∧
      ∀ wait : Rat, 0 ≤ wait →
        (∀ first ≤ last, (demand calls first last : Rat) ≤
          rate * (elapsed calls first last + wait) + rate) →
        (new rate start).waitOf calls last ≤ wait :=
  ⟨waitOf_new positive ordered start last, ((waitOf_le positive ordered).mp le_rfl).2,
    fun _ later => release_le positive ordered later,
    fun _ some bound => (waitOf_le positive ordered).mpr ⟨some, bound⟩⟩

end Waits

/-- A reservation far above the burst, one that finds the bucket full again after five seconds, and
one a quarter of a second behind it. -/
def tide : Nat → Reservation
  | 0 => ⟨0, 3000⟩
  | 1 => ⟨5000000000, 1000⟩
  | _ => ⟨5250000000, 500⟩

theorem waits_exact_tide :
    (Monotone fun call => (tide call).moment) ∧ (new 1000 0).waitOf tide 2 = (1 / 4 : Rat) ∧
      (∀ first ≤ 2, (demand tide first 2 : Rat) ≤ 1000 * (elapsed tide first 2 + 1 / 4) + 1000) ∧
      ∀ call ≤ 2, (new 1000 0).release tide call ≤ (new 1000 0).release tide 2 := by
  have ordered : Monotone fun call => (tide call).moment :=
    monotone_nat_of_le_succ fun
      | 0 | 1 => by decide
      | _ + 2 => le_rfl
  have quarter : (new 1000 0).waitOf tide 2 = (1 / 4 : Rat) := by decide +kernel
  obtain ⟨-, window, releases, -⟩ := @waits_exact 1000 tide (by decide) ordered 0 2
  rw [quarter] at window
  exact ⟨ordered, quarter, window, releases⟩

end Bucket

end BitTorrent
