import Mathlib.Algebra.Order.Ring.Int
import Mathlib.Data.Nat.Find
import Mathlib.Order.Bounds.Basic
import Mathlib.Tactic.Common
import Vdms.Imp.Prog

/-!
# Unique Ids

The name of a new file is a number that is put together from two random ones: the digits of the
first one, with room for the second one behind them. The power of ten that makes room is an `int`.

## Main results

* `combine_right_iff`: the numbers that are combined as they should be.
* `combine_overflows`: of the others none is.
-/

namespace Vdms

namespace VCL

open Imp Imp.Prog

/-- An `int` that leaves its range. What happens then is not defined. -/
inductive IntOverflow where
  | overflow

/-- The loop of `combine`. The multiplier is positive, so that it is compared as it is. -/
def growMultiplier (a : UInt64) : ℕ → Prog Unit IntOverflow (ℕ ⊕ ℕ) := fun multiplier =>
  if multiplier ≤ a.toNat then
    if multiplier * 10 < 2 ^ 31 then pure (.inl (multiplier * 10)) else throw .overflow
  else pure (.inr multiplier)

/-- `VCL::combine`. -/
def combine (a b : UInt64) : Prog Unit IntOverflow UInt64 := do
  let multiplier ← loop (growMultiplier a) 1
  pure (a * UInt64.ofNat multiplier + b)

/-- The result is the digits of `a` in front of `b`, for the least power of ten that is greater
than `a`. -/
def CombinesRight (a b : UInt64) : Prop :=
  ∃ r : UInt64, Runs (combine a b) () (.ret r ()) ∧
    ∃ d, IsLeast {d : ℕ | a.toNat < 10 ^ d} d ∧ r.toNat = (a.toNat * 10 ^ d + b.toNat) % 2 ^ 64

theorem pow_lt_of_le_nine {k : ℕ} (hk : k ≤ 9) : 10 ^ k < 2 ^ 31 :=
  lt_of_le_of_lt (Nat.pow_le_pow_right (by decide) hk) (by decide)

/-- A pass of the loop that goes on. -/
theorem growMultiplier_step {a : UInt64} {k : ℕ} (hk : k < 9) (ha : 10 ^ k ≤ a.toNat) :
    growMultiplier a (10 ^ k) = pure (.inl (10 ^ (k + 1))) := by
  have hlt : 10 ^ k * 10 < 2 ^ 31 := by
    rw [← pow_succ]
    exact pow_lt_of_le_nine hk
  rw [growMultiplier, if_pos ha, if_pos hlt, pow_succ]

/-- The loop stops at the first power of ten that is greater. The induction is on the passes that
are left. -/
theorem loop_least {a : UInt64} {d : ℕ} (hd : IsLeast {d : ℕ | a.toNat < 10 ^ d} d) (hle : d ≤ 9)
    (j : ℕ) (hj : j ≤ d) :
    Runs (loop (growMultiplier a) (10 ^ (d - j))) () (.ret (10 ^ d) ()) := by
  induction j with
  | zero =>
      have hgreater : ¬ 10 ^ d ≤ a.toNat := Nat.not_le.2 hd.1
      refine Runs.loop_stop (Runs.of_eq fun n => ?_)
      rw [Nat.sub_zero, growMultiplier, if_neg hgreater]
      rfl
  | succ j ih =>
      have hpow : 10 ^ (d - (j + 1)) ≤ a.toNat := by
        by_contra hlt
        have := hd.2 (Nat.not_le.1 hlt)
        omega
      have hnext : d - (j + 1) + 1 = d - j := by omega
      refine Runs.loop_step_ret (Runs.of_eq fun n => ?_) (ih (by omega))
      rw [growMultiplier_step (by omega) hpow, hnext]
      rfl

/-- From nine digits on there is no power of ten left. -/
theorem loop_overflows {a : UInt64} (ha : 10 ^ 9 ≤ a.toNat) (j : ℕ) (hj : j ≤ 9) :
    Runs (loop (growMultiplier a) (10 ^ (9 - j))) () (.throw .overflow ()) := by
  induction j with
  | zero =>
      refine Runs.loop_throw (Runs.of_eq fun n => ?_)
      rw [Nat.sub_zero, growMultiplier, if_pos ha, if_neg (by decide)]
      rfl
  | succ j ih =>
      have hpow : 10 ^ (9 - (j + 1)) ≤ a.toNat :=
        (Nat.pow_le_pow_right (by decide) (by omega)).trans ha
      have hnext : 9 - (j + 1) + 1 = 9 - j := by omega
      refine Runs.loop_step (Runs.of_eq fun n => ?_) (ih (by omega)) (by simp)
      rw [growMultiplier_step (by omega) hpow, hnext]
      rfl

/-- From nine digits on the multiplier leaves its range. -/
theorem combine_overflows {a : UInt64} (ha : 10 ^ 9 ≤ a.toNat) (b : UInt64) :
    Runs (combine a b) () (.throw .overflow ()) :=
  Runs.bind_throw (loop_overflows ha 9 le_rfl)

/-- **Combination** is right exactly if the first number has at most nine digits. -/
theorem combine_right_iff (a b : UInt64) : CombinesRight a b ↔ a.toNat < 10 ^ 9 := by
  constructor
  · rintro ⟨r, hrun, -⟩
    by_contra hle
    cases (combine_overflows (Nat.not_lt.1 hle) b).unique hrun
  · intro ha
    have hex : ∃ d, a.toNat < 10 ^ d := ⟨9, ha⟩
    have hleast : IsLeast {d : ℕ | a.toNat < 10 ^ d} (Nat.find hex) :=
      ⟨Nat.find_spec hex, fun d hd => Nat.find_min' hex hd⟩
    have hle : Nat.find hex ≤ 9 := Nat.find_min' hex ha
    have hloop := loop_least hleast hle (Nat.find hex) le_rfl
    rw [Nat.sub_self, pow_zero] at hloop
    refine ⟨_, Runs.bind hloop (Runs.of_eq fun _ => rfl), Nat.find hex, hleast, ?_⟩
    have hmultiplier : (UInt64.ofNat (10 ^ Nat.find hex)).toNat = 10 ^ Nat.find hex :=
      UInt64.toNat_ofNat_of_lt ((pow_lt_of_le_nine hle).trans (by decide))
    rw [UInt64.toNat_add, UInt64.toNat_mul, hmultiplier, Nat.mod_add_mod]

/-- `rand()` returns such a number. -/
theorem combine_random : ¬ CombinesRight 2000000000 0 := by
  rintro ⟨r, hrun, -⟩
  cases (combine_overflows (a := 2000000000) (by decide) 0).unique hrun

end VCL

end Vdms
