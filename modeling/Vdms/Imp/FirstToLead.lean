import Mathlib.Data.Nat.Notation
import Mathlib.Data.List.Count

/-!
# The First to Lead

A running maximum over counters, with a strict comparison, ends with the element that is the
first to occur as often as any does in the end.

## Main results

* `Leads.concat_of_lt`, `Leads.concat_of_le`: what one more element changes.
* `Leads.unique`: there is one such element.
-/

namespace Imp

variable {α : Type} [DecidableEq α] {xs : List α} {a b c : α} {m n : ℕ}

/-- `a` is the first to occur `m` times in `xs`, and nothing occurs more often. -/
structure Leads (xs : List α) (a : α) (m : ℕ) : Prop where
  first : ∃ pre suf, xs = pre ++ suf ∧ pre.count a = m ∧ ∀ b ≠ a, pre.count b < m
  most : ∀ b, xs.count b ≤ m
  pos : 0 < m

namespace Leads

theorem count_eq (h : Leads xs a m) : xs.count a = m := by
  obtain ⟨pre, suf, rfl, hcount, -⟩ := h.first
  have hle := h.most a
  rw [List.count_append] at hle ⊢
  omega

theorem ne_nil (h : Leads xs a m) : xs ≠ [] := by
  rintro rfl
  have hcount := h.count_eq
  have hpos := h.pos
  rw [List.count_nil] at hcount
  omega

/-- An element overtakes the leader. -/
theorem concat_of_lt (hmost : ∀ b, xs.count b ≤ m) (hlt : m < xs.count c + 1) :
    Leads (xs ++ [c]) c (xs.count c + 1) where
  first := by
    refine ⟨xs ++ [c], [], by simp, by simp, fun b hb => ?_⟩
    have := hmost b
    rw [List.count_append, List.count_cons_of_ne hb.symm, List.count_nil]
    omega
  most b := by
    have := hmost b
    rw [List.count_append, List.count_singleton]
    split
    next h => exact Nat.le_of_eq (congrArg (xs.count · + 1) (eq_of_beq h).symm)
    next h => omega
  pos := Nat.succ_pos _

/-- An element does not. -/
theorem concat_of_le (h : Leads xs a m) (hle : xs.count c + 1 ≤ m) : Leads (xs ++ [c]) a m where
  first := by
    obtain ⟨pre, suf, rfl, hcount, hlt⟩ := h.first
    exact ⟨pre, suf ++ [c], List.append_assoc .., hcount, hlt⟩
  most b := by
    have := h.most b
    rw [List.count_append, List.count_singleton]
    split
    next heq =>
      rw [← eq_of_beq heq]
      exact hle
    next => omega
  pos := h.pos

theorem unique (h : Leads xs a m) (h' : Leads xs b n) : a = b := by
  have hmn : m = n := by
    have hm := h'.most a
    have hn := h.most b
    rw [h.count_eq] at hm
    rw [h'.count_eq] at hn
    omega
  subst hmn
  obtain ⟨pre, suf, heq, hcount, hlt⟩ := h.first
  obtain ⟨pre', suf', heq', hcount', hlt'⟩ := h'.first
  by_contra hne
  -- Of the two prefixes the shorter is part of the longer.
  rcases List.append_eq_append_iff.1 (heq.symm.trans heq') with ⟨l, rfl, -⟩ | ⟨l, rfl, -⟩
  · have hlong := hlt' a hne
    rw [List.count_append, hcount] at hlong
    omega
  · have hlong := hlt b (Ne.symm hne)
    rw [List.count_append, hcount'] at hlong
    omega

end Leads

end Imp
