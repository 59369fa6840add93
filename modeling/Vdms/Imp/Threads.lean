import Mathlib.Algebra.BigOperators.Group.List.Basic
import Mathlib.Algebra.GroupWithZero.Nat
import Mathlib.Data.List.Flatten
import Mathlib.Data.List.Perm.Basic
import Vdms.Imp.Socket

/-!
# Pools of Threads

The threads of a pool run the same function. A state of the pool is the list of the places
where its threads are, and `Moves a b` is the step of one thread from the place `a` to the
place `b`. What is counted, added up or collected over the pool changes by what it is at the
two places.

## Main results

* `Moves.countP`, `Moves.sum_map`, `Moves.flatMap`: what one step changes.
* `Pipe.Inevitable.of_wellFounded`, `Pipe.Inevitable.of_measure`: a system whose steps go
  down in an order, and that can go on as long as it has not reached its goal, reaches it.
-/

namespace Imp

open scoped List

variable {α β : Type}

/-- One thread of the pool moves from the place `a` to the place `b`. -/
inductive Moves (a b : α) : List α → List α → Prop
  | intro (before after : List α) : Moves a b (before ++ a :: after) (before ++ b :: after)

namespace Moves

variable {a b : α} {l l' : List α}

theorem exists_of_mem (b : α) (h : a ∈ l) : ∃ l', Moves a b l l' := by
  obtain ⟨before, after, rfl⟩ := List.append_of_mem h
  exact ⟨_, .intro before after⟩

theorem mem (h : Moves a b l l') : a ∈ l := by
  cases h
  simp

theorem length (h : Moves a b l l') : l'.length = l.length := by
  cases h
  simp

/-- A thread is where it was, or it is the one that moved. -/
theorem mem_or {c : α} (h : Moves a b l l') (hc : c ∈ l') : c ∈ l ∨ c = b := by
  cases h
  simp only [List.mem_append, List.mem_cons] at hc ⊢
  tauto

/-- A thread stays where it is, or it is the one that moves. -/
theorem mem_of_mem {c : α} (h : Moves a b l l') (hc : c ∈ l) (hne : c ≠ a) : c ∈ l' := by
  cases h
  simp only [List.mem_append, List.mem_cons] at hc ⊢
  tauto

theorem countP (h : Moves a b l l') (p : α → Bool) :
    l'.countP p + (p a).toNat = l.countP p + (p b).toNat := by
  cases h
  simp only [List.countP_append, List.countP_cons]
  cases p a <;> cases p b <;> simp <;> omega

theorem sum_map (h : Moves a b l l') (f : α → ℕ) :
    (l'.map f).sum + f a = (l.map f).sum + f b := by
  cases h
  simp only [List.map_append, List.map_cons, List.sum_append, List.sum_cons]
  omega

/-- What the threads have at hand, taken together. -/
theorem flatMap (h : Moves a b l l') (f : α → List β) :
    f a ++ l'.flatMap f ~ f b ++ l.flatMap f := by
  obtain ⟨before, after⟩ := h
  simp only [List.flatMap_append, List.flatMap_cons]
  calc f a ++ (before.flatMap f ++ (f b ++ after.flatMap f))
    _ ~ f a ++ (f b ++ (before.flatMap f ++ after.flatMap f)) :=
        (List.perm_append_comm_assoc ..).append_left _
    _ ~ f b ++ (f a ++ (before.flatMap f ++ after.flatMap f)) := List.perm_append_comm_assoc ..
    _ ~ f b ++ (before.flatMap f ++ (f a ++ after.flatMap f)) :=
        (List.perm_append_comm_assoc ..).append_left _

end Moves

section Progress

variable {σ : Type} {R : σ → σ → Prop} {P : σ → Prop}

theorem Pipe.Inevitable.mono {P' : σ → Prop} {s : σ} (h : Inevitable R P s)
    (hP : ∀ t, P t → P' t) : Inevitable R P' s := by
  induction h with
  | now hs => exact .now (hP _ hs)
  | later hex _ ih => exact .later hex ih

/-- If steps keep an invariant and go down in a well-founded order, and a state that does not
meet the goal has a step, then the goal is reached. -/
theorem Pipe.Inevitable.of_wellFounded {τ : Type} {r : τ → τ → Prop} (hr : WellFounded r)
    (I : σ → Prop) (rank : σ → τ) (hstep : ∀ s t, I s → R s t → I t)
    (hless : ∀ s t, I s → R s t → r (rank t) (rank s))
    (hgo : ∀ s, I s → P s ∨ ∃ t, R s t) {s : σ} (h : I s) : Inevitable R P s := by
  induction hn : rank s using hr.induction generalizing s with
  | _ n ih =>
      rcases hgo s h with hP | hex
      · exact .now hP
      · refine .later hex fun t hR => ?_
        exact ih _ (hn ▸ hless s t h hR) (hstep s t h hR) rfl

/-- The same with a number that becomes smaller. -/
theorem Pipe.Inevitable.of_measure (I : σ → Prop) (measure : σ → ℕ)
    (hstep : ∀ s t, I s → R s t → I t) (hless : ∀ s t, I s → R s t → measure t < measure s)
    (hgo : ∀ s, I s → P s ∨ ∃ t, R s t) {s : σ} (h : I s) : Inevitable R P s :=
  .of_wellFounded Nat.lt_wfRel.wf I measure hstep hless hgo h

end Progress

end Imp
