import Mathlib.Data.List.Basic
import Mathlib.Data.Nat.Notation

/-!
# Resources That Are Taken and Given Back

A run is a list of events, and of a kind of resource each event takes one, gives one back, or
does neither. The resources that are held are followed along the run: taking one that is held
and giving one back that is not are refused. A run is `Balanced` if nothing is refused and
nothing is held at its end, so that each resource is given back exactly once after it was
taken.

## Main results

* `Bracket.run_append`, `Balanced.append`: runs one after the other.
* `Balanced.count_eq`: as often as a resource is taken it is given back.
* `not_balanced_of_kept`: a resource that is taken and not given back.
-/

namespace Imp

/-- What an event does with the resources of a kind. -/
inductive Bracket (ρ : Type) where
  | takes (r : ρ)
  | gives (r : ρ)
  | neither
deriving DecidableEq

namespace Bracket

variable {ε ρ : Type} [DecidableEq ρ] {kind : ε → Bracket ρ} {held held' : List ρ}
  {es es' : List ε} {r : ρ}

/-- The resources held after an event. -/
def step (kind : ε → Bracket ρ) (held : List ρ) (e : ε) : Option (List ρ) :=
  match kind e with
  | .takes r => if r ∈ held then none else some (r :: held)
  | .gives r => if r ∈ held then some (held.erase r) else none
  | .neither => some held

/-- The resources held after a run. -/
def run (kind : ε → Bracket ρ) : List ρ → List ε → Option (List ρ)
  | held, [] => some held
  | held, e :: es => (step kind held e).bind fun held' => run kind held' es

/-- Each resource that the run takes it gives back exactly once, and no other. -/
def Balanced (kind : ε → Bracket ρ) (es : List ε) : Prop := run kind [] es = some []

instance : Decidable (Balanced kind es) := inferInstanceAs (Decidable (run kind [] es = some []))

theorem run_append : run kind held (es ++ es') =
    (run kind held es).bind fun held' => run kind held' es' := by
  induction es generalizing held with
  | nil => rfl
  | cons e es ih =>
      rw [List.cons_append, run, run, Option.bind_assoc]
      congr 1
      funext held'
      exact ih

theorem Balanced.append (h : Balanced kind es) (h' : Balanced kind es') :
    Balanced kind (es ++ es') := by
  rw [Balanced, run_append, h]
  exact h'

/-- Events that do nothing with the resources. -/
theorem run_neither (h : ∀ e ∈ es, kind e = .neither) : run kind held es = some held := by
  induction es with
  | nil => rfl
  | cons e es ih =>
      have he : step kind held e = some held := by
        rw [step, h e List.mem_cons_self]
      rw [run, he]
      exact ih fun e he => h e (List.mem_cons_of_mem _ he)

theorem step_count {e : ε} (h : step kind held e = some held') :
    held'.count r + [e].countP (fun e => kind e = .gives r) =
      held.count r + [e].countP (fun e => kind e = .takes r) := by
  rw [step] at h
  cases hk : kind e with
  | takes q =>
      rw [hk] at h
      by_cases hq : q ∈ held
      · simp [hq] at h
      · obtain rfl : q :: held = held' := by simpa [hq] using h
        by_cases hqr : q = r <;> simp [hk, hqr]
  | gives q =>
      rw [hk] at h
      by_cases hq : q ∈ held
      · obtain rfl : held.erase q = held' := by simpa [hq] using h
        by_cases hqr : q = r
        · subst hqr
          have := List.count_pos_iff.2 hq
          simp [hk]
          omega
        · simp [hk, hqr, List.count_erase_of_ne (Ne.symm hqr)]
      · simp [hq] at h
  | neither =>
      rw [hk] at h
      obtain rfl : held = held' := by simpa using h
      simp [hk]

theorem run_count (h : run kind held es = some held') :
    held'.count r + es.countP (fun e => kind e = .gives r) =
      held.count r + es.countP (fun e => kind e = .takes r) := by
  induction es generalizing held with
  | nil =>
      obtain rfl : held = held' := by simpa [run] using h
      rfl
  | cons e es ih =>
      rw [run, Option.bind_eq_some_iff] at h
      obtain ⟨held₁, he, h⟩ := h
      have h₁ := step_count (r := r) he
      have h₂ := ih h
      rw [← List.singleton_append, List.countP_append, List.countP_append]
      omega

theorem Balanced.count_eq (h : Balanced kind es) (r : ρ) :
    es.countP (fun e => kind e = .gives r) = es.countP (fun e => kind e = .takes r) := by
  simpa using run_count (r := r) h

/-- What is taken and never given back is still held. -/
theorem not_balanced_of_kept {e : ε} (he : e ∈ es) (htakes : kind e = .takes r)
    (h : ∀ e ∈ es, kind e ≠ .gives r) : ¬ Balanced kind es := by
  intro hb
  have hcount := hb.count_eq r
  have hgives : es.countP (fun e => kind e = .gives r) = 0 := by
    rw [List.countP_eq_zero]
    intro e he
    simpa using h e he
  have htaken : 0 < es.countP (fun e => kind e = .takes r) :=
    List.countP_pos_iff.2 ⟨e, he, by simpa using htakes⟩
  omega

end Bracket

end Imp
