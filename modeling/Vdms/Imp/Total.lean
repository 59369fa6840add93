import Vdms.Imp.Prog

/-!
# Total Correctness

`Total m s Q R` says that the computation ends: it returns a value with a state that meets
`Q`, or throws an exception with a state that meets `R`. Other than `Sat` it excludes the runs
without an outcome.

## Main results

* `Total.bind`, `Total.tryCatch`, `Total.focus`: the rules for sequences, handlers and parts of
  the state.
* `Total.loop`: the rule for loops.
* `Total.returns`: a computation that throws nothing returns.
-/

namespace Imp

open Prog

variable {σ ε α β : Type} {m : Prog σ ε α} {s : σ} {Q Q' : α → σ → Prop} {R R' : ε → σ → Prop}

/-- From `s` the computation returns and meets `Q`, or throws and meets `R`. -/
inductive Total (m : Prog σ ε α) (s : σ) (Q : α → σ → Prop) (R : ε → σ → Prop) : Prop
  | ret {a : α} {t : σ} : Runs m s (.ret a t) → Q a t → Total m s Q R
  | throw {e : ε} {t : σ} : Runs m s (.throw e t) → R e t → Total m s Q R

/-- The handler of an exception that is thrown. -/
theorem Prog.Runs.tryCatch_throw {handler : ε → Prog σ ε α} {e : ε} {t : σ}
    {o : Outcome σ ε α} (h : Runs m s (.throw e t)) (hh : Runs (handler e) t o) :
    Runs (Prog.tryCatch m handler) s o := by
  obtain ⟨N, hN⟩ := h
  obtain ⟨N', hN'⟩ := hh
  refine ⟨max N N', fun n hn => ?_⟩
  simp only [Prog.tryCatch, hN n (le_trans (le_max_left _ _) hn)]
  exact hN' n (le_trans (le_max_right _ _) hn)

namespace Total

theorem mono (h : Total m s Q R) (hQ : ∀ a t, Q a t → Q' a t) (hR : ∀ e t, R e t → R' e t) :
    Total m s Q' R' := by
  cases h with
  | ret hrun h => exact .ret hrun (hQ _ _ h)
  | throw hrun h => exact .throw hrun (hR _ _ h)

theorem pure {a : α} (h : Q a s) : Total (pure a : Prog σ ε α) s Q R :=
  .ret (Runs.of_eq fun _ => rfl) h

theorem raise {e : ε} (h : R e s) : Total (Prog.throw e : Prog σ ε α) s Q R :=
  .throw (Runs.of_eq fun _ => rfl) h

/-- What comes first returns. -/
theorem after {f : α → Prog σ ε β} {a : α} {t : σ} {P : β → σ → Prop}
    (hrun : Runs m s (.ret a t)) (h : Total (f a) t P R) : Total (m >>= f) s P R := by
  cases h with
  | ret hrun' h => exact .ret (hrun.bind hrun') h
  | throw hrun' h => exact .throw (hrun.bind hrun') h

theorem bind {f : α → Prog σ ε β} {P : β → σ → Prop} (h : Total m s Q R)
    (hf : ∀ a t, Q a t → Total (f a) t P R) : Total (m >>= f) s P R := by
  cases h with
  | @ret a t hrun h =>
      exact after hrun (hf a t h)
  | throw hrun h => exact .throw hrun.bind_throw h

theorem get_bind {f : σ → Prog σ ε α} (h : Total (f s) s Q R) :
    Total (Prog.get >>= f) s Q R := after (Runs.of_eq fun _ => rfl) h

theorem modify {g : σ → σ} {Q : Unit → σ → Prop} (h : Q () (g s)) :
    Total (Prog.modify g : Prog σ ε Unit) s Q R :=
  .ret (Runs.of_eq fun _ => rfl) h

theorem modify_bind {g : σ → σ} {f : Unit → Prog σ ε α} (h : Total (f ()) (g s) Q R) :
    Total (Prog.modify g >>= f) s Q R := after (Runs.of_eq fun _ => rfl) h

theorem ite {c : Prop} [Decidable c] {m' : Prog σ ε α} (h : c → Total m s Q R)
    (h' : ¬ c → Total m' s Q R) : Total (if c then m else m') s Q R := by
  split
  · exact h ‹c›
  · exact h' ‹¬ c›

theorem tryCatch {handler : ε → Prog σ ε α} (h : Total m s Q R)
    (hh : ∀ e t, R e t → Total (handler e) t Q R') : Total (Prog.tryCatch m handler) s Q R' := by
  cases h with
  | ret hrun h => exact .ret hrun.tryCatch h
  | @throw e t hrun h =>
      cases hh e t h with
      | ret hrun' h' => exact .ret (hrun.tryCatch_throw hrun') h'
      | throw hrun' h' => exact .throw (hrun.tryCatch_throw hrun') h'

theorem focus {τ ε' : Type} {part : τ → σ} {put : σ → τ → τ} {onError : ε → ε'} {u : τ}
    {P : α → τ → Prop} {P' : ε' → τ → Prop} (h : Total m (part u) Q R)
    (hQ : ∀ a t, Q a t → P a (put t u)) (hR : ∀ e t, R e t → P' (onError e) (put t u)) :
    Total (Prog.focus part put onError m) u P P' := by
  cases h with
  | ret hrun h => exact .ret hrun.focus (hQ _ _ h)
  | throw hrun h => exact .throw hrun.focus_throw (hR _ _ h)

/-- The first pass of a loop, and the loop from there on. -/
theorem loop {body : α → Prog σ ε (α ⊕ β)} {a : α} {P : β → σ → Prop}
    (h : Total (body a) s (fun r t => match r with
      | .inl a' => Total (Prog.loop body a') t P R
      | .inr b => P b t) R) : Total (Prog.loop body a) s P R := by
  cases h with
  | @ret r t hrun h =>
      cases r with
      | inl a' =>
          cases h with
          | ret hloop h => exact .ret (Runs.loop_step_ret hrun hloop) h
          | throw hloop h => exact .throw (Runs.loop_step hrun hloop (by simp)) h
      | inr b => exact .ret (Runs.loop_stop hrun) h
  | @throw e t hrun h =>
      obtain ⟨N, hN⟩ := hrun
      refine .throw ⟨N + 1, fun n hn => ?_⟩ h
      obtain ⟨k, rfl⟩ : ∃ j, n = j + 1 := ⟨n - 1, by omega⟩
      simp only [Prog.loop, loopN]
      rw [hN (k + 1) (by omega)]
      rfl

theorem congr {m' : Prog σ ε α} (hm : ∀ n, m n s = m' n s) (h : Total m' s Q R) :
    Total m s Q R := by
  cases h with
  | ret hrun h => exact .ret ((Runs.congr (N := 0) (fun n _ => hm n) _).mpr hrun) h
  | throw hrun h => exact .throw ((Runs.congr (N := 0) (fun n _ => hm n) _).mpr hrun) h

/-- What ends one way ends only that way. -/
theorem sat (h : Total m s Q R) : Sat m s Q R := by
  cases h with
  | ret hrun h => exact Sat.of_runs hrun h
  | throw hrun h => exact Sat.of_runs hrun h

/-- What a computation meets besides. -/
theorem and_sat {P : α → σ → Prop} {P' : ε → σ → Prop} (h : Total m s Q R) (h' : Sat m s P P') :
    Total m s (fun a t => Q a t ∧ P a t) fun e t => R e t ∧ P' e t := by
  cases h with
  | ret hrun h => exact .ret hrun ⟨h, h'.ret hrun⟩
  | throw hrun h =>
      obtain ⟨N, hN⟩ := hrun
      have hok := h' N
      rw [hN N le_rfl] at hok
      exact .throw ⟨N, hN⟩ ⟨h, hok⟩

/-- A computation that throws nothing. -/
theorem returns (h : Total m s Q fun _ _ => False) : ∃ a t, Runs m s (.ret a t) ∧ Q a t := by
  cases h with
  | ret hrun h => exact ⟨_, _, hrun, h⟩
  | throw _ h => exact h.elim

end Total

end Imp
