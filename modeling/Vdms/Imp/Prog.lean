import Mathlib.Data.Nat.Notation
import Mathlib.Logic.Relation
import Mathlib.Order.Lattice

/-!
# Imperative Computations with Exceptions and Unbounded Loops

A computation of type `Prog σ ε α` reads and writes a state `σ`, may throw an exception
of type `ε`, and may loop. Loops are made executable by a **loop bound**: every `loop`
of a run gets the same bound on its number of passes, and a run that would need more is
`Outcome.stuck`. The bound is scaffolding, not part of the program: a computation carries
the proof that a larger bound does not change an answer. A terminating run is one that
answers at some bound (`Runs`), statements about what a run can do hold at every bound
(`Sat`, `Within`), and a program that never answers is stuck at every bound (`Diverges`).

## Main results

* `Runs.unique`: the result of a run does not depend on the loop bound.
* `Runs.bind`, `bind_ret_inv`, `Runs.loop_step`: the big-step rules of sequencing and loops.
* `Sat.bind`, `Sat.loop`: the partial-correctness rules, with one postcondition for
  values and one for exceptions.
* `Within.bind`, `Within.loop`: a computation whose parts move the state only along
  a relation moves the state only along that relation; `Within.invariant` turns a fact
  about one step of the relation into a fact about the whole computation.
* `Diverges.loop`: a loop whose every pass re-establishes an invariant never answers.
-/

namespace Imp

variable {σ ε α β γ : Type}

/-- What a computation ends in: a value, an exception, or (`stuck`) no answer within the
loop bound. An exception keeps the state it was thrown in. -/
inductive Outcome (σ ε α : Type) where
  | ret (a : α) (s : σ)
  | throw (e : ε) (s : σ)
  | stuck

namespace Outcome

/-- Continue a computation that returned; exceptions and `stuck` pass through. -/
def andThen (o : Outcome σ ε α) (k : α → σ → Outcome σ ε β) : Outcome σ ε β :=
  match o with
  | .ret a s => k a s
  | .throw e s => .throw e s
  | .stuck => .stuck

@[simp] theorem andThen_ret (a : α) (s : σ) (k : α → σ → Outcome σ ε β) :
    (ret a s : Outcome σ ε α).andThen k = k a s := rfl

@[simp] theorem andThen_throw (e : ε) (s : σ) (k : α → σ → Outcome σ ε β) :
    (throw e s : Outcome σ ε α).andThen k = .throw e s := rfl

@[simp] theorem andThen_stuck (k : α → σ → Outcome σ ε β) :
    (stuck : Outcome σ ε α).andThen k = .stuck := rfl

theorem andThen_congr {o : Outcome σ ε α} {k l : α → σ → Outcome σ ε β}
    (h : ∀ a s, k a s = l a s) : o.andThen k = o.andThen l := by
  cases o with
  | ret a s => exact h a s
  | throw e s => rfl
  | stuck => rfl

theorem andThen_ne_stuck {o : Outcome σ ε α} {k : α → σ → Outcome σ ε β}
    (ho : o ≠ stuck) (hk : ∀ a s, k a s ≠ stuck) : o.andThen k ≠ stuck := by
  cases o with
  | ret a s => exact hk a s
  | throw e s => simp [andThen]
  | stuck => exact absurd rfl ho

theorem andThen_assoc (o : Outcome σ ε α) (k : α → σ → Outcome σ ε β)
    (l : β → σ → Outcome σ ε γ) :
    (o.andThen k).andThen l = o.andThen fun a s => (k a s).andThen l := by
  cases o <;> rfl

/-- The outcome meets `Q` if it is a value and `R` if it is an exception. -/
def Ok (o : Outcome σ ε α) (Q : α → σ → Prop) (R : ε → σ → Prop) : Prop :=
  match o with
  | .ret a s => Q a s
  | .throw e s => R e s
  | .stuck => True

theorem Ok.mono {o : Outcome σ ε α} {Q Q' : α → σ → Prop} {R R' : ε → σ → Prop}
    (h : o.Ok Q R) (hQ : ∀ a s, Q a s → Q' a s) (hR : ∀ e s, R e s → R' e s) :
    o.Ok Q' R' := by
  cases o with
  | ret a s => exact hQ a s h
  | throw e s => exact hR e s h
  | stuck => trivial

theorem Ok.andThen {o : Outcome σ ε α} {k : α → σ → Outcome σ ε β}
    {P : α → σ → Prop} {Q : β → σ → Prop} {R : ε → σ → Prop}
    (h : o.Ok P R) (hk : ∀ a s, P a s → (k a s).Ok Q R) : (o.andThen k).Ok Q R := by
  cases o with
  | ret a s => exact hk a s h
  | throw e s => exact h
  | stuck => trivial

end Outcome

/-- A computation: from a loop bound and a state to an outcome, which a larger bound does
not change once there is one. -/
structure Prog (σ ε α : Type) where
  run : ℕ → σ → Outcome σ ε α
  mono : ∀ n s, run n s ≠ .stuck → run (n + 1) s = run n s

namespace Prog

instance : CoeFun (Prog σ ε α) fun _ => ℕ → σ → Outcome σ ε α := ⟨run⟩

/-- A computation that does not depend on the loop bound. -/
def ofFun (f : σ → Outcome σ ε α) : Prog σ ε α where
  run _ s := f s
  mono _ _ _ := rfl

theorem mono_andThen (m : Prog σ ε α) (f : α → Prog σ ε β) (n : ℕ) (s : σ)
    (h : ((m n s).andThen fun a s' => f a n s') ≠ .stuck) :
    ((m (n + 1) s).andThen fun a s' => f a (n + 1) s') =
      (m n s).andThen fun a s' => f a n s' := by
  have hm : m n s ≠ .stuck := fun hm => h (by rw [hm]; rfl)
  rw [m.mono n s hm]
  cases hms : m n s with
  | ret a t =>
      rw [hms] at h
      exact (f a).mono n t h
  | throw e t => rfl
  | stuck => exact absurd hms hm

instance : Monad (Prog σ ε) where
  pure a := ofFun fun s => .ret a s
  bind m f := ⟨fun n s => (m n s).andThen fun a s' => f a n s', mono_andThen m f⟩

/-- Read the state. -/
def get : Prog σ ε σ := ofFun fun s => .ret s s

/-- Change the state. -/
def modify (f : σ → σ) : Prog σ ε Unit := ofFun fun s => .ret () (f s)

/-- Throw an exception. -/
def throw (e : ε) : Prog σ ε α := ofFun fun s => .throw e s

/-- Give no answer: the program text reaches undefined behaviour or aborts. -/
def stuck : Prog σ ε α := ofFun fun _ => .stuck

/-- Run `m`, and on an exception continue with the handler. -/
def tryCatch (m : Prog σ ε α) (handler : ε → Prog σ ε α) : Prog σ ε α where
  run n s :=
    match m n s with
    | .ret a s' => .ret a s'
    | .throw e s' => handler e n s'
    | .stuck => .stuck
  mono n s h := by
    have hm : m n s ≠ .stuck := fun hm => h (by rw [hm])
    rw [m.mono n s hm]
    cases hms : m n s with
    | ret a t => rfl
    | throw e t =>
        rw [hms] at h
        exact (handler e).mono n t h
    | stuck => exact absurd hms hm

/-- Run a computation on a part of the state. -/
def focus {τ ε' : Type} (part : σ → τ) (put : τ → σ → σ) (onError : ε → ε')
    (m : Prog τ ε α) : Prog σ ε' α where
  run n s :=
    match m n (part s) with
    | .ret a t => .ret a (put t s)
    | .throw e t => .throw (onError e) (put t s)
    | .stuck => .stuck
  mono n s h := by
    have hm : m n (part s) ≠ .stuck := fun hm => h (by rw [hm])
    rw [m.mono n (part s) hm]

/-- At most `k` passes of a loop whose body answers `Sum.inl` to go on from a new loop
value and `Sum.inr` to leave. -/
def loopN (body : α → Prog σ ε (α ⊕ β)) (n : ℕ) : ℕ → α → σ → Outcome σ ε β
  | 0, _, _ => .stuck
  | k + 1, a, s => (body a n s).andThen fun r s' =>
      match r with
      | .inl a' => loopN body n k a' s'
      | .inr b => .ret b s'

theorem mono_le (m : Prog σ ε α) {n k : ℕ} {s : σ} (hnk : n ≤ k) (h : m n s ≠ .stuck) :
    m k s = m n s := by
  induction hnk with
  | refl => rfl
  | step _ ih => rw [m.mono _ s (by rw [ih]; exact h), ih]

theorem loopN_mono (body : α → Prog σ ε (α ⊕ β)) {n n' : ℕ} (hn : n ≤ n') : ∀ {k k' : ℕ},
    k ≤ k' → ∀ (a : α) (s : σ), loopN body n k a s ≠ .stuck →
    loopN body n' k' a s = loopN body n k a s := by
  intro k
  induction k with
  | zero => intro k' _ a s h; exact absurd rfl h
  | succ k ih =>
      intro k' hk a s h
      obtain ⟨k', rfl⟩ : ∃ j, k' = j + 1 := ⟨k' - 1, by omega⟩
      rw [loopN] at h
      rw [loopN, loopN]
      have hb : body a n s ≠ .stuck := fun hb => h (by rw [hb]; rfl)
      rw [(body a).mono_le hn hb]
      cases hbs : body a n s with
      | ret r t =>
          rw [hbs] at h
          cases r with
          | inl a' => exact ih (by omega) a' t h
          | inr b => rfl
      | throw e t => rfl
      | stuck => exact absurd hbs hb

/-- A loop, with as many passes as the loop bound. -/
def loop (body : α → Prog σ ε (α ⊕ β)) (a : α) : Prog σ ε β where
  run n s := loopN body n n a s
  mono n s h := loopN_mono body (Nat.le_succ n) (Nat.le_succ n) a s h

/-- Run the computation for each element of a list in turn. -/
def forEach : List α → (α → Prog σ ε Unit) → Prog σ ε Unit
  | [], _ => pure ()
  | a :: as, f => do
      f a
      forEach as f

/-- Run the computation if the condition holds. -/
def when (c : Prop) [Decidable c] (m : Prog σ ε Unit) : Prog σ ε Unit :=
  if c then m else pure ()

@[simp] theorem pure_apply (a : α) (n : ℕ) (s : σ) :
    (pure a : Prog σ ε α) n s = .ret a s := rfl

@[simp] theorem bind_apply (m : Prog σ ε α) (f : α → Prog σ ε β) (n : ℕ) (s : σ) :
    (m >>= f) n s = (m n s).andThen fun a s' => f a n s' := rfl

@[simp] theorem get_apply (n : ℕ) (s : σ) : (get : Prog σ ε σ) n s = .ret s s := rfl

@[simp] theorem modify_apply (f : σ → σ) (n : ℕ) (s : σ) :
    (modify f : Prog σ ε Unit) n s = .ret () (f s) := rfl

@[simp] theorem throw_apply (e : ε) (n : ℕ) (s : σ) :
    (throw e : Prog σ ε α) n s = .throw e s := rfl

@[simp] theorem stuck_apply (n : ℕ) (s : σ) : (stuck : Prog σ ε α) n s = .stuck := rfl

@[simp] theorem forEach_nil (f : α → Prog σ ε Unit) :
    forEach [] f = (pure () : Prog σ ε Unit) := rfl

theorem when_pos {c : Prop} [Decidable c] {m : Prog σ ε Unit} (h : c) : when c m = m :=
  if_pos h

theorem when_neg {c : Prop} [Decidable c] {m : Prog σ ε Unit} (h : ¬ c) :
    when c m = pure () :=
  if_neg h

theorem when_modify_apply {c : Prop} [Decidable c] (f : σ → σ) (n : ℕ) (s : σ) :
    (when c (modify f) : Prog σ ε Unit) n s = .ret () (if c then f s else s) := by
  by_cases h : c
  · rw [when_pos h, if_pos h]
    rfl
  · rw [when_neg h, if_neg h]
    rfl

theorem forEach_cons (a : α) (as : List α) (f : α → Prog σ ε Unit) :
    forEach (a :: as) f = f a >>= fun _ => forEach as f := rfl

/-! ### Terminating runs -/

/-- From `s` the computation ends in `o`, at every sufficiently large loop bound. -/
def Runs (m : Prog σ ε α) (s : σ) (o : Outcome σ ε α) : Prop :=
  ∃ N, ∀ n, N ≤ n → m n s = o

theorem Runs.of_eq {m : Prog σ ε α} {s : σ} {o : Outcome σ ε α}
    (h : ∀ n, m n s = o) : Runs m s o :=
  ⟨0, fun n _ => h n⟩

/-- Computations that agree at every sufficiently large bound have the same runs. -/
theorem Runs.congr {m m' : Prog σ ε α} {s : σ} {N : ℕ}
    (h : ∀ n, N ≤ n → m n s = m' n s) (o : Outcome σ ε α) : Runs m s o ↔ Runs m' s o := by
  constructor
  · rintro ⟨K, hK⟩
    exact ⟨max N K, fun n hn => by rw [← h n (by omega), hK n (by omega)]⟩
  · rintro ⟨K, hK⟩
    exact ⟨max N K, fun n hn => by rw [h n (by omega), hK n (by omega)]⟩

/-- One bound at which there is an answer is enough. -/
theorem Runs.of_run {m : Prog σ ε α} {n : ℕ} {s : σ} {o : Outcome σ ε α}
    (h : m n s = o) (ho : o ≠ .stuck) : Runs m s o :=
  ⟨n, fun k hk => by rw [m.mono_le hk (by rw [h]; exact ho), h]⟩

theorem Runs.of_ret {m : Prog σ ε α} {n : ℕ} {s t : σ} {a : α}
    (h : m n s = .ret a t) : Runs m s (.ret a t) :=
  Runs.of_run h (by simp)

/-- **Bound independence.** The outcome of a run is unique. -/
theorem Runs.unique {m : Prog σ ε α} {s : σ} {o o' : Outcome σ ε α}
    (h : Runs m s o) (h' : Runs m s o') : o = o' := by
  obtain ⟨N, hN⟩ := h
  obtain ⟨N', hN'⟩ := h'
  rw [← hN (max N N') (le_max_left _ _), ← hN' (max N N') (le_max_right _ _)]

theorem Runs.bind {m : Prog σ ε α} {f : α → Prog σ ε β} {s s' : σ} {a : α}
    {o : Outcome σ ε β} (h : Runs m s (.ret a s')) (hf : Runs (f a) s' o) :
    Runs (m >>= f) s o := by
  obtain ⟨N, hN⟩ := h
  obtain ⟨N', hN'⟩ := hf
  refine ⟨max N N', fun n hn => ?_⟩
  rw [bind_apply, hN n (le_trans (le_max_left _ _) hn), Outcome.andThen_ret,
    hN' n (le_trans (le_max_right _ _) hn)]

theorem Runs.bind_throw {m : Prog σ ε α} {f : α → Prog σ ε β} {s s' : σ} {e : ε}
    (h : Runs m s (.throw e s')) : Runs (m >>= f) s (.throw e s') := by
  obtain ⟨N, hN⟩ := h
  exact ⟨N, fun n hn => by rw [bind_apply, hN n hn, Outcome.andThen_throw]⟩

/-- A sequence returns only through a return of its first part. -/
theorem bind_ret_inv {m : Prog σ ε α} {f : α → Prog σ ε β} {n : ℕ} {s t : σ} {b : β}
    (h : (m >>= f) n s = .ret b t) : ∃ a u, m n s = .ret a u ∧ f a n u = .ret b t := by
  rw [bind_apply] at h
  cases hm : m n s with
  | ret a u =>
      rw [hm, Outcome.andThen_ret] at h
      exact ⟨a, u, rfl, h⟩
  | throw e u => rw [hm, Outcome.andThen_throw] at h; cases h
  | stuck => rw [hm, Outcome.andThen_stuck] at h; cases h

/-- The parts of a sequence that returned. -/
theorem Runs.bind_inv {m : Prog σ ε α} {f : α → Prog σ ε β} {s t : σ} {b : β}
    (h : Runs (m >>= f) s (.ret b t)) :
    ∃ a u, Runs m s (.ret a u) ∧ Runs (f a) u (.ret b t) := by
  obtain ⟨N, hN⟩ := h
  obtain ⟨a, u, hm, hf⟩ := bind_ret_inv (hN N le_rfl)
  exact ⟨a, u, Runs.of_ret hm, Runs.of_ret hf⟩

theorem Runs.pure_inv {a b : α} {s t : σ} (h : Runs (pure a : Prog σ ε α) s (.ret b t)) :
    a = b ∧ s = t := by
  have heq := (Runs.of_eq fun _ => rfl : Runs (pure a : Prog σ ε α) s (.ret a s)).unique h
  injection heq with ha hs
  exact ⟨ha, hs⟩

theorem Runs.get_bind_inv {f : σ → Prog σ ε β} {s t : σ} {b : β}
    (h : Runs (Prog.get >>= f) s (.ret b t)) : Runs (f s) s (.ret b t) := h

theorem Runs.modify_bind_inv {g : σ → σ} {f : Unit → Prog σ ε β} {s t : σ} {b : β}
    (h : Runs (Prog.modify g >>= f) s (.ret b t)) : Runs (f ()) (g s) (.ret b t) := h

/-- A run that returns does not reach the handler. -/
theorem Runs.tryCatch {m : Prog σ ε α} {handler : ε → Prog σ ε α} {s s' : σ} {a : α}
    (h : Runs m s (.ret a s')) : Runs (tryCatch m handler) s (.ret a s') := by
  obtain ⟨N, hN⟩ := h
  exact ⟨N, fun n hn => by simp only [Prog.tryCatch, hN n hn]⟩

theorem tryCatch_ret_inv {m : Prog σ ε α} {handler : ε → Prog σ ε α} {n : ℕ} {s t : σ} {a : α}
    (h : Prog.tryCatch m handler n s = .ret a t) :
    m n s = .ret a t ∨ ∃ e u, m n s = .throw e u ∧ handler e n u = .ret a t := by
  simp only [Prog.tryCatch] at h
  cases hm : m n s with
  | ret b u =>
      rw [hm] at h
      exact .inl h
  | throw e u =>
      rw [hm] at h
      exact .inr ⟨e, u, rfl, h⟩
  | stuck =>
      rw [hm] at h
      cases h

/-- A run that returns comes from the computation itself or from the handler. -/
theorem Runs.tryCatch_inv {m : Prog σ ε α} {handler : ε → Prog σ ε α} {s t : σ} {a : α}
    (h : Runs (Prog.tryCatch m handler) s (.ret a t)) :
    Runs m s (.ret a t) ∨ ∃ e u, Runs m s (.throw e u) ∧ Runs (handler e) u (.ret a t) := by
  obtain ⟨N, hN⟩ := h
  rcases tryCatch_ret_inv (hN N le_rfl) with hm | ⟨e, u, hm, hh⟩
  · exact .inl (Runs.of_ret hm)
  · exact .inr ⟨e, u, Runs.of_run hm (by simp), Runs.of_ret hh⟩

section Focus

variable {τ ε' : Type} {part : σ → τ} {put : τ → σ → σ} {onError : ε → ε'} {m : Prog τ ε α}
  {s : σ} {t : τ}

theorem Runs.focus {a : α} (h : Runs m (part s) (.ret a t)) :
    Runs (focus part put onError m) s (.ret a (put t s)) := by
  obtain ⟨N, hN⟩ := h
  exact ⟨N, fun n hn => by simp only [Prog.focus, hN n hn]⟩

theorem Runs.focus_throw {e : ε} (h : Runs m (part s) (.throw e t)) :
    Runs (Prog.focus part put onError m) s (.throw (onError e) (put t s)) := by
  obtain ⟨N, hN⟩ := h
  exact ⟨N, fun n hn => by simp only [Prog.focus, hN n hn]⟩

/-- What returns has returned on the part. -/
theorem Runs.focus_inv {a : α} {u : σ} (h : Runs (Prog.focus part put onError m) s (.ret a u)) :
    ∃ t, Runs m (part s) (.ret a t) ∧ u = put t s := by
  obtain ⟨N, hN⟩ := h
  have hret := hN N le_rfl
  simp only [Prog.focus] at hret
  cases hm : m N (part s) with
  | ret b t =>
      rw [hm] at hret
      cases hret
      exact ⟨t, Runs.of_ret hm, rfl⟩
  | throw e t =>
      rw [hm] at hret
      cases hret
  | stuck =>
      rw [hm] at hret
      cases hret

end Focus

theorem Runs.loop_stop {body : α → Prog σ ε (α ⊕ β)} {a : α} {b : β} {s s' : σ}
    (h : Runs (body a) s (.ret (.inr b) s')) : Runs (loop body a) s (.ret b s') := by
  obtain ⟨N, hN⟩ := h
  refine ⟨N + 1, fun n hn => ?_⟩
  obtain ⟨k, rfl⟩ : ∃ j, n = j + 1 := ⟨n - 1, by omega⟩
  simp only [loop, loopN]
  rw [hN (k + 1) (by omega), Outcome.andThen_ret]

/-- The big-step rule of loops: a loop whose first pass goes on ends as it does from the
loop value and the state after that pass. -/
theorem Runs.loop_step {body : α → Prog σ ε (α ⊕ β)} {a a' : α} {s s' : σ}
    {o : Outcome σ ε β} (h : Runs (body a) s (.ret (.inl a') s'))
    (hl : Runs (loop body a') s' o) (ho : o ≠ .stuck) : Runs (loop body a) s o := by
  obtain ⟨N, hN⟩ := h
  obtain ⟨N', hN'⟩ := hl
  have hle := le_max_left N N'
  have hle' := le_max_right N N'
  refine ⟨max N N' + 1, fun n hn => ?_⟩
  obtain ⟨k, rfl⟩ : ∃ j, n = j + 1 := ⟨n - 1, by omega⟩
  have hk : loopN body k k a' s' = o := hN' k (by omega)
  simp only [loop, loopN]
  rw [hN (k + 1) (by omega), Outcome.andThen_ret]
  simp only
  rw [loopN_mono body (Nat.le_succ k) le_rfl a' s' (by rw [hk]; exact ho), hk]

/-- What comes after a pass that goes on. -/
theorem Runs.loop_step_inv {body : α → Prog σ ε (α ⊕ β)} {a a' : α} {s s' : σ}
    {o : Outcome σ ε β} (h : Runs (body a) s (.ret (.inl a') s')) (hl : Runs (loop body a) s o)
    (ho : o ≠ .stuck) : Runs (loop body a') s' o := by
  obtain ⟨N, hN⟩ := h
  obtain ⟨N', hN'⟩ := hl
  have hrun := hN' (N + N' + 1) (by omega)
  simp only [loop, loopN] at hrun
  rw [hN _ (by omega), Outcome.andThen_ret] at hrun
  simp only at hrun
  refine Runs.of_run (n := N + N' + 1) ?_ ho
  exact (loopN_mono body le_rfl (Nat.le_succ _) a' s' (by rw [hrun]; exact ho)).trans hrun

/-- A loop throws if a pass does. -/
theorem Runs.loop_throw {body : α → Prog σ ε (α ⊕ β)} {a : α} {e : ε} {s t : σ}
    (h : Runs (body a) s (.throw e t)) : Runs (loop body a) s (.throw e t) := by
  obtain ⟨N, hN⟩ := h
  refine ⟨N + 1, fun n hn => ?_⟩
  obtain ⟨k, rfl⟩ : ∃ j, n = j + 1 := ⟨n - 1, by omega⟩
  simp only [loop, loopN]
  rw [hN (k + 1) (by omega), Outcome.andThen_throw]

theorem Runs.loop_step_ret {body : α → Prog σ ε (α ⊕ β)} {a a' : α} {b : β} {s s' t : σ}
    (h : Runs (body a) s (.ret (.inl a') s')) (hl : Runs (loop body a') s' (.ret b t)) :
    Runs (loop body a) s (.ret b t) :=
  Runs.loop_step h hl (by simp)

/-! ### Runs that never answer -/

/-- From `s` the computation gives no answer, whatever the loop bound. -/
def Diverges (m : Prog σ ε α) (s : σ) : Prop :=
  ∀ n, m n s = .stuck

theorem Diverges.not_runs {m : Prog σ ε α} {s s' : σ} {a : α} (h : Diverges m s) :
    ¬ Runs m s (.ret a s') := by
  rintro ⟨N, hN⟩
  have := hN N le_rfl
  rw [h N] at this
  cases this

/-- A run ends as it does, or is out of passes. -/
theorem Runs.stuck_or_eq {m : Prog σ ε α} {s : σ} {o : Outcome σ ε α} (h : Runs m s o)
    (n : ℕ) : m n s = .stuck ∨ m n s = o := by
  obtain ⟨N, hN⟩ := h
  by_cases hs : m n s = .stuck
  · exact .inl hs
  · right
    rw [← m.mono_le (le_max_left n N) hs, hN _ (le_max_right n N)]

theorem Diverges.bind {m : Prog σ ε α} {f : α → Prog σ ε β} {s : σ} (h : Diverges m s) :
    Diverges (m >>= f) s := fun n => by rw [bind_apply, h n, Outcome.andThen_stuck]

/-- **Divergence of a loop.** If every pass from a state in the invariant `I` goes on
to a loop value and a state in `I` (or never ends), the loop never answers. -/
theorem Diverges.loop {body : α → Prog σ ε (α ⊕ β)} (I : α → σ → Prop)
    (h : ∀ a s, I a s → ∀ n, body a n s = .stuck ∨
      ∃ a' s', body a n s = .ret (.inl a') s' ∧ I a' s')
    {a : α} {s : σ} (hI : I a s) : Diverges (loop body a) s := by
  have key : ∀ n k a s, I a s → loopN body n k a s = .stuck := by
    intro n k
    induction k with
    | zero => intro a s _; rfl
    | succ k ih =>
        intro a s hI
        rw [loopN]
        rcases h a s hI n with hs | ⟨a', s', hs, hI'⟩
        · rw [hs, Outcome.andThen_stuck]
        · rw [hs, Outcome.andThen_ret]
          exact ih a' s' hI'
  exact fun n => key n n a s hI

/-! ### Partial correctness -/

/-- Partial correctness: at every loop bound, a value returned from `s` meets `Q` and an
exception thrown from `s` meets `R`. -/
def Sat (m : Prog σ ε α) (s : σ) (Q : α → σ → Prop) (R : ε → σ → Prop) : Prop :=
  ∀ n, (m n s).Ok Q R

/-- What a terminating run ends in is all there is to satisfy. -/
theorem Sat.of_runs {m : Prog σ ε α} {s : σ} {o : Outcome σ ε α} {Q : α → σ → Prop}
    {R : ε → σ → Prop} (h : Runs m s o) (ho : o.Ok Q R) : Sat m s Q R := by
  intro n
  rcases h.stuck_or_eq n with hm | hm
  · rw [hm]
    trivial
  · rw [hm]
    exact ho

theorem Sat.pure {a : α} {s : σ} {Q : α → σ → Prop} {R : ε → σ → Prop} (h : Q a s) :
    Sat (pure a : Prog σ ε α) s Q R := fun _ => h

theorem Sat.get {s : σ} {Q : σ → σ → Prop} {R : ε → σ → Prop} (h : Q s s) :
    Sat (get : Prog σ ε σ) s Q R := fun _ => h

theorem Sat.modify {f : σ → σ} {s : σ} {Q : Unit → σ → Prop} {R : ε → σ → Prop}
    (h : Q () (f s)) : Sat (modify f : Prog σ ε Unit) s Q R := fun _ => h

theorem Sat.throw {e : ε} {s : σ} {Q : α → σ → Prop} {R : ε → σ → Prop} (h : R e s) :
    Sat (throw e : Prog σ ε α) s Q R := fun _ => h

theorem Sat.stuck {s : σ} {Q : α → σ → Prop} {R : ε → σ → Prop} :
    Sat (stuck : Prog σ ε α) s Q R := fun _ => trivial

theorem Sat.mono {m : Prog σ ε α} {s : σ} {Q Q' : α → σ → Prop} {R R' : ε → σ → Prop}
    (h : Sat m s Q R) (hQ : ∀ a t, Q a t → Q' a t) (hR : ∀ e t, R e t → R' e t) :
    Sat m s Q' R' := fun n => (h n).mono hQ hR

theorem Sat.bind {m : Prog σ ε α} {f : α → Prog σ ε β} {s : σ} {P : α → σ → Prop}
    {Q : β → σ → Prop} {R : ε → σ → Prop} (h : Sat m s P R)
    (hf : ∀ a t, P a t → Sat (f a) t Q R) : Sat (m >>= f) s Q R :=
  fun n => (h n).andThen fun a t hP => hf a t hP n

/-- What comes first does not matter for what the last part establishes. -/
theorem Sat.seq {m : Prog σ ε α} {f : α → Prog σ ε β} {s : σ} {Q : β → σ → Prop}
    (hf : ∀ a t, Sat (f a) t Q fun _ _ => True) : Sat (m >>= f) s Q fun _ _ => True := by
  intro n
  rw [bind_apply]
  cases m n s with
  | ret a t => exact hf a t n
  | throw e t => trivial
  | stuck => trivial

/-- A run that returns is one of the runs a partial-correctness fact is about. -/
theorem Sat.ret {m : Prog σ ε α} {s t : σ} {a : α} {Q : α → σ → Prop} {R : ε → σ → Prop}
    (h : Sat m s Q R) (hrun : Runs m s (.ret a t)) : Q a t := by
  obtain ⟨N, hN⟩ := hrun
  have hok := h N
  rwa [hN N le_rfl] at hok

/-- What a run satisfies, together with the run. -/
theorem Sat.with_run {m : Prog σ ε α} {s : σ} {Q : α → σ → Prop} {R : ε → σ → Prop}
    (h : Sat m s Q R) : Sat m s (fun a t => Q a t ∧ Runs m s (.ret a t))
      fun e t => R e t ∧ Runs m s (.throw e t) := by
  intro n
  have hn := h n
  cases hm : m n s with
  | ret a t =>
      rw [hm] at hn
      exact ⟨hn, Runs.of_ret hm⟩
  | throw e t =>
      rw [hm] at hn
      exact ⟨hn, Runs.of_run hm (by simp)⟩
  | stuck => trivial

theorem Sat.get_bind {f : σ → Prog σ ε α} {s : σ} {Q : α → σ → Prop} {R : ε → σ → Prop}
    (h : Sat (f s) s Q R) : Sat (Prog.get >>= f) s Q R := fun n => h n

theorem Sat.modify_bind {g : σ → σ} {f : Unit → Prog σ ε α} {s : σ} {Q : α → σ → Prop}
    {R : ε → σ → Prop} (h : Sat (f ()) (g s) Q R) : Sat (Prog.modify g >>= f) s Q R :=
  fun n => h n

theorem Sat.ite {c : Prop} [Decidable c] {m m' : Prog σ ε α} {s : σ}
    {Q : α → σ → Prop} {R : ε → σ → Prop} (h : c → Sat m s Q R) (h' : ¬ c → Sat m' s Q R) :
    Sat (if c then m else m') s Q R := by
  split
  · exact h ‹c›
  · exact h' ‹¬ c›

theorem Sat.tryCatch {m : Prog σ ε α} {handler : ε → Prog σ ε α} {s : σ}
    {P : ε → σ → Prop} {Q : α → σ → Prop} {R : ε → σ → Prop} (h : Sat m s Q P)
    (hh : ∀ e t, P e t → Sat (handler e) t Q R) : Sat (tryCatch m handler) s Q R := by
  intro n
  have hn := h n
  simp only [Prog.tryCatch]
  cases hm : m n s with
  | ret a t => rw [hm] at hn; exact hn
  | throw e t => rw [hm] at hn; exact hh e t hn n
  | stuck => trivial

/-- **The loop rule.** An invariant of the loop value and the state that the body keeps
when it goes on, and from which it establishes `Q` when it leaves. -/
theorem Sat.loop {body : α → Prog σ ε (α ⊕ β)} (I : α → σ → Prop) {Q : β → σ → Prop}
    {R : ε → σ → Prop}
    (h : ∀ a s, I a s → Sat (body a) s
      (fun r t => match r with | .inl a' => I a' t | .inr b => Q b t) R)
    {a : α} {s : σ} (hI : I a s) : Sat (loop body a) s Q R := by
  have key : ∀ n k a s, I a s → (loopN body n k a s).Ok Q R := by
    intro n k
    induction k with
    | zero => intro a s _; trivial
    | succ k ih =>
        intro a s hI
        rw [loopN]
        refine (h a s hI n).andThen fun r t hr => ?_
        cases r with
        | inl a' => exact ih a' t hr
        | inr b => exact hr
  exact fun n => key n n a s hI

theorem Sat.forEach {as : List α} {f : α → Prog σ ε Unit} {I : σ → Prop}
    {R : ε → σ → Prop} (h : ∀ a ∈ as, ∀ s, I s → Sat (f a) s (fun _ => I) R)
    {s : σ} (hI : I s) : Sat (forEach as f) s (fun _ => I) R := by
  induction as generalizing s with
  | nil => exact Sat.pure hI
  | cons a as ih =>
      refine Sat.bind (h a (List.mem_cons_self ..) s hI) fun _ t ht => ?_
      exact ih (fun b hb => h b (List.mem_cons_of_mem _ hb)) ht

theorem Sat.and {m : Prog σ ε α} {s : σ} {Q Q' : α → σ → Prop} {R R' : ε → σ → Prop}
    (h : Sat m s Q R) (h' : Sat m s Q' R') :
    Sat m s (fun a t => Q a t ∧ Q' a t) (fun e t => R e t ∧ R' e t) := by
  intro n
  have hn := h n
  have hn' := h' n
  cases hm : m n s with
  | ret a t => rw [hm] at hn hn'; exact ⟨hn, hn'⟩
  | throw e t => rw [hm] at hn hn'; exact ⟨hn, hn'⟩
  | stuck => trivial

/-- Partial correctness without a word about exceptions. -/
abbrev Ensures (m : Prog σ ε α) (s : σ) (Q : α → σ → Prop) : Prop :=
  Sat m s Q fun _ _ => True

/-- The computation only reads the state, and its values are as described. -/
abbrev Reads (m : Prog σ ε α) (s : σ) (P : α → Prop) : Prop :=
  Ensures m s fun a t => t = s ∧ P a

theorem Reads.pure {a : α} {s : σ} {P : α → Prop} (h : P a) :
    Reads (pure a : Prog σ ε α) s P :=
  Sat.pure ⟨rfl, h⟩

/-- What is done with the value of a read is done in the same state. -/
theorem Reads.bind {m : Prog σ ε α} {f : α → Prog σ ε β} {s : σ} {P : α → Prop}
    {Q : β → σ → Prop} (h : Reads m s P) (hf : ∀ a, P a → Ensures (f a) s Q) :
    Ensures (m >>= f) s Q :=
  Sat.bind h fun a t ht => by
    obtain ⟨rfl, ha⟩ := ht
    exact hf a ha

theorem Ensures.mono {m : Prog σ ε α} {s : σ} {Q Q' : α → σ → Prop} (h : Ensures m s Q)
    (hQ : ∀ a t, Q a t → Q' a t) : Ensures m s Q' :=
  Sat.mono h hQ fun _ _ _ => trivial

theorem Reads.mono {m : Prog σ ε α} {s : σ} {P P' : α → Prop} (h : Reads m s P)
    (hP : ∀ a, P a → P' a) : Reads m s P' :=
  Ensures.mono h fun a _ ht => ⟨ht.1, hP a ht.2⟩

theorem Reads.and {m : Prog σ ε α} {s : σ} {P P' : α → Prop} (h : Reads m s P)
    (h' : Reads m s P') : Reads m s fun a => P a ∧ P' a :=
  Sat.mono (Sat.and h h') (fun _ _ ht => ⟨ht.1.1, ht.1.2, ht.2.2⟩) fun _ _ _ => trivial

/-! ### Computations that move the state only along a relation -/

/-- However it ends, the computation moves the state only by steps of `S`. -/
def Within (S : σ → σ → Prop) (m : Prog σ ε α) : Prop :=
  ∀ s, Sat m s (fun _ => Relation.ReflTransGen S s) (fun _ => Relation.ReflTransGen S s)

variable {S T : σ → σ → Prop}

theorem Within.pure (a : α) : Within S (pure a : Prog σ ε α) :=
  fun _ => Sat.pure .refl

theorem Within.get : Within S (get : Prog σ ε σ) :=
  fun _ => Sat.get .refl

theorem Within.throw (e : ε) : Within S (throw e : Prog σ ε α) :=
  fun _ => Sat.throw .refl

theorem Within.stuck : Within S (stuck : Prog σ ε α) :=
  fun _ => Sat.stuck

theorem Within.modify {f : σ → σ} (h : ∀ s, S s (f s)) :
    Within S (modify f : Prog σ ε Unit) :=
  fun s => Sat.modify (.single (h s))

/-- A step from a starting state that may depend on how the computation got there. -/
theorem Sat.trans {m : Prog σ ε α} {s t : σ} (h : Relation.ReflTransGen S s t)
    (hm : Sat m t (fun _ => Relation.ReflTransGen S t)
      (fun _ => Relation.ReflTransGen S t)) :
    Sat m t (fun _ => Relation.ReflTransGen S s) (fun _ => Relation.ReflTransGen S s) :=
  hm.mono (fun _ _ => h.trans) (fun _ _ => h.trans)

theorem Within.bind {m : Prog σ ε α} {f : α → Prog σ ε β} (h : Within S m)
    (hf : ∀ a, Within S (f a)) : Within S (m >>= f) :=
  fun s => Sat.bind (h s) fun a t ht => Sat.trans ht (hf a t)

/-- Sequencing after a read: the continuation may use that the value read is the state. -/
theorem Within.get_bind {f : σ → Prog σ ε β}
    (hf : ∀ s, Sat (f s) s (fun _ => Relation.ReflTransGen S s)
      (fun _ => Relation.ReflTransGen S s)) : Within S (Prog.get >>= f) :=
  fun s => Sat.bind (P := fun a t => a = s ∧ t = s) (Sat.get ⟨rfl, rfl⟩)
    (by rintro a t ⟨rfl, rfl⟩; exact hf _)

theorem Within.ite {c : Prop} [Decidable c] {m m' : Prog σ ε α} (h : c → Within S m)
    (h' : ¬ c → Within S m') : Within S (if c then m else m') :=
  fun s => Sat.ite (fun hc => h hc s) (fun hc => h' hc s)

theorem Within.tryCatch {m : Prog σ ε α} {handler : ε → Prog σ ε α} (h : Within S m)
    (hh : ∀ e, Within S (handler e)) : Within S (tryCatch m handler) :=
  fun s => Sat.tryCatch (h s) fun e t ht => Sat.trans ht (hh e t)

theorem Within.loop {body : α → Prog σ ε (α ⊕ β)} (h : ∀ a, Within S (body a)) (a : α) :
    Within S (loop body a) := by
  intro s
  refine Sat.loop (fun _ t => Relation.ReflTransGen S s t) (fun a t ht => ?_) .refl
  refine (Sat.trans ht (h a t)).mono (fun r u hu => ?_) fun _ _ hu => hu
  cases r <;> exact hu

theorem Within.forEach {as : List α} {f : α → Prog σ ε Unit} (h : ∀ a ∈ as, Within S (f a)) :
    Within S (forEach as f) :=
  fun _ => Sat.forEach (fun a ha t ht => Sat.trans ht (h a ha t)) .refl

theorem Within.mono {m : Prog σ ε α} (h : Within S m) (hS : ∀ s t, S s t → T s t) :
    Within T m :=
  fun s => (h s).mono (fun _ _ => Relation.ReflTransGen.mono hS _ _)
    (fun _ _ => Relation.ReflTransGen.mono hS _ _)

/-- **The invariant rule.** What one step of the relation keeps, the whole computation
keeps. -/
theorem Within.invariant {m : Prog σ ε α} (h : Within S m) {I : σ → Prop}
    (hI : ∀ s t, S s t → I s → I t) {s : σ} (hs : I s) :
    Sat m s (fun _ => I) (fun _ => I) := by
  have key : ∀ t, Relation.ReflTransGen S s t → I t := by
    intro t ht
    induction ht with
    | refl => exact hs
    | tail _ hstep ih => exact hI _ _ hstep ih
  exact (h s).mono (fun _ => key) (fun _ => key)

end Prog

end Imp
