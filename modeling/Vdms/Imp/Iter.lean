import Vdms.Imp.Prog

/-!
# Iterators with a Test, a Dereference and a Step

The iterator protocol of a loop `for (; i; i.next()) use(*i)`: an iterator object of type
`ι` has a test, a dereference and a step, the last two being computations, since they may
read or change the state the iterator ranges over. `Iter` packages the three.

`Rest I s i l` says that in state `s`, which the iterator only reads, `i` would still
yield exactly the list `l` and then report its end. `Yields I i s l j t` is the general
form for iterators that move other objects of the state while they are stepped: driving
`i` from `s` yields `l` and ends with the iterator `j` in state `t`. Both are inductive,
so they include that the iteration ends.

A *view* of an iterator says in the client's own terms what the iterator has ahead in a
state. `Tracks I V S` says that the protocol respects the view `V` and that a step moves
the state only along `S`; this is the one fact about an iterator its clients use.

## Main results

* `Tracks.yields`, `Tracks.rest`: an iterator that tracks a view yields what is in view.
* `Rest.unique`, `Yields.unique`: what an iterator yields is determined.
* `Yields.collect`: the loop that pushes every element returns the yielded list.
* `not_yields_of_invariant`: an iterator whose test stays true forever yields no list.
* `Keeps`: driving an iterator keeps an invariant, while the state changes between its
  steps.
-/

namespace Imp

variable {σ ε ι τ β : Type}

/-- The iterator protocol over objects of type `ι` with elements of type `τ`. -/
structure Iter (σ ε ι τ : Type) where
  bool : ι → Bool
  ref : ι → Prog σ ε τ
  next : ι → Prog σ ε ι

namespace Iter

open Prog

/-- In state `s`, which reading leaves alone, the iterator still yields exactly `l`. -/
inductive Rest (I : Iter σ ε ι τ) (s : σ) : ι → List τ → Prop
  | nil {i : ι} : I.bool i = false → Rest I s i []
  | cons {i i' : ι} {x : τ} {l : List τ} : I.bool i = true →
      Runs (I.ref i) s (.ret x s) → Runs (I.next i) s (.ret i' s) → Rest I s i' l →
      Rest I s i (x :: l)

/-- Driving `i` from state `s` yields `l` and ends with iterator `j` in state `t`. -/
inductive Yields (I : Iter σ ε ι τ) : ι → σ → List τ → ι → σ → Prop
  | nil {i : ι} {s : σ} : I.bool i = false → Yields I i s [] i s
  | cons {i i' j : ι} {s s' t : σ} {x : τ} {l : List τ} : I.bool i = true →
      Runs (I.ref i) s (.ret x s) → Runs (I.next i) s (.ret i' s') →
      Yields I i' s' l j t → Yields I i s (x :: l) j t

variable {I : Iter σ ε ι τ} {i i' j : ι} {s s' t : σ} {x : τ} {l l' : List τ}

theorem Rest.cons_inv (h : Rest I s i (x :: l)) :
    I.bool i = true ∧ Runs (I.ref i) s (.ret x s) ∧
      ∃ i', Runs (I.next i) s (.ret i' s) ∧ Rest I s i' l := by
  cases h with
  | cons hb hr hn hl => exact ⟨hb, hr, _, hn, hl⟩

theorem Rest.eq_nil (h : Rest I s i l) (hb : I.bool i = false) : l = [] := by
  cases h with
  | nil _ => rfl
  | cons hb' => rw [hb] at hb'; cases hb'

theorem Rest.bool_eq (h : Rest I s i l) : I.bool i = !l.isEmpty := by
  cases h with
  | nil hb => exact hb
  | cons hb => exact hb

/-- What is left of an iterator is determined by the iterator and the state. -/
theorem Rest.unique (h : Rest I s i l) (h' : Rest I s i l') : l = l' := by
  induction h generalizing l' with
  | nil hb => exact (h'.eq_nil hb).symm
  | cons hb hr hn _ ih =>
      cases h' with
      | nil hb' => rw [hb] at hb'; cases hb'
      | cons _ hr' hn' hl' =>
          have hx := hr.unique hr'
          have hi := hn.unique hn'
          injection hx with hx
          injection hi with hi
          subst hx hi
          rw [ih hl']

/-- A read-only iteration is an iteration that ends in the state it started from. -/
theorem Rest.yields (h : Rest I s i l) : ∃ j, Yields I i s l j s := by
  induction h with
  | nil hb => exact ⟨_, .nil hb⟩
  | cons hb hr hn _ ih =>
      obtain ⟨j, hj⟩ := ih
      exact ⟨j, .cons hb hr hn hj⟩

/-- The list an iteration yields, and where it ends, are determined. -/
theorem Yields.unique {j' : ι} {t' : σ} (h : Yields I i s l j t)
    (h' : Yields I i s l' j' t') : l = l' ∧ j = j' ∧ t = t' := by
  induction h generalizing l' with
  | nil hb =>
      cases h' with
      | nil _ => exact ⟨rfl, rfl, rfl⟩
      | cons hb' => rw [hb] at hb'; cases hb'
  | cons hb hr hn _ ih =>
      cases h' with
      | nil hb' => rw [hb] at hb'; cases hb'
      | cons _ hr' hn' hl' =>
          have hx := hr.unique hr'
          have hi := hn.unique hn'
          injection hx with hx
          injection hi with hi hs
          subst hx hi hs
          obtain ⟨rfl, rfl, rfl⟩ := ih hl'
          exact ⟨rfl, rfl, rfl⟩

/-- An iterator that keeps an invariant under which its test is true never reports its
end, so it yields no list. -/
theorem not_yields_of_invariant (P : ι → σ → Prop) (hbool : ∀ i s, P i s → I.bool i = true)
    (hnext : ∀ i s i' s', P i s → Runs (I.next i) s (.ret i' s') → P i' s')
    (hi : P i s) : ¬ Yields I i s l j t := by
  intro h
  induction h with
  | nil hb => rw [hbool _ _ hi] at hb; cases hb
  | cons _ _ hn _ ih => exact ih (hnext _ _ _ _ hi hn)

/-- The loop `for (; i; i.next()) acc.push_back(*i)`, returning the iterator it ends with
and the collected elements. -/
def collect (I : Iter σ ε ι τ) (i : ι) (acc : List τ) : Prog σ ε (ι × List τ) :=
  loop (fun (p : ι × List τ) =>
    if I.bool p.1 then do
      let x ← I.ref p.1
      let i' ← I.next p.1
      pure (.inl (i', p.2 ++ [x]))
    else pure (.inr p)) (i, acc)

/-- The collecting loop returns exactly what the iterator yields. -/
theorem Yields.collect (h : Yields I i s l j t) (acc : List τ) :
    Runs (I.collect i acc) s (.ret (j, acc ++ l) t) := by
  induction h generalizing acc with
  | nil hb =>
      refine Runs.loop_stop (Runs.of_eq fun n => ?_)
      simp [hb]
  | @cons i i' j s s' t x l hb hr hn _ ih =>
      have hrest := ih (acc ++ [x])
      rw [List.append_assoc, List.singleton_append] at hrest
      refine Runs.loop_step_ret ?_ hrest
      simp only [hb, if_true]
      exact hr.bind (hn.bind (Runs.of_eq fun n => rfl))

/-! ### Views -/

/-- The protocol respects the view `V` of what an iterator has ahead, and a step moves
the state only along `S`. -/
structure Tracks (I : Iter σ ε ι τ) (V : ι → σ → List τ → Prop) (S : σ → σ → Prop) :
    Prop where
  bool_eq : ∀ {i s l}, V i s l → I.bool i = !l.isEmpty
  ref_runs : ∀ {i s x l}, V i s (x :: l) → Runs (I.ref i) s (.ret x s)
  next_runs : ∀ {i s x l}, V i s (x :: l) →
    ∃ i' s', Runs (I.next i) s (.ret i' s') ∧ V i' s' l ∧ S s s'

variable {V : ι → σ → List τ → Prop} {S : σ → σ → Prop}

/-- An iterator yields what is in view, and ends with nothing in view. -/
theorem Tracks.yields (h : Tracks I V S) (hV : V i s l) :
    ∃ j t, Yields I i s l j t ∧ V j t [] ∧ Relation.ReflTransGen S s t := by
  induction l generalizing i s with
  | nil => exact ⟨i, s, .nil (h.bool_eq hV), hV, .refl⟩
  | cons x l ih =>
      obtain ⟨i', s', hnext, hV', hS⟩ := h.next_runs hV
      obtain ⟨j, t, hy, hj, hSt⟩ := ih hV'
      exact ⟨j, t, .cons (h.bool_eq hV) (h.ref_runs hV) hnext hy, hj, hSt.head hS⟩

/-- An iterator that only reads the state has ahead what is in view. -/
theorem Tracks.rest (h : Tracks I V Eq) (hV : V i s l) : Rest I s i l := by
  induction l generalizing i with
  | nil => exact .nil (h.bool_eq hV)
  | cons x l ih =>
      obtain ⟨i', s', hnext, hV', rfl⟩ := h.next_runs hV
      exact .cons (h.bool_eq hV) (h.ref_runs hV) hnext (ih hV')

/-- What an iterator yields is a view of it. -/
theorem tracks_yields (I : Iter σ ε ι τ) :
    I.Tracks (fun i s l => ∃ j t, I.Yields i s l j t) fun _ _ => True where
  bool_eq := by
    rintro i s l ⟨j, t, h⟩
    cases h with
    | nil hb => exact hb
    | cons hb => exact hb
  ref_runs := by
    rintro i s x l ⟨j, t, h⟩
    cases h with
    | cons _ hr => exact hr
  next_runs := by
    rintro i s x l ⟨j, t, h⟩
    cases h with
    | cons _ _ hn hl => exact ⟨_, _, hn, ⟨j, t, hl⟩, trivial⟩

theorem Tracks.mono {T : σ → σ → Prop} (h : Tracks I V S) (hS : ∀ s t, S s t → T s t) :
    Tracks I V T where
  bool_eq := h.bool_eq
  ref_runs := h.ref_runs
  next_runs hV := by
    obtain ⟨i', s', hnext, hV', hst⟩ := h.next_runs hV
    exact ⟨i', s', hnext, hV', hS _ _ hst⟩

/-! ### Invariants of iteration -/

/-- Driving the iterator keeps the invariant `P` of the state and moves the state along
`S`, which respects the invariant `J` of the iterator and the property `E` of the elements
it yields. Unlike a view, these need not determine what the iterator yields. -/
structure Keeps (I : Iter σ ε ι τ) (P : σ → Prop) (S : σ → σ → Prop) (J : ι → σ → Prop)
    (E : τ → σ → Prop) : Prop where
  refl : ∀ s, S s s
  trans : ∀ {s t u}, S s t → S t u → S s u
  iter_stable : ∀ {i s t}, S s t → J i s → J i t
  elem_stable : ∀ {x s t}, S s t → E x s → E x t
  ref : ∀ {i s}, P s → J i s → Reads (I.ref i) s fun x => E x s
  next : ∀ {i s}, P s → J i s → Ensures (I.next i) s fun i' t => P t ∧ S s t ∧ J i' t

variable {P : σ → Prop} {J : ι → σ → Prop} {E : τ → σ → Prop}

/-- The collecting loop. -/
theorem Keeps.collect (h : I.Keeps P S J E) {acc : List τ} (hP : P s) (hJ : J i s)
    (hacc : ∀ x ∈ acc, E x s) : Ensures (I.collect i acc) s fun p t =>
      P t ∧ S s t ∧ J p.1 t ∧ ∀ x ∈ p.2, E x t := by
  refine Sat.loop (fun p t => P t ∧ S s t ∧ J p.1 t ∧ ∀ x ∈ p.2, E x t) ?_
    ⟨hP, h.refl s, hJ, hacc⟩
  rintro ⟨i, acc⟩ t ⟨hP, hS, hJ, hacc⟩
  refine Sat.ite (fun _ => ?_) fun _ => Sat.pure ⟨hP, hS, hJ, hacc⟩
  refine Reads.bind (h.ref hP hJ) fun x hx => ?_
  refine Sat.bind (h.next hP hJ) fun i' u hu => Sat.pure ?_
  obtain ⟨hPu, hSu, hJu⟩ := hu
  refine ⟨hPu, h.trans hS hSu, hJu, fun y hy => h.elem_stable hSu ?_⟩
  rcases List.mem_append.1 hy with hy | hy
  · exact hacc y hy
  · obtain rfl := List.mem_singleton.1 hy
    exact hx

end Iter

end Imp
