import Vdms.Imp.Total
import Vdms.NeighborSearch
import Vdms.EdgeSearch

/-!
# The Loops of a Result

The rule for the loop `upTo` over an iterator with a view: the loop goes over the elements
in view in turn, up to the limit, and ends. What the body does to each element is described
by an invariant over the elements that are done.

The iterators of the handler are *steady*: writing to the response does not disturb their
views, and a step moves cached references and nothing else. So a result can be stated over
the graph at its beginning.

## Main results

* `upTo_total`, `upTo_runs`: the rules for the loop.
* `SearchIterator.steady`, `MultiNeighborIteratorImpl.steady`, `NodeEdgeIteratorImpl.steady`,
  `ReusableIterator.steady`: the iterators that results are built from.
-/

namespace Vdms

open Imp Imp.Prog Platform Relation

/-- The elements a loop with a limit goes over. -/
def cutTo {τ : Type} (limit : Option ℕ) (l : List τ) : List τ :=
  match limit with
  | none => l
  | some n => l.take n

/-- The elements of a result up to its limit, which 0 leaves out. -/
def ResultInfo.cut {τ : Type} (qn : ResultInfo) (l : List τ) : List τ := cutTo qn.limit? l

theorem ResultInfo.limit?_pos (qn : ResultInfo) : ∀ n ∈ qn.limit?, 0 < n := by
  intro n hn
  unfold ResultInfo.limit? at hn
  split at hn
  · obtain rfl := Option.some.inj hn
    assumption
  · cases hn

section Loop

variable {ι τ α : Type} {I : Iter Handler PMGDException ι τ} {V : ι → Handler → List τ → Prop}
  {S : Handler → Handler → Prop} {limit : Option ℕ} {f : α → τ → Handling α} {count : α → ℕ}
  {ni : ι} {a : α} {s : Handler} {l : List τ}

/-- The loop from an element on: `done` is what it has gone over, and what is left of the
limit decides how far it goes. It stops at the first element that the body throws at. Induction
on the elements in view. -/
theorem upTo_total_from (hI : I.Tracks V S) {all : List τ} (Good : τ → Prop)
    (Inv : List τ → α → Handler → Prop)
    (hcount : ∀ {done a s}, Inv done a s → count a = done.length)
    (hstep : ∀ {done x left ni a s}, done ++ x :: left = all → V ni s (x :: left) →
      Inv done a s → Total (f a x) s
        (fun a' s' => Good x ∧ V ni s' (x :: left) ∧ Inv (done ++ [x]) a' s') fun _ _ => ¬ Good x)
    (hnext : ∀ {done a s t}, Inv done a s → S s t → Inv done a t) {done : List τ}
    (hlimit : ∀ n ∈ limit, done.length < n) (hall : done ++ l = all) (hV : V ni s l)
    (hInv : Inv done a s) :
    Total (upTo I limit f count ni a) s
      (fun p t => (∀ x ∈ cutTo (limit.map (· - done.length)) l, Good x) ∧
        Inv (done ++ cutTo (limit.map (· - done.length)) l) p.2 t)
      fun _ _ => ∃ x ∈ cutTo (limit.map (· - done.length)) l, ¬ Good x := by
  induction l generalizing ni a s done with
  | nil =>
      have hnil : cutTo (limit.map (· - done.length)) ([] : List τ) = [] := by
        cases limit <;> simp [cutTo]
      refine Total.loop ?_
      rw [if_neg (by simp [hI.bool_eq hV]), hnil]
      refine Total.pure ⟨by simp, ?_⟩
      rwa [List.append_nil]
  | cons x left ih =>
      have hfirst : ∃ rest, cutTo (limit.map (· - done.length)) (x :: left) = x :: rest := by
        cases limit with
        | none => exact ⟨left, rfl⟩
        | some n =>
            have := hlimit n rfl
            obtain ⟨m, hm⟩ : ∃ m, n - done.length = m + 1 := ⟨n - done.length - 1, by omega⟩
            exact ⟨left.take m, by simp [cutTo, hm]⟩
      refine Total.loop ?_
      rw [if_pos (by simp [hI.bool_eq hV])]
      refine Total.after (hI.ref_runs hV) ?_
      refine Total.bind ((hstep hall hV hInv).mono (fun _ _ h => h) fun e t hbad => ?_) ?_
      · obtain ⟨rest, hrest⟩ := hfirst
        exact ⟨x, by simp [hrest], hbad⟩
      rintro a' s' ⟨hgood, hV', hInv'⟩
      have hlen : count a' = done.length + 1 := by simpa using hcount hInv'
      refine Total.ite (fun hstop => ?_) fun hstop => ?_
      · -- the limit is reached: nothing else is gone over
        obtain ⟨n, rfl, hn⟩ : ∃ n, limit = some n ∧ n ≤ count a' := by
          cases limit with
          | none => simp at hstop
          | some n => exact ⟨n, rfl, by simpa using hstop⟩
        have hone : n - done.length = 1 := by
          have := hlimit n rfl
          omega
        refine Total.pure ⟨?_, ?_⟩
        · simpa [cutTo, hone] using hgood
        · simpa [cutTo, hone] using hInv'
      · obtain ⟨ni', s'', hn, hV'', hS⟩ := hI.next_runs hV'
        have hlimit' : ∀ n ∈ limit, (done ++ [x]).length < n := by
          rintro n rfl
          simpa [hlen] using hstop
        have hcut : cutTo (limit.map (· - done.length)) (x :: left) =
            x :: cutTo (limit.map (· - (done ++ [x]).length)) left := by
          cases limit with
          | none => rfl
          | some n =>
              have hlt : done.length + 1 < n := by simpa using hlimit' n rfl
              have hsub : n - done.length = n - (done.length + 1) + 1 := by omega
              simp [cutTo, hsub]
        refine Total.after hn (Total.pure ?_)
        refine (ih hlimit' (by simpa using hall) hV'' (hnext hInv' hS)).mono ?_ ?_
        · rintro p t ⟨hall', hend⟩
          rw [hcut]
          exact ⟨List.forall_mem_cons.2 ⟨hgood, hall'⟩, by simpa using hend⟩
        · rintro e t ⟨y, hy, hbad⟩
          rw [hcut]
          exact ⟨y, List.mem_cons_of_mem _ hy, hbad⟩

/-- **The loop of a result**, which ends at the first element that the body throws at. -/
theorem upTo_total (limit : Option ℕ) (count : α → ℕ) (hI : I.Tracks V S) (Good : τ → Prop)
    (Inv : List τ → α → Handler → Prop)
    (hcount : ∀ {done a s}, Inv done a s → count a = done.length)
    (hstep : ∀ {done x left ni a s}, done ++ x :: left = l → V ni s (x :: left) →
      Inv done a s → Total (f a x) s
        (fun a' s' => Good x ∧ V ni s' (x :: left) ∧ Inv (done ++ [x]) a' s') fun _ _ => ¬ Good x)
    (hnext : ∀ {done a s t}, Inv done a s → S s t → Inv done a t)
    (hlimit : ∀ n ∈ limit, 0 < n) (hV : V ni s l) (hInv : Inv [] a s) :
    Total (upTo I limit f count ni a) s
      (fun p t => (∀ x ∈ cutTo limit l, Good x) ∧ Inv (cutTo limit l) p.2 t)
      fun _ _ => ∃ x ∈ cutTo limit l, ¬ Good x := by
  have hlimit : ∀ n ∈ limit, ([] : List τ).length < n := hlimit
  have hsame : limit.map (· - ([] : List τ).length) = limit := by cases limit <;> rfl
  have h := upTo_total_from hI Good Inv hcount hstep hnext hlimit rfl hV hInv
  rw [hsame] at h
  exact h

/-- **The loop of a result** whose body returns at each element. -/
theorem upTo_runs (limit : Option ℕ) (count : α → ℕ) (hI : I.Tracks V S)
    (Inv : List τ → α → Handler → Prop)
    (hcount : ∀ {done a s}, Inv done a s → count a = done.length)
    (hstep : ∀ {done x left ni a s}, done ++ x :: left = l → V ni s (x :: left) →
      Inv done a s →
      ∃ a' s', Runs (f a x) s (.ret a' s') ∧ V ni s' (x :: left) ∧ Inv (done ++ [x]) a' s')
    (hnext : ∀ {done a s t}, Inv done a s → S s t → Inv done a t)
    (hlimit : ∀ n ∈ limit, 0 < n) (hV : V ni s l) (hInv : Inv [] a s) :
    ∃ ni' a' t, Runs (upTo I limit f count ni a) s (.ret (ni', a') t) ∧
      Inv (cutTo limit l) a' t := by
  have htotal := upTo_total limit count hI (fun _ => True) Inv hcount
    (fun hl hV hInv => by
      obtain ⟨a', s', hrun, hV', hInv'⟩ := hstep hl hV hInv
      exact .ret hrun ⟨trivial, hV', hInv'⟩) hnext hlimit hV hInv
  obtain ⟨⟨ni', a'⟩, t, hrun, -, hend⟩ := (htotal.mono (fun _ _ h => h) fun e t h => by
    obtain ⟨x, -, hx⟩ := h
    exact hx trivial).returns
  exact ⟨ni', a', t, hrun, hend⟩

end Loop

/-! ### Steady iterators -/

/-- Writing to the response does not disturb the view, and a step moves cached references
only. -/
structure Steady {ι τ : Type} (V : ι → Handler → List τ → Prop) (S : Handler → Handler → Prop) :
    Prop where
  respond : ∀ {i s l} (f : Response → Response), V i s l → V i (s.modifyResponse f) l
  moves : ∀ {s t}, S s t → ∃ c, t = { s with cachedNodes := c }

section Instances

variable [Platform]

theorem SearchIterator.steady : Steady SearchIterator.InView Eq where
  respond _ h := h
  moves := by
    rintro s t rfl
    exact ⟨s.cachedNodes, rfl⟩

theorem At.respond {k : ℤ} {past left : List NodeID} {s : Handler} (h : At k past left s)
    (f : Response → Response) : At k past left (s.modifyResponse f) := ⟨h.isOpen, h.view⟩

theorem MultiNeighborIteratorImpl.steady [Platform.Lawful] (k : ℤ) (l₀ : List NodeID) :
    Steady (MultiView k l₀) (OnlyMoved k) where
  respond := by
    rintro m s l f ⟨hconj, past, left, cur, hl, hat, hstart, hcur, hnil, rfl⟩
    refine ⟨hconj, past, left, cur, hl, hat.respond f, hstart, ?_, hnil, rfl⟩
    cases hi : m.neighbI with
    | none => simpa [OptView, hi] using hcur
    | some i =>
        rw [hi] at hcur
        exact SearchIterator.steady.respond f hcur
  moves := by
    rintro s t ⟨r, rfl⟩
    exact ⟨_, rfl⟩

/-- Moving cached references changes their table and nothing else. -/
theorem Does.moved {s t : Handler} (h : Does [.move] s t) :
    ∃ c, t = { s with cachedNodes := c } := by
  refine h.invariant (P := fun t => ∃ c, t = { s with cachedNodes := c }) ⟨_, rfl⟩ ?_
  rintro κ t u hκ he ⟨c, rfl⟩
  obtain rfl := List.mem_singleton.1 hκ
  cases he with
  | next => exact ⟨_, rfl⟩
  | reset => exact ⟨_, rfl⟩

theorem NodeEdgeIteratorImpl.steady [Platform.Lawful] :
    Steady NodeEdgeIteratorImpl.InView (Does [.move]) where
  respond := by
    rintro i s l f ⟨hs, c, rest, hc, hhead, hnil, hsrc, rfl⟩
    refine ⟨hs, c, rest, hc, hhead, hnil, ?_, rfl⟩
    rcases hsrc with h | ⟨k, past, here, hk, hat, hrest⟩
    · exact .inl h
    · exact .inr ⟨k, past, here, hk, hat.respond f, hrest⟩
  moves := Does.moved

omit [Platform] in
/-- A reusable iterator is as steady as what it pulls from. -/
theorem ReusableIterator.steady {ι τ : Type} {V : ι → Handler → List τ → Prop}
    {S : Handler → Handler → Prop} (h : Steady V S) (l : List τ) :
    Steady (fun r s left => ∃ past, View V r s past left ∧ past ++ left = l)
      (ReflTransGen S) where
  respond := by
    rintro r s left f ⟨past, ⟨hpast, m, hm, hleft, hnil⟩, hl⟩
    refine ⟨past, ⟨hpast, m, ?_, hleft, hnil⟩, hl⟩
    cases hi : r.ti with
    | none => simpa [OptView, hi] using hm
    | some i =>
        rw [hi] at hm
        exact h.respond f hm
  moves := by
    intro s t hst
    induction hst with
    | refl => exact ⟨s.cachedNodes, rfl⟩
    | tail _ hstep ih =>
        obtain ⟨c, rfl⟩ := ih
        obtain ⟨c', rfl⟩ := h.moves hstep
        exact ⟨c', rfl⟩

end Instances

end Vdms
