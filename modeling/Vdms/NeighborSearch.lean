import Vdms.Reusable

/-!
# Search among the Neighbours of a List

`MultiNeighborIteratorImpl` goes over a cached reference and, at each of its nodes, over
the neighbours of that node. It advances the reference as soon as it has started on the
neighbours of a node, skips nodes without neighbours, and drops its pointer to the
reference at the end.

## Main results

* `MultiNeighborIteratorImpl.new_runs`, `MultiNeighborIteratorImpl.tracks`: the iterator
  yields the concatenation, over the list of the reference, of the neighbours of each
  node; on the way it moves the reference and nothing else.
-/

namespace Vdms

open Imp Imp.Prog Platform Relation

variable [Platform] {s : Handler} {k : ℤ} {past left : List NodeID}

theorem At.cacheNode {r : ReusableNodeIterator} (h : At k past left s)
    (hr : NodeView s.db r past left) : At k past left (s.cacheNode k r) :=
  ⟨h.isOpen, r, Handler.cacheNode_same s k r, hr⟩

theorem OptView.cacheNode {ti : Option SearchIterator} {l : List NodeID}
    (h : OptView SearchIterator.InView ti s l) (r : ReusableNodeIterator) :
    OptView SearchIterator.InView ti (s.cacheNode k r) l := by
  cases ti with
  | none => exact h
  | some i => exact h

variable [Platform.Lawful]

/-- A reference is where it was in a state with the same transaction, the same nodes and
the same entry. -/
theorem At.of_eq {t : Handler} (h : At k past left s) (htx : t.txMode = s.txMode)
    (hdb : t.db.nodes = s.db.nodes) (hk : t.cachedNodes k = s.cachedNodes k) :
    At k past left t := by
  obtain ⟨r, hr, hview⟩ := h.view
  refine ⟨?_, r, hk.trans hr, hview.of_nodes_eq hdb.symm⟩
  rw [Handler.Open]
  rw [htx]
  exact h.isOpen

/-- The neighbours the iterator looks for at a node. -/
noncomputable def MultiNeighborIteratorImpl.neighbors (m : MultiNeighborIteratorImpl)
    (g : Graph) (n : NodeID) : List NodeID :=
  m.searchNeighbors.neighborList g m.dir m.edgeTag n

/-- The view of an iterator over the reference `k`, which denotes `l₀`: what it has ahead
is the rest of the neighbours of the current node and the neighbours of the nodes left.
If the current node has none left, it is the last. -/
structure MultiView (k : ℤ) (l₀ : List NodeID) (m : MultiNeighborIteratorImpl)
    (s : Handler) (l : List NodeID) : Prop where
  conj : m.searchNeighbors.isOr = false
  view : ∃ past left cur, past ++ left = l₀ ∧ At k past left s ∧
    (m.startNi = some k ∨ m.startNi = none ∧ left = []) ∧
    OptView SearchIterator.InView m.neighbI s cur ∧ (cur = [] → left = []) ∧
    l = cur ++ left.flatMap (m.neighbors s.db)

/-- Only the reference `k` has been moved. -/
def OnlyMoved (k : ℤ) (s t : Handler) : Prop := ∃ r, t = s.cacheNode k r

namespace MultiNeighborIteratorImpl

variable [Platform.Quiet]

/-- At a node of the reference, the iterator starts on its neighbours and moves the
reference past it. -/
theorem startOn_runs {m : MultiNeighborIteratorImpl} {n : NodeID}
    (hconj : m.searchNeighbors.isOr = false) (hat : At k past (n :: left) s) :
    ∃ i r, At k (past ++ [n]) left (s.cacheNode k r) ∧
      OptView SearchIterator.InView (some i) (s.cacheNode k r) (m.neighbors s.db n) ∧
      Runs (m.startOn k) s (.ret (if (m.neighbors s.db n).isEmpty then
        .inl { m with neighbI := some i } else .inr { m with neighbI := some i })
        (s.cacheNode k r)) := by
  obtain ⟨r, hk, hview⟩ := hat.view
  obtain ⟨i, heval, hahead⟩ :=
    SearchExpression.evalNeighbors_runs hat.isOpen hconj n m.dir m.edgeTag
  obtain ⟨r', hnext, hview'⟩ := nextCached_runs hat.isOpen hk hview
  refine ⟨i, r', ⟨hat.isOpen, r', Handler.cacheNode_same s k r', hview'⟩,
    ⟨hat.isOpen, hahead⟩, (cachedNode_runs hk).bind ?_⟩
  rw [hview.bool_eq]
  simp only [List.isEmpty_cons, Bool.not_false, if_true]
  refine (hview.ref_runs s).bind (heval.bind (hnext.bind (Runs.of_eq fun _ => ?_)))
  rw [hahead.bool_eq]
  rw [MultiNeighborIteratorImpl.neighbors]
  cases m.searchNeighbors.neighborList s.db m.dir m.edgeTag n with
  | nil => rfl
  | cons y ys => rfl

/-- `_next` skips the nodes without neighbours. Induction on the nodes left. -/
theorem findNext_runs {m : MultiNeighborIteratorImpl}
    (hconj : m.searchNeighbors.isOr = false) (hat : At k past left s)
    (hstart : m.startNi = some k ∨ m.startNi = none ∧ left = [])
    (hend : OptView SearchIterator.InView m.neighbI s []) :
    ∃ m' t, Runs m.findNext s (.ret m' t) ∧ OnlyMoved k s t ∧
      MultiView k (past ++ left) m' t (left.flatMap (m.neighbors s.db)) := by
  induction left generalizing m past s with
  | nil =>
      obtain ⟨r, hk, hview⟩ := hat.view
      have hmoved : OnlyMoved k s s := ⟨r, (Handler.cacheNode_eq_self hk).symm⟩
      rcases hstart with hstart | ⟨hstart, -⟩
      · refine ⟨{ m with startNi := none }, s, Runs.loop_stop ?_, hmoved, hconj,
          past, [], [], rfl, hat, .inr ⟨rfl, rfl⟩, hend, fun _ => rfl, rfl⟩
        simp only [hstart]
        refine (cachedNode_runs hk).bind (Runs.of_eq fun _ => ?_)
        simp [hview.bool_eq]
      · refine ⟨m, s, Runs.loop_stop (Runs.of_eq fun _ => ?_), hmoved, hconj,
          past, [], [], rfl, hat, .inr ⟨hstart, rfl⟩, hend, fun _ => rfl, rfl⟩
        simp [hstart]
  | cons n left ih =>
      have hstart : m.startNi = some k := by
        rcases hstart with h | ⟨-, h⟩
        · exact h
        · cases h
      obtain ⟨startNi, e, ti, dir, edgeTag⟩ := m
      simp only at hstart
      subst hstart
      obtain ⟨i, r, hat', hin, hrun⟩ := startOn_runs hconj hat
      cases hnb : e.neighborList s.db dir edgeTag n with
      | nil =>
          simp only [MultiNeighborIteratorImpl.neighbors, hnb, List.isEmpty_nil, if_true]
            at hin hrun
          obtain ⟨m', t, hloop, ⟨r', ht⟩, hmv⟩ := 
            ih (m := ⟨some k, e, some i, dir, edgeTag⟩) hconj hat' (.inl rfl) hin
          refine ⟨m', t, Runs.loop_step_ret hrun hloop, ⟨r', ?_⟩, ?_⟩
          · rw [ht, Handler.cacheNode_cacheNode]
          · rw [List.append_assoc, List.singleton_append] at hmv
            simp only [MultiNeighborIteratorImpl.neighbors, List.flatMap_cons, hnb,
              List.nil_append]
            exact hmv
      | cons y ys =>
          simp only [MultiNeighborIteratorImpl.neighbors, hnb, List.isEmpty_cons,
            Bool.false_eq_true, if_false] at hin hrun
          refine ⟨_, s.cacheNode k r, Runs.loop_stop hrun, ⟨r, rfl⟩, hconj, past ++ [n],
            left, y :: ys, by simp, hat', .inl rfl, hin, ?_, ?_⟩
          · intro h
            cases h
          · simp only [MultiNeighborIteratorImpl.neighbors, List.flatMap_cons, hnb]
            rfl

/-- The constructor moves to the first neighbour. -/
theorem new_runs {e : SearchExpression} {dir : Direction} {edgeTag : StringID}
    {l₀ : List NodeID} (he : e.isOr = false) (hk : Denotes k l₀ s) :
    ∃ m t, Runs (new k e dir edgeTag) s (.ret m t) ∧ OnlyMoved k s t ∧
      MultiView k l₀ m t (l₀.flatMap (e.neighborList s.db dir edgeTag)) :=
  findNext_runs (m := ⟨some k, e, none, dir, edgeTag⟩) he hk (.inl rfl) rfl

/-- **Neighbours of a list.** Driving the iterator yields what is in view and moves only
the reference. -/
theorem tracks (l₀ : List NodeID) : iter.Tracks (MultiView k l₀) (OnlyMoved k) where
  bool_eq := by
    rintro m s l ⟨-, past, left, cur, -, -, -, hcur, hnil, rfl⟩
    have hbool := (orNull_tracks SearchIterator.tracks).bool_eq hcur
    cases cur with
    | nil =>
        rw [hnil rfl]
        exact hbool
    | cons y ys => exact hbool
  ref_runs := by
    rintro m s x l ⟨-, past, left, cur, -, -, -, hcur, hnil, hl⟩
    cases cur with
    | nil =>
        rw [hnil rfl] at hl
        cases hl
    | cons y ys =>
        rw [List.cons_append] at hl
        injection hl with hx _
        subst hx
        exact (orNull_tracks SearchIterator.tracks).ref_runs hcur
  next_runs := by
    rintro m s x l ⟨hconj, past, left, cur, rfl, hat, hstart, hcur, hnil, hl⟩
    cases cur with
    | nil =>
        rw [hnil rfl] at hl
        cases hl
    | cons y ys =>
        rw [List.cons_append] at hl
        injection hl with hx hl
        subst hx hl
        obtain ⟨ti', s', hrun, hcur', rfl⟩ :=
          (orNull_tracks SearchIterator.tracks).next_runs hcur
        have hbool : m.bool = true := (orNull_tracks SearchIterator.tracks).bool_eq hcur
        have hnext : ∀ {o}, Runs (if (orNull SearchIterator.iter).bool ti' then
              pure { m with neighbI := ti' }
            else findNext { m with neighbI := ti' }) s o → Runs (m.next) s o := by
          intro o ho
          simp only [MultiNeighborIteratorImpl.next, hbool, if_true]
          exact hrun.bind ho
        rw [(orNull_tracks SearchIterator.tracks).bool_eq hcur'] at hnext
        cases ys with
        | nil =>
            obtain ⟨m', t, hfind, hmoved, hmv⟩ := findNext_runs
              (m := { m with neighbI := ti' }) hconj hat hstart hcur'
            exact ⟨m', t, hnext (by simpa using hfind), hmv, hmoved⟩
        | cons z zs =>
            obtain ⟨r, hk, -⟩ := hat.view
            refine ⟨{ m with neighbI := ti' }, s, hnext (Runs.of_eq fun _ => rfl),
              ⟨hconj, past, left, z :: zs, rfl, hat, hstart, hcur', fun h => (by cases h),
                rfl⟩, r, (Handler.cacheNode_eq_self hk).symm⟩

end MultiNeighborIteratorImpl

omit [Platform.Lawful] in
/-- A reset after any number of steps restores what the reference denotes. -/
theorem At.reset (h : At k past left s) :
    ∃ t, Runs (resetCached k) s (.ret () t) ∧ OnlyMoved k s t ∧ Denotes k (past ++ left) t := by
  obtain ⟨r, hk, hview⟩ := h.view
  exact ⟨_, resetCached_runs hk, ⟨r.reset, rfl⟩, h.isOpen, r.reset,
    Handler.cacheNode_same s k _, View.reset hview⟩

end Vdms
