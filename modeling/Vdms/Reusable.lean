import Vdms.AndSearch
import Vdms.PMGDIterators

/-!
# Reusable Iterators and Cached References

The view of a reusable iterator is a pair of lists: what it has passed and what it has
left, the second including what its lazy iterator has not been asked for yet. The
operations act on the view as they would on a list with a position: `next` moves one
element over, `reset` moves all of them back, `traverseAll` changes nothing.

A cached reference is a reusable iterator in the map of the handler. Its search is over
nodes only, so it denotes the same list over any graph with the same nodes.

## Main results

* `ReusableIterator.tracks`: a reusable iterator tracks its list if the iterator it is
  filled from tracks a list.
* `forCached_runs`: the rule for a loop over a cached reference.
* `NodeView.of_nodes_eq`: adding edges does not change what a reference denotes.
-/

namespace Vdms

open Imp Imp.Prog Platform Relation

/-! ### Views -/

section View

variable {ι τ ω : Type}

/-- The view of an iterator that may be `NULL`. -/
def OptView (V : ι → ω → List τ → Prop) : Option ι → ω → List τ → Prop
  | none, _, l => l = []
  | some i, w, l => V i w l

/-- The view of a reusable iterator: the elements passed and the elements left. If the
position is at the end of the list, there is nothing to pull any more. -/
def View (V : ι → ω → List τ → Prop) (r : ReusableIterator ι τ) (w : ω)
    (past left : List τ) : Prop :=
  r.passed = past ∧ ∃ m, OptView V r.ti w m ∧ left = r.rest ++ m ∧ (r.rest = [] → m = [])

/-- A position in a list: what is before it and what it has left, of whose end so many
elements have not been pulled yet. -/
structure LazyCursor (τ : Type) where
  past : List τ
  left : List τ
  ahead : ℕ

namespace LazyCursor

def elements (c : LazyCursor τ) : List τ := c.past ++ c.left

/-- One element on, which is pulled if it has not been. -/
def next (c : LazyCursor τ) : LazyCursor τ :=
  { past := c.past ++ c.left.take 1, left := c.left.drop 1
    ahead := min c.ahead (c.left.length - 2) }

def reset (c : LazyCursor τ) : LazyCursor τ := { c with past := [], left := c.elements }

def traverseAll (c : LazyCursor τ) : LazyCursor τ := { c with ahead := 0 }

/-- Behind the elements that have been pulled. A position at the end stays there. -/
def add (c : LazyCursor τ) (x : τ) : LazyCursor τ :=
  if c.left.isEmpty then { c with past := c.past ++ [x] }
  else { c with left := c.left.take (c.left.length - c.ahead) ++
    x :: c.left.drop (c.left.length - c.ahead) }

end LazyCursor

/-- A reusable iterator as a position in a list. -/
def Shows (V : ι → ω → List τ → Prop) (r : ReusableIterator ι τ) (w : ω)
    (c : LazyCursor τ) : Prop :=
  r.passed = c.past ∧ ∃ m, OptView V r.ti w m ∧ c.left = r.rest ++ m ∧
    (r.rest = [] → m = []) ∧ c.ahead = m.length

variable {V : ι → ω → List τ → Prop} {r : ReusableIterator ι τ} {w : ω} {x : τ}
  {past left : List τ}

/-- The view is the position, without what has been pulled. -/
theorem view_iff_shows : View V r w past left ↔ ∃ k, Shows V r w ⟨past, left, k⟩ := by
  constructor
  · rintro ⟨hpast, m, hV, hleft, hnil⟩
    exact ⟨m.length, hpast, m, hV, hleft, hnil, rfl⟩
  · rintro ⟨k, hpast, m, hV, hleft, hnil, -⟩
    exact ⟨hpast, m, hV, hleft, hnil⟩

theorem Shows.view {c : LazyCursor τ} (h : Shows V r w c) : View V r w c.past c.left :=
  view_iff_shows.2 ⟨c.ahead, h⟩

namespace View

theorem bool_eq (h : View V r w past left) : r.bool = !left.isEmpty := by
  obtain ⟨-, m, -, rfl, hm⟩ := h
  cases hrest : r.rest with
  | nil => simp [ReusableIterator.bool, hrest, hm hrest]
  | cons x xs => simp [ReusableIterator.bool, hrest]

/-- At the end of the view, the position is at the end of the list. -/
theorem rest_eq_nil (h : View V r w past []) : r.rest = [] := by
  obtain ⟨-, m, -, hl, -⟩ := h
  exact (List.append_eq_nil_iff.1 hl.symm).1

/-- The position is at the first element left. -/
theorem rest_eq_cons (h : View V r w past (x :: left)) : ∃ xs, r.rest = x :: xs := by
  obtain ⟨-, m, -, hl, hm⟩ := h
  cases hrest : r.rest with
  | nil =>
      rw [hrest, hm hrest] at hl
      cases hl
  | cons y ys =>
      rw [hrest, List.cons_append] at hl
      injection hl with hx _
      exact ⟨ys, by rw [hx]⟩

theorem ref_runs (h : View V r w past (x :: left)) (s : Handler) :
    Runs r.ref s (.ret x s) := by
  obtain ⟨xs, hrest⟩ := h.rest_eq_cons
  refine Runs.of_eq fun n => ?_
  simp [ReusableIterator.ref, hrest]

theorem reset (h : View V r w past left) : View V r.reset w [] (past ++ left) := by
  obtain ⟨rfl, m, hV, rfl, hm⟩ := h
  refine ⟨rfl, m, hV, ?_, fun hnil => ?_⟩
  · simp [ReusableIterator.reset, ReusableIterator.traversed]
  · have : r.passed = [] ∧ r.rest = [] := by
      simpa [ReusableIterator.reset, ReusableIterator.traversed] using hnil
    exact hm this.2

/-- A view that holds of what is left to pull holds of the whole. -/
theorem mono {ω' : Type} {V' : ι → ω' → List τ → Prop} {w' : ω'}
    (h : View V r w past left) (hV : ∀ i l, V i w l → V' i w' l) :
    View V' r w' past left := by
  obtain ⟨hp, m, hm, hl, hnil⟩ := h
  refine ⟨hp, m, ?_, hl, hnil⟩
  cases hti : r.ti with
  | none => rwa [hti] at hm
  | some i =>
      rw [hti] at hm
      exact hV i m hm

end View

end View

/-! ### Iterators over a tracked list -/

section Tracks

variable {ι τ : Type} {I : Iter Handler PMGDException ι τ} {V : ι → Handler → List τ → Prop}
  {S : Handler → Handler → Prop} {r : ReusableIterator ι τ} {s : Handler} {x : τ}
  {past left : List τ}

theorem orNull_tracks (h : I.Tracks V S) : (orNull I).Tracks (OptView V) S where
  bool_eq := by
    intro ti s l hV
    cases ti with
    | none =>
        subst hV
        rfl
    | some i => simpa [orNull] using h.bool_eq hV
  ref_runs := by
    intro ti s x l hV
    cases ti with
    | none => cases hV
    | some i => exact h.ref_runs hV
  next_runs := by
    intro ti s x l hV
    cases ti with
    | none => cases hV
    | some i =>
        obtain ⟨i', s', hrun, hV', hS⟩ := h.next_runs hV
        exact ⟨some i', s', hrun.bind (Runs.of_eq fun n => rfl), hV', hS⟩

/-- `next` moves one element from the left list to the past. -/
theorem Shows.next_runs (hI : I.Tracks V S) {k : ℕ} (h : Shows V r s ⟨past, x :: left, k⟩) :
    ∃ r' s', Runs (r.next I) s (.ret r' s') ∧
      Shows V r' s' (LazyCursor.next ⟨past, x :: left, k⟩) ∧ ReflTransGen S s s' := by
  obtain ⟨xs, hrest⟩ := h.view.rest_eq_cons
  obtain ⟨hpast, m, hV, hl, hm, hk⟩ := h
  simp only at hpast hl hk
  rw [hrest, List.cons_append] at hl
  injection hl with _ hl
  have hadv : r.advance = { r with passed := r.passed ++ [x], rest := xs } := by
    simp [ReusableIterator.advance, hrest]
  cases hxs : xs with
  | cons y ys =>
      refine ⟨r.advance, s, Runs.of_eq fun n => ?_, ?_, .refl⟩
      · simp [ReusableIterator.next, hadv, hxs]
      · rw [hadv]
        refine ⟨by simp [LazyCursor.next, hpast], m, hV, hl, fun hnil => by simp [hxs] at hnil, ?_⟩
        simp only [LazyCursor.next, hk, hl, hxs, List.length_cons, List.length_append]
        omega
  | nil =>
      rw [hxs, List.nil_append] at hl
      subst hl
      have hnext : r.next I = if (orNull I).bool r.ti then do
            let x ← (orNull I).ref r.ti
            let ti ← (orNull I).next r.ti
            pure { ti, passed := r.advance.passed, rest := [x] }
          else pure r.advance := by
        simp [ReusableIterator.next, hadv, hxs]
      cases left with
      | nil =>
          refine ⟨r.advance, s, Runs.of_eq fun n => ?_, ?_, .refl⟩
          · rw [hnext, (orNull_tracks hI).bool_eq hV]
            rfl
          · rw [hadv]
            exact ⟨by simp [LazyCursor.next, hpast], [], hV, by simp [LazyCursor.next, hxs],
              fun _ => rfl, by simp [LazyCursor.next, hk]⟩
      | cons y ys =>
          obtain ⟨ti', s', hrun, hV', hS⟩ := (orNull_tracks hI).next_runs hV
          have hlen : min k ((y :: ys).length + 1 - 2) = ys.length := by
            simp only [hk, List.length_cons]
            omega
          refine ⟨⟨ti', r.passed ++ [x], [y]⟩, s', ?_, ?_, .single hS⟩
          · rw [hnext, (orNull_tracks hI).bool_eq hV]
            simp only [List.isEmpty_cons, Bool.not_false, if_true]
            refine ((orNull_tracks hI).ref_runs hV).bind (hrun.bind (Runs.of_eq fun n => ?_))
            simp [hadv]
          · exact ⟨by simp [LazyCursor.next, hpast], ys, hV', rfl, (fun h => (by cases h)),
              hlen⟩

/-- The constructor pulls the first element. -/
theorem Shows.new_runs (hI : I.Tracks V S) {i : ι} {l : List τ} (h : V i s l) :
    ∃ r s', Runs (ReusableIterator.new I i) s (.ret r s') ∧
      Shows V r s' ⟨[], l, l.length - 1⟩ ∧ ReflTransGen S s s' := by
  have hV : OptView V (some i) s l := h
  cases l with
  | nil =>
      refine ⟨⟨some i, [], []⟩, s, Runs.of_eq fun n => ?_,
        ⟨rfl, [], hV, rfl, fun _ => rfl, rfl⟩, .refl⟩
      simp [ReusableIterator.new, ReusableIterator.next, ReusableIterator.advance,
        (orNull_tracks hI).bool_eq hV]
  | cons x l =>
      obtain ⟨ti', s', hrun, hV', hS⟩ := (orNull_tracks hI).next_runs hV
      refine ⟨⟨ti', [], [x]⟩, s', ?_, ⟨rfl, l, hV', rfl, (fun h => (by cases h)), rfl⟩,
        .single hS⟩
      simp only [ReusableIterator.new, ReusableIterator.next, ReusableIterator.advance,
        List.take_nil, List.drop_nil, List.isEmpty_nil, Bool.not_true, Bool.false_eq_true,
        if_false, (orNull_tracks hI).bool_eq hV, List.isEmpty_cons, Bool.not_false, if_true]
      exact ((orNull_tracks hI).ref_runs hV).bind (hrun.bind (Runs.of_eq fun n => rfl))

namespace View

theorem new_runs (hI : I.Tracks V S) {i : ι} {l : List τ} (h : V i s l) :
    ∃ r s', Runs (ReusableIterator.new I i) s (.ret r s') ∧ View V r s' [] l ∧
      ReflTransGen S s s' := by
  obtain ⟨r, s', hrun, h', hS⟩ := Shows.new_runs hI h
  exact ⟨r, s', hrun, h'.view, hS⟩

theorem next_runs (hI : I.Tracks V S) (h : View V r s past (x :: left)) :
    ∃ r' s', Runs (r.next I) s (.ret r' s') ∧ View V r' s' (past ++ [x]) left ∧
      ReflTransGen S s s' := by
  obtain ⟨k, h⟩ := view_iff_shows.1 h
  obtain ⟨r', s', hrun, h', hS⟩ := h.next_runs hI
  exact ⟨r', s', hrun, h'.view, hS⟩

/-- `next` at the end stays there. -/
theorem next_runs_end (hI : I.Tracks V S) (h : View V r s past []) :
    Runs (r.next I) s (.ret r s) := by
  have hrest := h.rest_eq_nil
  obtain ⟨-, m, hV, -, hm⟩ := h
  rw [hm hrest] at hV
  refine Runs.of_eq fun n => ?_
  have hadv : r.advance = r := by
    obtain ⟨ti, passed, rest⟩ := r
    simp only at hrest
    simp [ReusableIterator.advance, hrest]
  simp [ReusableIterator.next, hadv, hrest, (orNull_tracks hI).bool_eq hV]

/-- `traverseAll` pulls what is left; the view stays. -/
theorem traverseAll_runs (hI : I.Tracks V S) (h : View V r s past left) :
    ∃ r' s', Runs (r.traverseAll I) s (.ret r' s') ∧ r'.passed = past ∧ r'.rest = left ∧
      OptView V r'.ti s' [] ∧ ReflTransGen S s s' := by
  obtain ⟨rfl, m, hV, rfl, hm⟩ := h
  obtain ⟨ti', s', hy, hV', hS⟩ := (orNull_tracks hI).yields hV
  have hrun : Runs (r.traverseAll I) s (.ret { r.insert m with ti := ti' } s') := by
    refine (hy.collect []).bind (Runs.of_eq fun n => ?_)
    simp
  cases hrest : r.rest with
  | nil =>
      rw [hm hrest] at hrun
      refine ⟨_, s', hrun, ?_, ?_, hV', hS⟩
      · simp [ReusableIterator.insert, hrest]
      · simp [ReusableIterator.insert, hrest, hm hrest]
  | cons y ys =>
      refine ⟨_, s', hrun, ?_, ?_, hV', hS⟩
      · simp [ReusableIterator.insert, hrest]
      · simp [ReusableIterator.insert, hrest]

end View

/-- **Reusable iterators.** Gone over with `next`, a reusable iterator yields what it has
left, and the list as a whole stays `l`. -/
theorem ReusableIterator.tracks (hI : I.Tracks V S) (l : List τ) :
    (ReusableIterator.iter I).Tracks
      (fun r s left => ∃ past, View V r s past left ∧ past ++ left = l)
      (ReflTransGen S) where
  bool_eq := by
    rintro r s left ⟨past, h, -⟩
    exact h.bool_eq
  ref_runs := by
    rintro r s x left ⟨past, h, -⟩
    obtain ⟨xs, hrest⟩ := h.rest_eq_cons
    refine Runs.of_eq fun n => ?_
    simp [ReusableIterator.iter, ReusableIterator.ref, hrest]
  next_runs := by
    rintro r s x left ⟨past, h, rfl⟩
    obtain ⟨r', s', hrun, h', hS⟩ := h.next_runs hI
    exact ⟨r', s', hrun, ⟨past ++ [x], h', by simp⟩, hS⟩

end Tracks

theorem eq_of_reflTransGen_eq {σ : Type} {s t : σ} (h : ReflTransGen Eq s t) : s = t := by
  induction h with
  | refl => rfl
  | tail _ h ih => exact ih.trans h

/-! ### Cached references -/

variable [Platform]

/-- The view of a cached node reference over a graph. -/
def NodeView (g : Graph) (r : ReusableNodeIterator) (past left : List NodeID) : Prop :=
  View (fun (i : SearchIterator) g l => i.Ahead g l ∧ i.Scans) r g past left

/-- The reference `k` has passed `past` and has `left` before it. -/
structure At (k : ℤ) (past left : List NodeID) (s : Handler) : Prop where
  isOpen : s.Open
  view : ∃ r, s.cachedNodes k = some r ∧ NodeView s.db r past left

/-- The reference `k` denotes the list `l` and is at its beginning. -/
abbrev Denotes (k : ℤ) (l : List NodeID) (s : Handler) : Prop := At k [] l s

/-- What a reference denotes does not depend on the edges. -/
theorem NodeView.of_nodes_eq [Platform.Lawful] {g g' : Graph} {r : ReusableNodeIterator}
    {past left : List NodeID} (h : NodeView g r past left) (hg : g.nodes = g'.nodes) :
    NodeView g' r past left :=
  View.mono h fun _ _ hi => ⟨hi.1.of_nodes_eq hi.2 hg, hi.2⟩

/-- A reference to one element. -/
theorem NodeView.ofElement (g : Graph) (n : NodeID) :
    NodeView g (.ofElement n) [] [n] :=
  ⟨rfl, [], rfl, rfl, fun h => by cases h⟩

section Cached

variable [Platform.Quiet] {k : ℤ} {s : Handler} {r : ReusableNodeIterator} {n : NodeID}
  {past left : List NodeID}

theorem scans_tracks : SearchIterator.iter.Tracks
    (fun i s l => s.Open ∧ i.Ahead s.db l ∧ i.Scans) Eq where
  bool_eq h := h.2.1.bool_eq
  ref_runs h := h.2.1.ref_runs
  next_runs := by
    rintro i s n l ⟨hs, h, hscan⟩
    obtain ⟨i', hrun, hahead, hscan'⟩ := h.next_runs hs
    exact ⟨i', s, hrun, ⟨hs, hahead, hscan' hscan⟩, rfl⟩

/-- `next` of a cached reference reads the graph and nothing else. -/
theorem NodeView.next_runs (hs : s.Open) (h : NodeView s.db r past (n :: left)) :
    ∃ r', Runs (r.next SearchIterator.iter) s (.ret r' s) ∧
      NodeView s.db r' (past ++ [n]) left := by
  have hview : View (fun (i : SearchIterator) (s : Handler) l =>
      s.Open ∧ i.Ahead s.db l ∧ i.Scans) r s past (n :: left) :=
    View.mono h fun _ _ hi => ⟨hs, hi⟩
  obtain ⟨r', s', hrun, hview', hS⟩ := hview.next_runs scans_tracks
  obtain rfl := eq_of_reflTransGen_eq hS
  exact ⟨r', hrun, View.mono hview' fun _ _ hi => hi.2⟩

omit [Platform] [Platform.Quiet] in
theorem cachedNode_runs (hk : s.cachedNodes k = some r) :
    Runs (cachedNode k) s (.ret r s) :=
  Runs.of_eq fun _ => by simp [cachedNode, hk]

/-- Moving a cached reference changes its entry and nothing else. -/
theorem nextCached_runs (hs : s.Open) (hk : s.cachedNodes k = some r)
    (h : NodeView s.db r past (n :: left)) :
    ∃ r', Runs (nextCached k) s (.ret () (s.cacheNode k r')) ∧
      NodeView s.db r' (past ++ [n]) left := by
  obtain ⟨r', hrun, hview⟩ := h.next_runs hs
  exact ⟨r', (cachedNode_runs hk).bind
    (hrun.bind (Runs.of_eq fun _ => rfl)), hview⟩

omit [Platform] [Platform.Quiet] in
theorem resetCached_runs (hk : s.cachedNodes k = some r) :
    Runs (resetCached k) s (.ret () (s.cacheNode k r.reset)) :=
  (cachedNode_runs hk).bind (Runs.of_eq fun _ => rfl)

/-- One pass of a loop at a node of the reference. Wherever the body leaves the reference,
the pass moves it on from there. -/
theorem cachedPass_runs {α : Type} {f : α → NodeID → Handling α} {a a' : α} {t : Handler}
    {m : NodeID} {past' left' : List NodeID} (hat : At k past (n :: left) s)
    (hrun : Runs (f a n) s (.ret a' t)) (hat' : At k past' (m :: left') t) :
    ∃ r, Runs (cachedPass k f a) s (.ret (.inl a') (t.cacheNode k r)) ∧
      NodeView t.db r (past' ++ [m]) left' := by
  obtain ⟨r, hk, hview⟩ := hat.view
  obtain ⟨r', hk', hview'⟩ := hat'.view
  obtain ⟨r'', hnext, hview''⟩ := nextCached_runs hat'.isOpen hk' hview'
  refine ⟨r'', (cachedNode_runs hk).bind ?_, hview''⟩
  rw [hview.bool_eq]
  simp only [List.isEmpty_cons, Bool.not_false, if_true]
  exact (hview.ref_runs s).bind (hrun.bind (hnext.bind (Runs.of_eq fun _ => rfl)))

/-- **Loops over a cached reference.** The body may do anything that leaves the position
of the reference alone; `Inv` describes the state before each pass, with what is past and
what is left. -/
theorem forCached_runs {α : Type} {f : α → NodeID → Handling α}
    (Inv : List NodeID → List NodeID → α → Handler → Prop)
    (hat : ∀ {past left a s}, Inv past left a s → At k past left s)
    (hstep : ∀ {past n left a s}, Inv past (n :: left) a s →
      ∃ a' s', Runs (f a n) s (.ret a' s') ∧ At k past (n :: left) s' ∧
        ∀ r, NodeView s'.db r (past ++ [n]) left →
          Inv (past ++ [n]) left a' (s'.cacheNode k r))
    {a : α} (h : Inv past left a s) :
    ∃ a' s', Runs (forCached k f a) s (.ret a' s') ∧ Inv (past ++ left) [] a' s' := by
  induction left generalizing past a s with
  | nil =>
      obtain ⟨r, hk, hview⟩ := (hat h).view
      refine ⟨a, s, Runs.loop_stop ((cachedNode_runs hk).bind (Runs.of_eq fun _ => ?_)),
        by rwa [List.append_nil]⟩
      simp [hview.bool_eq]
  | cons n left ih =>
      obtain ⟨a', s', hrun, hat', hinv⟩ := hstep h
      obtain ⟨r, hpass, hview⟩ := cachedPass_runs (hat h) hrun hat'
      obtain ⟨a'', s'', hloop, hend⟩ := ih (hinv r hview)
      exact ⟨a'', s'', Runs.loop_step_ret hpass hloop, by simpa using hend⟩

end Cached

end Vdms
