import Vdms.SearchExpression

/-!
# Conjunctive Search

What `NodeAndIteratorImpl` enumerates: the matches of its underlying lookup, in the order
of that lookup, that pass the tests of `_next`. `SearchIterator.Ahead` is the view of a
search iterator over a graph, and it is only about the graph: it stays true whatever else
happens to the handler.

## Main results

* `evalNodes_runs`, `mem_matchList`: a conjunctive search over all nodes has exactly the
  tagged nodes that satisfy every predicate ahead, in the order of the index scan.
* `evalNeighbors_runs`: the same for the neighbours of a node.
* `SearchIterator.tracks`: driving the iterator yields what is in view.
* `SearchIterator.Ahead.of_nodes_eq`: a search over all nodes does not see the edges.
-/

namespace Vdms

open Imp Imp.Prog Platform

variable [Platform] {s : Handler}

/-! ### Cursors -/

section Cursor

variable [Platform.Quiet]

theorem scan_apply (hs : s.Open) (q : Lookup) (n : ℕ) :
    scan q n s = .ret (Cursor.start s.db q) s := by
  simp [scan, call_apply (c := .scan q) hs]

theorem Cursor.next_apply (hs : s.Open) (c : Cursor) (n : ℕ) :
    c.next n s = .ret (c.step s.db) s := by
  simp [Cursor.next, call_apply (c := .scan c.lookup) hs]

theorem passFilter_apply (hs : s.Open) (pp : PropertyPredicate) (x : Element) (n : ℕ) :
    passFilter pp x n s = .ret (passes pp (s.db.props x)) s := by
  simp [passFilter, call_apply (c := .filter pp x) hs]

theorem passAll_apply (hs : s.Open) (x : Element) (pps : List PropertyPredicate) (n : ℕ) :
    passAll x pps n s = .ret (pps.all fun pp => passes pp (s.db.props x)) s := by
  induction pps with
  | nil => rfl
  | cons pp pps ih =>
      simp only [passAll, bind_apply, passFilter_apply hs, Outcome.andThen_ret,
        List.all_cons]
      cases passes pp (s.db.props x) with
      | false => simp
      | true => simpa using ih

theorem passAny_apply (hs : s.Open) (x : Element) (pps : List PropertyPredicate) (n : ℕ) :
    passAny x pps n s = .ret (pps.any fun pp => passes pp (s.db.props x)) s := by
  induction pps with
  | nil => rfl
  | cons pp pps ih =>
      simp only [passAny, bind_apply, passFilter_apply hs, Outcome.andThen_ret,
        List.any_cons]
      cases passes pp (s.db.props x) with
      | false => simpa using ih
      | true => simp

end Cursor

/-- A scan for nodes looks the same over two graphs with the same nodes. -/
theorem Cursor.Ahead.of_nodes_eq [Platform.Lawful] {g g' : Graph} {c : Cursor} {l : List ℕ}
    {tag : StringID} {pp : PropertyPredicate} (h : c.Ahead g l)
    (hc : c.lookup = .nodes tag pp) (hg : g.nodes = g'.nodes) : c.Ahead g' l := by
  induction h with
  | nil hcur => exact .nil hcur
  | @cons c x l hcur _ ih =>
      have hstep : c.step g = c.step g' := by
        rw [Cursor.step_of_some hcur, Cursor.step_of_some hcur, hc,
          Platform.Lawful.scan_nodes g g' tag pp _ hg]
      refine .cons hcur ?_
      rw [← hstep]
      exact ih (by rw [Cursor.step_of_some hcur]; exact hc)

/-! ### Skipping to the first match -/

omit [Platform] in
/-- Skipping up to the first match loses no match. -/
theorem filter_dropWhile_not {τ : Type} (p : τ → Bool) (l : List τ) :
    (l.dropWhile fun x => !p x).filter p = l.filter p := by
  induction l with
  | nil => rfl
  | cons x l ih =>
      by_cases hx : p x = true
      · simp [hx]
      · simp [hx, ih]

omit [Platform] in
/-- Skipping ends at a match. -/
theorem head_dropWhile_not {τ : Type} (p : τ → Bool) (l : List τ) :
    ∀ x ∈ (l.dropWhile fun x => !p x).head?, p x = true := by
  intro x hx
  have hhead := List.head?_dropWhile_not (fun x => !p x) l
  rw [Option.mem_def.1 hx] at hhead
  simpa using hhead

omit [Platform] in
/-- A list that starts with a match has one exactly if it is not empty. -/
theorem isEmpty_filter_of_head {τ : Type} {p : τ → Bool} {l : List τ}
    (h : ∀ x ∈ l.head?, p x = true) : (l.filter p).isEmpty = l.isEmpty := by
  cases l with
  | nil => rfl
  | cons x l =>
      rw [List.filter_cons_of_pos (h x rfl)]
      rfl

/-! ### The tests of `_next` -/

namespace NodeAndIteratorImpl

/-- Whether `_next` stops at a node. -/
def accepts (i : NodeAndIteratorImpl) (g : Graph) (n : NodeID) : Bool :=
  !(i.neighbor ∧ i.expr.tag ≠ 0 ∧ g.tag (.node n) ≠ i.expr.tag : Bool) &&
    (i.expr.nodePredicates.drop i.startAt).all fun pp => passes pp (g.props (.node n))

theorem accepts_of_nodes_eq (i : NodeAndIteratorImpl) {g g' : Graph}
    (hg : g.nodes = g'.nodes) (n : NodeID) : i.accepts g n = i.accepts g' n := by
  have htag : g.tag (.node n) = g'.tag (.node n) := by
    simp only [Graph.tag, Graph.node, hg]
  have hprops : g.props (.node n) = g'.props (.node n) := by
    simp only [Graph.props, Graph.node, hg]
  unfold accepts
  rw [htag, hprops]

variable [Platform.Quiet]

theorem candidate_apply (hs : s.Open) (i : NodeAndIteratorImpl) (n : NodeID) (k : ℕ) :
    i.candidate n k s = .ret (i.accepts s.db n) s := by
  simp only [candidate, bind_apply, get_apply, Outcome.andThen_ret, accepts]
  by_cases h : i.neighbor ∧ i.expr.tag ≠ 0 ∧ s.db.tag (.node n) ≠ i.expr.tag
  · rw [if_pos h, pure_apply]
    simp [h]
  · rw [if_neg h, passAll_apply hs]
    simp only [h, decide_false, Bool.not_false, Bool.true_and]

/-- `_next` skips the nodes up to the first one it accepts. -/
theorem findNext_runs (hs : s.Open) {i : NodeAndIteratorImpl} {l : List NodeID}
    (h : i.mNodeIt.Ahead s.db l) : ∃ c : Cursor, c.lookup = i.mNodeIt.lookup ∧
      Runs i.findNext s (.ret { i with mNodeIt := c } s) ∧
      c.Ahead s.db (l.dropWhile fun n => !i.accepts s.db n) := by
  induction l generalizing i with
  | nil =>
      refine ⟨i.mNodeIt, rfl, Runs.loop_stop (Runs.of_eq fun k => ?_), h⟩
      have hcur : i.mNodeIt.cur = none := h.cur_eq
      simp only [hcur, pure_apply]
  | cons n l ih =>
      have hcur : i.mNodeIt.cur = some n := h.cur_eq
      by_cases hacc : i.accepts s.db n = true
      · refine ⟨i.mNodeIt, rfl, Runs.loop_stop (Runs.of_eq fun k => ?_), ?_⟩
        · simp [hcur, candidate_apply hs, hacc]
        · simpa [List.dropWhile_cons, hacc] using h
      · have hstep : ({ i with mNodeIt := i.mNodeIt.step s.db } :
            NodeAndIteratorImpl).mNodeIt.Ahead s.db l := h.step
        obtain ⟨c, hlook, hrun, hc⟩ := ih hstep
        refine ⟨c, ?_, Runs.loop_step_ret (Runs.of_eq fun k => ?_) hrun, ?_⟩
        · rw [hlook, Cursor.step_of_some hcur]
        · simp [hcur, candidate_apply hs, hacc, Cursor.next_apply hs]
        · rw [List.dropWhile_cons_of_pos (by simp [hacc])]
          exact hc

end NodeAndIteratorImpl

/-! ### The view of a search iterator -/

/-- Over the graph `g` the search iterator has exactly `l` ahead. A disjunctive search
has a finite list ahead only if it points at nothing. -/
inductive SearchIterator.Ahead (g : Graph) : SearchIterator → List NodeID → Prop
  | and {i : NodeAndIteratorImpl} {l : List NodeID} : i.mNodeIt.Ahead g l →
      (∀ n ∈ l.head?, i.accepts g n = true) → Ahead g (.and i) (l.filter (i.accepts g))
  | or {i : NodeOrIteratorImpl} : i.node = none → Ahead g (.or i) []

/-- The view of a search iterator within an open transaction. -/
def SearchIterator.InView (i : SearchIterator) (s : Handler) (l : List NodeID) : Prop :=
  s.Open ∧ i.Ahead s.db l

/-- A search over all nodes, as opposed to one over neighbours. -/
def SearchIterator.Scans : SearchIterator → Prop
  | .and i => ∃ tag pp, i.mNodeIt.lookup = .nodes tag pp
  | .or _ => True

namespace SearchIterator

theorem Ahead.of_nodes_eq [Platform.Lawful] {g g' : Graph} {i : SearchIterator}
    {l : List NodeID} (h : i.Ahead g l) (hi : i.Scans) (hg : g.nodes = g'.nodes) :
    i.Ahead g' l := by
  cases h with
  | @and i l hc hhead =>
      obtain ⟨tag, pp, hlook⟩ := hi
      have hacc : i.accepts g = i.accepts g' := funext (i.accepts_of_nodes_eq hg)
      rw [hacc] at hhead ⊢
      exact .and (hc.of_nodes_eq hlook hg) hhead
  | or hnode => exact .or hnode

/-- The list in view after `_next` from a list of candidates. -/
theorem ahead_dropWhile {g : Graph} {i : NodeAndIteratorImpl} {l : List NodeID}
    (h : i.mNodeIt.Ahead g (l.dropWhile fun n => !i.accepts g n)) :
    Ahead g (.and i) (l.filter (i.accepts g)) := by
  rw [← filter_dropWhile_not (i.accepts g)]
  exact .and h (head_dropWhile_not _ l)

theorem Ahead.bool_eq {g : Graph} {i : SearchIterator} {l : List NodeID}
    (h : i.Ahead g l) : iter.bool i = !l.isEmpty := by
  cases h with
  | @and i l hc hhead =>
      cases l with
      | nil => simp [iter, NodeAndIteratorImpl.bool, hc.cur_eq]
      | cons n l =>
          have hn := hhead n rfl
          simp [iter, NodeAndIteratorImpl.bool, hc.cur_eq, hn]
  | or hnode => simp [iter, NodeOrIteratorImpl.bool, hnode]

theorem Ahead.ref_runs {i : SearchIterator} {n : NodeID} {l : List NodeID}
    (h : i.Ahead s.db (n :: l)) : Runs (iter.ref i) s (.ret n s) := by
  generalize hl : n :: l = l' at h
  cases h with
  | @and i m hc hhead =>
      cases m with
      | nil => cases hl
      | cons a m =>
          have ha := hhead a rfl
          rw [List.filter_cons_of_pos ha] at hl
          injection hl with hn hl
          subst hn
          refine Runs.of_eq fun k => ?_
          simp [iter, NodeAndIteratorImpl.ref, hc.cur_eq]
  | or _ => cases hl

variable [Platform.Quiet]

/-- One step of a search takes the first element out of view. -/
theorem Ahead.next_runs (hs : s.Open) {i : SearchIterator} {n : NodeID} {l : List NodeID}
    (h : i.Ahead s.db (n :: l)) : ∃ i', Runs (iter.next i) s (.ret i' s) ∧
      i'.Ahead s.db l ∧ (i.Scans → i'.Scans) := by
  generalize hl : n :: l = l' at h
  cases h with
  | @and i m hc hhead =>
      cases m with
      | nil => cases hl
      | cons a m =>
          have ha := hhead a rfl
          rw [List.filter_cons_of_pos ha] at hl
          injection hl with _ hl
          have hstep : ({ i with mNodeIt := i.mNodeIt.step s.db } :
              NodeAndIteratorImpl).mNodeIt.Ahead s.db m := hc.step
          obtain ⟨c, hlook, hrun, hahead⟩ := NodeAndIteratorImpl.findNext_runs hs hstep
          refine ⟨.and { i with mNodeIt := c }, ?_, ?_, ?_⟩
          · refine Runs.bind (Runs.bind (Runs.of_eq fun k => Cursor.next_apply hs _ k) hrun) ?_
            exact Runs.of_eq fun k => rfl
          · rw [hl]
            exact ahead_dropWhile (i := { i with mNodeIt := c }) hahead
          · rintro ⟨tag, pp, hscan⟩
            refine ⟨tag, pp, ?_⟩
            rw [hlook, Cursor.step_of_some hc.cur_eq]
            exact hscan
  | or _ => cases hl

/-- **Search iterators.** Driving a search iterator yields what is in view, and leaves
the handler alone. -/
theorem tracks : Iter.Tracks iter InView Eq where
  bool_eq h := h.2.bool_eq
  ref_runs h := h.2.ref_runs
  next_runs := by
    rintro i s n l ⟨hs, h⟩
    obtain ⟨i', hrun, hahead, -⟩ := h.next_runs hs
    exact ⟨i', s, hrun, ⟨hs, hahead⟩, rfl⟩

end SearchIterator

/-! ### Search over all nodes -/

namespace SearchExpression

/-- The lookup that a conjunctive search hands to the index. -/
def indexLookup (e : SearchExpression) : Lookup :=
  .nodes e.tag (e.nodePredicates.head?.getD {})

/-- A node carries the tag and satisfies every predicate. -/
def Satisfies (e : SearchExpression) (g : Graph) (n : NodeID) : Prop :=
  ∃ nd, g.node n = some nd ∧ tagMatches e.tag nd.tag = true ∧
    ∀ pp ∈ e.nodePredicates, passes pp nd.props = true

variable [Platform.Lawful]

/-- The nodes a conjunctive search enumerates: the index scan of the first predicate,
filtered by the others. -/
noncomputable def matchList (e : SearchExpression) (g : Graph) : List NodeID :=
  (scanList g e.indexLookup).filter fun n =>
    (e.nodePredicates.drop 1).all fun pp => passes pp (g.props (.node n))

theorem mem_matchList {e : SearchExpression} {g : Graph} {n : NodeID} :
    n ∈ e.matchList g ↔ e.Satisfies g n := by
  rw [matchList, List.mem_filter, mem_scanList]
  simp only [indexLookup, Lookup.matches, Lookup.matchesBy, Option.any_eq_true,
    Bool.and_eq_true, List.all_eq_true, Satisfies]
  constructor
  · rintro ⟨⟨nd, hnd, htag, hfirst⟩, hrest⟩
    refine ⟨nd, hnd, htag, fun pp hpp => ?_⟩
    have hprops : g.props (.node n) = nd.props := by simp [Graph.props, hnd]
    cases hpps : e.nodePredicates with
    | nil => rw [hpps] at hpp; cases hpp
    | cons q qs =>
        rw [hpps] at hpp hfirst hrest
        rcases List.mem_cons.1 hpp with rfl | hq
        · exact hfirst
        · rw [← hprops]
          exact hrest pp hq
  · rintro ⟨nd, hnd, htag, hall⟩
    have hprops : g.props (.node n) = nd.props := by simp [Graph.props, hnd]
    refine ⟨⟨nd, hnd, htag, ?_⟩, fun pp hpp => ?_⟩
    · cases hpps : e.nodePredicates with
      | nil => exact Platform.Lawful.passes_default _
      | cons q qs => exact hall q (by simp [hpps])
    · rw [hprops]
      exact hall pp (List.mem_of_mem_drop hpp)

theorem matchList_nodup (e : SearchExpression) (g : Graph) : (e.matchList g).Nodup :=
  (scanList_nodup rfl).filter _

/-- A conjunctive search over all nodes starts with its matches ahead. -/
theorem evalNodes_runs [Platform.Quiet] (hs : s.Open) {e : SearchExpression}
    (he : e.isOr = false) : ∃ i, Runs e.evalNodes s (.ret i s) ∧
      i.Ahead s.db (e.matchList s.db) ∧ i.Scans := by
  let i₀ : NodeAndIteratorImpl :=
    { expr := e, mNodeIt := Cursor.start s.db e.indexLookup, startAt := 1, neighbor := false }
  have hstart : i₀.mNodeIt.Ahead s.db (scanList s.db e.indexLookup) :=
    Cursor.ahead_start s.db _
  obtain ⟨c, hlook, hrun, hahead⟩ := NodeAndIteratorImpl.findNext_runs hs hstart
  refine ⟨.and { i₀ with mNodeIt := c }, ?_, ?_, ⟨e.tag, _, hlook⟩⟩
  · simp only [evalNodes, he, Bool.false_eq_true, if_false]
    refine Runs.bind (Runs.bind (Runs.of_eq fun k => scan_apply hs _ k) hrun) ?_
    exact Runs.of_eq fun k => rfl
  · have hacc : ({ i₀ with mNodeIt := c } : NodeAndIteratorImpl).accepts s.db = fun n =>
        (e.nodePredicates.drop 1).all fun pp => passes pp (s.db.props (.node n)) := by
      funext n
      simp [NodeAndIteratorImpl.accepts, i₀]
    have := SearchIterator.ahead_dropWhile (i := { i₀ with mNodeIt := c }) hahead
    rwa [hacc] at this

/-! ### Search among neighbours -/

/-- A neighbour carries the tag and satisfies every node predicate. -/
def acceptsNeighbor (e : SearchExpression) (g : Graph) (n : NodeID) : Bool :=
  tagMatches e.tag (g.tag (.node n)) &&
    e.nodePredicates.all fun pp => passes pp (g.props (.node n))

/-- The neighbours a conjunctive search enumerates: those along matching edges, in the
order of the lookup, that carry the tag and satisfy every node predicate. -/
noncomputable def neighborList (e : SearchExpression) (g : Graph) (dir : Direction)
    (edgetag : StringID) (node : NodeID) : List NodeID :=
  (scanList g (.neighbors node dir edgetag e.edgePredicates true)).filter
    (e.acceptsNeighbor g)

/-- A node is reached along an edge with the tag that satisfies every edge predicate. -/
def Neighbor (e : SearchExpression) (g : Graph) (dir : Direction) (edgetag : StringID)
    (node n : NodeID) : Prop :=
  ∃ x ed, g.edge x = some ed ∧ tagMatches edgetag ed.tag = true ∧
    dir.connects node n ed = true ∧ ∀ pp ∈ e.edgePredicates, passes pp ed.props = true

omit [Platform.Lawful] in
theorem matches_neighbors {e : SearchExpression} {g : Graph} {dir : Direction}
    {edgetag : StringID} {node n : NodeID} {unique : Bool} :
    (Lookup.neighbors node dir edgetag e.edgePredicates unique).matches g n = true ↔
      e.Neighbor g dir edgetag node n := by
  simp only [Lookup.matches, Lookup.matchesBy, List.any_eq_true, Option.any_eq_true,
    Bool.and_eq_true, List.all_eq_true, Neighbor, Graph.edge]
  constructor
  · rintro ⟨e', he', ed, rfl, ⟨htag, hconn⟩, hall⟩
    obtain ⟨x, hx, hget⟩ := List.getElem_of_mem he'
    exact ⟨x, ed, by simp [List.getElem?_eq_getElem hx, hget], htag, hconn, hall⟩
  · rintro ⟨x, ed, hx, htag, hconn, hall⟩
    rw [Option.join_eq_some_iff] at hx
    exact ⟨some ed, List.mem_of_getElem? hx, ed, rfl, ⟨htag, hconn⟩, hall⟩

theorem mem_neighborList {e : SearchExpression} {g : Graph} {dir : Direction}
    {edgetag : StringID} {node n : NodeID} :
    n ∈ e.neighborList g dir edgetag node ↔
      e.Neighbor g dir edgetag node n ∧ e.acceptsNeighbor g n = true := by
  rw [neighborList, List.mem_filter, mem_scanList, matches_neighbors]

/-- A conjunctive search among neighbours starts with its matches ahead. -/
theorem evalNeighbors_runs [Platform.Quiet] (hs : s.Open) {e : SearchExpression}
    (he : e.isOr = false) (node : NodeID) (dir : Direction) (edgetag : StringID) :
    ∃ i, Runs (e.evalNeighbors node dir edgetag) s (.ret i s) ∧
      i.Ahead s.db (e.neighborList s.db dir edgetag node) := by
  let q : Lookup := .neighbors node dir edgetag e.edgePredicates true
  let i₀ : NodeAndIteratorImpl :=
    { expr := e, mNodeIt := Cursor.start s.db q, startAt := 0, neighbor := true }
  have hstart : i₀.mNodeIt.Ahead s.db (scanList s.db q) := Cursor.ahead_start s.db _
  obtain ⟨c, -, hrun, hahead⟩ := NodeAndIteratorImpl.findNext_runs hs hstart
  refine ⟨.and { i₀ with mNodeIt := c }, ?_, ?_⟩
  · simp only [evalNeighbors, he, Bool.false_eq_true, if_false]
    refine Runs.bind (Runs.bind (Runs.of_eq fun k => scan_apply hs _ k) hrun) ?_
    exact Runs.of_eq fun k => rfl
  · have hacc : ({ i₀ with mNodeIt := c } : NodeAndIteratorImpl).accepts s.db =
        e.acceptsNeighbor s.db := by
      funext n
      simp [NodeAndIteratorImpl.accepts, i₀, acceptsNeighbor, tagMatches]
    have := SearchIterator.ahead_dropWhile (i := { i₀ with mNodeIt := c }) hahead
    rwa [hacc] at this

end SearchExpression

end Vdms
