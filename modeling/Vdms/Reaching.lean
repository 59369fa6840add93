import Vdms.Footprints
import Vdms.OrSearch

/-!
# What an Iterator Can Reach

Over a graph that changes between its steps, what a lazy iterator yields is not a list that
is known beforehand. But whatever it yields it has found to match at some time: it points
at a node when it is made, and each node it moves on to matches its lookup and its tests
over the graph of the moment. So an iterator *reaches* the node it points at, and the nodes
it selects.

## Main results

* `SearchIterator.next_follows`: a step of an iterator.
* `evalNodes_begins`, `evalNeighbors_begins`: what a search reaches at its beginning.
-/

namespace Vdms

open Imp Imp.Prog Platform

/-! ### Graphs that shrink -/

namespace Graph

/-- There is such a node. -/
def Has (g : Graph) (n : NodeID) : Prop := (g.node n).isSome = true

/-- Every edge has its ends in the graph. -/
def Closed (g : Graph) : Prop :=
  ∀ e ed, g.edge e = some ed → g.Has ed.src ∧ g.Has ed.dst

/-- Whatever is in the first graph is in the second, unchanged. -/
structure Below (g g' : Graph) : Prop where
  node : ∀ n nd, g.node n = some nd → g'.node n = some nd
  edge : ∀ e ed, g.edge e = some ed → g'.edge e = some ed

variable {g g' g'' : Graph} {n : NodeID}

theorem Below.refl (g : Graph) : g.Below g := ⟨fun _ _ h => h, fun _ _ h => h⟩

theorem Below.trans (h : g.Below g') (h' : g'.Below g'') : g.Below g'' :=
  ⟨fun n nd hn => h'.node n nd (h.node n nd hn), fun e ed he => h'.edge e ed (h.edge e ed he)⟩

theorem Below.has (h : g.Below g') (hn : g.Has n) : g'.Has n := by
  obtain ⟨nd, hnd⟩ := Option.isSome_iff_exists.1 hn
  exact Option.isSome_iff_exists.2 ⟨nd, h.node n nd hnd⟩

/-- A node that is there has the same properties and the same tag. -/
theorem Below.same (h : g.Below g') (hn : g.Has n) :
    g'.props (.node n) = g.props (.node n) ∧ g'.tag (.node n) = g.tag (.node n) := by
  obtain ⟨nd, hnd⟩ := Option.isSome_iff_exists.1 hn
  simp [Graph.props, Graph.tag, hnd, h.node n nd hnd]

/-! Removing a node. -/


variable {m : NodeID}

theorem node_removeNode : (g.removeNode n).node m = if m = n then none else g.node m := by
  unfold Graph.removeNode Graph.node
  by_cases h : m = n
  · subst h
    by_cases hlt : m < g.nodes.length
    · simp [hlt]
    · simp [hlt]
  · simp [h, List.getElem?_set_ne (Ne.symm h)]

theorem edge_removeNode {e : EdgeID} {ed : Edge} :
    (g.removeNode n).edge e = some ed ↔ g.edge e = some ed ∧ ed.src ≠ n ∧ ed.dst ≠ n := by
  unfold Graph.removeNode Graph.edge
  rw [List.getElem?_map]
  cases h : g.edges[e]? with
  | none => simp
  | some x =>
      cases x with
      | none => simp
      | some ed' =>
          simp only [Option.map_some, Option.join_some, Option.filter_eq_some_iff,
            Option.some.injEq, decide_eq_true_eq]

theorem removeNode_below (g : Graph) (n : NodeID) : (g.removeNode n).Below g where
  node m nd h := by
    rw [node_removeNode] at h
    split at h
    · cases h
    · exact h
  edge e ed h := (edge_removeNode.1 h).1

theorem has_removeNode (h : g.Has m) (hne : m ≠ n) : (g.removeNode n).Has m := by
  rw [Graph.Has]
  rwa [node_removeNode, if_neg hne]

theorem Closed.removeNode (h : g.Closed) (n : NodeID) : (g.removeNode n).Closed := by
  intro e ed he
  obtain ⟨he, hsrc, hdst⟩ := edge_removeNode.1 he
  exact ⟨has_removeNode (h e ed he).1 hsrc, has_removeNode (h e ed he).2 hdst⟩

end Graph

/-- A lookup for nodes. -/
def Lookup.ForNodes : Lookup → Prop
  | .nodes _ _ | .neighbors _ _ _ _ _ => True
  | .edges _ _ | .nodeEdges _ _ _ => False

/-- The documented behaviour of PMGD's iterators: whatever the graph was when the iterator
was made, the element it moves on to matches the lookup over the graph of the moment. -/
class Platform.Fresh [Platform] : Prop where
  advance_matches (g : Graph) (q : Lookup) (past : List ℕ) (x : ℕ) :
    advance g q past = some x → q.matches g x = true

instance : Platform.Fresh where
  advance_matches g q past x h := by
    have hmem : x ∈ tableList g q := List.mem_of_getElem? h
    exact (List.mem_filter.1 hmem).2

section

variable [Platform]

theorem Lookup.has_of_matches {g : Graph} {q : Lookup} {n : NodeID} (hg : g.Closed)
    (hq : q.ForNodes) (h : q.matches g n = true) : g.Has n := by
  cases q with
  | nodes tag pp =>
      simp only [Lookup.matches, Lookup.matchesBy, Option.any_eq_true] at h
      obtain ⟨nd, hnd, -⟩ := h
      exact Option.isSome_iff_exists.2 ⟨nd, hnd⟩
  | neighbors m dir tag preds unique =>
      let e : SearchExpression := { tag := 0, isOr := false, edgePredicates := preds }
      obtain ⟨x, ed, hx, -, hconn, -⟩ :=
        (SearchExpression.matches_neighbors (e := e)).1 h
      obtain ⟨hsrc, hdst⟩ := hg x ed hx
      cases dir <;> simp [Direction.connects] at hconn
      · rcases hconn with ⟨-, rfl⟩ | ⟨-, rfl⟩
        · exact hdst
        · exact hsrc
      · rw [← hconn.2]
        exact hdst
      · rw [← hconn.2]
        exact hsrc
  | edges | nodeEdges => exact hq.elim

theorem Lookup.matches_mono {g g' : Graph} {q : Lookup} {n : NodeID} (hg : g.Below g')
    (hq : q.ForNodes) (h : q.matches g n = true) : q.matches g' n = true := by
  cases q with
  | nodes tag pp =>
      simp only [Lookup.matches, Lookup.matchesBy, Option.any_eq_true] at h ⊢
      obtain ⟨nd, hnd, hmatch⟩ := h
      exact ⟨nd, hg.node n nd hnd, hmatch⟩
  | neighbors m dir tag preds unique =>
      let e : SearchExpression := { tag := 0, isOr := false, edgePredicates := preds }
      obtain ⟨x, ed, hx, hrest⟩ :=
        (SearchExpression.matches_neighbors (e := e)).1 h
      exact (SearchExpression.matches_neighbors (e := e)).2
        ⟨x, ed, hg.edge x ed hx, hrest⟩
  | edges | nodeEdges => exact hq.elim

/-! ### What an iterator selects -/

namespace SearchIterator

/-- The node an iterator points at. -/
def current : SearchIterator → Option NodeID
  | .and i => i.mNodeIt.cur
  | .or i => i.node

/-- A node over the graph that the iterator would stop at. -/
def Selects (g : Graph) : SearchIterator → NodeID → Prop
  | .and i, n => i.mNodeIt.lookup.matches g n = true ∧ i.accepts g n = true
  | .or i, n =>
      if i.neighbor then ∃ c, i.neighborIt = some c ∧ c.lookup.matches g n = true ∧
        i.passesAny g n = true
      else ∃ pp ∈ i.expr.nodePredicates, (Lookup.nodes i.expr.tag pp).matches g n = true

/-- What the iterator looks up are nodes. -/
def ForNodes : SearchIterator → Prop
  | .and i => i.mNodeIt.lookup.ForNodes
  | .or i => ∀ c, i.neighborIt = some c → c.lookup.ForNodes

/-- A node that the iterator points at or would stop at. -/
def Reaches (g : Graph) (i : SearchIterator) (n : NodeID) : Prop :=
  i.current = some n ∨ i.Selects g n

variable {g g' : Graph} {i i' : SearchIterator} {n : NodeID}

theorem Selects.has (hg : g.Closed) (hi : i.ForNodes) (h : i.Selects g n) : g.Has n := by
  cases i with
  | and i => exact Lookup.has_of_matches hg hi h.1
  | or i =>
      simp only [Selects] at h
      split at h
      · obtain ⟨c, hc, hmatch, -⟩ := h
        exact Lookup.has_of_matches hg (hi c hc) hmatch
      · obtain ⟨pp, -, hmatch⟩ := h
        exact Lookup.has_of_matches (q := .nodes i.expr.tag pp) hg trivial hmatch

theorem Selects.mono (hg : g.Below g') (hclosed : g.Closed) (hi : i.ForNodes)
    (h : i.Selects g n) : i.Selects g' n := by
  obtain ⟨hprops, htag⟩ := hg.same (h.has hclosed hi)
  cases i with
  | and i =>
      obtain ⟨hmatch, hacc⟩ := h
      refine ⟨Lookup.matches_mono hg hi hmatch, ?_⟩
      rw [NodeAndIteratorImpl.accepts] at hacc ⊢
      rwa [hprops, htag]
  | or i =>
      simp only [Selects] at h ⊢
      split at h
      next hnb =>
        obtain ⟨c, hc, hmatch, hpass⟩ := h
        rw [if_pos hnb]
        refine ⟨c, hc, Lookup.matches_mono hg (hi c hc) hmatch, ?_⟩
        rw [NodeOrIteratorImpl.passesAny] at hpass ⊢
        rwa [hprops]
      next hnb =>
        obtain ⟨pp, hpp, hmatch⟩ := h
        rw [if_neg hnb]
        exact ⟨pp, hpp, Lookup.matches_mono hg trivial hmatch⟩

/-- The iterator `i'` is for the same search as `i`, and points at a node that `i` reached
over the graph. -/
structure Follows (g : Graph) (i i' : SearchIterator) : Prop where
  selects : ∀ g' n, i'.Selects g' n ↔ i.Selects g' n
  forNodes : i.ForNodes → i'.ForNodes
  current : ∀ n, i'.current = some n → i.Reaches g n

end SearchIterator

/-! ### Steps -/

section Steps

variable {s : Handler}

theorem call_reads (c : Call) : Reads (call c) s fun _ => True :=
  Sat.mono (call_readOnly c s) (fun _ _ h => ⟨h.eq, trivial⟩) fun _ _ _ => trivial

omit [Platform] in
theorem get_reads : Reads (get : Handling Handler) s fun t => t = s :=
  Sat.get ⟨rfl, rfl⟩

theorem passFilter_reads (pp : PropertyPredicate) (x : Element) :
    Reads (passFilter pp x) s fun b => b = passes pp (s.db.props x) :=
  Reads.bind (call_reads _) fun _ _ => Reads.bind get_reads fun t ht => by
    subst ht
    exact Reads.pure rfl

theorem passAll_reads (x : Element) (pps : List PropertyPredicate) :
    Reads (passAll x pps) s fun b => b = pps.all fun pp => passes pp (s.db.props x) := by
  induction pps with
  | nil => exact Reads.pure rfl
  | cons pp pps ih =>
      refine Reads.bind (passFilter_reads pp x) fun b hb => Sat.ite (fun h => ?_) fun h => ?_
      · refine Reads.mono ih fun b' hb' => ?_
        rw [hb', List.all_cons, ← hb, h, Bool.true_and]
      · refine Reads.pure ?_
        rw [List.all_cons, ← hb, Bool.eq_false_iff.2 h, Bool.false_and]

theorem passAny_reads (x : Element) (pps : List PropertyPredicate) :
    Reads (passAny x pps) s fun b => b = pps.any fun pp => passes pp (s.db.props x) := by
  induction pps with
  | nil => exact Reads.pure rfl
  | cons pp pps ih =>
      refine Reads.bind (passFilter_reads pp x) fun b hb => Sat.ite (fun h => ?_) fun h => ?_
      · refine Reads.pure ?_
        rw [List.any_cons, ← hb, h, Bool.true_or]
      · refine Reads.mono ih fun b' hb' => ?_
        rw [hb', List.any_cons, ← hb, Bool.eq_false_iff.2 h, Bool.false_or]

theorem candidate_reads (i : NodeAndIteratorImpl) (n : NodeID) :
    Reads (i.candidate n) s fun b => b = true → i.accepts s.db n = true := by
  refine Reads.bind get_reads fun t ht => ?_
  subst ht
  refine Sat.ite (fun _ => Reads.pure fun h => by cases h) fun h => ?_
  refine Reads.mono (passAll_reads _ _) fun b hb htrue => ?_
  rw [NodeAndIteratorImpl.accepts, decide_eq_false h, ← hb, htrue]
  rfl

/-- A cursor for the lookup, at a match. -/
def Cursor.AtMatch (c : Cursor) (q : Lookup) (g : Graph) : Prop :=
  c.lookup = q ∧ ∀ n, c.cur = some n → q.matches g n = true

variable [Platform.Fresh]

theorem scan_reads (q : Lookup) : Reads (scan q) s fun c => c.AtMatch q s.db :=
  Reads.bind (call_reads _) fun _ _ => Reads.bind get_reads fun t ht => by
    subst ht
    exact Reads.pure ⟨rfl, fun n hn => Platform.Fresh.advance_matches _ _ _ n hn⟩

theorem cursorNext_reads (c : Cursor) : Reads c.next s fun c' => c'.AtMatch c.lookup s.db := by
  refine Reads.bind (call_reads _) fun _ _ => Reads.bind get_reads fun t ht => ?_
  subst ht
  refine Reads.pure ?_
  cases hc : c.cur with
  | none =>
      rw [Cursor.step_of_none hc]
      exact ⟨rfl, fun n hn => by rw [hc] at hn; cases hn⟩
  | some x =>
      rw [Cursor.step_of_some hc]
      exact ⟨rfl, fun n hn => Platform.Fresh.advance_matches _ _ _ n hn⟩

/-- `_next` of a conjunctive iterator, from a cursor at a match, stops at a node that the
iterator selects. -/
theorem NodeAndIteratorImpl.findNext_reads (i : NodeAndIteratorImpl)
    (hi : i.mNodeIt.AtMatch i.mNodeIt.lookup s.db) :
    Reads i.findNext s fun i' => ∃ c : Cursor, i' = { i with mNodeIt := c } ∧
      c.lookup = i.mNodeIt.lookup ∧
      ∀ n, c.cur = some n → SearchIterator.Selects s.db (.and i) n := by
  refine Sat.loop (fun i' t => t = s ∧ ∃ c : Cursor, i' = { i with mNodeIt := c } ∧
    c.AtMatch i.mNodeIt.lookup s.db) ?_ ⟨rfl, i.mNodeIt, rfl, hi⟩
  rintro _ t ⟨rfl, c, rfl, hc⟩
  cases hn : c.cur with
  | none =>
      refine Sat.pure ⟨rfl, c, rfl, hc.1, fun n hn' => ?_⟩
      rw [hn] at hn'
      cases hn'
  | some n =>
      simp only
      refine Reads.bind (candidate_reads _ n) fun b hb => Sat.ite (fun h => ?_) fun _ => ?_
      · refine Sat.pure ⟨rfl, c, rfl, hc.1, fun m hm => ?_⟩
        rw [hn] at hm
        injection hm with hm
        subst hm
        exact ⟨hc.2 n hn, hb h⟩
      · refine Reads.bind (cursorNext_reads c) fun c' hc' => Sat.pure ⟨rfl, c', rfl, ?_⟩
        rwa [hc.1] at hc'

/-- `_next` of a disjunctive iterator over all nodes. -/
theorem NodeOrIteratorImpl.findNext_reads (i : NodeOrIteratorImpl) :
    Reads i.findNext s fun i' => ∃ idx node, i' = { i with idx := idx, node := node } ∧
      ∀ n, node = some n → i.node = some n ∨ ∃ pp ∈ i.expr.nodePredicates,
        (Lookup.nodes i.expr.tag pp).matches s.db n = true := by
  refine Sat.loop (fun i' t => t = s ∧ ∃ idx, i' = { i with idx := idx }) ?_
    ⟨rfl, i.idx, rfl⟩
  rintro _ t ⟨rfl, idx, rfl⟩
  cases hpp : i.expr.nodePredicates[idx]? with
  | none =>
      simp only
      exact Sat.pure ⟨rfl, idx, i.node, rfl, fun n hn => .inl hn⟩
  | some pp =>
      simp only
      refine Reads.bind (scan_reads _) fun c hc => ?_
      cases hn : c.cur with
      | none => exact Sat.pure ⟨rfl, idx + 1, rfl⟩
      | some n =>
          refine Sat.pure ⟨rfl, idx + 1, some n, rfl, fun m hm => .inr ?_⟩
          injection hm with hm
          subst hm
          exact ⟨pp, List.mem_of_getElem? hpp, hc.2 n hn⟩

omit [Platform.Fresh] in
/-- A scan that has nothing at its start has no match. -/
theorem scan_misses [Platform.Lawful] (q : Lookup) :
    Reads (scan q) s fun c => c.cur = none → ∀ n, q.matches s.db n ≠ true := by
  refine Reads.bind (call_reads _) fun _ _ => Reads.bind get_reads fun t ht => ?_
  subst ht
  refine Reads.pure fun hnone n hn => ?_
  have hcur := (Cursor.ahead_start t.db q).cur_eq.symm.trans hnone
  rw [List.head?_eq_none_iff] at hcur
  have hmem := mem_scanList.2 hn
  rw [hcur] at hmem
  cases hmem

/-- `_next` of a disjunctive iterator over all nodes finds a node, unless no predicate that
is left has one. -/
theorem NodeOrIteratorImpl.findNext_finds [Platform.Lawful] (i : NodeOrIteratorImpl) :
    Reads i.findNext s fun i' =>
      (∃ n, i'.node = some n ∧ ∃ pp ∈ i.expr.nodePredicates,
        (Lookup.nodes i.expr.tag pp).matches s.db n = true) ∨
      ∀ k pp, i.idx ≤ k → i.expr.nodePredicates[k]? = some pp →
        ∀ n, (Lookup.nodes i.expr.tag pp).matches s.db n ≠ true := by
  refine Sat.loop (fun i' t => t = s ∧ ∃ idx, i' = { i with idx := idx } ∧
    ∀ k pp, i.idx ≤ k → k < idx → i.expr.nodePredicates[k]? = some pp →
      ∀ n, (Lookup.nodes i.expr.tag pp).matches s.db n ≠ true) ?_
    ⟨rfl, i.idx, rfl, fun k pp hle hlt => by omega⟩
  rintro _ t ⟨rfl, idx, rfl, hpast⟩
  cases hpp : i.expr.nodePredicates[idx]? with
  | none =>
      simp only
      refine Sat.pure ⟨rfl, .inr fun k pp hle hk => hpast k pp hle ?_ hk⟩
      by_contra hlt
      rw [List.getElem?_eq_none_iff] at hpp
      rw [List.getElem?_eq_none (by omega)] at hk
      cases hk
  | some pp =>
      simp only
      refine Reads.bind (Reads.and (scan_reads _) (scan_misses _)) fun c hc => ?_
      obtain ⟨hc, hmiss⟩ := hc
      cases hn : c.cur with
      | some n =>
          exact Sat.pure ⟨rfl, .inl ⟨n, rfl, pp, List.mem_of_getElem? hpp, hc.2 n hn⟩⟩
      | none =>
          refine Sat.pure ⟨rfl, idx + 1, rfl, fun k pp' hle hlt hk => ?_⟩
          rcases Nat.lt_succ_iff_lt_or_eq.1 hlt with hlt | rfl
          · exact hpast k pp' hle hlt hk
          · rw [hpp] at hk
            injection hk with hk
            exact hk ▸ hmiss hn

/-- `_next` of a disjunctive iterator over neighbours, from a cursor at a match. -/
theorem NodeOrIteratorImpl.findNextNeighbor_reads (i : NodeOrIteratorImpl)
    (hi : ∀ c, i.neighborIt = some c → c.AtMatch c.lookup s.db) :
    Reads i.findNextNeighbor s fun i' => ∃ it node,
      i' = { i with neighborIt := it, node := node } ∧
      it.map Cursor.lookup = i.neighborIt.map Cursor.lookup ∧
      ∀ n, node = some n → i.node = some n ∨ ∃ c, it = some c ∧
        c.lookup.matches s.db n = true ∧ i.passesAny s.db n = true := by
  refine Sat.loop (fun i' t => t = s ∧ ∃ it, i' = { i with neighborIt := it } ∧
    it.map Cursor.lookup = i.neighborIt.map Cursor.lookup ∧
    ∀ c, it = some c → c.AtMatch c.lookup s.db) ?_ ⟨rfl, i.neighborIt, rfl, rfl, hi⟩
  rintro _ t ⟨rfl, it, rfl, hlook, hit⟩
  cases it with
  | none => exact Sat.pure ⟨rfl, none, i.node, rfl, hlook, fun n hn => .inl hn⟩
  | some c =>
      cases hn : c.cur with
      | none =>
          simp only [hn]
          exact Sat.pure ⟨rfl, some c, i.node, rfl, hlook, fun n hn => .inl hn⟩
      | some n =>
          simp only [hn]
          refine Reads.bind (passAny_reads _ _) fun b hb => Sat.ite (fun h => ?_) fun _ => ?_
          · refine Sat.pure ⟨rfl, some c, some n, rfl, hlook, fun m hm => .inr ?_⟩
            injection hm with hm
            subst hm
            exact ⟨c, rfl, (hit c rfl).2 n hn, hb.symm.trans h⟩
          · refine Reads.bind (cursorNext_reads c) fun c' hc' => Sat.pure ?_
            refine ⟨rfl, some c', rfl, ?_, fun c'' h => ?_⟩
            · rw [← hlook]
              simp [hc'.1]
            · injection h with h
              subst h
              exact ⟨rfl, fun m hm => by rw [hc'.1]; exact hc'.2 m hm⟩

namespace SearchIterator

omit [Platform.Fresh] in
theorem ref_reads (i : SearchIterator) :
    Reads (iter.ref i) s fun n => i.current = some n := by
  cases i with
  | and i =>
      change Reads i.ref s fun n => i.mNodeIt.cur = some n
      rw [NodeAndIteratorImpl.ref]
      cases i.mNodeIt.cur with
      | none => exact Sat.throw trivial
      | some n => exact Reads.pure rfl
  | or i =>
      change Reads i.ref s fun n => i.node = some n
      rw [NodeOrIteratorImpl.ref]
      cases i.node with
      | none => exact Sat.throw trivial
      | some n => exact Reads.pure rfl

omit [Platform.Fresh] in
theorem follows_and {g : Graph} {i : NodeAndIteratorImpl} {c : Cursor}
    (hc : c.lookup = i.mNodeIt.lookup)
    (hcur : ∀ n, c.cur = some n → Reaches g (.and i) n) :
    Follows g (.and i) (.and { i with mNodeIt := c }) where
  selects g' n := by
    simp only [Selects, hc]
    exact Iff.rfl
  forNodes hi := by rwa [ForNodes, hc]
  current := hcur

omit [Platform.Fresh] in
theorem follows_or {g : Graph} {i : NodeOrIteratorImpl} {idx : ℕ} {it : Option Cursor}
    {node : Option NodeID} (hit : it.map Cursor.lookup = i.neighborIt.map Cursor.lookup)
    (hcur : ∀ n, node = some n → Reaches g (.or i) n) :
    Follows g (.or i) (.or { i with idx := idx, neighborIt := it, node := node }) where
  selects g' n := by
    simp only [Selects, NodeOrIteratorImpl.passesAny]
    cases it with
    | none =>
        have hnone : i.neighborIt = none := by
          cases hi : i.neighborIt with
          | none => rfl
          | some c => simp [hi] at hit
        simp [hnone]
    | some c =>
        cases hi : i.neighborIt with
        | none => simp [hi] at hit
        | some c' =>
            have hlook : c.lookup = c'.lookup := by simpa [hi] using hit
            simp [hlook]
  forNodes hi c hc := by
    have hc : it = some c := hc
    rw [hc] at hit
    cases hi' : i.neighborIt with
    | none => simp [hi'] at hit
    | some c' =>
        have hlook : c.lookup = c'.lookup := by simpa [hi'] using hit
        rw [hlook]
        exact hi c' hi'
  current := hcur

/-- **A step of an iterator.** -/
theorem next_follows (i : SearchIterator) :
    Reads (iter.next i) s fun i' => i.Follows s.db i' := by
  cases i with
  | and i =>
      refine Reads.bind (m := i.next) ?_ fun i' h => Reads.pure h
      refine Reads.bind (cursorNext_reads _) fun c hc => ?_
      refine Reads.mono (NodeAndIteratorImpl.findNext_reads { i with mNodeIt := c }
        ⟨rfl, fun n hn => hc.1 ▸ hc.2 n hn⟩) fun i' hi' => ?_
      obtain ⟨c', rfl, hlook, hcur⟩ := hi'
      refine follows_and (hlook.trans hc.1) fun n hn => .inr ?_
      obtain ⟨hmatch, hacc⟩ := hcur n hn
      exact ⟨hc.1 ▸ hmatch, hacc⟩
  | or i =>
      refine Reads.bind (m := i.next) ?_ fun i' h => Reads.pure h
      refine Sat.ite (fun hnb => ?_) fun hnb => ?_
      · cases hit : i.neighborIt with
        | none =>
            refine Reads.mono (NodeOrIteratorImpl.findNextNeighbor_reads i fun c hc => ?_)
              fun i' hi' => ?_
            · rw [hit] at hc
              cases hc
            · obtain ⟨it, node, rfl, hlook, hcur⟩ := hi'
              refine follows_or hlook fun n hn => ?_
              rcases hcur n hn with hold | ⟨c, hc, -⟩
              · exact .inl hold
              · rw [hc, hit] at hlook
                cases hlook
        | some c =>
            refine Reads.bind (cursorNext_reads c) fun c' hc' => ?_
            refine Reads.mono (NodeOrIteratorImpl.findNextNeighbor_reads
              { i with neighborIt := some c' } fun c'' h => ?_) fun i' hi' => ?_
            · injection h with h
              subst h
              exact ⟨rfl, fun n hn => hc'.1 ▸ hc'.2 n hn⟩
            · obtain ⟨it, node, rfl, hlook, hcur⟩ := hi'
              have hlook : it.map Cursor.lookup = i.neighborIt.map Cursor.lookup := by
                rw [hlook, hit]
                simp [hc'.1]
              refine follows_or hlook fun n hn => ?_
              rcases hcur n hn with hold | ⟨c'', hc'', hmatch, hpass⟩
              · exact .inl hold
              · rw [hc'', hit] at hlook
                injection hlook with hlook
                refine .inr ?_
                rw [Selects, if_pos hnb]
                exact ⟨c, hit, hlook ▸ hmatch, hpass⟩
      · refine Reads.mono (NodeOrIteratorImpl.findNext_reads i) fun i' hi' => ?_
        obtain ⟨idx, node, rfl, hcur⟩ := hi'
        refine follows_or rfl fun n hn => ?_
        rcases hcur n hn with hold | hsome
        · exact .inl hold
        · refine .inr ?_
          rwa [Selects, if_neg hnb]

end SearchIterator

/-! ### The beginning of a search -/

namespace SearchExpression

/-- The nodes that a search over all nodes is for. -/
def Selects (e : SearchExpression) (g : Graph) (n : NodeID) : Prop :=
  if e.isOr then e.SatisfiesSome g n else e.Satisfies g n

/-- The nodes that a search among the neighbours of a node is for. -/
def SelectsNeighbor (e : SearchExpression) (g : Graph) (dir : Direction) (edgetag : StringID)
    (node n : NodeID) : Prop :=
  e.Neighbor g dir edgetag node n ∧
    if e.isOr then e.passesSome g n = true else e.acceptsNeighbor g n = true

/-- What a disjunctive search may point at before it has found anything. -/
def Garbage (e : SearchExpression) (n : NodeID) : Prop :=
  e.isOr = true ∧ uninitialised = some n

end SearchExpression

/-- An iterator at its beginning: it selects only nodes with the property `P`, and points at
one of them or at garbage. -/
structure SearchIterator.Begins (g : Graph) (i : SearchIterator) (P : Graph → NodeID → Prop)
    (G : NodeID → Prop) : Prop where
  forNodes : i.ForNodes
  selects : ∀ g' n, i.Selects g' n → P g' n
  current : ∀ n, i.current = some n → i.Selects g n ∨ G n

/-- A search over all nodes points at garbage only if it selects no node. -/
theorem evalNodes_begins [Platform.Lawful] (e : SearchExpression) :
    Reads e.evalNodes s fun i => i.Begins s.db e.Selects fun n =>
      e.Garbage n ∧ ∀ m, ¬ e.Selects s.db m := by
  refine Sat.ite (fun hor => ?_) fun hor => ?_
  · refine Reads.bind (Reads.and (NodeOrIteratorImpl.findNext_reads _)
      (NodeOrIteratorImpl.findNext_finds _)) fun i hi => Reads.pure ?_
    obtain ⟨⟨idx, node, rfl, hcur⟩, hfinds⟩ := hi
    have hsel : ∀ g n, (∃ pp ∈ e.nodePredicates, (Lookup.nodes e.tag pp).matches g n = true) →
        e.SatisfiesSome g n := fun g n ⟨pp, hpp, hmatch⟩ => by
      simp only [Lookup.matches, Lookup.matchesBy, Option.any_eq_true, Bool.and_eq_true]
        at hmatch
      obtain ⟨nd, hnd, htag, hpass⟩ := hmatch
      exact ⟨nd, hnd, htag, pp, hpp, hpass⟩
    refine ⟨fun c hc => (by cases hc), fun g' n hn => ?_, fun n hn => ?_⟩
    · rw [SearchExpression.Selects, if_pos hor]
      exact hsel g' n hn
    · rcases hfinds with ⟨n', hn', hsome⟩ | hnone
      · obtain rfl : n' = n := Option.some.inj (hn'.symm.trans hn)
        exact .inl hsome
      rcases hcur n hn with hold | hsome
      · refine .inr ⟨⟨hor, hold⟩, fun m hm => ?_⟩
        rw [SearchExpression.Selects, if_pos hor] at hm
        obtain ⟨nd, hnd, htag, pp, hpp, hpass⟩ := hm
        obtain ⟨k, hk⟩ := List.mem_iff_getElem?.1 hpp
        refine hnone k pp (Nat.zero_le k) hk m ?_
        simp [Lookup.matches, Lookup.matchesBy, hnd, htag, hpass]
      · exact .inl hsome
  · refine Reads.bind (Reads.bind (scan_reads _) fun c hc => ?_) fun i hi => Reads.pure hi
    refine Reads.mono (NodeAndIteratorImpl.findNext_reads _ ⟨rfl, fun n hn => ?_⟩) fun i hi => ?_
    · rw [hc.1]
      exact hc.2 n hn
    · obtain ⟨c', rfl, hsame, hcur⟩ := hi
      have hlook : c'.lookup = e.indexLookup := hsame.trans hc.1
      refine ⟨?_, fun g' n hn => ?_, fun n hn => ?_⟩
      · rw [SearchIterator.ForNodes, hlook]
        trivial
      · obtain ⟨hmatch, hacc⟩ := hn
        rw [SearchExpression.Selects, if_neg hor, ← SearchExpression.mem_matchList,
          SearchExpression.matchList, List.mem_filter, mem_scanList]
        refine ⟨hlook ▸ hmatch, ?_⟩
        simpa [NodeAndIteratorImpl.accepts] using hacc
      · obtain ⟨hmatch, hacc⟩ := hcur n hn
        exact .inl ⟨by rw [hsame]; exact hmatch, hacc⟩

theorem evalNeighbors_begins (e : SearchExpression) (node : NodeID) (dir : Direction)
    (edgetag : StringID) (unique : Bool) :
    Reads (e.evalNeighbors node dir edgetag unique) s fun i =>
      i.Begins s.db (fun g => e.SelectsNeighbor g dir edgetag node) e.Garbage := by
  refine Sat.ite (fun hor => ?_) fun hor => ?_
  · refine Reads.bind (Reads.bind (scan_reads _) fun c hc => ?_) fun i hi => Reads.pure hi
    refine Reads.mono (NodeOrIteratorImpl.findNextNeighbor_reads _ fun c' h => ?_) fun i hi => ?_
    · injection h with h
      subst h
      exact ⟨rfl, fun n hn => by rw [hc.1]; exact hc.2 n hn⟩
    · obtain ⟨it, node', rfl, hlook, hcur⟩ := hi
      obtain ⟨c', rfl⟩ : ∃ c', it = some c' := by
        cases it with
        | none => cases hlook
        | some c' => exact ⟨c', rfl⟩
      injection hlook with hlook
      have hlook : c'.lookup = .neighbors node dir edgetag e.edgePredicates unique :=
        hlook.trans hc.1
      refine ⟨fun c'' h => ?_, fun g' n hn => ?_, fun n hn => ?_⟩
      · injection h with h
        rw [← h, hlook]
        trivial
      · rw [SearchIterator.Selects, if_pos rfl] at hn
        obtain ⟨c'', h, hmatch, hpass⟩ := hn
        injection h with h
        rw [← h, hlook, SearchExpression.matches_neighbors] at hmatch
        refine ⟨hmatch, ?_⟩
        rw [if_pos hor]
        exact hpass
      · rcases hcur n hn with hold | ⟨c'', h, hmatch, hpass⟩
        · exact .inr ⟨hor, hold⟩
        · refine .inl ?_
          rw [SearchIterator.Selects, if_pos rfl]
          exact ⟨c'', h, hmatch, hpass⟩
  · refine Reads.bind (Reads.bind (scan_reads _) fun c hc => ?_) fun i hi => Reads.pure hi
    refine Reads.mono (NodeAndIteratorImpl.findNext_reads _ ⟨rfl, fun n hn => ?_⟩) fun i hi => ?_
    · rw [hc.1]
      exact hc.2 n hn
    · obtain ⟨c', rfl, hsame, hcur⟩ := hi
      have hlook : c'.lookup = .neighbors node dir edgetag e.edgePredicates unique :=
        hsame.trans hc.1
      refine ⟨?_, fun g' n hn => ?_, fun n hn => ?_⟩
      · rw [SearchIterator.ForNodes, hlook]
        trivial
      · obtain ⟨hmatch, hacc⟩ := hn
        rw [hlook, SearchExpression.matches_neighbors] at hmatch
        refine ⟨hmatch, ?_⟩
        rw [if_neg hor]
        simpa [NodeAndIteratorImpl.accepts, SearchExpression.acceptsNeighbor, tagMatches]
          using hacc
      · obtain ⟨hmatch, hacc⟩ := hcur n hn
        exact .inl ⟨by rw [hsame]; exact hmatch, hacc⟩

end Steps

end

end Vdms
