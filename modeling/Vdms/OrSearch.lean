import Vdms.AndSearch
import Vdms.TableScan

/-!
# Disjunctive Search

What `NodeOrIteratorImpl` does. It holds the node it points at in `_node`, which its
constructor does not initialise and which nothing ever sets back to `NULL`; its test is
`bool(_node)`. So once it has found a match, its test stays true, and a loop over it does
not end. This is no correct enumeration of anything, however many nodes match.

## Main results

* `or_search_iff`: a disjunctive search, over all nodes or among neighbours, enumerates
  the nodes it should exactly if there is nothing to find and the uninitialised pointer
  happens to be `NULL`. Among neighbours, "nothing to find" ignores the tag.
* `or_search_never_ends`: one matching node is enough for the search never to end.
-/

namespace Vdms

open Imp Imp.Prog Platform

section

variable [Platform] {s : Handler}

/-! ### The steps of the iterator -/

namespace NodeOrIteratorImpl

/-- What `_next` does to an iterator. It points at a node afterwards if it did before or
if there was something to find, and leaves `_node` alone otherwise. -/
structure Advances (i i' : NodeOrIteratorImpl) (found : Prop) : Prop where
  neighbor_eq : i'.neighbor = i.neighbor
  keeps : i.node.isSome = true → i'.node.isSome = true
  finds : found → i'.node.isSome = true
  stays : ¬ found → i'.node = i.node

/-- An iterator that points at a node, and among neighbours has a lookup to go on with. -/
structure Lasting (i : NodeOrIteratorImpl) (g : Graph) : Prop where
  node : i.node.isSome = true
  neighborIt : i.neighbor = true → ∃ c l, i.neighborIt = some c ∧ c.Ahead g l

variable [Platform.Lawful] [Platform.Quiet]

/-- `_next` over all nodes. Induction on the predicates left. -/
theorem findNext_runs (hs : s.Open) : ∀ (m : ℕ) (i : NodeOrIteratorImpl),
    m = i.expr.nodePredicates.length - i.idx → ∃ i', Runs i.findNext s (.ret i' s) ∧
      i.Advances i' (∃ pp ∈ i.expr.nodePredicates.drop i.idx,
        scanList s.db (.nodes i.expr.tag pp) ≠ []) := by
  intro m
  induction m with
  | zero =>
      intro i hm
      have hnone : i.expr.nodePredicates[i.idx]? = none := List.getElem?_eq_none (by omega)
      have hdrop : i.expr.nodePredicates.drop i.idx = [] := List.drop_eq_nil_of_le (by omega)
      refine ⟨i, Runs.loop_stop (Runs.of_eq fun k => ?_), rfl, id, ?_, fun _ => rfl⟩
      · simp [hnone]
      · rintro ⟨pp, hpp, -⟩
        rw [hdrop] at hpp
        cases hpp
  | succ m ih =>
      intro i hm
      have hlt : i.idx < i.expr.nodePredicates.length := by omega
      have hsome := List.getElem?_eq_getElem hlt
      have hdrop := List.drop_eq_getElem_cons hlt
      have hcur := (Cursor.ahead_start s.db
        (.nodes i.expr.tag i.expr.nodePredicates[i.idx])).cur_eq
      cases hl : scanList s.db (.nodes i.expr.tag i.expr.nodePredicates[i.idx]) with
      | nil =>
          rw [hl, List.head?_nil] at hcur
          obtain ⟨i', hrun, hadv⟩ := ih { i with idx := i.idx + 1 } (by simp only; omega)
          refine ⟨i', Runs.loop_step_ret (Runs.of_eq fun k => ?_) hrun,
            hadv.neighbor_eq, hadv.keeps, ?_, ?_⟩
          · simp [hsome, scan_apply hs, hcur]
          · rintro ⟨pp, hpp, hne⟩
            rw [hdrop] at hpp
            rcases List.mem_cons.1 hpp with rfl | hpp
            · exact absurd hl hne
            · exact hadv.finds ⟨pp, hpp, hne⟩
          · intro hnot
            refine hadv.stays fun hfound => hnot ?_
            obtain ⟨pp, hpp, hne⟩ := hfound
            rw [hdrop]
            exact ⟨pp, List.mem_cons_of_mem _ hpp, hne⟩
      | cons n l =>
          rw [hl, List.head?_cons] at hcur
          have hfound : ∃ pp ∈ i.expr.nodePredicates.drop i.idx,
              scanList s.db (.nodes i.expr.tag pp) ≠ [] := by
            refine ⟨i.expr.nodePredicates[i.idx], ?_, by rw [hl]; simp⟩
            rw [hdrop]
            exact List.mem_cons_self ..
          refine ⟨{ i with idx := i.idx + 1, node := some n },
            Runs.loop_stop (Runs.of_eq fun k => ?_), rfl, fun _ => rfl, fun _ => rfl,
            fun hnot => absurd hfound hnot⟩
          simp [hsome, scan_apply hs, hcur]

/-- Whether a neighbour passes one of the predicates. -/
def passesAny (i : NodeOrIteratorImpl) (g : Graph) (n : NodeID) : Bool :=
  i.expr.nodePredicates.any fun pp => passes pp (g.props (.node n))

omit [Platform.Lawful] in
/-- `_next_neighbor`. Induction on the neighbours left. -/
theorem findNextNeighbor_runs (hs : s.Open) {i : NodeOrIteratorImpl} {c : Cursor}
    {l : List NodeID} (hc : i.neighborIt = some c) (h : c.Ahead s.db l) :
    ∃ i', Runs i.findNextNeighbor s (.ret i' s) ∧
      i.Advances i' (∃ n ∈ l, i.passesAny s.db n = true) ∧
      ∃ c' l', i'.neighborIt = some c' ∧ c'.Ahead s.db l' := by
  induction l generalizing i c with
  | nil =>
      have hcur : c.cur = none := h.cur_eq
      refine ⟨i, Runs.loop_stop (Runs.of_eq fun k => ?_), ⟨rfl, id, ?_, fun _ => rfl⟩,
        c, [], hc, h⟩
      · simp [hc, hcur]
      · rintro ⟨n, hn, -⟩
        cases hn
  | cons n l ih =>
      have hcur : c.cur = some n := h.cur_eq
      by_cases hpass : i.passesAny s.db n = true
      · refine ⟨{ i with node := some n }, Runs.loop_stop (Runs.of_eq fun k => ?_),
          ⟨rfl, fun _ => rfl, fun _ => rfl, fun hnot => ?_⟩, c, n :: l, hc, h⟩
        · rw [passesAny] at hpass
          simp [hc, hcur, passAny_apply hs, hpass]
        · exact absurd ⟨n, List.mem_cons_self .., hpass⟩ hnot
      · obtain ⟨i', hrun, hadv, hit⟩ :=
          ih (i := { i with neighborIt := some (c.step s.db) }) rfl h.step
        refine ⟨i', Runs.loop_step_ret (Runs.of_eq fun k => ?_) hrun,
          ⟨hadv.neighbor_eq, hadv.keeps, ?_, ?_⟩, hit⟩
        · rw [passesAny, Bool.not_eq_true] at hpass
          simp [hc, hcur, passAny_apply hs, hpass, Cursor.next_apply hs]
        · rintro ⟨m, hm, hmp⟩
          rcases List.mem_cons.1 hm with rfl | hm
          · exact absurd hmp hpass
          · exact hadv.finds ⟨m, hm, hmp⟩
        · intro hnot
          refine hadv.stays fun hfound => hnot ?_
          obtain ⟨m, hm, hmp⟩ := hfound
          exact ⟨m, List.mem_cons_of_mem _ hm, hmp⟩

/-- Once the iterator points at a node, it always does. -/
theorem Lasting.next_runs (hs : s.Open) {i : NodeOrIteratorImpl} (h : i.Lasting s.db) :
    ∃ i', Runs i.next s (.ret i' s) ∧ i'.Lasting s.db := by
  cases hnb : i.neighbor with
  | true =>
      obtain ⟨c, l, hc, hahead⟩ := h.neighborIt hnb
      have hnext : ∃ l', (c.step s.db).Ahead s.db l' := by
        cases hahead with
        | nil hcur => exact ⟨[], by rw [Cursor.step_of_none hcur]; exact .nil hcur⟩
        | cons _ hl => exact ⟨_, hl⟩
      obtain ⟨l', hl'⟩ := hnext
      obtain ⟨i', hrun, hadv, hit⟩ := findNextNeighbor_runs hs
        (i := { i with neighborIt := some (c.step s.db) }) rfl hl'
      refine ⟨i', ?_, hadv.keeps h.node, fun _ => hit⟩
      simp only [NodeOrIteratorImpl.next, hnb, if_true, hc]
      rw [hnb] at hrun
      exact Runs.bind (Runs.of_eq fun k => Cursor.next_apply hs c k) hrun
  | false =>
      obtain ⟨i', hrun, hadv⟩ := findNext_runs hs _ i rfl
      refine ⟨i', ?_, hadv.keeps h.node, fun hnb' => ?_⟩
      · simpa [NodeOrIteratorImpl.next, hnb] using hrun
      · rw [hadv.neighbor_eq, hnb] at hnb'
        cases hnb'

end NodeOrIteratorImpl

/-! ### What a disjunctive search should enumerate -/

/-- Evaluating a search and driving its iterator ends, and yields exactly the nodes with
the property `P`, each once. -/
def Enumerates (m : Handling SearchIterator) (s : Handler) (P : NodeID → Prop) : Prop :=
  ∃ i l j t, Runs m s (.ret i s) ∧ Iter.Yields SearchIterator.iter i s l j t ∧ l.Nodup ∧
    ∀ n, n ∈ l ↔ P n

namespace SearchExpression

/-- A node carries the tag and satisfies one of the predicates. -/
def SatisfiesSome (e : SearchExpression) (g : Graph) (n : NodeID) : Prop :=
  ∃ nd, g.node n = some nd ∧ tagMatches e.tag nd.tag = true ∧
    ∃ pp ∈ e.nodePredicates, passes pp nd.props = true

/-- A neighbour satisfies one of the predicates, whatever its tag. -/
def passesSome (e : SearchExpression) (g : Graph) (n : NodeID) : Bool :=
  e.nodePredicates.any fun pp => passes pp (g.props (.node n))

end SearchExpression

variable [Platform.Lawful]

theorem exists_scan_iff {e : SearchExpression} {g : Graph} :
    (∃ pp ∈ e.nodePredicates, scanList g (.nodes e.tag pp) ≠ []) ↔
      ∃ n, e.SatisfiesSome g n := by
  constructor
  · rintro ⟨pp, hpp, hne⟩
    obtain ⟨n, hn⟩ := List.exists_mem_of_ne_nil _ hne
    rw [mem_scanList] at hn
    simp only [Lookup.matches, Lookup.matchesBy, Option.any_eq_true, Bool.and_eq_true] at hn
    obtain ⟨nd, hnd, htag, hpass⟩ := hn
    exact ⟨n, nd, hnd, htag, pp, hpp, hpass⟩
  · rintro ⟨n, nd, hnd, htag, pp, hpp, hpass⟩
    refine ⟨pp, hpp, List.ne_nil_of_mem (a := n) (mem_scanList.2 ?_)⟩
    simp [Lookup.matches, Lookup.matchesBy, hnd, htag, hpass]

variable [Platform.Quiet]

/-- A search that starts out pointing at a node, by a match or by accident, yields no
list. -/
theorem not_enumerates {m : Handling SearchIterator} {i : NodeOrIteratorImpl}
    {P : NodeID → Prop} (hs : s.Open) (hm : Runs m s (.ret (.or i) s))
    (hi : i.Lasting s.db) : ¬ Enumerates m s P := by
  rintro ⟨i', l, j, t, hrun, hy, -⟩
  have hi' := hm.unique hrun
  injection hi' with hi'
  subst hi'
  refine Iter.not_yields_of_invariant
    (fun i u => ∃ o : NodeOrIteratorImpl, i = .or o ∧ u = s ∧ o.Lasting s.db)
    ?_ ?_ ⟨i, rfl, rfl, hi⟩ hy
  · rintro _ u ⟨o, rfl, -, ho⟩
    exact ho.node
  · rintro _ u i' s' ⟨o, rfl, hu, ho⟩ hnext
    rw [hu] at hnext
    obtain ⟨o', hrun', ho'⟩ := ho.next_runs hs
    have hor : Runs (SearchIterator.iter.next (.or o)) s (.ret (.or o') s) :=
      Runs.bind hrun' (Runs.of_eq fun k => rfl)
    have heq := hnext.unique hor
    injection heq with h1 h2
    exact ⟨o', h1, h2, ho'⟩

/-- A search that starts out pointing at nothing enumerates what there is, if that is
nothing. -/
theorem enumerates_iff_of_advances {m : Handling SearchIterator}
    {i i' : NodeOrIteratorImpl} {found : Prop} {P : NodeID → Prop} (hs : s.Open)
    (hm : Runs m s (.ret (.or i') s)) (hadv : i.Advances i' found)
    (hnode : i.node = uninitialised)
    (hit : i'.neighbor = true → ∃ c l, i'.neighborIt = some c ∧ c.Ahead s.db l)
    (hP : (∃ n, P n) → found) :
    Enumerates m s P ↔ uninitialised = none ∧ ¬ found := by
  constructor
  · intro h
    by_cases hfound : found
    · exact absurd h (not_enumerates hs hm ⟨hadv.finds hfound, hit⟩)
    · refine ⟨?_, hfound⟩
      by_contra hne
      have hsome : i.node.isSome = true := by
        rw [hnode]
        exact Option.isSome_iff_ne_none.2 hne
      exact not_enumerates hs hm ⟨hadv.keeps hsome, hit⟩ h
  · rintro ⟨hnone, hnot⟩
    have hempty : i'.node = none := by rw [hadv.stays hnot, hnode, hnone]
    refine ⟨.or i', [], .or i', s, hm, .nil ?_, List.nodup_nil, fun n => ?_⟩
    · simp [SearchIterator.iter, NodeOrIteratorImpl.bool, hempty]
    · exact iff_of_false List.not_mem_nil fun hn => hnot (hP ⟨n, hn⟩)

/-- The constructor over all nodes. -/
theorem new_runs (hs : s.Open) (e : SearchExpression) :
    ∃ i i' : NodeOrIteratorImpl, Runs (NodeOrIteratorImpl.new e) s (.ret i' s) ∧
      i.Advances i' (∃ n, e.SatisfiesSome s.db n) ∧ i.node = uninitialised ∧
      i'.neighbor = false := by
  let i : NodeOrIteratorImpl :=
    { expr := e, node := uninitialised, idx := 0, neighbor := false, neighborIt := none }
  obtain ⟨i', hrun, hadv⟩ := NodeOrIteratorImpl.findNext_runs hs _ i rfl
  refine ⟨i, i', hrun, ?_, rfl, hadv.neighbor_eq⟩
  rwa [List.drop_zero, exists_scan_iff] at hadv

/-- The constructor over the neighbours of a node. -/
theorem newNeighbor_runs (hs : s.Open) (e : SearchExpression) (node : NodeID)
    (dir : Direction) (edgetag : StringID) (unique : Bool) :
    ∃ i i' : NodeOrIteratorImpl,
      Runs (NodeOrIteratorImpl.newNeighbor node dir edgetag unique e) s (.ret i' s) ∧
      i.Advances i' (∃ n, e.Neighbor s.db dir edgetag node n ∧ e.passesSome s.db n = true) ∧
      i.node = uninitialised ∧ ∃ c l, i'.neighborIt = some c ∧ c.Ahead s.db l := by
  let q : Lookup := .neighbors node dir edgetag e.edgePredicates unique
  let i : NodeOrIteratorImpl :=
    { expr := e, node := uninitialised, idx := 0, neighbor := true,
      neighborIt := some (Cursor.start s.db q) }
  obtain ⟨i', hrun, hadv, hit⟩ := NodeOrIteratorImpl.findNextNeighbor_runs (i := i) hs rfl
    (Cursor.ahead_start s.db q)
  have hmem : (∃ n ∈ scanList s.db q, e.passesSome s.db n = true) ↔
      ∃ n, e.Neighbor s.db dir edgetag node n ∧ e.passesSome s.db n = true := by
    simp only [q, mem_scanList, SearchExpression.matches_neighbors]
  refine ⟨i, i', Runs.bind (Runs.of_eq fun k => scan_apply hs q k) hrun, ?_, rfl, hit⟩
  rw [← hmem]
  exact hadv

/-- **Disjunctive search.** In its plain form it enumerates the tagged nodes that satisfy
one of the predicates exactly if there are none and the uninitialised pointer is `NULL`;
in its neighbour form it enumerates the tagged neighbours that satisfy one of the
predicates exactly if no neighbour of any tag does and the pointer is `NULL`. -/
theorem or_search_iff (hs : s.Open) {e : SearchExpression} (he : e.isOr = true) :
    (Enumerates e.evalNodes s (e.SatisfiesSome s.db) ↔
      uninitialised = none ∧ ¬ ∃ n, e.SatisfiesSome s.db n) ∧
    ∀ node dir edgetag unique,
      (Enumerates (e.evalNeighbors node dir edgetag unique) s (fun n =>
        e.Neighbor s.db dir edgetag node n ∧ tagMatches e.tag (s.db.tag (.node n)) = true ∧
          e.passesSome s.db n = true) ↔
        uninitialised = none ∧
          ¬ ∃ n, e.Neighbor s.db dir edgetag node n ∧ e.passesSome s.db n = true) := by
  constructor
  · obtain ⟨i, i', hrun, hadv, hnode, hnb⟩ := new_runs hs e
    refine enumerates_iff_of_advances hs ?_ hadv hnode (fun h => ?_) id
    · simp only [SearchExpression.evalNodes, he, if_true]
      exact Runs.bind hrun (Runs.of_eq fun k => rfl)
    · rw [hnb] at h
      cases h
  · intro node dir edgetag unique
    obtain ⟨i, i', hrun, hadv, hnode, hit⟩ :=
      newNeighbor_runs hs e node dir edgetag unique
    refine enumerates_iff_of_advances hs ?_ hadv hnode (fun _ => hit) ?_
    · simp only [SearchExpression.evalNeighbors, he, if_true]
      exact Runs.bind hrun (Runs.of_eq fun k => rfl)
    · rintro ⟨n, hn, -, hpass⟩
      exact ⟨n, hn, hpass⟩

end

/-- A node with one property. -/
def oneNodeGraph (tag key : StringID) (v : Property) : Graph where
  nodes := [some ⟨tag, fun k => if k = key then some v else none⟩]
  edges := []

/-- The disjunction of one predicate: key 2 has the value 5. -/
def fiveExpr : SearchExpression where
  tag := 1
  isOr := true
  nodePredicates := [{ id := 2, op := .eq, v1 := some (.integer 5) }]

theorem or_search_iff_nothing_to_find :
    Enumerates fiveExpr.evalNodes (Handler.inTransaction (oneNodeGraph 1 2 (.integer 4)))
      (fiveExpr.SatisfiesSome (oneNodeGraph 1 2 (.integer 4))) := by
  refine (or_search_iff (s := Handler.inTransaction (oneNodeGraph 1 2 (.integer 4)))
    rfl rfl).1.2 ⟨rfl, ?_⟩
  rintro ⟨n, nd, hnd, -, pp, hpp, hpass⟩
  rw [fiveExpr, List.mem_singleton] at hpp
  subst hpp
  cases n with
  | zero =>
      cases hnd
      exact absurd hpass (by decide)
  | succ n => cases hnd

/-- **One match is enough.** Over a graph whose only node carries the tag and satisfies
the only predicate, the search yields no list at all, because it never ends. -/
theorem or_search_never_ends :
    ¬ Enumerates fiveExpr.evalNodes (Handler.inTransaction (oneNodeGraph 1 2 (.integer 5)))
      (fiveExpr.SatisfiesSome (oneNodeGraph 1 2 (.integer 5))) := by
  have hs : (Handler.inTransaction (oneNodeGraph 1 2 (.integer 5))).Open := rfl
  obtain ⟨i, i', hrun, hadv, -, hnb⟩ := new_runs hs fiveExpr
  have hmatch : ∃ n, fiveExpr.SatisfiesSome (oneNodeGraph 1 2 (.integer 5)) n :=
    ⟨0, _, rfl, rfl, _, List.mem_singleton.2 rfl, by decide⟩
  refine not_enumerates (i := i') hs ?_ ⟨hadv.finds hmatch, fun h => ?_⟩
  · exact Runs.bind hrun (Runs.of_eq fun k => rfl)
  · rw [hnb] at h
    cases h

end Vdms
