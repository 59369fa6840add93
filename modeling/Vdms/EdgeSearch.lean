import Vdms.LinkedSearch
import Mathlib.Data.List.Count

/-!
# Search for Edges

`NodeEdgeIteratorImpl` goes over the nodes of a source reference and, at each of them,
over the edges with the tag, filtered by `check_predicates`. Its constructor looks at the
first node only: without an edge there it returns an iterator at its end. It also goes
over the destination reference, which is the source reference if the two are the same,
and looks at all edges if a reference has no entry or no node.

## Main results

* `NodeEdgeIteratorImpl.tracks`, `NodeEdgeIteratorImpl.new_runs`: what the iterator
  enumerates.
* `edge_search_iff`: exactly when these are the edges asked for.
-/

namespace Vdms

open Imp Imp.Prog Platform Relation

section

variable [Platform] {s t : Handler} {k : ℤ} {past here left : List NodeID}

namespace NodeEdgeIteratorImpl

/-- Whether `check_predicates` holds of an edge. -/
def accepts (i : NodeEdgeIteratorImpl) (g : Graph) (e : EdgeID) : Bool :=
  (i.expr.nodePredicates.drop i.predStart).all (fun pp => passes pp (g.props (.edge e))) &&
    (!i.checkDest || (g.edge e).any fun ed => i.destNodes.contains ed.dst)

section

variable [Platform.Quiet]

theorem checkPredicates_apply (hs : s.Open) (i : NodeEdgeIteratorImpl) (e : EdgeID) (n : ℕ) :
    i.checkPredicates e n s = .ret (i.accepts s.db e) s := by
  simp only [checkPredicates, bind_apply, passAll_apply hs, Outcome.andThen_ret, accepts]
  cases (i.expr.nodePredicates.drop i.predStart).all fun pp =>
      passes pp (s.db.props (.edge e)) with
  | false => rfl
  | true => simp

/-- The inner loop skips the edges up to the first one it accepts. -/
theorem seek_runs (hs : s.Open) {i : NodeEdgeIteratorImpl} {l : List EdgeID}
    (h : i.edgeIt.Ahead s.db l) : ∃ c l', Runs i.seek s (.ret { i with edgeIt := c } s) ∧
      c.Ahead s.db l' ∧ l'.filter (i.accepts s.db) = l.filter (i.accepts s.db) ∧
      ∀ e ∈ l'.head?, i.accepts s.db e = true := by
  have hrun : ∃ c : Cursor, Runs i.seek s (.ret { i with edgeIt := c } s) ∧
      c.Ahead s.db (l.dropWhile fun e => !i.accepts s.db e) := by
    induction l generalizing i with
    | nil =>
        refine ⟨i.edgeIt, Runs.loop_stop (Runs.of_eq fun n => ?_), h⟩
        have hcur : i.edgeIt.cur = none := h.cur_eq
        simp only [hcur, pure_apply]
    | cons e l ih =>
        have hcur : i.edgeIt.cur = some e := h.cur_eq
        by_cases hacc : i.accepts s.db e = true
        · refine ⟨i.edgeIt, Runs.loop_stop (Runs.of_eq fun n => ?_), ?_⟩
          · simp [hcur, checkPredicates_apply hs, hacc]
          · simpa [List.dropWhile_cons, hacc] using h
        · have hstep : ({ i with edgeIt := i.edgeIt.step s.db } :
              NodeEdgeIteratorImpl).edgeIt.Ahead s.db l := h.step
          obtain ⟨c, hrun, hc⟩ := ih hstep
          refine ⟨c, Runs.loop_step_ret (Runs.of_eq fun n => ?_) hrun, ?_⟩
          · simp [hcur, checkPredicates_apply hs, hacc, Cursor.next_apply hs]
          · rw [List.dropWhile_cons_of_pos (by simp [hacc])]
            exact hc
  obtain ⟨c, hrun, hc⟩ := hrun
  exact ⟨c, _, hrun, hc, filter_dropWhile_not _ l, head_dropWhile_not _ l⟩

omit [Platform.Quiet] in
/-- An iterator that has skipped to the first match is at its end exactly if there is
none. -/
theorem cur_isSome {i : NodeEdgeIteratorImpl} {c : Cursor} {l : List EdgeID} {g : Graph}
    (hc : c.Ahead g l) (hhead : ∀ e ∈ l.head?, i.accepts g e = true) :
    c.cur.isSome = !(l.filter (i.accepts g)).isEmpty := by
  rw [hc.cur_eq, isEmpty_filter_of_head hhead]
  cases l with
  | nil => rfl
  | cons e l => rfl

end

variable [Platform.Lawful]

/-- The edges the iterator finds at a node. -/
noncomputable def edgesAt (i : NodeEdgeIteratorImpl) (g : Graph) (n : NodeID) :
    List EdgeID :=
  (scanList g (.nodeEdges n i.dir i.expr.tag)).filter (i.accepts g)

/-- The nodes whose edges the iterator has still to look at. While it is at the edges of
a node, its reference stands at this node. -/
def Sources (i : NodeEdgeIteratorImpl) (rest : List NodeID) (s : Handler) : Prop :=
  i.srcNi = none ∧ rest = [] ∨
    ∃ k past here, i.srcNi = some k ∧ At k past here s ∧ rest = here.tail

/-- The view of the iterator: the edges left at the current node, the first of which it
accepts, and the edges at the nodes left. -/
structure InView (i : NodeEdgeIteratorImpl) (s : Handler) (l : List EdgeID) : Prop where
  isOpen : s.Open
  view : ∃ c rest, i.edgeIt.Ahead s.db c ∧ (∀ e ∈ c.head?, i.accepts s.db e = true) ∧
    (c = [] → rest = []) ∧ i.Sources rest s ∧
    l = c.filter (i.accepts s.db) ++ rest.flatMap (i.edgesAt s.db)

omit [Platform.Lawful] in
/-- The sources do not depend on where in its edges the iterator is. -/
theorem Sources.of_srcNi {i i' : NodeEdgeIteratorImpl} {rest : List NodeID}
    (h : i.Sources rest s) (hi : i'.srcNi = i.srcNi) : i'.Sources rest s := by
  rw [Sources]
  rw [hi]
  exact h

variable [Platform.Quiet]

/-- One pass of the loop of `_next`: the reference moves on, and the iterator seeks the
first edge at the node it then stands at. -/
theorem moveOn_runs {i : NodeEdgeIteratorImpl} {n m : NodeID}
    (hat : At k past (n :: m :: left) s) : ∃ c r,
      Runs (i.moveOn k) s (.ret (if (i.edgesAt s.db m).isEmpty then .inl { i with edgeIt := c }
        else .inr { i with edgeIt := c }) (s.cacheNode k r)) ∧
      At k (past ++ [n]) (m :: left) (s.cacheNode k r) ∧
      ∃ l, c.Ahead s.db l ∧ l.filter (i.accepts s.db) = i.edgesAt s.db m ∧
        ∀ e ∈ l.head?, i.accepts s.db e = true := by
  obtain ⟨r, hk, hview⟩ := hat.view
  obtain ⟨r', hnext, hview'⟩ := nextCached_runs hat.isOpen hk hview
  let t := s.cacheNode k r'
  have hat' : At k (past ++ [n]) (m :: left) t :=
    ⟨hat.isOpen, r', Handler.cacheNode_same s k r', hview'⟩
  have hk' : t.cachedNodes k = some r' := Handler.cacheNode_same s k r'
  let q : Lookup := .nodeEdges m i.dir i.expr.tag
  have hstart : ({ i with edgeIt := Cursor.start t.db q } :
      NodeEdgeIteratorImpl).edgeIt.Ahead t.db (scanList t.db q) := Cursor.ahead_start t.db q
  obtain ⟨c, l, hseek, hc, hfilter, hhead⟩ := seek_runs hat'.isOpen hstart
  have hsome : c.cur.isSome = !(i.edgesAt s.db m).isEmpty := by
    rw [cur_isSome hc hhead, hfilter]
    rfl
  refine ⟨c, r', (cachedNode_runs hk).bind ?_, hat', l, hc, hfilter, hhead⟩
  rw [hview.bool_eq]
  simp only [List.isEmpty_cons, Bool.not_false, if_true]
  refine hnext.bind ((cachedNode_runs hk').bind ?_)
  rw [hview'.bool_eq]
  simp only [List.isEmpty_cons, Bool.not_false, if_true]
  refine (hview'.ref_runs t).bind (Runs.bind (Runs.of_eq fun b => scan_apply hat'.isOpen q b)
    (hseek.bind (Runs.of_eq fun b => ?_)))
  simp only [hsome]
  cases (i.edgesAt s.db m).isEmpty with
  | true => rfl
  | false => rfl

omit [Platform.Lawful] in
/-- The last pass: the reference comes to its end. -/
theorem moveOn_runs_end {i : NodeEdgeIteratorImpl} (hat : At k past here s)
    (hhere : here.tail = []) : ∃ r, Runs (i.moveOn k) s (.ret (.inr i) (s.cacheNode k r)) ∧
      ∃ past', At k past' [] (s.cacheNode k r) := by
  obtain ⟨r, hk, hview⟩ := hat.view
  cases here with
  | nil =>
      refine ⟨r, ?_, past, ?_⟩
      · rw [Handler.cacheNode_eq_self hk]
        exact (cachedNode_runs hk).bind (Runs.of_eq fun b => by simp [hview.bool_eq])
      · rw [Handler.cacheNode_eq_self hk]
        exact hat
  | cons n here =>
      simp only [List.tail_cons] at hhere
      subst hhere
      obtain ⟨r', hnext, hview'⟩ := nextCached_runs hat.isOpen hk hview
      have hk' : (s.cacheNode k r').cachedNodes k = some r' := Handler.cacheNode_same s k r'
      refine ⟨r', (cachedNode_runs hk).bind ?_, past ++ [n], hat.isOpen, r', hk', hview'⟩
      rw [hview.bool_eq]
      simp only [List.isEmpty_cons, Bool.not_false, if_true]
      exact hnext.bind ((cachedNode_runs hk').bind
        (Runs.of_eq fun b => by simp [hview'.bool_eq]))

/-- `_next` finds the edges at the nodes left. Induction on these. -/
theorem findNext_runs {i : NodeEdgeIteratorImpl} {rest : List NodeID} (hs : s.Open)
    (hsrc : i.Sources rest s) (hend : i.edgeIt.cur = none) :
    ∃ i' t, Runs i.findNext s (.ret i' t) ∧
      i'.InView t (rest.flatMap (i.edgesAt s.db)) := by
  rcases hsrc with ⟨hnone, rfl⟩ | ⟨k, past, here, hsome, hat, rfl⟩
  · refine ⟨i, s, Runs.loop_stop (Runs.of_eq fun b => by simp [hnone]), hs, [], [],
      .nil hend, by simp, fun _ => rfl, .inl ⟨hnone, rfl⟩, rfl⟩
  · obtain ⟨expr, srcNi, destNodes, predStart, dir, checkDest, edgeIt⟩ := i
    simp only at hsome hend
    subst hsome
    -- The induction keeps everything but the cursor and the position of the reference.
    generalize hrest : here.tail = rest
    induction rest generalizing past here s edgeIt with
    | nil =>
        obtain ⟨r, hrun, past', hat'⟩ := moveOn_runs_end
          (i := ⟨expr, some k, destNodes, predStart, dir, checkDest, edgeIt⟩) hat hrest
        exact ⟨_, _, Runs.loop_stop hrun, hs, [], [], .nil hend, by simp, fun _ => rfl,
          .inr ⟨k, past', [], rfl, hat', rfl⟩, rfl⟩
    | cons m left ih =>
        obtain ⟨n, rfl⟩ : ∃ n, here = n :: m :: left := by
          cases here with
          | nil => cases hrest
          | cons n here => exact ⟨n, by rw [← hrest]; rfl⟩
        obtain ⟨c, r, hrun, hat', l, hc, hfilter, hhead⟩ := moveOn_runs
          (i := ⟨expr, some k, destNodes, predStart, dir, checkDest, edgeIt⟩) hat
        rw [List.flatMap_cons, ← hfilter]
        rw [← hfilter, isEmpty_filter_of_head hhead] at hrun
        cases l with
        | nil =>
            obtain ⟨i', t, hloop, hview⟩ :=
              ih hat'.isOpen (past ++ [n]) (m :: left) hat' c hc.cur_eq rfl
            exact ⟨i', t, Runs.loop_step_ret hrun hloop, hview⟩
        | cons e l =>
            refine ⟨_, _, Runs.loop_stop hrun, hat'.isOpen, e :: l, left, hc, hhead, ?_,
              .inr ⟨k, _, _, rfl, hat', rfl⟩, rfl⟩
            intro h
            cases h

/-- `next` from the head of the edges at the current node. -/
theorem next_runs {i : NodeEdgeIteratorImpl} {e : EdgeID} {c : List EdgeID}
    {rest : List NodeID} (hs : s.Open) (hc : i.edgeIt.Ahead s.db (e :: c))
    (hsrc : i.Sources rest s) : ∃ i' t, Runs i.next s (.ret i' t) ∧
      i'.InView t (c.filter (i.accepts s.db) ++ rest.flatMap (i.edgesAt s.db)) := by
  have hstep : ({ i with edgeIt := i.edgeIt.step s.db } :
      NodeEdgeIteratorImpl).edgeIt.Ahead s.db c := hc.step
  obtain ⟨c', l, hseek, hc', hfilter, hhead⟩ := seek_runs hs hstep
  have hfilter : l.filter (i.accepts s.db) = c.filter (i.accepts s.db) := hfilter
  have hnext : ∀ {o}, Runs (if c'.cur.isSome then pure { i with edgeIt := c' }
      else findNext { i with edgeIt := c' }) s o → Runs i.next s o := fun ho =>
    Runs.bind (Runs.of_eq fun b => Cursor.next_apply hs i.edgeIt b) (hseek.bind ho)
  rw [hc'.cur_eq] at hnext
  rw [← hfilter]
  cases l with
  | nil =>
      obtain ⟨i', t, hfind, hview⟩ := findNext_runs (i := { i with edgeIt := c' }) hs
        (hsrc.of_srcNi rfl) hc'.cur_eq
      exact ⟨i', t, hnext (by simpa using hfind), hview⟩
  | cons e' l =>
      refine ⟨{ i with edgeIt := c' }, s, hnext (Runs.of_eq fun b => rfl), hs, e' :: l, rest, hc',
        hhead, ?_, hsrc.of_srcNi rfl, rfl⟩
      intro h
      cases h

/-- **Edges at several nodes.** Driving the iterator yields what is in view, and moves
references only. -/
theorem tracks : iter.Tracks InView (Does [.move]) where
  bool_eq := by
    rintro i s l ⟨hs, c, rest, hc, hhead, hnil, -, rfl⟩
    change i.edgeIt.cur.isSome = _
    rw [cur_isSome hc hhead]
    cases c with
    | nil =>
        rw [hnil rfl]
        rfl
    | cons e c =>
        rw [List.filter_cons_of_pos (hhead e rfl)]
        rfl
  ref_runs := by
    rintro i s x l ⟨hs, c, rest, hc, hhead, hnil, -, hl⟩
    cases c with
    | nil =>
        rw [hnil rfl] at hl
        cases hl
    | cons e c =>
        rw [List.filter_cons_of_pos (hhead e rfl), List.cons_append] at hl
        injection hl with hx _
        subst hx
        exact Runs.of_eq fun b => by simp [iter, NodeEdgeIteratorImpl.ref, hc.cur_eq]
  next_runs := by
    rintro i s x l ⟨hs, c, rest, hc, hhead, hnil, hsrc, hl⟩
    cases c with
    | nil =>
        rw [hnil rfl] at hl
        cases hl
    | cons e c =>
        rw [List.filter_cons_of_pos (hhead e rfl), List.cons_append] at hl
        injection hl with _ hl
        obtain ⟨i', t, hrun, hview⟩ := next_runs hs hc hsrc
        rw [← hl] at hview
        exact ⟨i', t, hrun, hview, (next_footprint i s).does hrun⟩

/-- An iterator that starts at an edge, accepted or not. -/
theorem start_yields {i : NodeEdgeIteratorImpl} {e : EdgeID} {c : List EdgeID}
    {rest : List NodeID} (hs : s.Open) (hc : i.edgeIt.Ahead s.db (e :: c))
    (hsrc : i.Sources rest s) : ∃ i₁ t j u,
      Runs (do if ← i.checkPredicates e then pure i else i.next) s (.ret i₁ t) ∧
      Iter.Yields iter i₁ t
        ((e :: c).filter (i.accepts s.db) ++ rest.flatMap (i.edgesAt s.db)) j u := by
  have hcheck : Runs (i.checkPredicates e) s (.ret (i.accepts s.db e) s) :=
    Runs.of_eq fun b => checkPredicates_apply hs i e b
  by_cases hacc : i.accepts s.db e = true
  · have hview : i.InView s ((e :: c).filter (i.accepts s.db) ++ rest.flatMap (i.edgesAt s.db)) :=
      ⟨hs, e :: c, rest, hc, fun x hx => (by cases hx; exact hacc), fun h => (by cases h), hsrc,
        rfl⟩
    obtain ⟨j, u, hyields, -⟩ := tracks.yields hview
    exact ⟨i, s, j, u, hcheck.bind (Runs.of_eq fun b => by simp [hacc]), hyields⟩
  · obtain ⟨i', t, hrun, hview⟩ := next_runs hs hc hsrc
    obtain ⟨j, u, hyields, -⟩ := tracks.yields hview
    rw [List.filter_cons_of_neg hacc]
    exact ⟨i', t, j, u, hcheck.bind (by simpa [hacc] using hrun), hyields⟩

omit [Platform.Lawful] in
/-- Collecting the destinations takes their reference to its end. -/
theorem collectNodes_runs (hat : At k past here s) : ∃ t,
    Runs (collectNodes k) s (.ret here t) ∧ OnlyMoved k s t ∧ At k (past ++ here) [] t := by
  let Inv (past' left : List NodeID) (acc : List NodeID) (t : Handler) : Prop :=
    At k past' left t ∧ OnlyMoved k s t ∧ past' = past ++ acc
  obtain ⟨r, hr, -⟩ := hat.view
  have hstart : Inv past here [] s :=
    ⟨hat, ⟨r, (Handler.cacheNode_eq_self hr).symm⟩, by simp⟩
  have hstep : ∀ {past' n left acc t}, Inv past' (n :: left) acc t → ∃ acc' t',
      Runs (pure (acc ++ [n]) : Handling (List NodeID)) t (.ret acc' t') ∧
      At k past' (n :: left) t' ∧ ∀ r, NodeView t'.db r (past' ++ [n]) left →
        Inv (past' ++ [n]) left acc' (t'.cacheNode k r) := by
    rintro past' n left acc t ⟨hat', hmoved, rfl⟩
    refine ⟨acc ++ [n], t, Runs.of_eq fun b => rfl, hat', fun r hr =>
      ⟨⟨hat'.isOpen, r, Handler.cacheNode_same t k r, hr⟩, hmoved.trans ⟨r, rfl⟩, by simp⟩⟩
  obtain ⟨acc, t, hrun, hat', hmoved, hacc⟩ := forCached_runs Inv (fun h => h.1) hstep hstart
  obtain rfl := List.append_cancel_left hacc
  exact ⟨t, hrun, hmoved, hat'⟩

end NodeEdgeIteratorImpl

/-! ### The edges that are wanted -/

/-- An edge carries the tag, satisfies every predicate, and ends in one of the targets, if
there are any given. -/
def SearchExpression.wants (e : SearchExpression) (g : Graph)
    (targets : Option (List NodeID)) (x : EdgeID) : Bool :=
  (g.edge x).any fun ed => tagMatches e.tag ed.tag &&
    e.nodePredicates.all (fun pp => passes pp ed.props) &&
    targets.all fun nodes => nodes.contains ed.dst

variable [Platform.Lawful]

/-- The edges that are wanted, wherever they are. -/
noncomputable def SearchExpression.wantedEdges (e : SearchExpression) (g : Graph)
    (targets : Option (List NodeID)) : List EdgeID :=
  (scanList g (.edges e.tag (e.nodePredicates.head?.getD {}))).filter (e.wants g targets)

/-- The edges at a node that are wanted. -/
noncomputable def SearchExpression.wantedAt (e : SearchExpression) (g : Graph) (dir : Direction)
    (targets : Option (List NodeID)) (n : NodeID) : List EdgeID :=
  (scanList g (.nodeEdges n dir e.tag)).filter (e.wants g targets)

namespace NodeEdgeIteratorImpl

/-- The targets that the iterator checks for. -/
def Aims (i : NodeEdgeIteratorImpl) (targets : Option (List NodeID)) : Prop :=
  i.checkDest = false ∧ targets = none ∨ i.checkDest = true ∧ targets = some i.destNodes

variable {i : NodeEdgeIteratorImpl} {g : Graph} {targets : Option (List NodeID)}

omit [Platform.Lawful] in
/-- Of an edge with the tag the iterator accepts what is wanted. -/
theorem accepts_eq_wants {x : EdgeID} {ed : Edge} (haims : i.Aims targets)
    (hx : g.edge x = some ed) (htag : tagMatches i.expr.tag ed.tag = true)
    (hpreds : (i.expr.nodePredicates.drop i.predStart).all (fun pp => passes pp ed.props) =
      i.expr.nodePredicates.all fun pp => passes pp ed.props) :
    i.accepts g x = i.expr.wants g targets x := by
  have hprops : g.props (.edge x) = ed.props := by simp [Graph.props, hx]
  rw [accepts, SearchExpression.wants]
  rw [hprops, hpreds, hx, Option.any_some, Option.any_some, htag, Bool.true_and]
  rcases haims with ⟨hcheck, rfl⟩ | ⟨hcheck, rfl⟩
  · simp [hcheck]
  · simp [hcheck]

theorem edgesAt_eq_wantedAt (haims : i.Aims targets) (hstart : i.predStart = 0) (n : NodeID) :
    i.edgesAt g n = i.expr.wantedAt g i.dir targets n := by
  refine List.filter_congr fun x hx => ?_
  rw [mem_scanList] at hx
  simp only [Lookup.matches, Lookup.matchesBy, Option.any_eq_true, Bool.and_eq_true] at hx
  obtain ⟨ed, hed, htag, -⟩ := hx
  exact accepts_eq_wants haims hed htag (by rw [hstart, List.drop_zero])

/-- Whether or not the first predicate is checked again makes no difference: the lookup
has checked it. -/
theorem filter_eq_wantedEdges (haims : i.Aims targets) (hstart : i.predStart ≤ 1) :
    (scanList g (.edges i.expr.tag (i.expr.nodePredicates.head?.getD {}))).filter
      (i.accepts g) = i.expr.wantedEdges g targets := by
  refine List.filter_congr fun x hx => ?_
  rw [mem_scanList] at hx
  simp only [Lookup.matches, Lookup.matchesBy, Option.any_eq_true, Bool.and_eq_true] at hx
  obtain ⟨ed, hed, htag, hfirst⟩ := hx
  refine accepts_eq_wants haims hed htag ?_
  obtain hzero | hone : i.predStart = 0 ∨ i.predStart = 1 := by omega
  · rw [hzero, List.drop_zero]
  · rw [hone]
    cases hpps : i.expr.nodePredicates with
    | nil => rfl
    | cons pp pps =>
        rw [hpps] at hfirst
        have hfirst : passes pp ed.props = true := hfirst
        simp [hfirst]

/-- What is found by looking at all edges. -/
theorem ite_eq_wantedEdges (haims : i.Aims targets) (hstart : i.predStart ≤ 1) :
    (if scanList g (.edges i.expr.tag (i.expr.nodePredicates.head?.getD {})) = [] then []
      else (scanList g (.edges i.expr.tag (i.expr.nodePredicates.head?.getD {}))).filter
        (i.accepts g)) = i.expr.wantedEdges g targets := by
  rw [← filter_eq_wantedEdges haims hstart]
  by_cases h : scanList g (.edges i.expr.tag (i.expr.nodePredicates.head?.getD {})) = []
  · rw [if_pos h, h]
    rfl
  · rw [if_neg h]

end NodeEdgeIteratorImpl

/-! ### What the constructor finds -/

/-- What is found from a start list, when after its first node the nodes `rest` are left
to go over. -/
noncomputable def SearchExpression.foundFrom (e : SearchExpression) (g : Graph)
    (dir : Direction) (targets : Option (List NodeID)) (l rest : List NodeID) : List EdgeID :=
  match l with
  | [] => e.wantedEdges g targets
  | n :: _ =>
      if scanList g (.nodeEdges n dir e.tag) = [] then []
      else (n :: rest).flatMap (e.wantedAt g dir targets)

/-- What is found between a source and a destination, each with its key and its list. If
the two are the same, collecting the targets leaves nothing to go over. -/
noncomputable def SearchExpression.foundEdges (e : SearchExpression) (g : Graph) :
    Option (ℤ × List NodeID) → Option (ℤ × List NodeID) → List EdgeID
  | none, none => e.wantedEdges g none
  | none, some (_, dsts) => e.foundFrom g .incoming none dsts dsts.tail
  | some (_, srcs), none => e.foundFrom g .outgoing none srcs srcs.tail
  | some (k, srcs), some (k', dsts) =>
      e.foundFrom g .outgoing (some dsts) srcs (if k = k' then [] else srcs.tail)

namespace NodeEdgeIteratorImpl

variable [Platform.Quiet] {e : SearchExpression} {srcNi destNi : Option ℤ}

/-- The constructor, given what its first lookup is and what `addTargets` leaves. -/
theorem new_yields_of_start {q : Lookup} {i : NodeEdgeIteratorImpl} {rest : List NodeID}
    (hret : Runs (returnIterator e (srcNi.or destNi) (direction srcNi destNi)) s
      (.ret (Cursor.start s.db q) s))
    (hadd : Runs ((initial e srcNi destNi (Cursor.start s.db q)).addTargets
      (if srcNi.isNone then none else destNi)) s (.ret i t))
    (hi : i.edgeIt = Cursor.start s.db q) (ht : t.Open) (hdb : t.db = s.db)
    (hsrc : i.Sources rest t) : ∃ i₁ t₁ j u, Runs (new e srcNi destNi) s (.ret i₁ t₁) ∧
      Iter.Yields iter i₁ t₁ (if scanList s.db q = [] then [] else
        (scanList s.db q).filter (i.accepts s.db) ++ rest.flatMap (i.edgesAt s.db)) j u := by
  have hahead := Cursor.ahead_start s.db q
  cases hl : scanList s.db q with
  | nil =>
      rw [hl] at hahead
      have hcur : (Cursor.start s.db q).cur = none := hahead.cur_eq
      refine ⟨initial e srcNi destNi (Cursor.start s.db q), s, _, s, hret.bind ?_, .nil ?_⟩
      · simp only [hcur]
        exact Runs.of_eq fun b => rfl
      · change (Cursor.start s.db q).cur.isSome = false
        rw [hcur]
        rfl
  | cons x c =>
      rw [hl] at hahead
      have hcur : (Cursor.start s.db q).cur = some x := hahead.cur_eq
      have hahead' : i.edgeIt.Ahead t.db (x :: c) := by
        rw [hdb, hi]
        exact hahead
      obtain ⟨i₁, t₁, j, u, hrun, hyields⟩ := start_yields ht hahead' hsrc
      rw [hdb] at hyields
      refine ⟨i₁, t₁, j, u, hret.bind ?_, by simpa using hyields⟩
      simp only [hcur]
      exact hadd.bind hrun

/-- The iterator with its targets collected: it checks for them, and the nodes `rest` are
left to go over. -/
structure Targeted (i i₁ : NodeEdgeIteratorImpl) (targets : Option (List NodeID))
    (rest : List NodeID) (s t : Handler) : Prop where
  expr : i₁.expr = i.expr
  predStart : i₁.predStart = i.predStart
  dir : i₁.dir = i.dir
  edgeIt : i₁.edgeIt = i.edgeIt
  aims : i₁.Aims targets
  isOpen : t.Open
  db : t.db = s.db
  sources : i₁.Sources rest t

omit [Platform.Lawful] [Platform.Quiet] in
/-- Without a destination there is nothing to collect. -/
theorem addTargets_none {i : NodeEdgeIteratorImpl} {rest : List NodeID} (hs : s.Open)
    (hcheck : i.checkDest = false) (hsrc : i.Sources rest s) :
    Runs (i.addTargets none) s (.ret i s) ∧ i.Targeted i none rest s s :=
  ⟨Runs.of_eq fun _ => rfl, rfl, rfl, rfl, rfl, .inl ⟨hcheck, rfl⟩, hs, rfl, hsrc⟩

/-- Collecting the targets leaves another source alone, and takes the source to its end if
it is the destination. -/
theorem addTargets_some {i : NodeEdgeIteratorImpl} {k' : ℤ} {dsts srcs : List NodeID}
    (hi : i.srcNi = some k) (hsrc : Denotes k srcs s) (hdst : Denotes k' dsts s) :
    ∃ i₁ t, Runs (i.addTargets (some k')) s (.ret i₁ t) ∧
      i.Targeted i₁ (some dsts) (if k = k' then [] else srcs.tail) s t := by
  obtain ⟨t, hrun, ⟨r, rfl⟩, hat⟩ := collectNodes_runs hdst
  refine ⟨{ i with destNodes := dsts, checkDest := true }, s.cacheNode k' r,
    hrun.bind (Runs.of_eq fun _ => rfl), rfl, rfl, rfl, rfl, .inr ⟨rfl, rfl⟩, hat.isOpen, rfl, ?_⟩
  by_cases hk : k = k'
  · subst hk
    exact .inr ⟨k, _, [], hi, hat, by simp⟩
  · rw [if_neg hk]
    exact .inr ⟨k, [], srcs, hi, hsrc.of_eq rfl rfl (Handler.cacheNode_of_ne s r hk), rfl⟩

/-- The constructor with a start list. -/
theorem new_yields_of_list {l rest : List NodeID} {targets : Option (List NodeID)}
    (hk : Denotes k l s) (hover : srcNi.or destNi = some k) (hrest : l = [] → rest = [])
    (hadd : ∀ c, ∃ i₁ t, Runs ((initial e srcNi destNi c).addTargets
        (if srcNi.isNone then none else destNi)) s (.ret i₁ t) ∧
      (initial e srcNi destNi c).Targeted i₁ targets rest s t) :
    ∃ i t j u, Runs (new e srcNi destNi) s (.ret i t) ∧ Iter.Yields iter i t
      (e.foundFrom s.db (direction srcNi destNi) targets l rest) j u := by
  obtain ⟨r, hr, hview⟩ := hk.view
  have hzero : ∀ c, (initial e srcNi destNi c).predStart = 0 := by
    intro c
    refine if_neg ?_
    rintro ⟨h, h'⟩
    rw [Option.isNone_iff_eq_none] at h h'
    rw [h, h'] at hover
    cases hover
  have hreturn : ∀ {o}, Runs (if r.bool then do
        let n ← r.ref
        scan (.nodeEdges n (direction srcNi destNi) e.tag)
      else scan (.edges e.tag (e.nodePredicates.head?.getD {})) : Handling Cursor) s o →
      Runs (returnIterator e (srcNi.or destNi) (direction srcNi destNi)) s o := by
    intro o ho
    rw [hover]
    exact (cachedNode_runs hr).bind ho
  rw [hview.bool_eq] at hreturn
  cases l with
  | nil =>
      -- Without a node to start from the search falls back on all edges.
      let q : Lookup := .edges e.tag (e.nodePredicates.head?.getD {})
      have hret := hreturn (Runs.of_eq fun b => scan_apply hk.isOpen q b)
      obtain ⟨i₁, t, hrun, htgt⟩ := hadd (Cursor.start s.db q)
      obtain ⟨i, t', j, u, hnew, hyields⟩ := new_yields_of_start hret hrun htgt.edgeIt
        htgt.isOpen htgt.db htgt.sources
      refine ⟨i, t', j, u, hnew, ?_⟩
      have hall := ite_eq_wantedEdges (g := s.db) htgt.aims
        (by rw [htgt.predStart, hzero]; omega)
      have hexpr : i₁.expr = e := htgt.expr
      rw [hexpr] at hall
      rw [hrest rfl, List.flatMap_nil, List.append_nil, hall] at hyields
      exact hyields
  | cons n ns =>
      let q : Lookup := .nodeEdges n (direction srcNi destNi) e.tag
      have hret := hreturn ((hview.ref_runs s).bind
        (Runs.of_eq fun b => scan_apply hk.isOpen q b))
      obtain ⟨i₁, t, hrun, htgt⟩ := hadd (Cursor.start s.db q)
      obtain ⟨i, t', j, u, hnew, hyields⟩ := new_yields_of_start hret hrun htgt.edgeIt
        htgt.isOpen htgt.db htgt.sources
      refine ⟨i, t', j, u, hnew, ?_⟩
      have hexpr : i₁.expr = e := htgt.expr
      have hdir : i₁.dir = direction srcNi destNi := htgt.dir
      have hat : ∀ m, i₁.edgesAt s.db m =
          e.wantedAt s.db (direction srcNi destNi) targets m := by
        intro m
        rw [edgesAt_eq_wantedAt htgt.aims (htgt.predStart.trans (hzero _)), hexpr, hdir]
      have hfirst : (scanList s.db q).filter (i₁.accepts s.db) =
          e.wantedAt s.db (direction srcNi destNi) targets n := by
        rw [← hat n, edgesAt, hexpr, hdir]
      rw [hfirst, funext hat] at hyields
      rw [SearchExpression.foundFrom, List.flatMap_cons]
      exact hyields

/-- **What the constructor finds.** Driven from its constructor, the iterator yields the
edges found between its source and its destination. -/
theorem new_yields {src dst : Option (ℤ × List NodeID)} (hs : s.Open)
    (hsrc : ∀ p ∈ src, Denotes p.1 p.2 s) (hdst : ∀ p ∈ dst, Denotes p.1 p.2 s) :
    ∃ i t j u, Runs (new e (src.map Prod.fst) (dst.map Prod.fst)) s (.ret i t) ∧
      Iter.Yields iter i t (e.foundEdges s.db src dst) j u := by
  cases src with
  | none =>
      cases dst with
      | none =>
          let q : Lookup := .edges e.tag (e.nodePredicates.head?.getD {})
          have hret : Runs (returnIterator e none .outgoing) s (.ret (Cursor.start s.db q) s) :=
            Runs.of_eq fun b => scan_apply hs q b
          obtain ⟨hadd, htgt⟩ := addTargets_none
            (i := initial e none none (Cursor.start s.db q)) hs rfl (.inl ⟨rfl, rfl⟩)
          have hret' : Runs (returnIterator e (none.or none) (direction none none)) s
              (.ret (Cursor.start s.db q) s) := hret
          obtain ⟨i, t, j, u, hnew, hyields⟩ :=
            new_yields_of_start hret' hadd rfl hs rfl htgt.sources
          refine ⟨i, t, j, u, hnew, ?_⟩
          have hall : (if scanList s.db q = [] then [] else (scanList s.db q).filter
              ((initial e none none (Cursor.start s.db q)).accepts s.db)) =
              e.wantedEdges s.db none := ite_eq_wantedEdges htgt.aims le_rfl
          rw [List.flatMap_nil, List.append_nil, hall] at hyields
          exact hyields
      | some p =>
          obtain ⟨k, dsts⟩ := p
          have hk : Denotes k dsts s := hdst _ rfl
          refine new_yields_of_list hk rfl (fun h => by rw [h]; rfl) fun c => ?_
          exact ⟨_, s, addTargets_none hs rfl (.inr ⟨k, [], dsts, rfl, hk, rfl⟩)⟩
  | some p =>
      obtain ⟨k, srcs⟩ := p
      have hk : Denotes k srcs s := hsrc _ rfl
      cases dst with
      | none =>
          refine new_yields_of_list hk rfl (fun h => by rw [h]; rfl) fun c => ?_
          exact ⟨_, s, addTargets_none hs rfl (.inr ⟨k, [], srcs, rfl, hk, rfl⟩)⟩
      | some p' =>
          obtain ⟨k', dsts⟩ := p'
          refine new_yields_of_list hk rfl (fun h => by simp [h]) fun c => ?_
          exact addTargets_some rfl hk (hdst _ rfl)

end NodeEdgeIteratorImpl

/-! ### How often an edge is found -/

section Count

variable {e : SearchExpression} {g : Graph} {dir : Direction} {targets : Option (List NodeID)}
  {x : EdgeID} {n : NodeID}

/-- The node an edge is found at. -/
def Direction.startOf (dir : Direction) (ed : Edge) : NodeID :=
  if dir = .incoming then ed.dst else ed.src

omit [Platform] [Platform.Lawful] in
theorem follows_iff (hdir : dir ≠ .any) {ed : Edge} :
    dir.follows n ed = true ↔ dir.startOf ed = n := by
  cases dir with
  | any => exact absurd rfl hdir
  | outgoing => simp [Direction.follows, Direction.startOf]
  | incoming => simp [Direction.follows, Direction.startOf]

omit [Platform.Lawful] in
theorem wants_inv (h : e.wants g targets x = true) : ∃ ed, g.edge x = some ed ∧
    tagMatches e.tag ed.tag = true ∧ ∀ pp ∈ e.nodePredicates, passes pp ed.props = true := by
  simp only [SearchExpression.wants, Option.any_eq_true, Bool.and_eq_true, List.all_eq_true] at h
  obtain ⟨ed, hed, ⟨htag, hall⟩, -⟩ := h
  exact ⟨ed, hed, htag, hall⟩

theorem mem_wantedEdges : x ∈ e.wantedEdges g targets ↔ e.wants g targets x = true := by
  rw [SearchExpression.wantedEdges, List.mem_filter, mem_scanList]
  refine ⟨fun h => h.2, fun h => ⟨?_, h⟩⟩
  obtain ⟨ed, hed, htag, hall⟩ := wants_inv h
  have hfirst : passes (e.nodePredicates.head?.getD {}) ed.props = true := by
    cases hpps : e.nodePredicates with
    | nil => exact Platform.Lawful.passes_default _
    | cons pp pps => exact hall pp (by simp [hpps])
  simp [Lookup.matches, Lookup.matchesBy, hed, htag, hfirst]

theorem mem_wantedAt (hdir : dir ≠ .any) : x ∈ e.wantedAt g dir targets n ↔
    e.wants g targets x = true ∧ ∃ ed, g.edge x = some ed ∧ dir.startOf ed = n := by
  rw [SearchExpression.wantedAt, List.mem_filter, mem_scanList]
  simp only [Lookup.matches, Lookup.matchesBy, Option.any_eq_true, Bool.and_eq_true,
    follows_iff hdir]
  constructor
  · rintro ⟨⟨ed, hed, -, hn⟩, h⟩
    exact ⟨h, ed, hed, hn⟩
  · rintro ⟨h, ed, hed, hn⟩
    obtain ⟨ed', hed', htag, -⟩ := wants_inv h
    rw [hed] at hed'
    injection hed' with hed'
    subst hed'
    exact ⟨⟨ed, hed, htag, hn⟩, h⟩

theorem count_wantedEdges : (e.wantedEdges g targets).count x =
    if e.wants g targets x = true then 1 else 0 := by
  have hnodup : (e.wantedEdges g targets).Nodup := (scanList_nodup rfl).filter _
  rw [hnodup.count]
  simp only [mem_wantedEdges]

/-- An edge that is wanted is found as often as its node is gone over. -/
theorem count_flatMap_wantedAt (hdir : dir ≠ .any) {ed : Edge} (hx : g.edge x = some ed)
    (h : e.wants g targets x = true) (l : List NodeID) :
    (l.flatMap (e.wantedAt g dir targets)).count x = l.count (dir.startOf ed) := by
  induction l with
  | nil => rfl
  | cons n l ih =>
      have hnodup : (e.wantedAt g dir targets n).Nodup := (scanList_nodup rfl).filter _
      have hmem : x ∈ e.wantedAt g dir targets n ↔ n = dir.startOf ed := by
        rw [mem_wantedAt hdir]
        refine ⟨?_, fun hn => ⟨h, ed, hx, hn.symm⟩⟩
        rintro ⟨-, ed', hed', hn⟩
        rw [hx] at hed'
        injection hed' with hed'
        rw [hed', hn]
      rw [List.flatMap_cons, List.count_append, hnodup.count, ih, List.count_cons, Nat.add_comm]
      simp only [hmem, beq_iff_eq]

/-- The node is at an edge with the tag. -/
def SearchExpression.HasEdge (e : SearchExpression) (g : Graph) (dir : Direction) (n : NodeID) :
    Prop :=
  ∃ x ed, g.edge x = some ed ∧ tagMatches e.tag ed.tag = true ∧ dir.startOf ed = n

/-- None of the nodes is at an edge that is wanted. -/
def SearchExpression.NoneAt (e : SearchExpression) (g : Graph) (dir : Direction)
    (targets : Option (List NodeID)) (nodes : List NodeID) : Prop :=
  ∀ x ed, g.edge x = some ed → e.wants g targets x = true → dir.startOf ed ∉ nodes

/-- No edge is wanted. -/
def SearchExpression.NoneWanted (e : SearchExpression) (g : Graph)
    (targets : Option (List NodeID)) : Prop :=
  ∀ x, e.wants g targets x = false

theorem scanList_nodeEdges_eq_nil (hdir : dir ≠ .any) :
    scanList g (.nodeEdges n dir e.tag) = [] ↔ ¬ e.HasEdge g dir n := by
  rw [List.eq_nil_iff_forall_not_mem]
  simp only [mem_scanList, Lookup.matches, Lookup.matchesBy, Option.any_eq_true,
    Bool.and_eq_true, follows_iff hdir, SearchExpression.HasEdge, not_exists]

/-- How often an edge is found from a list with a first node. -/
theorem count_foundFrom (hdir : dir ≠ .any) {ed : Edge} (hx : g.edge x = some ed)
    (h : e.wants g targets x = true) (ns rest : List NodeID) :
    e.HasEdge g dir n ∧
        (e.foundFrom g dir targets (n :: ns) rest).count x = (n :: rest).count (dir.startOf ed) ∨
      ¬ e.HasEdge g dir n ∧ (e.foundFrom g dir targets (n :: ns) rest).count x = 0 := by
  by_cases hscan : scanList g (.nodeEdges n dir e.tag) = []
  · right
    refine ⟨(scanList_nodeEdges_eq_nil hdir).1 hscan, ?_⟩
    rw [SearchExpression.foundFrom, if_pos hscan]
    rfl
  · left
    refine ⟨not_not.1 (mt (scanList_nodeEdges_eq_nil hdir).2 hscan), ?_⟩
    rw [SearchExpression.foundFrom, if_neg hscan, count_flatMap_wantedAt hdir hx h]

/-- Only what is wanted is found. -/
theorem wants_of_mem_foundFrom {l rest : List NodeID}
    (hx : x ∈ e.foundFrom g dir targets l rest) : e.wants g targets x = true := by
  cases l with
  | nil => exact mem_wantedEdges.1 hx
  | cons n ns =>
      rw [SearchExpression.foundFrom] at hx
      by_cases hscan : scanList g (.nodeEdges n dir e.tag) = []
      · rw [if_pos hscan] at hx
        cases hx
      · rw [if_neg hscan, List.mem_flatMap] at hx
        obtain ⟨m, -, hm⟩ := hx
        exact (List.mem_filter.1 hm).2

/-- How often an edge is to be found from a list of nodes. -/
def SearchExpression.countFrom (e : SearchExpression) (g : Graph) (dir : Direction)
    (targets : Option (List NodeID)) (l : List NodeID) (x : EdgeID) : ℕ :=
  (g.edge x).elim 0 fun ed => if e.wants g targets x = true then l.count (dir.startOf ed) else 0

/-- When the edges found from a list are those to be found: there is nothing to be found
behind the first node, or there is an edge at the first node and the list is gone over to
its end. -/
def SearchExpression.FindsAll (e : SearchExpression) (g : Graph) (dir : Direction)
    (targets : Option (List NodeID)) (distinct : Prop) : List NodeID → Prop
  | [] => e.NoneWanted g targets
  | n :: ns => e.NoneAt g dir targets ns ∨ e.HasEdge g dir n ∧ distinct

/-- When nothing is found from a list. -/
def SearchExpression.FindsNone (e : SearchExpression) (g : Graph) (dir : Direction)
    (targets : Option (List NodeID)) : List NodeID → Prop
  | [] => e.NoneWanted g targets
  | n :: ns => ¬ e.HasEdge g dir n ∨ e.NoneAt g dir targets (n :: ns)

theorem foundFrom_eq_nil_iff (hdir : dir ≠ .any) (l : List NodeID) :
    e.foundFrom g dir targets l l.tail = [] ↔ e.FindsNone g dir targets l := by
  cases l with
  | nil =>
      rw [SearchExpression.foundFrom, List.eq_nil_iff_forall_not_mem]
      simp only [mem_wantedEdges, Bool.not_eq_true, SearchExpression.FindsNone,
        SearchExpression.NoneWanted]
  | cons n ns =>
      rw [List.tail_cons, SearchExpression.FindsNone]
      constructor
      · intro hnil
        by_cases hn : e.HasEdge g dir n
        · right
          intro x ed hx h
          rcases count_foundFrom (n := n) hdir hx h ns ns with ⟨-, hcount⟩ | ⟨hnot, -⟩
          · rw [hnil, List.count_nil] at hcount
            exact List.count_eq_zero.1 hcount.symm
          · exact absurd hn hnot
        · exact .inl hn
      · intro h
        rw [List.eq_nil_iff_forall_not_mem]
        intro x hx
        have hwants := wants_of_mem_foundFrom hx
        obtain ⟨ed, hed, -⟩ := wants_inv hwants
        have hpos := List.count_pos_iff.2 hx
        rcases count_foundFrom (n := n) hdir hed hwants ns ns with ⟨hn, hcount⟩ | ⟨-, hcount⟩
        · rw [hcount, List.count_pos_iff] at hpos
          rcases h with hnot | hnone
          · exact hnot hn
          · exact hnone x ed hed hwants hpos
        · omega

omit [Platform.Lawful] in
theorem countFrom_eq {ed : Edge} (hx : g.edge x = some ed) (h : e.wants g targets x = true)
    (l : List NodeID) : e.countFrom g dir targets l x = l.count (dir.startOf ed) := by
  simp [SearchExpression.countFrom, hx, h]

/-- An edge that is not wanted is neither found nor to be found. -/
theorem count_foundFrom_of_not_wants (h : e.wants g targets x ≠ true) (l rest : List NodeID) :
    (e.foundFrom g dir targets l rest).count x = e.countFrom g dir targets l x := by
  have hzero : (e.foundFrom g dir targets l rest).count x = 0 :=
    List.count_eq_zero.2 fun hx => h (wants_of_mem_foundFrom hx)
  rw [hzero, SearchExpression.countFrom]
  cases g.edge x with
  | none => rfl
  | some ed => simp [h]

/-- An edge that is wanted is found as often as it is to be found, or it lies behind the
first node and the list is not gone over to its end. -/
theorem count_foundFrom_iff (hdir : dir ≠ .any) (distinct : Prop) [Decidable distinct]
    {ed : Edge} (hx : g.edge x = some ed) (h : e.wants g targets x = true) (ns : List NodeID) :
    (e.foundFrom g dir targets (n :: ns) (if distinct then ns else [])).count x =
        (n :: ns).count (dir.startOf ed) ↔
      dir.startOf ed ∉ ns ∨ e.HasEdge g dir n ∧ distinct := by
  rcases count_foundFrom hdir hx h ns (if distinct then ns else []) with ⟨hn, hc⟩ | ⟨hn, hc⟩
  · rw [hc]
    by_cases hd : distinct
    · simp [hd, hn]
    · rw [if_neg hd, List.count_cons, List.count_cons, List.count_nil, ← List.count_eq_zero]
      simp only [hd, and_false, or_false]
      omega
  · have hne : n ≠ dir.startOf ed := by
      rintro rfl
      obtain ⟨ed', hed', htag, -⟩ := wants_inv h
      rw [hx] at hed'
      injection hed' with hed'
      exact hn ⟨x, ed, hx, by rw [hed']; exact htag, rfl⟩
    rw [hc, List.count_cons_of_ne hne, ← List.count_eq_zero]
    simp only [hn, false_and, or_false]
    exact eq_comm

theorem countFrom_iff (hdir : dir ≠ .any) (distinct : Prop) [Decidable distinct]
    (l : List NodeID) :
    (∀ x, (e.foundFrom g dir targets l (if distinct then l.tail else [])).count x =
      e.countFrom g dir targets l x) ↔ e.FindsAll g dir targets distinct l := by
  cases l with
  | nil =>
      constructor
      · intro hall x
        by_contra hne
        have h : e.wants g targets x = true := by simpa using hne
        obtain ⟨ed, hed, -⟩ := wants_inv h
        have hcount := hall x
        rw [countFrom_eq hed h, List.count_nil, List.count_eq_zero] at hcount
        exact hcount (mem_wantedEdges.2 h)
      · intro hnone x
        exact count_foundFrom_of_not_wants (by rw [hnone x]; simp) _ _
  | cons n ns =>
      simp only [SearchExpression.FindsAll, List.tail_cons]
      constructor
      · intro hall
        by_cases hboth : e.HasEdge g dir n ∧ distinct
        · exact .inr hboth
        · left
          intro x ed hx h
          have hcount := hall x
          rw [countFrom_eq hx h, count_foundFrom_iff hdir distinct hx h] at hcount
          exact hcount.resolve_right hboth
      · intro h x
        by_cases hw : e.wants g targets x = true
        · obtain ⟨ed, hed, -⟩ := wants_inv hw
          rw [countFrom_eq hed hw, count_foundFrom_iff hdir distinct hed hw]
          exact h.imp_left fun hnone => hnone x ed hed hw
        · exact count_foundFrom_of_not_wants hw _ _

end Count

/-! ### References as arguments of a search -/

/-- What the identifier of a source or a destination refers to: none is given, it names
no reference, or it names one that denotes a list. -/
inductive NodeRef where
  | absent
  | missing
  | cached (k : ℤ) (nodes : List NodeID)

namespace NodeRef

/-- The reference that the code goes by. -/
def cached? : NodeRef → Option (ℤ × List NodeID)
  | .cached k nodes => some (k, nodes)
  | _ => none

/-- The nodes that the identifier asks for. A reference that there is not has none. -/
def given? : NodeRef → Option (List NodeID)
  | .absent => none
  | .missing => some []
  | .cached _ nodes => some nodes

end NodeRef

/-- What an identifier refers to. -/
def Handler.Refers (s : Handler) (id : ℤ) : NodeRef → Prop
  | .absent => id < 0
  | .missing => 0 ≤ id ∧ s.cachedNodes (toInt id) = none
  | .cached k nodes => 0 ≤ id ∧ k = toInt id ∧ Denotes k nodes s

omit [Platform.Lawful] in
theorem Handler.Refers.namedNodes_eq {id : ℤ} {ref : NodeRef} (h : s.Refers id ref) :
    s.namedNodes id = ref.cached?.map Prod.fst := by
  cases ref with
  | absent =>
      have hid : ¬ 0 ≤ id := by
        have : id < 0 := h
        omega
      simp [Handler.namedNodes, hid, NodeRef.cached?]
  | missing =>
      obtain ⟨hid, hnone⟩ := h
      simp [Handler.namedNodes, hnone, NodeRef.cached?]
  | cached k nodes =>
      obtain ⟨hid, rfl, hden⟩ := h
      obtain ⟨r, hr, -⟩ := hden.view
      simp [Handler.namedNodes, hid, hr, NodeRef.cached?]

omit [Platform.Lawful] in
theorem Handler.Refers.denotes {id : ℤ} {ref : NodeRef} (h : s.Refers id ref) :
    ∀ p ∈ ref.cached?, Denotes p.1 p.2 s := by
  intro p hp
  cases ref with
  | cached k nodes =>
      cases hp
      exact h.2.2
  | absent => cases hp
  | missing => cases hp

namespace SearchExpression

/-- How often an edge is to be found, given the nodes of the source and those of the
destination: once for each occurrence of its source node in the source list, if it ends in
the destination list when there is one; once for each occurrence of its destination node
when there is only a destination; once when there is neither. -/
def multiplicity (e : SearchExpression) (g : Graph) (srcs dsts : Option (List NodeID))
    (x : EdgeID) : ℕ :=
  match g.edge x with
  | none => 0
  | some ed =>
      if e.wants g (if srcs.isSome then dsts else none) x = true then
        match srcs, dsts with
        | none, none => 1
        | none, some dsts => dsts.count ed.dst
        | some srcs, _ => srcs.count ed.src
      else 0

/-- When a search for edges is complete: it does not go over a list behind the first node,
or that node is at an edge with the tag and the references are not the same; and if a
reference is missing or has no node, the search that takes its place finds nothing. -/
def Complete (e : SearchExpression) (g : Graph) : NodeRef → NodeRef → Prop
  | .absent, .absent => True
  | .absent, .cached _ dsts => e.FindsAll g .incoming none True dsts
  | .cached _ srcs, .absent => e.FindsAll g .outgoing none True srcs
  | .cached k srcs, .cached k' dsts => e.FindsAll g .outgoing (some dsts) (k ≠ k') srcs
  | .missing, .cached _ dsts => e.FindsNone g .incoming none dsts
  | .cached _ srcs, .missing => e.FindsNone g .outgoing none srcs
  | _, _ => e.NoneWanted g none

variable {e : SearchExpression} {g : Graph}

omit [Platform.Lawful] in
theorem multiplicity_eq_zero {srcs dsts : Option (List NodeID)}
    (h : srcs = some [] ∨ dsts = some []) (x : EdgeID) : e.multiplicity g srcs dsts x = 0 := by
  rw [multiplicity]
  cases hx : g.edge x with
  | none => rfl
  | some ed =>
      rcases h with rfl | rfl
      · simp
      · cases srcs with
        | none => simp
        | some srcs => simp [wants, hx]

omit [Platform.Lawful] in
theorem multiplicity_of_dst (dsts : List NodeID) (x : EdgeID) :
    e.multiplicity g none (some dsts) x = e.countFrom g .incoming none dsts x := by
  rw [multiplicity, countFrom]
  cases g.edge x with
  | none => rfl
  | some ed => rfl

omit [Platform.Lawful] in
theorem multiplicity_of_src (srcs : List NodeID) (dsts : Option (List NodeID)) (x : EdgeID) :
    e.multiplicity g (some srcs) dsts x = e.countFrom g .outgoing dsts srcs x := by
  rw [multiplicity, countFrom]
  cases g.edge x with
  | none => rfl
  | some ed => rfl

theorem wantedEdges_eq_nil_iff {targets : Option (List NodeID)} :
    e.wantedEdges g targets = [] ↔ e.NoneWanted g targets := by
  rw [List.eq_nil_iff_forall_not_mem]
  simp only [mem_wantedEdges, Bool.not_eq_true, NoneWanted]

omit [Platform] [Platform.Lawful] in
/-- A list without elements, by counts. -/
theorem forall_count_eq_zero_iff {l : List EdgeID} : (∀ x, l.count x = 0) ↔ l = [] := by
  simp only [List.count_eq_zero, List.eq_nil_iff_forall_not_mem]

/-- **Completeness.** Exactly in a complete search every edge is found as often as it is to
be found. -/
theorem complete_iff (src dst : NodeRef) :
    (∀ x, (e.foundEdges g src.cached? dst.cached?).count x =
      e.multiplicity g src.given? dst.given? x) ↔ e.Complete g src dst := by
  have hzero : ∀ {l : List EdgeID} {srcs dsts : Option (List NodeID)},
      srcs = some [] ∨ dsts = some [] →
      ((∀ x, l.count x = e.multiplicity g srcs dsts x) ↔ l = []) := fun h => by
    simp only [multiplicity_eq_zero h, forall_count_eq_zero_iff]
  cases src with
  | absent =>
      cases dst with
      | absent =>
          refine iff_of_true (fun x => ?_) trivial
          refine count_wantedEdges.trans ?_
          unfold multiplicity NodeRef.given?
          cases hx : g.edge x with
          | none => simp [wants, hx]
          | some ed => rfl
      | missing => exact (hzero (.inr rfl)).trans wantedEdges_eq_nil_iff
      | cached k dsts =>
          have h : (∀ x, (e.foundFrom g .incoming none dsts
                (if True then dsts.tail else [])).count x =
              e.countFrom g .incoming none dsts x) ↔ e.FindsAll g .incoming none True dsts :=
            countFrom_iff (by simp) True dsts
          simp only [if_true, ← multiplicity_of_dst] at h
          exact h
  | missing =>
      cases dst with
      | absent => exact (hzero (.inl rfl)).trans wantedEdges_eq_nil_iff
      | missing => exact (hzero (.inl rfl)).trans wantedEdges_eq_nil_iff
      | cached k dsts => exact (hzero (.inl rfl)).trans (foundFrom_eq_nil_iff (by simp) dsts)
  | cached k srcs =>
      cases dst with
      | absent =>
          have h : (∀ x, (e.foundFrom g .outgoing none srcs
                (if True then srcs.tail else [])).count x =
              e.countFrom g .outgoing none srcs x) ↔ e.FindsAll g .outgoing none True srcs :=
            countFrom_iff (by simp) True srcs
          simp only [if_true, ← multiplicity_of_src] at h
          exact h
      | missing => exact (hzero (.inr rfl)).trans (foundFrom_eq_nil_iff (by simp) srcs)
      | cached k' dsts =>
          have h : (∀ x, (e.foundFrom g .outgoing (some dsts) srcs
                (if k ≠ k' then srcs.tail else [])).count x =
              e.countFrom g .outgoing (some dsts) srcs x) ↔
              e.FindsAll g .outgoing (some dsts) (k ≠ k') srcs :=
            countFrom_iff (by simp) (k ≠ k') srcs
          simp only [ne_eq, ite_not, ← multiplicity_of_src] at h
          exact h

end SearchExpression

/-- Driven by `query_edge`, the iterator comes to an end, and it has yielded every edge as
often as the source and the destination ask for. -/
def EnumeratesEdges (qe : QueryEdge) (e : SearchExpression) (srcs dsts : Option (List NodeID))
    (s : Handler) : Prop :=
  ∃ i refs t l j u, Runs (queryEdgeSearch qe) s (.ret (i, refs) t) ∧
    Iter.Yields NodeEdgeIteratorImpl.iter i t l j u ∧
    ∀ x, l.count x = e.multiplicity s.db srcs dsts x

variable [Platform.Quiet]

/-- The iterator enumerates the edges asked for exactly if the edges it finds are these. -/
theorem enumeratesEdges_iff_count {qe : QueryEdge} {e : SearchExpression} {src dst : NodeRef}
    (hs : s.Open) (hsearch : qe.constraints.search = .ok e) (hsrc : s.Refers qe.srcNodeId src)
    (hdst : s.Refers qe.destNodeId dst) : EnumeratesEdges qe e src.given? dst.given? s ↔
      ∀ x, (e.foundEdges s.db src.cached? dst.cached?).count x =
        e.multiplicity s.db src.given? dst.given? x := by
  obtain ⟨i, t, j, u, hnew, hyields⟩ := NodeEdgeIteratorImpl.new_yields
    (e := { e with isOr := false }) hs hsrc.denotes hdst.denotes
  have hrun : Runs (queryEdgeSearch qe) s (.ret (i, (src.cached?.map Prod.fst).toList ++
      (dst.cached?.map Prod.fst).toList) t) := by
    refine Runs.bind (Runs.of_eq fun b => rfl) ?_
    rw [hsrc.namedNodes_eq, hdst.namedNodes_eq, hsearch]
    exact Runs.bind (Runs.of_eq fun b => rfl) (hnew.bind (Runs.of_eq fun b => rfl))
  constructor
  · rintro ⟨i', refs', t', l, j', u', hrun', hyields', hcount⟩
    have heq := hrun.unique hrun'
    injection heq with hi ht
    injection hi with hi _
    rw [← hi, ← ht] at hyields'
    obtain ⟨rfl, -, -⟩ := hyields.unique hyields'
    exact hcount
  · intro hcount
    exact ⟨i, _, t, _, j, u, hrun, hyields, hcount⟩

/-- **Search for edges.** The iterator enumerates the edges asked for exactly in a complete
search. -/
theorem edge_search_iff {qe : QueryEdge} {e : SearchExpression} {src dst : NodeRef}
    (hs : s.Open) (hsearch : qe.constraints.search = .ok e) (hsrc : s.Refers qe.srcNodeId src)
    (hdst : s.Refers qe.destNodeId dst) :
    EnumeratesEdges qe e src.given? dst.given? s ↔ e.Complete s.db src dst :=
  (enumeratesEdges_iff_count hs hsearch hsrc hdst).trans
    (SearchExpression.complete_iff src dst)

end

/-- Two nodes, an edge from the second to the first, and a reference to both in an order. -/
def lateEdge (nodes : List NodeID) : Handler :=
  (Handler.inTransaction ⟨List.replicate 2 (some ⟨1, fun _ => none⟩),
    [some ⟨1, 0, 3, fun _ => none⟩]⟩).cacheNode 5 ⟨none, [], nodes⟩

/-- A search for the edges with tag 3 that leave a node of the reference. -/
def leaving : QueryEdge where
  srcNodeId := 5
  destNodeId := -1
  constraints := { tag := .id 3 }

/-- The expression of the search. -/
def leavingExpr : SearchExpression where
  tag := 3
  isOr := false

theorem lateEdge_refers (nodes : List NodeID) :
    (lateEdge nodes).Refers leaving.srcNodeId (.cached 5 nodes) := by
  have hkey : toInt 5 = 5 := by decide
  exact ⟨by decide, hkey.symm, rfl, _, Handler.cacheNode_same _ _ _, rfl, [], rfl,
    (List.append_nil nodes).symm, fun _ => rfl⟩

theorem lateEdge_refers_absent (nodes : List NodeID) :
    (lateEdge nodes).Refers leaving.destNodeId .absent :=
  show leaving.destNodeId < 0 by decide

/-- With the node of the edge in front the edge is found. -/
theorem edge_search_iff_first_node :
    EnumeratesEdges leaving leavingExpr (some [1, 0]) none (lateEdge [1, 0]) :=
  (edge_search_iff (s := lateEdge [1, 0]) rfl rfl (lateEdge_refers [1, 0])
    (lateEdge_refers_absent [1, 0])).2
    (.inr ⟨⟨0, ⟨1, 0, 3, fun _ => none⟩, rfl, by decide, by decide⟩, trivial⟩)

/-- **A first node without edges.** The edge at the second node is not found. -/
theorem edge_search_stops_at_first_node :
    ¬ EnumeratesEdges leaving leavingExpr (some [0, 1]) none (lateEdge [0, 1]) := by
  intro h
  have hcount := (enumeratesEdges_iff_count (s := lateEdge [0, 1]) rfl rfl
    (lateEdge_refers [0, 1]) (lateEdge_refers_absent [0, 1])).1 h
  rcases (SearchExpression.complete_iff _ _).1 hcount with hnone | ⟨hfirst, -⟩
  · exact hnone 0 ⟨1, 0, 3, fun _ => none⟩ rfl (by decide) (by decide)
  · obtain ⟨x, ed, hx, -, hstart⟩ := hfirst
    cases x with
    | zero =>
        cases hx
        exact absurd hstart (by decide)
    | succ x => cases hx

end Vdms
