import Vdms.EdgeSearch
import Vdms.Building
import Vdms.Transactions
import Vdms.Updates

/-!
# Updating Edges by Search

An update with constraints is built as a query for edges, under an identifier of its own,
followed by the update of the edges cached under it. The query carries the result type
`EdgeID`, for which `build_results` reports an error, so `update_edge` gives up before it
has updated anything. The edges are reached only through the other door: if the update's
own reference is cached already, its edges are updated and the query is not looked at.

## Main results

* `queryEdge_reports`: a query for edges of this type that is to be cached reports an error.
* `updateEdgesAt_runs`: the update of the edges of a cached reference.
* `update_connection_iff`: exactly when an update with constraints is carried out.
-/

namespace Vdms

open Imp Imp.Prog Platform

/-! ### Updates of several edges -/

def Edge.mapProps (ed : Edge) (f : Props → Props) : Edge := { ed with props := f ed.props }

theorem Edge.mapProps_eq_self {ed : Edge} {f : Props → Props} :
    ed.mapProps f = ed ↔ f ed.props = ed.props := by
  constructor
  · intro h
    exact congrArg Edge.props h
  · intro h
    rw [Edge.mapProps, h]

/-- Whether a change is made or not shows only in an edge that it changes. -/
theorem ite_mapProps_iff {o : Option Edge} {f : Props → Props} {p q : Prop} [Decidable p]
    [Decidable q] : ((if p then o.map fun ed => ed.mapProps f else o) =
        if q then o.map fun ed => ed.mapProps f else o) ↔
      ∀ ed, o = some ed → (p ↔ q) ∨ f ed.props = ed.props := by
  cases o with
  | none => simp
  | some ed =>
      by_cases hp : p
      · by_cases hq : q
        · simp [hp, hq]
        · simp [hp, hq, Edge.mapProps_eq_self]
      · by_cases hq : q
        · simp [hp, hq, eq_comm (a := ed), Edge.mapProps_eq_self]
        · simp [hp, hq]

namespace Graph

variable {g : Graph} {f : Props → Props}

/-- The properties of the edges of a list are changed, one edge after the other. -/
def updateEdges (g : Graph) (f : Props → Props) (l : List EdgeID) : Graph :=
  l.foldl (fun g e => g.modifyProps (.edge e) f) g

theorem edge_modifyProps (e x : EdgeID) :
    (g.modifyProps (.edge e) f).edge x =
      if x = e then (g.edge x).map fun ed => ed.mapProps f else g.edge x := by
  by_cases hx : x = e
  · subst hx
    simp only [edge, modifyProps, List.getElem?_modify_eq, if_true]
    cases g.edges[x]? with
    | none => rfl
    | some ed => rfl
  · simp only [edge, modifyProps, if_neg hx]
    rw [List.getElem?_modify_ne _ _ (Ne.symm hx)]

theorem updateEdges_nodes (l : List EdgeID) : (g.updateEdges f l).nodes = g.nodes := by
  induction l generalizing g with
  | nil => rfl
  | cons e l ih => exact ih

/-- An edge that stands in the list several times is changed several times, which is the
same as once. Induction on the list. -/
theorem edge_updateEdges (hf : Overrides f) (l : List EdgeID) (x : EdgeID) :
    (g.updateEdges f l).edge x =
      if x ∈ l then (g.edge x).map fun ed => ed.mapProps f else g.edge x := by
  have htwice : ∀ ed : Edge, (ed.mapProps f).mapProps f = ed.mapProps f := fun ed => by
    simp only [Edge.mapProps, hf.idem]
  induction l generalizing g with
  | nil => simp [updateEdges]
  | cons e l ih =>
      have hcons : g.updateEdges f (e :: l) = (g.modifyProps (.edge e) f).updateEdges f l := rfl
      rw [hcons, ih, edge_modifyProps]
      by_cases hxe : x = e
      · subst hxe
        by_cases hxl : x ∈ l
        · simp [hxl, Function.comp_def, htwice]
        · simp [hxl]
      · simp [hxe]

end Graph

section

variable [Platform]

/-! ### The update of a cached reference -/

section Cached

variable [Platform.Quiet] {s : Handler} {ue : UpdateEdge} {k : ℤ}

/-- The change that an update makes to the properties of each of its edges. -/
def UpdateEdge.change (ue : UpdateEdge) : Props → Props :=
  updateProps ue.properties ue.removeProps

omit [Platform.Quiet] in
theorem UpdateEdge.change_overrides (ue : UpdateEdge) : Overrides ue.change :=
  updateProps_overrides _ _

/-- The loop over the rest of the list. Induction on this rest. -/
theorem updateEdgesFrom_runs (rest : List EdgeID) (hps : rest ≠ [] → Readable ue.properties) :
    ∀ {passed : List EdgeID} {s : Handler}, s.Writable → ∃ t,
      Runs (updateEdgesFrom ue k passed rest) s (.ret () t) ∧ t.response = s.response ∧
        t.db = s.db.updateEdges ue.change rest := by
  induction rest with
  | nil => exact fun _ => ⟨_, Runs.of_eq fun _ => rfl, rfl, rfl⟩
  | cons e rest ih =>
      intro passed s hs
      have hps := hps (by simp)
      have hfirst := updateElement_runs (x := .edge e) hs hps ue.removeProps
      let s' := (s.setDb (s.db.modifyProps (.edge e) ue.change)).cacheEdge k
        ⟨none, passed ++ [e], rest⟩
      have hs' : s'.Writable := hs
      obtain ⟨t, hrest, hresponse, hdb⟩ := ih (fun _ => hps) hs'
      exact ⟨t, hfirst.bind (Runs.bind (Runs.of_eq fun _ => rfl) hrest), hresponse, hdb⟩

/-- **Update of a cached reference.** -/
theorem updateEdgesAt_runs (hs : s.Writable) {r : ReusableEdgeIterator}
    (hps : r.rest ≠ [] → Readable ue.properties) (hk : s.cachedEdges k = some r) : ∃ t,
      Runs (updateEdgesAt ue k) s (.ret 0 t) ∧ t.db = s.db.updateEdges ue.change r.rest ∧
        t.response = { s.response with
          rType := .count, errorCode := .success, op := .int r.rest.length } := by
  obtain ⟨t, hloop, hresponse, hdb⟩ : ∃ t,
      Runs (updateEdgesFrom ue k r.passed r.rest) s (.ret () t) ∧ t.response = s.response ∧
        t.db = s.db.updateEdges ue.change r.rest := updateEdgesFrom_runs r.rest hps hs
  refine ⟨((t.cacheEdge k r.reset).modifyResponse fun r =>
    { r with rType := .count, errorCode := .success }).modifyResponse fun r' =>
      { r' with op := .int r.rest.length }, ?_, hdb, ?_⟩
  · refine Runs.bind (Runs.of_eq fun _ => rfl) ?_
    simp only [hk]
    exact hloop.bind (Runs.of_eq fun _ => rfl)
  · rw [← hresponse]
    rfl

omit [Platform.Quiet] in
/-- With a value that cannot be read the update of at least one edge does not return. -/
theorem updateEdgesAt_throws (hps : ¬ Readable ue.properties) {r : ReusableEdgeIterator}
    (hk : s.cachedEdges k = some r) (hrest : r.rest ≠ []) :
    Sat (updateEdgesAt ue k) s (fun _ _ => False) fun _ _ => True := by
  obtain ⟨e, rest, hcons⟩ := List.exists_cons_of_ne_nil hrest
  refine Sat.get_bind ?_
  simp only [hk, hcons]
  refine Sat.bind (P := fun _ _ => False) ?_ fun _ _ h => h.elim
  exact Sat.bind (updateElement_throws hps _ _) fun _ _ h => h.elim

end Cached

/-! ### The query of an update -/

section Query

variable {s : Handler} {qe : QueryEdge}

theorem resetAll_keeps_error (ks : List ℤ) {z : ℤ} (hs : s.response.errorCode ≠ .success) :
    Sat (do resetAll ks; pure z) s (fun _ t => t.response.errorCode ≠ .success)
      fun _ _ => True :=
  Sat.mono (((resetAll_footprint ks).bind fun _ => Footprint.pure z).keeps_code
    (C := fun code => code ≠ .success) (by simp) hs) (fun _ _ h => h) fun _ _ _ => trivial

/-- The query has an identifier of its own and the result type `EdgeID`. -/
structure QueryEdge.ForUpdate (qe : QueryEdge) : Prop where
  identifier : 0 ≤ qe.identifier
  rType : qe.results.rType = .edgeID

theorem queryEdgeFinish_reports (hqe : qe.ForUpdate) (refs : List ℤ)
    (tei : ReusableIterator NodeEdgeIteratorImpl EdgeID) :
    Sat (queryEdgeFinish qe refs tei) s (fun _ t => t.response.errorCode ≠ .success)
      fun _ _ => True := by
  refine Sat.seq fun tei t => Sat.bind (P := fun _ u => u.response.errorCode ≠ .success) ?_
    fun tei' u hu => Sat.bind (P := fun _ w => w.response.errorCode ≠ .success) ?_
      fun _ w hw => resetAll_keeps_error refs hw
  · -- `build_results` has no case for the type `EdgeID`.
    simp only [reusableResults, buildResults, hqe.rType]
    exact Sat.modify_bind (Sat.pure (by simp [Handler.modifyResponse]))
  · have hall := ReusableIterator.traverseAll_footprint NodeEdgeIteratorImpl.footprint tei'
    refine Sat.ite (fun _ => ?_) fun _ => Sat.pure hu
    have hkeeps := hall.keeps_code (C := fun code => code ≠ .success) (by simp) hu
    refine Sat.bind (Sat.mono hkeeps (fun _ _ h => h) fun _ _ _ => trivial) fun tei'' w hw => ?_
    exact Sat.modify hw

/-- **The query of an update.** Whatever it finds, it reports an error. -/
theorem queryEdge_reports (hqe : qe.ForUpdate) :
    Sat (queryEdge qe) s (fun _ t => t.response.errorCode ≠ .success) fun _ _ => True := by
  have hfail : ∀ (msg : String) (t : Handler), Sat (fail .error msg) t
      (fun _ t => t.response.errorCode ≠ .success) fun _ _ => True := fun msg t =>
    Sat.modify_bind (Sat.pure (by simp [Handler.modifyResponse]))
  refine Sat.modify_bind (Sat.get_bind ?_)
  refine Sat.ite (fun _ => hfail _ _) fun _ => Sat.ite (fun _ => hfail _ _) fun _ => ?_
  refine Sat.seq fun p t => Sat.ite (fun _ => ?_) fun _ => ?_
  · exact Sat.modify_bind (resetAll_keeps_error _ (by simp [Handler.modifyResponse]))
  · refine Sat.seq fun _ t => Sat.ite (fun h => absurd (.inl hqe.identifier) h) fun _ => ?_
    refine Sat.seq fun tei t => Sat.ite (fun _ => ?_) fun _ => queryEdgeFinish_reports hqe _ _
    refine Sat.seq fun tei t => Sat.ite (fun _ => ?_) fun _ => queryEdgeFinish_reports hqe _ _
    exact Sat.modify_bind (resetAll_keeps_error _ (by simp [Handler.modifyResponse]))

/-- Without a cached reference of its own the update gives up. -/
theorem updateEdge_reports {ue : UpdateEdge}
    (hown : ¬ (0 ≤ ue.identifier ∧ (s.cachedEdges (toInt ue.identifier)).isSome))
    (hquery : ue.queryEdge = some qe) (hqe : qe.ForUpdate) :
    Sat (updateEdge ue) s (fun _ t => t.response.errorCode ≠ .success) fun _ _ => True := by
  refine Sat.get_bind (Sat.ite (fun h => absurd h hown) fun _ => ?_)
  simp only [hquery]
  refine Sat.bind (queryEdge_reports hqe) fun _ t ht => Sat.get_bind ?_
  exact Sat.ite (fun _ => Sat.pure ht) fun h => absurd ht h

end Query

/-! ### The command -/

section Command

variable {s : Handler} {cmd : Command}

theorem processQuery_updateEdge_runs (hcmd : cmd.cmdId = .updateEdge) {v : ℤ} {t : Handler}
    (h : Runs (updateEdge cmd.updateEdge) (s.begin cmd) (.ret v t)) :
    Runs (processQuery cmd) s (.ret 0 t) := by
  refine Runs.bind (Runs.of_eq fun _ => rfl) (Runs.tryCatch ?_)
  simp only [dispatch, hcmd]
  exact h.bind (Runs.of_eq fun _ => rfl)

/-- An error that is reported or raised stays in the response. -/
theorem processQuery_updateEdge_reports (hcmd : cmd.cmdId = .updateEdge)
    (h : Sat (updateEdge cmd.updateEdge) (s.begin cmd)
      (fun _ t => t.response.errorCode ≠ .success) fun _ _ => True) :
    Sat (processQuery cmd) s (fun _ t => t.response.errorCode ≠ .success) fun _ _ => True := by
  have hdispatch : Sat (dispatch cmd) (s.begin cmd)
      (fun _ t => t.response.errorCode ≠ .success) fun _ _ => True := by
    simp only [dispatch, hcmd]
    exact Sat.bind h fun _ t ht => Sat.pure ht
  have hquery := processQuery_sat hdispatch (R := fun _ => True) fun _ _ _ =>
    (by simp [Handler.modifyResponse])
  exact Sat.mono hquery (fun _ _ h => h) fun _ _ _ => trivial

/-- What the query of an update asks for: its expression, and what its two references
refer to. -/
structure UpdateTarget (s : Handler) (ue : UpdateEdge) where
  query : QueryEdge
  expr : SearchExpression
  src : NodeRef
  dst : NodeRef
  query_eq : ue.queryEdge = some query
  search_eq : query.constraints.search = .ok expr
  src_refers : s.Refers query.srcNodeId src
  dst_refers : s.Refers query.destNodeId dst

/-- An edge carries the tag, satisfies the predicates as they combine, leaves one of the
source nodes if these are given, and ends in one of the destination nodes if these are. -/
def SearchExpression.selects (e : SearchExpression) (g : Graph)
    (srcs dsts : Option (List NodeID)) (x : EdgeID) : Bool :=
  (g.edge x).any fun ed => tagMatches e.tag ed.tag &&
    (if e.isOr then e.nodePredicates.any fun pp => passes pp ed.props
      else e.nodePredicates.all fun pp => passes pp ed.props) &&
    srcs.all (fun nodes => nodes.contains ed.src) &&
    dsts.all fun nodes => nodes.contains ed.dst

/-- The edges that the query of an update matches. -/
def UpdateTarget.edges {ue : UpdateEdge} (v : UpdateTarget s ue) : List EdgeID :=
  (List.range s.db.edges.length).filter
    (v.expr.selects s.db v.src.given? v.dst.given?)

/-- Under a conjunction these are the edges that a complete search would enumerate. -/
theorem UpdateTarget.mem_edges_iff {ue : UpdateEdge} (v : UpdateTarget s ue)
    (hand : v.expr.isOr = false) {x : EdgeID} :
    x ∈ v.edges ↔ 0 < v.expr.multiplicity s.db v.src.given? v.dst.given? x := by
  unfold UpdateTarget.edges SearchExpression.selects SearchExpression.multiplicity
  rw [List.mem_filter, List.mem_range]
  cases hx : s.db.edge x with
  | none => simp
  | some ed =>
      have hlt : x < s.db.edges.length := by
        by_contra hge
        simp [Graph.edge, List.getElem?_eq_none (Nat.le_of_not_lt hge)] at hx
      have hpos : ∀ (c : Prop) [Decidable c] (n : ℕ),
          (0 < if c then n else 0) ↔ c ∧ 0 < n := fun c _ n => by
        by_cases hc : c
        · simp [hc]
        · simp [hc]
      simp only [hlt, hand, SearchExpression.wants, hx, Option.any_some, true_and, hpos]
      cases v.src.given? with
      | none => cases v.dst.given? <;> simp [List.count_pos_iff]
      | some srcs => cases v.dst.given? <;> simp [List.count_pos_iff, and_right_comm]

/-- The update is carried out on exactly the given edges: each of them has its properties
set and removed, every other edge and every node is left alone, and the response counts
them. -/
def UpdatesExactly (cmd : Command) (l : List EdgeID) (s : Handler) : Prop :=
  ∃ t, Runs (processQuery cmd) s (.ret 0 t) ∧ t.response.errorCode = .success ∧
    t.response.rType = .count ∧ t.response.op = .int l.length ∧ t.db.nodes = s.db.nodes ∧
    ∀ x, t.db.edge x = if x ∈ l then (s.db.edge x).map fun ed =>
      ed.mapProps cmd.updateEdge.change else s.db.edge x

/-- With a cached reference of its own, an update does not look at its query. -/
theorem updateEdge_own {ue : UpdateEdge} {r : ReusableEdgeIterator}
    (hown : 0 ≤ ue.identifier) (hr : s.cachedEdges (toInt ue.identifier) = some r) (n : ℕ) :
    updateEdge ue n s = updateEdgesAt ue (toInt ue.identifier) n s := by
  simp [updateEdge, hown, hr]

theorem updateEdge_throws {ue : UpdateEdge} {r : ReusableEdgeIterator}
    (hown : 0 ≤ ue.identifier) (hr : s.cachedEdges (toInt ue.identifier) = some r)
    (hps : ¬ Readable ue.properties) (hrest : r.rest ≠ []) :
    Sat (updateEdge ue) s (fun _ _ => False) fun _ _ => True := by
  intro n
  rw [updateEdge_own hown hr]
  exact updateEdgesAt_throws hps hr hrest n

variable [Platform.Quiet]

/-- Through its own reference an update is carried out on the edges of this reference. -/
theorem updatesExactly_cached_iff (hs : s.Writable) (hcmd : cmd.cmdId = .updateEdge)
    {r : ReusableEdgeIterator} (hown : 0 ≤ cmd.updateEdge.identifier)
    (hr : (s.begin cmd).cachedEdges (toInt cmd.updateEdge.identifier) = some r)
    (hps : r.rest ≠ [] → Readable cmd.updateEdge.properties) (l : List EdgeID) :
    UpdatesExactly cmd l s ↔ r.rest.length = l.length ∧ ∀ x ed, s.db.edge x = some ed →
      (x ∈ r.rest ↔ x ∈ l) ∨ cmd.updateEdge.change ed.props = ed.props := by
  obtain ⟨t, ⟨N, hN⟩, hdb, hresponse⟩ := updateEdgesAt_runs (s := s.begin cmd) hs hps hr
  have hrun : Runs (processQuery cmd) s (.ret 0 t) :=
    processQuery_updateEdge_runs hcmd ⟨N, fun n hn => by
      rw [updateEdge_own hown hr]
      exact hN n hn⟩
  have hedge : ∀ x, t.db.edge x = if x ∈ r.rest then (s.db.edge x).map fun ed =>
      ed.mapProps cmd.updateEdge.change else s.db.edge x := fun x => by
    rw [hdb]
    exact Graph.edge_updateEdges cmd.updateEdge.change_overrides r.rest x
  constructor
  · rintro ⟨t', hrun', -, -, hop, -, hedge'⟩
    have heq := hrun.unique hrun'
    injection heq with _ heq
    subst heq
    rw [hresponse] at hop
    injection hop with hop
    refine ⟨hop, fun x => ite_mapProps_iff.1 ?_⟩
    rw [← hedge, hedge']
  · rintro ⟨hlen, hsame⟩
    refine ⟨t, hrun, by rw [hresponse], by rw [hresponse], by rw [hresponse, hlen], ?_, ?_⟩
    · rw [hdb]
      exact Graph.updateEdges_nodes r.rest
    · intro x
      rw [hedge]
      exact ite_mapProps_iff.2 (hsame x)

/-- **When an update by search is carried out.** An update of edges that is built with
constraints, and whose query matches an edge, never reaches the edges through this query.
It is carried out on them exactly if all its values can be read and its own reference is
cached already, as a list of as many edges with the same effect. -/
theorem update_connection_iff {q q' : PMGDQuery} {ref srcRef destRef : ℤ} {tag : String}
    {props removeProps constraints : Json} {unique : Bool} (hs : s.Writable)
    (hbuild : q.updateEdge ref srcRef destRef tag props removeProps constraints unique = .ok q')
    (hconstraints : constraints.isNull = false) (hcmd : q'.cmds = q.cmds ++ [cmd])
    (v : UpdateTarget s cmd.updateEdge) (hne : v.edges ≠ []) :
    UpdatesExactly cmd v.edges s ↔
      Readable cmd.updateEdge.properties ∧ 0 ≤ ref ∧ ∃ r, s.cachedEdges (toInt ref) = some r ∧
        r.rest.length = v.edges.length ∧ ∀ x ed, s.db.edge x = some ed →
          (x ∈ r.rest ↔ x ∈ v.edges) ∨ cmd.updateEdge.change ed.props = ed.props := by
  obtain ⟨hid, hident, qe, hquery, hqe, htype, -, -⟩ :=
    PMGDQuery.updateEdge_inv hbuild hconstraints hcmd
  have hnot : Sat (updateEdge cmd.updateEdge) (s.begin cmd)
      (fun _ t => t.response.errorCode ≠ .success) (fun _ _ => True) →
      ¬ UpdatesExactly cmd v.edges s := by
    rintro hsat ⟨t, hrun, hcode, -⟩
    exact (processQuery_updateEdge_reports hid hsat).ret hrun hcode
  by_cases href : 0 ≤ ref ∧ (s.cachedEdges (toInt ref)).isSome
  · obtain ⟨hle, hsome⟩ := href
    obtain ⟨r, hr⟩ := Option.isSome_iff_exists.1 hsome
    have hown : 0 ≤ cmd.updateEdge.identifier := by rwa [hident]
    have hcached : (s.begin cmd).cachedEdges (toInt cmd.updateEdge.identifier) = some r := by
      rwa [hident]
    by_cases hps : r.rest ≠ [] → Readable cmd.updateEdge.properties
    · refine (updatesExactly_cached_iff hs hid hown hcached hps v.edges).trans ?_
      constructor
      · rintro ⟨hlen, hsame⟩
        have hrest : r.rest ≠ [] := by
          rw [← List.length_pos_iff, hlen, List.length_pos_iff]
          exact hne
        exact ⟨hps hrest, hle, r, hr, hlen, hsame⟩
      · rintro ⟨-, -, r', hr', hlen, hsame⟩
        rw [hr] at hr'
        injection hr' with hr'
        rw [hr']
        exact ⟨hlen, hsame⟩
    · push Not at hps
      obtain ⟨hrest, hps⟩ := hps
      refine iff_of_false (hnot ?_) fun h => hps h.1
      refine Sat.mono (updateEdge_throws hown hcached hps hrest) ?_ fun _ _ _ => trivial
      exact fun _ _ h => h.elim
  · refine iff_of_false (hnot (updateEdge_reports ?_ hquery ⟨hqe, htype⟩)) ?_
    · rwa [hident]
    · rintro ⟨-, hle, r, hr, -⟩
      exact href ⟨hle, by rw [hr]; rfl⟩

end Command

end

/-- A handler over two nodes and an edge between them, with a reference to this edge. -/
def cachedOneEdge : Handler :=
  (Handler.inTransaction ⟨List.replicate 2 (some ⟨1, fun _ => none⟩),
    [some ⟨0, 1, 3, fun _ => none⟩]⟩).cacheEdge 7 ⟨none, [], [0]⟩

/-- An update of all edges, with a reference of its own or with none. -/
def updateAll (ref : ℤ) : Except QueryError PMGDQuery :=
  (PMGDQuery.new 0 0).updateEdge ref (-1) (-1) "" (.object [("", .string "x")]) .null
    (.object []) false

/-- The command that is built. -/
def updateAllCommand (ref qref : ℤ) : Command where
  cmdId := .updateEdge
  updateEdge :=
    { identifier := ref
      queryEdge := some { identifier := qref, srcNodeId := -1, destNodeId := -1
                          constraints := { tag := .name "" }, results := { rType := .edgeID } }
      properties := [{ type := .stringType, key := "", stringValue := "x" }] }

/-- Without references, the edge is matched. -/
def updateAllTarget (ref qref : ℤ) :
    UpdateTarget cachedOneEdge (updateAllCommand ref qref).updateEdge where
  query := _
  expr := { tag := 0, isOr := false }
  src := .absent
  dst := .absent
  query_eq := rfl
  search_eq := rfl
  src_refers := show (-1 : ℤ) < 0 by decide
  dst_refers := show (-1 : ℤ) < 0 by decide

/-- The transaction that is built. -/
def updateAllQuery (ref : ℤ) : PMGDQuery :=
  (updateAll ref).toOption.getD (PMGDQuery.new 0 0)

theorem updateAll_built (ref : ℤ) : updateAll ref = .ok (updateAllQuery ref) := rfl

theorem updateAllTarget_edges (ref qref : ℤ) : (updateAllTarget ref qref).edges = [0] := rfl

/-- Under a reference that is cached as this very edge, the update is carried out. -/
theorem update_connection_iff_cached :
    UpdatesExactly (updateAllCommand 7 7) (updateAllTarget 7 7).edges cachedOneEdge := by
  have hkey : toInt 7 = 7 := by decide
  have hs : cachedOneEdge.Writable := rfl
  have hcmd : (updateAllQuery 7).cmds =
      (PMGDQuery.new 0 0).cmds ++ [updateAllCommand 7 7] := rfl
  refine (update_connection_iff hs (updateAll_built 7) rfl hcmd (updateAllTarget 7 7)
    (by simp [updateAllTarget_edges])).2
    ⟨?_, by decide, ⟨none, [], [0]⟩, by rw [hkey]; rfl, ?_, fun x ed _ => .inl ?_⟩
  · intro p hp
    rw [List.mem_singleton.1 hp]
    exact ⟨_, rfl⟩
  · rw [updateAllTarget_edges]
  · rw [updateAllTarget_edges]

/-- **Update by search.** The query matches an edge, but the edge is not updated. -/
theorem update_by_search_fails :
    (updateAllQuery (-1)).cmds = (PMGDQuery.new 0 0).cmds ++ [updateAllCommand (-1) 20000] ∧
    (updateAllTarget (-1) 20000).edges = [0] ∧
    ¬ UpdatesExactly (updateAllCommand (-1) 20000) (updateAllTarget (-1) 20000).edges
      cachedOneEdge := by
  refine ⟨rfl, updateAllTarget_edges _ _, ?_⟩
  rintro ⟨t, hrun, hcode, -⟩
  have hid : (updateAllCommand (-1) 20000).cmdId = .updateEdge := rfl
  have hreports := processQuery_updateEdge_reports (s := cachedOneEdge) hid
    (updateEdge_reports (by decide) rfl ⟨by decide, rfl⟩)
  exact hreports.ret hrun hcode

end Vdms
