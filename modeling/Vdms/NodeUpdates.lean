import Vdms.ConditionalAdd
import Vdms.Constraints
import Vdms.ExpirationQueue

/-!
# Updating Nodes by Search

An update with constraints is built as a query for nodes, which is cached under an identifier
of its own, followed by the update of the nodes that are cached under it. The result type of
the query is `NodeID`, so that `build_results` goes through all that it finds. What is cached
has nothing left to search for when the update loop starts: the loop changes properties that the
search has asked for, but nothing is asked any more.

## Main results

* `queryNodeFrom_lists`: what is cached of the query of an update.
* `updateNodesAt_runs`: the update of the nodes of such a reference.
* `SearchedUpdate.updatesMatching_iff`: exactly when an update by search does what it says.
* `update_by_search`: it does, for dates that can be read.
-/

namespace Vdms

open Imp Imp.Prog Platform

/-! ### Updates of several nodes -/

namespace Graph

variable {g : Graph} {f : Props → Props}

/-- The properties of the nodes of a list are changed, one node after the other. -/
def updateNodes (g : Graph) (f : Props → Props) (l : List NodeID) : Graph :=
  l.foldl (fun g n => g.modifyProps (.node n) f) g

/-- Updating nodes leaves the edges as they are. -/
theorem updateNodes_edges (l : List NodeID) : (g.updateNodes f l).edges = g.edges := by
  induction l generalizing g with
  | nil => rfl
  | cons n l ih => exact ih

/-- Each node of the list is changed. Induction on the list. -/
theorem node_updateNodes {l : List NodeID} (hl : l.Nodup) (m : NodeID) :
    (g.updateNodes f l).node m =
      if m ∈ l then (g.node m).map fun nd => { nd with props := f nd.props } else g.node m := by
  induction l generalizing g with
  | nil => simp [updateNodes]
  | cons n l ih =>
      obtain ⟨hn, hl⟩ := List.nodup_cons.1 hl
      have hcons : g.updateNodes f (n :: l) = (g.modifyProps (.node n) f).updateNodes f l := rfl
      rw [hcons, ih hl, node_modifyProps]
      by_cases hmn : m = n
      · subst hmn
        simp [hn]
      · simp [hmn]

end Graph

section

variable [Platform]

/-! ### The update of a cached reference -/

/-- The change that an update makes to the properties of each of its nodes. -/
def UpdateNode.change (un : UpdateNode) : Props → Props :=
  updateProps un.properties un.removeProps

/-- Nothing is left to be pulled. -/
def Exhausted (ti : Option SearchIterator) : Prop := (orNull SearchIterator.iter).bool ti = false

/-- Over an exhausted search, `next` goes on in the list of the reusable iterator. -/
theorem Exhausted.next {ti : Option SearchIterator} (h : Exhausted ti) (past : List NodeID)
    (n : NodeID) (left : List NodeID) :
    ReusableIterator.next SearchIterator.iter ⟨ti, past, n :: left⟩ =
      pure ⟨ti, past ++ [n], left⟩ := by
  rw [Exhausted] at h
  cases left <;> simp [ReusableIterator.next, ReusableIterator.advance, h]

/-- A value can be read if it is no date, or one that can be. -/
theorem readable_of_date {p : PMGDProp}
    (h : p.type = .timeType → ∃ t, stringToTime p.timeValue = .ok t) : ∃ v, p.value = .ok v := by
  rw [PMGDProp.value]
  cases htype : p.type with
  | timeType =>
      obtain ⟨t, ht⟩ := h htype
      exact ⟨some (.time t), by simp only [ht]⟩
  | _ => exact ⟨_, rfl⟩

section Cached

variable [Platform.Quiet] {s : Handler} {un : UpdateNode} {k : ℤ} {ti : Option SearchIterator}

/-- The loop over the rest of the list. Induction on this rest. -/
theorem updateLoop_runs (hti : Exhausted ti) (left : List NodeID)
    (hps : left ≠ [] → Readable un.properties) :
    ∀ {past : List NodeID} {s : Handler} (updated : ℕ), s.Writable →
      s.cachedNodes k = some ⟨ti, past, left⟩ → ∃ t r,
        Runs (forCached k (fun (updated : ℕ) n => do
          updateElement (.node n) un.properties un.removeProps
          pure (updated + 1)) updated) s (.ret (updated + left.length) t) ∧
        t.response = s.response ∧ t.db = s.db.updateNodes un.change left ∧
        t.cachedNodes k = some r := by
  induction left with
  | nil =>
      intro past s updated hs hk
      refine ⟨s, _, Runs.loop_stop ((cachedNode_runs hk).bind (Runs.of_eq fun _ => ?_)), rfl, rfl,
        hk⟩
      simp [ReusableIterator.bool]
  | cons n left ih =>
      intro past s updated hs hk
      have hps := hps (by simp)
      have hfirst := updateElement_runs (x := .node n) hs hps un.removeProps
      let s₁ := s.setDb (s.db.modifyProps (.node n) un.change)
      let s₂ := s₁.cacheNode k ⟨ti, past ++ [n], left⟩
      have hk₁ : s₁.cachedNodes k = some ⟨ti, past, n :: left⟩ := hk
      have hk₂ : s₂.cachedNodes k = some ⟨ti, past ++ [n], left⟩ := Handler.cacheNode_same _ _ _
      obtain ⟨t, r, hloop, hresponse, hdb, hr⟩ := ih (fun _ => hps) (updated + 1)
        (show s₂.Writable from hs) hk₂
      have hnext : Runs (nextCached k) s₁ (.ret () s₂) := by
        refine (cachedNode_runs hk₁).bind ?_
        rw [hti.next]
        exact Runs.of_eq fun _ => rfl
      have hpass : Runs (cachedPass k (fun (updated : ℕ) n => do
          updateElement (.node n) un.properties un.removeProps
          pure (updated + 1)) updated) s (.ret (.inl (updated + 1)) s₂) := by
        refine (cachedNode_runs hk).bind ?_
        rw [if_pos (by simp [ReusableIterator.bool])]
        refine Runs.bind (Runs.of_eq fun _ => rfl) ?_
        refine Runs.bind (hfirst.bind (Runs.of_eq fun _ => rfl)) ?_
        exact hnext.bind (Runs.of_eq fun _ => rfl)
      have hcount : updated + (n :: left).length = updated + 1 + left.length := by
        rw [List.length_cons]
        omega
      rw [hcount]
      exact ⟨t, r, Runs.loop_step_ret hpass hloop, hresponse, hdb, hr⟩

/-- The loop over a cached reference updates its nodes and reports their number. -/
theorem updateNodesAt_runs (hs : s.Writable) (hti : Exhausted ti) {l : List NodeID}
    (hps : l ≠ [] → Readable un.properties) (hk : s.cachedNodes k = some ⟨ti, [], l⟩) :
    ∃ t, Runs (updateNodesAt un k) s (.ret 0 t) ∧ t.db = s.db.updateNodes un.change l ∧
      t.response = { s.response with
        rType := .count, errorCode := .success, op := .int l.length } := by
  obtain ⟨t, r, hloop, hresponse, hdb, hr⟩ := updateLoop_runs hti l hps 0 hs hk
  rw [Nat.zero_add] at hloop
  let u := (t.cacheNode k r.reset).modifyResponse fun resp =>
    { resp with rType := .count, errorCode := .success }
  refine ⟨u.modifyResponse fun resp => { resp with op := .int l.length }, ?_, hdb, ?_⟩
  · refine hloop.bind ((resetCached_runs hr).bind ?_)
    exact Runs.of_eq fun _ => rfl
  · simp only [u, Handler.modifyResponse, Handler.cacheNode, hresponse]

omit [Platform.Quiet] in
/-- The first node cannot be updated. -/
theorem updateNodesAt_throws (hps : ¬ Readable un.properties) {n : NodeID} {left : List NodeID}
    (hk : s.cachedNodes k = some ⟨ti, [], n :: left⟩) :
    Sat (updateNodesAt un k) s (fun _ _ => False) fun _ _ => True := by
  refine Sat.bind (P := fun _ _ => False) ?_ fun _ _ h => h.elim
  refine Sat.loop (fun _ s => s.cachedNodes k = some ⟨ti, [], n :: left⟩) ?_ hk
  intro updated s hk
  refine Sat.bind ((Sat.of_runs (cachedNode_runs hk)
      (Q := fun r t => r = ⟨ti, [], n :: left⟩ ∧ s = t)
    (R := fun _ _ => True) ⟨rfl, rfl⟩).mono (fun _ _ h => h) fun _ _ _ => trivial) ?_
  rintro - - ⟨rfl, rfl⟩
  rw [if_pos (by simp [ReusableIterator.bool])]
  refine Sat.bind (P := fun m t => n = m) (Sat.pure rfl) ?_
  rintro - t rfl
  refine Sat.bind (P := fun _ _ => False) ?_ fun _ _ h => h.elim
  exact Sat.bind (updateElement_throws hps _ _) fun _ _ h => h.elim

end Cached

/-! ### The query of an update -/

/-- The query of an update: over all nodes, under an identifier, with the result type
`NodeID`. -/
structure QueryNode.ForUpdate (qn : QueryNode) : Prop where
  identifier : 0 ≤ qn.identifier
  link : qn.link = none
  results : qn.results = { rType := .nodeID }

section Query

variable [Platform.Quiet] {qn : QueryNode} {ni : NodeIterator} {s : Handler}

/-- What is cached of a query that has gone through all that it found. -/
theorem queryNodeFinish_lists (hqn : qn.ForUpdate) {tni : ReusableIterator NodeIterator NodeID}
    {l : List NodeID} (h : View SearchView tni s [] l) :
    ∃ t ti, Runs (queryNodeFinish qn none tni) s (.ret 0 t) ∧ t.db = s.db ∧
      t.txMode = s.txMode ∧ t.response.errorCode = s.response.errorCode ∧
      t.cachedNodes (toInt qn.identifier) = some ⟨ti, [], l⟩ ∧ Exhausted ti := by
  obtain ⟨tni', op, hbuild, hpast, m, hm, hnil, -⟩ := nodeIDs_runs h
  obtain ⟨hrest, rfl⟩ := List.append_eq_nil_iff.1 hnil.symm
  let t := s.modifyResponse fun r => { r with op := op }
  have hsettle : settle tni'.reset = ⟨(settle tni').ti, [], l⟩ := by
    rw [List.nil_append] at hpast
    simp [settle, ReusableIterator.reset, ReusableIterator.traversed, hpast, hrest]
  have hti : Exhausted (settle tni').ti := by
    cases htni : tni'.ti with
    | none => simp [Exhausted, settle, htni, orNull]
    | some ni =>
        rw [htni] at hm
        obtain ⟨i, rfl, -, hahead, -⟩ := hm
        simpa [Exhausted, settle, htni, orNull] using hahead.bool_eq
  have hstart : Runs (sortResults NodeIterator.iter Element.node qn.results tni) s
      (.ret tni s) := by
    rw [hqn.results]
    exact Runs.of_eq fun n => rfl
  have hresults : Runs (reusableResults NodeIterator.iter Element.node qn.results tni) s
      (.ret tni' t) := by
    rw [hqn.results]
    exact hbuild
  refine ⟨t.cacheNode (toInt qn.identifier) (settle tni'.reset), (settle tni').ti,
    hstart.bind (hresults.bind ?_), rfl, rfl, rfl, ?_, hti⟩
  · simp only [cacheResult, when_pos hqn.identifier]
    exact Runs.of_eq fun n => rfl
  · rw [hsettle]
    exact Handler.cacheNode_same t _ _

/-- A query that finds something, and one node only if it is unique: all of it is cached, and
nothing is left to be searched for. -/
theorem queryNodeFrom_lists (hqn : qn.ForUpdate)
    (hrun : Runs (queryNodeSearch qn none) s (.ret ni s)) {n : NodeID} {l : List NodeID}
    (h : SearchView ni s (n :: l)) (hunique : qn.constraints.unique = true → l = []) :
    ∃ t ti, Runs (queryNodeFrom qn none) s (.ret 0 t) ∧ t.db = s.db ∧ t.txMode = s.txMode ∧
      t.response.errorCode = .success ∧
      t.cachedNodes (toInt qn.identifier) = some ⟨ti, [], n :: l⟩ ∧ Exhausted ti := by
  have hfound : SearchView ni s.found (n :: l) := h
  obtain ⟨tni, u, hnew, hview, hu⟩ := View.new_runs searchView_tracks hfound
  obtain rfl := eq_of_reflTransGen_eq hu
  have hbool : NodeIterator.iter.bool ni = true := by
    rw [searchView_tracks.bool_eq h]
    rfl
  have hstart : ∀ {o}, Runs (queryNodeReusable qn none ni) s.found o →
      Runs (queryNodeFrom qn none) s o := by
    intro o ho
    refine hrun.bind ?_
    rw [hbool, if_neg (by simp), queryNodeFound, hqn.results]
    refine (setType_found s).bind ?_
    rw [if_neg (not_not.2 (.inl hqn.identifier))]
    exact ho
  by_cases hu : qn.constraints.unique = true
  · obtain rfl := hunique hu
    obtain ⟨tni', v, hnext, hview', hv⟩ := hview.next_runs searchView_tracks
    obtain rfl := eq_of_reflTransGen_eq hv
    obtain ⟨t, ti, hfinish, hdb, htx, hcode, hk, hti⟩ := queryNodeFinish_lists hqn hview'.reset
    refine ⟨t, ti, hstart (hnew.bind ?_), hdb, htx, hcode, hk, hti⟩
    rw [if_pos hu]
    refine hnext.bind ?_
    rw [hview'.bool_eq]
    exact hfinish
  · obtain ⟨t, ti, hfinish, hdb, htx, hcode, hk, hti⟩ := queryNodeFinish_lists hqn hview
    refine ⟨t, ti, hstart (hnew.bind ?_), hdb, htx, hcode, hk, hti⟩
    rw [if_neg hu]
    exact hfinish

end Query

/-! ### The command -/

/-- The nodes that the search of a query is for. -/
def QueryNode.Matches (qn : QueryNode) (g : Graph) (n : NodeID) : Prop :=
  ∃ e, qn.constraints.search = .ok e ∧ e.Selects g n

/-- The search matches a node, and one only if it is unique. -/
def QueryNode.Hits (qn : QueryNode) (g : Graph) : Prop :=
  (∃ n, qn.Matches g n) ∧
    (qn.constraints.unique = true → ∀ n m, qn.Matches g n → qn.Matches g m → n = m)

/-- **An update by search.** Where the search matches, the nodes that it matches beforehand are
changed, and nothing else is, and the answer is their number. Where it does not, nothing is
changed, and the answer is an error. -/
structure UpdatesMatching (cmd : Command) (qn : QueryNode) (s : Handler) : Prop where
  hit : qn.Hits s.db → ∃ t, Runs (processQuery cmd) s (.ret 0 t) ∧
    t.response.errorCode = .success ∧ t.response.rType = .count ∧
    (∃ l : List NodeID, l.Nodup ∧ (∀ n, n ∈ l ↔ qn.Matches s.db n) ∧
      t.response.op = .int l.length) ∧
    t.db.edges = s.db.edges ∧
    (∀ n, qn.Matches s.db n → t.db.node n =
      (s.db.node n).map fun nd => { nd with props := cmd.updateNode.change nd.props }) ∧
    ∀ n, ¬ qn.Matches s.db n → t.db.node n = s.db.node n
  miss : ¬ qn.Hits s.db → ∃ v t, Runs (processQuery cmd) s (.ret v t) ∧
    t.response.errorCode ≠ .success ∧ t.db = s.db

/-- An update with a search, as it is built, whose reference is free. -/
structure SearchedUpdate (cmd : Command) (qn : QueryNode) (s : Handler) : Prop where
  cmdId : cmd.cmdId = .updateNode
  query_eq : cmd.updateNode.queryNode = some qn
  forUpdate : qn.ForUpdate
  conjunction : qn.constraints.pOp ≠ .or
  identifier : 0 ≤ cmd.updateNode.identifier → cmd.updateNode.identifier = qn.identifier
  free : s.cachedNodes (toInt qn.identifier) = none

/-- An update with constraints carries a query under its own reference or the next internal one,
with the result type `NodeID`. -/
theorem PMGDQuery.updateNode_inv {q q' : PMGDQuery} {cmd : Command} {ref : ℤ} {tag : String}
    {props removeProps constraints : Json} {unique : Bool}
    (h : q.updateNode ref tag props removeProps constraints unique = .ok q')
    (hconstraints : constraints.isNull = false) (hcmd : q'.cmds = q.cmds ++ [cmd]) :
    cmd.cmdId = .updateNode ∧ cmd.updateNode.identifier = ref ∧
      ∃ qn, cmd.updateNode.queryNode = some qn ∧ qn.ForUpdate ∧
        (qn.constraints.pOp = .or ↔ ∃ m ∈ constraints.members, memberIsList m = true) ∧
        (0 ≤ ref → ref = qn.identifier) := by
  obtain ⟨properties, -, h⟩ := bind_ok_inv h
  obtain ⟨removed, -, h⟩ := bind_ok_inv h
  simp only [hconstraints, Bool.false_eq_true, if_false] at h
  obtain ⟨p, hp, h⟩ := bind_ok_inv h
  obtain ⟨-, -, -, -, -, hor⟩ := parseQueryConstraints_inv hp
  injection h with h
  have hsame : (q.queryReference ref constraints).2.cmds = q.cmds := queryReference_cmds
  rw [← h, ← hsame] at hcmd
  rw [push_inv hcmd]
  refine ⟨rfl, rfl, _, rfl, ⟨queryReference_nonneg hconstraints, rfl, rfl⟩, hor, fun href => ?_⟩
  simp [queryReference, href]

section Command

variable {s : Handler} {cmd : Command} {qn : QueryNode} {e : SearchExpression}

/-- The query is run, and what it finds is updated. -/
theorem SearchedUpdate.apply_eq (h : SearchedUpdate cmd qn s) (n : ℕ) :
    updateNode cmd.updateNode n (s.begin cmd) = (do
      let _ ← queryNodeFrom qn none
      updateNodeFound cmd.updateNode qn) n (s.begin cmd) := by
  have hfree : (s.begin cmd).cachedNodes (toInt qn.identifier) = none := h.free
  have hown : ¬ (0 ≤ cmd.updateNode.identifier ∧
      ((s.begin cmd).cachedNodes (toInt cmd.updateNode.identifier)).isSome) := by
    rintro ⟨hid, hsome⟩
    rw [h.identifier hid, hfree] at hsome
    cases hsome
  simp only [updateNode, bind_apply, get_apply, Outcome.andThen_ret, if_neg hown, h.query_eq]
  simp [queryNode, hfree, h.forUpdate.link]

/-- An update by a search runs the query and then the loop over what it found. -/
theorem SearchedUpdate.runs (h : SearchedUpdate cmd qn s) {v v' : ℤ} {t u : Handler}
    (hquery : Runs (queryNodeFrom qn none) (s.begin cmd) (.ret v t))
    (hrest : Runs (updateNodeFound cmd.updateNode qn) t (.ret v' u)) :
    Runs (processQuery cmd) s (.ret 0 u) := by
  have hupdate : Runs (updateNode cmd.updateNode) (s.begin cmd) (.ret v' u) := by
    obtain ⟨N, hN⟩ := hquery.bind (f := fun _ => updateNodeFound cmd.updateNode qn) hrest
    exact ⟨N, fun n hn => (h.apply_eq n).trans (hN n hn)⟩
  refine Runs.bind (Runs.of_eq fun _ => rfl) (Runs.tryCatch ?_)
  simp only [dispatch, h.cmdId]
  exact hupdate.bind (Runs.of_eq fun _ => rfl)

/-- An error of the query is that of the update. -/
theorem SearchedUpdate.reports (h : SearchedUpdate cmd qn s) {v : ℤ} {t : Handler}
    (hquery : Runs (queryNodeFrom qn none) (s.begin cmd) (.ret v t))
    (hcode : t.response.errorCode ≠ .success) : Runs (processQuery cmd) s (.ret 0 t) := by
  have hrest : Runs (updateNodeFound cmd.updateNode qn) t (.ret (-1) t) := by
    refine Runs.bind (Runs.of_eq fun _ => rfl) ?_
    rw [if_pos hcode]
    exact Runs.of_eq fun _ => rfl
  exact h.runs hquery hrest

/-- The nodes that a query matches are those that its search selects. -/
theorem QueryNode.matches_iff (he : qn.constraints.search = .ok e) {g : Graph} {n : NodeID} :
    qn.Matches g n ↔ e.Selects g n := by
  constructor
  · rintro ⟨e', he', h⟩
    obtain rfl : e = e' := Except.ok.inj (he.symm.trans he')
    exact h
  · exact fun h => ⟨e, he, h⟩

/-- Constraints that cannot be read are an exception. -/
theorem SearchedUpdate.unreadable (h : SearchedUpdate cmd qn s) {x : PMGDException}
    (hx : qn.constraints.search = .error x) :
    ∃ v t, Runs (processQuery cmd) s (.ret v t) ∧ t.response.errorCode ≠ .success ∧
      t.db = s.db := by
  have hthrow : ∀ n, updateNode cmd.updateNode n (s.begin cmd) = .throw x (s.begin cmd) := by
    intro n
    rw [h.apply_eq]
    simp [queryNodeFrom, queryNodeSearch, hx, ofExcept, bind_apply]
  refine ⟨-1, (s.begin cmd).modifyResponse fun r =>
    { r with errorCode := .exception, errorMsg := x.name ++ ": " ++ x.msg },
    Runs.bind (Runs.of_eq fun _ => rfl) (Runs.of_eq fun n => ?_), by simp [Handler.modifyResponse],
    rfl⟩
  have hdispatch : dispatch cmd n (s.begin cmd) = .throw x (s.begin cmd) := by
    simp only [dispatch, h.cmdId, bind_apply, hthrow, Outcome.andThen_throw]
  have hbegin : ({ s with response := { nodeEdge := true, cmdGrpId := cmd.cmdGrpId } } : Handler) =
      s.begin cmd := rfl
  simp only [hbegin, Prog.tryCatch, hdispatch]
  rfl

/-- The search of an update is conjunctive. -/
theorem SearchedUpdate.isOr_eq (h : SearchedUpdate cmd qn s)
    (he : qn.constraints.search = .ok e) : e.isOr = false := by
  obtain ⟨pps, -, hpps⟩ := bind_ok_inv he
  obtain rfl := Except.ok.inj hpps
  simpa using h.conjunction

/-- What is found is updated. -/
theorem updateNodeFound_eq {un : UpdateNode} {t : Handler} (hqn : qn.ForUpdate)
    (hcode : t.response.errorCode = .success) (n : ℕ) :
    updateNodeFound un qn n t = updateNodesAt un (toInt qn.identifier) n t := by
  simp [updateNodeFound, hcode, hqn.identifier]

variable [Platform.Lawful] [Platform.Quiet]

omit [Platform.Quiet] in
/-- The matches of the search, as it lists them. -/
theorem SearchedUpdate.mem_matchList (h : SearchedUpdate cmd qn s)
    (he : qn.constraints.search = .ok e) {g : Graph} {n : NodeID} :
    n ∈ e.matchList g ↔ qn.Matches g n := by
  rw [QueryNode.matches_iff he, SearchExpression.mem_matchList, SearchExpression.Selects,
    if_neg (by simp [h.isOr_eq he])]

/-- What is found, where the search matches. -/
theorem SearchedUpdate.finds (h : SearchedUpdate cmd qn s) (hs : s.Writable)
    (hhits : qn.Hits s.db) : ∃ t ti n l, Runs (queryNodeFrom qn none) (s.begin cmd) (.ret 0 t) ∧
      t.db = s.db ∧ t.Writable ∧ t.response.errorCode = .success ∧
      t.cachedNodes (toInt qn.identifier) = some ⟨ti, [], n :: l⟩ ∧ Exhausted ti ∧
      (n :: l).Nodup ∧ ∀ m, m ∈ n :: l ↔ qn.Matches s.db m := by
  obtain ⟨⟨n₀, e, he, hn₀⟩, hunique⟩ := hhits
  have hopen : (s.begin cmd).Open := hs.isOpen
  obtain ⟨ni, hrun, hview⟩ := queryNodeSearch_and hopen he (h.isOr_eq he)
  have hmem : ∀ m, m ∈ e.matchList s.db ↔ qn.Matches s.db m := fun m => h.mem_matchList he
  have hnodup := SearchExpression.matchList_nodup e s.db
  have hdb : (s.begin cmd).db = s.db := rfl
  rw [hdb] at hview
  cases hl : e.matchList s.db with
  | nil =>
      rw [hl] at hmem
      exact absurd ((hmem n₀).2 ⟨e, he, hn₀⟩) List.not_mem_nil
  | cons n l =>
      rw [hl] at hview hmem hnodup
      have hone : qn.constraints.unique = true → l = [] := by
        intro hu
        cases l with
        | nil => rfl
        | cons m l =>
            have hnm := hunique hu n m ((hmem n).1 (by simp)) ((hmem m).1 (by simp))
            simp [hnm] at hnodup
      obtain ⟨t, ti, hquery, htdb, htx, hcode, hk, hti⟩ :=
        queryNodeFrom_lists h.forUpdate hrun hview hone
      exact ⟨t, ti, n, l, hquery, htdb, htx.trans hs, hcode, hk, hti, hnodup, hmem⟩

/-- A search that finds nodes, and one node if it is unique, updates what it matches. -/
theorem SearchedUpdate.hit (h : SearchedUpdate cmd qn s) (hs : s.Writable)
    (hhits : qn.Hits s.db) (hps : Readable cmd.updateNode.properties) :
    ∃ t, Runs (processQuery cmd) s (.ret 0 t) ∧
      t.response.errorCode = .success ∧ t.response.rType = .count ∧
      (∃ l : List NodeID, l.Nodup ∧ (∀ n, n ∈ l ↔ qn.Matches s.db n) ∧
        t.response.op = .int l.length) ∧
      t.db.edges = s.db.edges ∧
      (∀ n, qn.Matches s.db n → t.db.node n =
        (s.db.node n).map fun nd => { nd with props := cmd.updateNode.change nd.props }) ∧
      ∀ n, ¬ qn.Matches s.db n → t.db.node n = s.db.node n := by
  obtain ⟨t, ti, n, l, hquery, htdb, ht, hcode, hk, hti, hnodup, hmem⟩ := h.finds hs hhits
  obtain ⟨u, hupdate, hudb, hresponse⟩ := updateNodesAt_runs ht hti (fun _ => hps) hk
  have hrest : Runs (updateNodeFound cmd.updateNode qn) t (.ret 0 u) := by
    obtain ⟨N, hN⟩ := hupdate
    exact ⟨N, fun k hk => (updateNodeFound_eq h.forUpdate hcode k).trans (hN k hk)⟩
  rw [htdb] at hudb
  refine ⟨u, h.runs hquery hrest, by rw [hresponse], by rw [hresponse],
    ⟨n :: l, hnodup, hmem, by rw [hresponse]⟩, ?_, fun m hm => ?_, fun m hm => ?_⟩
  · rw [hudb, Graph.updateNodes_edges]
  · rw [hudb, Graph.node_updateNodes hnodup, if_pos ((hmem m).2 hm)]
  · rw [hudb, Graph.node_updateNodes hnodup, if_neg fun hin => hm ((hmem m).1 hin)]

/-- A value that cannot be read is an exception, once there is a node to be updated. -/
theorem SearchedUpdate.rejected (h : SearchedUpdate cmd qn s) (hs : s.Writable)
    (hhits : qn.Hits s.db) (hps : ¬ Readable cmd.updateNode.properties) {t : Handler} :
    ¬ Runs (processQuery cmd) s (.ret 0 t) := by
  intro hrun
  obtain ⟨u, ti, n, l, hquery, -, -, hcode, hk, -, -, -⟩ := h.finds hs hhits
  rcases processQuery_inv hrun with hdispatch | ⟨hv, -⟩
  · simp only [dispatch, h.cmdId] at hdispatch
    obtain ⟨v, t', hupdate, -⟩ := hdispatch.bind_inv
    have hfound : Runs (do
        let _ ← queryNodeFrom qn none
        updateNodeFound cmd.updateNode qn) (s.begin cmd) (.ret v t') := by
      obtain ⟨N, hN⟩ := hupdate
      exact ⟨N, fun k hk => (h.apply_eq k).symm.trans (hN k hk)⟩
    obtain ⟨v', u', hquery', hupdates⟩ := hfound.bind_inv
    have heq := hquery'.unique hquery
    injection heq with _ heq
    subst heq
    have hat : Runs (updateNodesAt cmd.updateNode (toInt qn.identifier)) u' (.ret v t') := by
      obtain ⟨N, hN⟩ := hupdates
      exact ⟨N, fun k hk => (updateNodeFound_eq h.forUpdate hcode k).symm.trans (hN k hk)⟩
    exact (updateNodesAt_throws hps hk).ret hat
  · cases hv

/-- Any other search reports no success and leaves the graph as it was. -/
theorem SearchedUpdate.miss (h : SearchedUpdate cmd qn s) (hs : s.Writable)
    (hmiss : ¬ qn.Hits s.db) : ∃ v t, Runs (processQuery cmd) s (.ret v t) ∧
      t.response.errorCode ≠ .success ∧ t.db = s.db := by
  cases hsearch : qn.constraints.search with
  | error x => exact h.unreadable hsearch
  | ok e =>
      have hopen : (s.begin cmd).Open := hs.isOpen
      obtain ⟨ni, hrun, hview⟩ := queryNodeSearch_and hopen hsearch (h.isOr_eq hsearch)
      have hmem : ∀ m, m ∈ e.matchList s.db ↔ qn.Matches s.db m := fun m =>
        h.mem_matchList hsearch
      have hdb : (s.begin cmd).db = s.db := rfl
      rw [hdb] at hview
      cases hl : e.matchList s.db with
      | nil =>
          rw [hl] at hview
          have hquery := queryNodeFrom_null hrun (searchView_tracks.bool_eq hview)
            h.forUpdate.identifier
          exact ⟨0, _, h.reports hquery (by simp [Handler.modifyResponse]),
            by simp [Handler.modifyResponse], rfl⟩
      | cons n l =>
          rw [hl] at hview hmem
          have hnotunique : qn.constraints.unique = true ∧ l ≠ [] := by
            by_contra hno
            refine hmiss ⟨⟨n, (hmem n).1 (by simp)⟩, fun hu m m' hm hm' => ?_⟩
            have hnil : l = [] := by
              by_contra hne
              exact hno ⟨hu, hne⟩
            rw [hnil] at hmem
            rw [List.mem_singleton.1 ((hmem m).2 hm), List.mem_singleton.1 ((hmem m').2 hm')]
          obtain ⟨m, l, rfl⟩ := List.exists_cons_of_ne_nil hnotunique.2
          have htwice : PullsTwice NodeIterator.iter ni (s.begin cmd).found :=
            SearchView.pullsTwice (s := (s.begin cmd).found) hview
          have hquery := queryNodeFrom_twice
            ⟨h.forUpdate.link, hnotunique.1, h.forUpdate.results⟩ hrun htwice
          exact ⟨0, _, h.reports hquery (by simp [Handler.modifyResponse]),
            by simp [Handler.modifyResponse], rfl⟩

/-- An update with a free reference does what it says exactly if the search matches nothing, or
not one node only where it is to be unique, or all values of the given properties can be read. -/
theorem SearchedUpdate.updatesMatching_iff (h : SearchedUpdate cmd qn s) (hs : s.Writable) :
    UpdatesMatching cmd qn s ↔ (qn.Hits s.db → Readable cmd.updateNode.properties) := by
  constructor
  · intro hupdates hhits
    by_contra hps
    obtain ⟨t, hrun, -⟩ := hupdates.hit hhits
    exact h.rejected hs hhits hps hrun
  · exact fun hps => ⟨fun hhits => h.hit hs hhits (hps hhits), h.miss hs⟩

/-- **Updates by search.** For constraints without lists of values and a free reference, and with
dates that `string_to_tm` reads, an update does what it says. -/
theorem update_by_search (hs : s.Writable) {q q' : PMGDQuery} {ref : ℤ} {tag : String}
    {props removeProps constraints : Json} {unique : Bool}
    (h : q.updateNode ref tag props removeProps constraints unique = .ok q')
    (hconstraints : constraints.isNull = false) (hcmds : q'.cmds = q.cmds ++ [cmd])
    (hlists : ∀ m ∈ constraints.members, memberIsList m = false)
    (hfree : ∀ qn, cmd.updateNode.queryNode = some qn →
      s.cachedNodes (toInt qn.identifier) = none)
    (hdates : ∀ p ∈ cmd.updateNode.properties, p.type = .timeType →
      ∃ t, stringToTime p.timeValue = .ok t) :
    ∃ qn, cmd.updateNode.queryNode = some qn ∧ UpdatesMatching cmd qn s := by
  obtain ⟨hid, href, qn, hqn, hupdate, hor, hown⟩ := PMGDQuery.updateNode_inv h hconstraints hcmds
  have hand : qn.constraints.pOp ≠ .or := by
    intro hop
    obtain ⟨m, hm, hlist⟩ := hor.1 hop
    rw [hlists m hm] at hlist
    cases hlist
  have hps : Readable cmd.updateNode.properties := fun p hp => readable_of_date (hdates p hp)
  have hcmd : SearchedUpdate cmd qn s :=
    ⟨hid, hqn, hupdate, hand, by rwa [href], hfree qn hqn⟩
  exact ⟨qn, hqn, (hcmd.updatesMatching_iff hs).2 fun _ => hps⟩

end Command

end

/-- The nodes with the tag `A` whose property `a` is 1. -/
def ones : QueryNode where
  identifier := referenceRangeStart
  constraints := { (unlessOne 0).constraints with unique := false }
  results := { rType := .nodeID }

/-- The update that makes it 2. -/
def makeTwos : Command where
  cmdId := .updateNode
  updateNode :=
    { identifier := -1
      queryNode := some ones
      properties := [{ type := .integerType, key := "a", intValue := 2 }] }

/-- The properties of a node whose property `a` is this number. -/
def withA (z : ℤ) : Props :=
  Function.update (fun _ => none) (Platform.stringID "a") (some (.integer z))

/-- A graph with two such nodes and one that is 3, in a transaction that is open for writing. -/
def withOnes : Handler :=
  Handler.inTransaction ⟨[some ⟨Platform.stringID "A", withA 1⟩,
    some ⟨Platform.stringID "A", withA 3⟩, some ⟨Platform.stringID "A", withA 1⟩], []⟩

/-- Both nodes are updated once, although the update makes them ones that the search does not
match. -/
theorem update_by_search_once :
    ones.Hits withOnes.db ∧ UpdatesMatching makeTwos ones withOnes := by
  have hsearch : ones.constraints.search = .ok oneExpr := rfl
  have hmatch : ones.Matches withOnes.db 0 := by
    rw [QueryNode.matches_iff hsearch, SearchExpression.Selects, if_neg (by decide)]
    refine ⟨_, rfl, by decide, fun pp hpp => ?_⟩
    obtain rfl := List.mem_singleton.1 hpp
    decide
  have hbuilt : (PMGDQuery.new 0 0).updateNode (-1) "A" (.object [("a", .int 2)]) .null
      (.object [("a", .array [.string "==", .int 1])]) false = .ok
        { PMGDQuery.new 0 0 with
          cmds := (PMGDQuery.new 0 0).cmds ++ [makeTwos]
          currentRef := referenceRangeStart + 1
          readonly := false } := rfl
  obtain ⟨qn, hqn, hupdates⟩ := update_by_search (s := withOnes) rfl hbuilt rfl rfl
    (fun m hm => by obtain rfl := List.mem_singleton.1 hm; decide)
    (fun qn hqn => by obtain rfl := Option.some.inj hqn; rfl)
    (fun p hp hdate => by obtain rfl := List.mem_singleton.1 hp; cases hdate)
  obtain rfl : ones = qn := Option.some.inj hqn
  exact ⟨⟨⟨0, hmatch⟩, fun hunique => by cases hunique⟩, hupdates⟩

end Vdms
