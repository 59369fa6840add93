import Vdms.Building
import Vdms.Reaching
import Vdms.Reusable
import Vdms.Transactions
import Vdms.Updates

/-!
# Adding a Node Unless It Is There

An `AddNode` with constraints carries a query, and `add_node` runs it first. Three things
decide what comes of it. A query with a reference reports an empty search as `Empty`; one
without a reference reports `Success`, which `add_node` takes for a node found. A
disjunctive search never ends once it has found a node (`or_search_never_ends`), so it is
never unique. And a node with a property that cannot be read is not added.

## Main results

* `queryNodeFrom_null`, `queryNodeFrom_unnamed`, `queryNodeFrom_single`,
  `queryNodeFrom_twice`: the four ways a unique query can come out.
* `addNewNode_runs`: the addition itself.
* `conditional_add_iff`: when a conditional addition finds or creates its node.
-/

namespace Vdms

open Imp Imp.Prog Platform Relation

section

variable [Platform]

/-! ### Pulling twice -/

section Pull

variable {ι τ : Type} {I : Iter Handler PMGDException ι τ} {r : ReusableIterator ι τ}
  {i i' : ι} {x : τ} {s s' : Handler}

omit [Platform] in
/-- `next` at the last element in the list pulls one more. -/
theorem ReusableIterator.pull_runs (hti : r.ti = some i) (hrest : r.rest.drop 1 = [])
    (hbool : I.bool i = true) (href : Runs (I.ref i) s (.ret x s))
    (hnext : Runs (I.next i) s (.ret i' s')) :
    Runs (r.next I) s (.ret ⟨some i', r.passed ++ r.rest.take 1, [x]⟩ s') := by
  have hpull : Runs ((orNull I).next r.ti) s (.ret (some i') s') := by
    rw [hti]
    exact hnext.bind (Runs.of_eq fun n => rfl)
  have hread : Runs ((orNull I).ref r.ti) s (.ret x s) := by
    rw [hti]
    exact href
  have hb : (orNull I).bool r.ti = true := by
    rw [hti]
    exact hbool
  simp only [ReusableIterator.next, ReusableIterator.advance, hrest, List.isEmpty_nil,
    Bool.not_true, Bool.false_eq_true, if_false, hb, if_true]
  exact hread.bind (hpull.bind (Runs.of_eq fun n => rfl))

/-- Two elements can be pulled from the iterator. -/
def PullsTwice (I : Iter Handler PMGDException ι τ) (i : ι) (s : Handler) : Prop :=
  ∃ x i₁ y i₂, I.bool i = true ∧ Runs (I.ref i) s (.ret x s) ∧
    Runs (I.next i) s (.ret i₁ s) ∧ I.bool i₁ = true ∧ Runs (I.ref i₁) s (.ret y s) ∧
    Runs (I.next i₁) s (.ret i₂ s)

omit [Platform] in
theorem PullsTwice.runs (h : PullsTwice I i s) :
    ∃ tni tni' : ReusableIterator ι τ, Runs (ReusableIterator.new I i) s (.ret tni s) ∧
      Runs (tni.next I) s (.ret tni' s) ∧ tni'.bool = true := by
  obtain ⟨x, i₁, y, i₂, hb, hx, hi, hb₁, hy, hi₁⟩ := h
  have hnew : Runs (ReusableIterator.new I i) s (.ret ⟨some i₁, [], [x]⟩ s) :=
    ReusableIterator.pull_runs rfl rfl hb hx hi
  have hnext : Runs (ReusableIterator.next I ⟨some i₁, [], [x]⟩) s
      (.ret ⟨some i₂, [x], [y]⟩ s) := ReusableIterator.pull_runs rfl rfl hb₁ hy hi₁
  exact ⟨_, _, hnew, hnext, rfl⟩

end Pull

/-! ### The ways a unique query comes out -/

/-- The query of a conditional addition: over all nodes, unique, with the result type
`NodeID`. -/
structure QueryNode.Conditional (qn : QueryNode) : Prop where
  link : qn.link = none
  unique : qn.constraints.unique = true
  results : qn.results = { rType := .nodeID }

/-- The state in which a query goes over what it found. -/
def Handler.found (s : Handler) : Handler :=
  s.modifyResponse fun r => { r with rType := .nodeID, errorCode := .success }

section Query

variable {qn : QueryNode} {ni : NodeIterator} {s : Handler}

omit [Platform] in
/-- Opening the response of a query that goes over what it found. -/
theorem setType_found (s : Handler) : Runs (setType .nodeID .success) s (.ret () s.found) :=
  Runs.of_eq fun _ => rfl

theorem queryNodeFound_conditional (hqn : qn.Conditional) :
    queryNodeFound qn none ni = (do
      setType .nodeID .success
      let tni ← ReusableIterator.new NodeIterator.iter ni
      let tni ← tni.next NodeIterator.iter
      if tni.bool then do
        setError .notUnique "Query response not unique"
        pure (-1)
      else queryNodeFinish qn none tni.reset) := by
  simp only [queryNodeFound, queryNodeReusable, hqn.unique, hqn.results, resetStart]
  simp only [Bool.false_eq_true, or_true, true_or, not_true_eq_false, if_false, if_true]
  rfl

/-- A query with a reference that finds nothing. -/
theorem queryNodeFrom_null (hrun : Runs (queryNodeSearch qn none) s (.ret ni s))
    (hbool : NodeIterator.iter.bool ni = false) (hid : 0 ≤ qn.identifier) :
    Runs (queryNodeFrom qn none) s (.ret (-1) (s.modifyResponse fun r =>
      { r with errorCode := .empty, errorMsg := "Null search iterator" })) := by
  refine hrun.bind ?_
  rw [hbool, if_pos ⟨rfl, hid⟩]
  exact Runs.of_eq fun n => rfl

/-- A query without a reference that finds nothing: it goes over nothing, and succeeds. -/
theorem queryNodeFrom_unnamed (hqn : qn.Conditional)
    (hrun : Runs (queryNodeSearch qn none) s (.ret ni s))
    (hbool : NodeIterator.iter.bool ni = false) (hid : ¬ 0 ≤ qn.identifier) :
    Runs (queryNodeFrom qn none) s (.ret 0 s.found) := by
  have hnull : ReusableIterator.next NodeIterator.iter ⟨some ni, [], []⟩ =
      (pure ⟨some ni, [], []⟩ : Handling (ReusableIterator NodeIterator NodeID)) := by
    simp [ReusableIterator.next, ReusableIterator.advance, orNull, hbool]
  refine hrun.bind ?_
  rw [if_neg (by simp [hid]), queryNodeFound_conditional hqn]
  refine (setType_found s).bind ?_
  rw [ReusableIterator.new, hnull]
  refine Runs.bind (Runs.of_eq fun n => rfl) ?_
  rw [hnull]
  refine Runs.bind (Runs.of_eq fun n => rfl) ?_
  have hbuild : Runs (reusableResults NodeIterator.iter Element.node qn.results
      ⟨some ni, [], []⟩) s.found (.ret ⟨some ni, [], []⟩ s.found) := by
    rw [hqn.results]
    exact Runs.bind (Runs.loop_stop (Runs.of_eq fun n => rfl)) (Runs.of_eq fun n => rfl)
  have hsort : Runs (sortResults NodeIterator.iter Element.node qn.results
      ⟨some ni, [], []⟩) s.found (.ret ⟨some ni, [], []⟩ s.found) := by
    rw [hqn.results]
    exact Runs.of_eq fun n => rfl
  refine hsort.bind (hbuild.bind ?_)
  simp only [cacheResult, when_neg hid]
  exact Runs.of_eq fun n => rfl

/-- A query that finds two nodes. -/
theorem queryNodeFrom_twice (hqn : qn.Conditional)
    (hrun : Runs (queryNodeSearch qn none) s (.ret ni s))
    (h : PullsTwice NodeIterator.iter ni s.found) :
    Runs (queryNodeFrom qn none) s (.ret (-1) (s.found.modifyResponse fun r =>
      { r with errorCode := .notUnique, errorMsg := "Query response not unique" })) := by
  obtain ⟨tni, tni', hnew, hnext, hb⟩ := h.runs
  have hbool : NodeIterator.iter.bool ni = true := by
    obtain ⟨_, _, _, _, hbool, -⟩ := h
    exact hbool
  refine hrun.bind ?_
  rw [hbool, if_neg (by simp), queryNodeFound_conditional hqn]
  refine (setType_found s).bind ?_
  refine hnew.bind (hnext.bind ?_)
  rw [if_pos hb]
  exact Runs.of_eq fun n => rfl

/-- What a search over all nodes has ahead. -/
def SearchView (ni : NodeIterator) (s : Handler) (l : List NodeID) : Prop :=
  ∃ i, ni = .search i ∧ s.Open ∧ i.Ahead s.db l ∧ i.Scans

variable [Platform.Quiet]

theorem searchView_tracks : NodeIterator.iter.Tracks SearchView Eq where
  bool_eq := by
    rintro _ s l ⟨i, rfl, -, hi, -⟩
    exact hi.bool_eq
  ref_runs := by
    rintro _ s n l ⟨i, rfl, -, hi, -⟩
    exact hi.ref_runs
  next_runs := by
    rintro _ s n l ⟨i, rfl, hs, hi, hscan⟩
    obtain ⟨i', hrun, hi', hscan'⟩ := hi.next_runs hs
    exact ⟨.search i', s, hrun.bind (Runs.of_eq fun n => rfl),
      ⟨i', rfl, hs, hi', hscan' hscan⟩, rfl⟩

theorem SearchView.pullsTwice {n m : NodeID} {l : List NodeID}
    (h : SearchView ni s (n :: m :: l)) : PullsTwice NodeIterator.iter ni s := by
  have hrest := searchView_tracks.rest h
  obtain ⟨hb, href, i₁, hnext, hrest⟩ := hrest.cons_inv
  obtain ⟨hb₁, href₁, i₂, hnext₁, -⟩ := hrest.cons_inv
  exact ⟨n, i₁, m, i₂, hb, href, hnext, hb₁, href₁, hnext₁⟩

/-- The result type `NodeID` leaves the id of the last node in the response. Induction on
the nodes left. -/
theorem nodeIDs_runs {tni : ReusableIterator NodeIterator NodeID} {past left : List NodeID}
    (h : View SearchView tni s past left) :
    ∃ tni' op, Runs (buildResults (ReusableIterator.iter NodeIterator.iter) Element.node tni
        { rType := .nodeID }) s (.ret tni' (s.modifyResponse fun r => { r with op := op })) ∧
      View SearchView tni' (s.modifyResponse fun r => { r with op := op })
        (past ++ left) [] := by
  suffices hloop : ∃ tni' op, Runs (upTo (ReusableIterator.iter NodeIterator.iter) none
      (fun (_ : Unit) x => setInt (Element.node x).id) (fun _ => 0) tni ()) s
        (.ret (tni', ()) (s.modifyResponse fun r => { r with op := op })) ∧
      View SearchView tni' (s.modifyResponse fun r => { r with op := op })
        (past ++ left) [] by
    obtain ⟨tni', op, hrun, hview⟩ := hloop
    exact ⟨tni', op, hrun.bind (Runs.of_eq fun n => rfl), hview⟩
  induction left generalizing tni s past with
  | nil =>
      refine ⟨tni, s.response.op, Runs.loop_stop (Runs.of_eq fun n => ?_), ?_⟩
      · simp [ReusableIterator.iter, h.bool_eq, Handler.modifyResponse]
      · rwa [List.append_nil]
  | cons n left ih =>
      let t := s.modifyResponse fun r => { r with op := .int (Element.node n).id }
      have ht : View SearchView tni t past (n :: left) := h.mono fun _ _ hi => hi
      obtain ⟨tni', u, hnext, hview, hu⟩ := ht.next_runs searchView_tracks
      obtain rfl := eq_of_reflTransGen_eq hu
      obtain ⟨tni'', op, hloop, hend⟩ := ih hview
      have hset : Runs (setInt (Element.node n).id) s (.ret () t) := Runs.of_eq fun _ => rfl
      refine ⟨tni'', op, Runs.loop_step_ret ?_ hloop, ?_⟩
      · have hbool : (ReusableIterator.iter NodeIterator.iter).bool tni = true := by
          simp [ReusableIterator.iter, h.bool_eq]
        simp only [hbool, if_true]
        refine (h.ref_runs s).bind (hset.bind ?_)
        exact hnext.bind (Runs.of_eq fun n => rfl)
      · rwa [List.append_assoc, List.singleton_append] at hend

omit [Platform.Quiet] in
/-- What stays cached of a search over all nodes denotes the same list. -/
theorem settle_view {tni : ReusableIterator NodeIterator NodeID} {past left : List NodeID}
    (h : View SearchView tni s past left) : NodeView s.db (settle tni) past left := by
  obtain ⟨hp, m, hm, hl, hnil⟩ := h
  refine ⟨hp, m, ?_, hl, hnil⟩
  cases hti : tni.ti with
  | none =>
      rw [hti] at hm
      obtain rfl : m = [] := hm
      simp [settle, hti, OptView]
  | some ni =>
      rw [hti] at hm
      obtain ⟨i, rfl, -, hi, hscan⟩ := hm
      simpa [settle, hti] using ⟨hi, hscan⟩

/-- The end of a unique query that found the nodes `l`: at most one. -/
theorem queryNodeFinish_runs (hqn : qn.Conditional)
    {tni : ReusableIterator NodeIterator NodeID} {l : List NodeID}
    (h : View SearchView tni s [] l) (hs : s.Open) :
    ∃ t, Runs (queryNodeFinish qn none tni) s (.ret 0 t) ∧ t.db = s.db ∧
      t.response.rType = s.response.rType ∧ t.response.errorCode = s.response.errorCode ∧
      (0 ≤ qn.identifier → Denotes (toInt qn.identifier) l t) := by
  obtain ⟨tni', op, hbuild, hview⟩ := nodeIDs_runs h
  let t := s.modifyResponse fun r => { r with op := op }
  have hreset := hview.reset
  rw [List.nil_append, List.append_nil] at hreset
  have hstart : Runs (sortResults NodeIterator.iter Element.node qn.results tni) s
      (.ret tni s) := by
    rw [hqn.results]
    exact Runs.of_eq fun n => rfl
  have hresults : Runs (reusableResults NodeIterator.iter Element.node qn.results tni) s
      (.ret tni' t) := by
    rw [hqn.results]
    exact hbuild
  by_cases hid : 0 ≤ qn.identifier
  · refine ⟨t.cacheNode (toInt qn.identifier) (settle tni'.reset), ?_, rfl, rfl, rfl, fun _ => ?_⟩
    · refine hstart.bind (hresults.bind ?_)
      simp only [cacheResult, when_pos hid]
      exact Runs.of_eq fun n => rfl
    · exact ⟨hs, _, Handler.cacheNode_same t _ _,
        settle_view (hreset.mono fun _ _ hi => hi)⟩
  · refine ⟨t, ?_, rfl, rfl, rfl, fun h => absurd h hid⟩
    refine hstart.bind (hresults.bind ?_)
    simp only [cacheResult, when_neg hid]
    exact Runs.of_eq fun n => rfl

/-- A query that finds at most one node, and does not report this as `Empty`. -/
theorem queryNodeFrom_single (hqn : qn.Conditional) (hs : s.Open)
    (hrun : Runs (queryNodeSearch qn none) s (.ret ni s)) {n : NodeID}
    (h : SearchView ni s [n]) :
    ∃ t, Runs (queryNodeFrom qn none) s (.ret 0 t) ∧ t.db = s.db ∧
      t.response.rType = .nodeID ∧ t.response.errorCode = .success ∧
      (0 ≤ qn.identifier → Denotes (toInt qn.identifier) [n] t) := by
  have hfound : SearchView ni s.found [n] := h
  obtain ⟨tni, u, hnew, hview, hu⟩ := View.new_runs searchView_tracks hfound
  obtain rfl := eq_of_reflTransGen_eq hu
  obtain ⟨tni', u, hnext, hview', hu⟩ := hview.next_runs searchView_tracks
  obtain rfl := eq_of_reflTransGen_eq hu
  have hreset := hview'.reset
  rw [List.nil_append, List.append_nil] at hreset
  obtain ⟨t, hfinish, hdb, htype, hcode, hdenotes⟩ := queryNodeFinish_runs hqn hreset hs
  refine ⟨t, hrun.bind ?_, hdb, htype, hcode, hdenotes⟩
  have hbool : NodeIterator.iter.bool ni = true := by
    rw [searchView_tracks.bool_eq h]
    rfl
  rw [hbool, if_neg (by simp), queryNodeFound_conditional hqn]
  refine (setType_found s).bind ?_
  refine hnew.bind (hnext.bind ?_)
  rw [hview'.bool_eq]
  exact hfinish

end Query

/-! ### The addition -/

/-- The graph with one more node. -/
def Graph.withNode (g : Graph) (tag : StringID) (props : Props) : Graph :=
  { g with nodes := g.nodes ++ [some ⟨tag, props⟩] }

omit [Platform] in
theorem Graph.addNode_modifyProps (g : Graph) (tag : StringID) (f : Props → Props) :
    (g.addNode tag).modifyProps (.node g.nodes.length) f = g.withNode tag (f fun _ => none) := by
  simp only [Graph.addNode, Graph.modifyProps, Graph.withNode, Graph.mk.injEq, and_true]
  rw [List.modify_eq_take_drop]
  simp

/-- The properties of a node that an addition makes. -/
def AddNode.props (cn : AddNode) : Props :=
  cn.node.properties.foldl (fun props p => p.apply props) fun _ => none

section Addition

variable {s : Handler} {cn : AddNode}

/-- Induction on the properties. -/
theorem setNodeProperties_throws {x : Element} {flag : Bool} {expiration : ℕ}
    {ps : List PMGDProp} (hps : ¬ Readable ps) (s : Handler) :
    Sat (setNodeProperties x flag expiration ps) s (fun _ _ => False) fun _ _ => True := by
  induction ps generalizing s expiration with
  | nil => exact absurd (fun p hp => by cases hp) hps
  | cons p ps ih =>
      cases hv : p.value with
      | error e =>
          refine Sat.bind (P := fun _ _ => False) (fun n => ?_) fun _ _ h => h.elim
          simp only [setProperty, hv, ofExcept, bind_apply, throw_apply, Outcome.andThen_throw]
          trivial
      | ok v =>
          refine Sat.seq fun _ t => ih (fun hrest => hps fun q hq => ?_) t
          rcases List.mem_cons.1 hq with rfl | hq
          · exact ⟨v, hv⟩
          · exact hrest q hq

theorem addNewNode_throws (hps : ¬ Readable cn.node.properties) (s : Handler) :
    Sat (addNewNode cn) s (fun _ _ => False) fun _ _ => True :=
  Sat.seq fun _ _ => Sat.seq fun _ t =>
    Sat.bind (setNodeProperties_throws hps t) fun _ _ h => h.elim

variable [Platform.Quiet]

/-- Induction on the properties. -/
theorem setNodeProperties_runs {x : Element} (flag : Bool) (expiration : ℕ)
    {ps : List PMGDProp} (hs : s.Writable) (hps : Readable ps) :
    ∃ time, Runs (setNodeProperties x flag expiration ps) s (.ret time (s.setDb
      (s.db.modifyProps x fun props => ps.foldl (fun props p => p.apply props) props))) := by
  induction ps generalizing s expiration with
  | nil =>
      refine ⟨expiration, Runs.of_eq fun n => ?_⟩
      simp [setNodeProperties, Graph.modifyProps_id, Handler.setDb]
  | cons p ps ih =>
      obtain ⟨v, hv⟩ := hps p (List.mem_cons_self ..)
      have hfirst := setProperty_runs (x := x) hs hv
      obtain ⟨time, hrest⟩ := ih
        (if flag ∧ p.key = "_expiration" then toUInt64 p.intValue else expiration)
        (s := s.setDb (s.db.modifyProps x p.apply)) hs fun q hq =>
          hps q (List.mem_cons_of_mem _ hq)
      rw [Handler.setDb_db, Graph.modifyProps_modifyProps] at hrest
      exact ⟨time, hfirst.bind hrest⟩

theorem dbAddNode_runs (hs : s.Writable) (tag : StringID) :
    Runs (dbAddNode tag) s (.ret s.db.nodes.length (s.setDb (s.db.addNode tag))) := by
  have hcall : ∀ k, call (.addNode tag) k s = .ret () s :=
    fun k => call_apply (by rw [hs]; rfl) k
  exact Runs.of_eq fun k => by simp [dbAddNode, hcall]

/-- **The addition.** One node with the given tag and properties is appended, and cached
under the reference if there is one. -/
theorem addNewNode_runs (hs : s.Writable) (hps : Readable cn.node.properties) :
    ∃ t, Runs (addNewNode cn) s (.ret 0 t) ∧ t.response.errorCode = .success ∧
      t.db = s.db.withNode (stringID cn.node.tag) cn.props ∧
      (0 ≤ cn.identifier → Denotes (toInt cn.identifier) [s.db.nodes.length] t) := by
  let k := toInt cn.identifier
  let g := s.db.withNode (stringID cn.node.tag) cn.props
  let s₁ := s.setDb (s.db.addNode (stringID cn.node.tag))
  let s₂ := if 0 ≤ cn.identifier then s₁.cacheNode k (.ofElement s.db.nodes.length) else s₁
  have hs₂ : s₂.db = s₁.db ∧ s₂.txMode = s.txMode ∧ (0 ≤ cn.identifier →
      s₂.cachedNodes k = some (.ofElement s.db.nodes.length)) := by
    by_cases hid : 0 ≤ cn.identifier
    · have h : s₂ = s₁.cacheNode k (.ofElement s.db.nodes.length) := if_pos hid
      rw [h]
      exact ⟨rfl, rfl, fun _ => Handler.cacheNode_same s₁ k _⟩
    · have h : s₂ = s₁ := if_neg hid
      rw [h]
      exact ⟨rfl, rfl, fun h => absurd h hid⟩
  obtain ⟨hdb, htx, hentry⟩ := hs₂
  obtain ⟨time, hset⟩ := setNodeProperties_runs (x := .node s.db.nodes.length)
    cn.expirationFlag uninitialisedTime (htx.trans hs) hps
  rw [hdb] at hset
  have hgraph : s₁.db.modifyProps (.node s.db.nodes.length)
      (fun props => cn.node.properties.foldl (fun props p => p.apply props) props) = g :=
    Graph.addNode_modifyProps s.db _ _
  rw [hgraph] at hset
  let s₃ := s₂.setDb g
  let queued : Handler := { s₃ with
    expirationQueue := insertIntoQueue s₃.expirationQueue ⟨time, .node s.db.nodes.length⟩ }
  let s₄ := if cn.expirationFlag then queued else s₃
  have hs₄ : s₄.db = g ∧ s₄.txMode = s.txMode ∧ s₄.cachedNodes = s₂.cachedNodes := by
    by_cases hflag : cn.expirationFlag
    · have h : s₄ = queued := if_pos hflag
      rw [h]
      exact ⟨rfl, htx, rfl⟩
    · have h : s₄ = s₃ := if_neg hflag
      rw [h]
      exact ⟨rfl, htx, rfl⟩
  obtain ⟨hdb₄, htx₄, hnodes₄⟩ := hs₄
  refine ⟨(s₄.modifyResponse fun r => { r with rType := .nodeID, errorCode := .success })
    |>.modifyResponse fun r => { r with op := .int (s.db.nodes.length + 1) }, ?_, rfl, hdb₄,
    fun hid => ⟨?_, .ofElement s.db.nodes.length, ?_, NodeView.ofElement _ _⟩⟩
  · refine (dbAddNode_runs hs _).bind ?_
    refine Runs.bind (Runs.of_eq fun n => when_modify_apply _ n s₁) (hset.bind ?_)
    refine Runs.bind (Runs.of_eq fun n => when_modify_apply _ n s₃) ?_
    exact Runs.of_eq fun n => rfl
  · exact (show s₄.txMode.isSome = true by rw [htx₄, hs]; rfl)
  · exact (congrFun hnodes₄ k).trans (hentry hid)

end Addition

/-! ### The command -/

/-- The command returns `v` and reports the code, and the handler is as described. -/
def Answers (cmd : Command) (s : Handler) (v : ℤ) (code : ErrorCode) (P : Handler → Prop) :
    Prop :=
  ∃ t, Runs (processQuery cmd) s (.ret v t) ∧ t.response.errorCode = code ∧ P t

/-- The node is cached under the reference of the addition, if it has one. -/
def Command.Caches (cmd : Command) (n : NodeID) (t : Handler) : Prop :=
  0 ≤ cmd.addNode.identifier → Denotes (toInt cmd.addNode.identifier) [n] t

/-- **Find or create.** If there is no node that the query is for, one with the given tag
and properties is made; if there is exactly one, it is found; if there are several, the
query is not unique. -/
structure FindsOrCreates (cmd : Command) (e : SearchExpression) (s : Handler) : Prop where
  none : (∀ n, ¬ e.Selects s.db n) → Answers cmd s 0 .success fun t =>
    t.db = s.db.withNode (stringID cmd.addNode.node.tag) cmd.addNode.props ∧
      cmd.Caches s.db.nodes.length t
  one : ∀ n, (∀ m, e.Selects s.db m ↔ m = n) → Answers cmd s 0 .alreadyExists fun t =>
    t.db = s.db ∧ cmd.Caches n t
  several : ∀ n m, e.Selects s.db n → e.Selects s.db m → n ≠ m →
    Answers cmd s (-1) .notUnique fun t =>
      t.db = s.db ∧ t.cachedNodes = s.cachedNodes ∧ t.cachedEdges = s.cachedEdges

/-- A node can be added: it has a reference, and its properties can be read. -/
def AddNode.Addable (cn : AddNode) : Prop :=
  0 ≤ cn.identifier ∧ Readable cn.node.properties

/-- The reference is free, and either the query finds what there is or there is nothing
and the node can be added. A disjunction finds nothing only if the uninitialised pointer is
`NULL`, and never finds exactly one node. -/
def AddNode.Decides (cn : AddNode) (e : SearchExpression) (s : Handler) : Prop :=
  (0 ≤ cn.identifier → s.cachedNodes (toInt cn.identifier) = none) ∧
    if e.isOr then (∃ n m, e.Selects s.db n ∧ e.Selects s.db m ∧ n ≠ m) ∨
      (∀ n, ¬ e.Selects s.db n) ∧ uninitialised = none ∧ cn.Addable
    else (∃ n, e.Selects s.db n) ∨ cn.Addable

section Command

variable {s : Handler} {cmd : Command} {e : SearchExpression}

theorem Answers.code_eq {v v' : ℤ} {code code' : ErrorCode} {P P' : Handler → Prop}
    (h : Answers cmd s v code P) (h' : Answers cmd s v' code' P') : code = code' := by
  obtain ⟨t, hrun, hcode, -⟩ := h
  obtain ⟨t', hrun', hcode', -⟩ := h'
  have heq := hrun.unique hrun'
  injection heq with _ heq
  rw [← hcode, ← hcode', heq]

/-- There is none, exactly one, or more than one. -/
theorem FindsOrCreates.answers (h : FindsOrCreates cmd e s) :
    ∃ v code P, Answers cmd s v code P ∧ code ∈ [.success, .alreadyExists, .notUnique] := by
  by_cases hnone : ∀ n, ¬ e.Selects s.db n
  · exact ⟨0, .success, _, h.none hnone, by simp⟩
  · obtain ⟨n, hn⟩ := not_forall_not.1 hnone
    by_cases hone : ∀ m, e.Selects s.db m → m = n
    · exact ⟨0, .alreadyExists, _, h.one n fun m => ⟨hone m, fun hm => hm ▸ hn⟩, by simp⟩
    · obtain ⟨m, hm⟩ := not_forall.1 hone
      obtain ⟨hm, hne⟩ := Classical.not_imp.1 hm
      exact ⟨-1, .notUnique, _, h.several m n hm hn hne, by simp⟩

/-- An addition with a query, built for it. -/
structure ConditionalAddition (cmd : Command) (qn : QueryNode) : Prop where
  cmdId : cmd.cmdId = .addNode
  query_eq : cmd.addNode.queryNode = some qn
  identifier : qn.identifier = cmd.addNode.identifier
  conditional : qn.Conditional

variable {qn : QueryNode}

theorem ConditionalAddition.runs (hcmd : ConditionalAddition cmd qn) {v : ℤ} {t : Handler}
    (h : Runs (addNode cmd.addNode) (s.begin cmd) (.ret v t)) :
    Runs (processQuery cmd) s (.ret v t) := by
  refine Runs.bind (Runs.of_eq fun _ => rfl) (Runs.tryCatch ?_)
  simp only [dispatch, hcmd.cmdId]
  exact h

theorem ConditionalAddition.inv (hcmd : ConditionalAddition cmd qn) {t : Handler}
    (h : Runs (processQuery cmd) s (.ret 0 t)) :
    Runs (addNode cmd.addNode) (s.begin cmd) (.ret 0 t) := by
  rcases processQuery_inv h with h | ⟨hv, -⟩
  · simpa only [dispatch, hcmd.cmdId] using h
  · cases hv

/-- The part of `add_node` after its query. -/
def addNodeFound (cn : AddNode) (t : Handler) : Handling ℤ :=
  if t.response.rType = .nodeID ∧ t.response.errorCode = .success then do
    modifyResponse fun r => { r with errorCode := .alreadyExists }
    pure 0
  else if t.response.errorCode ≠ .empty then pure (-1)
  else addNewNode cn

/-- With a free reference the addition runs its query and goes on from there. -/
theorem ConditionalAddition.apply_eq (hcmd : ConditionalAddition cmd qn)
    (hfree : 0 ≤ cmd.addNode.identifier →
      s.cachedNodes (toInt cmd.addNode.identifier) = none) (n : ℕ) :
    addNode cmd.addNode n s = (do
      let _ ← queryNodeFrom qn none
      let t ← get
      addNodeFound cmd.addNode t) n s := by
  have hreuse : ¬ (0 ≤ cmd.addNode.identifier ∧
      (s.cachedNodes (toInt cmd.addNode.identifier)).isSome) := by
    rintro ⟨hid, hsome⟩
    rw [hfree hid] at hsome
    cases hsome
  have hown : queryNode qn n s = queryNodeFrom qn none n s := by
    simp only [queryNode, bind_apply, get_apply, Outcome.andThen_ret, hcmd.identifier,
      if_neg hreuse, hcmd.conditional.link]
  simp only [addNode, bind_apply, get_apply, Outcome.andThen_ret, if_neg hreuse,
    hcmd.query_eq, hown, addNodeFound]

section Outcomes

variable [Platform.Quiet] {ni : NodeIterator} {n : NodeID}

omit [Platform.Quiet] in
/-- A reference that is taken. -/
theorem ConditionalAddition.reuse (hcmd : ConditionalAddition cmd qn)
    (htaken : ¬ (0 ≤ cmd.addNode.identifier →
      s.cachedNodes (toInt cmd.addNode.identifier) = none)) :
    Answers cmd s (-1) .error fun _ => True := by
  obtain ⟨hid, hne⟩ := Classical.not_imp.1 htaken
  have hsome := Option.isSome_iff_ne_none.2 hne
  refine ⟨(s.begin cmd).modifyResponse fun r =>
    { r with errorCode := .error, errorMsg := "Reuse of _ref value" }, hcmd.runs ?_, rfl, trivial⟩
  refine Runs.of_eq fun n => ?_
  have hreuse : 0 ≤ cmd.addNode.identifier ∧
      ((s.begin cmd).cachedNodes (toInt cmd.addNode.identifier)).isSome := ⟨hid, hsome⟩
  simp only [addNode, bind_apply, get_apply, Outcome.andThen_ret, if_pos hreuse]
  rfl

omit [Platform.Quiet] in
/-- With a free reference the addition goes on from what its query reported. -/
theorem ConditionalAddition.answers (hcmd : ConditionalAddition cmd qn)
    (hfree : 0 ≤ cmd.addNode.identifier →
      s.cachedNodes (toInt cmd.addNode.identifier) = none) {v v' : ℤ} {t t' : Handler}
    (h : Runs (queryNodeFrom qn none) (s.begin cmd) (.ret v t))
    (hrest : Runs (addNodeFound cmd.addNode t) t (.ret v' t')) :
    Runs (processQuery cmd) s (.ret v' t') := by
  have hadd : Runs (addNode cmd.addNode) (s.begin cmd) (.ret v' t') := by
    obtain ⟨N, hN⟩ := h.bind (f := fun _ => do
      let t ← get
      addNodeFound cmd.addNode t) (Runs.bind (Runs.of_eq fun n => rfl) hrest)
    exact ⟨N, fun n hn => (hcmd.apply_eq (s := s.begin cmd) hfree n).trans (hN n hn)⟩
  exact hcmd.runs hadd

omit [Platform.Quiet] in
/-- A node was found: the addition says that it is there already. -/
theorem ConditionalAddition.exists (hcmd : ConditionalAddition cmd qn)
    (hfree : 0 ≤ cmd.addNode.identifier →
      s.cachedNodes (toInt cmd.addNode.identifier) = none) {v : ℤ} {t : Handler}
    (h : Runs (queryNodeFrom qn none) (s.begin cmd) (.ret v t))
    (htype : t.response.rType = .nodeID) (hcode : t.response.errorCode = .success) :
    Runs (processQuery cmd) s (.ret 0 (t.modifyResponse fun r =>
      { r with errorCode := .alreadyExists })) := by
  refine hcmd.answers hfree h ?_
  rw [addNodeFound, if_pos ⟨htype, hcode⟩]
  exact Runs.of_eq fun n => rfl

omit [Platform.Quiet] in
/-- Two nodes were found. -/
theorem ConditionalAddition.twice (hcmd : ConditionalAddition cmd qn)
    (hfree : 0 ≤ cmd.addNode.identifier →
      s.cachedNodes (toInt cmd.addNode.identifier) = none)
    (hrun : Runs (queryNodeSearch qn none) (s.begin cmd) (.ret ni (s.begin cmd)))
    (h : PullsTwice NodeIterator.iter ni (s.begin cmd).found) :
    Answers cmd s (-1) .notUnique fun t =>
      t.db = s.db ∧ t.cachedNodes = s.cachedNodes ∧ t.cachedEdges = s.cachedEdges := by
  have hquery := queryNodeFrom_twice hcmd.conditional hrun h
  let t := (s.begin cmd).found.modifyResponse fun r =>
    { r with errorCode := .notUnique, errorMsg := "Query response not unique" }
  have hrest : Runs (addNodeFound cmd.addNode t) t (.ret (-1) t) := by
    rw [addNodeFound, if_neg (by simp [t, Handler.modifyResponse]),
      if_pos (by simp [t, Handler.modifyResponse])]
    exact Runs.of_eq fun n => rfl
  exact ⟨t, hcmd.answers hfree hquery hrest, rfl, rfl, rfl, rfl⟩

omit [Platform.Quiet] in
/-- Without a reference, an addition whose query finds nothing claims that the node is
there, and adds none. -/
theorem ConditionalAddition.unnamed (hcmd : ConditionalAddition cmd qn)
    (hid : ¬ 0 ≤ cmd.addNode.identifier)
    (hrun : Runs (queryNodeSearch qn none) (s.begin cmd) (.ret ni (s.begin cmd)))
    (hbool : NodeIterator.iter.bool ni = false) :
    Answers cmd s 0 .alreadyExists fun t => t.db = s.db := by
  have hquery := queryNodeFrom_unnamed hcmd.conditional hrun hbool
    (by rwa [hcmd.identifier])
  exact ⟨_, hcmd.exists (fun h => absurd h hid) hquery rfl rfl, rfl, rfl⟩

/-- With a reference, an addition whose query finds nothing adds the node, if its
properties can be read. -/
theorem ConditionalAddition.null_iff (hcmd : ConditionalAddition cmd qn) (hs : s.Writable)
    (hfree : 0 ≤ cmd.addNode.identifier →
      s.cachedNodes (toInt cmd.addNode.identifier) = none)
    (hid : 0 ≤ cmd.addNode.identifier)
    (hrun : Runs (queryNodeSearch qn none) (s.begin cmd) (.ret ni (s.begin cmd)))
    (hbool : NodeIterator.iter.bool ni = false) :
    (Answers cmd s 0 .success fun t =>
      t.db = s.db.withNode (stringID cmd.addNode.node.tag) cmd.addNode.props ∧
        cmd.Caches s.db.nodes.length t) ↔ Readable cmd.addNode.node.properties := by
  have hquery := queryNodeFrom_null hrun hbool (by rwa [hcmd.identifier])
  let t := (s.begin cmd).modifyResponse fun r =>
    { r with errorCode := .empty, errorMsg := "Null search iterator" }
  have hrest : addNodeFound cmd.addNode t = addNewNode cmd.addNode := by
    rw [addNodeFound, if_neg (by simp [t, Handler.modifyResponse]),
      if_neg (by simp [t, Handler.modifyResponse])]
  constructor
  · rintro ⟨u, hu, -⟩
    by_contra hps
    obtain ⟨N, hN⟩ := hcmd.inv hu
    have hadd : Runs (queryNodeFrom qn none >>= fun _ => get >>= addNodeFound cmd.addNode)
        (s.begin cmd) (.ret 0 u) :=
      ⟨N, fun n hn => (hcmd.apply_eq (s := s.begin cmd) hfree n).symm.trans (hN n hn)⟩
    obtain ⟨v, w, hfirst, hrun'⟩ := Runs.bind_inv hadd
    have heq := hfirst.unique hquery
    injection heq with _ heq
    subst heq
    have hnew := Runs.get_bind_inv hrun'
    rw [hrest] at hnew
    exact (addNewNode_throws hps t).ret hnew
  · intro hps
    obtain ⟨u, hadd, hcode, hdb, hcached⟩ := addNewNode_runs (s := t) hs hps
    refine ⟨u, hcmd.answers hfree hquery ?_, hcode, hdb, hcached⟩
    rw [hrest]
    exact hadd

/-- Exactly one node was found. -/
theorem ConditionalAddition.single (hcmd : ConditionalAddition cmd qn) (hs : s.Writable)
    (hfree : 0 ≤ cmd.addNode.identifier →
      s.cachedNodes (toInt cmd.addNode.identifier) = none)
    (hrun : Runs (queryNodeSearch qn none) (s.begin cmd) (.ret ni (s.begin cmd)))
    (h : SearchView ni (s.begin cmd) [n]) :
    Answers cmd s 0 .alreadyExists fun t => t.db = s.db ∧ cmd.Caches n t := by
  have hopen : (s.begin cmd).Open := hs.isOpen
  obtain ⟨t, hquery, hdb, htype, hcode, hdenotes⟩ :=
    queryNodeFrom_single hcmd.conditional hopen hrun h
  rw [hcmd.identifier] at hdenotes
  refine ⟨_, hcmd.exists hfree hquery htype hcode, rfl, hdb, fun hid => ?_⟩
  exact ⟨(hdenotes hid).isOpen, (hdenotes hid).view⟩

end Outcomes

/-! ### What the search finds -/

variable [Platform.Lawful] [Platform.Quiet]

/-- Once a disjunctive search points at a node, it can be pulled from forever. -/
theorem NodeOrIteratorImpl.Lasting.pullsTwice (hs : s.Open) {i : NodeOrIteratorImpl}
    (h : i.Lasting s.db) : PullsTwice NodeIterator.iter (.search (.or i)) s := by
  have href : ∀ {i : NodeOrIteratorImpl}, i.Lasting s.db → ∃ x,
      NodeIterator.iter.bool (.search (.or i)) = true ∧
        Runs (NodeIterator.iter.ref (.search (.or i))) s (.ret x s) := fun {i} h => by
    obtain ⟨x, hx⟩ := Option.isSome_iff_exists.1 h.node
    refine ⟨x, h.node, Runs.of_eq fun n => ?_⟩
    simp [NodeIterator.iter, SearchIterator.iter, NodeOrIteratorImpl.ref, hx]
  obtain ⟨i₁, hnext, h₁⟩ := h.next_runs hs
  obtain ⟨i₂, hnext₁, -⟩ := h₁.next_runs hs
  obtain ⟨x, hb, hx⟩ := href h
  obtain ⟨y, hb₁, hy⟩ := href h₁
  have hstep : ∀ {i i' : NodeOrIteratorImpl}, Runs i.next s (.ret i' s) →
      Runs (NodeIterator.iter.next (.search (.or i))) s (.ret (.search (.or i')) s) :=
    fun hi => (hi.bind (Runs.of_eq fun n => rfl)).bind (Runs.of_eq fun n => rfl)
  exact ⟨x, _, y, _, hb, hx, hstep hnext, hb₁, hy, hstep hnext₁⟩

theorem queryNodeSearch_and (hs : s.Open) (he : qn.constraints.search = .ok e)
    (hand : e.isOr = false) : ∃ ni, Runs (queryNodeSearch qn none) s (.ret ni s) ∧
      SearchView ni s (e.matchList s.db) := by
  obtain ⟨i, hrun, hahead, hscan⟩ := SearchExpression.evalNodes_runs hs hand
  refine ⟨.search i, ?_, i, rfl, hs, hahead, hscan⟩
  simp only [queryNodeSearch, he, ofExcept]
  exact Runs.bind (Runs.of_eq fun n => rfl) (hrun.bind (Runs.of_eq fun n => rfl))

theorem queryNodeSearch_or (hs : s.Open) (he : qn.constraints.search = .ok e)
    (hor : e.isOr = true) : ∃ ni, Runs (queryNodeSearch qn none) s (.ret ni s) ∧
      ((∃ n, e.SatisfiesSome s.db n) ∨ uninitialised ≠ none →
        PullsTwice NodeIterator.iter ni s.found) ∧
      ((¬ ∃ n, e.SatisfiesSome s.db n) → uninitialised = none →
        NodeIterator.iter.bool ni = false) := by
  obtain ⟨i, i', hrun, hadv, hnode, hnb⟩ := new_runs hs e
  have hlasting : i'.node.isSome = true → i'.Lasting s.db := fun h =>
    ⟨h, fun h' => by rw [hnb] at h'; cases h'⟩
  refine ⟨.search (.or i'), ?_, fun h => ?_, fun hnot hnull => ?_⟩
  · have heval : Runs e.evalNodes s (.ret (.or i') s) := by
      simp only [SearchExpression.evalNodes, hor, if_true]
      exact hrun.bind (Runs.of_eq fun n => rfl)
    simp only [queryNodeSearch, he, ofExcept]
    exact Runs.bind (Runs.of_eq fun n => rfl) (heval.bind (Runs.of_eq fun n => rfl))
  · refine (hlasting ?_).pullsTwice (s := s.found) hs
    rcases h with hfound | hne
    · exact hadv.finds hfound
    · refine hadv.keeps ?_
      rw [hnode]
      exact Option.isSome_iff_ne_none.2 hne
  · have hempty : i'.node = none := by rw [hadv.stays hnot, hnode, hnull]
    simp [NodeIterator.iter, SearchIterator.iter, NodeOrIteratorImpl.bool, hempty]

/-! ### When it finds or creates -/

section Decision

omit [Platform.Lawful] [Platform.Quiet]

theorem findsOrCreates_iff_none (hnone : ∀ n, ¬ e.Selects s.db n) :
    FindsOrCreates cmd e s ↔ Answers cmd s 0 .success fun t =>
      t.db = s.db.withNode (stringID cmd.addNode.node.tag) cmd.addNode.props ∧
        cmd.Caches s.db.nodes.length t :=
  ⟨fun h => h.none hnone, fun h => ⟨fun _ => h, fun n hn => absurd ((hn n).2 rfl) (hnone n),
    fun n _ hn => absurd hn (hnone n)⟩⟩

theorem findsOrCreates_iff_one {n : NodeID} (hone : ∀ m, e.Selects s.db m ↔ m = n) :
    FindsOrCreates cmd e s ↔ Answers cmd s 0 .alreadyExists fun t =>
      t.db = s.db ∧ cmd.Caches n t := by
  refine ⟨fun h => h.one n hone,
    fun h => ⟨fun hnone => ?_, fun m hm => ?_, fun m m' hm hm' hne => ?_⟩⟩
  · exact absurd ((hone n).2 rfl) (hnone n)
  · obtain rfl : n = m := (hm n).1 ((hone n).2 rfl)
    exact h
  · exact absurd (((hone m).1 hm).trans ((hone m').1 hm').symm) hne

theorem findsOrCreates_iff_several {n m : NodeID} (hn : e.Selects s.db n)
    (hm : e.Selects s.db m) (hne : n ≠ m) :
    FindsOrCreates cmd e s ↔ Answers cmd s (-1) .notUnique fun t =>
      t.db = s.db ∧ t.cachedNodes = s.cachedNodes ∧ t.cachedEdges = s.cachedEdges := by
  refine ⟨fun h => h.several n m hn hm hne,
    fun h => ⟨fun hnone => ?_, fun k hk => ?_, fun _ _ _ _ _ => h⟩⟩
  · exact absurd hn (hnone n)
  · exact absurd (((hk n).1 hn).trans ((hk m).1 hm).symm) hne

end Decision

omit [Platform.Lawful] in
/-- With a free reference, where the search finds nothing. -/
theorem ConditionalAddition.none_iff (hcmd : ConditionalAddition cmd qn) (hs : s.Writable)
    (hfree : 0 ≤ cmd.addNode.identifier →
      s.cachedNodes (toInt cmd.addNode.identifier) = none) {ni : NodeIterator}
    (hrun : Runs (queryNodeSearch qn none) (s.begin cmd) (.ret ni (s.begin cmd)))
    (hbool : NodeIterator.iter.bool ni = false) (hnone : ∀ n, ¬ e.Selects s.db n) :
    FindsOrCreates cmd e s ↔ cmd.addNode.Addable := by
  rw [findsOrCreates_iff_none hnone]
  by_cases hid : 0 ≤ cmd.addNode.identifier
  · rw [hcmd.null_iff hs hfree hid hrun hbool, AddNode.Addable, and_iff_right hid]
  · refine iff_of_false (fun h => ?_) fun h => hid h.1
    cases h.code_eq (hcmd.unnamed hid hrun hbool)

theorem ConditionalAddition.and_iff (hcmd : ConditionalAddition cmd qn) (hs : s.Writable)
    (he : qn.constraints.search = .ok e) (hand : e.isOr = false)
    (hfree : 0 ≤ cmd.addNode.identifier →
      s.cachedNodes (toInt cmd.addNode.identifier) = none) :
    FindsOrCreates cmd e s ↔ (∃ n, e.Selects s.db n) ∨ cmd.addNode.Addable := by
  have hopen : (s.begin cmd).Open := hs.isOpen
  have hselects : ∀ n, e.Selects s.db n ↔ n ∈ e.matchList s.db := fun n => by
    rw [SearchExpression.mem_matchList, SearchExpression.Selects, if_neg (by simp [hand])]
  obtain ⟨ni, hrun, hview⟩ := queryNodeSearch_and hopen he hand
  have hnodup := SearchExpression.matchList_nodup e s.db
  have hdb : (s.begin cmd).db = s.db := rfl
  rw [hdb] at hview
  cases hl : e.matchList s.db with
  | nil =>
      rw [hl] at hview hselects
      have hnone : ∀ n, ¬ e.Selects s.db n := fun n hn => List.not_mem_nil ((hselects n).1 hn)
      rw [hcmd.none_iff hs hfree hrun (searchView_tracks.bool_eq hview) hnone, or_iff_right]
      exact not_exists.2 hnone
  | cons n l =>
      rw [hl] at hview hselects hnodup
      have hn : e.Selects s.db n := (hselects n).2 (List.mem_cons_self ..)
      refine iff_of_true ?_ (.inl ⟨n, hn⟩)
      cases l with
      | nil =>
          have hone : ∀ m, e.Selects s.db m ↔ m = n := fun m => by
            rw [hselects, List.mem_singleton]
          exact (findsOrCreates_iff_one hone).2 (hcmd.single hs hfree hrun hview)
      | cons m l =>
          have hne : n ≠ m := fun h => by simp [h] at hnodup
          have hm : e.Selects s.db m := (hselects m).2 (by simp)
          refine (findsOrCreates_iff_several hn hm hne).2 (hcmd.twice hfree hrun ?_)
          exact SearchView.pullsTwice (s := (s.begin cmd).found) hview

theorem ConditionalAddition.or_iff (hcmd : ConditionalAddition cmd qn) (hs : s.Writable)
    (he : qn.constraints.search = .ok e) (hor : e.isOr = true)
    (hfree : 0 ≤ cmd.addNode.identifier →
      s.cachedNodes (toInt cmd.addNode.identifier) = none) :
    FindsOrCreates cmd e s ↔
      (∃ n m, e.Selects s.db n ∧ e.Selects s.db m ∧ n ≠ m) ∨
        (∀ n, ¬ e.Selects s.db n) ∧ uninitialised = none ∧ cmd.addNode.Addable := by
  have hopen : (s.begin cmd).Open := hs.isOpen
  have hselects : ∀ n, e.Selects s.db n ↔ e.SatisfiesSome s.db n := fun n => by
    rw [SearchExpression.Selects, if_pos hor]
  obtain ⟨ni, hrun, htwice, hnull⟩ := queryNodeSearch_or hopen he hor
  by_cases hnone : ∀ n, ¬ e.Selects s.db n
  · have hnot : ¬ ∃ n, e.SatisfiesSome (s.begin cmd).db n :=
      not_exists.2 fun n hn => hnone n ((hselects n).2 hn)
    have hnotwo : ¬ ∃ n m, e.Selects s.db n ∧ e.Selects s.db m ∧ n ≠ m := by
      rintro ⟨n, _, hn, _⟩
      exact hnone n hn
    rw [or_iff_right hnotwo, and_iff_right hnone]
    by_cases huninit : (uninitialised : Option NodeID) = none
    · rw [and_iff_right huninit]
      exact hcmd.none_iff hs hfree hrun (hnull hnot huninit) hnone
    · refine iff_of_false (fun h => ?_) fun h => huninit h.1
      cases ((findsOrCreates_iff_none hnone).1 h).code_eq
        (hcmd.twice hfree hrun (htwice (.inr huninit)))
  · obtain ⟨n, hn⟩ := not_forall_not.1 hnone
    have hfound := hcmd.twice hfree hrun (htwice (.inl ⟨n, (hselects n).1 hn⟩))
    rw [or_iff_left fun h => hnone h.1]
    constructor
    · intro h
      by_contra hseveral
      have hone : ∀ m, e.Selects s.db m ↔ m = n := fun m =>
        ⟨fun hm => by_contra fun hne => hseveral ⟨m, n, hm, hn, hne⟩, fun hm => hm ▸ hn⟩
      cases ((findsOrCreates_iff_one hone).1 h).code_eq hfound
    · rintro ⟨n, m, hn, hm, hne⟩
      exact (findsOrCreates_iff_several hn hm hne).2 hfound

/-- **Conditional addition.** It finds or creates its node exactly if its reference is
free, and either the query finds what there is, or there is nothing to find and the node
can be added: it has a reference, and its properties can be read. -/
theorem conditional_add_iff (hs : s.Writable) {q q' : PMGDQuery} {ref : ℤ} {tag : String}
    {props constraints : Json} (h : q.addNode ref tag props constraints = .ok q')
    (hconstraints : constraints.isNull = false) (hcmds : q'.cmds = q.cmds ++ [cmd])
    (hqn : cmd.addNode.queryNode = some qn) (he : qn.constraints.search = .ok e) :
    FindsOrCreates cmd e s ↔ cmd.addNode.Decides e s := by
  obtain ⟨hid, href, qn', hqn', hident, hlink, hunique, hresults⟩ :=
    PMGDQuery.addNode_inv h hconstraints hcmds
  rw [hqn] at hqn'
  injection hqn' with hqn'
  subst hqn'
  have hcmd : ConditionalAddition cmd qn :=
    ⟨hid, hqn, hident.trans href.symm, hlink, hunique, hresults⟩
  rw [AddNode.Decides]
  by_cases hfree : 0 ≤ cmd.addNode.identifier →
      s.cachedNodes (toInt cmd.addNode.identifier) = none
  · rw [and_iff_right hfree]
    cases hor : e.isOr with
    | false => simpa using hcmd.and_iff hs he hor hfree
    | true => simpa using hcmd.or_iff hs he hor hfree
  · refine iff_of_false (fun hfinds => ?_) fun h => hfree h.1
    obtain ⟨v, code, P, hanswers, hcode⟩ := hfinds.answers
    rw [hanswers.code_eq (hcmd.reuse hfree)] at hcode
    simp at hcode

end Command

end

/-- The addition of a node with the tag `A`, unless there is one whose property `a` is 1. -/
def addUnlessOne (ref : ℤ) : Except QueryError PMGDQuery :=
  (PMGDQuery.new 0 0).addNode ref "A" (.object [])
    (.object [("a", .array [.string "==", .int 1])])

/-- Its query. -/
def unlessOne (ref : ℤ) : QueryNode where
  identifier := ref
  constraints := { tag := .name "A", unique := true
                   predicates := [{ key := .name "a", op := .eq, v1 :=
                     { type := .integerType, key := "a", intValue := 1 } }] }
  results := { rType := .nodeID }

/-- The command that it makes. -/
def additionUnlessOne (ref : ℤ) : Command where
  cmdId := .addNode
  addNode := { identifier := ref, node := { tag := "A" }, queryNode := some (unlessOne ref) }

/-- The search of its query. -/
def oneExpr : SearchExpression where
  tag := Platform.stringID "A"
  isOr := false
  nodePredicates := [{ id := Platform.stringID "a", op := .eq, v1 := some (.integer 1) }]

theorem addUnlessOne_eq (ref : ℤ) : addUnlessOne ref = .ok
    { PMGDQuery.new 0 0 with
      cmds := (PMGDQuery.new 0 0).cmds ++ [additionUnlessOne ref], readonly := false } := rfl

/-- A handler over the empty graph, with a transaction open for writing. -/
def onEmptyGraph : Handler := Handler.inTransaction ⟨[], []⟩

/-- With a reference, the node is created. -/
theorem conditional_add_iff_reference :
    FindsOrCreates (additionUnlessOne 1) oneExpr onEmptyGraph := by
  have hcondition : (additionUnlessOne 1).addNode.Decides oneExpr onEmptyGraph := by
    refine ⟨fun _ => rfl, ?_⟩
    rw [if_neg (by decide)]
    exact .inr ⟨by decide, fun p hp => by cases hp⟩
  have hwritable : onEmptyGraph.Writable := rfl
  exact (conditional_add_iff hwritable (addUnlessOne_eq 1) rfl rfl rfl rfl).2 hcondition

/-- **Without a reference** an addition that finds no node adds none, and answers that the
node exists. -/
theorem add_without_reference_adds_nothing :
    (addUnlessOne (-1)).map PMGDQuery.cmds =
        .ok ((PMGDQuery.new 0 0).cmds ++ [additionUnlessOne (-1)]) ∧
      (unlessOne (-1)).constraints.search = .ok oneExpr ∧
      (∀ n, ¬ oneExpr.Selects onEmptyGraph.db n) ∧
      (Answers (additionUnlessOne (-1)) onEmptyGraph 0 .alreadyExists
        fun t => t.db = onEmptyGraph.db) ∧
      ¬ FindsOrCreates (additionUnlessOne (-1)) oneExpr onEmptyGraph := by
  have hnone : ∀ n, ¬ oneExpr.Selects onEmptyGraph.db n := fun n hn => by
    rw [SearchExpression.Selects, if_neg (by decide)] at hn
    obtain ⟨nd, hnd, -⟩ := hn
    cases hnd
  have hanswers : Answers (additionUnlessOne (-1)) onEmptyGraph 0 .alreadyExists
      fun t => t.db = onEmptyGraph.db := ⟨_, Runs.of_ret (n := 2) rfl, rfl, rfl⟩
  refine ⟨rfl, rfl, hnone, hanswers, fun h => ?_⟩
  cases (h.none hnone).code_eq hanswers

end Vdms
