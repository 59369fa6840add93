import Vdms.AutomaticPurge
import Vdms.ConditionalAdd
import Vdms.DescriptorsCommand
import Vdms.ExpirationQueue

/-!
# Looking a Descriptor Set up

What `get_set_path` reads from the graph, and what the commands of a transaction do to the
nodes of descriptor sets.

The transaction that looks a set up asks for the one node with the name. It answers with
the path and the dimensions of this node, with nothing if there is none, and with an error
if there are several.

## Main definitions

* `Graph.descSet`: the properties of a node that is a descriptor set.
* `IsSet`: these are the properties of a set with the given name, path and dimensions.

## Main results

* `lookUp_absent`, `lookUp_found`: a set that has not been looked up yet is not there, or is
  there once.
-/

namespace Vdms

open Imp Imp.Prog Platform Relation
open Std (TreeMap)

/-- The documented behaviour of PMGD on strings: a property equals a string if it is this
string. -/
class Platform.Strings [Platform] : Prop where
  passes_string (key : StringID) (a : String) (props : Props) : key ≠ 0 →
    (passes { id := key, op := .eq, v1 := some (.string a) } props = true ↔
      props key = some (.string a))

instance : Platform.Strings where
  passes_string key a props hkey := by
    simp only [passes, tablePasses, hkey, decide_false, Bool.false_or, Option.any_eq_true]
    constructor
    · rintro ⟨v, hv, h⟩
      cases v with
      | string s =>
          have hs : s = a := by simpa [holdsOp] using h
          rw [hv, hs]
      | _ => simp [holdsOp] at h
    · intro h
      exact ⟨.string a, h, by simp [holdsOp]⟩

section

variable [Platform]

/-! ### The rows of a list -/

/-- The values that an element adds to a list. -/
def rowOf (g : Graph) (x : Element) (keys : List String)
    (values : List (String × List PMGDProp)) : List (String × List PMGDProp) :=
  keys.foldl (fun values key => addValue key
    (match g.props x (stringID key) with
      | some v => constructProtobufProperty v
      | none => constructMissingProperty) values) values

theorem addRow_runs (x : Element) (keys : List String) (s : Handler) :
    Runs (addRow x keys) s (.ret () (s.modifyResponse fun r =>
      { r with propValues := rowOf s.db x keys r.propValues })) := by
  induction keys generalizing s with
  | nil => exact Runs.of_eq fun _ => rfl
  | cons key keys ih =>
      let p := match s.db.props x (stringID key) with
        | some v => constructProtobufProperty v
        | none => constructMissingProperty
      let t := s.modifyResponse fun r => { r with propValues := addValue key p r.propValues }
      have hfirst : Runs (do
          let v ← checkProperty x (stringID key)
          let p := match v with
            | some v => constructProtobufProperty v
            | none => constructMissingProperty
          modifyResponse fun r => { r with propValues := addValue key p r.propValues })
          s (.ret () t) := Runs.of_eq fun _ => rfl
      exact hfirst.bind (ih t)

/-- The values of a list of nodes. -/
def rows (g : Graph) (keys : List String) (l : List NodeID)
    (values : List (String × List PMGDProp)) : List (String × List PMGDProp) :=
  l.foldl (fun values n => rowOf g (.node n) keys values) values

/-- The handler with another response, and with other nodes noted as listed. -/
def Handler.answering (s : Handler) (r : Response) (listed : List Listing) : Handler :=
  { s with response := r, listed := listed }

/-- What a transaction lists stays, unless it deletes its results. -/
theorem purgeOrKeep_runs {x : Element} {s : Handler} (hdel : s.resultdeletion = false) :
    Runs (purgeOrKeep x) s (.ret () (s.list x)) := by
  refine Runs.of_eq fun k => ?_
  have hno : ¬ (s.resultdeletion = true ∧ s.db.tag x ≠ descSetTag) := fun h => by
    have htrue := h.1
    rw [hdel] at htrue
    cases htrue
  simp only [purgeOrKeep, bind_apply, get_apply, Outcome.andThen_ret, if_neg hno]
  rfl

/-- An element of a list that is not deleted. -/
theorem listElement_runs (n : NodeID) (keys : List String) {s : Handler}
    (hdel : s.resultdeletion = false) (hinit : s.autodeleteInit = false) :
    ∃ l, Runs (listElement (.node n) keys) s (.ret () (s.answering
      { s.response with propValues := rowOf s.db (.node n) keys s.response.propValues } l)) := by
  let t := s.modifyResponse fun r =>
    { r with propValues := rowOf s.db (.node n) keys r.propValues }
  refine ⟨(t.list (.node n)).listed, (addRow_runs _ keys s).bind ?_⟩
  refine (purgeOrKeep_runs (s := t) hdel).bind (Runs.of_eq fun k => ?_)
  have hno : (t.list (.node n)).autodeleteInit = false := hinit
  simp only [bind_apply, get_apply, Outcome.andThen_ret, hno, when_neg Bool.false_ne_true]
  rfl

section Quiet

variable [Platform.Quiet]

/-- **A list of nodes**, none of which is deleted. Induction on the nodes left. -/
theorem rows_runs {tni : ReusableIterator NodeIterator NodeID} {past left : List NodeID}
    (keys : List String) (count : ℕ) {s : Handler} (h : View SearchView tni s past left)
    (hdel : s.resultdeletion = false) (hinit : s.autodeleteInit = false) :
    ∃ tni' l, Runs (upTo (ReusableIterator.iter NodeIterator.iter) none (fun count x => do
        listElement (Element.node x) keys
        pure (count + 1)) id tni count) s
      (.ret (tni', count + left.length) (s.answering
        { s.response with propValues := rows s.db keys left s.response.propValues } l)) := by
  induction left generalizing tni s past count with
  | nil =>
      refine ⟨tni, s.listed, Runs.loop_stop (Runs.of_eq fun n => ?_)⟩
      simp [ReusableIterator.iter, h.bool_eq, Handler.answering, rows]
  | cons n left ih =>
      obtain ⟨l, hrun⟩ := listElement_runs n keys hdel hinit
      have ht : View SearchView tni (s.answering { s.response with
          propValues := rowOf s.db (.node n) keys s.response.propValues } l) past (n :: left) :=
        h.mono fun _ _ hi => hi
      obtain ⟨tni', u, hnext, hview, hu⟩ := ht.next_runs searchView_tracks
      obtain rfl := eq_of_reflTransGen_eq hu
      obtain ⟨tni'', l', hloop⟩ := ih (count + 1) hview hdel hinit
      have hcount : count + 1 + left.length = count + (n :: left).length := by
        rw [List.length_cons]
        omega
      rw [hcount] at hloop
      refine ⟨tni'', l', Runs.loop_step_ret ?_ hloop⟩
      have hbool : (ReusableIterator.iter NodeIterator.iter).bool tni = true := by
        simp [ReusableIterator.iter, h.bool_eq]
      simp only [hbool, if_true]
      refine (h.ref_runs s).bind ((hrun.bind (Runs.of_eq fun n => rfl)).bind ?_)
      exact hnext.bind (Runs.of_eq fun n => rfl)

/-! ### The search for a set -/

/-- A unique query for nodes that lists what it finds and caches nothing. -/
structure QueryNode.Lists (qn : QueryNode) (keys : List String) : Prop where
  identifier : qn.identifier = -1
  link : qn.link = none
  unique : qn.constraints.unique = true
  results : qn.results = { rType := .list, responseKeys := keys }

section Lists

variable {qn : QueryNode} {keys : List String} {ni : NodeIterator} {s : Handler}
  {l : List NodeID}

omit [Platform.Quiet] in
/-- Such a query goes straight to its reusable iterator. -/
theorem QueryNode.Lists.eq (hqn : qn.Lists keys) (n : ℕ) (s : Handler) :
    queryNode qn n s = (do
      let ni ← queryNodeSearch qn none
      setType .list .success
      let tni ← ReusableIterator.new NodeIterator.iter ni
      let tni ← tni.next NodeIterator.iter
      if tni.bool then do
        setError .notUnique "Query response not unique"
        pure (-1)
      else queryNodeFinish qn none tni.reset) n s := by
  have hid : ¬ (0 : ℤ) ≤ -1 := by decide
  simp only [queryNode, queryNodeFrom, queryNodeFound, queryNodeReusable, hqn.identifier, hqn.link,
    hqn.unique, hqn.results, resetStart, hid, false_and, and_false, true_or, or_true,
    not_true_eq_false, if_false, if_true, bind_apply, get_apply, Outcome.andThen_ret]
  rfl

/-- The state in which the query goes over what it found. -/
def Handler.listing (s : Handler) : Handler :=
  s.modifyResponse fun r => { r with rType := .list, errorCode := .success }

omit [Platform] [Platform.Quiet] in
theorem setType_listing (s : Handler) : Runs (setType .list .success) s (.ret () s.listing) :=
  Runs.of_eq fun _ => rfl

/-- At most one node is found. -/
theorem QueryNode.Lists.runs (hqn : qn.Lists keys)
    (hrun : Runs (queryNodeSearch qn none) s (.ret ni s)) (h : SearchView ni s l)
    (hl : l.length ≤ 1) (hdel : s.resultdeletion = false) (hinit : s.autodeleteInit = false) :
    ∃ listed, Runs (queryNode qn) s (.ret 0 (s.answering
      { s.response with
        rType := .list, errorCode := .success, op := .int l.length
        propValues := rows s.db keys l s.response.propValues } listed)) := by
  have hlisting : SearchView ni s.listing l := h
  obtain ⟨tni, u, hnew, hview, hu⟩ := View.new_runs searchView_tracks hlisting
  obtain rfl := eq_of_reflTransGen_eq hu
  obtain ⟨tni', hnext, hview', hend⟩ : ∃ tni', Runs (tni.next NodeIterator.iter) s.listing
      (.ret tni' s.listing) ∧ View SearchView tni' s.listing l [] ∧ tni'.bool = false := by
    cases l with
    | nil => exact ⟨tni, hview.next_runs_end searchView_tracks, hview, hview.bool_eq⟩
    | cons n l =>
        obtain rfl : l = [] := List.eq_nil_of_length_eq_zero (by simpa using hl)
        obtain ⟨tni', u, hnext, hview', hu⟩ := hview.next_runs searchView_tracks
        obtain rfl := eq_of_reflTransGen_eq hu
        exact ⟨tni', hnext, hview', hview'.bool_eq⟩
  have hreset := hview'.reset
  rw [List.append_nil] at hreset
  obtain ⟨tni'', listed, hrows⟩ := rows_runs keys 0 hreset hdel hinit
  rw [Nat.zero_add] at hrows
  refine ⟨listed, ?_⟩
  have hfinish : Runs (queryNodeFinish qn none tni'.reset) s.listing (.ret 0 (s.answering
      { s.response with
        rType := .list, errorCode := .success, op := .int l.length
        propValues := rows s.db keys l s.response.propValues } listed)) := by
    have hsort : Runs (sortResults NodeIterator.iter Element.node qn.results tni'.reset) s.listing
        (.ret tni'.reset s.listing) := by
      rw [hqn.results]
      exact Runs.of_eq fun _ => rfl
    have hbuild : Runs (reusableResults NodeIterator.iter Element.node qn.results tni'.reset)
        s.listing (.ret tni'' (s.answering
          { s.response with
            rType := .list, errorCode := .success, op := .int l.length
            propValues := rows s.db keys l s.response.propValues } listed)) := by
      rw [hqn.results]
      exact hrows.bind (Runs.of_eq fun _ => rfl)
    have hid : ¬ 0 ≤ qn.identifier := by
      rw [hqn.identifier]
      decide
    refine hsort.bind (hbuild.bind ?_)
    simp only [cacheResult, when_neg hid]
    exact Runs.of_eq fun _ => rfl
  have hall : Runs (do
      let ni ← queryNodeSearch qn none
      setType .list .success
      let tni ← ReusableIterator.new NodeIterator.iter ni
      let tni ← tni.next NodeIterator.iter
      if tni.bool then do
        setError .notUnique "Query response not unique"
        pure (-1)
      else queryNodeFinish qn none tni.reset) s (.ret 0 (s.answering
      { s.response with
        rType := .list, errorCode := .success, op := .int l.length
        propValues := rows s.db keys l s.response.propValues } listed)) := by
    refine hrun.bind ((setType_listing s).bind (hnew.bind (hnext.bind ?_)))
    rw [hend]
    exact hfinish
  obtain ⟨N, hN⟩ := hall
  exact ⟨N, fun n hn => (hqn.eq n s).trans (hN n hn)⟩

end Lists

/-! ### The transaction -/

/-- The state in which the query of a read-only transaction starts. -/
def Handler.reading (s : Handler) : Handler :=
  { s.opened true false false with
    tx := some ⟨s.db, true, false⟩, position := 1, response := { nodeEdge := true, rType := .tx } }

/-- A transaction that consists of one query. -/
structure PMGDQuery.Reads (q : PMGDQuery) (cmd : Command) : Prop where
  cmds : q.cmds = [{ cmdId := .txBegin }, cmd]
  group : cmd.cmdGrpId = 1
  currentGroupId : q.currentGroupId = 1
  readonly : q.readonly = true
  resultdeletion : q.resultdeletion = false

section Transaction

variable {q : PMGDQuery} {cmd : Command} {s t : Handler} {v : ℤ}

/-- A transaction is opened. -/
theorem begin_runs (hs : s.tx = none) : Runs (processQuery { cmdId := .txBegin }) s
    (.ret 0 { s with
      tx := some ⟨s.db, s.readonly, false⟩, response := { nodeEdge := true, rType := .tx } }) := by
  refine Runs.bind (Runs.of_eq fun _ => rfl) (Runs.tryCatch ?_)
  let s₀ := s.begin { cmdId := .txBegin }
  have hnone : s₀.txMode = none := by
    have htx : s₀.tx = none := hs
    rw [Handler.txMode, htx]
    rfl
  have hcall : ∀ n, call (.begin s₀.readonly) n s₀ = .ret () s₀ := fun n =>
    call_apply (by rw [hnone]; rfl) n
  refine Runs.bind (Runs.of_eq fun _ => rfl) (Runs.bind (Runs.of_eq hcall) ?_)
  exact Runs.of_eq fun _ => rfl

/-- The transaction is one for reading. -/
theorem reading_runs (hs : s.tx = none) :
    ∃ u, Runs (processQuery { cmdId := .txBegin }) (s.opened true false false) (.ret 0 u) ∧
      u.advance = s.reading :=
  ⟨_, begin_runs hs, rfl⟩

/-- A transaction that is open is committed. -/
theorem commit_runs {tx : Transaction} (grp : ℕ) (ht : t.tx = some tx) :
    ∃ r, Runs (processQuery { cmdId := .txCommit, cmdGrpId := grp }) t
      (.ret 0 { t with tx := some { tx with committed := true }, response := r }) := by
  let t₀ := t.begin { cmdId := .txCommit, cmdGrpId := grp }
  have hsome : t₀.tx = some tx := ht
  have hcall : ∀ n, call .commit n t₀ = .ret () t₀ := fun n =>
    call_apply (by rw [Handler.txMode, hsome]; rfl) n
  have hcommit : Runs (do
      call .commit
      modify fun s => { s with tx := some { tx with committed := true } }
      setType .tx .success
      pure (0 : ℤ)) t₀ (.ret 0 { t with
        tx := some { tx with committed := true }
        response := { nodeEdge := true, cmdGrpId := grp, rType := .tx } }) :=
    Runs.bind (Runs.of_eq hcall) (Runs.of_eq fun _ => rfl)
  have hread : Runs (get : Handling Handler) t₀ (.ret t₀ t₀) := Runs.of_eq fun _ => rfl
  have hdispatch : Runs (dispatch { cmdId := .txCommit, cmdGrpId := grp }) t₀ (.ret 0 { t with
      tx := some { tx with committed := true }
      response := { nodeEdge := true, cmdGrpId := grp, rType := .tx } }) := by
    refine hread.bind ?_
    rw [hsome]
    exact hcommit
  exact ⟨_, Runs.bind (Runs.of_eq fun _ => rfl) (Runs.tryCatch hdispatch)⟩

omit [Platform.Quiet] in
/-- A command that succeeds, and the commands behind it. -/
theorem processCommands_cons_runs {rs rs' : Responses} {cmds : List Command} {u : Handler}
    (hrun : Runs (processQuery cmd) s (.ret v u)) (hv : 0 ≤ v) (hgroup : cmd.cmdGrpId < rs.length)
    (hrest : Runs (processCommands (rs.modify cmd.cmdGrpId fun l => l ++ [u.response]) cmds)
      u.advance (.ret rs' t)) : Runs (processCommands rs (cmd :: cmds)) s (.ret rs' t) := by
  refine hrun.bind (Runs.bind (Runs.of_eq fun _ => rfl) ?_)
  rw [if_neg (by omega), if_pos hgroup]
  exact Runs.bind (Runs.of_eq fun _ => rfl) hrest

omit [Platform.Quiet] in
/-- A command that fails. -/
theorem processCommands_cons_fails {rs : Responses} {cmds : List Command} {u : Handler}
    (hrun : Runs (processQuery cmd) s (.ret v u)) (hv : v < 0) :
    Runs (processCommands rs (cmd :: cmds)) s
      (.ret [[{ u.response with cmdGrpId := 0 }]] { u with listed := [] }) := by
  refine hrun.bind (Runs.bind (Runs.of_eq fun _ => rfl) ?_)
  rw [if_pos hv]
  exact Runs.of_eq fun _ => rfl

/-- **A transaction of one query** that returns: its response is in the second of three
groups if it succeeds, and alone if it does not. -/
theorem PMGDQuery.Reads.runs (hq : q.Reads cmd) (hs : s.tx = none)
    (hrun : Runs (processQuery cmd) s.reading (.ret v t))
    (htx : t.tx = some ⟨s.db, true, false⟩) (hdb : t.db = s.db) :
    ∃ w rs, Runs q.run s (.ret rs w) ∧ w.db = s.db ∧ w.tx = none ∧
      (0 ≤ v → ∃ first last, rs = [[first], [t.response], [last]]) ∧
      (v < 0 → rs = [[{ t.response with cmdGrpId := 0 }]]) := by
  obtain ⟨u, hbegin, hu⟩ := reading_runs hs
  have hcmds : q.close.cmds = [{ cmdId := .txBegin }, cmd,
      { cmdId := .txCommit, cmdGrpId := 2 }] := by
    simp [PMGDQuery.close, PMGDQuery.addGroup, PMGDQuery.push, hq.cmds, hq.currentGroupId]
  have hgroups : q.close.currentGroupId = 2 := by
    simp [PMGDQuery.close, PMGDQuery.addGroup, PMGDQuery.push, hq.currentGroupId]
  have hreadonly : q.close.readonly = true := hq.readonly
  have hdeletion : q.close.resultdeletion = false := hq.resultdeletion
  have hclose : ∀ {rs : Responses} {w : Handler},
      Runs (processCommands [[], [], []] q.close.cmds) (s.opened true false false) (.ret rs w) →
        Runs q.run s (.ret rs w.closed) := by
    intro rs w hw
    have hnone : ¬ s.tx.isSome = true := by
      rw [hs]
      simp
    rw [PMGDQuery.run]
    rw [hgroups, hreadonly, hdeletion]
    rw [processQueries]
    refine Runs.bind (Runs.of_eq fun _ => rfl) ?_
    rw [if_neg hnone]
    exact Runs.bind (Runs.of_eq fun _ => rfl) (hw.bind (Runs.of_eq fun _ => rfl))
  rw [hcmds] at hclose
  by_cases hv : v < 0
  · let t' : Handler := { t with listed := [] }
    have hall : Runs (processCommands [[], [], []] [{ cmdId := .txBegin }, cmd,
        { cmdId := .txCommit, cmdGrpId := 2 }]) (s.opened true false false)
        (.ret [[{ t.response with cmdGrpId := 0 }]] t') := by
      refine processCommands_cons_runs hbegin le_rfl (by decide) ?_
      rw [hu]
      exact processCommands_cons_fails hrun hv
    refine ⟨_, _, hclose hall, ?_, Handler.closed_tx _, fun h => absurd h (by omega), fun _ => rfl⟩
    · refine Handler.closed_db (fun hnone => ?_) fun tx hsome => ?_
      · exact hdb
      · have hsame : t.tx = some tx := hsome
        rw [htx] at hsame
        obtain rfl := Option.some.inj hsame
        exact ⟨rfl, rfl⟩
  · have hadvance : t.advance.tx = some ⟨s.db, true, false⟩ := htx
    obtain ⟨r, hcommit⟩ := commit_runs 2 hadvance
    let t' : Handler := { t.advance with
      tx := some { (⟨s.db, true, false⟩ : Transaction) with committed := true }, response := r }
    have hall : Runs (processCommands [[], [], []] [{ cmdId := .txBegin }, cmd,
        { cmdId := .txCommit, cmdGrpId := 2 }]) (s.opened true false false)
        (.ret [[u.response], [t.response], [r]] t'.advance) := by
      refine processCommands_cons_runs hbegin le_rfl (by decide) ?_
      rw [hu]
      refine processCommands_cons_runs hrun (by omega) (by simp [hq.group]) ?_
      rw [hq.group]
      exact processCommands_cons_runs hcommit le_rfl (by simp) (Runs.of_eq fun _ => rfl)
    exact ⟨_, _, hclose hall, hdb, Handler.closed_tx _, fun _ => ⟨u.response, r, rfl⟩,
      fun h => absurd h hv⟩

end Transaction

end Quiet

/-! ### Sets in the graph -/

/-- What a list shows of a set. -/
def setKeys : List String := ["VD:descSetPath", "VD:dimensions", "VD:engine"]

/-- The properties of a set with the given name, path and dimensions. -/
structure IsSet (props : Props) (name path : String) (dim : ℤ) : Prop where
  name : props (stringID "VD:name") = some (.string name)
  path : props (stringID "VD:descSetPath") = some (.string path)
  dim : props (stringID "VD:dimensions") = some (.integer dim)
  engine : ∃ engine, props (stringID "VD:engine") = some (.string engine)

/-- The properties of a node that is a descriptor set. -/
def Graph.descSet (g : Graph) (n : NodeID) : Option Props :=
  ((g.node n).filter fun nd => nd.tag = descSetTag).map Node.props

/-- The node is a descriptor set with the name. -/
def Graph.Named (g : Graph) (n : NodeID) (name : String) : Prop :=
  ∃ props, g.descSet n = some props ∧ props (stringID "VD:name") = some (.string name)

/-- The search for the sets with a name. -/
def setExpr (name : String) : SearchExpression where
  tag := descSetTag
  isOr := false
  nodePredicates := [{ id := stringID "VD:name", op := .eq, v1 := some (.string name) }]

/-- The command that looks a set up. -/
def setCommand (name : String) : Command where
  cmdId := .queryNode
  cmdGrpId := 1
  queryNode :=
    { identifier := -1
      constraints :=
        { tag := .name "VD:DESCSET", unique := true
          predicates := [{ key := .name "VD:name", op := .eq
                           v1 := { type := .stringType, key := "VD:name", stringValue := name } }] }
      results := { rType := .list, responseKeys := setKeys } }

/-- The transaction that looks a set up. -/
def setTransaction (query : PMGDQuery) (name : String) : PMGDQuery :=
  { PMGDQuery.new query.expirationLimit query.now with
    cmds := [{ cmdId := .txBegin }, setCommand name], currentGroupId := 1 }

theorem setQuery_eq (query : PMGDQuery) (name : String) :
    DescriptorsCommand.setQuery query name = .ok (setTransaction query name) := rfl

omit [Platform] in
theorem setTransaction_reads (query : PMGDQuery) (name : String) :
    (setTransaction query name).Reads (setCommand name) := ⟨rfl, rfl, rfl, rfl, rfl⟩

omit [Platform] in
theorem setCommand_lists (name : String) : (setCommand name).queryNode.Lists setKeys :=
  ⟨rfl, rfl, rfl, rfl⟩

theorem setCommand_search (name : String) :
    (setCommand name).queryNode.constraints.search = .ok (setExpr name) := rfl

/-- The response to the command, when it has found at most one node. -/
def setResponse (g : Graph) (l : List NodeID) : Response where
  cmdGrpId := 1
  rType := .list
  op := .int l.length
  propValues := rows g setKeys l []
  nodeEdge := true

theorem descSet_eq_some {g : Graph} {n : NodeID} {props : Props} :
    g.descSet n = some props ↔ ∃ nd, g.node n = some nd ∧ nd.tag = descSetTag ∧
      nd.props = props := by
  simp [Graph.descSet, Option.filter_eq_some_iff, and_assoc]

/-- The response of a list of the sets that are found. -/
def setsFound (entities : List Json) : Json :=
  .object [("entities", .array entities), ("returned", .int entities.length), ("status", .int 0)]

omit [Platform] in
theorem answer_single (query : PMGDQuery) (name : String) (first r last : Response) :
    (setTransaction query name).answer [[first], [r], [last]] =
      (parseResponse r).map fun j => .array [.array [j]] := by
  have hgroups : (setTransaction query name).close.currentGroupId = 2 := rfl
  unfold PMGDQuery.answer
  rw [hgroups, if_neg (by simp)]
  cases h : parseResponse r with
  | ok j => simp [h, bind, Except.bind, pure, Except.pure, Except.map, Json.appended]
  | error e => simp [h, bind, Except.bind, Except.map]

theorem setResponse_nil (g : Graph) : parseResponse (setResponse g []) = .ok (setsFound []) := rfl

/-- The entity of a set. -/
theorem setResponse_single {g : Graph} {n : NodeID} {props : Props} {name path : String} {dim : ℤ}
    (hn : g.descSet n = some props) (hset : IsSet props name path dim) : ∃ engine,
      parseResponse (setResponse g [n]) = .ok (setsFound [.object [
        ("VD:descSetPath", .string path), ("VD:dimensions", .int dim),
        ("VD:engine", .string engine)]]) := by
  obtain ⟨engine, hengine⟩ := hset.engine
  obtain ⟨nd, hnd, -, rfl⟩ := descSet_eq_some.1 hn
  have hprops : g.props (.node n) = nd.props := by simp [Graph.props, hnd]
  have hrows : rows g setKeys [n] [] = [
      ("VD:descSetPath", [{ type := .stringType, stringValue := path }]),
      ("VD:dimensions", [{ type := .integerType, intValue := dim }]),
      ("VD:engine", [{ type := .stringType, stringValue := engine }])] := by
    simp [rows, rowOf, setKeys, hprops, hset.path, hset.dim, hengine, constructProtobufProperty,
      addValue]
  refine ⟨engine, ?_⟩
  have hparse : parseEntity (rows g setKeys [n] []) 0 = .ok (.object [
      ("VD:descSetPath", .string path), ("VD:dimensions", .int dim),
      ("VD:engine", .string engine)]) := by
    have hle : "VD:descSetPath" ≤ "VD:dimensions" := by decide
    have hle' : "VD:dimensions" ≤ "VD:engine" := by decide
    rw [hrows]
    simp only [parseEntity, List.insertionSort, List.foldr, List.orderedInsert, if_pos hle,
      if_pos hle']
    rfl
  simp only [parseResponse, setResponse, List.length_singleton, OpValue.intValue,
    List.range_one, List.mapM_cons, List.mapM_nil, hparse]
  rfl

section Search

variable [Platform.Lawful] [Platform.Integers] [Platform.Strings]

theorem mem_setExpr {g : Graph} {name : String} {n : NodeID} :
    n ∈ (setExpr name).matchList g ↔ g.Named n name := by
  have hkey : stringID "VD:name" ≠ 0 := Platform.Integers.stringID_ne_zero _ (by decide)
  have htag : descSetTag ≠ 0 := Platform.Integers.stringID_ne_zero _ (by decide)
  rw [SearchExpression.mem_matchList]
  constructor
  · rintro ⟨nd, hnd, htagged, hpass⟩
    have hname :=
      (Platform.Strings.passes_string _ _ _ hkey).1 (hpass _ (List.mem_singleton_self _))
    have htagged : nd.tag = descSetTag := by
      have htagged : (decide (descSetTag = 0) || decide (nd.tag = descSetTag)) = true := htagged
      simpa [htag] using htagged
    exact ⟨nd.props, descSet_eq_some.2 ⟨nd, hnd, htagged, rfl⟩, hname⟩
  · rintro ⟨props, hset, hname⟩
    obtain ⟨nd, hnd, htagged, rfl⟩ := descSet_eq_some.1 hset
    refine ⟨nd, hnd, by simp [tagMatches, setExpr, htagged], fun pp hpp => ?_⟩
    obtain rfl := List.mem_singleton.1 hpp
    exact (Platform.Strings.passes_string _ _ _ hkey).2 hname

/-! ### `get_set_path` -/

variable [Platform.Quiet] {s : Handler} {query : PMGDQuery} {name : String} {l : List NodeID}

omit [Platform.Integers] [Platform.Strings] in
/-- The transaction finds at most one set. -/
theorem setTransaction_runs (query : PMGDQuery) (hs : s.tx = none)
    (hl : (setExpr name).matchList s.db = l) (hlength : l.length ≤ 1) : ∃ t first last,
    Runs (setTransaction query name).run s
      (.ret [[first], [setResponse s.db l], [last]] t) ∧ t.db = s.db ∧ t.tx = none := by
  let u := s.reading.begin (setCommand name)
  have hopen : u.Open := rfl
  obtain ⟨ni, hsearch, hview⟩ := queryNodeSearch_and hopen (setCommand_search name) rfl
  have hdb : u.db = s.db := rfl
  rw [hdb, hl] at hview
  obtain ⟨listed, hrun⟩ := (setCommand_lists name).runs hsearch hview hlength rfl rfl
  have hcommand : Runs (processQuery (setCommand name)) s.reading
      (.ret 0 (u.answering (setResponse s.db l) listed)) :=
    Runs.bind (Runs.of_eq fun _ => rfl) (Runs.tryCatch hrun)
  obtain ⟨t, rs, hruns, htdb, htx, hsucc, -⟩ :=
    (setTransaction_reads query name).runs hs hcommand rfl rfl
  obtain ⟨first, last, rfl⟩ := hsucc le_rfl
  exact ⟨t, first, last, hruns, htdb, htx⟩

/-- `get_set_path`, over the graph of the handler. -/
def lookUp (query : PMGDQuery) (name : String) : Describing Handler (String × Option ℤ) :=
  DescriptorsCommand.getSetPath DescriptorsCommand.runQuery query name

variable {d : DescriptorState Handler}

omit [Platform.Lawful] [Platform.Integers] [Platform.Strings] [Platform.Quiet] in
/-- A set that has been looked up. -/
theorem lookUp_remembered {path : String} {dim : ℤ} (h : d.sets[name]? = some (path, dim)) :
    Runs (lookUp query name) d (.ret (path, some dim) d) := by
  refine Runs.of_eq fun n => ?_
  simp only [lookUp, DescriptorsCommand.getSetPath, bind_apply, get_apply, Outcome.andThen_ret, h,
    pure_apply]

omit [Platform.Lawful] [Platform.Integers] [Platform.Strings] [Platform.Quiet] in
/-- `run`, when the answer can be built. -/
theorem runQuery_runs {q : PMGDQuery} {rs : Responses} {t : Handler} {json : Json}
    (h : Runs q.run s (.ret rs t)) (hanswer : q.answer rs = .ok json) :
    Runs (DescriptorsCommand.runQuery q) s (.ret json t) := by
  refine (Runs.focus (s := s) h).bind ?_
  rw [hanswer]
  exact Runs.of_eq fun _ => rfl

omit [Platform.Lawful] [Platform.Integers] [Platform.Strings] [Platform.Quiet] in
/-- A set that has not been looked up yet: what comes of it is read off the answer. -/
theorem lookUp_reads {o : Outcome (DescriptorState Handler) RequestError (String × Option ℤ)}
    {rs : Responses} {t : Handler} {json : Json} (hnew : d.sets[name]? = none)
    (hrun : Runs (setTransaction query name).run d.store (.ret rs t))
    (hanswer : (setTransaction query name).answer rs = .ok json)
    (hrest : Runs (do
      match ← DescriptorsCommand.ofQuery (DescriptorsCommand.firstSet json) with
      | some (path, dim) => do
          modify fun s => { s with sets := s.sets.insert name (path, dim) }
          pure (path, some dim)
      | none => pure ("", none) : Describing Handler (String × Option ℤ)) { d with store := t } o) :
    Runs (lookUp query name) d o := by
  have hread : Runs (DescriptorsCommand.onStore (DescriptorsCommand.runQuery
      (setTransaction query name))) d (.ret json { d with store := t }) :=
    Runs.focus (s := d) (runQuery_runs hrun hanswer)
  obtain ⟨N, hN⟩ := hread
  obtain ⟨N', hN'⟩ := hrest
  refine ⟨max N N', fun n hn => ?_⟩
  have hle := le_max_left N N'
  have hle' := le_max_right N N'
  rw [← hN' n (by omega)]
  generalize hlook : lookUp query name n d = o'
  simp only [lookUp, DescriptorsCommand.getSetPath, bind_apply, get_apply, Outcome.andThen_ret,
    hnew, setQuery_eq, DescriptorsCommand.ofQuery, pure_apply, hN n (by omega)] at hlook
  subst hlook
  rfl

/-- There is no set with the name. -/
theorem lookUp_absent (query : PMGDQuery) (hnew : d.sets[name]? = none) (htx : d.store.tx = none)
    (hnone : ∀ n, ¬ d.store.db.Named n name) :
    ∃ t, Runs (lookUp query name) d (.ret ("", none) { d with store := t }) ∧
      t.db = d.store.db ∧ t.tx = none := by
  have hl : (setExpr name).matchList d.store.db = [] :=
    List.eq_nil_iff_forall_not_mem.2 fun n hn => hnone n (mem_setExpr.1 hn)
  obtain ⟨t, first, last, hrun, hdb, ht⟩ := setTransaction_runs query htx hl (by simp)
  have hanswer :
      (setTransaction query name).answer [[first], [setResponse d.store.db []], [last]] =
        .ok (.array [.array [setsFound []]]) := by
    rw [answer_single, setResponse_nil]
    rfl
  exact ⟨t, lookUp_reads hnew hrun hanswer (Runs.of_eq fun _ => rfl), hdb, ht⟩

/-- There is exactly one. -/
theorem lookUp_found (query : PMGDQuery) {n : NodeID} {props : Props} {path : String} {dim : ℤ}
    (hnew : d.sets[name]? = none) (htx : d.store.tx = none)
    (hone : ∀ m, d.store.db.Named m name ↔ m = n) (hn : d.store.db.descSet n = some props)
    (hset : IsSet props name path dim) (hdim : -2 ^ 31 ≤ dim ∧ dim ≤ 2 ^ 31 - 1) :
    ∃ t, Runs (lookUp query name) d
        (.ret (path, some dim) { store := t, sets := d.sets.insert name (path, dim) }) ∧
      t.db = d.store.db ∧ t.tx = none := by
  have hl : (setExpr name).matchList d.store.db = [n] := by
    have hmem : ∀ m, m ∈ (setExpr name).matchList d.store.db ↔ m = n := fun m =>
      mem_setExpr.trans (hone m)
    have hnodup := SearchExpression.matchList_nodup (setExpr name) d.store.db
    refine List.perm_singleton.1 ((List.perm_ext_iff_of_nodup hnodup (List.nodup_singleton n)).2
      fun m => ?_)
    rw [hmem, List.mem_singleton]
  obtain ⟨t, first, last, hrun, hdb, ht⟩ := setTransaction_runs query htx hl (by simp)
  obtain ⟨engine, hresponse⟩ := setResponse_single hn hset
  have hanswer :
      (setTransaction query name).answer [[first], [setResponse d.store.db [n]], [last]] =
      .ok (.array [.array [setsFound [.object [("VD:descSetPath", .string path),
        ("VD:dimensions", .int dim), ("VD:engine", .string engine)]]]]) := by
    rw [answer_single, hresponse]
    rfl
  have hfirst : DescriptorsCommand.firstSet (.array [.array [setsFound [.object [
      ("VD:descSetPath", .string path), ("VD:dimensions", .int dim),
      ("VD:engine", .string engine)]]]]) = .ok (some (path, dim)) := by
    have hint : (Json.int dim).asInt = .ok dim := if_pos hdim
    change (do
      let dim ← (Json.int dim).asInt
      pure (some (path, dim)) : Except QueryError (Option (String × ℤ))) = _
    rw [hint]
    rfl
  refine ⟨t, lookUp_reads hnew hrun hanswer ?_, hdb, ht⟩
  rw [hfirst]
  exact Runs.of_eq fun _ => rfl

end Search

end

end Vdms
