import Vdms.Outcome
import Vdms.RemovedNodes

/-!
# The Ends of Edges

An edge is added between nodes that references hold, and a node is removed together with its
edges. So as long as no query deletes a node that a reference holds, every edge has both of its
ends in the graph: during a transaction, after it whether it is committed or rolled back, and
after any number of calls of `process_queries` by any handlers.

## Main definitions

* `Request.KeepsEnds`: the call starts without references, and its commands spare them.
* `GraphRun`: calls of `process_queries` from a graph on.

## Main results

* `Request.live_during`: the handler is live at every point of such a call.
* `edges_have_ends`: every edge has its ends, after every call and at every point of the next.
* `edge_without_ends`: an edge between removed nodes, where a reference was not spared.
-/

namespace Vdms

open Imp Imp.Prog Platform Relation

section

variable [Platform] {s t : Handler}

/-- The call starts without references, and its commands spare the references. -/
structure Request.KeepsEnds (r : Request) (s : Handler) : Prop where
  transaction : IsTransaction r.cmds
  idle : s.cachedNodes = fun _ => none
  commands : EachCommand Command.Spares r.cmds (r.opens s)

/-- Calls of `process_queries`, by any number of handlers over one graph: from the graph `g`,
to the state after the last call. -/
inductive GraphRun (g : Graph) : Handler → Prop
  | start {s : Handler} : s.db = g → GraphRun g s
  | call {s s' t : Handler} {r : Request} {rs : Responses} : GraphRun g s → s'.db = s.db →
      r.KeepsEnds s' → Runs r.process s' (.ret rs t) → GraphRun g t

variable [Platform.Fresh] [Platform.Lawful]

/-- A command that spares the references, and does not fail, leaves the handler live. -/
theorem processQuery_live {cmd : Command} {v : ℤ} (hs : s.Live) (hspare : cmd.Spares s)
    (hrun : Runs (processQuery cmd) s (.ret v t)) (hv : 0 ≤ v) : t.advance.Live := by
  rcases processQuery_inv hrun with hdispatch | ⟨rfl, -⟩
  · have hlive : t.Live := Sat.ret (dispatch_live hs hspare) hdispatch
    exact ⟨hlive.closed, hlive.refs⟩
  · omega

/-- **One call**, at every point of its run. -/
theorem Request.live_during {r : Request} {cmds : List Command} (hr : r.KeepsEnds s)
    (hs : s.db.Closed) (hreach : Progress.Reaches ⟨r.cmds, r.opens s⟩ ⟨cmds, t⟩) : t.Live := by
  have hopen : (r.opens s).Live := by
    refine ⟨hs, fun k ref hk => ?_⟩
    have hcached : s.cachedNodes k = some ref := hk
    rw [hr.idle] at hcached
    cases hcached
  exact Progress.Reaches.invariant (fun hu hspare hrun hv => processQuery_live hu hspare hrun hv)
    hr.commands hopen hreach

/-- **One call**, as it ends. -/
theorem process_closed {r : Request} {rs : Responses} (hr : r.KeepsEnds s) (hs : s.db.Closed)
    (hrun : Runs r.process s (.ret rs t)) : t.db.Closed := by
  rcases process_outcome hr.transaction hrun with ⟨u, hcommit⟩ | ⟨w, hback⟩
  · rw [hcommit.db]
    exact (Request.live_during hr hs hcommit.reaches).closed
  · rw [hback.db]
    exact hs

theorem GraphRun.closed {g : Graph} (hg : g.Closed) (h : GraphRun g s) : s.db.Closed := by
  induction h with
  | start hdb =>
      rw [hdb]
      exact hg
  | call _ hdb hr hrun ih =>
      refine process_closed hr ?_ hrun
      rw [hdb]
      exact ih

/-- **Every edge has its ends in the graph**: after every call, and at every point of the
next one. -/
theorem edges_have_ends {g : Graph} (hg : g.Closed) (h : GraphRun g s) :
    s.db.Closed ∧ ∀ (s' : Handler) (r : Request) (cmds : List Command) (u : Handler),
      s'.db = s.db → r.KeepsEnds s' →
      Progress.Reaches ⟨r.cmds, r.opens s'⟩ ⟨cmds, u⟩ → u.db.Closed := by
  have hs : s.db.Closed := h.closed hg
  refine ⟨hs, fun s' r cmds u hdb hr hreach => (Request.live_during hr ?_ hreach).closed⟩
  rw [hdb]
  exact hs

end

/-- A transaction that adds two nodes, and an edge between them. -/
def addPair : Request where
  cmds := [{ cmdId := .txBegin }, { cmdId := .addNode, addNode := { identifier := 1 } },
    { cmdId := .addNode, addNode := { identifier := 2 } },
    { cmdId := .addEdge, addEdge := { identifier := -1, edge := { src := 1, dst := 2 } } },
    { cmdId := .txCommit }]
  numGroups := 1
  readonly := false
  resultdeletion := false

/-- The edge has its ends. -/
theorem edges_have_ends_pair : ∃ t : Handler, t.db.nodes.length = 2 ∧
    t.db.edges.length = 1 ∧ t.db.Closed := by
  let s : Handler := { db := ⟨[], []⟩ }
  have hs : s.db.Closed := fun e ed he => by simp [s, Graph.edge] at he
  obtain ⟨rs, t, hrun, hnodes, hedges⟩ : ∃ rs t, Runs addPair.process s (.ret rs t) ∧
      t.db.nodes.length = 2 ∧ t.db.edges.length = 1 := ⟨_, _, Runs.of_ret (n := 4) rfl, rfl, rfl⟩
  have hkeeps : addPair.KeepsEnds s := by
    refine ⟨⟨_, [_, _, _], _, rfl, rfl, by decide, rfl⟩, rfl, ?_⟩
    refine eachCommand_of_forall fun cmd hcmd u => ⟨fun qn hqn => ?_, fun hid => ?_⟩
    · have hnone : cmd.nodeQuery u = none := by
        simp only [addPair, List.mem_cons, List.not_mem_nil, or_false] at hcmd
        rcases hcmd with rfl | rfl | rfl | rfl | rfl <;> simp [Command.nodeQuery]
      rw [hnone] at hqn
      cases hqn
    · simp only [addPair, List.mem_cons, List.not_mem_nil, or_false] at hcmd
      rcases hcmd with rfl | rfl | rfl | rfl | rfl <;> cases hid
  exact ⟨t, hnodes, hedges, (edges_have_ends hs (.call (.start rfl) rfl hkeeps hrun)).1⟩

/-- A transaction that adds an edge from a node that it has deleted to itself. -/
def linkPurged : Request where
  cmds := [{ cmdId := .txBegin }, listAll 1,
    { cmdId := .addEdge, addEdge := { identifier := -1, edge := { src := 1, dst := 1 } } },
    { cmdId := .txCommit }]
  numGroups := 1
  readonly := false
  resultdeletion := true

/-- **A query that deletes what it caches.** The edge that is added next has no ends. -/
theorem edge_without_ends : onOneNode.db.Closed ∧ ∃ rs t,
    Runs linkPurged.process onOneNode (.ret rs t) ∧ ¬ t.db.Closed := by
  refine ⟨fun e ed he => by simp [onOneNode, Graph.edge] at he, ?_⟩
  obtain ⟨rs, t, hrun, ed, hedge, hgone⟩ : ∃ rs t,
      Runs linkPurged.process onOneNode (.ret rs t) ∧ ∃ ed, t.db.edge 0 = some ed ∧
        t.db.node ed.src = none := ⟨_, _, Runs.of_ret (n := 4) rfl, _, rfl, rfl⟩
  refine ⟨rs, t, hrun, fun hclosed => ?_⟩
  have hhas : t.db.Has ed.src := (hclosed 0 ed hedge).1
  rw [Graph.Has, hgone] at hhas
  cases hhas

end Vdms
