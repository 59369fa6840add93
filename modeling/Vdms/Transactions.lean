import Vdms.CommandFootprints

/-!
# Transactions as Sequences of Steps

`process_queries` runs the commands of a transaction one after the other, up to the first
that fails. `Progress.Step` is this sequence as a transition system: its states are the
commands left and the handler, and a step is a command that succeeds. A condition on the
commands of a transaction is stated about the states they start in (`EachCommand`).

## Main results

* `processCommands_cons_inv`, `processQueries_inv`: what a run of the loop, and of a
  transaction, consists of.
* `processCommands_ret`: the rule by which a fact about all commands becomes a fact about a
  transaction.
-/

namespace Vdms

open Imp Imp.Prog Platform Relation

/-- The state in which a command starts. -/
def Handler.begin (s : Handler) (cmd : Command) : Handler :=
  { s with response := { nodeEdge := true, cmdGrpId := cmd.cmdGrpId } }

/-- The state after a command that succeeded. -/
def Handler.advance (s : Handler) : Handler := { s with position := s.position + 1 }

/-- The state in which the commands of a transaction start. -/
def Handler.opened (s : Handler) (readonly resultdeletion autodeleteInit : Bool) : Handler :=
  { s with
    readonly := readonly && !resultdeletion, resultdeletion, autodeleteInit
    position := 0, listed := [] }

/-- The state in which `process_queries` leaves the handler. -/
def Handler.closed (s : Handler) : Handler :=
  ({ s with cachedNodes := fun _ => none } : Handler).endTransaction

/-- The arguments of `process_queries`. -/
structure Request where
  cmds : List Command
  numGroups : ℕ
  readonly : Bool
  resultdeletion : Bool
  autodeleteInit : Bool := false

theorem Handler.closed_tx (s : Handler) : s.closed.tx = none := by
  rw [Handler.closed, Handler.endTransaction]
  cases s.tx with
  | none => rfl
  | some tx => rfl

theorem Handler.closed_cachedNodes (s : Handler) : s.closed.cachedNodes = fun _ => none := by
  rw [Handler.closed, Handler.endTransaction]
  cases s.tx with
  | none => rfl
  | some tx => rfl

theorem Handler.closed_cachedEdges (s : Handler) : s.closed.cachedEdges = s.cachedEdges := by
  rw [Handler.closed, Handler.endTransaction]
  cases s.tx with
  | none => rfl
  | some tx => rfl

theorem Handler.closed_expirationQueue (s : Handler) :
    s.closed.expirationQueue = s.expirationQueue := by
  rw [Handler.closed, Handler.endTransaction]
  cases s.tx with
  | none => rfl
  | some tx => rfl

/-- Without a commit the graph is the one that the transaction was opened on. -/
theorem Handler.closed_db {s : Handler} {g : Graph} (hnone : s.tx = none → s.db = g)
    (hsome : ∀ tx, s.tx = some tx → tx.committed = false ∧ tx.snapshot = g) :
    s.closed.db = g := by
  rw [Handler.closed, Handler.endTransaction]
  cases htx : s.tx with
  | none => exact hnone htx
  | some tx =>
      obtain ⟨hcommitted, hsnapshot⟩ := hsome tx htx
      simp only [hcommitted, Bool.false_eq_true, if_false]
      exact hsnapshot

variable [Platform]

def Request.process (r : Request) : Handling Responses :=
  processQueries r.cmds r.numGroups r.readonly r.resultdeletion r.autodeleteInit

/-- The state in which the commands of a request start. -/
def Request.opens (r : Request) (s : Handler) : Handler :=
  s.opened r.readonly r.resultdeletion r.autodeleteInit

/-! ### Lists of responses -/

section Responses

variable {rs : Responses} {i : ℕ} {r : Response}

omit [Platform] in
/-- A response added to a group that there is. Induction on the groups. -/
theorem length_flatten_modify (hi : i < rs.length) (r : Response) :
    (rs.modify i fun l => l ++ [r]).flatten.length = rs.flatten.length + 1 := by
  induction rs generalizing i with
  | nil => cases hi
  | cons group rs ih =>
      cases i with
      | zero =>
          simp only [List.modify_zero_cons, List.flatten_cons, List.length_append,
            List.length_singleton]
          omega
      | succ i =>
          simp only [List.modify_succ_cons, List.flatten_cons, List.length_append,
            ih (Nat.lt_of_succ_lt_succ hi)]
          omega

omit [Platform] in
theorem forall_flatten_modify {P : Response → Prop} (hrs : ∀ r ∈ rs.flatten, P r) (hr : P r) :
    ∀ r' ∈ (rs.modify i fun l => l ++ [r]).flatten, P r' := by
  intro r' hr'
  obtain ⟨group, hgroup, hmem⟩ := List.mem_flatten.1 hr'
  obtain ⟨j, hj⟩ := List.mem_iff_getElem?.1 hgroup
  rw [List.getElem?_modify] at hj
  obtain ⟨old, hold, rfl⟩ := Option.map_eq_some_iff.1 hj
  have hin : ∀ x ∈ old, P x := fun x hx =>
    hrs x (List.mem_flatten.2 ⟨old, List.mem_of_getElem? hold, hx⟩)
  by_cases hij : i = j
  · simp only [hij, if_true, List.mem_append, List.mem_singleton] at hmem
    rcases hmem with hmem | rfl
    · exact hin r' hmem
    · exact hr
  · simp only [hij, if_false] at hmem
    exact hin r' hmem

end Responses

/-! ### The transition system -/

/-- How far a transaction has come: the commands left, and the handler. -/
structure Progress where
  cmds : List Command
  handler : Handler

namespace Progress

/-- The next command succeeds. -/
inductive Step : Progress → Progress → Prop
  | intro {cmd : Command} {cmds : List Command} {s t : Handler} {v : ℤ} :
      Runs (processQuery cmd) s (.ret v t) → 0 ≤ v → Step ⟨cmd :: cmds, s⟩ ⟨cmds, t.advance⟩

def Reaches : Progress → Progress → Prop := ReflTransGen Step

end Progress

/-- Every command that the transaction gets to meets the condition in the state in which
it starts. -/
def EachCommand (P : Command → Handler → Prop) (cmds : List Command) (s : Handler) : Prop :=
  ∀ cmd rest u, Progress.Reaches ⟨cmds, s⟩ ⟨cmd :: rest, u⟩ → P cmd u

section Each

variable {P Q : Command → Handler → Prop} {cmd : Command} {cmds : List Command} {s : Handler}

theorem eachCommand_nil : EachCommand P [] s := by
  intro cmd rest u h
  rcases ReflTransGen.cases_head h with heq | ⟨p, hstep, -⟩
  · cases heq
  · cases hstep

theorem eachCommand_cons : EachCommand P (cmd :: cmds) s ↔
    P cmd s ∧ ∀ v t, Runs (processQuery cmd) s (.ret v t) → 0 ≤ v →
      EachCommand P cmds t.advance := by
  constructor
  · intro h
    refine ⟨h cmd cmds s .refl, fun v t hrun hv cmd' rest u hreach => ?_⟩
    exact h cmd' rest u (ReflTransGen.head (.intro hrun hv) hreach)
  · rintro ⟨hhead, htail⟩ cmd' rest u hreach
    rcases ReflTransGen.cases_head hreach with heq | ⟨p, hstep, hreach⟩
    · cases heq
      exact hhead
    · cases hstep with
      | intro hrun hv => exact htail _ _ hrun hv cmd' rest u hreach

/-- A condition that the commands meet in every state. Induction on the commands. -/
theorem eachCommand_of_forall (h : ∀ cmd ∈ cmds, ∀ s, P cmd s) : EachCommand P cmds s := by
  induction cmds generalizing s with
  | nil => exact eachCommand_nil
  | cons cmd cmds ih =>
      refine eachCommand_cons.2 ⟨h cmd (List.mem_cons_self ..) s, fun _ _ _ _ => ?_⟩
      exact ih fun c hc => h c (List.mem_cons_of_mem _ hc)

/-- A command that is known to run leads on to one state only. -/
theorem eachCommand_cons_of_runs {v : ℤ} {t : Handler} (h : Runs (processQuery cmd) s (.ret v t))
    (hhead : P cmd s) (hrest : EachCommand P cmds t.advance) : EachCommand P (cmd :: cmds) s := by
  refine eachCommand_cons.2 ⟨hhead, fun v' w hrun _ => ?_⟩
  injection Runs.unique h hrun with _ hsame
  rwa [← hsame]

/-- What a command leaves behind if it fails. -/
def IfItFails (Q : Handler → Prop) (cmd : Command) (u : Handler) : Prop :=
  ∀ v w, Runs (processQuery cmd) u (.ret v w) → v < 0 → Q w

/-- A command that succeeds leaves the rest to look at. -/
theorem ifItFails_cons {Q : Handler → Prop} {v : ℤ} {t : Handler}
    (h : Runs (processQuery cmd) s (.ret v t)) (hv : 0 ≤ v)
    (hrest : EachCommand (IfItFails Q) cmds t.advance) :
    EachCommand (IfItFails Q) (cmd :: cmds) s := by
  refine eachCommand_cons_of_runs h (fun v' w hrun hneg => ?_) hrest
  injection Runs.unique h hrun with hsame
  omega

theorem EachCommand.mono (h : EachCommand P cmds s) (hPQ : ∀ cmd s, P cmd s → Q cmd s) :
    EachCommand Q cmds s :=
  fun cmd rest u hreach => hPQ cmd u (h cmd rest u hreach)

/-- **The invariant of a transaction.** What every command keeps that meets the condition
and succeeds holds at every point. Induction on the way there. -/
theorem Progress.Reaches.invariant {I : Handler → Prop} {cmds' : List Command} {u : Handler}
    (hstep : ∀ {cmd s v t}, I s → P cmd s → Runs (processQuery cmd) s (.ret v t) → 0 ≤ v →
      I t.advance) (hP : EachCommand P cmds s) (hI : I s)
    (h : Progress.Reaches ⟨cmds, s⟩ ⟨cmds', u⟩) : I u := by
  have key : ∀ p, Progress.Reaches ⟨cmds, s⟩ p → I p.handler := by
    intro p hp
    induction hp with
    | refl => exact hI
    | tail hreach hlast ih =>
        cases hlast with
        | intro hrun hv => exact hstep ih (hP _ _ _ hreach) hrun hv
  exact key _ h

end Each

/-! ### What a run consists of -/

variable {rs rs' : Responses} {cmd : Command} {cmds : List Command} {s t : Handler}

theorem processCommands_nil_inv (h : Runs (processCommands rs []) s (.ret rs' t)) :
    rs' = rs ∧ t = s := by
  obtain ⟨hrs, hst⟩ := Runs.pure_inv h
  exact ⟨hrs.symm, hst.symm⟩

/-- The first command of a loop that returned: it failed and its response is the only one,
or it succeeded and the loop went on. -/
theorem processCommands_cons_inv (h : Runs (processCommands rs (cmd :: cmds)) s (.ret rs' t)) :
    ∃ v u, Runs (processQuery cmd) s (.ret v u) ∧
      (v < 0 ∧ rs' = [[{ u.response with cmdGrpId := 0 }]] ∧ t = { u with listed := [] } ∨
        0 ≤ v ∧ cmd.cmdGrpId < rs.length ∧
          Runs (processCommands (rs.modify cmd.cmdGrpId fun l => l ++ [u.response]) cmds)
            u.advance (.ret rs' t)) := by
  obtain ⟨v, u, hquery, h⟩ := Runs.bind_inv h
  refine ⟨v, u, hquery, ?_⟩
  have h := Runs.get_bind_inv h
  by_cases hv : v < 0
  · rw [if_pos hv] at h
    have h := Runs.modify_bind_inv h
    obtain ⟨hrs, hst⟩ := Runs.pure_inv h
    exact .inl ⟨hv, hrs.symm, hst.symm⟩
  · rw [if_neg hv] at h
    right
    by_cases hgrp : cmd.cmdGrpId < rs.length
    · rw [if_pos hgrp] at h
      exact ⟨by omega, hgrp, Runs.modify_bind_inv h⟩
    · rw [if_neg hgrp] at h
      exact absurd h (Diverges.not_runs fun _ => rfl)

/-- **Transactions.** An invariant that every command keeps which meets the condition, and
from which every command that fails establishes `Q`, establishes `Q` at the end.
Induction on the commands. -/
theorem processCommands_ret {P : Command → Handler → Prop} {I Q : Responses → Handler → Prop}
    (hsucc : ∀ {rs cmd s v t}, I rs s → P cmd s → Runs (processQuery cmd) s (.ret v t) →
      0 ≤ v → I (rs.modify cmd.cmdGrpId fun l => l ++ [t.response]) t.advance)
    (hfail : ∀ {rs cmd s v t}, I rs s → P cmd s → Runs (processQuery cmd) s (.ret v t) →
      v < 0 → Q [[{ t.response with cmdGrpId := 0 }]] { t with listed := [] })
    (hend : ∀ {rs s}, I rs s → Q rs s) (hP : EachCommand P cmds s) (hI : I rs s)
    (h : Runs (processCommands rs cmds) s (.ret rs' t)) : Q rs' t := by
  induction cmds generalizing rs s with
  | nil =>
      obtain ⟨rfl, rfl⟩ := processCommands_nil_inv h
      exact hend hI
  | cons cmd cmds ih =>
      obtain ⟨hhead, htail⟩ := eachCommand_cons.1 hP
      obtain ⟨v, u, hquery, ⟨hv, rfl, rfl⟩ | ⟨hv, -, hrest⟩⟩ := processCommands_cons_inv h
      · exact hfail hI hhead hquery hv
      · exact ih (htail v u hquery hv) (hsucc hI hhead hquery hv) hrest

/-- A transaction that ran to its end. -/
theorem processQueries_inv {r : Request} (h : Runs r.process s (.ret rs t)) :
    s.tx = none ∧ ∃ u, t = u.closed ∧
      Runs (processCommands (List.replicate r.numGroups []) r.cmds) (r.opens s) (.ret rs u) := by
  have h := Runs.get_bind_inv h
  by_cases htx : s.tx.isSome
  · rw [if_pos htx] at h
    exact absurd h (Diverges.not_runs fun _ => rfl)
  · rw [if_neg htx] at h
    have h := Runs.modify_bind_inv h
    obtain ⟨rs', u, hcmds, h⟩ := Runs.bind_inv h
    have h := Runs.modify_bind_inv (Runs.modify_bind_inv h)
    obtain ⟨rfl, rfl⟩ := Runs.pure_inv h
    exact ⟨by simpa using htx, u, rfl, hcmds⟩

theorem processQueries_runs {r : Request} {u : Handler} (htx : s.tx = none)
    (h : Runs (processCommands (List.replicate r.numGroups []) r.cmds) (r.opens s)
      (.ret rs u)) : Runs r.process s (.ret rs u.closed) := by
  refine Runs.bind (Runs.of_eq fun _ => rfl) ?_
  rw [if_neg (by simp [htx])]
  exact Runs.bind (Runs.of_eq fun _ => rfl) (h.bind (Runs.of_eq fun _ => rfl))

/-! ### One command -/

/-- An exception is turned into a response: a command never raises one. -/
theorem processQuery_sat {Q : ℤ → Handler → Prop} {R : Handler → Prop}
    (h : Sat (dispatch cmd) (s.begin cmd) Q fun _ => R)
    (hR : ∀ msg t, R t → Q (-1) (t.modifyResponse fun r =>
      { r with errorCode := .exception, errorMsg := msg })) :
    Sat (processQuery cmd) s Q fun _ _ => False := by
  refine Sat.modify_bind (Sat.tryCatch h fun e t ht => ?_)
  exact Sat.modify_bind (Sat.pure (hR _ t ht))

/-- A command that returned: what it was dispatched to returned, or raised an exception. -/
theorem processQuery_inv {v : ℤ} (h : Runs (processQuery cmd) s (.ret v t)) :
    Runs (dispatch cmd) (s.begin cmd) (.ret v t) ∨ v = -1 ∧ ∃ e u msg,
      Runs (dispatch cmd) (s.begin cmd) (.throw e u) ∧
        t = u.modifyResponse fun r => { r with errorCode := .exception, errorMsg := msg } := by
  rcases Runs.tryCatch_inv (Runs.modify_bind_inv h) with h | ⟨e, u, hthrow, h⟩
  · exact .inl h
  · have h := Runs.modify_bind_inv h
    obtain ⟨rfl, rfl⟩ := Runs.pure_inv h
    exact .inr ⟨rfl, e, u, _, hthrow, rfl⟩

/-- The commands that open and close a transaction. -/
def CommandId.isTx : CommandId → Bool
  | .txBegin | .txCommit | .txAbort => true
  | _ => false

/-- What a command may do that neither opens nor closes the transaction, given its fields. -/
def Command.kinds (cmd : Command) : List Kind :=
  match cmd.cmdId with
  | .addNode => cmd.addNode.kinds
  | .addEdge => addEdgeKinds
  | .updateNode => cmd.updateNode.kinds
  | .updateEdge => cmd.updateEdge.kinds
  | .queryNode => cmd.queryNode.kinds
  | .queryEdge => cmd.queryEdge.kinds
  | .deleteExpired => [.expire]
  | .txBegin | .txCommit | .txAbort => []

/-- What a command may do that neither opens nor closes the transaction. -/
def CommandId.kinds : CommandId → List Kind
  | .addNode => addNodeKinds
  | .addEdge => addEdgeKinds
  | .updateNode => updateNodeKinds
  | .updateEdge => updateEdgeKinds
  | .queryNode => queryNodeKinds
  | .queryEdge => queryEdgeKinds
  | .deleteExpired => [.expire]
  | .txBegin | .txCommit | .txAbort => []

/-- **Footprints of the commands.** -/
theorem dispatch_typed (hcmd : cmd.cmdId.isTx = false) :
    FootprintAt cmd.kinds (dispatch cmd) (s.begin cmd) := by
  rw [dispatch, Command.kinds]
  cases hid : cmd.cmdId <;> rw [hid] at hcmd
  case txBegin | txCommit | txAbort => cases hcmd
  case addNode => exact addNode_typed _ (by simp [Handler.begin])
  case addEdge => exact addEdge_footprint _ _
  case updateNode => exact (updateNode_typed _).bind (fun _ => Footprint.pure _) _
  case updateEdge => exact (updateEdge_typed _).bind (fun _ => Footprint.pure _) _
  case queryNode => exact queryNode_typed _ _
  case queryEdge => exact queryEdge_typed _ _
  case deleteExpired => exact deleteExpiredNodes_footprint _

omit [Platform] in
theorem Command.kinds_subset (cmd : Command) : cmd.kinds ⊆ cmd.cmdId.kinds := by
  rw [Command.kinds]
  cases cmd.cmdId
  case addNode => exact AddNode.kinds_subset _
  case updateNode => exact UpdateNode.kinds_subset _
  case updateEdge => exact UpdateEdge.kinds_subset _
  case queryNode => exact QueryNode.kinds_subset _
  case queryEdge => exact QueryEdge.kinds_subset _
  all_goals exact List.Subset.refl _

/-- The same by the kind of command. -/
theorem dispatch_footprint (hcmd : cmd.cmdId.isTx = false) :
    FootprintAt cmd.cmdId.kinds (dispatch cmd) (s.begin cmd) :=
  (dispatch_typed hcmd).mono cmd.kinds_subset

/-- Opening and closing a transaction changes the transaction and the response. -/
theorem dispatch_tx (hcmd : cmd.cmdId.isTx = true) :
    Sat (dispatch cmd) s (fun _ t => ∃ tx r, t = { s with tx := tx, response := r })
      fun _ t => ∃ tx r, t = { s with tx := tx, response := r } := by
  have hcall : ∀ c, Sat (call c) s (fun _ t => t = s) fun _ t => t = s := fun c =>
    Sat.mono (call_readOnly c s) (fun _ _ h => h.eq) fun _ _ h => h.eq
  rw [dispatch]
  cases hid : cmd.cmdId <;> rw [hid] at hcmd
  case txBegin =>
    refine Sat.get_bind (Sat.bind (Sat.mono (hcall _) (fun _ _ h => h) ?_) ?_)
    · rintro _ t rfl
      exact ⟨_, _, rfl⟩
    · rintro _ t rfl
      exact Sat.modify_bind (Sat.modify_bind (Sat.pure ⟨_, _, rfl⟩))
  case txCommit =>
    refine Sat.get_bind ?_
    split
    · exact Sat.stuck
    · refine Sat.bind (Sat.mono (hcall _) (fun _ _ h => h) ?_) ?_
      · rintro _ t rfl
        exact ⟨_, _, rfl⟩
      · rintro _ t rfl
        exact Sat.modify_bind (Sat.modify_bind (Sat.pure ⟨_, _, rfl⟩))
  case txAbort => exact Sat.modify_bind (Sat.pure ⟨_, _, rfl⟩)
  all_goals cases hcmd

end Vdms
