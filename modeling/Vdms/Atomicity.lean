import Vdms.TableScan
import Vdms.Transactions

/-!
# Atomicity of Transactions

`process_queries` stops at the first command for which `process_query` answers -1, and then
nothing is committed. But two kinds of failure do not get that far: `process_query` drops
the value that `update_node` and `update_edge` return, and a query that has found something
returns 0 whatever `build_results` reports. After such a failure the transaction goes on,
and commits what the other commands did.

## Main results

* `queryNode_code`, `addNode_code`, …: what a method that returns 0 has reported.
* `processQuery_code`: a command that succeeds has reported no error, unless it is one of
  those whose failure goes unnoticed.
* `atomic_of_noticed`: without such commands a transaction is atomic.
-/

namespace Vdms

open Imp Imp.Prog Platform Relation

/-- The codes of a command that has done what it was asked for. -/
def ErrorCode.Fine (code : ErrorCode) : Prop := code = .success ∨ code = .alreadyExists

section

variable [Platform] {s t : Handler} {cmd : Command}

/-! ### What the methods report -/

/-- What a query reports that has found something: success, or an error in the results. -/
def Found (code : ErrorCode) : Prop := code = .success ∨ code = .error

/-- What a method reports that returns 0. -/
abbrev Reports (C : ErrorCode → Prop) (v : ℤ) (t : Handler) : Prop :=
  0 ≤ v → C t.response.errorCode

variable {C : ErrorCode → Prop}

omit [Platform] in
theorem fail_reports (code : ErrorCode) (msg : String) :
    Sat (fail code msg) s (Reports C) fun _ _ => True :=
  Sat.modify_bind (Sat.pure fun h => absurd h (by decide))

section Query

variable {qn : QueryNode} {qe : QueryEdge}

omit [Platform] in
theorem found_of_mem {code : ErrorCode} (h : Kind.report code ∈ .move :: resultKinds) :
    Found code := by
  simp only [resultKinds, List.mem_cons, reduceCtorEq, Kind.report.injEq, List.not_mem_nil,
    or_false, false_or] at h
  exact .inr h

/-- The methods that work on a result only report an error in it. -/
theorem Footprint.found {α : Type} {K : List Kind} {m : Handling α} (hm : Footprint K m)
    (hK : ∀ code, .report code ∈ K → Found code) (hs : Found s.response.errorCode) :
    Sat m s (fun _ t => Found t.response.errorCode) fun _ _ => True :=
  Sat.mono (hm.keeps_code hK hs) (fun _ _ h => h) fun _ _ _ => trivial

theorem cacheResult_found (start : Start) (tni : ReusableIterator NodeIterator NodeID)
    (hs : Found s.response.errorCode) :
    Sat (cacheResult qn start tni) s (fun _ t => Found t.response.errorCode)
      fun _ _ => True := by
  refine Sat.ite (fun _ => ?_) fun _ => Sat.pure hs
  refine Sat.bind ((traverseLinked_footprint start tni).found (by simp) hs) fun tni t ht => ?_
  exact Sat.modify ht

theorem queryNodeFinish_found (start : Start) (tni : ReusableIterator NodeIterator NodeID)
    (hs : Found s.response.errorCode) :
    Sat (queryNodeFinish qn start tni) s (Reports Found) fun _ _ => True := by
  have hsort := sortResults_footprint Element.node NodeIterator.footprint qn.results
  have hnode : IterFootprint (.move :: resultKinds) NodeIterator.iter :=
    NodeIterator.footprint.mono (by simp)
  have hres := reusableResults_footprint Element.node hnode qn.results
    (ResponseType.kinds_subset _)
  refine Sat.bind ((hsort tni).found (by simp) hs) fun tni t ht => ?_
  refine Sat.bind ((hres tni).found (fun _ => found_of_mem) ht) fun tni u hu => ?_
  refine Sat.bind (cacheResult_found start tni hu) fun _ w hw => ?_
  refine Sat.bind ((resetStart_footprint start).found (by simp) hw) fun _ x hx => ?_
  exact Sat.pure fun _ => hx

/-- A query for nodes that returns 0 has found something. -/
theorem queryNode_code (qn : QueryNode) :
    Sat (queryNode qn) s (Reports Found) fun _ _ => True := by
  have hnode : IterFootprint (.move :: resultKinds) NodeIterator.iter :=
    NodeIterator.footprint.mono (by simp)
  have hres := buildResults_footprint Element.node hnode qn.results
    (ResponseType.kinds_subset _)
  have hfrom : ∀ (start : Start) (t : Handler),
      Sat (queryNodeFrom qn start) t (Reports Found) fun _ _ => True := fun start t => by
    refine Sat.seq fun ni t => Sat.ite (fun _ => ?_) fun _ => Sat.modify_bind ?_
    · exact Sat.seq fun _ t => Sat.seq fun _ t => Sat.pure fun h => absurd h (by decide)
    · have hfound : Found ((t.modifyResponse fun r => { r with
          rType := qn.results.rType, errorCode := .success }).response.errorCode) := .inl rfl
      refine Sat.ite (fun _ => ?_) fun _ => ?_
      · refine Sat.bind ((hres ni).found (fun _ => found_of_mem) hfound) fun _ u hu => ?_
        refine Sat.bind ((resetStart_footprint start).found (by simp) hu) fun _ w hw => ?_
        exact Sat.pure fun _ => hw
      · have hnext := ReusableIterator.next_footprint (τ := NodeID) NodeIterator.footprint
        refine Sat.bind ((hnext _).found (by simp) hfound) fun tni u hu => ?_
        refine Sat.ite (fun _ => ?_) fun _ => queryNodeFinish_found start tni hu
        refine Sat.bind ((hnext tni).found (by simp) hu) fun tni w hw => ?_
        refine Sat.ite (fun _ => ?_) fun _ => queryNodeFinish_found start _ hw
        exact Sat.seq fun _ t => Sat.seq fun _ t => Sat.pure fun h => absurd h (by decide)
  refine Sat.get_bind (Sat.ite (fun _ => fail_reports _ _) fun _ => ?_)
  split
  · exact hfrom _ _
  · exact Sat.ite (fun _ => fail_reports _ _) fun _ =>
      Sat.ite (fun _ => fail_reports _ _) fun _ => hfrom _ _

theorem queryEdgeFinish_found (refs : List ℤ)
    (tei : ReusableIterator NodeEdgeIteratorImpl EdgeID) (hs : Found s.response.errorCode) :
    Sat (queryEdgeFinish qe refs tei) s (Reports Found) fun _ _ => True := by
  have hsort := sortResults_footprint Element.edge NodeEdgeIteratorImpl.footprint qe.results
  have hedge : IterFootprint (.move :: resultKinds) NodeEdgeIteratorImpl.iter :=
    NodeEdgeIteratorImpl.footprint.mono (by simp)
  have hres := reusableResults_footprint Element.edge hedge qe.results
    (ResponseType.kinds_subset _)
  have hall := ReusableIterator.traverseAll_footprint (τ := EdgeID) NodeEdgeIteratorImpl.footprint
  refine Sat.bind ((hsort tei).found (by simp) hs) fun tei t ht => ?_
  refine Sat.bind ((hres tei).found (fun _ => found_of_mem) ht) fun tei u hu => ?_
  refine Sat.bind (P := fun _ w => Found w.response.errorCode) (Sat.ite (fun _ => ?_)
    fun _ => Sat.pure hu) fun _ w hw => ?_
  · exact Sat.bind ((hall tei).found (by simp) hu) fun tei w hw => Sat.modify hw
  · refine Sat.bind ((resetAll_footprint refs).found (by simp) hw) fun _ x hx => ?_
    exact Sat.pure fun _ => hx

/-- A query for edges that returns 0 has found something. -/
theorem queryEdge_code (qe : QueryEdge) :
    Sat (queryEdge qe) s (Reports Found) fun _ _ => True := by
  have hedge : IterFootprint (.move :: resultKinds) NodeEdgeIteratorImpl.iter :=
    NodeEdgeIteratorImpl.footprint.mono (by simp)
  have hres := buildResults_footprint Element.edge hedge qe.results
    (ResponseType.kinds_subset _)
  refine Sat.modify_bind (Sat.get_bind (Sat.ite (fun _ => fail_reports _ _) fun _ => ?_))
  refine Sat.ite (fun _ => fail_reports _ _) fun _ => Sat.seq fun p t => ?_
  refine Sat.ite (fun _ => ?_) fun _ => Sat.modify_bind ?_
  · exact Sat.seq fun _ t => Sat.seq fun _ t => Sat.pure fun h => absurd h (by decide)
  · have hfound : Found ((t.modifyResponse fun r => { r with
        rType := qe.results.rType, errorCode := .success }).response.errorCode) := .inl rfl
    refine Sat.ite (fun _ => ?_) fun _ => ?_
    · refine Sat.bind ((hres p.1).found (fun _ => found_of_mem) hfound) fun _ u hu => ?_
      refine Sat.bind ((resetAll_footprint p.2).found (by simp) hu) fun _ w hw => ?_
      exact Sat.pure fun _ => hw
    · have hnext := ReusableIterator.next_footprint (τ := EdgeID) NodeEdgeIteratorImpl.footprint
      refine Sat.bind ((hnext _).found (by simp) hfound) fun tei u hu => ?_
      refine Sat.ite (fun _ => ?_) fun _ => queryEdgeFinish_found p.2 tei hu
      refine Sat.bind ((hnext tei).found (by simp) hu) fun tei w hw => ?_
      refine Sat.ite (fun _ => ?_) fun _ => queryEdgeFinish_found p.2 _ hw
      exact Sat.seq fun _ t => Sat.seq fun _ t => Sat.pure fun h => absurd h (by decide)

end Query

theorem addNewNode_code (cn : AddNode) :
    Sat (addNewNode cn) s (Reports ErrorCode.Fine) fun _ _ => True := by
  refine Sat.seq fun n t => Sat.seq fun _ t => Sat.seq fun expiration t => Sat.seq fun _ t => ?_
  exact Sat.modify_bind (Sat.modify_bind (Sat.pure fun _ => .inl rfl))

theorem addNode_code (cn : AddNode) :
    Sat (addNode cn) s (Reports ErrorCode.Fine) fun _ _ => True := by
  refine Sat.get_bind (Sat.ite (fun _ => fail_reports _ _) fun _ => ?_)
  split
  · exact addNewNode_code cn
  · refine Sat.seq fun _ t => Sat.get_bind (Sat.ite (fun _ => ?_) fun _ => Sat.ite (fun _ => ?_)
      fun _ => addNewNode_code cn)
    · exact Sat.modify_bind (Sat.pure fun _ => .inr rfl)
    · exact Sat.pure fun h => absurd h (by decide)

theorem addEdge_code (ce : AddEdge) :
    Sat (addEdge ce) s (Reports ErrorCode.Fine) fun _ _ => True := by
  refine Sat.modify_bind (Sat.get_bind (Sat.ite (fun _ => fail_reports _ _) fun _ => ?_))
  split
  · refine Sat.ite (fun _ => fail_reports _ _) fun _ => Sat.seq fun p t => Sat.seq fun _ t => ?_
    exact Sat.modify_bind (Sat.modify_bind (Sat.pure fun _ => .inl rfl))
  · exact fail_reports _ _

theorem updateNodesAt_code (un : UpdateNode) (k : ℤ) :
    Sat (updateNodesAt un k) s (fun v t => v = 0 ∧ t.response.errorCode = .success)
      fun _ _ => True := by
  refine Sat.seq fun updated t => Sat.seq fun _ t => ?_
  exact Sat.modify_bind (Sat.modify_bind (Sat.pure ⟨rfl, rfl⟩))

theorem updateEdgesAt_code (ue : UpdateEdge) (k : ℤ) :
    Sat (updateEdgesAt ue k) s (fun v t => v = 0 ∧ t.response.errorCode = .success)
      fun _ _ => True := by
  refine Sat.get_bind ?_
  split
  · exact Sat.stuck
  · refine Sat.seq fun _ t => Sat.seq fun _ t => ?_
    exact Sat.modify_bind (Sat.modify_bind (Sat.pure ⟨rfl, rfl⟩))

/-! ### Failures that go unnoticed -/

/-- The query of an update, if there is one, does not lead to references to update: it
reports something else than success, or it has no identifier. -/
def FindsNothing (query : Option (Handling ℤ × ℤ)) (s : Handler) : Prop :=
  match query with
  | none => True
  | some (m, id) => ∃ v t, Runs m s (.ret v t) ∧ (t.response.errorCode ≠ .success ∨ id < 0)

/-- The command fails, and `process_query` does not notice: a query with an error in its
result, or an update without a cached reference whose query finds nothing. -/
def FailsUnnoticed (cmd : Command) (s : Handler) : Prop :=
  match cmd.cmdId with
  | .queryNode => ∃ v t, Runs (queryNode cmd.queryNode) (s.begin cmd) (.ret v t) ∧ 0 ≤ v ∧
      t.response.errorCode = .error
  | .queryEdge => ∃ v t, Runs (queryEdge cmd.queryEdge) (s.begin cmd) (.ret v t) ∧ 0 ≤ v ∧
      t.response.errorCode = .error
  | .updateNode =>
      ¬ (0 ≤ cmd.updateNode.identifier ∧
        (s.cachedNodes (toInt cmd.updateNode.identifier)).isSome) ∧
      FindsNothing (cmd.updateNode.queryNode.map fun qn => (queryNode qn, qn.identifier))
        (s.begin cmd)
  | .updateEdge =>
      ¬ (0 ≤ cmd.updateEdge.identifier ∧
        (s.cachedEdges (toInt cmd.updateEdge.identifier)).isSome) ∧
      FindsNothing (cmd.updateEdge.queryEdge.map fun qe => (queryEdge qe, qe.identifier))
        (s.begin cmd)
  | _ => False

/-- What an update does after its query. -/
theorem updateNodeFound_code {un : UpdateNode} {qn : QueryNode} {v : ℤ}
    (h : Runs (updateNodeFound un qn) s (.ret v t)) :
    t.response.errorCode = .success ∨ s.response.errorCode ≠ .success ∨ qn.identifier < 0 := by
  by_cases hcode : s.response.errorCode = .success
  · by_cases hid : 0 ≤ qn.identifier
    · left
      have h := Runs.get_bind_inv h
      simp only [hcode, ne_eq, not_true_eq_false, if_false, hid, if_true] at h
      exact ((updateNodesAt_code un _).ret h).2
    · exact .inr (.inr (by omega))
  · exact .inr (.inl hcode)

theorem updateEdgeFound_code {ue : UpdateEdge} {qe : QueryEdge} {v : ℤ}
    (h : Runs (updateEdgeFound ue qe) s (.ret v t)) :
    t.response.errorCode = .success ∨ s.response.errorCode ≠ .success ∨ qe.identifier < 0 := by
  by_cases hcode : s.response.errorCode = .success
  · by_cases hid : 0 ≤ qe.identifier
    · left
      have h := Runs.get_bind_inv h
      simp only [hcode, ne_eq, not_true_eq_false, if_false, hid, if_true] at h
      exact ((updateEdgesAt_code ue _).ret h).2
    · exact .inr (.inr (by omega))
  · exact .inr (.inl hcode)

/-- An update of nodes reports success or is one that finds nothing. -/
theorem updateNode_code {un : UpdateNode} {v : ℤ} (h : Runs (updateNode un) s (.ret v t)) :
    t.response.errorCode = .success ∨
      ¬ (0 ≤ un.identifier ∧ (s.cachedNodes (toInt un.identifier)).isSome) ∧
        FindsNothing (un.queryNode.map fun qn => (queryNode qn, qn.identifier)) s := by
  have h := Runs.get_bind_inv h
  by_cases hown : 0 ≤ un.identifier ∧ (s.cachedNodes (toInt un.identifier)).isSome
  · rw [if_pos hown] at h
    exact .inl ((updateNodesAt_code un _).ret h).2
  · rw [if_neg hown] at h
    cases hquery : un.queryNode with
    | none => exact .inr ⟨hown, trivial⟩
    | some qn =>
        simp only [hquery] at h
        obtain ⟨w, u, hrun, h⟩ := Runs.bind_inv h
        rcases updateNodeFound_code h with hsucc | hnothing
        · exact .inl hsucc
        · exact .inr ⟨hown, w, u, hrun, hnothing⟩

theorem updateEdge_code {ue : UpdateEdge} {v : ℤ} (h : Runs (updateEdge ue) s (.ret v t)) :
    t.response.errorCode = .success ∨
      ¬ (0 ≤ ue.identifier ∧ (s.cachedEdges (toInt ue.identifier)).isSome) ∧
        FindsNothing (ue.queryEdge.map fun qe => (queryEdge qe, qe.identifier)) s := by
  have h := Runs.get_bind_inv h
  by_cases hown : 0 ≤ ue.identifier ∧ (s.cachedEdges (toInt ue.identifier)).isSome
  · rw [if_pos hown] at h
    exact .inl ((updateEdgesAt_code ue _).ret h).2
  · rw [if_neg hown] at h
    cases hquery : ue.queryEdge with
    | none => exact .inr ⟨hown, trivial⟩
    | some qe =>
        simp only [hquery] at h
        obtain ⟨w, u, hrun, h⟩ := Runs.bind_inv h
        rcases updateEdgeFound_code h with hsucc | hnothing
        · exact .inl hsucc
        · exact .inr ⟨hown, w, u, hrun, hnothing⟩

/-- Opening and closing a transaction succeeds or fails. -/
theorem dispatch_tx_code (hid : cmd.cmdId.isTx = true) :
    Sat (dispatch cmd) s (Reports ErrorCode.Fine) fun _ _ => True := by
  rw [dispatch]
  cases hcmd : cmd.cmdId <;> rw [hcmd] at hid
  case txBegin =>
    refine Sat.get_bind (Sat.seq fun _ t => Sat.modify_bind ?_)
    exact Sat.modify_bind (Sat.pure fun _ => .inl rfl)
  case txCommit =>
    refine Sat.get_bind ?_
    split
    · exact Sat.stuck
    · refine Sat.seq fun _ t => Sat.modify_bind ?_
      exact Sat.modify_bind (Sat.pure fun _ => .inl rfl)
  case txAbort => exact Sat.modify_bind (Sat.pure fun h => absurd h (by decide))
  all_goals cases hid

/-- **A command that succeeds** has done what it was asked for, unless its failure goes
unnoticed. -/
theorem processQuery_code {v : ℤ} (h : Runs (processQuery cmd) s (.ret v t)) (hv : 0 ≤ v)
    (hcmd : ¬ FailsUnnoticed cmd s) : t.response.errorCode.Fine := by
  obtain h | ⟨rfl, -⟩ := processQuery_inv h
  · have htx : cmd.cmdId.isTx = true → t.response.errorCode.Fine := fun hid =>
      (dispatch_tx_code hid).ret h hv
    rw [FailsUnnoticed] at hcmd
    cases hid : cmd.cmdId
    case txBegin | txCommit | txAbort => exact htx (by rw [hid]; rfl)
    case deleteExpired =>
      have hfoot : FootprintAt cmd.cmdId.kinds (dispatch cmd) (s.begin cmd) :=
        dispatch_footprint (by rw [hid]; rfl)
      rw [hid] at hfoot
      rcases (hfoot.does h).errorCode_eq with heq | hmem
      · exact .inl heq
      · simp [CommandId.kinds] at hmem
    all_goals simp only [hid, dispatch] at hcmd h
    case addNode => exact (addNode_code _).ret h hv
    case addEdge => exact (addEdge_code _).ret h hv
    case queryNode =>
      rcases (queryNode_code _).ret h hv with hsucc | herror
      · exact .inl hsucc
      · exact absurd ⟨v, t, h, hv, herror⟩ hcmd
    case queryEdge =>
      rcases (queryEdge_code _).ret h hv with hsucc | herror
      · exact .inl hsucc
      · exact absurd ⟨v, t, h, hv, herror⟩ hcmd
    case updateNode =>
      obtain ⟨w, u, hrun, hrest⟩ := Runs.bind_inv h
      obtain ⟨-, rfl⟩ := Runs.pure_inv hrest
      exact .inl ((updateNode_code hrun).resolve_right hcmd)
    case updateEdge =>
      obtain ⟨w, u, hrun, hrest⟩ := Runs.bind_inv h
      obtain ⟨-, rfl⟩ := Runs.pure_inv hrest
      exact .inl ((updateEdge_code hrun).resolve_right hcmd)
  · omega

/-! ### Transactions -/

/-- The transaction changed the graph only if every command was answered, and every answer
is fine. In particular, with an answer that is not, the graph is as it was. -/
def Atomic (cmds : List Command) (s t : Handler) (rs : Responses) : Prop :=
  t.db ≠ s.db → rs.flatten.length = cmds.length ∧ ∀ r ∈ rs.flatten, r.errorCode.Fine

/-- The command to open a transaction, commands that neither open nor close one, and the
command to commit it. -/
def IsTransaction (cmds : List Command) : Prop :=
  ∃ first body last, cmds = first :: (body ++ [last]) ∧ first.cmdId = .txBegin ∧
    (∀ cmd ∈ body, cmd.cmdId.isTx = false) ∧ last.cmdId = .txCommit

theorem processQuery_tx_eq {v : ℤ} (hcmd : cmd.cmdId.isTx = false)
    (h : Runs (processQuery cmd) s (.ret v t)) : t.tx = s.tx := by
  have hfoot := dispatch_footprint (s := s) hcmd
  have hdispatch : Sat (dispatch cmd) (s.begin cmd) (fun _ t => t.tx = s.tx)
      fun _ t => t.tx = s.tx :=
    Sat.mono hfoot (fun _ _ h => h.tx_eq) fun _ _ h => h.tx_eq
  exact (processQuery_sat (Q := fun _ t => t.tx = s.tx) hdispatch fun _ _ h => h).ret h

/-- A commit that fails commits nothing. -/
theorem processQuery_commit {v : ℤ} (hcmd : cmd.cmdId = .txCommit) (hv : v < 0)
    (h : Runs (processQuery cmd) s (.ret v t)) : t.tx = s.tx := by
  have hcall : ∀ s, Sat (call .commit) s (fun _ t => t = s) fun _ t => t = s := fun s =>
    Sat.mono (call_readOnly _ s) (fun _ _ h => h.eq) fun _ _ h => h.eq
  have hdispatch : Sat (dispatch cmd) (s.begin cmd) (fun v t => v < 0 → t.tx = s.tx)
      fun _ t => t.tx = s.tx := by
    rw [dispatch]
    rw [hcmd]
    refine Sat.get_bind ?_
    split
    · exact Sat.stuck
    · refine Sat.bind (Sat.mono (hcall _) (fun _ _ h => h) ?_) fun _ t _ => ?_
      · rintro _ t rfl
        rfl
      · exact Sat.modify_bind (Sat.modify_bind (Sat.pure fun h => absurd h (by decide)))
  exact (processQuery_sat (Q := fun v t => v < 0 → t.tx = s.tx) hdispatch
    fun _ _ h _ => h).ret h hv

/-- **From the opening to the commit.** Either the transaction is still as it was opened, or
every command was answered and every answer is fine. Induction on the commands. -/
theorem processCommands_atomic {body : List Command} {last : Command} {rs rs' : Responses}
    (hbody : ∀ cmd ∈ body, cmd.cmdId.isTx = false) (hlast : last.cmdId = .txCommit)
    (hnoticed : EachCommand (fun cmd s => ¬ FailsUnnoticed cmd s) (body ++ [last]) s)
    (hfine : ∀ r ∈ rs.flatten, r.errorCode.Fine)
    (h : Runs (processCommands rs (body ++ [last])) s (.ret rs' t)) :
    t.tx = s.tx ∨ rs'.flatten.length = rs.flatten.length + (body.length + 1) ∧
      ∀ r ∈ rs'.flatten, r.errorCode.Fine := by
  induction body generalizing rs s with
  | nil =>
      obtain ⟨hhead, -⟩ := eachCommand_cons.1 hnoticed
      obtain ⟨v, u, hquery, ⟨hv, -, rfl⟩ | ⟨hv, hgrp, hrest⟩⟩ := processCommands_cons_inv h
      · have htx := processQuery_commit hlast hv hquery
        exact .inl htx
      · obtain ⟨rfl, -⟩ := processCommands_nil_inv hrest
        have hcode := processQuery_code hquery hv hhead
        exact .inr ⟨length_flatten_modify hgrp _, forall_flatten_modify hfine hcode⟩
  | cons cmd body ih =>
      obtain ⟨hhead, htail⟩ := eachCommand_cons.1 hnoticed
      obtain ⟨v, u, hquery, hrest⟩ := processCommands_cons_inv h
      have htx := processQuery_tx_eq (hbody cmd (List.mem_cons_self ..)) hquery
      obtain ⟨hv, -, rfl⟩ | ⟨hv, hgrp, hrest⟩ := hrest
      · exact .inl htx
      · have hcode := processQuery_code hquery hv hhead
        have hih := ih (fun c hc => hbody c (List.mem_cons_of_mem _ hc)) (htail v u hquery hv)
          (forall_flatten_modify hfine hcode) hrest
        rw [length_flatten_modify hgrp] at hih
        refine hih.imp (fun h => h.trans htx) fun ⟨hlen, hall⟩ => ⟨?_, hall⟩
        rw [hlen, List.length_cons]
        omega

/-- Opening a transaction keeps the graph, and takes note of it. -/
theorem processQuery_begin {v : ℤ} (hcmd : cmd.cmdId = .txBegin)
    (h : Runs (processQuery cmd) s (.ret v t)) : t.db = s.db ∧ (v < 0 → t.tx = s.tx) ∧
      (0 ≤ v → t.response.errorCode = .success ∧
        ∃ readonly, t.tx = some ⟨s.db, readonly, false⟩) := by
  have hcall : ∀ c s, Sat (call c) s (fun _ t => t = s) fun _ t => t = s := fun c s =>
    Sat.mono (call_readOnly c s) (fun _ _ h => h.eq) fun _ _ h => h.eq
  let Opened (v : ℤ) (t : Handler) : Prop := t.db = s.db ∧ (v < 0 → t.tx = s.tx) ∧
    (0 ≤ v → t.response.errorCode = .success ∧ ∃ readonly, t.tx = some ⟨s.db, readonly, false⟩)
  have hdispatch : Sat (dispatch cmd) (s.begin cmd) Opened
      fun _ t => t.db = s.db ∧ t.tx = s.tx := by
    rw [dispatch]
    rw [hcmd]
    refine Sat.get_bind (Sat.bind (Sat.mono (hcall _ _) (fun _ _ h => h) ?_) ?_)
    · rintro _ t rfl
      exact ⟨rfl, rfl⟩
    · rintro _ t rfl
      exact Sat.modify_bind (Sat.modify_bind (Sat.pure
        ⟨rfl, fun h => absurd h (by decide), fun _ => ⟨rfl, _, rfl⟩⟩))
  refine (processQuery_sat (Q := Opened) hdispatch fun _ u hu => ⟨hu.1, fun _ => hu.2, ?_⟩).ret h
  exact fun h => absurd h (by decide)

/-- A transaction in which no failure goes unnoticed is atomic. -/
theorem atomic_of_noticed {r : Request} {rs : Responses} (hr : IsTransaction r.cmds)
    (h : Runs r.process s (.ret rs t))
    (hnoticed : EachCommand (fun cmd s => ¬ FailsUnnoticed cmd s) r.cmds (r.opens s)) :
    Atomic r.cmds s t rs := by
  obtain ⟨first, body, last, hcmds, hfirst, hbody, hlast⟩ := hr
  obtain ⟨htx, u, rfl, hrun⟩ := processQueries_inv h
  have htx : (r.opens s).tx = none := htx
  have hdb : (r.opens s).db = s.db := rfl
  intro hchanged
  rw [hcmds] at hrun hnoticed ⊢
  obtain ⟨-, htail⟩ := eachCommand_cons.1 hnoticed
  obtain ⟨v, w, hquery, hrest⟩ := processCommands_cons_inv hrun
  obtain ⟨hwdb, hfail, hsucc⟩ := processQuery_begin hfirst hquery
  rw [htx] at hfail
  rw [hdb] at hwdb hsucc
  obtain ⟨hv, -, rfl⟩ | ⟨hv, hgrp, hrest⟩ := hrest
  · refine absurd (Handler.closed_db (s := { w with listed := [] }) (fun _ => hwdb)
      fun tx hsome => ?_) hchanged
    rw [show w.tx = some tx from hsome] at hfail
    cases hfail hv
  · obtain ⟨hcode, readonly, hwtx⟩ := hsucc hv
    have hnone : ∀ x ∈ (List.replicate r.numGroups ([] : List Response)).flatten,
        x.errorCode.Fine := by simp
    rcases processCommands_atomic hbody hlast (htail v w hquery hv)
        (forall_flatten_modify hnone (.inl hcode)) hrest with hsame | ⟨hlen, hall⟩
    · have hutx : u.tx = some ⟨s.db, readonly, false⟩ := hsame.trans hwtx
      refine absurd (Handler.closed_db (fun hnone => ?_) fun tx hsome => ?_) hchanged
      · rw [hutx] at hnone
        cases hnone
      · rw [hutx] at hsome
        cases hsome
        exact ⟨rfl, rfl⟩
    · rw [length_flatten_modify hgrp] at hlen
      refine ⟨?_, hall⟩
      rw [hlen, List.length_cons, List.length_append, List.length_singleton]
      simp
      omega

end

end Vdms
