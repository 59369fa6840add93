import Vdms.Building
import Vdms.Invariants
import Vdms.Reaching
import Vdms.Outcome

/-!
# What a Transaction Deletes

Whether a transaction deletes the results of its queries is one flag of `PMGDQuery`, which
every `QueryNode` overwrites with its own decision, and the handler has one flag for the
whole transaction. So the last query decides for all: what is deleted is what the queries
that asked for it list, as long as all queries with a list agree.

## Main definitions

* `PMGDQuery.Builds`: a transaction under construction, with the decision of each command.
* `Isolated`: the transaction removes what the queries that asked for it list.

## Main results

* `purge_isolated`: isolation, if the queries with a list agree with the last query.
* `later_query_purges`: a query that did not ask for a purge, and purges.
-/

namespace Vdms

open Imp Imp.Prog Platform Relation

/-! ### Nodes that come and go -/

namespace Graph

variable {g : Graph} {n m : ℕ}

theorem Has.lt (h : g.Has n) : n < g.nodes.length := by
  by_contra hge
  rw [Has, node, List.getElem?_eq_none (Nat.le_of_not_lt hge)] at h
  cases h

theorem has_addNode_iff (tag : StringID) :
    (g.addNode tag).Has n ↔ g.Has n ∨ n = g.nodes.length := by
  unfold Has node addNode
  rcases lt_trichotomy n g.nodes.length with hlt | rfl | hgt
  · rw [List.getElem?_append_left hlt]
    exact ⟨.inl, fun h => h.resolve_right (Nat.ne_of_lt hlt)⟩
  · simp
  · rw [List.getElem?_eq_none (by simp; exact hgt), List.getElem?_eq_none (Nat.le_of_lt hgt)]
    simp [Nat.ne_of_gt hgt]

theorem has_removeNode_iff : (g.removeNode n).Has m ↔ g.Has m ∧ m ≠ n := by
  unfold Has
  rw [node_removeNode]
  by_cases h : m = n
  · simp [h]
  · simp [h]

theorem has_modifyProps_iff (x : Element) (f : Props → Props) :
    (g.modifyProps x f).Has n ↔ g.Has n := by
  cases x with
  | edge e => exact Iff.rfl
  | node m =>
      unfold Has node modifyProps
      rw [List.getElem?_modify]
      by_cases hmn : m = n
      · rcases h : g.nodes[n]? with - | (- | nd) <;> simp [hmn]
      · simp [hmn]

end Graph

/-- The node was there at some time of the transaction, and is not there afterwards. -/
def Removed (s t : Handler) (n : ℕ) : Prop :=
  (s.db.Has n ∨ s.db.nodes.length ≤ n ∧ n < t.db.nodes.length) ∧ ¬ t.db.Has n

section

variable [Platform]

/-- A query that asked for a purge has listed the node, and it is no descriptor set. -/
def Purged (asks : List Bool) (t : Handler) (n : ℕ) : Prop :=
  ∃ l ∈ t.listed, l.node = n ∧ l.tag ≠ descSetTag ∧ asks[l.position]? = some true

/-- **Purge isolation.** What has been removed is what the queries that asked for it have
listed. -/
def Isolated (asks : List Bool) (s t : Handler) : Prop :=
  ∀ n, Removed s t n ↔ Purged asks t n

/-! ### The builder -/

/-- Only a query for nodes or for edges has a list as its result. -/
structure Command.ListsOnlyAsQuery (cmd : Command) : Prop where
  addNode : ∀ qn, cmd.addNode.queryNode = some qn → qn.results.rType ≠ .list
  updateNode : ∀ qn, cmd.updateNode.queryNode = some qn → qn.results.rType ≠ .list
  updateEdge : ∀ qe, cmd.updateEdge.queryEdge = some qe → qe.results.rType ≠ .list

namespace PMGDQuery

/-- A transaction under construction. The list holds, for each command, whether it is a
query whose own constraints ask for a purge, and that is no intermediate one. -/
inductive Builds : PMGDQuery → List Bool → Prop
  | new (expirationLimit : ℤ) (now : ℕ) : Builds (PMGDQuery.new expirationLimit now) [false]
  | addGroup {q : PMGDQuery} {asks : List Bool} : Builds q asks → Builds q.addGroup asks
  | reference {q : PMGDQuery} {asks : List Bool} : Builds q asks →
      Builds { q with currentRef := q.currentRef + 1 } asks
  | addNode {q q' : PMGDQuery} {asks : List Bool} {ref : ℤ} {tag : String}
      {props constraints : Json} : Builds q asks →
      q.addNode ref tag props constraints = .ok q' → Builds q' (asks ++ [false])
  | updateNode {q q' : PMGDQuery} {asks : List Bool} {ref : ℤ} {tag : String}
      {props removeProps constraints : Json} {unique : Bool} : Builds q asks →
      q.updateNode ref tag props removeProps constraints unique = .ok q' →
      Builds q' (asks ++ [false])
  | addEdge {q q' : PMGDQuery} {asks : List Bool} {ident src dst : ℤ} {tag : String}
      {props : Json} : Builds q asks → q.addEdge ident src dst tag props = .ok q' →
      Builds q' (asks ++ [false])
  | updateEdge {q q' : PMGDQuery} {asks : List Bool} {ref srcRef destRef : ℤ} {tag : String}
      {props removeProps constraints : Json} {unique : Bool} : Builds q asks →
      q.updateEdge ref srcRef destRef tag props removeProps constraints unique = .ok q' →
      Builds q' (asks ++ [false])
  | queryNode {q q' : PMGDQuery} {asks : List Bool} {p : Parsed} {ref : ℤ} {tag : String}
      {link constraints results : Json} {unique intermediateQuery : Bool} : Builds q asks →
      q.queryNode ref tag link constraints results unique intermediateQuery = .ok q' →
      parseOptional q.now constraints = .ok p →
      Builds q' (asks ++ [p.finalPurge && !intermediateQuery])
  | queryEdge {q q' : PMGDQuery} {asks : List Bool} {ref srcRef destRef : ℤ} {tag : String}
      {constraints results : Json} {unique : Bool} : Builds q asks →
      q.queryEdge ref srcRef destRef tag constraints results unique = .ok q' →
      Builds q' (asks ++ [false])
  | deleteExpired {q : PMGDQuery} {asks : List Bool} : Builds q asks →
      Builds q.deleteExpired (asks ++ [false])

variable {q q' : PMGDQuery} {asks : List Bool}

/-- The method pushes one command, in the current group, which neither opens nor closes the
transaction. -/
def Pushes (q : PMGDQuery) (cmd : Command) (q' : PMGDQuery) : Prop :=
  q'.cmds = q.cmds ++ [cmd] ∧ cmd.cmdGrpId = q.currentGroupId ∧
    q'.currentGroupId = q.currentGroupId ∧ cmd.cmdId.isTx = false ∧ cmd.ListsOnlyAsQuery

omit [Platform] in
theorem push_pushes {q₀ : PMGDQuery} {cmd : Command} (hcmds : q₀.cmds = q.cmds)
    (hgroup : q₀.currentGroupId = q.currentGroupId) (htx : cmd.cmdId.isTx = false)
    (hlists : cmd.ListsOnlyAsQuery) : ∃ cmd', q.Pushes cmd' (q₀.push cmd) :=
  ⟨_, congrArg (· ++ [_]) hcmds, hgroup, hgroup, htx, ⟨hlists.1, hlists.2, hlists.3⟩⟩

omit [Platform] in
/-- A command that carries no query lists nothing. -/
theorem lists_plain {cmd : Command} (hadd : cmd.addNode.queryNode = none)
    (hupdate : cmd.updateNode.queryNode = none) (hedge : cmd.updateEdge.queryEdge = none) :
    cmd.ListsOnlyAsQuery := by
  refine ⟨fun qn hqn => ?_, fun qn hqn => ?_, fun qe hqe => ?_⟩
  · rw [hadd] at hqn
    cases hqn
  · rw [hupdate] at hqn
    cases hqn
  · rw [hedge] at hqe
    cases hqe

omit [Platform] in
theorem queryReference_group {ref : ℤ} {constraints : Json} :
    (q.queryReference ref constraints).2.currentGroupId = q.currentGroupId := by
  rw [queryReference]
  split <;> rfl

theorem addNode_pushes {ref : ℤ} {tag : String} {props constraints : Json}
    (h : q.addNode ref tag props constraints = .ok q') : ∃ cmd, q.Pushes cmd q' := by
  obtain ⟨properties, -, h⟩ := bind_ok_inv h
  cases hnull : constraints.isNull with
  | true =>
      simp only [hnull, if_true] at h
      split at h
      all_goals
        obtain ⟨extra, -, h⟩ := bind_ok_inv h
        injection h with h
        subst h
        exact push_pushes rfl rfl rfl (lists_plain rfl rfl rfl)
  | false =>
      simp only [hnull, Bool.false_eq_true, if_false] at h
      split at h
      all_goals
        obtain ⟨extra, -, h⟩ := bind_ok_inv h
        obtain ⟨p, -, h⟩ := bind_ok_inv h
        injection h with h
        subst h
        refine push_pushes rfl rfl rfl ⟨fun qn hqn => ?_, fun qn hqn => (by cases hqn),
          fun qe hqe => (by cases hqe)⟩
        injection hqn with hqn
        subst hqn
        exact (by decide : ResponseType.nodeID ≠ .list)

theorem updateNode_pushes {ref : ℤ} {tag : String} {props removeProps constraints : Json}
    {unique : Bool} (h : q.updateNode ref tag props removeProps constraints unique = .ok q') :
    ∃ cmd, q.Pushes cmd q' := by
  obtain ⟨properties, -, h⟩ := bind_ok_inv h
  obtain ⟨removed, -, h⟩ := bind_ok_inv h
  cases hnull : constraints.isNull with
  | true =>
      simp only [hnull, if_true] at h
      injection h with h
      subst h
      exact push_pushes queryReference_cmds queryReference_group rfl
        (lists_plain rfl rfl rfl)
  | false =>
      simp only [hnull, Bool.false_eq_true, if_false] at h
      obtain ⟨p, -, h⟩ := bind_ok_inv h
      injection h with h
      subst h
      refine push_pushes queryReference_cmds queryReference_group rfl
        ⟨fun qn hqn => (by cases hqn), fun qn hqn => ?_, fun qe hqe => (by cases hqe)⟩
      injection hqn with hqn
      subst hqn
      exact (by decide : ResponseType.nodeID ≠ .list)

theorem updateEdge_pushes {ref srcRef destRef : ℤ} {tag : String}
    {props removeProps constraints : Json} {unique : Bool}
    (h : q.updateEdge ref srcRef destRef tag props removeProps constraints unique = .ok q') :
    ∃ cmd, q.Pushes cmd q' := by
  obtain ⟨properties, -, h⟩ := bind_ok_inv h
  obtain ⟨removed, -, h⟩ := bind_ok_inv h
  cases hnull : constraints.isNull with
  | true =>
      simp only [hnull, if_true] at h
      injection h with h
      subst h
      exact push_pushes queryReference_cmds queryReference_group rfl
        (lists_plain rfl rfl rfl)
  | false =>
      simp only [hnull, Bool.false_eq_true, if_false] at h
      obtain ⟨p, -, h⟩ := bind_ok_inv h
      injection h with h
      subst h
      refine push_pushes queryReference_cmds queryReference_group rfl
        ⟨fun qn hqn => (by cases hqn), fun qn hqn => (by cases hqn), fun qe hqe => ?_⟩
      injection hqe with hqe
      subst hqe
      exact (by decide : ResponseType.edgeID ≠ .list)

theorem addEdge_pushes {ident src dst : ℤ} {tag : String} {props : Json}
    (h : q.addEdge ident src dst tag props = .ok q') : ∃ cmd, q.Pushes cmd q' := by
  obtain ⟨properties, -, h⟩ := bind_ok_inv h
  injection h with h
  subst h
  exact push_pushes rfl rfl rfl (lists_plain rfl rfl rfl)

theorem queryNode_pushes {ref : ℤ} {tag : String} {link constraints results : Json}
    {unique intermediateQuery : Bool}
    (h : q.queryNode ref tag link constraints results unique intermediateQuery = .ok q') :
    ∃ cmd, q.Pushes cmd q' := by
  rw [PMGDQuery.queryNode] at h
  split at h
  all_goals
    obtain ⟨l, -, h⟩ := bind_ok_inv h
    obtain ⟨p, -, h⟩ := bind_ok_inv h
    obtain ⟨results, -, h⟩ := bind_ok_inv h
    injection h with h
    subst h
    exact push_pushes rfl rfl rfl (lists_plain rfl rfl rfl)

theorem queryEdge_pushes {ref srcRef destRef : ℤ} {tag : String} {constraints results : Json}
    {unique : Bool} (h : q.queryEdge ref srcRef destRef tag constraints results unique = .ok q') :
    ∃ cmd, q.Pushes cmd q' := by
  obtain ⟨p, -, h⟩ := bind_ok_inv h
  obtain ⟨results, -, h⟩ := bind_ok_inv h
  injection h with h
  subst h
  exact push_pushes rfl rfl rfl (lists_plain rfl rfl rfl)

omit [Platform] in
theorem deleteExpired_pushes : ∃ cmd, q.Pushes cmd q.deleteExpired :=
  push_pushes rfl rfl rfl (lists_plain rfl rfl rfl)

/-- A transaction under construction: it is opened first, and what follows neither opens nor
closes it. Induction on the construction. -/
theorem Builds.shape (h : Builds q asks) : ∃ body, q.cmds = { cmdId := .txBegin } :: body ∧
    ∀ cmd ∈ body, cmd.cmdId.isTx = false ∧ cmd.ListsOnlyAsQuery := by
  have hadd : ∀ {q q' : PMGDQuery}, (∃ body, q.cmds = { cmdId := .txBegin } :: body ∧
      ∀ cmd ∈ body, cmd.cmdId.isTx = false ∧ cmd.ListsOnlyAsQuery) → (∃ cmd, q.Pushes cmd q') →
      ∃ body, q'.cmds = { cmdId := .txBegin } :: body ∧
        ∀ cmd ∈ body, cmd.cmdId.isTx = false ∧ cmd.ListsOnlyAsQuery := by
    rintro q q' ⟨body, hq, hbody⟩ ⟨cmd, hq', -, -, htx, hlists⟩
    refine ⟨body ++ [cmd], by rw [hq', hq]; rfl, fun c hc => ?_⟩
    rcases List.mem_append.1 hc with hc | hc
    · exact hbody c hc
    · obtain rfl := List.mem_singleton.1 hc
      exact ⟨htx, hlists⟩
  induction h with
  | new => exact ⟨[], rfl, fun cmd hcmd => by cases hcmd⟩
  | addGroup _ ih | reference _ ih => exact ih
  | addNode _ h ih => exact hadd ih (addNode_pushes h)
  | updateNode _ h ih => exact hadd ih (updateNode_pushes h)
  | addEdge _ h ih => exact hadd ih (addEdge_pushes h)
  | updateEdge _ h ih => exact hadd ih (updateEdge_pushes h)
  | queryNode _ h _ ih => exact hadd ih (queryNode_pushes h)
  | queryEdge _ h ih => exact hadd ih (queryEdge_pushes h)
  | deleteExpired _ ih => exact hadd ih deleteExpired_pushes

/-- The transaction that `run` hands to the handler. -/
def request (q : PMGDQuery) (autodeleteInit : Bool) : Request where
  cmds := q.close.cmds
  numGroups := q.close.currentGroupId + 1
  readonly := q.close.readonly
  resultdeletion := q.close.resultdeletion
  autodeleteInit

theorem Builds.isTransaction (h : Builds q asks) (autodeleteInit : Bool) :
    IsTransaction (q.request autodeleteInit).cmds := by
  obtain ⟨body, hq, hbody⟩ := h.shape
  refine ⟨{ cmdId := .txBegin }, body, { cmdId := .txCommit, cmdGrpId := q.currentGroupId + 1 },
    ?_, rfl, fun cmd hcmd => (hbody cmd hcmd).1, rfl⟩
  change q.cmds ++ _ = _
  rw [hq]
  rfl

end PMGDQuery

/-! ### What one step removes -/

/-- The middle of the command at position `p` of a transaction over `s`: what has been
removed so far is what has been listed for a purge so far. -/
structure PurgesSoFar (asks : List Bool) (b : Bool) (p : ℕ) (s u : Handler) : Prop where
  position : u.position = p
  deletes : u.resultdeletion = b
  grown : s.db.nodes.length ≤ u.db.nodes.length
  back : ∀ n, u.db.Has n → s.db.Has n ∨ s.db.nodes.length ≤ n
  isolated : Isolated asks s u

namespace PurgesSoFar

variable {asks : List Bool} {b : Bool} {p : ℕ} {s u t : Handler}

/-- Only the nodes that are there and the listings count. -/
theorem congr (h : PurgesSoFar asks b p s u) (hposition : t.position = u.position)
    (hdeletes : t.resultdeletion = u.resultdeletion)
    (hlength : t.db.nodes.length = u.db.nodes.length) (hhas : ∀ n, t.db.Has n ↔ u.db.Has n)
    (hlisted : t.listed = u.listed) : PurgesSoFar asks b p s t where
  position := hposition.trans h.position
  deletes := hdeletes.trans h.deletes
  grown := by rw [hlength]; exact h.grown
  back n hn := h.back n ((hhas n).1 hn)
  isolated n := by
    have hsame := h.isolated n
    rw [Removed, Purged] at hsame ⊢
    rwa [hlength, hhas n, hlisted]

theorem indifferent : Indifferent (PurgesSoFar asks b p s) where
  respond _ _ h := h.congr rfl rfl rfl (fun _ => Iff.rfl) rfl
  cacheNode _ _ _ h := h.congr rfl rfl rfl (fun _ => Iff.rfl) rfl
  cacheEdge _ _ _ h := h.congr rfl rfl rfl (fun _ => Iff.rfl) rfl

theorem ignoresEdges : IgnoresEdges (PurgesSoFar asks b p s) where
  add _ _ _ _ h := h.congr rfl rfl rfl (fun _ => Iff.rfl) rfl
  modify _ _ _ h := h.congr rfl rfl rfl (fun _ => Iff.rfl) rfl

theorem same (h : PurgesSoFar asks b p s u) (hut : u.SameData t) : PurgesSoFar asks b p s t := by
  obtain ⟨r, q, f, f', rfl⟩ := hut
  exact h.congr rfl rfl rfl (fun _ => Iff.rfl) rfl

theorem update (n : NodeID) : UpdateKeeps (PurgesSoFar asks b p s) (.node n) := by
  intro u f h
  refine h.congr rfl rfl ?_ (fun m => Graph.has_modifyProps_iff _ f) rfl
  simp [Handler.setDb, Graph.modifyProps]

theorem addNode (h : PurgesSoFar asks b p s u) (tag : StringID) :
    PurgesSoFar asks b p s (u.setDb (u.db.addNode tag)) where
  position := h.position
  deletes := h.deletes
  grown := by
    have hgrown := h.grown
    simp only [Handler.setDb_db, Graph.addNode, List.length_append, List.length_singleton]
    omega
  back n hn := by
    rcases (Graph.has_addNode_iff tag).1 hn with hn | rfl
    · exact h.back n hn
    · exact .inr h.grown
  isolated n := by
    have hsame := h.isolated n
    have hgrown := h.grown
    rw [Removed] at hsame ⊢
    rw [Handler.setDb_db, Graph.has_addNode_iff]
    have hpurged : Purged asks (u.setDb (u.db.addNode tag)) n ↔ Purged asks u n := Iff.rfl
    rw [hpurged, ← hsame]
    have hlength : (u.db.addNode tag).nodes.length = u.db.nodes.length + 1 := by
      simp [Graph.addNode]
    rw [hlength]
    constructor
    · rintro ⟨hthere, hgone⟩
      rw [not_or] at hgone
      refine ⟨hthere.imp_right fun hlt => ⟨hlt.1, ?_⟩, hgone.1⟩
      have hne := hgone.2
      omega
    · rintro ⟨hthere, hgone⟩
      refine ⟨hthere.imp_right fun hlt => ⟨hlt.1, by omega⟩, ?_⟩
      rintro (hn | rfl)
      · exact hgone hn
      · rcases hthere with hold | hlt
        · have hlt := hold.lt
          omega
        · omega

/-- **A listed node** of a query that agrees with the handler. -/
theorem lists (h : PurgesSoFar asks b p s u) (hask : asks[p]? = some b) {n : NodeID}
    (hlists : u.Lists (.node n) t) : PurgesSoFar asks b p s t := by
  have hpos := h.position
  have hdel := h.deletes
  rcases hlists with ⟨hkeep, hsame⟩ | ⟨hpurge, hsame⟩
  · refine PurgesSoFar.same (u := u.list (.node n)) ⟨hpos, hdel, h.grown, h.back, fun m => ?_⟩ hsame
    refine (h.isolated m).trans ⟨fun ⟨l, hl, hrest⟩ => ⟨l, List.mem_append_left _ hl, hrest⟩, ?_⟩
    rintro ⟨l, hl, hnode, htag, hasks⟩
    rcases List.mem_append.1 hl with hl | hl
    · exact ⟨l, hl, hnode, htag, hasks⟩
    · -- The listing would be one of a purge, but nothing is deleted.
      obtain ⟨nd, hnd, rfl⟩ : ∃ nd, u.db.node n = some nd ∧ ⟨u.position, n, nd.tag⟩ = l := by
        simpa [Option.mem_toList] using hl
      simp only [hpos, hask, Option.some.injEq] at hasks
      refine absurd ⟨hdel.trans hasks, ?_⟩ hkeep
      simpa [Graph.tag, hnd] using htag
  · have hb : b = true := hdel.symm.trans hpurge.1
    subst hb
    have hpurged : ∀ m, Purged asks ((u.list (.node n)).setDb (u.db.remove (.node n))) m ↔
        Purged asks u m ∨ (u.db.Has n ∧ m = n) := by
      intro m
      constructor
      · rintro ⟨l, hl, hnode, htag, hasks⟩
        rcases List.mem_append.1 hl with hl | hl
        · exact .inl ⟨l, hl, hnode, htag, hasks⟩
        · obtain ⟨nd, hnd, rfl⟩ : ∃ nd, u.db.node n = some nd ∧ ⟨u.position, n, nd.tag⟩ = l := by
            simpa [Option.mem_toList] using hl
          exact .inr ⟨by simp [Graph.Has, hnd], hnode.symm⟩
      · rintro (⟨l, hl, hrest⟩ | ⟨hn, rfl⟩)
        · exact ⟨l, List.mem_append_left _ hl, hrest⟩
        · obtain ⟨nd, hnd⟩ := Option.isSome_iff_exists.1 hn
          refine ⟨⟨u.position, m, nd.tag⟩, List.mem_append_right _ (by simp [hnd]), rfl, ?_, ?_⟩
          · have htag := hpurge.2
            simpa [Graph.tag, hnd] using htag
          · rw [← hpos] at hask
            exact hask
    refine PurgesSoFar.same (u := (u.list (.node n)).setDb (u.db.remove (.node n)))
      ⟨hpos, hdel, ?_, fun m hm => ?_, fun m => ?_⟩ hsame
    · have hgrown := h.grown
      simpa [Graph.remove, Graph.removeNode] using hgrown
    · exact h.back m (Graph.has_removeNode_iff.1 hm).1
    · rw [hpurged m, ← h.isolated m]
      have hlength : (u.db.removeNode n).nodes.length = u.db.nodes.length := by
        simp [Graph.removeNode]
      have hhas : (u.db.removeNode n).Has m ↔ u.db.Has m ∧ m ≠ n := Graph.has_removeNode_iff
      rw [Removed]
      simp only [Handler.setDb_db, Graph.remove, hhas, hlength, not_and, not_not]
      constructor
      · rintro ⟨hthere, hgone⟩
        by_cases hm : u.db.Has m
        · obtain rfl := hgone hm
          exact .inr ⟨hm, rfl⟩
        · exact .inl ⟨hthere, hm⟩
      · rintro (⟨hthere, hgone⟩ | ⟨hn, rfl⟩)
        · exact ⟨hthere, fun hm => absurd hm hgone⟩
        · exact ⟨(h.back m hn).imp_right fun hle => ⟨hle, hn.lt⟩, fun _ => rfl⟩

theorem listNode (hask : asks[p]? = some b) (n : NodeID) :
    ListKeeps (PurgesSoFar asks b p s) (.node n) := fun _ _ h =>
  Ensures.mono (listElement_ensures _ _) fun _ _ hlists => h.lists hask hlists

theorem listEdge (e : EdgeID) : ListKeeps (PurgesSoFar asks b p s) (.edge e) := by
  intro keys u h
  refine Ensures.mono (listElement_ensures _ _) fun _ t hlists => ?_
  rcases hlists with ⟨-, hsame⟩ | ⟨-, hsame⟩
  · exact h.same hsame
  · refine PurgesSoFar.same (u := (u.list (.edge e)).setDb (u.db.remove (.edge e))) ?_ hsame
    exact h.congr rfl rfl rfl (fun _ => Iff.rfl) rfl

end PurgesSoFar

/-! ### Transactions -/

/-- Nothing that is due is in the expiration queue. -/
def Handler.NothingExpired (s : Handler) : Prop :=
  ∀ a, s.expirationQueue.head? = some a → ¬ a.timestamp < s.now

theorem deleteExpiredNodes_nothing {P : Handler → Prop} {s : Handler} (hnothing : s.NothingExpired)
    (hs : P s) : Sat deleteExpiredNodes s (fun _ => P) fun _ => P := by
  refine Sat.get_bind (Sat.bind (P := fun _ t => P t) ?_ fun _ _ ht => Sat.pure ht)
  rw [Handler.NothingExpired] at hnothing
  cases hqueue : s.expirationQueue with
  | nil => exact Sat.pure hs
  | cons a as =>
      rw [hqueue] at hnothing
      exact Sat.ite (fun htime => absurd htime (hnothing a rfl)) fun _ => Sat.pure hs

section Run

variable {asks : List Bool} {b : Bool} {p : ℕ} {s u t : Handler} {cmd : Command}

/-- The query agrees with the handler, if the command is one with a list, and nothing has
expired, if it is `DeleteExpired`. -/
structure Command.Isolates (asks : List Bool) (cmd : Command) (u : Handler) : Prop where
  agrees : cmd.cmdId = .queryNode → cmd.queryNode.results.rType = .list →
    asks[u.position]? = some u.resultdeletion
  expired : cmd.cmdId = .deleteExpired → u.NothingExpired

/-- **Commands.** -/
theorem dispatch_purges (htx : cmd.cmdId.isTx = false) (hlists : cmd.ListsOnlyAsQuery)
    (hcmd : cmd.Isolates asks u) (h : PurgesSoFar asks b p s u) :
    Ensures (dispatch cmd) (u.begin cmd) fun _ t => PurgesSoFar asks b p s t := by
  have hbegin : PurgesSoFar asks b p s (u.begin cmd) := h.congr rfl rfl rfl (fun _ => Iff.rfl) rfl
  have hnever : ∀ {type : ResponseType} {Q : Prop}, type ≠ .list → type = .list → Q :=
    fun hne heq => absurd heq hne
  rw [dispatch]
  cases hid : cmd.cmdId
  case txBegin | txCommit | txAbort => simp [hid, CommandId.isTx] at htx
  case queryNode =>
    refine queryNode_invariant PurgesSoFar.indifferent (fun hlist n => ?_) hbegin
    refine PurgesSoFar.listNode ?_ n
    have hask := hcmd.agrees hid hlist
    rwa [h.position, h.deletes] at hask
  case queryEdge =>
    exact queryEdge_invariant PurgesSoFar.indifferent (fun _ e => PurgesSoFar.listEdge e) hbegin
  case addEdge =>
    exact addEdge_invariant _ PurgesSoFar.indifferent PurgesSoFar.ignoresEdges hbegin
  case updateEdge =>
    exact Sat.bind (updateEdge_invariant PurgesSoFar.indifferent PurgesSoFar.ignoresEdges
      (fun qe hqe => hnever (hlists.updateEdge qe hqe)) hbegin) fun _ _ ht => Sat.pure ht
  case addNode =>
    refine addNode_invariant PurgesSoFar.indifferent
      (fun qn hqn => hnever (hlists.addNode qn hqn)) (fun v hv => ?_) hbegin
    exact addNewNode_keeps _ PurgesSoFar.indifferent (fun _ tag hw => hw.addNode tag)
      PurgesSoFar.update (fun _ _ hw => hw.congr rfl rfl rfl (fun _ => Iff.rfl) rfl) hv
  case updateNode =>
    refine Sat.bind (updateNode_invariant PurgesSoFar.indifferent
      (fun qn hqn => hnever (hlists.updateNode qn hqn)) (fun n v hv => ?_) hbegin)
      fun _ _ ht => Sat.pure ht
    exact updateElement_keeps _ _ (PurgesSoFar.update n) hv
  case deleteExpired =>
    have hnothing : (u.begin cmd).NothingExpired := hcmd.expired hid
    exact Sat.mono (deleteExpiredNodes_nothing hnothing hbegin) (fun _ _ ht => ht)
      fun _ _ _ => trivial

end Run

namespace PMGDQuery

variable {q : PMGDQuery} {asks : List Bool}

/-- The queries with a list have come to the decision that the last query has left. -/
def Agrees (q : PMGDQuery) (asks : List Bool) : Prop :=
  ∀ (i : ℕ) (cmd : Command), q.cmds[i]? = some cmd → cmd.cmdId = .queryNode →
    cmd.queryNode.results.rType = .list → asks[i]? = some q.resultdeletion

/-- **Purge isolation.** A transaction in which all queries with a list agree, and in which
`DeleteExpired` finds nothing expired, removes exactly the nodes that the queries list which
asked for it. -/
theorem purge_isolated {autodeleteInit : Bool} {s t : Handler} {rs : Responses}
    (hq : q.Builds asks) (hagrees : q.Agrees asks)
    (hexpired : EachCommand (fun cmd u => cmd.cmdId = .deleteExpired → u.NothingExpired)
      (q.request autodeleteInit).cmds ((q.request autodeleteInit).opens s))
    (hrun : Runs (q.run autodeleteInit) s (.ret rs t)) : Isolated asks s t := by
  let r := q.request autodeleteInit
  obtain ⟨body, hcmds, hbody⟩ := hq.shape
  -- What every command of the transaction is, given its position.
  have hcmd : ∀ {cmd rest u}, Progress.Reaches ⟨r.cmds, r.opens s⟩ ⟨cmd :: rest, u⟩ →
      cmd.cmdId.isTx = true ∨ cmd.cmdId.isTx = false ∧ cmd.ListsOnlyAsQuery ∧
        q.cmds[u.position]? = some cmd := by
    intro cmd rest u hreach
    obtain ⟨-, hdrop⟩ := hreach.cmds_eq
    have hget : r.cmds[u.position]? = some cmd := by
      have hzero : u.position - (r.opens s).position = u.position := rfl
      rw [hzero] at hdrop
      rw [← List.head?_drop, ← hdrop]
      rfl
    have happend : r.cmds = q.cmds ++ [{ cmdId := .txCommit, cmdGrpId := q.currentGroupId + 1 }] :=
      rfl
    rw [happend] at hget
    by_cases hlt : u.position < q.cmds.length
    · rw [List.getElem?_append_left hlt] at hget
      have hmem := List.mem_of_getElem? hget
      rw [hcmds] at hmem
      rcases List.mem_cons.1 hmem with rfl | hmem
      · exact .inl rfl
      · exact .inr ⟨(hbody cmd hmem).1, (hbody cmd hmem).2, hget⟩
    · rw [List.getElem?_append_right (by omega)] at hget
      obtain rfl := List.mem_singleton.1 (List.mem_of_getElem? hget)
      exact .inl rfl
  have hsteps : EachCommand (fun cmd u => cmd.cmdId.isTx = true ∨ cmd.cmdId.isTx = false ∧
      cmd.ListsOnlyAsQuery ∧ q.cmds[u.position]? = some cmd ∧
        (cmd.cmdId = .deleteExpired → u.NothingExpired)) r.cmds (r.opens s) := by
    intro cmd rest u hreach
    refine (hcmd hreach).imp_right fun ⟨htx, hlists, hget⟩ => ?_
    exact ⟨htx, hlists, hget, hexpired cmd rest u hreach⟩
  rcases process_outcome (hq.isTransaction autodeleteInit) hrun with ⟨u, hcommit⟩ | ⟨w, hback⟩
  · have hinv : PurgesSoFar asks q.resultdeletion u.position s u := by
      refine Progress.Reaches.invariant
        (I := fun u => PurgesSoFar asks q.resultdeletion u.position s u)
        (fun {cmd v n w} hv hstep hquery hn => ?_) hsteps
        ⟨rfl, rfl, le_rfl, fun n hn => .inl hn, ?_⟩
        hcommit.reaches
      · have hw : PurgesSoFar asks q.resultdeletion v.position s w := by
          rcases processQuery_inv hquery with hdispatch | ⟨rfl, -⟩
          · rcases hstep with htx | ⟨htx, hlists, hget, hnothing⟩
            · obtain ⟨tx, resp, rfl⟩ := Sat.ret (dispatch_tx htx) hdispatch
              exact hv.congr rfl rfl rfl (fun _ => Iff.rfl) rfl
            · have hisolates : cmd.Isolates asks v := by
                refine ⟨fun hid hlist => ?_, hnothing⟩
                rw [hv.deletes]
                exact hagrees _ cmd hget hid hlist
              have hw := Sat.ret (dispatch_purges htx hlists hisolates hv) hdispatch
              exact hw
          · omega
        have hpos : w.advance.position = v.position + 1 := congrArg (· + 1) hw.position
        rw [hpos]
        exact ⟨hpos, hw.deletes, hw.grown, hw.back, hw.isolated⟩
      · intro n
        constructor
        · rintro ⟨hn | ⟨hle, hlt⟩, hgone⟩
          · exact absurd hn hgone
          · exact absurd hlt (Nat.not_lt.2 hle)
        · rintro ⟨l, hl, -⟩
          cases hl
    intro n
    have hlisted : t.listed = u.listed := by
      rw [hcommit.ends]
      rw [Handler.closed, Handler.endTransaction]
      cases u.tx <;> rfl
    have hsame := hinv.isolated n
    rw [Removed, Purged] at hsame ⊢
    rwa [hcommit.db, hlisted]
  · intro n
    have hlisted : t.listed = [] := by
      rw [hback.ends]
      rw [Handler.closed, Handler.endTransaction]
      cases w.tx <;> rfl
    rw [Removed, Purged]
    rw [hback.db, hlisted]
    constructor
    · rintro ⟨hn | ⟨hle, hlt⟩, hgone⟩
      · exact absurd hn hgone
      · exact absurd hlt (Nat.not_lt.2 hle)
    · rintro ⟨l, hl, -⟩
      cases hl

end PMGDQuery

end

/-- The command that lists the nodes with a tag. -/
def listNodes (tag : String) (group : ℕ) : Command where
  cmdId := .queryNode
  cmdGrpId := group
  queryNode := { identifier := -1, constraints := { tag := .name tag }
                 results := { rType := .list } }

/-- A transaction that lists the nodes with the tag `A`, then those with the tag `B`. It
deletes its results if the second query asks for it. -/
def twoLists (second : Bool) : PMGDQuery where
  cmds := [{ cmdId := .txBegin }, listNodes "A" 1, listNodes "B" 2]
  currentGroupId := 2
  currentRef := referenceRangeStart
  readonly := true
  resultdeletion := second
  expirationLimit := 0
  now := 0

/-- Constraints that ask for a purge, or none. -/
def deletion (asks : Bool) : Json :=
  if asks then .object [("_deletion", .array [.string "==", .int 1])] else .null

theorem twoLists_builds (first second : Bool) :
    (twoLists second).Builds [false, first, second] := by
  have hlist : ∀ {q q' : PMGDQuery} {asks : List Bool} (tag : String) (ask : Bool),
      q.Builds asks → q.addGroup.queryNode (-1) tag .null (deletion ask)
        (.object [("list", .array [])]) false false = .ok q' → q'.Builds (asks ++ [ask]) := by
    intro q q' asks tag ask hq hcall
    cases ask with
    | true => exact .queryNode hq.addGroup hcall rfl
    | false => exact .queryNode hq.addGroup hcall rfl
  have hfirst : (PMGDQuery.new 0 0).addGroup.queryNode (-1) "A" .null (deletion first)
      (.object [("list", .array [])]) false false = .ok
        { twoLists first with
          cmds := [{ cmdId := .txBegin }, listNodes "A" 1], currentGroupId := 1 } := by
    cases first <;> rfl
  have hsecond : ({ twoLists first with
      cmds := [{ cmdId := .txBegin }, listNodes "A" 1], currentGroupId := 1 } :
        PMGDQuery).addGroup.queryNode (-1) "B" .null (deletion second)
      (.object [("list", .array [])]) false false = .ok (twoLists second) := by
    cases second <;> rfl
  exact hlist "B" second (hlist "A" first (.new 0 0) hfirst) hsecond

/-- A handler over a graph with one node, which has the tag `A`. -/
def onNodeA : Handler := { db := ⟨[some ⟨Platform.stringID "A", fun _ => none⟩], []⟩ }

/-- Two queries that agree are isolated. -/
theorem purge_isolated_twoLists : ∃ rs t,
    Runs ((twoLists true).run) onNodeA (.ret rs t) ∧ Isolated [false, true, true] onNodeA t := by
  obtain ⟨rs, t, hrun⟩ : ∃ rs t, Runs ((twoLists true).run) onNodeA (.ret rs t) :=
    ⟨_, _, Runs.of_ret (n := 4) rfl⟩
  refine ⟨rs, t, hrun, PMGDQuery.purge_isolated (twoLists_builds true true) ?_ ?_ hrun⟩
  · intro i cmd hget hid hlist
    rcases i with - | - | - | i
    · cases hget
      cases hid
    · rfl
    · rfl
    · cases hget
  · refine eachCommand_of_forall (fun cmd hcmd u hid => ?_)
    have hnone : ∀ c ∈ ((twoLists true).request false).cmds, c.cmdId ≠ .deleteExpired := by
      decide
    exact absurd hid (hnone cmd hcmd)

/-- **The last query decides.** The first query does not ask for a purge, but the second
does: the node that the first one lists is removed. -/
theorem later_query_purges : ∃ rs t,
    Runs ((twoLists true).run) onNodeA (.ret rs t) ∧ t.db.node 0 = none ∧
      ¬ Isolated [false, false, true] onNodeA t := by
  obtain ⟨rs, t, hrun, hgone, hlisted⟩ : ∃ rs t,
      Runs ((twoLists true).run) onNodeA (.ret rs t) ∧ t.db.node 0 = none ∧
        t.listed = [⟨1, 0, Platform.stringID "A"⟩] :=
    ⟨_, _, Runs.of_ret (n := 4) rfl, rfl, rfl⟩
  refine ⟨rs, t, hrun, hgone, fun h => ?_⟩
  have hremoved : Removed onNodeA t 0 := by
    refine ⟨.inl rfl, fun hhas => ?_⟩
    rw [Graph.Has, hgone] at hhas
    cases hhas
  obtain ⟨l, hl, -, -, hasks⟩ := (h 0).1 hremoved
  rw [hlisted] at hl
  obtain rfl := List.mem_singleton.1 hl
  cases hasks

end Vdms
