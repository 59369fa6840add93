import Vdms.Invariants
import Vdms.Outcome
import Vdms.PurgeIsolation

/-!
# The Expiration Queue and the Graph

The expiration queue lives in memory: the nodes that expire, with their time stamps, in the
order in which they do. It agrees with the graph if it has one entry for each node that has
an expiration, and no other.

An addition enters the node that it adds; a purge and an expiry take out the nodes that they
remove. But an update of the expiration does not look at the queue, and a transaction that is
rolled back takes back what it has done to the graph, not what it has done to the queue.

## Main definitions

* `Agrees`: the queue agrees with the graph.
* `Command.KeepsExpirations`: what the command adds is entered as it is stored, and it
  updates no expiration.
* `Command.SparesQueue`: the command enters nothing and takes nothing out.
* `QueueRun`: calls of `process_queries`, by any number of handlers.

## Main results

* `dispatch_tracked`: every command that keeps the expirations keeps the queue in agreement.
* `processQuery_queue`: a command that spares the queue leaves it as it is, even if it fails.
* `queue_agrees`: the queue agrees with the graph after every call.
-/

namespace Vdms

open Imp Imp.Prog Platform Relation

/-! ### The queue -/

section Queue

variable {q : List AutoDeleteNode} {a : AutoDeleteNode}

/-- The insertion adds one entry to those of the queue. -/
theorem insertBefore_perm (a : AutoDeleteNode) (q : List AutoDeleteNode) :
    (insertBefore a q).Perm (a :: q) := by
  induction q with
  | nil => exact .refl _
  | cons b q ih =>
      rw [insertBefore]
      split
      · exact (ih.cons b).trans (List.Perm.swap a b q)
      · split
        · exact .refl _
        · exact List.Perm.swap a b q

/-- Wherever the entry goes, the queue has it, and what it had before. -/
theorem insertIntoQueue_perm (q : List AutoDeleteNode) (a : AutoDeleteNode) :
    (insertIntoQueue q a).Perm (a :: q) := by
  rw [insertIntoQueue]
  cases hlast : q.getLast? with
  | none =>
      obtain rfl := List.getLast?_eq_none_iff.1 hlast
      exact .refl _
  | some last =>
      simp only
      split
      · exact List.perm_append_singleton a q
      · exact insertBefore_perm a q

/-- In a queue in which no element occurs twice, exactly the entries of other elements are
left. -/
theorem mem_deleteByValue {x : Element} (hq : (q.map AutoDeleteNode.node).Nodup) :
    a ∈ deleteByValue q x ↔ a ∈ q ∧ a.node ≠ x := by
  induction q with
  | nil => simp [deleteByValue]
  | cons b q ih =>
      obtain ⟨hb, hq⟩ := List.nodup_cons.1 hq
      have ih := ih hq
      rw [deleteByValue] at ih ⊢
      by_cases hbx : b.node = x
      · rw [List.eraseP_cons_of_pos (by simpa using hbx)]
        subst hbx
        have hother : a ∈ q → a.node ≠ b.node := fun ha hsame =>
          hb (hsame ▸ List.mem_map_of_mem ha)
        constructor
        · intro ha
          exact ⟨List.mem_cons_of_mem _ ha, hother ha⟩
        · rintro ⟨ha, hne⟩
          rcases List.mem_cons.1 ha with rfl | ha
          · exact absurd rfl hne
          · exact ha
      · rw [List.eraseP_cons_of_neg (by simpa using hbx), List.mem_cons, ih, List.mem_cons]
        constructor
        · rintro (rfl | ⟨ha, hne⟩)
          · exact ⟨.inl rfl, hbx⟩
          · exact ⟨.inr ha, hne⟩
        · rintro ⟨rfl | ha, hne⟩
          · exact .inl rfl
          · exact .inr ⟨ha, hne⟩

end Queue

section

variable [Platform]

/-! ### Agreement -/

/-- The property `_expiration` of a node. -/
def Graph.expiration (g : Graph) (n : NodeID) : Option Property :=
  (g.node n).bind fun nd => nd.props (stringID "_expiration")

/-- The entry of a node that expires at a time. -/
def expirationEntry (n : NodeID) (z : ℤ) : AutoDeleteNode := ⟨toUInt64 z, .node n⟩

/-- The queue has exactly one entry for each node that has an expiration, with this as time
stamp, and no other entry. -/
structure Agrees (g : Graph) (q : List AutoDeleteNode) : Prop where
  entries : ∀ a ∈ q, ∃ n z, a = expirationEntry n z ∧ g.expiration n = some (.integer z)
  complete : ∀ n v, g.expiration n = some v → ∃ z, v = .integer z ∧ expirationEntry n z ∈ q
  once : (q.map AutoDeleteNode.node).Nodup

/-- The queue of the handler agrees with its graph. -/
def Handler.QueueAgrees (s : Handler) : Prop := Agrees s.db s.expirationQueue

namespace Graph

variable {g : Graph} {n m : NodeID}

omit [Platform] in
/-- After an addition the new node has the tag and nothing else, and the others are the same. -/
theorem node_addNode (tag : StringID) :
    (g.addNode tag).node m =
      if m = g.nodes.length then some ⟨tag, fun _ => none⟩ else g.node m := by
  unfold node addNode
  rcases Nat.lt_trichotomy m g.nodes.length with hlt | rfl | hgt
  · rw [if_neg (Nat.ne_of_lt hlt), List.getElem?_append_left hlt]
  · simp
  · rw [if_neg (Nat.ne_of_gt hgt), List.getElem?_eq_none (by simpa using Nat.succ_le_of_lt hgt),
      List.getElem?_eq_none (Nat.le_of_lt hgt)]

omit [Platform] in
/-- A change of the properties of a node changes no other node. -/
theorem node_modifyProps (f : Props → Props) :
    (g.modifyProps (.node n) f).node m =
      if m = n then (g.node m).map fun nd => { nd with props := f nd.props } else g.node m := by
  unfold node modifyProps
  simp only [List.getElem?_modify]
  by_cases hmn : m = n
  · subst hmn
    rcases h : g.nodes[m]? with - | (- | nd) <;> simp
  · rcases h : g.nodes[m]? with - | nd <;> simp [hmn, Ne.symm hmn]

/-- A node that is removed has no expiration, and the others keep theirs. -/
theorem expiration_removeNode :
    (g.removeNode n).expiration m = if m = n then none else g.expiration m := by
  rw [expiration]
  rw [node_removeNode]
  split <;> rfl

/-- A node that is added has no expiration yet, and the others keep theirs. -/
theorem expiration_addNode (tag : StringID) :
    (g.addNode tag).expiration m = g.expiration m := by
  unfold expiration
  rw [node_addNode]
  split
  next h =>
    have hnone : g.node m = none := by
      unfold node
      rw [List.getElem?_eq_none (Nat.le_of_eq h.symm)]
      rfl
    rw [hnone]
    rfl
  next => rfl

/-- A change of the properties that leaves the expiration as it is. -/
theorem expiration_modifyProps_same {f : Props → Props}
    (hf : ∀ p, f p (stringID "_expiration") = p (stringID "_expiration")) :
    (g.modifyProps (.node n) f).expiration m = g.expiration m := by
  unfold expiration
  rw [node_modifyProps]
  split
  next =>
    cases g.node m with
    | none => rfl
    | some nd => exact hf nd.props
  next => rfl

/-- There is no expiration behind the last node. -/
theorem expiration_new (g : Graph) : g.expiration g.nodes.length = none := by
  simp [expiration, node]

/-- A change of the properties of a node changes no other expiration. -/
theorem expiration_modifyProps_ne (f : Props → Props) (h : m ≠ n) :
    (g.modifyProps (.node n) f).expiration m = g.expiration m := by
  unfold expiration
  rw [node_modifyProps, if_neg h]

end Graph

namespace Agrees

variable {g g' : Graph} {q : List AutoDeleteNode} {n : NodeID} {z : ℤ}

/-- A queue agrees with every graph that has the same expirations. -/
theorem congr (h : Agrees g q) (hg : ∀ m, g'.expiration m = g.expiration m) : Agrees g' q where
  entries a ha := by
    obtain ⟨m, z, rfl, hm⟩ := h.entries a ha
    exact ⟨m, z, rfl, (hg m).trans hm⟩
  complete m v hm := h.complete m v ((hg m).symm.trans hm)
  once := h.once

/-- Without a node that does not expire. -/
theorem without (h : Agrees g q) (hn : g.expiration n = none) : Agrees (g.removeNode n) q := by
  refine h.congr fun m => ?_
  rw [Graph.expiration_removeNode]
  split
  next hmn => rw [hmn, hn]
  next => rfl

/-- With a node that does not expire. -/
theorem withNode (h : Agrees (g.removeNode n) q) (hn : g.expiration n = none) : Agrees g q := by
  refine h.congr fun m => ?_
  rw [Graph.expiration_removeNode]
  split
  next hmn => rw [hmn, hn]
  next => rfl

/-- The other nodes do not look at the properties of the node. -/
theorem modifyProps (h : Agrees (g.removeNode n) q) (f : Props → Props) :
    Agrees ((g.modifyProps (.node n) f).removeNode n) q := by
  refine h.congr fun m => ?_
  rw [Graph.expiration_removeNode, Graph.expiration_removeNode]
  by_cases hmn : m = n
  · rw [if_pos hmn, if_pos hmn]
  · rw [if_neg hmn, if_neg hmn, Graph.expiration_modifyProps_ne f hmn]

/-- A node that is entered as it expires. -/
theorem insert (h : Agrees (g.removeNode n) q) (hn : g.expiration n = some (.integer z)) :
    Agrees g (insertIntoQueue q (expirationEntry n z)) := by
  have hperm := insertIntoQueue_perm q (expirationEntry n z)
  have hold : ∀ m v, (g.removeNode n).expiration m = some v → m ≠ n ∧ g.expiration m = some v := by
    intro m v hm
    rw [Graph.expiration_removeNode] at hm
    split at hm
    · cases hm
    next hne => exact ⟨hne, hm⟩
  refine ⟨fun a ha => ?_, fun m v hm => ?_, ?_⟩
  · rcases List.mem_cons.1 (hperm.mem_iff.1 ha) with rfl | ha
    · exact ⟨n, z, rfl, hn⟩
    · obtain ⟨m, z', rfl, hm⟩ := h.entries a ha
      exact ⟨m, z', rfl, (hold m _ hm).2⟩
  · by_cases hmn : m = n
    · rw [hmn, hn] at hm
      injection hm with hm
      subst hm
      exact ⟨z, rfl, hperm.mem_iff.2 (hmn ▸ List.mem_cons_self ..)⟩
    · have hm : (g.removeNode n).expiration m = some v := by
        rw [Graph.expiration_removeNode, if_neg hmn, hm]
      obtain ⟨z', rfl, hin⟩ := h.complete m v hm
      exact ⟨z', rfl, hperm.mem_iff.2 (List.mem_cons_of_mem _ hin)⟩
  · rw [(hperm.map AutoDeleteNode.node).nodup_iff, List.map_cons, List.nodup_cons]
    refine ⟨fun hin => ?_, h.once⟩
    obtain ⟨a, ha, hnode⟩ := List.mem_map.1 hin
    obtain ⟨m, z', rfl, hm⟩ := h.entries a ha
    have hmn : m = n := by simpa [expirationEntry] using hnode
    exact (hold m _ hm).1 hmn

/-- An element that is removed, and its entry with it. -/
theorem remove (h : Agrees g q) (x : Element) : Agrees (g.remove x) (deleteByValue q x) := by
  have hmem : ∀ a, a ∈ deleteByValue q x ↔ a ∈ q ∧ a.node ≠ x := fun a => mem_deleteByValue h.once
  have hexp : ∀ m, (g.remove x).expiration m = if .node m = x then none else g.expiration m := by
    intro m
    cases x with
    | edge e => rfl
    | node n => simpa [Graph.remove] using Graph.expiration_removeNode
  refine ⟨fun a ha => ?_, fun m v hm => ?_, ?_⟩
  · obtain ⟨ha, hne⟩ := (hmem a).1 ha
    obtain ⟨m, z, rfl, hm⟩ := h.entries a ha
    exact ⟨m, z, rfl, (hexp m).trans ((if_neg hne).trans hm)⟩
  · rw [hexp] at hm
    split at hm
    · cases hm
    next hne =>
      obtain ⟨z, rfl, hin⟩ := h.complete m v hm
      exact ⟨z, rfl, (hmem _).2 ⟨hin, hne⟩⟩
  · exact h.once.sublist (List.eraseP_sublist.map _)

/-- The first node in the queue is removed. -/
theorem expire {a : AutoDeleteNode} (h : Agrees g (a :: q)) : Agrees (g.remove a.node) q := by
  have hremove := h.remove a.node
  rwa [deleteByValue, List.eraseP_cons_of_pos (by simp)] at hremove

end Agrees

/-! ### What the commands do to the queue -/

/-- The queue agrees with the graph, and listed elements are not entered. -/
def Handler.Tracked (s : Handler) : Prop := s.autodeleteInit = false ∧ s.QueueAgrees

/-- That the queue is tracked does not depend on the references and the response. -/
theorem tracked_indifferent : Indifferent Handler.Tracked :=
  ⟨fun _ _ h => h, fun _ _ _ h => h, fun _ _ _ h => h⟩

/-- That the queue is tracked does not depend on the edges. -/
theorem tracked_ignoresEdges : IgnoresEdges Handler.Tracked where
  add _ _ _ _ h := ⟨h.1, h.2.congr fun _ => rfl⟩
  modify _ _ _ h := ⟨h.1, h.2.congr fun _ => rfl⟩

/-- **A listed element.** -/
theorem listElement_tracked (x : Element) : ListKeeps Handler.Tracked x := by
  intro keys s hs
  refine Sat.bind ((addRow_footprint x keys).inert (by simp [Kind.Inert]) tracked_indifferent hs)
    fun _ t ht => ?_
  refine Sat.bind (P := fun _ u => u.Tracked) ?_ fun _ u hu => ?_
  · have hlist : ∀ {u : Handler}, u.Tracked → (u.list x).Tracked := fun {u} hu => by
      cases x <;> exact hu
    refine Sat.get_bind (Sat.ite (fun _ => ?_) fun _ => Sat.modify (hlist ht))
    -- Between the two removals the queue agrees with the graph as it is going to be.
    let Going (u : Handler) : Prop :=
      u.autodeleteInit = false ∧ Agrees (u.db.remove x) u.expirationQueue
    have hgoing : ∀ u files, Going u → Going { u with cleanupFiles := files } :=
      fun _ _ hu => hu
    refine Sat.modify_bind (Sat.bind (P := fun _ u => Going u) ?_ fun _ u hu => ?_)
    · exact Sat.forEach (fun key _ u hu => noteFile_keeps hgoing x key hu)
        ⟨ht.1, ht.2.remove x⟩
    · refine Reads.bind (call_reads _) fun _ _ => Sat.modify ?_
      cases x <;> exact hu
  · refine Sat.get_bind ?_
    rw [hu.1]
    exact Sat.pure hu

/-- **Expiry.** Induction on the queue. -/
theorem deleteExpiredFrom_tracked (now : ℕ) {s : Handler} (hs : s.Tracked) :
    Ensures (deleteExpiredFrom now s.expirationQueue) s fun _ t => t.Tracked := by
  generalize hqueue : s.expirationQueue = queue
  induction queue generalizing s with
  | nil => exact Sat.pure hs
  | cons a as ih =>
      refine Sat.ite (fun _ => ?_) fun _ => Sat.pure hs
      let Same (t : Handler) : Prop := t.Tracked ∧ t.expirationQueue = a :: as
      refine Sat.bind (P := fun _ t => Same t) ?_ fun _ t ht => ?_
      · refine Sat.forEach (I := fun t => Same t) (fun key _ t ht => ?_) ⟨hs, hqueue⟩
        exact deleteFile_keeps (fun _ _ hu => hu) _ key ht
      · obtain ⟨⟨hinit, hagrees⟩, hhead⟩ := ht
        refine Reads.bind (call_reads _) fun _ _ => Sat.modify_bind (ih ⟨hinit, ?_⟩ rfl)
        rw [Handler.QueueAgrees] at hagrees
        rw [hhead] at hagrees
        exact hagrees.expire

/-! ### Commands that spare the queue -/

section Spares

variable {K : List Kind} {cmd : Command} {cmds : List Command} {s t u : Handler}

/-- The command has a `List` result, its own or that of its query. -/
def Command.Lists (cmd : Command) : Prop :=
  match cmd.cmdId with
  | .queryNode => cmd.queryNode.results.rType = .list
  | .queryEdge => cmd.queryEdge.results.rType = .list
  | .addNode => ∃ qn, cmd.addNode.queryNode = some qn ∧ qn.results.rType = .list
  | .updateNode => ∃ qn, cmd.updateNode.queryNode = some qn ∧ qn.results.rType = .list
  | .updateEdge => ∃ qe, cmd.updateEdge.queryEdge = some qe ∧ qe.results.rType = .list
  | _ => False

/-- The identifier of the command is taken, so that it fails at once. -/
def Command.Refused (cmd : Command) (s : Handler) : Prop :=
  match cmd.cmdId with
  | .addNode => ¬ s.FreeNode cmd.addNode.identifier
  | .queryNode => ¬ s.FreeNode cmd.queryNode.identifier
  | .queryEdge => ¬ s.FreeEdge cmd.queryEdge.identifier
  | _ => False

/-- Started in the state, the command enters no node into the queue, lists no elements that
are to be deleted while there is something in the queue, and lets nothing expire. -/
structure Command.LeavesQueue (cmd : Command) (s : Handler) : Prop where
  enters : cmd.cmdId = .addNode → cmd.addNode.expirationFlag = false
  lists : cmd.Lists → s.resultdeletion = false ∨ s.expirationQueue = []
  expires : cmd.cmdId = .deleteExpired → s.NothingExpired

/-- Started in the state, the command fails at once or leaves the queue alone. -/
def Command.SparesQueue (cmd : Command) (s : Handler) : Prop :=
  cmd.Refused s ∨ cmd.LeavesQueue s

omit [Platform] in
/-- Only a result of the type `List` removes entries of the queue. -/
theorem ResponseType.lists_of_mem {type : ResponseType} {κ : Kind} (h : κ ∈ type.found)
    (hκ : κ ∈ [Kind.queue, .purge]) : type = .list := by
  cases type with
  | list => rfl
  | _ =>
      simp only [List.mem_cons, List.not_mem_nil, or_false] at hκ
      rcases hκ with rfl | rfl <;> simp [ResponseType.found, ResponseType.kinds] at h

omit [Platform] in
/-- Only a query of nodes for a list removes entries of the queue. -/
theorem QueryNode.lists_of_mem {qn : QueryNode} {κ : Kind} (h : κ ∈ qn.kinds)
    (hκ : κ ∈ [Kind.queue, .purge]) : qn.results.rType = .list := by
  refine ResponseType.lists_of_mem ?_ hκ
  simp only [List.mem_cons, List.not_mem_nil, or_false] at hκ
  rcases hκ with rfl | rfl <;> simpa [QueryNode.kinds] using h

omit [Platform] in
/-- Only a query of edges for a list removes entries of the queue. -/
theorem QueryEdge.lists_of_mem {qe : QueryEdge} {κ : Kind} (h : κ ∈ qe.kinds)
    (hκ : κ ∈ [Kind.queue, .purge]) : qe.results.rType = .list := by
  refine ResponseType.lists_of_mem ?_ hκ
  simp only [List.mem_cons, List.not_mem_nil, or_false] at hκ
  rcases hκ with rfl | rfl <;> simpa [QueryEdge.kinds] using h

omit [Platform] in
/-- Only a command with a list goes over elements. -/
theorem Command.lists_of_mem {κ : Kind} (h : κ ∈ cmd.kinds) (hκ : κ ∈ [Kind.queue, .purge]) :
    cmd.Lists := by
  have hcases : κ = .queue ∨ κ = .purge := by simpa using hκ
  rw [Command.kinds] at h
  rw [Command.Lists]
  cases hid : cmd.cmdId
  all_goals simp only [hid] at h ⊢
  case queryNode => exact QueryNode.lists_of_mem h hκ
  case queryEdge => exact QueryEdge.lists_of_mem h hκ
  case addNode =>
    cases hqn : cmd.addNode.queryNode with
    | none =>
        rcases hcases with rfl | rfl <;>
          (cases hflag : cmd.addNode.expirationFlag <;>
            simp [AddNode.kinds, AddNode.newKinds, hqn, hflag] at h)
    | some qn =>
        refine ⟨qn, rfl, QueryNode.lists_of_mem ?_ hκ⟩
        rcases hcases with rfl | rfl <;>
          (cases hflag : cmd.addNode.expirationFlag <;>
            simpa [AddNode.kinds, AddNode.newKinds, hqn, hflag] using h)
  case updateNode =>
    cases hqn : cmd.updateNode.queryNode with
    | none => rcases hcases with rfl | rfl <;> simp [UpdateNode.kinds, updateNodesKinds, hqn] at h
    | some qn =>
        refine ⟨qn, rfl, QueryNode.lists_of_mem ?_ hκ⟩
        rcases hcases with rfl | rfl <;>
          simpa [UpdateNode.kinds, updateNodesKinds, hqn] using h
  case updateEdge =>
    cases hqe : cmd.updateEdge.queryEdge with
    | none => rcases hcases with rfl | rfl <;> simp [UpdateEdge.kinds, updateEdgesKinds, hqe] at h
    | some qe =>
        refine ⟨qe, rfl, QueryEdge.lists_of_mem ?_ hκ⟩
        rcases hcases with rfl | rfl <;>
          simpa [UpdateEdge.kinds, updateEdgesKinds, hqe] using h
  all_goals rcases hcases with rfl | rfl <;> simp [addEdgeKinds] at h

omit [Platform] in
/-- No result enters nodes in the queue or expires them. -/
theorem ResponseType.not_mem_found (type : ResponseType) {κ : Kind}
    (hκ : κ ∈ [Kind.enter, .expire]) : κ ∉ type.found := by
  simp only [List.mem_cons, List.not_mem_nil, or_false] at hκ
  rcases hκ with rfl | rfl <;> cases type <;> simp [ResponseType.found, ResponseType.kinds]

omit [Platform] in
/-- Only an addition with the flag enters a node, and only `DeleteExpired` expires one. -/
theorem Command.enters_of_mem {κ : Kind} (h : κ ∈ cmd.kinds) (hκ : κ ∈ [Kind.enter, .expire]) :
    κ = .enter ∧ cmd.cmdId = .addNode ∧ cmd.addNode.expirationFlag = true ∨
      κ = .expire ∧ cmd.cmdId = .deleteExpired := by
  have hnode : ∀ qn : QueryNode, κ ∉ qn.kinds := fun qn hmem => by
    have hfound := ResponseType.not_mem_found qn.results.rType hκ
    simp only [List.mem_cons, List.not_mem_nil, or_false] at hκ
    rcases hκ with rfl | rfl <;> simp [QueryNode.kinds, hfound] at hmem
  have hedge : ∀ qe : QueryEdge, κ ∉ qe.kinds := fun qe hmem => by
    have hfound := ResponseType.not_mem_found qe.results.rType hκ
    simp only [List.mem_cons, List.not_mem_nil, or_false] at hκ
    rcases hκ with rfl | rfl <;> simp [QueryEdge.kinds, hfound] at hmem
  have hnodes : ∀ q : Option QueryNode, κ ∉ q.elim [] QueryNode.kinds := fun q => by
    cases q with
    | none => simp
    | some qn => exact hnode qn
  have hedges : ∀ q : Option QueryEdge, κ ∉ q.elim [] QueryEdge.kinds := fun q => by
    cases q with
    | none => simp
    | some qe => exact hedge qe
  simp only [List.mem_cons, List.not_mem_nil, or_false] at hκ
  rw [Command.kinds] at h
  cases hid : cmd.cmdId
  all_goals simp only [hid] at h
  case queryNode => exact absurd h (hnode _)
  case queryEdge => exact absurd h (hedge _)
  case addNode =>
    have hquery := hnodes cmd.addNode.queryNode
    rcases hκ with rfl | rfl <;> cases hflag : cmd.addNode.expirationFlag
    all_goals simp [AddNode.kinds, AddNode.newKinds, hflag, hquery] at h ⊢
  case updateNode =>
    have hquery := hnodes cmd.updateNode.queryNode
    rcases hκ with rfl | rfl <;> simp [UpdateNode.kinds, updateNodesKinds, hquery] at h
  case updateEdge =>
    have hquery := hedges cmd.updateEdge.queryEdge
    rcases hκ with rfl | rfl <;> simp [UpdateEdge.kinds, updateEdgesKinds, hquery] at h
  case deleteExpired =>
    rcases hκ with rfl | rfl <;> simp at h ⊢
  all_goals rcases hκ with rfl | rfl <;> simp [addEdgeKinds] at h

/-- The queue is the same, and so is whether the server starts. -/
def Handler.SameQueue (s t : Handler) : Prop :=
  t.expirationQueue = s.expirationQueue ∧ t.autodeleteInit = s.autodeleteInit

omit [Platform] in
/-- Two steps that keep the queue and the expirations keep them together. -/
theorem Handler.SameQueue.trans (h : s.SameQueue t) (h' : t.SameQueue u) : s.SameQueue u :=
  ⟨h'.1.trans h.1, h'.2.trans h.2⟩

/-- Steps that enter and expire nothing leave the queue alone, unless they delete listed
elements. -/
theorem Does.sameQueue (h : Does K s t) (henter : .enter ∉ K) (hexpire : .expire ∉ K)
    (hinit : s.autodeleteInit = false)
    (hlists : .queue ∈ K → s.resultdeletion = false ∨ s.expirationQueue = []) :
    s.SameQueue t := by
  let Same (u : Handler) : Prop := s.SameQueue u ∧ u.resultdeletion = s.resultdeletion
  refine (h.invariant (P := Same) ⟨⟨rfl, rfl⟩, rfl⟩ fun {κ u v} hκ he hu => ?_).1
  obtain ⟨⟨hqueue, hsame⟩, hdel⟩ := hu
  refine ⟨⟨?_, he.autodeleteInit_eq.trans hsame⟩, he.fixed.2.1.trans hdel⟩
  rw [← hqueue]
  cases he with
  | enter => exact absurd hκ henter
  | expire => exact absurd hκ hexpire
  | unqueue hx =>
      -- An element is deleted, so that the queue is empty.
      have hempty := (hlists hκ).resolve_left (by simp [← hdel, hx.1])
      have hnil : u.expirationQueue = [] := hqueue.trans hempty
      simp [hnil, deleteByValue]
  | enqueue a hu => simp [hsame, hinit] at hu
  | @list _ x _ =>
      obtain ⟨l, hl⟩ := list_eq u x
      rw [hl]
  | @purge _ x _ =>
      obtain ⟨l, hl⟩ := list_eq u x
      rw [hl]
      rfl
  | _ => rfl

/-- A command that is refused reports an error and does nothing else. -/
theorem dispatch_refused (h : cmd.Refused s) :
    FootprintAt [.respond, .report .error] (dispatch cmd) (s.begin cmd) := by
  have hfail : ∀ msg, Footprint [.respond, .report .error] (fail .error msg) := fun msg =>
    (fail_footprint _ msg).mono (by simp)
  have hused : ∀ {id : ℤ}, ¬ s.FreeNode id →
      0 ≤ id ∧ (s.cachedNodes (toInt id)).isSome = true := fun hfree => by
    by_contra hnot
    exact hfree (Handler.freeNode_of_not hnot)
  have husedEdge : ∀ {id : ℤ}, ¬ s.FreeEdge id →
      0 ≤ id ∧ (s.cachedEdges (toInt id)).isSome = true := fun hfree => by
    by_contra hnot
    exact hfree (Handler.freeEdge_of_not hnot)
  rw [Command.Refused] at h
  rw [dispatch]
  cases hid : cmd.cmdId
  all_goals simp only [hid] at h ⊢
  case addNode =>
    refine FootprintAt.get_bind (FootprintAt.ite (fun _ => hfail _ _) fun hnot => ?_)
    exact absurd (hused h) hnot
  case queryNode =>
    refine FootprintAt.get_bind (FootprintAt.ite (fun _ => hfail _ _) fun hnot => ?_)
    exact absurd (hused h) hnot
  case queryEdge =>
    refine (nodeEdge_footprint _).bind (by simp) fun _ t ht => ?_
    have hedges : t.cachedEdges = s.cachedEdges := ht.cachedEdges_eq (by simp)
    refine FootprintAt.get_bind (FootprintAt.ite (fun _ => hfail _ _) fun _ => ?_)
    refine FootprintAt.ite (fun _ => hfail _ _) fun hnot => ?_
    rw [hedges] at hnot
    exact absurd (husedEdge h) hnot

/-- **Commands** that spare the queue leave it as it is, whether they return or raise an
exception. -/
theorem dispatch_queue (htx : cmd.cmdId.isTx = false) (hcmd : cmd.SparesQueue s)
    (hinit : s.autodeleteInit = false) :
    Sat (dispatch cmd) (s.begin cmd) (fun _ => s.SameQueue) fun _ => s.SameQueue := by
  have hbegin : s.SameQueue (s.begin cmd) := ⟨rfl, rfl⟩
  have hdoes : ∀ {K : List Kind}, FootprintAt K (dispatch cmd) (s.begin cmd) → .enter ∉ K →
      .expire ∉ K → (.queue ∈ K → s.resultdeletion = false ∨ s.expirationQueue = []) →
      Sat (dispatch cmd) (s.begin cmd) (fun _ => s.SameQueue) fun _ => s.SameQueue := by
    intro K hK henter hexpire hlists
    exact Sat.mono hK (fun _ _ ht => hbegin.trans (ht.sameQueue henter hexpire hinit hlists))
      fun _ _ ht => hbegin.trans (ht.sameQueue henter hexpire hinit hlists)
  rcases hcmd with hrefused | hcmd
  · exact hdoes (dispatch_refused hrefused) (by simp) (by simp) (by simp)
  · by_cases hid : cmd.cmdId = .deleteExpired
    · have hnothing : (s.begin cmd).NothingExpired := hcmd.expires hid
      rw [dispatch]
      rw [hid]
      exact deleteExpiredNodes_nothing hnothing hbegin
    · refine hdoes (dispatch_typed htx) (fun hmem => ?_) (fun hmem => ?_) fun hmem =>
        hcmd.lists (Command.lists_of_mem hmem (by simp))
      · obtain ⟨-, hadd, hflag⟩ | ⟨hne, -⟩ := Command.enters_of_mem hmem (by simp)
        · rw [hcmd.enters hadd] at hflag
          cases hflag
        · cases hne
      · obtain ⟨hne, -⟩ | ⟨-, hexpires⟩ := Command.enters_of_mem hmem (by simp)
        · cases hne
        · exact hid hexpires

/-- The same for a whole command, also if it fails. -/
theorem processQuery_queue {v : ℤ} (hcmd : cmd.SparesQueue s) (hinit : s.autodeleteInit = false)
    (h : Runs (processQuery cmd) s (.ret v t)) : s.SameQueue t := by
  have hdispatch : Sat (dispatch cmd) (s.begin cmd) (fun _ => s.SameQueue)
      fun _ => s.SameQueue := by
    by_cases htx : cmd.cmdId.isTx = true
    · refine Sat.mono (dispatch_tx htx) ?_ ?_
      · rintro _ t ⟨tx, r, rfl⟩
        exact ⟨rfl, rfl⟩
      · rintro _ t ⟨tx, r, rfl⟩
        exact ⟨rfl, rfl⟩
    · exact dispatch_queue (Bool.eq_false_iff.2 htx) hcmd hinit
  exact (processQuery_sat (Q := fun _ => s.SameQueue) hdispatch fun _ _ ht => ht).ret h

/-- The commands of a transaction that spare the queue. -/
theorem Progress.Reaches.sameQueue {rest : List Command}
    (h : Progress.Reaches ⟨cmds, s⟩ ⟨rest, u⟩)
    (hspare : EachCommand Command.SparesQueue cmds s) (hinit : s.autodeleteInit = false) :
    s.SameQueue u := by
  refine Progress.Reaches.invariant (I := s.SameQueue) (fun hv hcmd hrun _ => ?_) hspare
    ⟨rfl, rfl⟩ h
  have hsame := hv.trans (processQuery_queue hcmd (hv.2.trans hinit) hrun)
  exact ⟨hsame.1, hsame.2⟩

end Spares

section Lawful

variable [Platform.Lawful]

/-- The property has no value to store. -/
def PMGDProp.Valueless (p : PMGDProp) : Prop := p.type = .errorType ∨ p.type = .noValueType

/-- None of the properties is an expiration. -/
def NoExpiration (ps : List PMGDProp) : Prop :=
  ∀ p ∈ ps, p.key = "_expiration" → p.Valueless

omit [Platform.Lawful] in
/-- What setting a property does: the exact property, or nothing. -/
theorem setProperty_sets {x : Element} (p : PMGDProp) {s : Handler} :
    Ensures (setProperty x p) s fun _ t => ∃ v, p.value = .ok v ∧
      t = s.setDb (v.elim s.db fun v => s.db.setProperty x (stringID p.key) v) := by
  have hvalue : Reads (ofExcept p.value : Handling _) s fun v => p.value = .ok v := by
    unfold ofExcept
    cases h : p.value with
    | ok v => exact Reads.pure rfl
    | error e => exact Sat.throw trivial
  refine Reads.bind hvalue fun v hv => ?_
  cases v with
  | none => exact Sat.pure ⟨none, hv, rfl⟩
  | some v => exact Reads.bind (call_reads _) fun _ _ => Sat.modify ⟨some v, hv, rfl⟩

omit [Platform] [Platform.Lawful] in
/-- A property of the type without a value has none. -/
theorem PMGDProp.Valueless.value [Platform] {p : PMGDProp} (h : p.Valueless)
    {v : Option Property} (hv : p.value = .ok v) : v = none := by
  rcases h with h | h <;> · rw [PMGDProp.value, h] at hv; exact (Except.ok.inj hv).symm

/-- Setting a property that is no expiration leaves all expirations as they are. -/
theorem expiration_setProperty {g : Graph} {n m : NodeID} {key : String} (v : Property)
    (hkey : key ≠ "_expiration") :
    (g.setProperty (.node n) (stringID key) v).expiration m = g.expiration m := by
  refine Graph.expiration_modifyProps_same fun p => Function.update_of_ne ?_ _ _
  exact fun h => hkey (Platform.Lawful.stringID_injective h).symm

omit [Platform.Lawful] in
/-- A node whose expiration is set has that expiration. -/
theorem expiration_setProperty_self {g : Graph} {n : NodeID} {key : String} {v : Property}
    (hn : g.Has n) (hkey : key = "_expiration") :
    (g.setProperty (.node n) (stringID key) v).expiration n = some v := by
  obtain ⟨nd, hnd⟩ := Option.isSome_iff_exists.1 hn
  rw [Graph.expiration, Graph.setProperty]
  rw [Graph.node_modifyProps, if_pos rfl, hnd]
  simp [hkey]

/-- Removing another property leaves the expirations as they are. -/
theorem expiration_removeProperty {g : Graph} {n m : NodeID} {key : String}
    (hkey : key ≠ "_expiration") :
    (g.removeProperty (.node n) (stringID key)).expiration m = g.expiration m := by
  refine Graph.expiration_modifyProps_same fun p => Function.update_of_ne ?_ _ _
  exact fun h => hkey (Platform.Lawful.stringID_injective h).symm

/-- The update sets no expiration and removes none. -/
def UpdateNode.KeepsExpirations (un : UpdateNode) : Prop :=
  NoExpiration un.properties ∧ "_expiration" ∉ un.removeProps

/-- **An updated node.** -/
theorem updateElement_tracked {ps : List PMGDProp} {keys : List String} {n : NodeID}
    {s : Handler} (hps : NoExpiration ps) (hkeys : "_expiration" ∉ keys) (hs : s.Tracked) :
    Ensures (updateElement (.node n) ps keys) s fun _ t => t.Tracked := by
  refine Sat.bind (Sat.forEach (I := Handler.Tracked) (fun p hp t ht => ?_) hs) fun _ t ht => ?_
  · refine Ensures.mono (setProperty_sets p) fun _ u hu => ?_
    obtain ⟨v, hv, rfl⟩ := hu
    cases v with
    | none => exact ht
    | some v =>
        refine ⟨ht.1, ht.2.congr fun m => expiration_setProperty v fun hkey => ?_⟩
        have hnone := (hps p hp hkey).value hv
        cases hnone
  · refine Sat.forEach (I := Handler.Tracked) (fun key hkey u hu => ?_) ht
    refine Reads.bind (call_reads _) fun _ _ => Sat.modify ⟨hu.1, hu.2.congr fun m => ?_⟩
    exact expiration_removeProperty fun hsame => hkeys (hsame ▸ hkey)

/-- The expiration of a new node is entered as it is stored: with the flag, the last
property `_expiration` is an integer; without it, there is none. -/
def AddNode.KeepsExpirations (cn : AddNode) : Prop :=
  if cn.expirationFlag then
    ∃ p, (cn.node.properties.filter fun p => p.key = "_expiration").getLast? = some p ∧
      p.type = .integerType
  else NoExpiration cn.node.properties

/-- The value is the integer whose time stamp has been read off. -/
def ReadOff (time : ℕ) (v : Option Property) : Prop :=
  ∃ z, v = some (.integer z) ∧ time = toUInt64 z

/-- **The properties of a new node.** Induction on the properties: the time stamp has been
read off, unless another expiration is still to come. -/
theorem setNodeProperties_tracked {n : NodeID} {q : List AutoDeleteNode} {flag : Bool}
    {time : ℕ} {ps : List PMGDProp} {s : Handler} (hinit : s.autodeleteInit = false)
    (hqueue : s.expirationQueue = q) (hagrees : Agrees (s.db.removeNode n) q)
    (hhas : s.db.Has n)
    (hps : if flag then
        (∃ p, (ps.filter fun p => p.key = "_expiration").getLast? = some p ∧
          p.type = .integerType) ∨
          (ps.filter fun p => p.key = "_expiration") = [] ∧ ReadOff time (s.db.expiration n)
      else NoExpiration ps ∧ s.db.expiration n = none) :
    Ensures (setNodeProperties (.node n) flag time ps) s fun time' t =>
      t.autodeleteInit = false ∧ t.expirationQueue = q ∧ Agrees (t.db.removeNode n) q ∧
        if flag then ReadOff time' (t.db.expiration n) else t.db.expiration n = none := by
  induction ps generalizing s time with
  | nil =>
      refine Sat.pure ⟨hinit, hqueue, hagrees, ?_⟩
      cases flag with
      | false => exact hps.2
      | true =>
          rcases hps with ⟨p, hp, -⟩ | ⟨-, hread⟩
          · cases hp
          · exact hread
  | cons p ps ih =>
      refine Sat.bind (setProperty_sets p) fun _ t ht => ?_
      obtain ⟨v, hv, rfl⟩ := ht
      refine ih hinit hqueue ?_ ?_ ?_
      · cases v with
        | none => exact hagrees
        | some v => exact hagrees.modifyProps fun props => Function.update props _ (some v)
      · cases v with
        | none => exact hhas
        | some v =>
            exact (Graph.has_modifyProps_iff (.node n) fun props =>
              Function.update props _ (some v)).2 hhas
      -- What the expiration of the node has become.
      have hother : p.key ≠ "_expiration" → (s.setDb (v.elim s.db fun v =>
          s.db.setProperty (.node n) (stringID p.key) v)).db.expiration n = s.db.expiration n := by
        intro hkey
        cases v with
        | none => rfl
        | some v => exact expiration_setProperty v hkey
      cases flag with
      | false =>
          refine ⟨fun p' hp' => hps.1 p' (List.mem_cons_of_mem _ hp'), ?_⟩
          by_cases hkey : p.key = "_expiration"
          · obtain rfl := (hps.1 p (List.mem_cons_self ..) hkey).value hv
            exact hps.2
          · exact (hother hkey).trans hps.2
      | true =>
          simp only [if_true, true_and] at hps ⊢
          by_cases hkey : p.key = "_expiration"
          · rw [List.filter_cons_of_pos (by simpa using hkey)] at hps
            rw [if_pos hkey]
            cases hfilter : ps.filter fun p => p.key = "_expiration" with
            | cons p' ps' =>
                rw [hfilter, List.getLast?_cons_cons] at hps
                exact .inl (hps.resolve_right fun h => by cases h.1)
            | nil =>
                rw [hfilter] at hps
                obtain ⟨p', hp', htype⟩ := hps.resolve_right fun h => by cases h.1
                obtain rfl : p = p' := by simpa using hp'
                refine .inr ⟨rfl, p.intValue, ?_, rfl⟩
                rw [PMGDProp.value, htype] at hv
                obtain rfl := Except.ok.inj hv
                exact expiration_setProperty_self hhas hkey
          · rw [List.filter_cons_of_neg (by simpa using hkey)] at hps
            rw [if_neg hkey, hother hkey]
            exact hps

/-- **An added node.** -/
theorem addNewNode_tracked {cn : AddNode} {s : Handler} (hcn : cn.KeepsExpirations)
    (hs : s.Tracked) : Ensures (addNewNode cn) s fun _ t => t.Tracked := by
  obtain ⟨hinit, hagrees⟩ := hs
  have hnew : s.db.expiration s.db.nodes.length = none := Graph.expiration_new s.db
  -- The new node, in the graph and under its reference; the others agree with the queue.
  let Added (n : NodeID) (t : Handler) : Prop :=
    t.autodeleteInit = false ∧ t.expirationQueue = s.expirationQueue ∧
      Agrees (t.db.removeNode n) s.expirationQueue ∧ t.db.Has n ∧ t.db.expiration n = none
  refine Sat.bind (P := fun n t => Added n t) ?_ fun n t ht => ?_
  · refine Reads.bind (call_reads _) fun _ _ => Sat.get_bind (Sat.modify_bind (Sat.pure ?_))
    have hsame : ∀ m, (s.db.addNode (stringID cn.node.tag)).expiration m = s.db.expiration m :=
      fun m => Graph.expiration_addNode _
    have hnone := (hsame _).trans hnew
    refine ⟨hinit, rfl, (hagrees.congr hsame).without hnone, ?_, hnone⟩
    exact (Graph.has_addNode_iff _).2 (.inr rfl)
  refine Sat.bind (P := fun _ u => Added n u) ?_ fun _ u hu => ?_
  · exact Sat.ite (fun _ => Sat.modify ht) fun _ => Sat.pure ht
  obtain ⟨huinit, huqueue, huagrees, huhas, hunone⟩ := hu
  refine Sat.bind (setNodeProperties_tracked huinit huqueue huagrees huhas ?_) fun time v hv => ?_
  · rw [AddNode.KeepsExpirations] at hcn
    cases hflag : cn.expirationFlag with
    | false =>
        rw [hflag] at hcn
        exact ⟨hcn, hunone⟩
    | true =>
        rw [hflag] at hcn
        exact .inl hcn
  obtain ⟨hvinit, hvqueue, hvagrees, hread⟩ := hv
  refine Sat.bind (P := fun _ w => w.Tracked) ?_ fun _ w hw =>
    answer_keeps _ _ tracked_indifferent hw
  cases hflag : cn.expirationFlag with
  | false =>
      rw [hflag] at hread
      refine Sat.pure ⟨hvinit, ?_⟩
      rw [Handler.QueueAgrees, hvqueue]
      exact hvagrees.withNode hread
  | true =>
      rw [hflag] at hread
      obtain ⟨z, hz, rfl⟩ := hread
      refine Sat.modify ⟨hvinit, ?_⟩
      have hinsert := hvagrees.insert hz
      rw [← hvqueue] at hinsert
      exact hinsert

/-! ### Commands -/

/-- What the command adds is entered as it is stored, and it updates no expiration. -/
def Command.KeepsExpirations (cmd : Command) : Prop :=
  match cmd.cmdId with
  | .addNode => cmd.addNode.KeepsExpirations
  | .updateNode => cmd.updateNode.KeepsExpirations
  | _ => True

/-- **Commands.** -/
theorem dispatch_tracked {cmd : Command} {s : Handler} (htx : cmd.cmdId.isTx = false)
    (hcmd : cmd.KeepsExpirations) (hs : s.Tracked) :
    Ensures (dispatch cmd) (s.begin cmd) fun _ t => t.Tracked := by
  have hbegin : (s.begin cmd).Tracked := hs
  have hlistNode : ∀ n, ListKeeps Handler.Tracked (.node n) := fun n => listElement_tracked _
  have hlistEdge : ∀ e, ListKeeps Handler.Tracked (.edge e) := fun e => listElement_tracked _
  rw [Command.KeepsExpirations] at hcmd
  rw [dispatch]
  cases hid : cmd.cmdId
  all_goals rw [hid] at hcmd htx
  case txBegin | txCommit | txAbort => cases htx
  case queryNode =>
    exact queryNode_invariant tracked_indifferent (fun _ => hlistNode) hbegin
  case queryEdge =>
    exact queryEdge_invariant tracked_indifferent (fun _ => hlistEdge) hbegin
  case addEdge =>
    exact addEdge_invariant _ tracked_indifferent tracked_ignoresEdges hbegin
  case updateEdge =>
    exact Sat.bind (updateEdge_invariant tracked_indifferent tracked_ignoresEdges
      (fun _ _ _ => hlistEdge) hbegin) fun _ _ ht => Sat.pure ht
  case addNode =>
    exact addNode_invariant tracked_indifferent (fun _ _ _ => hlistNode)
      (fun _ ht => addNewNode_tracked hcmd ht) hbegin
  case updateNode =>
    exact Sat.bind (updateNode_invariant tracked_indifferent (fun _ _ _ => hlistNode)
      (fun _ _ ht => updateElement_tracked hcmd.1 hcmd.2 ht) hbegin) fun _ _ ht => Sat.pure ht
  case deleteExpired =>
    exact Sat.get_bind (Sat.bind (deleteExpiredFrom_tracked _ hbegin) fun _ _ ht => Sat.pure ht)

/-! ### The builder -/

omit [Platform.Lawful] in
/-- `set_property` keeps the key. -/
theorem jsonProperty_key {key : String} {val : Json} {p : PMGDProp}
    (h : jsonProperty key val = .ok p) : p.key = key := by
  unfold jsonProperty at h
  cases val with
  | int z =>
      obtain ⟨z, -, h⟩ := bind_ok_inv h
      exact (Except.ok.inj h) ▸ rfl
  | object ms =>
      simp only at h
      split at h
      · obtain ⟨v, -, h⟩ := bind_ok_inv h
        obtain ⟨date, -, h⟩ := bind_ok_inv h
        exact (Except.ok.inj h) ▸ rfl
      · split at h
        · obtain ⟨v, -, h⟩ := bind_ok_inv h
          obtain ⟨blob, -, h⟩ := bind_ok_inv h
          exact (Except.ok.inj h) ▸ rfl
        · cases h
  | null | array _ => cases h
  | bool _ | real _ | string _ => exact (Except.ok.inj h) ▸ rfl

/-! ### Runs -/

/-- A command of the transaction fails. -/
def Request.Fails (r : Request) (s : Handler) : Prop :=
  ∃ cmd rest u v w, Progress.Reaches ⟨r.cmds, r.opens s⟩ ⟨cmd :: rest, u⟩ ∧
    Runs (processQuery cmd) u (.ret v w) ∧ v < 0

omit [Platform.Lawful] in
/-- A request none of whose commands fails does not fail. -/
theorem Request.not_fails {r : Request} {s : Handler}
    (h : EachCommand (IfItFails fun _ => False) r.cmds (r.opens s)) : ¬ r.Fails s := by
  rintro ⟨cmd, rest, u, v, w, hreach, hrun, hv⟩
  exact h cmd rest u hreach v w hrun hv

/-- The call is made by the server in operation, its commands keep the expirations, and if
one of them fails, it and those before it spare the queue. -/
structure Request.KeepsQueue (r : Request) (s : Handler) : Prop where
  transaction : IsTransaction r.cmds
  running : r.autodeleteInit = false
  commands : ∀ cmd ∈ r.cmds, cmd.KeepsExpirations
  rolledBack : r.Fails s → EachCommand Command.SparesQueue r.cmds (r.opens s)

/-- Between two calls of `process_queries`, by the same handler or another, nothing happens
to the graph and to the queue. -/
def Handler.SharesQueue (s t : Handler) : Prop :=
  t.db = s.db ∧ t.expirationQueue = s.expirationQueue

/-- Calls of `process_queries` that keep the queue: from a state in which the queue agrees
with the graph, to the state after the last call. -/
inductive QueueRun : Handler → Prop
  | start {s : Handler} : s.QueueAgrees → QueueRun s
  | call {s s' t : Handler} {r : Request} {rs : Responses} : QueueRun s → s.SharesQueue s' →
      r.KeepsQueue s' → Runs r.process s' (.ret rs t) → QueueRun t

/-- **One call.** -/
theorem process_queueAgrees {r : Request} {s t : Handler} {rs : Responses}
    (hr : r.KeepsQueue s) (hs : s.QueueAgrees) (hrun : Runs r.process s (.ret rs t)) :
    t.QueueAgrees := by
  rcases process_outcome hr.transaction hrun with ⟨u, hcommit⟩ | ⟨w, hback⟩
  · have hu : u.Tracked := by
      refine hcommit.invariant (P := fun cmd _ => cmd.KeepsExpirations) (fun _ _ _ _ hv => hv)
        (fun cmd v htx hcmd hv => dispatch_tracked htx hcmd hv) ?_ ⟨hr.running, hs⟩
      exact eachCommand_of_forall fun cmd hcmd _ => hr.commands cmd hcmd
    rw [Handler.QueueAgrees]
    rw [hcommit.db, hcommit.ends, Handler.closed_expirationQueue]
    exact hu.2
  · rw [Handler.QueueAgrees]
    rw [hback.db, hback.ends, Handler.closed_expirationQueue]
    obtain ⟨cmd, rest, u, v, hreach, hfail, hv⟩ := hback.fails
    have hspare := hr.rolledBack ⟨cmd, rest, u, v, w, hreach, hfail, hv⟩
    have hu : (r.opens s).SameQueue u := hreach.sameQueue hspare hr.running
    have hw := hu.trans (processQuery_queue (hspare cmd rest u hreach)
      (hu.2.trans hr.running) hfail)
    have hqueue : ({ w with listed := [] } : Handler).expirationQueue = s.expirationQueue := hw.1
    rw [hqueue]
    exact hs

/-- **The queue agrees with the graph** after every call. -/
theorem queue_agrees {s : Handler} (h : QueueRun s) : s.QueueAgrees := by
  induction h with
  | start hs => exact hs
  | @call s s' t r rs _ hshares hr hrun ih =>
      refine process_queueAgrees hr ?_ hrun
      rw [Handler.QueueAgrees]
      rw [hshares.1, hshares.2]
      exact ih

end Lawful

end

/-- A node with an expiration. -/
def expiringNode : AddNode where
  identifier := -1
  node := { tag := "A"
            properties := [{ type := .integerType, key := "_expiration", intValue := 10 }] }
  expirationFlag := true

/-- A transaction that adds a node. If it is to fail, an edge between references that are not
there follows. -/
def adding (cn : AddNode) (fails : Bool) : Request where
  cmds := { cmdId := .txBegin } ::
    ({ cmdId := .addNode, addNode := cn } ::
      (if fails then [{ cmdId := .addEdge }] else []) ++ [{ cmdId := .txCommit }])
  numGroups := 1
  readonly := false
  resultdeletion := false

/-- A node with an expiration is added, and then one without in a transaction that fails: the
first node is in the queue, and nothing else. -/
theorem queue_agrees_addition : ∃ t : Handler,
    t.expirationQueue = [⟨10, .node 0⟩] ∧ t.QueueAgrees := by
  let plain : AddNode := { identifier := -1 }
  let s : Handler := { db := ⟨[], []⟩ }
  have hs : s.QueueAgrees := by
    refine ⟨fun a ha => (by cases ha), fun n v hn => ?_, List.nodup_nil⟩
    simp [s, Graph.expiration, Graph.node] at hn
  obtain ⟨rs, t, rs', u, hrun, hrun', hqueue⟩ : ∃ rs t rs' u,
      Runs (adding expiringNode false).process s (.ret rs t) ∧
      Runs (adding plain true).process t (.ret rs' u) ∧ u.expirationQueue = [⟨10, .node 0⟩] :=
    ⟨_, _, _, _, Runs.of_ret (n := 2) rfl, Runs.of_ret (n := 2) rfl, rfl⟩
  have hfirst : (adding expiringNode false).KeepsQueue s := by
    refine ⟨⟨_, [{ cmdId := .addNode, addNode := expiringNode }], _, rfl, rfl, by decide, rfl⟩, rfl,
      fun cmd hcmd => ?_, fun hfails => absurd hfails (Request.not_fails ?_)⟩
    · have hcmd : cmd = { cmdId := .txBegin } ∨
          cmd = { cmdId := .addNode, addNode := expiringNode } ∨ cmd = { cmdId := .txCommit } := by
        simpa [adding] using hcmd
      rcases hcmd with rfl | rfl | rfl
      · trivial
      · exact ⟨_, rfl, rfl⟩
      · trivial
    · exact ifItFails_cons (Runs.of_ret (n := 2) rfl) le_rfl
        (ifItFails_cons (Runs.of_ret (n := 2) rfl) le_rfl
          (ifItFails_cons (Runs.of_ret (n := 2) rfl) le_rfl eachCommand_nil))
  have hsecond : (adding plain true).KeepsQueue t := by
    have hcmds : ∀ cmd ∈ (adding plain true).cmds, cmd = { cmdId := .txBegin } ∨
        cmd = { cmdId := .addNode, addNode := plain } ∨ cmd = { cmdId := .addEdge } ∨
        cmd = { cmdId := .txCommit } := fun cmd hcmd => by simpa [adding] using hcmd
    refine ⟨⟨_, [{ cmdId := .addNode, addNode := plain }, { cmdId := .addEdge }], _, rfl, rfl,
      by decide, rfl⟩, rfl, fun cmd hcmd => ?_, fun _ => eachCommand_of_forall fun cmd hcmd u => ?_⟩
    · rcases hcmds cmd hcmd with rfl | rfl | rfl | rfl
      · trivial
      · exact fun p hp => (by cases hp)
      · trivial
      · trivial
    · rcases hcmds cmd hcmd with rfl | rfl | rfl | rfl
      · exact .inr ⟨fun h => (by cases h), fun h => h.elim, fun h => (by cases h)⟩
      · exact .inr ⟨fun _ => rfl, fun ⟨_, h, _⟩ => (by cases h), fun h => (by cases h)⟩
      · exact .inr ⟨fun h => (by cases h), fun h => h.elim, fun h => (by cases h)⟩
      · exact .inr ⟨fun h => (by cases h), fun h => h.elim, fun h => (by cases h)⟩
  exact ⟨u, hqueue, queue_agrees (.call (.call (.start hs) ⟨rfl, rfl⟩ hfirst hrun) ⟨rfl, rfl⟩
    hsecond hrun')⟩

/-- **An addition that is rolled back** leaves its entry in the queue. -/
theorem rolled_back_stays_queued : ∃ (s : Handler) (rs : Responses) (t : Handler),
    s.QueueAgrees ∧ Runs (adding expiringNode true).process s (.ret rs t) ∧ ¬ t.QueueAgrees := by
  let s : Handler := { db := ⟨[], []⟩ }
  have hs : s.QueueAgrees := by
    refine ⟨fun a ha => (by cases ha), fun n v hn => ?_, List.nodup_nil⟩
    simp [s, Graph.expiration, Graph.node] at hn
  obtain ⟨rs, t, hrun, hqueue, hdb⟩ : ∃ rs t,
      Runs (adding expiringNode true).process s (.ret rs t) ∧
      t.expirationQueue = [⟨10, .node 0⟩] ∧ t.db = ⟨[], []⟩ :=
    ⟨_, _, Runs.of_ret (n := 2) rfl, rfl, rfl⟩
  refine ⟨s, rs, t, hs, hrun, fun h => ?_⟩
  obtain ⟨n, z, -, hn⟩ := h.entries ⟨10, .node 0⟩ (by rw [hqueue]; exact List.mem_singleton.2 rfl)
  rw [hdb] at hn
  simp [Graph.expiration, Graph.node] at hn

end Vdms
