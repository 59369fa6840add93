import Vdms.Outcome

/-!
# What Calls Leave Alone

Which parts of the graph a call of `process_queries` can change depends on the kinds of its
commands, whatever its outcome. Queries change nothing. Additions change nothing of what was
there: the nodes and the edges, and the properties of each, stay as they were, and new ones come
behind them. Updates may change properties, but every node keeps its tag, and every edge its tag
and its ends. Only a request that deletes its results and `DeleteExpired` take anything away.

## Main definitions

* `Graph.Extends`, `Graph.Keeps`: what additions and updates leave alone.
* `Calls`: calls of `process_queries`, by any handlers over one graph.

## Main results

* `Calls.moves`: what every command keeps, any number of calls keep, also those rolled back.
* `graph_framed`: the graph after any number of calls of each kind.
-/

namespace Vdms

open Imp Imp.Prog Platform Relation

/-! ### Graphs that are left alone -/

namespace Graph

/-- The second graph has everything of the first as it was, and may have more behind it. -/
structure Extends (g g' : Graph) : Prop where
  nodes : g.nodes <+: g'.nodes
  edges : g.edges <+: g'.edges

/-- The second graph has the nodes and the edges of the first, maybe with other properties. -/
structure Keeps (g g' : Graph) : Prop where
  node : ∀ n nd, g.node n = some nd → ∃ nd', g'.node n = some nd' ∧ nd'.tag = nd.tag
  edge : ∀ e ed, g.edge e = some ed →
    ∃ ed', g'.edge e = some ed' ∧ ed'.src = ed.src ∧ ed'.dst = ed.dst ∧ ed'.tag = ed.tag

variable {g g' g'' : Graph}

theorem Extends.refl (g : Graph) : g.Extends g :=
  ⟨List.prefix_refl _, List.prefix_refl _⟩

theorem Extends.trans (h : g.Extends g') (h' : g'.Extends g'') : g.Extends g'' :=
  ⟨h.nodes.trans h'.nodes, h.edges.trans h'.edges⟩

theorem Extends.addNode (h : g.Extends g') (tag : StringID) : g.Extends (g'.addNode tag) :=
  ⟨h.nodes.trans (List.prefix_append _ _), h.edges⟩

theorem Extends.addEdge (h : g.Extends g') (src dst : NodeID) (tag : StringID) :
    g.Extends (g'.addEdge src dst tag) :=
  ⟨h.nodes, h.edges.trans (List.prefix_append _ _)⟩

/-- The element is behind those of the graph. -/
def New (g : Graph) : Element → Prop
  | .node n => g.nodes.length ≤ n
  | .edge e => g.edges.length ≤ e

theorem prefix_modify {α : Type} {l l' : List α} (h : l <+: l') {i : ℕ} (hi : l.length ≤ i)
    (f : α → α) : l <+: l'.modify i f := by
  rw [List.prefix_iff_getElem?] at h ⊢
  intro j hj
  have hne : i ≠ j := by omega
  rw [List.getElem?_modify, h j hj]
  simp [hne]

theorem Extends.modifyProps (h : g.Extends g') {x : Element} (hx : g.New x)
    (f : Props → Props) : g.Extends (g'.modifyProps x f) := by
  cases x with
  | node n => exact ⟨prefix_modify h.nodes hx _, h.edges⟩
  | edge e => exact ⟨h.nodes, prefix_modify h.edges hx _⟩

theorem Keeps.refl (g : Graph) : g.Keeps g :=
  ⟨fun _ nd h => ⟨nd, h, rfl⟩, fun _ ed h => ⟨ed, h, rfl, rfl, rfl⟩⟩

theorem Keeps.trans (h : g.Keeps g') (h' : g'.Keeps g'') : g.Keeps g'' := by
  refine ⟨fun n nd hn => ?_, fun e ed he => ?_⟩
  · obtain ⟨nd', hn', htag⟩ := h.node n nd hn
    obtain ⟨nd'', hn'', htag'⟩ := h'.node n nd' hn'
    exact ⟨nd'', hn'', htag'.trans htag⟩
  · obtain ⟨ed', he', hsrc, hdst, htag⟩ := h.edge e ed he
    obtain ⟨ed'', he'', hsrc', hdst', htag'⟩ := h'.edge e ed' he'
    exact ⟨ed'', he'', hsrc'.trans hsrc, hdst'.trans hdst, htag'.trans htag⟩

theorem join_of_prefix {α : Type} {l l' : List (Option α)} (h : l <+: l') {i : ℕ} {a : α}
    (hi : l[i]?.join = some a) : l'[i]?.join = some a := by
  obtain ⟨rest, rfl⟩ := h
  have hlt : i < l.length := by
    by_contra hge
    rw [List.getElem?_eq_none (Nat.le_of_not_lt hge)] at hi
    cases hi
  rwa [List.getElem?_append_left hlt]

theorem Extends.keeps (h : g.Extends g') : g.Keeps g' :=
  ⟨fun _ nd hn => ⟨nd, join_of_prefix h.nodes hn, rfl⟩,
    fun _ ed he => ⟨ed, join_of_prefix h.edges he, rfl, rfl, rfl⟩⟩

theorem join_modify {α : Type} {l : List (Option α)} {i j : ℕ} {a : α} {f : α → α}
    (hi : l[i]?.join = some a) :
    (l.modify j (Option.map f))[i]?.join = some (if j = i then f a else a) := by
  rw [List.getElem?_modify]
  obtain ⟨x, hx, rfl⟩ : ∃ x, l[i]? = some x ∧ x = some a := by
    cases hl : l[i]? with
    | none =>
        rw [hl] at hi
        cases hi
    | some x =>
        rw [hl] at hi
        exact ⟨x, rfl, hi⟩
  rw [hx]
  by_cases hj : j = i
  · simp [hj]
  · simp [hj]

theorem keeps_modifyProps (g : Graph) (x : Element) (f : Props → Props) :
    g.Keeps (g.modifyProps x f) := by
  cases x with
  | node m =>
      refine ⟨fun n nd hn => ⟨_, join_modify hn, ?_⟩, fun _ ed he => ⟨ed, he, rfl, rfl, rfl⟩⟩
      split
      · rfl
      · rfl
  | edge m =>
      refine ⟨fun _ nd hn => ⟨nd, hn, rfl⟩, fun e ed he => ⟨_, join_modify he, ?_⟩⟩
      split
      · exact ⟨rfl, rfl, rfl⟩
      · exact ⟨rfl, rfl, rfl⟩

end Graph

/-! ### Computations that only add -/

/-- The graph has been added to only, and results are not deleted. -/
structure Handler.Appended (g : Graph) (s : Handler) : Prop where
  db : g.Extends s.db
  resultdeletion : s.resultdeletion = false

/-- The computation only adds to the graph. -/
def Appends {α : Type} (g : Graph) (m : Handling α) : Prop :=
  ∀ s : Handler, s.Appended g → Sat m s (fun _ t => t.Appended g) fun _ _ => True

section Rules

variable {α β : Type} {g : Graph} {m : Handling α} {f : α → Handling β}

theorem Appends.bind (h : Appends g m) (hf : ∀ a, Appends g (f a)) : Appends g (m >>= f) :=
  fun s hs => Sat.bind (h s hs) fun a t ht => hf a t ht

theorem Appends.pure (a : α) : Appends g (pure a : Handling α) := fun _ hs => Sat.pure hs

theorem Appends.get_bind {f : Handler → Handling β} (h : ∀ u, Appends g (f u)) :
    Appends g (get >>= f) :=
  fun s hs => Sat.get_bind (h s s hs)

theorem Appends.modify {f : Handler → Handler}
    (hf : ∀ s : Handler, s.Appended g → (f s).Appended g) :
    Appends g (modify f : Handling Unit) :=
  fun s hs => Sat.modify (hf s hs)

theorem Appends.ite {c : Prop} [Decidable c] {m' : Handling α} (h : Appends g m)
    (h' : Appends g m') :
    Appends g (if c then m else m') :=
  fun s hs => Sat.ite (fun _ => h s hs) fun _ => h' s hs

theorem Appends.when {c : Prop} [Decidable c] {m : Handling Unit} (h : Appends g m) :
    Appends g (when c m) :=
  Appends.ite h (Appends.pure ())

theorem Appends.forEach {as : List α} {f : α → Handling Unit} (h : ∀ a, Appends g (f a)) :
    Appends g (forEach as f) :=
  fun _ hs => Sat.forEach (I := fun u : Handler => u.Appended g) (fun a _ u hu => h a u hu) hs

theorem Appends.loop {body : α → Handling (α ⊕ β)} (h : ∀ a, Appends g (body a)) (a : α) :
    Appends g (loop body a) := by
  intro s hs
  refine Sat.loop (fun _ u => u.Appended g) (fun a u hu => ?_) hs
  refine Sat.mono (h a u hu) (fun r t ht => ?_) fun _ _ _ => trivial
  cases r with
  | inl _ => exact ht
  | inr _ => exact ht

end Rules

section

variable [Platform]

/-! ### Calls that leave the graph alone -/

/-- Calls of `process_queries` that meet a condition, by any number of handlers over one
graph. -/
inductive Calls (P : Request → Prop) (s : Handler) : Handler → Prop
  | start : Calls P s s
  | call {t t' u : Handler} {r : Request} {rs : Responses} : Calls P s t → t'.db = t.db →
      P r → IsTransaction r.cmds → Runs r.process t' (.ret rs u) → Calls P s u

/-- The command moves the graph only as the relation allows, in a call that does not delete its
results. -/
def Command.Moves (R : Graph → Graph → Prop) (cmd : Command) : Prop :=
  ∀ s : Handler, s.resultdeletion = false →
    Sat (dispatch cmd) (s.begin cmd) (fun _ t => R s.db t.db ∧ t.resultdeletion = false)
      fun _ _ => True

section Moves

variable {R : Graph → Graph → Prop} {s t : Handler}

/-- **One call**, whether it is committed or rolled back. -/
theorem process_moves (hrefl : ∀ g, R g g) (htrans : ∀ {g g' g''}, R g g' → R g' g'' → R g g'')
    {r : Request} {rs : Responses} (hr : IsTransaction r.cmds) (hdel : r.resultdeletion = false)
    (hcmds : ∀ cmd ∈ r.cmds, cmd.Moves R) (hrun : Runs r.process s (.ret rs t)) :
    R s.db t.db := by
  rcases process_outcome hr hrun with ⟨u, hcommit⟩ | ⟨w, hback⟩
  · have hmoved : R s.db u.db ∧ u.resultdeletion = false := by
      refine Progress.Reaches.invariant (P := fun cmd _ => cmd ∈ r.cmds)
        (I := fun u : Handler => R s.db u.db ∧ u.resultdeletion = false)
        (fun {cmd u v w} hu hcmd hquery hv => ?_)
        (eachCommand_of_forall fun cmd hcmd _ => hcmd) (s := r.opens s) ⟨hrefl _, hdel⟩
        hcommit.reaches
      rcases processQuery_inv hquery with hdispatch | ⟨rfl, -⟩
      · obtain ⟨hmove, hdel'⟩ := Sat.ret (hcmds cmd hcmd u hu.2) hdispatch
        exact ⟨htrans hu.1 hmove, hdel'⟩
      · omega
    rw [hcommit.db]
    exact hmoved.1
  · rw [hback.db]
    exact hrefl _

/-- **Any number of calls**, by any handlers. -/
theorem Calls.moves (hrefl : ∀ g, R g g) (htrans : ∀ {g g' g''}, R g g' → R g' g'' → R g g'')
    {P : Request → Prop}
    (hP : ∀ r, P r → r.resultdeletion = false ∧ ∀ cmd ∈ r.cmds, cmd.Moves R)
    (h : Calls P s t) : R s.db t.db := by
  induction h with
  | start => exact hrefl _
  | @call t t' u r rs _ hdb hr htx hrun ih =>
      obtain ⟨hdel, hcmds⟩ := hP r hr
      have hmove := process_moves hrefl htrans htx hdel hcmds hrun
      rw [hdb] at hmove
      exact htrans ih hmove

/-- The commands that open and close a transaction. -/
theorem moves_tx (hrefl : ∀ g, R g g) {cmd : Command} (hcmd : cmd.cmdId.isTx = true) :
    cmd.Moves R := by
  intro s hdel
  refine Sat.mono (dispatch_tx hcmd) (fun _ t ht => ?_) fun _ _ _ => trivial
  obtain ⟨tx, r, rfl⟩ := ht
  exact ⟨hrefl _, hdel⟩

end Moves

/-! ### Queries -/

/-- The kinds of steps that touch the graph. -/
abbrev graphKinds : List Kind := [.add, .update, .expire]

/-- Without deletion of the results, a query changes nothing. -/
theorem Does.db_of_spared {K : List Kind} {s t : Handler} (h : Does K s t)
    (hK : ∀ κ ∈ K, κ ∉ graphKinds) (hdel : s.resultdeletion = false) :
    t.db = s.db ∧ t.resultdeletion = false := by
  refine ⟨?_, h.resultdeletion_eq.trans hdel⟩
  have hboth : t.db = s.db ∧ t.resultdeletion = false := by
    refine Does.invariant (P := fun u => u.db = s.db ∧ u.resultdeletion = false) h ⟨rfl, hdel⟩ ?_
    rintro κ u v hκ he ⟨hdb, hdel'⟩
    refine ⟨?_, he.fixed.2.1.trans hdel'⟩
    have hkind := hK κ hκ
    by_cases hpurge : κ = .purge
    · subst hpurge
      cases he with
      | purge hx =>
          rw [Handler.Purges, hdel'] at hx
          exact absurd hx.1 Bool.false_ne_true
    · refine (he.db_eq ?_).trans hdb
      simp only [graphKinds, List.mem_cons, List.not_mem_nil, or_false, not_or] at hkind ⊢
      exact ⟨hkind.1, hkind.2.1, hpurge, hkind.2.2⟩
  exact hboth.1

theorem moves_of_kinds {R : Graph → Graph → Prop} (hrefl : ∀ g, R g g) {cmd : Command}
    (htx : cmd.cmdId.isTx = false) (hK : ∀ κ ∈ cmd.cmdId.kinds, κ ∉ graphKinds) :
    cmd.Moves R := by
  intro s hdel
  refine Sat.mono (dispatch_footprint htx) (fun _ t ht => ?_) fun _ _ _ => trivial
  obtain ⟨hdb, hdel'⟩ := ht.db_of_spared hK hdel
  rw [hdb]
  exact ⟨hrefl _, hdel'⟩

/-! ### Additions -/

section Appends

variable {α : Type} {g : Graph} {m : Handling α}

theorem Footprint.appends {K : List Kind} (h : Footprint K m) (hK : ∀ κ ∈ K, κ ∉ graphKinds) :
    Appends g m := by
  intro s hs
  refine Sat.mono (h s) (fun _ t ht => ?_) fun _ _ _ => trivial
  obtain ⟨hdb, hdel⟩ := ht.db_of_spared hK hs.resultdeletion
  refine ⟨?_, hdel⟩
  rw [hdb]
  exact hs.db

theorem forCached_appends {k : ℤ} {f : α → NodeID → Handling α} (hf : ∀ a n, Appends g (f a n))
    (a : α) : Appends g (forCached k f a) := by
  refine Appends.loop (fun a => ?_) a
  refine ((cachedNode_readOnly k).appends (by simp)).bind fun r => Appends.ite ?_ (Appends.pure _)
  refine ((ReusableIterator.ref_readOnly r).appends (by simp)).bind fun n => ?_
  refine (hf a n).bind fun a' => ((nextCached_footprint k).appends (by simp)).bind fun _ => ?_
  exact Appends.pure _

/-- Properties are set on what has been added. -/
theorem setProperty_appends {x : Element} (hx : g.New x) (p : PMGDProp) :
    Appends g (setProperty x p) := by
  refine ((ofExcept_readOnly _).appends (by simp)).bind fun v => ?_
  cases v with
  | none => exact Appends.pure _
  | some v =>
      refine ((call_readOnly _).appends (by simp)).bind fun _ => ?_
      refine Appends.modify fun s hs => ?_
      have hset : g.Extends (s.db.setProperty x (stringID p.key) v) := hs.db.modifyProps hx _
      exact ⟨hset, hs.resultdeletion⟩

theorem setNodeProperties_appends {x : Element} (hx : g.New x) (flag : Bool) (expiration : ℕ)
    (ps : List PMGDProp) : Appends g (setNodeProperties x flag expiration ps) := by
  induction ps generalizing expiration with
  | nil => exact Appends.pure _
  | cons p ps ih => exact (setProperty_appends hx p).bind fun _ => ih _

/-- A node that is added is behind those that were there. -/
theorem dbAddNode_new {s : Handler} (hs : s.Appended g) (tag : StringID) :
    Sat (dbAddNode tag) s (fun n t => t.Appended g ∧ g.New (.node n)) fun _ _ => True := by
  refine Sat.bind (((call_readOnly _).appends (by simp)) s hs) fun _ t ht => ?_
  refine Sat.get_bind (Sat.modify_bind (Sat.pure ⟨⟨ht.db.addNode tag, ht.resultdeletion⟩, ?_⟩))
  exact ht.db.nodes.length_le

theorem dbAddEdge_new {s : Handler} (hs : s.Appended g) (src dst : NodeID) (tag : StringID) :
    Sat (dbAddEdge src dst tag) s (fun e t => t.Appended g ∧ g.New (.edge e)) fun _ _ => True := by
  refine Sat.bind (((call_readOnly _).appends (by simp)) s hs) fun _ t ht => ?_
  refine Sat.get_bind
    (Sat.modify_bind (Sat.pure ⟨⟨ht.db.addEdge src dst tag, ht.resultdeletion⟩, ?_⟩))
  exact ht.db.edges.length_le

theorem fail_appends (code : ErrorCode) (msg : String) : Appends g (fail code msg) :=
  (fail_footprint code msg).appends (by simp)

theorem addNewNode_appends (cn : AddNode) : Appends g (addNewNode cn) := by
  intro s hs
  refine Sat.bind (dbAddNode_new hs _) fun n t ht => ?_
  have hrest : Appends g (do
      when (0 ≤ cn.identifier)
        (modify fun s : Handler => s.cacheNode (toInt cn.identifier) (.ofElement n))
      let expiration ← setNodeProperties (.node n) cn.expirationFlag uninitialisedTime
        cn.node.properties
      when cn.expirationFlag
        (modify fun s : Handler => { s with
          expirationQueue := insertIntoQueue s.expirationQueue ⟨expiration, .node n⟩ })
      setType .nodeID .success
      setInt (n + 1)
      pure (0 : ℤ)) := by
    refine Appends.bind (Appends.when (Appends.modify fun u hu => ⟨hu.db, hu.resultdeletion⟩))
      fun _ => ?_
    refine (setNodeProperties_appends ht.2 _ _ _).bind fun expiration => ?_
    refine Appends.bind (Appends.when (Appends.modify fun u hu => ⟨hu.db, hu.resultdeletion⟩))
      fun _ => ?_
    refine ((setType_footprint _ _).appends (by simp)).bind fun _ => ?_
    exact ((setInt_footprint _).appends (by simp)).bind fun _ => Appends.pure _
  exact hrest t ht.1

/-- **Additions of nodes.** -/
theorem addNode_appends (cn : AddNode) : Appends g (addNode cn) := by
  refine Appends.get_bind fun u => Appends.ite (fail_appends _ _) ?_
  cases cn.queryNode with
  | none => exact addNewNode_appends cn
  | some qn =>
      refine ((queryNode_footprint qn).appends
        (by simp [queryNodeKinds, foundKinds])).bind fun _ => Appends.get_bind fun v => ?_
      refine Appends.ite ?_ (Appends.ite (Appends.pure _) (addNewNode_appends cn))
      exact Appends.bind (Appends.modify fun w hw => ⟨hw.db, hw.resultdeletion⟩) fun _ =>
        Appends.pure _

theorem addEdgeBetween_appends (ce : AddEdge) (acc : ℕ × List EdgeID) (src dst : NodeID) :
    Appends g (addEdgeBetween ce acc src dst) := by
  intro s hs
  refine Sat.bind (dbAddEdge_new hs _ _ _) fun e t ht => ?_
  exact ((Appends.forEach fun p => setProperty_appends ht.2 p).bind fun _ => Appends.pure _) t ht.1

/-- **Additions of edges.** -/
theorem addEdge_appends (ce : AddEdge) : Appends g (addEdge ce) := by
  refine (nodeEdge_footprint.appends (by simp)).bind fun _ => Appends.get_bind fun u => ?_
  refine Appends.ite (fail_appends _ _) ?_
  cases u.cachedNodes (toInt ce.edge.src) with
  | none => exact fail_appends _ _
  | some srcni =>
      cases u.cachedNodes (toInt ce.edge.dst) with
      | none => exact fail_appends _ _
      | some dstni =>
          refine Appends.ite (fail_appends _ _) (Appends.bind ?_ fun acc => ?_)
          · refine Appends.bind (forCached_appends (fun acc n => ?_) _) fun acc => ?_
            · refine Appends.bind (forCached_appends (fun acc m => ?_) _) fun acc => ?_
              · exact addEdgeBetween_appends ce acc n m
              · exact ((resetCached_footprint _).appends (by simp)).bind fun _ => Appends.pure _
            · exact ((resetCached_footprint _).appends (by simp)).bind fun _ => Appends.pure _
          · refine Appends.bind
              (Appends.when (Appends.modify fun w hw => ⟨hw.db, hw.resultdeletion⟩)) fun _ => ?_
            refine ((setType_footprint _ _).appends (by simp)).bind fun _ => ?_
            exact ((setInt_footprint _).appends (by simp)).bind fun _ => Appends.pure _

end Appends

/-! ### Updates -/

/-- Without deletion of the results, nothing is taken away. -/
theorem Does.keeps_elements {K : List Kind} {s t : Handler} (h : Does K s t)
    (hK : .expire ∉ K) (hdel : s.resultdeletion = false) :
    s.db.Keeps t.db ∧ t.resultdeletion = false := by
  refine Does.invariant (P := fun u => s.db.Keeps u.db ∧ u.resultdeletion = false) h
    ⟨.refl _, hdel⟩ ?_
  rintro κ u v hκ he ⟨hkeeps, hdel'⟩
  refine ⟨hkeeps.trans ?_, he.fixed.2.1.trans hdel'⟩
  cases he with
  | addNode tag => exact ((Graph.Extends.refl _).addNode tag).keeps
  | addEdge src dst tag => exact ((Graph.Extends.refl _).addEdge src dst tag).keeps
  | update x f => exact Graph.keeps_modifyProps _ x f
  | @list _ x _ =>
      obtain ⟨l, hl⟩ := list_eq u x
      rw [hl]
      exact .refl _
  | purge hx =>
      rw [Handler.Purges, hdel'] at hx
      exact absurd hx.1 Bool.false_ne_true
  | removeFile | expire => exact absurd hκ hK
  | _ => exact .refl _

theorem moves_keeps {cmd : Command} (hcmd : cmd.cmdId ≠ .deleteExpired) :
    cmd.Moves Graph.Keeps := by
  by_cases htx : cmd.cmdId.isTx = true
  · exact moves_tx Graph.Keeps.refl htx
  · intro s hdel
    refine Sat.mono (dispatch_footprint (Bool.eq_false_iff.2 htx)) (fun _ t ht => ?_)
      fun _ _ _ => trivial
    refine ht.keeps_elements ?_ hdel
    cases hid : cmd.cmdId with
    | deleteExpired => exact absurd hid hcmd
    | _ => decide

theorem moves_extends {cmd : Command}
    (hcmd : cmd.cmdId.isTx = true ∨
      cmd.cmdId ∈ [.queryNode, .queryEdge, .addNode, .addEdge]) : cmd.Moves Graph.Extends := by
  rcases hcmd with htx | hcmd
  · exact moves_tx Graph.Extends.refl htx
  · intro s hdel
    have happended : (s.begin cmd).Appended s.db := ⟨.refl _, hdel⟩
    have happends : Appends s.db (dispatch cmd) := by
      simp only [List.mem_cons, List.not_mem_nil, or_false] at hcmd
      rw [dispatch]
      rcases hcmd with hid | hid | hid | hid
      · rw [hid]
        exact (queryNode_footprint _).appends (by simp [queryNodeKinds, foundKinds])
      · rw [hid]
        exact (queryEdge_footprint _).appends (by simp [queryEdgeKinds, foundKinds])
      · rw [hid]
        exact addNode_appends _
      · rw [hid]
        exact addEdge_appends _
    exact Sat.mono (happends _ happended) (fun _ t ht => ⟨ht.db, ht.resultdeletion⟩) fun _ _ h => h

theorem moves_eq {cmd : Command}
    (hcmd : cmd.cmdId.isTx = true ∨ cmd.cmdId ∈ [.queryNode, .queryEdge]) :
    cmd.Moves Eq := by
  rcases hcmd with htx | hcmd
  · exact moves_tx (fun _ => rfl) htx
  · simp only [List.mem_cons, List.not_mem_nil, or_false] at hcmd
    rcases hcmd with hid | hid
    · exact moves_of_kinds (fun _ => rfl) (by rw [hid]; rfl)
        (by simp [hid, CommandId.kinds, queryNodeKinds, foundKinds])
    · exact moves_of_kinds (fun _ => rfl) (by rw [hid]; rfl)
        (by simp [hid, CommandId.kinds, queryEdgeKinds, foundKinds])

/-! ### Any number of calls -/

/-- A call that does not delete its results, with some kinds of commands only besides those
that open and close the transaction. -/
structure Request.Uses (ids : List CommandId) (r : Request) : Prop where
  resultdeletion : r.resultdeletion = false
  commands : ∀ cmd ∈ r.cmds, cmd.cmdId.isTx = true ∨ cmd.cmdId ∈ ids

/-- **What calls leave alone**, whatever their outcomes and by whatever handlers. Queries
change nothing. Additions change nothing that was there before. Updates take nothing away, and
change no tags and no ends. -/
theorem graph_framed (s t : Handler) :
    (Calls (Request.Uses [.queryNode, .queryEdge]) s t → t.db = s.db) ∧
      (Calls (Request.Uses [.queryNode, .queryEdge, .addNode, .addEdge]) s t →
        s.db.Extends t.db) ∧
      (Calls (Request.Uses [.queryNode, .queryEdge, .addNode, .addEdge, .updateNode,
        .updateEdge]) s t → s.db.Keeps t.db) := by
  refine ⟨fun h => ?_, fun h => ?_, fun h => ?_⟩
  · have hsame : s.db = t.db := h.moves (fun _ => rfl) Eq.trans fun r hr =>
      ⟨hr.resultdeletion, fun cmd hcmd => moves_eq (hr.commands cmd hcmd)⟩
    exact hsame.symm
  · refine h.moves Graph.Extends.refl (fun h h' => h.trans h') fun r hr => ?_
    exact ⟨hr.resultdeletion, fun cmd hcmd => moves_extends (hr.commands cmd hcmd)⟩
  · refine h.moves Graph.Keeps.refl (fun h h' => h.trans h') fun r hr => ?_
    refine ⟨hr.resultdeletion, fun cmd hcmd => moves_keeps fun hid => ?_⟩
    rcases hr.commands cmd hcmd with htx | hmem
    · rw [hid] at htx
      cases htx
    · rw [hid] at hmem
      exact absurd hmem (by decide)

end

/-- A transaction that adds a node with a property. -/
def addAged : Request where
  cmds := [{ cmdId := .txBegin },
    { cmdId := .addNode,
      addNode :=
        { identifier := -1
          node := { properties := [{ type := .integerType, key := "age", intValue := 1 }] } } },
    { cmdId := .txCommit }]
  numGroups := 1
  readonly := false
  resultdeletion := false

/-- The node that was there stays as it was. -/
theorem graph_framed_added : ∃ t : Handler, t.db.nodes.length = 2 ∧
    [some (⟨1, fun _ => none⟩ : Node)] <+: t.db.nodes := by
  let s : Handler := { db := ⟨[some ⟨1, fun _ => none⟩], []⟩ }
  obtain ⟨rs, t, hrun, hnodes⟩ : ∃ rs t, Runs addAged.process s (.ret rs t) ∧
      t.db.nodes.length = 2 := ⟨_, _, Runs.of_ret (n := 4) rfl, rfl⟩
  have huses : addAged.Uses [.queryNode, .queryEdge, .addNode, .addEdge] :=
    ⟨rfl, by decide⟩
  have hcalls := Calls.call .start rfl huses ⟨_, [_], _, rfl, rfl, by decide, rfl⟩ hrun
  exact ⟨t, hnodes, ((graph_framed s t).2.1 hcalls).nodes⟩

end Vdms
