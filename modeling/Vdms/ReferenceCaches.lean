import Vdms.TableScan
import Vdms.Transactions

/-!
# Reference Caches across Transactions

A handler serves one transaction after another. At the end of each, `process_queries`
deletes the node references, but not the edge references: what `add_edge` and `query_edge`
cache under a reference of their own stays, and a later transaction that uses the same
number finds it there.

## Main results

* `addEdge_caches`, `queryEdge_caches`: an operation on edges leaves its reference behind
  exactly if it succeeds.
* `processQuery_publishes`: so does a command.
* `caches_per_transaction`: exactly when the transactions of a session are isolated.
-/

namespace Vdms

open Imp Imp.Prog Platform Relation

/-- There are no references. -/
def Handler.Rested (s : Handler) : Prop :=
  s.cachedNodes = (fun _ => none) ∧ s.cachedEdges = fun _ => none

/-- A handler that has served no transaction yet, in the same world. -/
def Handler.renew (s : Handler) : Handler where
  db := s.db
  expirationQueue := s.expirationQueue
  cleanupFiles := s.cleanupFiles
  removedFiles := s.removedFiles
  now := s.now

/-- Between two transactions the world may change in any way, but nothing happens to the
handler. -/
def Handler.Elapses (s t : Handler) : Prop :=
  t.tx = s.tx ∧ t.cachedNodes = s.cachedNodes ∧ t.cachedEdges = s.cachedEdges

section

variable [Platform] {s t : Handler}

/-! ### What an operation leaves behind -/

/-- From the edge references `c`, an operation with an identifier of its own comes to cache
it exactly if it succeeds. -/
structure Caches (id : ℤ) (c : ℤ → Option ReusableEdgeIterator) (v : ℤ) (t : Handler) :
    Prop where
  cached : 0 ≤ id → v = 0 → (t.cachedEdges (toInt id)).isSome = true
  kept : id < 0 ∨ v ≠ 0 → t.cachedEdges = c

/-- The edge references are `c`. -/
abbrev EdgesAre (c : ℤ → Option ReusableEdgeIterator) (t : Handler) : Prop :=
  t.cachedEdges = c

variable {c : ℤ → Option ReusableEdgeIterator}

theorem Footprint.keeps_edges {α : Type} {K : List Kind} {m : Handling α}
    (hm : Footprint K m) (hK : ∀ κ ∈ K, κ ∉ [Kind.cacheEdge, .stepEdge]) (hs : EdgesAre c s) :
    Sat m s (fun _ => EdgesAre c) fun _ => EdgesAre c :=
  Sat.mono (hm s) (fun _ _ ht => (ht.cachedEdges_eq hK).trans hs)
    fun _ _ ht => (ht.cachedEdges_eq hK).trans hs

omit [Platform] in
theorem fail_caches (code : ErrorCode) (msg : String) (id : ℤ) (hs : EdgesAre c s) :
    Sat (fail code msg) s (Caches id c) fun _ => EdgesAre c :=
  Sat.modify_bind (Sat.pure ⟨fun _ h => absurd h (by decide), fun _ => hs⟩)

/-- An addition of edges. -/
theorem addEdge_caches (ce : AddEdge) (hs : EdgesAre c s) :
    Sat (addEdge ce) s (Caches ce.identifier c) fun _ => EdgesAre c := by
  refine Sat.modify_bind (Sat.get_bind (Sat.ite (fun _ => fail_caches _ _ _ hs) fun _ => ?_))
  split
  · refine Sat.ite (fun _ => fail_caches _ _ _ hs) fun _ => ?_
    refine Sat.bind ((addEdgesBetween_footprint ce _ _).keeps_edges (by simp) hs) ?_
    rintro ⟨eid, added⟩ t ht
    by_cases hid : 0 ≤ ce.identifier
    · simp only [addEdgeFinish, when_pos hid]
      exact Sat.modify_bind (Sat.modify_bind (Sat.modify_bind (Sat.pure
        ⟨fun _ _ => by simp, fun h => absurd rfl (h.resolve_left (by omega))⟩)))
    · simp only [addEdgeFinish, when_neg hid]
      exact Sat.modify_bind (Sat.modify_bind (Sat.pure ⟨fun h => absurd h hid, fun _ => ht⟩))
  · exact fail_caches _ _ _ hs

omit [Platform] in
theorem resetCached_keeps {P : Handler → Prop} (hP : ∀ {u k r}, P u → P (u.cacheNode k r))
    (k : ℤ) (hs : P s) : Sat (resetCached k) s (fun _ => P) fun _ _ => False := by
  refine Sat.bind (P := fun _ => P) (Sat.get_bind ?_) fun r t ht => Sat.modify (hP ht)
  split
  · exact Sat.pure hs
  · exact Sat.stuck

omit [Platform] in
/-- Resetting references raises no exception. -/
theorem resetAll_keeps {P : Handler → Prop} (hP : ∀ {u k r}, P u → P (u.cacheNode k r))
    (ks : List ℤ) (hs : P s) : Sat (resetAll ks) s (fun _ => P) fun _ _ => False :=
  Sat.forEach (fun k _ _ hs => resetCached_keeps hP k hs) hs

section Query

variable {qe : QueryEdge}

theorem queryEdgeFinish_caches (refs : List ℤ)
    (tei : ReusableIterator NodeEdgeIteratorImpl EdgeID) (hs : EdgesAre c s) :
    Sat (queryEdgeFinish qe refs tei) s (Caches qe.identifier c) fun _ => EdgesAre c := by
  have hsort := sortResults_footprint Element.edge NodeEdgeIteratorImpl.footprint qe.results
  have hedge : IterFootprint (.move :: resultKinds) NodeEdgeIteratorImpl.iter :=
    NodeEdgeIteratorImpl.footprint.mono (by simp)
  have hres := reusableResults_footprint Element.edge hedge qe.results
    (ResponseType.kinds_subset _)
  have hall := ReusableIterator.traverseAll_footprint (τ := EdgeID) NodeEdgeIteratorImpl.footprint
  refine Sat.bind ((hsort tei).keeps_edges (by simp) hs) fun tei t ht => ?_
  refine Sat.bind ((hres tei).keeps_edges (by simp [resultKinds]) ht) fun tei u hu => ?_
  by_cases hid : 0 ≤ qe.identifier
  · simp only [cacheEdgeResult, when_pos hid]
    refine Sat.bind (P := fun _ w => (w.cachedEdges (toInt qe.identifier)).isSome = true)
      (Sat.bind ((hall tei).keeps_edges (by simp) hu) fun tei w _ => Sat.modify (by simp))
      fun _ w hw => ?_
    have hreset := resetAll_keeps
      (P := fun w => (w.cachedEdges (toInt qe.identifier)).isSome = true) (fun h => h) refs hw
    refine Sat.bind (Sat.mono hreset (fun _ _ h => h) fun _ _ h => h.elim) fun _ x hx => ?_
    exact Sat.pure ⟨fun _ _ => hx, fun h => absurd rfl (h.resolve_left (by omega))⟩
  · simp only [cacheEdgeResult, when_neg hid]
    refine Sat.bind (P := fun _ => EdgesAre c) (Sat.pure hu) fun _ w hw => ?_
    refine Sat.bind ((resetAll_footprint refs).keeps_edges (by simp) hw) fun _ x hx => ?_
    exact Sat.pure ⟨fun h => absurd h hid, fun _ => hx⟩

theorem setError_resetAll_caches (code : ErrorCode) (msg : String) (refs : List ℤ) (id : ℤ)
    (hs : EdgesAre c s) : Sat (do
        setError code msg
        resetAll refs
        pure (-1)) s (Caches id c) fun _ => EdgesAre c := by
  refine Sat.modify_bind (Sat.bind ((resetAll_footprint refs).keeps_edges (by simp) hs) ?_)
  exact fun _ t ht => Sat.pure ⟨fun _ h => absurd h (by decide), fun _ => ht⟩

theorem queryEdgeReusable_caches (refs : List ℤ) (ei : NodeEdgeIteratorImpl)
    (hs : EdgesAre c s) :
    Sat (queryEdgeReusable qe refs ei) s (Caches qe.identifier c) fun _ => EdgesAre c := by
  have hnext := ReusableIterator.next_footprint (τ := EdgeID) NodeEdgeIteratorImpl.footprint
  refine Sat.bind ((hnext _).keeps_edges (by simp) hs) fun tei t ht => ?_
  refine Sat.ite (fun _ => ?_) fun _ => queryEdgeFinish_caches refs tei ht
  refine Sat.bind ((hnext tei).keeps_edges (by simp) ht) fun tei u hu => ?_
  refine Sat.ite (fun _ => ?_) fun _ => queryEdgeFinish_caches refs _ hu
  exact setError_resetAll_caches _ _ _ _ hu

/-- A query for edges. -/
theorem queryEdge_caches (hs : EdgesAre c s) :
    Sat (queryEdge qe) s (Caches qe.identifier c) fun _ => EdgesAre c := by
  have hedge : IterFootprint (.move :: resultKinds) NodeEdgeIteratorImpl.iter :=
    NodeEdgeIteratorImpl.footprint.mono (by simp)
  refine Sat.modify_bind (Sat.get_bind (Sat.ite (fun _ => fail_caches _ _ _ hs) fun _ => ?_))
  refine Sat.ite (fun _ => fail_caches _ _ _ hs) fun _ => ?_
  refine Sat.bind ((queryEdgeSearch_footprint qe).keeps_edges (by simp) hs) ?_
  rintro ⟨ei, refs⟩ t ht
  refine Sat.ite (fun _ => setError_resetAll_caches _ _ _ _ ht) fun _ => Sat.modify_bind ?_
  refine Sat.ite (fun hnone => ?_) fun _ => queryEdgeReusable_caches refs ei ht
  have hres := buildResults_footprint Element.edge hedge qe.results (ResponseType.kinds_subset _)
  refine Sat.bind ((hres ei).keeps_edges (by simp [resultKinds]) ht) fun _ u hu => ?_
  refine Sat.bind ((resetAll_footprint refs).keeps_edges (by simp) hu) fun _ w hw => ?_
  exact Sat.pure ⟨fun h => absurd (.inl h) hnone, fun _ => hw⟩

end Query

/-! ### What a command leaves behind -/

/-- There are no edge references. -/
abbrev NoEdges (t : Handler) : Prop := EdgesAre (fun _ => none) t

/-- The operation returns 0. -/
def Succeeds (op : Handling ℤ) (s : Handler) : Prop := ∃ t, Runs op s (.ret 0 t)

/-- The operation of a command that may cache an edge reference, if it is given one. -/
def publisher (cmd : Command) : Option (Handling ℤ) :=
  match cmd.cmdId with
  | .addEdge => if 0 ≤ cmd.addEdge.identifier then some (addEdge cmd.addEdge) else none
  | .queryEdge => if 0 ≤ cmd.queryEdge.identifier then some (queryEdge cmd.queryEdge) else none
  | .updateEdge =>
      match cmd.updateEdge.queryEdge with
      | some qe => if 0 ≤ qe.identifier then some (queryEdge qe) else none
      | none => none
  | _ => none

/-- The command adds or finds edges under a reference of its own. -/
def Publishes (cmd : Command) (s : Handler) : Prop :=
  ∃ op, publisher cmd = some op ∧ Succeeds op (s.begin cmd)

omit [Platform] in
/-- An operation with an identifier, from a state without edge references. -/
theorem caches_succeeds {op : Handling ℤ} {id : ℤ} (hid : 0 ≤ id)
    (h : Sat op s (Caches id fun _ => none) fun _ => NoEdges) :
    Sat op s
      (fun _ t => Succeeds op s ∧ (t.cachedEdges (toInt id)).isSome = true ∨
        ¬ Succeeds op s ∧ NoEdges t)
      fun _ t => ¬ Succeeds op s ∧ NoEdges t := by
  refine Sat.mono h.with_run (fun v t => ?_) fun e t => ?_
  · rintro ⟨hcaches, hrun⟩
    by_cases hv : v = 0
    · subst hv
      exact .inl ⟨⟨t, hrun⟩, hcaches.cached hid rfl⟩
    · refine .inr ⟨?_, hcaches.kept (.inr hv)⟩
      rintro ⟨u, hrun'⟩
      have heq := hrun.unique hrun'
      injection heq with heq _
      exact hv heq
  · rintro ⟨hnone, hrun⟩
    refine ⟨?_, hnone⟩
    rintro ⟨u, hrun'⟩
    have heq := hrun.unique hrun'
    cases heq

omit [Platform] in
/-- With a reference there are references. -/
theorem noEdges_iff {p : Prop} {k : ℤ}
    (h : p ∧ (t.cachedEdges k).isSome = true ∨ ¬ p ∧ NoEdges t) : NoEdges t ↔ ¬ p := by
  rcases h with ⟨hp, hsome⟩ | ⟨hp, hnone⟩
  · refine iff_of_false (fun hnone => ?_) (not_not_intro hp)
    rw [show t.cachedEdges = fun _ => none from hnone] at hsome
    cases hsome
  · exact iff_of_true hnone hp

section Dispatch

variable {cmd : Command} {ue : UpdateEdge}

/-- Without a cached reference there is nothing to update. -/
theorem updateEdgeFound_keeps {qe : QueryEdge} (hs : NoEdges s) :
    Sat (updateEdgeFound ue qe) s (fun _ => NoEdges) fun _ => NoEdges := by
  refine Sat.get_bind (Sat.ite (fun _ => Sat.pure hs) fun _ => Sat.ite (fun _ => ?_) fun _ => ?_)
  · refine Sat.get_bind ?_
    rw [show s.cachedEdges = fun _ => none from hs]
    exact Sat.stuck
  · exact Sat.modify_bind (Sat.pure hs)

omit [Platform] in
theorem not_cached (hs : NoEdges s) (id : ℤ) :
    ¬ (0 ≤ id ∧ (s.cachedEdges (toInt id)).isSome) := by
  rw [show s.cachedEdges = fun _ => none from hs]
  simp

/-- An update of edges whose query is not given a reference. -/
theorem updateEdge_keeps (hs : NoEdges s) (hue : ∀ qe ∈ ue.queryEdge, qe.identifier < 0) :
    Sat (updateEdge ue) s (fun _ => NoEdges) fun _ => NoEdges := by
  refine Sat.get_bind (Sat.ite (fun h => absurd h (not_cached hs _)) fun _ => ?_)
  cases hquery : ue.queryEdge with
  | none => exact Sat.modify_bind (Sat.pure hs)
  | some qe =>
      refine Sat.bind (Sat.mono (queryEdge_caches hs) (fun _ _ h => h.kept (.inl ?_))
        fun _ _ h => h) fun _ t ht => updateEdgeFound_keeps ht
      exact hue qe hquery

/-- An update of edges whose query is given a reference: the query leaves the reference
behind if it succeeds, whatever becomes of the update. -/
theorem updateEdge_publishes {qe : QueryEdge} (hs : NoEdges s) (hqe : 0 ≤ qe.identifier)
    (hquery : ue.queryEdge = some qe) :
    Sat (updateEdge ue) s (fun _ t => NoEdges t ↔ ¬ Succeeds (queryEdge qe) s)
      fun _ t => NoEdges t ↔ ¬ Succeeds (queryEdge qe) s := by
  refine Sat.get_bind (Sat.ite (fun h => absurd h (not_cached hs _)) fun _ => ?_)
  simp only [hquery]
  refine Sat.bind (Sat.mono (caches_succeeds hqe (queryEdge_caches hs)) (fun _ _ h => h)
    fun _ t h => noEdges_iff (k := toInt qe.identifier) (.inr h)) fun _ t ht => ?_
  rcases ht with ⟨hsucc, hsome⟩ | ⟨hfail, hnone⟩
  · have hkeeps : ∀ {u}, Does updateEdgesKinds t u → (NoEdges u ↔ ¬ Succeeds (queryEdge qe) s) :=
      fun h => noEdges_iff (.inl ⟨hsucc, h.cachedEdges_isSome hsome⟩)
    exact Sat.mono (updateEdgeFound_footprint ue qe t) (fun _ _ => hkeeps) fun _ _ => hkeeps
  · exact Sat.mono (updateEdgeFound_keeps hnone) (fun _ _ h => iff_of_true h hfail)
      fun _ _ h => iff_of_true h hfail

/-- A command that is not given an edge reference. -/
theorem dispatch_keeps (hs : NoEdges s) (hcmd : publisher cmd = none) :
    Sat (dispatch cmd) (s.begin cmd) (fun _ => NoEdges) fun _ => NoEdges := by
  have hs : NoEdges (s.begin cmd) := hs
  have htx : cmd.cmdId.isTx = true →
      Sat (dispatch cmd) (s.begin cmd) (fun _ => NoEdges) fun _ => NoEdges := fun hid => by
    have hkeeps : ∀ {t : Handler}, (∃ tx r, t = { s.begin cmd with tx := tx, response := r }) →
        NoEdges t := by
      rintro t ⟨tx, r, rfl⟩
      exact hs
    exact Sat.mono (dispatch_tx hid) (fun _ _ => hkeeps) fun _ _ => hkeeps
  have hkinds : cmd.cmdId.isTx = false →
      (∀ κ ∈ cmd.cmdId.kinds, κ ∉ [Kind.cacheEdge, .stepEdge]) →
      Sat (dispatch cmd) (s.begin cmd) (fun _ => NoEdges) fun _ => NoEdges := fun hid hK =>
    Sat.mono (dispatch_footprint hid) (fun _ _ h => (h.cachedEdges_eq hK).trans hs)
      fun _ _ h => (h.cachedEdges_eq hK).trans hs
  simp only [publisher] at hcmd
  cases hid : cmd.cmdId
  case addEdge =>
    simp only [hid, ite_eq_right_iff, reduceCtorEq, imp_false] at hcmd
    simp only [dispatch, hid]
    exact Sat.mono (addEdge_caches _ hs) (fun _ _ h => h.kept (.inl (by omega)))
      fun _ _ h => h
  case queryEdge =>
    simp only [hid, ite_eq_right_iff, reduceCtorEq, imp_false] at hcmd
    simp only [dispatch, hid]
    exact Sat.mono (queryEdge_caches hs) (fun _ _ h => h.kept (.inl (by omega)))
      fun _ _ h => h
  case updateEdge =>
    simp only [hid] at hcmd
    simp only [dispatch, hid]
    refine Sat.bind (updateEdge_keeps hs fun qe hqe => ?_) fun _ t ht => Sat.pure ht
    simp only [Option.mem_def.1 hqe, ite_eq_right_iff, reduceCtorEq, imp_false] at hcmd
    omega
  case txBegin | txCommit | txAbort => exact htx (by rw [hid]; rfl)
  all_goals
    refine hkinds (by rw [hid]; rfl) ?_
    rw [hid]
    simp [CommandId.kinds, addNodeKinds, updateNodeKinds, queryNodeKinds, foundKinds]

/-- **A command** that starts without edge references leaves one behind exactly if it adds
or finds edges under a reference of its own. -/
theorem dispatch_publishes (hs : NoEdges s) :
    Sat (dispatch cmd) (s.begin cmd) (fun _ t => NoEdges t ↔ ¬ Publishes cmd s)
      fun _ t => NoEdges t ↔ ¬ Publishes cmd s := by
  have hbegin : NoEdges (s.begin cmd) := hs
  cases hcmd : publisher cmd with
  | none =>
      have hnot : ¬ Publishes cmd s := by
        rintro ⟨op, hop, -⟩
        rw [hcmd] at hop
        cases hop
      exact Sat.mono (dispatch_keeps hs hcmd) (fun _ _ h => iff_of_true h hnot)
        fun _ _ h => iff_of_true h hnot
  | some op =>
      have hpub : Publishes cmd s ↔ Succeeds op (s.begin cmd) := by
        constructor
        · rintro ⟨op', hop, hsucc⟩
          rw [hcmd] at hop
          injection hop with hop
          rwa [hop]
        · exact fun hsucc => ⟨op, hcmd, hsucc⟩
      rw [hpub]
      rw [publisher] at hcmd
      rw [dispatch]
      cases hid : cmd.cmdId <;> rw [hid] at hcmd
      case addEdge =>
        simp only [Option.ite_none_right_eq_some, Option.some.injEq] at hcmd
        obtain ⟨hid, rfl⟩ := hcmd
        exact Sat.mono (caches_succeeds hid (addEdge_caches _ hbegin))
          (fun _ _ h => noEdges_iff h) fun _ _ h => noEdges_iff (k := 0) (.inr h)
      case queryEdge =>
        simp only [Option.ite_none_right_eq_some, Option.some.injEq] at hcmd
        obtain ⟨hid, rfl⟩ := hcmd
        exact Sat.mono (caches_succeeds hid (queryEdge_caches hbegin))
          (fun _ _ h => noEdges_iff h) fun _ _ h => noEdges_iff (k := 0) (.inr h)
      case updateEdge =>
        cases hquery : cmd.updateEdge.queryEdge with
        | none =>
            simp only [hquery] at hcmd
            cases hcmd
        | some qe =>
            simp only [hquery, Option.ite_none_right_eq_some, Option.some.injEq] at hcmd
            obtain ⟨hid, rfl⟩ := hcmd
            refine Sat.bind (updateEdge_publishes hbegin hid hquery) fun _ t ht => Sat.pure ht
      all_goals cases hcmd

theorem processQuery_publishes {v : ℤ} (hs : NoEdges s)
    (h : Runs (processQuery cmd) s (.ret v t)) : NoEdges t ↔ ¬ Publishes cmd s :=
  (processQuery_sat (Q := fun _ t => NoEdges t ↔ ¬ Publishes cmd s) (dispatch_publishes hs)
    fun _ _ ht => ht).ret h

/-- A reference that is there stays there, whatever the command does. -/
theorem dispatch_isSome {k : ℤ} (hs : (s.cachedEdges k).isSome = true) :
    Sat (dispatch cmd) (s.begin cmd) (fun _ t => (t.cachedEdges k).isSome = true)
      fun _ t => (t.cachedEdges k).isSome = true := by
  cases hcmd : cmd.cmdId.isTx with
  | false =>
      have hfoot := dispatch_footprint (s := s) hcmd
      exact Sat.mono hfoot (fun _ _ h => h.cachedEdges_isSome hs)
        fun _ _ h => h.cachedEdges_isSome hs
  | true =>
      have hkeeps : ∀ {t : Handler}, (∃ tx r, t = { s.begin cmd with tx := tx, response := r }) →
          (t.cachedEdges k).isSome = true := by
        rintro t ⟨tx, r, rfl⟩
        exact hs
      exact Sat.mono (dispatch_tx hcmd) (fun _ _ => hkeeps) fun _ _ => hkeeps

theorem processQuery_isSome {k v : ℤ} (hs : (s.cachedEdges k).isSome = true)
    (h : Runs (processQuery cmd) s (.ret v t)) : (t.cachedEdges k).isSome = true :=
  (processQuery_sat (Q := fun _ t => (t.cachedEdges k).isSome = true) (dispatch_isSome hs)
    fun _ _ ht => ht).ret h

end Dispatch

/-! ### Transactions -/

/-- No command of the transaction adds or finds edges under a reference of its own. -/
def Unpublished (cmds : List Command) (s : Handler) : Prop :=
  EachCommand (fun cmd s => ¬ Publishes cmd s) cmds s

/-- A transaction that is given no edge reference publishes none. -/
theorem unpublished_of_publisher {cmds : List Command}
    (h : ∀ cmd ∈ cmds, publisher cmd = none) : Unpublished cmds s := by
  refine eachCommand_of_forall fun cmd hcmd s => ?_
  rintro ⟨op, hop, -⟩
  rw [h cmd hcmd] at hop
  cases hop

/-- A reference left behind by one command is there at the end. Induction on the
commands. -/
theorem processCommands_isSome {k : ℤ} {cmds : List Command} {rs rs' : Responses}
    (hs : (s.cachedEdges k).isSome = true)
    (h : Runs (processCommands rs cmds) s (.ret rs' t)) : (t.cachedEdges k).isSome = true := by
  let There (_ : Responses) (t : Handler) : Prop := (t.cachedEdges k).isSome = true
  refine processCommands_ret (P := fun _ _ => True) (I := There) (Q := There) ?_ ?_
    (fun h => h) (fun _ _ _ _ => trivial) hs h
  · intro _ cmd s v t hs _ hrun _
    have ht := processQuery_isSome hs hrun
    exact ht
  · intro _ cmd s v t hs _ hrun _
    have ht := processQuery_isSome hs hrun
    exact ht

omit [Platform] in
theorem isSome_of_not_noEdges (h : ¬ NoEdges t) : ∃ k, (t.cachedEdges k).isSome = true := by
  by_contra hnone
  refine h (funext fun k => ?_)
  by_contra hk
  exact hnone ⟨k, Option.isSome_iff_ne_none.2 hk⟩

/-- **The commands of a transaction.** They leave no edge reference behind exactly if none of
them does. Induction on the commands. -/
theorem processCommands_publishes {cmds : List Command} {rs rs' : Responses} (hs : NoEdges s)
    (h : Runs (processCommands rs cmds) s (.ret rs' t)) : NoEdges t ↔ Unpublished cmds s := by
  induction cmds generalizing rs s with
  | nil =>
      obtain ⟨-, rfl⟩ := processCommands_nil_inv h
      exact iff_of_true hs eachCommand_nil
  | cons cmd cmds ih =>
      obtain ⟨v, u, hquery, hrest⟩ := processCommands_cons_inv h
      have hpub := processQuery_publishes hs hquery
      rw [Unpublished, eachCommand_cons]
      by_cases hu : NoEdges u
      · obtain ⟨hv, -, rfl⟩ | ⟨hv, -, hrest⟩ := hrest
        · refine iff_of_true hu ⟨hpub.1 hu, fun v' u' hquery' hv' => ?_⟩
          have heq := hquery.unique hquery'
          injection heq with heq _
          omega
        · refine (ih (s := u.advance) hu hrest).trans ⟨fun h => ⟨hpub.1 hu, ?_⟩, fun h => ?_⟩
          · intro v' u' hquery' _
            have heq := hquery.unique hquery'
            injection heq with _ heq
            rwa [← heq]
          · exact h.2 v u hquery hv
      · refine iff_of_false ?_ fun h => hu (hpub.2 h.1)
        obtain ⟨k, hk⟩ := isSome_of_not_noEdges hu
        have hend : (t.cachedEdges k).isSome = true := by
          obtain ⟨-, -, rfl⟩ | ⟨-, -, hrest⟩ := hrest
          · exact hk
          · exact processCommands_isSome (s := u.advance) hk hrest
        intro hnone
        rw [show t.cachedEdges = fun _ => none from hnone] at hend
        cases hend

/-! ### Sessions -/

/-- A transaction that a handler has served. -/
structure Served where
  request : Request
  before : Handler
  responses : Responses
  after : Handler
  runs : Runs request.process before (.ret responses after)

/-- The transactions that one handler has served, the last first, and the state in which
this has left it. -/
inductive Session : List Served → Handler → Prop
  | start {s : Handler} : s.tx = none → s.Rested → Session [] s
  | serve {served : List Served} {s : Handler} (x : Served) : Session served s →
      s.Elapses x.before → Session (x :: served) x.after

/-- The transaction left no references behind, and it was answered and carried out as a
handler would have that has served no other. -/
def Served.Isolated (x : Served) : Prop :=
  x.after.Rested ∧ ∃ t, Runs x.request.process x.before.renew (.ret x.responses t) ∧
    t.db = x.after.db

/-- What a transaction does does not depend on the last response. -/
theorem processCommands_response {cmd : Command} {cmds : List Command} {rs rs' : Responses}
    {r : Response} (h : Runs (processCommands rs (cmd :: cmds)) s (.ret rs' t)) :
    Runs (processCommands rs (cmd :: cmds)) { s with response := r } (.ret rs' t) := h

/-- Without references, a handler serves a transaction as a new one would. -/
theorem served_alone (x : Served) (hrested : x.before.Rested) :
    ∃ t, Runs x.request.process x.before.renew (.ret x.responses t) ∧ t.db = x.after.db := by
  obtain ⟨htx, u, hafter, hrun⟩ := processQueries_inv x.runs
  obtain ⟨hnodes, hedges⟩ := hrested
  have hopens : x.request.opens x.before.renew =
      { x.request.opens x.before with response := {} } := by
    simp only [Request.opens, Handler.opened, Handler.renew, htx, hnodes, hedges]
  cases hcmds : x.request.cmds with
  | nil =>
      rw [hcmds] at hrun
      obtain ⟨hrs, rfl⟩ := processCommands_nil_inv hrun
      refine ⟨_, processQueries_runs (u := x.request.opens x.before.renew) rfl ?_, ?_⟩
      · rw [hcmds, hrs]
        exact Runs.of_eq fun _ => rfl
      · have hbefore : (x.request.opens x.before).tx = none := htx
        rw [hafter, hopens]
        simp only [Handler.closed, Handler.endTransaction, hbefore]
  | cons cmd cmds =>
      refine ⟨_, processQueries_runs (u := u) rfl ?_, by rw [hafter]⟩
      rw [hopens, hcmds]
      rw [hcmds] at hrun
      exact processCommands_response hrun

theorem served_rested_iff (x : Served) (hrested : x.before.Rested) :
    x.after.Rested ↔ Unpublished x.request.cmds (x.request.opens x.before) := by
  obtain ⟨-, u, hafter, hrun⟩ := processQueries_inv x.runs
  have hpub := processCommands_publishes (s := x.request.opens x.before) hrested.2 hrun
  rw [← hpub, hafter, Handler.Rested, Handler.closed_cachedEdges]
  exact and_iff_right (Handler.closed_cachedNodes u)

theorem Session.rested {served : List Served} (h : Session served s)
    (hall : ∀ x ∈ served, x.Isolated) : s.Rested := by
  cases h with
  | start _ hrested => exact hrested
  | serve x _ _ => exact (hall x (List.mem_cons_self ..)).1

/-- **Reference caches per transaction.** In every session, all transactions are isolated
exactly if no command of any of them adds or finds edges under a reference of its own. -/
theorem caches_per_transaction {served : List Served} (h : Session served s) :
    (∀ x ∈ served, x.Isolated) ↔
      ∀ x ∈ served, Unpublished x.request.cmds (x.request.opens x.before) := by
  induction h with
  | start _ _ => simp
  | @serve served u x hsession helapses ih =>
      have hrested : (∀ x ∈ served, x.Isolated) → x.before.Rested := fun hall => by
        obtain ⟨hnodes, hedges⟩ := hsession.rested hall
        exact ⟨helapses.2.1.trans hnodes, helapses.2.2.trans hedges⟩
      simp only [List.forall_mem_cons]
      constructor
      · rintro ⟨hx, hall⟩
        exact ⟨(served_rested_iff x (hrested hall)).1 hx.1, ih.1 hall⟩
      · rintro ⟨hx, hall⟩
        have hrested := hrested (ih.2 hall)
        exact ⟨⟨(served_rested_iff x hrested).2 hx, served_alone x hrested⟩, ih.2 hall⟩

end

/-- A request that adds a node and, under a reference or not, an edge from it to itself. -/
def addLoop (ident : ℤ) : Request where
  cmds := [{ cmdId := .txBegin }, { cmdId := .addNode, addNode := { identifier := 1 } },
    { cmdId := .addEdge, addEdge := { identifier := ident, edge := { src := 1, dst := 1 } } },
    { cmdId := .txCommit }]
  numGroups := 1
  readonly := false
  resultdeletion := false

/-- Without a reference for the edge the session is isolated. -/
theorem caches_per_transaction_unpublished : ∃ x : Served, x.request = addLoop (-1) ∧
    x.Isolated := by
  obtain ⟨rs, t, hrun⟩ : ∃ rs t, Runs (addLoop (-1)).process { db := ⟨[], []⟩ } (.ret rs t) :=
    ⟨_, _, Runs.of_ret (n := 2) rfl⟩
  let x : Served := ⟨addLoop (-1), _, rs, t, hrun⟩
  have hsession : Session [x] t :=
    .serve x (.start (s := x.before) rfl ⟨rfl, rfl⟩) ⟨rfl, rfl, rfl⟩
  refine ⟨x, rfl, (caches_per_transaction hsession).2 (fun y hy => ?_) x (List.mem_singleton.2 rfl)⟩
  rw [List.mem_singleton.1 hy]
  exact unpublished_of_publisher (by simp [x, addLoop, publisher])

/-- **A reference left behind.** The edge reference is there after the transaction. -/
theorem caches_left_behind : ∃ served s, Session served s ∧ ¬ ∀ x ∈ served, x.Isolated := by
  obtain ⟨rs, t, hrun, hcached⟩ : ∃ rs t, Runs (addLoop 8).process { db := ⟨[], []⟩ }
      (.ret rs t) ∧ (t.cachedEdges 8).isSome = true := ⟨_, _, Runs.of_ret (n := 2) rfl, rfl⟩
  let x : Served := ⟨addLoop 8, _, rs, t, hrun⟩
  refine ⟨[x], t, .serve x (.start (s := x.before) rfl ⟨rfl, rfl⟩) ⟨rfl, rfl, rfl⟩, fun h => ?_⟩
  have hedges := (h x (List.mem_singleton.2 rfl)).1.2
  rw [show t.cachedEdges = fun _ => none from hedges] at hcached
  cases hcached

end Vdms
