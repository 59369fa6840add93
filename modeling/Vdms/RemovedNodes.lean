import Vdms.LiveReferences
import Vdms.Transactions

/-!
# A Transaction Never Works on a Removed Node

Commands other than queries for nodes and `DeleteExpired` remove no node, and cache only
the nodes they add. With the result for queries this gives the law for whole transactions,
and the two commands that break it: a query that lists what it caches while the transaction
deletes its results, and `DeleteExpired` on a node that a reference holds.

## Main results

* `dispatch_live`: a command that spares the references keeps them live.
* `references_live`: so does a transaction of such commands, at every point of its run.
* `purged_reference_dangles`: a query that deletes what it caches.
-/

namespace Vdms

open Imp Imp.Prog Platform Relation

/-! ### Graphs that keep their nodes -/

namespace Graph

/-- The second graph has the nodes of the first, and no edge with other ends. -/
structure Retains (g g' : Graph) : Prop where
  has : ∀ n, g.Has n → g'.Has n
  edge : ∀ e ed', g'.edge e = some ed' →
    ∃ ed, g.edge e = some ed ∧ ed'.src = ed.src ∧ ed'.dst = ed.dst

variable {g g' : Graph} {n : NodeID}

theorem Retains.closed (h : g.Retains g') (hg : g.Closed) : g'.Closed := by
  intro e ed' he
  obtain ⟨ed, hed, hsrc, hdst⟩ := h.edge e ed' he
  rw [hsrc, hdst]
  exact ⟨h.has _ (hg e ed hed).1, h.has _ (hg e ed hed).2⟩

theorem has_addNode (tag : StringID) (h : g.Has n) : (g.addNode tag).Has n := by
  have hlt : n < g.nodes.length := by
    by_contra hge
    rw [Has, node, List.getElem?_eq_none (Nat.le_of_not_lt hge)] at h
    cases h
  rw [Has, addNode, node] at *
  rwa [List.getElem?_append_left hlt]

theorem has_addNode_self (g : Graph) (tag : StringID) : (g.addNode tag).Has g.nodes.length := by
  simp [Has, addNode, node]

theorem retains_addNode (g : Graph) (tag : StringID) : g.Retains (g.addNode tag) :=
  ⟨fun _ hn => has_addNode tag hn, fun _ ed' he => ⟨ed', he, rfl, rfl⟩⟩

theorem retains_modifyProps (g : Graph) (x : Element) (f : Props → Props) :
    g.Retains (g.modifyProps x f) := by
  cases x with
  | node m =>
      refine ⟨fun n hn => ?_, fun _ ed' he => ⟨ed', he, rfl, rfl⟩⟩
      rw [Has, node, modifyProps] at *
      rw [List.getElem?_modify]
      by_cases hmn : m = n
      · rcases h : g.nodes[n]? with - | (- | nd)
        · simp [h] at hn
        · simp [h] at hn
        · simp [hmn]
      · simpa [hmn] using hn
  | edge m =>
      refine ⟨fun n hn => hn, fun e ed' he => ?_⟩
      rw [edge, modifyProps] at *
      rw [List.getElem?_modify] at he
      by_cases hme : m = e
      · rcases h : g.edges[e]? with - | (- | ed)
        · simp [h] at he
        · simp [h, hme] at he
        · have he : ({ ed with props := f ed.props } : Edge) = ed' := by
            simpa [h, hme] using he
          exact ⟨ed, by simp, by rw [← he], by rw [← he]⟩
      · exact ⟨ed', by simpa [hme] using he, rfl, rfl⟩

theorem retains_removeEdge (g : Graph) (e : EdgeID) : g.Retains (g.removeEdge e) := by
  refine ⟨fun n hn => hn, fun e' ed' he => ?_⟩
  have hne : e' ≠ e := by
    rintro rfl
    rw [edge, removeEdge] at he
    by_cases hlt : e' < g.edges.length
    · simp [hlt] at he
    · simp [hlt] at he
  rw [edge, removeEdge] at *
  rw [List.getElem?_set_ne (Ne.symm hne)] at he
  exact ⟨ed', he, rfl, rfl⟩

theorem Closed.addEdge (h : g.Closed) {src dst : NodeID} (hsrc : g.Has src) (hdst : g.Has dst)
    (tag : StringID) : (g.addEdge src dst tag).Closed := by
  intro e ed he
  have he : (g.edges ++ [some ⟨src, dst, tag, fun _ => none⟩])[e]?.join = some ed := he
  by_cases hlt : e < g.edges.length
  · rw [List.getElem?_append_left hlt] at he
    exact h e ed he
  · rw [List.getElem?_append_right (Nat.le_of_not_lt hlt)] at he
    rcases hsub : e - g.edges.length with - | k
    · rw [hsub] at he
      obtain rfl : (⟨src, dst, tag, fun _ => none⟩ : Edge) = ed := by simpa using he
      exact ⟨hsrc, hdst⟩
    · rw [hsub] at he
      simp at he

end Graph

section

variable [Platform]

/-! ### Steps that remove no node -/

/-- The references are live, and no node has gone. -/
def Handler.Grows (s t : Handler) : Prop := t.Live ∧ ∀ n, s.db.Has n → t.db.Has n

/-- The kinds of steps that neither remove a node nor hold a new one. -/
def safeKinds : List Kind :=
  [.respond, .report .error, .report .success, .report .empty, .report .notUnique,
    .enter, .queue, .move, .cacheEdge, .stepEdge, .update, .list]

section Steps

variable {s t u : Handler} {K : List Kind}

omit [Platform] in
theorem Handler.Live.grows (h : s.Live) : s.Grows s := ⟨h, fun _ hn => hn⟩

omit [Platform] in
theorem Handler.Grows.trans (h : s.Grows t) (h' : t.Grows u) : s.Grows u :=
  ⟨h'.1, fun n hn => h'.2 n (h.2 n hn)⟩

omit [Platform] in
/-- The same references, over a graph with the same nodes or more. -/
theorem Handler.Live.retains (h : s.Live) (hnodes : t.cachedNodes = s.cachedNodes)
    (hdb : s.db.Retains t.db) : s.Grows t := by
  refine ⟨⟨hdb.closed h.closed, fun k r hk => ?_⟩, hdb.has⟩
  rw [hnodes] at hk
  have hr := h.refs k r hk
  exact ⟨fun n hn => hdb.has n (hr.held n hn), hr.forNodes⟩

variable [Platform.Fresh]

theorem Effect.grows {κ : Kind} (h : Effect κ s t) (hκ : κ ∈ safeKinds) (hs : s.Live) :
    s.Grows t := by
  have hsame : ∀ {t : Handler}, t.db = s.db → t.Live → s.Grows t := fun hdb ht =>
    ⟨ht, fun n hn => by rwa [hdb]⟩
  cases h with
  | @next _ k r r' n hr hnext =>
      have hlive := ReusableIterator.next_live ⟨.refl _, hs.closed⟩ (hs.refs k r hr) n
      rw [hnext] at hlive
      exact hsame rfl (hs.cacheNode hlive.2.1 k)
  | @reset _ k r hr => exact hsame rfl (hs.cacheNode (hs.refs k r hr).reset k)
  | @list _ x _ =>
      obtain ⟨l, hl⟩ := list_eq s x
      rw [hl]
      exact hsame rfl ⟨hs.closed, hs.refs⟩
  | update x f => exact hs.retains rfl (Graph.retains_modifyProps s.db x f)
  | cacheNode | addNode | addEdge | purge | removeFile | expire => simp [safeKinds] at hκ
  | _ => exact hsame rfl ⟨hs.closed, hs.refs⟩

theorem Does.grows (h : Does K s t) (hK : K ⊆ safeKinds) (hs : s.Live) : s.Grows t :=
  h.invariant (P := fun t => s.Grows t) hs.grows fun hκ he ht =>
    ht.trans (he.grows (hK hκ) ht.1)

theorem Footprint.grows {α : Type} {m : Handling α} (hm : Footprint K m) (hs : s.Live)
    (hK : K ⊆ safeKinds) : Ensures m s fun _ t => s.Grows t :=
  Sat.mono (hm s) (fun _ _ ht => ht.grows hK hs) fun _ _ _ => trivial

theorem Footprint.live {α : Type} {m : Handling α} (hm : Footprint K m) (hs : s.Live)
    (hK : K ⊆ safeKinds) : Ensures m s fun _ t => t.Live :=
  Ensures.mono (hm.grows hs hK) fun _ _ ht => ht.1

end Steps

/-! ### Additions and updates -/

section Commands

variable {s : Handler} [Platform.Fresh]

omit [Platform.Fresh] in
theorem dbAddNode_live (tag : StringID) (hs : s.Live) :
    Ensures (dbAddNode tag) s fun n t => t.Live ∧ t.db.Has n := by
  refine Reads.bind (call_reads _) fun _ _ => Sat.get_bind (Sat.modify_bind (Sat.pure ?_))
  have hgrows := hs.retains (t := s.setDb (s.db.addNode tag)) rfl
    (Graph.retains_addNode s.db tag)
  exact ⟨hgrows.1, Graph.has_addNode_self s.db tag⟩

theorem addNewNode_live (cn : AddNode) (hs : s.Live) :
    Ensures (addNewNode cn) s fun _ t => t.Live := by
  refine Sat.bind (dbAddNode_live _ hs) fun n t ht => ?_
  refine Sat.bind (P := fun _ u => u.Live) ?_ fun _ u hu => ?_
  · refine Sat.ite (fun _ => Sat.modify ?_) fun _ => Sat.pure ht.1
    exact ht.1.cacheNode (ReusableIterator.Live.ofElement ht.2) _
  refine Footprint.live (K := [.respond, .report .success, .enter, .update]) ?_ hu
    (by simp [safeKinds])
  refine Footprint.bind ((setNodeProperties_footprint _ _ _ _).mono (by simp)) fun time => ?_
  refine Footprint.bind (Footprint.when ?_) fun _ => ?_
  · exact Footprint.modify (κ := .enter) (by simp) fun _ => .enter _
  · refine Footprint.bind ((setType_footprint _ _).mono (by simp)) fun _ => ?_
    exact ((setInt_footprint _).mono (by simp)).bind fun _ => Footprint.pure _

/-- Loops over a live reference. -/
theorem forCached_grows {α : Type} {k : ℤ} {f : α → NodeID → Handling α} (s₀ : Handler)
    (hf : ∀ a n t, s₀.Grows t → t.db.Has n → Ensures (f a n) t fun _ u => s₀.Grows u) (a : α)
    (hs : s₀.Grows s) : Ensures (forCached k f a) s fun _ t => s₀.Grows t := by
  refine Sat.loop (fun _ t => s₀.Grows t) (fun a t ht => ?_) hs
  refine Reads.bind (cachedNode_reads k) fun r hr => Sat.ite (fun _ => ?_) fun _ => Sat.pure ht
  have hread : Reads r.ref t fun n => t.db.Has n := by
    rw [ReusableIterator.ref]
    cases hrest : r.rest with
    | nil => exact Sat.throw trivial
    | cons n l =>
        have hmem : n ∈ r.traversed := by simp [ReusableIterator.traversed, hrest]
        exact Reads.pure ((ht.1.refs k r hr).held n (.inl hmem))
  refine Reads.bind hread fun n hn => Sat.bind (hf a n t ht hn) fun a' u hu => ?_
  refine Sat.bind ((nextCached_footprint k).grows hu.1 (by simp [safeKinds])) fun _ v hv => ?_
  exact Sat.pure (hu.trans hv)

theorem addEdgeBetween_grows (ce : AddEdge) (acc : ℕ × List EdgeID) {src dst : NodeID}
    (hs : s.Live) (hsrc : s.db.Has src) (hdst : s.db.Has dst) :
    Ensures (addEdgeBetween ce acc src dst) s fun _ t => s.Grows t := by
  refine Sat.bind (P := fun _ t => s.Grows t) ?_ fun e t ht => ?_
  · refine Reads.bind (call_reads _) fun _ _ => Sat.get_bind (Sat.modify_bind (Sat.pure ?_))
    refine ⟨⟨hs.closed.addEdge hsrc hdst _, fun k r hk => ?_⟩, fun _ hn => hn⟩
    have hr := hs.refs k r hk
    exact ⟨hr.held, hr.forNodes⟩
  · have hprops : Footprint [.update] (do
        forEach ce.edge.properties fun p => setProperty (.edge e) p
        pure (e + 1, acc.2 ++ [e])) :=
      (Footprint.forEach fun p => setProperty_footprint _ p).bind fun _ => Footprint.pure _
    exact Ensures.mono (hprops.grows ht.1 (by simp [safeKinds])) fun _ _ hu => ht.trans hu

theorem addEdgesBetween_live (ce : AddEdge) (src dst : ℤ) (hs : s.Live) :
    Ensures (addEdgesBetween ce src dst) s fun _ t => t.Live := by
  have hreset : ∀ (k : ℤ) (acc : ℕ × List EdgeID), Footprint [.move] (do
      resetCached k
      pure acc) := fun k acc => (resetCached_footprint k).bind fun _ => Footprint.pure _
  refine Sat.bind (forCached_grows s (fun acc n t ht hn => ?_) _ hs.grows)
    fun acc t ht => (hreset src acc).live ht.1 (by simp [safeKinds])
  -- Within a pass the node of the outer loop stays.
  refine Sat.bind (forCached_grows t (fun acc m u hu hm => ?_) acc ht.1.grows)
    fun acc u hu => ?_
  · exact Ensures.mono (addEdgeBetween_grows ce acc hu.1 (hu.2 n hn) hm) fun _ _ hv => hu.trans hv
  · refine Ensures.mono ((hreset dst acc).grows hu.1 (by simp [safeKinds])) fun _ v hv => ?_
    exact ht.trans (hu.trans hv)

theorem addEdge_live (ce : AddEdge) (hs : s.Live) :
    Ensures (addEdge ce) s fun _ t => t.Live := by
  have hfail : ∀ {code} msg {t : Handler}, t.Live → [Kind.report code] ⊆ safeKinds →
      Ensures (fail code msg) t fun _ u => u.Live := fun msg _ ht h =>
    (fail_footprint _ msg).live ht h
  refine Sat.modify_bind ?_
  have ht := live_modifyResponse hs fun r => { r with nodeEdge := false }
  refine Sat.get_bind (Sat.ite (fun _ => hfail _ ht (by simp [safeKinds])) fun _ => ?_)
  split
  next srcni dstni _ _ =>
    refine Sat.ite (fun _ => hfail _ ht (by simp [safeKinds])) fun _ => ?_
    refine Sat.bind (addEdgesBetween_live ce _ _ ht) fun p u hu => ?_
    refine Sat.bind (P := fun _ v => v.Live) ?_ fun _ v hv => ?_
    · exact Sat.ite (fun _ => Sat.modify ⟨hu.closed, hu.refs⟩) fun _ => Sat.pure hu
    · have hanswer : Footprint [.respond, .report .success] (do
          setType .edgeID .success
          setInt p.1
          pure 0 : Handling ℤ) := by
        refine Footprint.bind ((setType_footprint _ _).mono (by simp)) fun _ => ?_
        exact ((setInt_footprint _).mono (by simp)).bind fun _ => Footprint.pure _
      exact hanswer.live hv (by simp [safeKinds])
  next => exact hfail _ ht (by simp [safeKinds])

/-! ### Searches for edges -/

/-- A search for edges keeps the references live. -/
theorem NodeEdgeIteratorImpl.keeps_live :
    NodeEdgeIteratorImpl.iter.Keeps Handler.Live (fun _ _ => True) (fun _ _ => True)
      fun _ _ => True where
  refl _ := trivial
  trans _ _ := trivial
  iter_stable _ _ := trivial
  elem_stable _ _ := trivial
  ref {i s} _ _ := by
    change Reads i.ref s fun _ => True
    rw [NodeEdgeIteratorImpl.ref]
    split
    · exact Reads.pure trivial
    · exact Sat.throw trivial
  next {i s} hs _ := Ensures.mono
    ((NodeEdgeIteratorImpl.footprint.next i).live hs (by simp [safeKinds]))
    fun _ _ ht => ⟨ht, trivial, trivial⟩

omit [Platform.Fresh] in
/-- Deleting a listed edge removes no node. -/
theorem listEdge_live (e : EdgeID) (keys : List String) (hs : s.Live) :
    Ensures (listElement (.edge e) keys) s fun _ t => t.Live := by
  refine Ensures.mono (listElement_ensures _ _) fun _ t ht => ?_
  obtain ⟨hnodes, -, ⟨-, hdb⟩ | ⟨-, hdb⟩⟩ := ht.data
  · refine (hs.retains hnodes ?_).1
    rw [hdb]
    exact ⟨fun _ hn => hn, fun _ ed' he => ⟨ed', he, rfl, rfl⟩⟩
  · refine (hs.retains hnodes ?_).1
    rw [hdb]
    exact Graph.retains_removeEdge s.db e

omit [Platform.Fresh] in
theorem edgeResults_live {ι : Type} {I : Iter Handler PMGDException ι EdgeID}
    {J : ι → Handler → Prop} (h : I.Keeps Handler.Live (fun _ _ => True) J fun _ _ => True)
    (qr : ResultInfo) {ei : ι} (hs : s.Live) (hei : J ei s) :
    Ensures (buildResults I Element.edge ei qr) s fun _ t => t.Live := by
  have hrespond : RespondKeeps Handler.Live fun _ _ => True := fun t f ht =>
    ⟨live_modifyResponse ht f, trivial⟩
  refine Ensures.mono (buildResults_keeps h hrespond Element.edge (fun _ e t ht _ => ?_) hs hei)
    fun _ _ ht => ht.1
  exact Ensures.mono (listEdge_live e _ ht) fun _ _ hu => ⟨hu, trivial⟩

/-- What comes last in a query for edges. -/
theorem resetRefs_live {α : Type} (refs : List ℤ) (a : α) (hs : s.Live) :
    Ensures (do resetAll refs; pure a) s fun _ t => t.Live :=
  ((resetAll_footprint refs).bind fun _ => Footprint.pure a).live hs (by simp [safeKinds])

theorem failRefs_live (code : ErrorCode) (msg : String) (refs : List ℤ) (hs : s.Live) :
    Ensures (do setError code msg; resetAll refs; pure (-1 : ℤ)) s fun _ t => t.Live :=
  Sat.modify_bind (resetRefs_live refs _ (live_modifyResponse hs _))

theorem queryEdgeFinish_live (qe : QueryEdge) (refs : List ℤ)
    (tei : ReusableIterator NodeEdgeIteratorImpl EdgeID) (hs : s.Live) :
    Ensures (queryEdgeFinish qe refs tei) s fun _ t => t.Live := by
  have hkeeps := NodeEdgeIteratorImpl.keeps_live
  refine Sat.bind (P := fun _ t => t.Live) ?_ fun tei t ht => ?_
  · refine Sat.ite (fun _ => ?_) fun _ => Sat.pure hs
    exact Ensures.mono (ReusableIterator.sort_keeps hkeeps _ _ _ hs
      ⟨fun _ _ => trivial, fun _ _ => trivial⟩) fun _ _ ht => ht.1
  refine Sat.bind (P := fun _ t => t.Live) ?_ fun tei u hu => ?_
  · refine Sat.ite (fun _ => ?_) fun _ => Sat.pure ht
    exact edgeResults_live (ReusableIterator.keeps hkeeps) _ ht
      ⟨fun _ _ => trivial, fun _ _ => trivial⟩
  refine Sat.bind (P := fun _ t => t.Live) ?_ fun _ v hv => resetRefs_live refs _ hv
  refine Sat.ite (fun _ => ?_) fun _ => Sat.pure hu
  refine Sat.bind (ReusableIterator.traverseAll_keeps hkeeps hu
    ⟨fun _ _ => trivial, fun _ _ => trivial⟩) fun tei v hv => ?_
  exact Sat.modify ⟨hv.1.closed, hv.1.refs⟩

theorem queryEdgeFound_live (qe : QueryEdge) (ei : NodeEdgeIteratorImpl) (refs : List ℤ)
    (hs : s.Live) : Ensures (queryEdgeFound qe ei refs) s fun _ t => t.Live := by
  have hkeeps := NodeEdgeIteratorImpl.keeps_live
  refine Sat.modify_bind ?_
  have ht := live_modifyResponse hs fun r =>
    { r with rType := qe.results.rType, errorCode := .success }
  refine Sat.ite (fun _ => ?_) fun _ => ?_
  · exact Sat.bind (edgeResults_live hkeeps _ ht trivial) fun _ u hu => resetRefs_live refs _ hu
  · refine Sat.bind (ReusableIterator.new_keeps hkeeps ht trivial) fun tei u hu => ?_
    refine Sat.ite (fun _ => ?_) fun _ => queryEdgeFinish_live qe refs tei hu.1
    refine Sat.bind (ReusableIterator.next_keeps hkeeps hu.1 hu.2.2) fun tei v hv => ?_
    exact Sat.ite (fun _ => failRefs_live _ _ refs hv.1) fun _ =>
      queryEdgeFinish_live qe refs _ hv.1

theorem queryEdge_live (qe : QueryEdge) (hs : s.Live) :
    Ensures (queryEdge qe) s fun _ t => t.Live := by
  refine Sat.modify_bind ?_
  have ht := live_modifyResponse hs fun r => { r with nodeEdge := false }
  have hfail : ∀ msg, Ensures (fail .error msg) (s.modifyResponse fun r =>
      { r with nodeEdge := false }) fun _ u => u.Live := fun msg =>
    (fail_footprint _ msg).live ht (by simp [safeKinds])
  refine Sat.get_bind (Sat.ite (fun _ => hfail _) fun _ => Sat.ite (fun _ => hfail _) fun _ => ?_)
  refine Sat.bind ((queryEdgeSearch_footprint qe).live ht (by simp [safeKinds])) fun p u hu => ?_
  exact Sat.ite (fun _ => failRefs_live _ _ _ hu) fun _ => queryEdgeFound_live qe _ _ hu

theorem updateEdge_live (ue : UpdateEdge) (hs : s.Live) :
    Ensures (updateEdge ue) s fun _ t => t.Live := by
  refine Sat.get_bind (Sat.ite (fun _ => ?_) fun _ => ?_)
  · exact (updateEdgesAt_footprint ue _).live hs (by simp [updateEdgesKinds, safeKinds])
  · cases ue.queryEdge with
    | none => exact (fail_footprint _ _).live hs (by simp [safeKinds])
    | some qe =>
        refine Sat.bind (queryEdge_live qe hs) fun _ t ht => ?_
        exact (updateEdgeFound_footprint ue qe).live ht (by simp [updateEdgesKinds, safeKinds])

/-! ### Expired nodes -/

/-- No reference holds a node that has expired. -/
def Handler.SparesExpired (s : Handler) : Prop :=
  ∀ a ∈ s.expirationQueue.takeWhile fun a => a.timestamp < s.now, ∀ n, a.node = .node n →
    ∀ k r, s.cachedNodes k = some r → ¬ r.Held n

omit [Platform.Fresh] in
theorem deleteFile_sameData (x : Element) (key : String) :
    Ensures (deleteFile x key) s fun _ t => s.SameData t := by
  refine Reads.bind ((checkProperty_readOnly x _).reads s) fun v _ => ?_
  cases v with
  | none => exact Sat.pure (.refl s)
  | some v =>
      exact Reads.bind ((stringValue_readOnly v).reads s) fun file _ => Sat.modify ⟨_, _, _, _, rfl⟩

omit [Platform] [Platform.Fresh] in
/-- Removing an element that no reference holds. -/
theorem Handler.Live.remove (hs : s.Live) {x : Element}
    (hx : ∀ n, x = .node n → ∀ k r, s.cachedNodes k = some r → ¬ r.Held n) :
    (s.setDb (s.db.remove x)).Live := by
  cases x with
  | edge e => exact (hs.retains (t := s.setDb (s.db.removeEdge e)) rfl
      (Graph.retains_removeEdge s.db e)).1
  | node n =>
      refine ⟨hs.closed.removeNode n, fun k r hk => ?_⟩
      have hr := hs.refs k r hk
      refine ⟨fun m hm => Graph.has_removeNode (hr.held m hm) ?_, hr.forNodes⟩
      rintro rfl
      exact hx m rfl k r hk hm

omit [Platform.Fresh] in
/-- The loop over the expired nodes. Induction on the queue. -/
theorem deleteExpiredFrom_live (now : ℕ) (queue : List AutoDeleteNode) (hs : s.Live)
    (hspare : ∀ a ∈ queue.takeWhile fun a => a.timestamp < now, ∀ n, a.node = .node n →
      ∀ k r, s.cachedNodes k = some r → ¬ r.Held n) :
    Ensures (deleteExpiredFrom now queue) s fun _ t => t.Live := by
  induction queue generalizing s with
  | nil => exact Sat.pure hs
  | cons a as ih =>
      refine Sat.ite (fun htime => ?_) fun _ => Sat.pure hs
      rw [List.takeWhile_cons_of_pos (by simpa using htime)] at hspare
      refine Sat.bind (P := fun _ t => s.SameData t) ?_ fun _ t ht => ?_
      · refine Sat.forEach (I := fun t => s.SameData t) (fun key _ t ht => ?_) (.refl s)
        exact Ensures.mono (deleteFile_sameData _ _) fun _ u hu => ht.trans hu
      have hnodes : t.cachedNodes = s.cachedNodes := by
        obtain ⟨r, q, f, f', rfl⟩ := ht
        rfl
      have hdb : t.db = s.db := by
        obtain ⟨r, q, f, f', rfl⟩ := ht
        rfl
      have htlive : t.Live := (hs.retains hnodes
        (hdb ▸ ⟨fun _ hn => hn, fun _ ed' he => ⟨ed', he, rfl, rfl⟩⟩)).1
      rw [← hnodes] at hspare
      refine Reads.bind (call_reads _) fun _ _ => Sat.modify_bind ?_
      have hremoved := htlive.remove (hspare a (List.mem_cons_self ..))
      exact ih ⟨hremoved.closed, hremoved.refs⟩ fun b hb => hspare b (List.mem_cons_of_mem _ hb)

/-! ### Transactions -/

/-- The query for nodes that a command runs. A reference that is there comes first. -/
def Command.nodeQuery (cmd : Command) (s : Handler) : Option QueryNode :=
  match cmd.cmdId with
  | .queryNode => some cmd.queryNode
  | .addNode =>
      if 0 ≤ cmd.addNode.identifier ∧ (s.cachedNodes (toInt cmd.addNode.identifier)).isSome then
        none
      else cmd.addNode.queryNode
  | .updateNode =>
      if 0 ≤ cmd.updateNode.identifier ∧
          (s.cachedNodes (toInt cmd.updateNode.identifier)).isSome then none
      else cmd.updateNode.queryNode
  | _ => none

/-- The command deletes no node that a reference holds. -/
structure Command.Spares (cmd : Command) (s : Handler) : Prop where
  queried : ∀ qn, cmd.nodeQuery s = some qn → qn.Spares s
  expired : cmd.cmdId = .deleteExpired → s.SparesExpired

variable {cmd : Command}

omit [Platform.Fresh] in
theorem QueryNode.Spares.begin {qn : QueryNode} (h : qn.Spares s) : qn.Spares (s.begin cmd) :=
  ⟨h.deleted, h.garbage⟩

/-- **Commands.** A command that spares the references keeps them live. -/
theorem dispatch_live [Platform.Lawful] (hs : s.Live) (hspare : cmd.Spares s) :
    Ensures (dispatch cmd) (s.begin cmd) fun _ t => t.Live := by
  have hbegin : (s.begin cmd).Live := ⟨hs.closed, hs.refs⟩
  by_cases htx : cmd.cmdId.isTx = true
  · refine Sat.mono (dispatch_tx htx) (fun _ t ht => ?_) fun _ _ _ => trivial
    obtain ⟨tx, r, rfl⟩ := ht
    exact ⟨hs.closed, hs.refs⟩
  have hquery : ∀ qn, cmd.nodeQuery s = some qn →
      Ensures (queryNode qn) (s.begin cmd) fun _ t => t.Live := fun qn hqn =>
    queryNode_live hbegin (hspare.queried qn hqn).begin
  rw [dispatch]
  cases hid : cmd.cmdId
  case txBegin | txCommit | txAbort => simp [hid, CommandId.isTx] at htx
  case queryNode => exact hquery _ (by simp [Command.nodeQuery, hid])
  case queryEdge => exact queryEdge_live _ hbegin
  case addEdge => exact addEdge_live _ hbegin
  case updateEdge =>
    exact Sat.bind (updateEdge_live _ hbegin) fun _ t ht => Sat.pure ht
  case deleteExpired =>
    exact Sat.get_bind (Sat.bind (deleteExpiredFrom_live _ _ hbegin (hspare.expired hid))
      fun _ t ht => Sat.pure ht)
  case addNode =>
    refine Sat.get_bind (Sat.ite (fun _ => ?_) fun hused => ?_)
    · exact (fail_footprint _ _).live hbegin (by simp [safeKinds])
    cases hqn : cmd.addNode.queryNode with
    | none => exact addNewNode_live _ hbegin
    | some qn =>
        have hrun : cmd.nodeQuery s = some qn := by
          rw [Command.nodeQuery, hid]
          exact (if_neg hused).trans hqn
        refine Sat.bind (hquery qn hrun) fun _ t ht => Sat.get_bind (Sat.ite (fun _ => ?_)
          fun _ => Sat.ite (fun _ => Sat.pure ht) fun _ => addNewNode_live _ ht)
        exact Sat.modify_bind (Sat.pure (live_modifyResponse ht _))
  case updateNode =>
    refine Sat.bind (P := fun _ t => t.Live) ?_ fun _ t ht => Sat.pure ht
    refine Sat.get_bind (Sat.ite (fun _ => ?_) fun hused => ?_)
    · exact (updateNodesAt_footprint _ _).live hbegin (by simp [updateNodesKinds, safeKinds])
    cases hqn : cmd.updateNode.queryNode with
    | none => exact (fail_footprint _ _).live hbegin (by simp [safeKinds])
    | some qn =>
        have hrun : cmd.nodeQuery s = some qn := by
          rw [Command.nodeQuery, hid]
          exact (if_neg hused).trans hqn
        refine Sat.bind (hquery qn hrun) fun _ t ht => ?_
        exact (updateNodeFound_footprint _ _).live ht (by simp [updateNodesKinds, safeKinds])

omit [Platform.Fresh] in
/-- At every point of its run, every node that a reference denotes is in the graph. -/
def Request.ReferencesLive (r : Request) (s : Handler) : Prop :=
  ∀ cmds u, Progress.Reaches ⟨r.cmds, r.opens s⟩ ⟨cmds, u⟩ →
    ∀ k ref n, u.cachedNodes k = some ref → ref.Reaches u.db n → u.db.Has n

/-- **No reference to a removed node.** A transaction whose commands spare the references
denotes nodes of the graph only, at every point of its run. -/
theorem references_live [Platform.Lawful] {r : Request} (hnone : s.cachedNodes = fun _ => none)
    (hclosed : s.db.Closed) (hspare : EachCommand Command.Spares r.cmds (r.opens s)) :
    r.ReferencesLive s := by
  have hopen : (r.opens s).Live := by
    refine ⟨hclosed, fun k ref hk => ?_⟩
    have hk : s.cachedNodes k = some ref := hk
    rw [hnone] at hk
    cases hk
  intro cmds u hreach k ref n hk hn
  have hlive : u.Live := by
    refine Progress.Reaches.invariant (I := Handler.Live) (fun hs hspare hrun hv => ?_) hspare
      hopen hreach
    rcases processQuery_inv hrun with hdispatch | ⟨rfl, -⟩
    · have hlive := Sat.ret (dispatch_live hs hspare) hdispatch
      exact ⟨hlive.closed, hlive.refs⟩
    · omega
  exact (hlive.refs k ref hk).has hlive.closed hn

end Commands

end

/-- The query that lists all nodes, and caches them under the identifier. -/
def listAll (ref : ℤ) : Command where
  cmdId := .queryNode
  queryNode := { identifier := ref, results := { rType := .list } }

/-- A transaction with this query that deletes its results. -/
def purgeAll (ref : ℤ) : Request where
  cmds := [{ cmdId := .txBegin }, listAll ref]
  numGroups := 1
  readonly := false
  resultdeletion := true

/-- A handler over a graph with one node. -/
def onOneNode : Handler := { db := ⟨[some ⟨1, fun _ => none⟩], []⟩ }

/-- Without an identifier the query spares the references. -/
theorem references_live_purge : (purgeAll (-1)).ReferencesLive onOneNode := by
  refine references_live rfl (fun e ed he => by simp [onOneNode, Graph.edge] at he) ?_
  refine eachCommand_cons.2 ⟨⟨fun qn hqn => (by cases hqn), fun hid => (by cases hid)⟩, ?_⟩
  intro v t hrun hv
  refine eachCommand_cons.2 ⟨⟨fun qn hqn => ?_, fun hid => (by cases hid)⟩,
    fun _ _ _ _ => eachCommand_nil⟩
  have hnone : ∀ k, t.cachedNodes k = none := fun k => by
    rcases processQuery_inv hrun with hdispatch | ⟨rfl, -⟩
    · obtain ⟨tx, r, rfl⟩ := Sat.ret (dispatch_tx rfl) hdispatch
      rfl
    · omega
  obtain rfl : (listAll (-1)).queryNode = qn := by simpa [Command.nodeQuery, listAll] using hqn
  refine ⟨fun _ _ n _ _ => ⟨by decide, fun hmeets => ?_⟩, fun hid => absurd hid (by decide)⟩
  rcases hmeets with ⟨k, r, hk, -⟩ | ⟨k, r, hstart, -⟩
  · rw [show t.advance.cachedNodes k = none from hnone k] at hk
    cases hk
  · cases hstart

/-- **A query that deletes what it caches.** Afterwards its reference denotes a node that is
not there. -/
theorem purged_reference_dangles : ¬ (purgeAll 1).ReferencesLive onOneNode := by
  obtain ⟨t, hbegin, u, hquery, ref, hk, hheld, hgone⟩ : ∃ t,
      Runs (processQuery { cmdId := .txBegin }) ((purgeAll 1).opens onOneNode) (.ret 0 t) ∧
      ∃ u, Runs (processQuery (listAll 1)) t.advance (.ret 0 u) ∧
        ∃ ref, u.cachedNodes 1 = some ref ∧ ref.traversed = [0] ∧ u.db.node 0 = none :=
    ⟨_, Runs.of_ret (n := 2) rfl, _, Runs.of_ret (n := 4) rfl, _, rfl, rfl, rfl⟩
  intro h
  have hreach : Progress.Reaches ⟨(purgeAll 1).cmds, (purgeAll 1).opens onOneNode⟩
      ⟨[], u.advance⟩ :=
    .head (.intro hbegin (by decide)) (.single (.intro hquery (by decide)))
  have hhas := h [] u.advance hreach 1 ref 0 hk (.inl (by simp [hheld]))
  have hnode : u.advance.db.node 0 = none := hgone
  rw [Graph.Has, hnode] at hhas
  cases hhas

end Vdms
