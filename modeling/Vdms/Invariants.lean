import Vdms.CommandFootprints
import Vdms.Iterating

/-!
# Invariants of the Data

A property of the graph, the expiration queue and the lists of files looks neither at the
response nor at the references. A command that succeeds keeps such a property if its own
few steps do that touch the data: what it does with a listed element, with an added node,
and with an updated one. So an invariant of the data is proved by looking at these steps
only.

## Main results

* `queryNode_invariant`, `queryEdge_invariant`: the rules for queries.
* `addNode_invariant`, `updateNode_invariant`, `addEdge_invariant`, `updateEdge_invariant`: the
  rules for additions and updates.
-/

namespace Vdms

open Imp Imp.Prog Platform Relation

/-- The property looks neither at the response nor at the references. -/
structure Indifferent (P : Handler → Prop) : Prop where
  respond : ∀ s f, P s → P (s.modifyResponse f)
  cacheNode : ∀ s k r, P s → P (s.cacheNode k r)
  cacheEdge : ∀ s k r, P s → P (s.cacheEdge k r)

/-- The kinds of steps that touch the response and the references only. -/
def Kind.Inert : Kind → Prop
  | .respond | .report _ | .move | .cacheNode | .cacheEdge | .stepEdge => True
  | .enter | .queue | .add | .update | .list | .purge | .expire => False

section

variable [Platform] {P : Handler → Prop} {s t : Handler} {K : List Kind} {α : Type}

theorem Effect.inert {κ : Kind} (h : Effect κ s t) (hκ : κ.Inert) (hP : Indifferent P)
    (hs : P s) : P t := by
  cases h with
  | respond f _ => exact hP.respond s f hs
  | report f _ => exact hP.respond s f hs
  | next _ _ => exact hP.cacheNode s _ _ hs
  | reset _ => exact hP.cacheNode s _ _ hs
  | cacheNode r _ => exact hP.cacheNode s _ r hs
  | cacheEdge r _ => exact hP.cacheEdge s _ r hs
  | stepEdge _ _ => exact hP.cacheEdge s _ _ hs
  | _ => exact hκ.elim

/-- What takes inert steps only. -/
theorem Footprint.inert {m : Handling α} (hm : Footprint K m) (hK : ∀ κ ∈ K, κ.Inert)
    (hP : Indifferent P) (hs : P s) : Ensures m s fun _ t => P t :=
  Sat.mono (hm s) (fun _ _ ht => ht.invariant hs fun hκ he hu => he.inert (hK _ hκ) hP hu)
    fun _ _ _ => trivial

/-! ### Iterators -/

theorem NodeIterator.ref_readOnly (ni : NodeIterator) : ReadOnly (NodeIterator.iter.ref ni) := by
  cases ni with
  | search i => exact (SearchIterator.footprint []).ref i
  | multi m => exact (SearchIterator.footprint []).orNull.ref m.neighbI

theorem NodeEdgeIteratorImpl.ref_readOnly (i : NodeEdgeIteratorImpl) :
    ReadOnly (NodeEdgeIteratorImpl.iter.ref i) := by
  change ReadOnly i.ref
  rw [NodeEdgeIteratorImpl.ref]
  split
  · exact Footprint.pure _
  · exact Footprint.throw _

section Driven

variable {ι τ : Type} {I : Iter Handler PMGDException ι τ}

/-- The property is kept by an iterator, of which nothing else is known. -/
abbrev Iter.KeepsOnly (I : Iter Handler PMGDException ι τ) (P : Handler → Prop) : Prop :=
  I.Keeps P (fun _ _ => True) (fun _ _ => True) fun _ _ => True

theorem IterFootprint.keepsOnly (h : IterFootprint [.move] I) (href : ∀ i, ReadOnly (I.ref i))
    (hP : Indifferent P) : Iter.KeepsOnly I P where
  refl _ := trivial
  trans _ _ := trivial
  iter_stable _ _ := trivial
  elem_stable _ _ := trivial
  ref {i s} _ _ := (href i).reads s
  next {i s} hs _ := Ensures.mono ((h.next i).inert (by simp [Kind.Inert]) hP hs)
    fun _ _ ht => ⟨ht, trivial, trivial⟩

/-- What a `List` result does with an element keeps the property. -/
def ListKeeps (P : Handler → Prop) (x : Element) : Prop :=
  ∀ keys s, P s → Ensures (listElement x keys) s fun _ t => P t

variable {el : τ → Element} {qr : ResultInfo}

omit [Platform] in
theorem holding_trivial (r : ReusableIterator ι τ) :
    r.Holding (fun _ _ => True) (fun _ _ => True) s :=
  ⟨fun _ _ => trivial, fun _ _ => trivial⟩

/-- **Results.** -/
theorem results_keep (h : Iter.KeepsOnly I P) (hP : Indifferent P)
    (hlist : qr.rType = .list → ∀ x, ListKeeps P (el x)) {ni : ι} (hs : P s) :
    Ensures (buildResults I el ni qr) s fun _ t => P t :=
  Ensures.mono (buildResults_keeps h (fun s f hs => ⟨hP.respond s f hs, trivial⟩) el
    (fun hr x t ht _ => Ensures.mono (hlist hr x _ t ht) fun _ _ hu => ⟨hu, trivial⟩) hs trivial)
    fun _ _ ht => ht.1

theorem sortResults_keeps (h : Iter.KeepsOnly I P) (tni : ReusableIterator ι τ) (hs : P s) :
    Ensures (sortResults I el qr tni) s fun _ t => P t := by
  refine Sat.ite (fun _ => ?_) fun _ => Sat.pure hs
  exact Ensures.mono (ReusableIterator.sort_keeps h _ _ _ hs (holding_trivial tni))
    fun _ _ ht => ht.1

theorem reusableResults_keep (h : Iter.KeepsOnly I P) (hP : Indifferent P)
    (hlist : qr.rType = .list → ∀ x, ListKeeps P (el x)) (tni : ReusableIterator ι τ)
    (hs : P s) : Ensures (reusableResults I el qr tni) s fun _ t => P t := by
  have hreusable : Iter.KeepsOnly (ReusableIterator.iter I) P :=
    { ReusableIterator.keeps h with
      iter_stable := fun _ _ => trivial
      ref := fun {r s} hs _ => (ReusableIterator.keeps h).ref hs (holding_trivial r)
      next := fun {r s} hs _ => Ensures.mono
        ((ReusableIterator.keeps h).next hs (holding_trivial r)) fun _ _ ht =>
          ⟨ht.1, trivial, trivial⟩ }
  exact Sat.ite (fun _ => results_keep hreusable hP hlist hs) fun _ => Sat.pure hs

end Driven

/-! ### Queries -/

theorem fail_keeps (code : ErrorCode) (msg : String) (hP : Indifferent P) (hs : P s) :
    Ensures (fail code msg) s fun _ t => P t :=
  (fail_footprint code msg).inert (by simp [Kind.Inert]) hP hs

section QueryNode

variable {qn : QueryNode}

theorem resetStart_keeps (start : Start) (a : α) (hP : Indifferent P) (hs : P s) :
    Ensures (do resetStart start; pure a) s fun _ t => P t :=
  ((resetStart_footprint start).bind fun _ => Footprint.pure a).inert (by simp [Kind.Inert]) hP hs

theorem queryNodeFinish_keeps (start : Start) (tni : ReusableIterator NodeIterator NodeID)
    (hP : Indifferent P) (hlist : qn.results.rType = .list → ∀ n, ListKeeps P (.node n))
    (hs : P s) : Ensures (queryNodeFinish qn start tni) s fun _ t => P t := by
  have hkeeps := NodeIterator.footprint.keepsOnly NodeIterator.ref_readOnly hP
  refine Sat.bind (sortResults_keeps hkeeps tni hs) fun tni t ht => ?_
  refine Sat.bind (reusableResults_keep hkeeps hP hlist tni ht) fun tni u hu => ?_
  refine Sat.bind (P := fun _ v => P v) ?_ fun _ v hv => resetStart_keeps start _ hP hv
  refine Sat.ite (fun _ => ?_) fun _ => Sat.pure hu
  refine Sat.bind (P := fun _ v => P v) ?_ fun tni v hv => Sat.modify (hP.cacheNode v _ _ hv)
  refine Sat.ite (fun _ => ?_) fun _ => Sat.pure hu
  exact Ensures.mono (ReusableIterator.traverseAll_keeps hkeeps hu (holding_trivial tni))
    fun _ _ hv => hv.1

theorem queryNodeFound_keeps (start : Start) (ni : NodeIterator) (hP : Indifferent P)
    (hlist : qn.results.rType = .list → ∀ n, ListKeeps P (.node n)) (hs : P s) :
    Ensures (queryNodeFound qn start ni) s fun _ t => P t := by
  have hkeeps := NodeIterator.footprint.keepsOnly NodeIterator.ref_readOnly hP
  refine Sat.modify_bind ?_
  have ht := hP.respond s (fun r => { r with rType := qn.results.rType, errorCode := .success }) hs
  refine Sat.ite (fun _ => ?_) fun _ => ?_
  · exact Sat.bind (results_keep hkeeps hP hlist ht) fun _ u hu => resetStart_keeps start _ hP hu
  · refine Sat.bind (ReusableIterator.new_keeps hkeeps ht trivial) fun tni u hu => ?_
    refine Sat.ite (fun _ => ?_) fun _ => queryNodeFinish_keeps start tni hP hlist hu.1
    refine Sat.bind (ReusableIterator.next_keeps hkeeps hu.1 hu.2.2) fun tni v hv => ?_
    refine Sat.ite (fun _ => ?_) fun _ => queryNodeFinish_keeps start _ hP hlist hv.1
    exact Sat.modify_bind (resetStart_keeps start _ hP (hP.respond v _ hv.1))

/-- **Queries for nodes.** -/
theorem queryNode_invariant (hP : Indifferent P)
    (hlist : qn.results.rType = .list → ∀ n, ListKeeps P (.node n)) (hs : P s) :
    Ensures (queryNode qn) s fun _ t => P t := by
  have hfrom : ∀ start, Ensures (queryNodeFrom qn start) s fun _ t => P t := fun start => by
    refine Sat.bind ((queryNodeSearch_footprint qn start).inert (by simp [Kind.Inert]) hP hs)
      fun ni t ht => Sat.ite (fun _ => ?_) fun _ => queryNodeFound_keeps start ni hP hlist ht
    exact Sat.modify_bind (resetStart_keeps start _ hP (hP.respond t _ ht))
  refine Sat.get_bind (Sat.ite (fun _ => fail_keeps _ _ hP hs) fun _ => ?_)
  cases qn.link with
  | none => exact hfrom none
  | some link =>
      exact Sat.ite (fun _ => fail_keeps _ _ hP hs) fun _ =>
        Sat.ite (fun _ => fail_keeps _ _ hP hs) fun _ => hfrom _

end QueryNode

section QueryEdge

variable {qe : QueryEdge}

theorem resetRefs_keep (refs : List ℤ) (a : α) (hP : Indifferent P) (hs : P s) :
    Ensures (do resetAll refs; pure a) s fun _ t => P t :=
  ((resetAll_footprint refs).bind fun _ => Footprint.pure a).inert (by simp [Kind.Inert]) hP hs

theorem queryEdgeFinish_keeps (refs : List ℤ)
    (tei : ReusableIterator NodeEdgeIteratorImpl EdgeID) (hP : Indifferent P)
    (hlist : qe.results.rType = .list → ∀ e, ListKeeps P (.edge e)) (hs : P s) :
    Ensures (queryEdgeFinish qe refs tei) s fun _ t => P t := by
  have hkeeps := NodeEdgeIteratorImpl.footprint.keepsOnly NodeEdgeIteratorImpl.ref_readOnly hP
  refine Sat.bind (sortResults_keeps hkeeps tei hs) fun tei t ht => ?_
  refine Sat.bind (reusableResults_keep hkeeps hP hlist tei ht) fun tei u hu => ?_
  refine Sat.bind (P := fun _ v => P v) ?_ fun _ v hv => resetRefs_keep refs _ hP hv
  refine Sat.ite (fun _ => ?_) fun _ => Sat.pure hu
  refine Sat.bind (ReusableIterator.traverseAll_keeps hkeeps hu (holding_trivial tei))
    fun tei v hv => Sat.modify (hP.cacheEdge v _ _ hv.1)

theorem queryEdgeFound_keeps (ei : NodeEdgeIteratorImpl) (refs : List ℤ) (hP : Indifferent P)
    (hlist : qe.results.rType = .list → ∀ e, ListKeeps P (.edge e)) (hs : P s) :
    Ensures (queryEdgeFound qe ei refs) s fun _ t => P t := by
  have hkeeps := NodeEdgeIteratorImpl.footprint.keepsOnly NodeEdgeIteratorImpl.ref_readOnly hP
  refine Sat.modify_bind ?_
  have ht := hP.respond s (fun r => { r with rType := qe.results.rType, errorCode := .success }) hs
  refine Sat.ite (fun _ => ?_) fun _ => ?_
  · exact Sat.bind (results_keep hkeeps hP hlist ht) fun _ u hu => resetRefs_keep refs _ hP hu
  · refine Sat.bind (ReusableIterator.new_keeps hkeeps ht trivial) fun tei u hu => ?_
    refine Sat.ite (fun _ => ?_) fun _ => queryEdgeFinish_keeps refs tei hP hlist hu.1
    refine Sat.bind (ReusableIterator.next_keeps hkeeps hu.1 hu.2.2) fun tei v hv => ?_
    refine Sat.ite (fun _ => ?_) fun _ => queryEdgeFinish_keeps refs _ hP hlist hv.1
    exact Sat.modify_bind (resetRefs_keep refs _ hP (hP.respond v _ hv.1))

/-- **Queries for edges.** -/
theorem queryEdge_invariant (hP : Indifferent P)
    (hlist : qe.results.rType = .list → ∀ e, ListKeeps P (.edge e)) (hs : P s) :
    Ensures (queryEdge qe) s fun _ t => P t := by
  refine Sat.modify_bind ?_
  have ht := hP.respond s (fun r => { r with nodeEdge := false }) hs
  refine Sat.get_bind (Sat.ite (fun _ => fail_keeps _ _ hP ht) fun _ =>
    Sat.ite (fun _ => fail_keeps _ _ hP ht) fun _ => ?_)
  refine Sat.bind ((queryEdgeSearch_footprint qe).inert (by simp [Kind.Inert]) hP ht)
    fun p u hu => Sat.ite (fun _ => ?_) fun _ => queryEdgeFound_keeps _ _ hP hlist hu
  exact Sat.modify_bind (resetRefs_keep _ _ hP (hP.respond u _ hu))

end QueryEdge

/-! ### Additions and updates -/

/-- A loop over a reference. -/
theorem forCached_keeps {k : ℤ} {f : α → NodeID → Handling α} (hP : Indifferent P)
    (hf : ∀ a n t, P t → Ensures (f a n) t fun _ u => P u) (a : α) (hs : P s) :
    Ensures (forCached k f a) s fun _ t => P t := by
  refine Sat.loop (fun _ t => P t) (fun a t ht => ?_) hs
  refine Reads.bind (cachedNode_reads k) fun r _ => Sat.ite (fun _ => ?_) fun _ => Sat.pure ht
  have href : Ensures r.ref t fun _ u => P u :=
    (ReusableIterator.ref_readOnly r).inert (by simp) hP ht
  refine Sat.bind href fun n u hu => Sat.bind (hf a n u hu) fun a' v hv => ?_
  exact Sat.bind ((nextCached_footprint k).inert (by simp [Kind.Inert]) hP hv)
    fun _ w hw => Sat.pure hw

omit [Platform] in
/-- The answer of an addition or an update. -/
theorem answer_keeps (type : ResponseType) (n : ℕ) (hP : Indifferent P) (hs : P s) :
    Ensures (do setType type .success; setInt n; pure (0 : ℤ)) s fun _ t => P t :=
  Sat.modify_bind (Sat.modify_bind (Sat.pure (hP.respond _ _ (hP.respond s _ hs))))

theorem updateNodesAt_keeps {un : UpdateNode} {k : ℤ} (hP : Indifferent P)
    (hupdate : ∀ n t, P t →
      Ensures (updateElement (.node n) un.properties un.removeProps) t fun _ u => P u)
    (hs : P s) : Ensures (updateNodesAt un k) s fun _ t => P t := by
  refine Sat.bind (forCached_keeps hP (fun _ n t ht => ?_) _ hs) fun n t ht => ?_
  · exact Sat.bind (hupdate n t ht) fun _ u hu => Sat.pure hu
  · exact Sat.bind ((resetCached_footprint k).inert (by simp [Kind.Inert]) hP ht)
      fun _ u hu => answer_keeps _ _ hP hu

/-- **Updates of nodes.** -/
theorem updateNode_invariant {un : UpdateNode} (hP : Indifferent P)
    (hlist : ∀ qn, un.queryNode = some qn → qn.results.rType = .list →
      ∀ n, ListKeeps P (.node n))
    (hupdate : ∀ n t, P t →
      Ensures (updateElement (.node n) un.properties un.removeProps) t fun _ u => P u)
    (hs : P s) : Ensures (updateNode un) s fun _ t => P t := by
  refine Sat.get_bind (Sat.ite (fun _ => updateNodesAt_keeps hP hupdate hs) fun _ => ?_)
  cases hqn : un.queryNode with
  | none => exact fail_keeps _ _ hP hs
  | some qn =>
      refine Sat.bind (queryNode_invariant hP (hlist qn hqn) hs) fun _ t ht => Sat.get_bind ?_
      exact Sat.ite (fun _ => Sat.pure ht) fun _ =>
        Sat.ite (fun _ => updateNodesAt_keeps hP hupdate ht) fun _ => fail_keeps _ _ hP ht

/-- **Additions of nodes.** -/
theorem addNode_invariant {cn : AddNode} (hP : Indifferent P)
    (hlist : ∀ qn, cn.queryNode = some qn → qn.results.rType = .list →
      ∀ n, ListKeeps P (.node n))
    (hnew : ∀ t, P t → Ensures (addNewNode cn) t fun _ u => P u) (hs : P s) :
    Ensures (addNode cn) s fun _ t => P t := by
  refine Sat.get_bind (Sat.ite (fun _ => fail_keeps _ _ hP hs) fun _ => ?_)
  cases hqn : cn.queryNode with
  | none => exact hnew s hs
  | some qn =>
      refine Sat.bind (queryNode_invariant hP (hlist qn hqn) hs) fun _ t ht => Sat.get_bind ?_
      refine Sat.ite (fun _ => Sat.modify_bind (Sat.pure (hP.respond t _ ht))) fun _ => ?_
      exact Sat.ite (fun _ => Sat.pure ht) fun _ => hnew t ht

/-- Noting a file touches nothing but the list of files. -/
theorem noteFile_keeps (hP : ∀ s files, P s → P { s with cleanupFiles := files }) (x : Element)
    (key : String) (hs : P s) : Ensures (noteFile x key) s fun _ t => P t := by
  refine Reads.bind ((checkProperty_readOnly x _).reads s) fun v _ => ?_
  cases v with
  | none => exact Sat.pure hs
  | some v => exact Reads.bind ((stringValue_readOnly v).reads s) fun _ _ => Sat.modify (hP s _ hs)

/-- Deleting a file touches nothing but the files. -/
theorem deleteFile_keeps (hP : ∀ s files, P s → P { s with removedFiles := files }) (x : Element)
    (key : String) (hs : P s) : Ensures (deleteFile x key) s fun _ t => P t := by
  refine Reads.bind ((checkProperty_readOnly x _).reads s) fun v _ => ?_
  cases v with
  | none => exact Sat.pure hs
  | some v => exact Reads.bind ((stringValue_readOnly v).reads s) fun _ _ => Sat.modify (hP s _ hs)

/-- An update of the element keeps the property. -/
def UpdateKeeps (P : Handler → Prop) (x : Element) : Prop :=
  ∀ s f, P s → P (s.setDb (s.db.modifyProps x f))

theorem setProperty_keeps {x : Element} (p : PMGDProp) (hx : UpdateKeeps P x) (hs : P s) :
    Ensures (setProperty x p) s fun _ t => P t := by
  refine Reads.bind ((ofExcept_readOnly _).reads s) fun v _ => ?_
  cases v with
  | none => exact Sat.pure hs
  | some v => exact Reads.bind (call_reads _) fun _ _ => Sat.modify (hx s _ hs)

theorem updateElement_keeps {x : Element} (ps : List PMGDProp) (keys : List String)
    (hx : UpdateKeeps P x) (hs : P s) : Ensures (updateElement x ps keys) s fun _ t => P t := by
  refine Sat.bind (Sat.forEach (fun p _ _ ht => setProperty_keeps p hx ht) hs) fun _ t ht => ?_
  refine Sat.forEach (fun key _ u hu => ?_) ht
  exact Reads.bind (call_reads _) fun _ _ => Sat.modify (hx u _ hu)

theorem setNodeProperties_keep {x : Element} (flag : Bool) (time : ℕ) (ps : List PMGDProp)
    (hx : UpdateKeeps P x) (hs : P s) :
    Ensures (setNodeProperties x flag time ps) s fun _ t => P t := by
  induction ps generalizing s time with
  | nil => exact Sat.pure hs
  | cons p ps ih => exact Sat.bind (setProperty_keeps p hx hs) fun _ t ht => ih _ ht

/-- An added node. -/
theorem addNewNode_keeps (cn : AddNode) (hP : Indifferent P)
    (hadd : ∀ s tag, P s → P (s.setDb (s.db.addNode tag)))
    (hupdate : ∀ n, UpdateKeeps P (.node n))
    (hqueue : ∀ s q, P s → P { s with expirationQueue := q }) (hs : P s) :
    Ensures (addNewNode cn) s fun _ t => P t := by
  refine Sat.bind (P := fun _ t => P t) ?_ fun n t ht => ?_
  · exact Reads.bind (call_reads _) fun _ _ =>
      Sat.get_bind (Sat.modify_bind (Sat.pure (hadd s _ hs)))
  refine Sat.bind (P := fun _ u => P u) ?_ fun _ u hu => ?_
  · exact Sat.ite (fun _ => Sat.modify (hP.cacheNode t _ _ ht)) fun _ => Sat.pure ht
  refine Sat.bind (setNodeProperties_keep _ _ _ (hupdate n) hu) fun time v hv => ?_
  refine Sat.bind (P := fun _ w => P w) ?_ fun _ w hw => answer_keeps _ _ hP hw
  exact Sat.ite (fun _ => Sat.modify (hqueue v _ hv)) fun _ => Sat.pure hv

/-- The property does not look at edges. -/
structure IgnoresEdges (P : Handler → Prop) : Prop where
  add : ∀ s src dst tag, P s → P (s.setDb (s.db.addEdge src dst tag))
  modify : ∀ e, UpdateKeeps P (.edge e)

/-- **Additions of edges.** -/
theorem addEdge_invariant (ce : AddEdge) (hP : Indifferent P) (hE : IgnoresEdges P) (hs : P s) :
    Ensures (addEdge ce) s fun _ t => P t := by
  have hreset : ∀ (k : ℤ) (acc : ℕ × List EdgeID) t, P t →
      Ensures (do resetCached k; pure acc) t fun _ u => P u := fun k acc t ht =>
    ((resetCached_footprint k).bind fun _ => Footprint.pure acc).inert (by simp [Kind.Inert]) hP ht
  have hbetween : ∀ acc n m t, P t → Ensures (addEdgeBetween ce acc n m) t fun _ u => P u := by
    intro acc n m t ht
    refine Sat.bind (P := fun _ u => P u) ?_ fun e u hu => Sat.bind
      (Sat.forEach (fun p _ _ ht => setProperty_keeps p (hE.modify e) ht) hu) fun _ v hv =>
        Sat.pure hv
    refine Reads.bind (call_reads _) fun _ _ => Sat.get_bind (Sat.modify_bind (Sat.pure ?_))
    exact hE.add t n m _ ht
  refine Sat.modify_bind ?_
  have ht := hP.respond s (fun r => { r with nodeEdge := false }) hs
  refine Sat.get_bind (Sat.ite (fun _ => fail_keeps _ _ hP ht) fun _ => ?_)
  split
  next srcni dstni _ _ =>
    refine Sat.ite (fun _ => fail_keeps _ _ hP ht) fun _ => ?_
    refine Sat.bind (P := fun _ u => P u) ?_ fun p u hu => ?_
    · refine Sat.bind (forCached_keeps hP (fun acc n t ht => ?_) _ ht) fun acc t ht =>
        hreset _ acc t ht
      exact Sat.bind (forCached_keeps hP (fun acc m u hu => hbetween acc n m u hu) acc ht)
        fun acc u hu => hreset _ acc u hu
    · refine Sat.bind (P := fun _ v => P v) ?_ fun _ v hv => answer_keeps _ _ hP hv
      exact Sat.ite (fun _ => Sat.modify (hP.cacheEdge u _ _ hu)) fun _ => Sat.pure hu
  next => exact fail_keeps _ _ hP ht

/-- The loop over a reference to edges. Induction on what is left of it. -/
theorem updateEdgesFrom_keeps (ue : UpdateEdge) (k : ℤ) (hP : Indifferent P)
    (hE : IgnoresEdges P) (passed rest : List EdgeID) (hs : P s) :
    Ensures (updateEdgesFrom ue k passed rest) s fun _ t => P t := by
  induction rest generalizing passed s with
  | nil => exact Sat.pure hs
  | cons e rest ih =>
      refine Sat.bind (updateElement_keeps _ _ (hE.modify e) hs) fun _ t ht => ?_
      exact Sat.modify_bind (ih _ (hP.cacheEdge t k _ ht))

theorem updateEdgesAt_keeps (ue : UpdateEdge) (k : ℤ) (hP : Indifferent P)
    (hE : IgnoresEdges P) (hs : P s) : Ensures (updateEdgesAt ue k) s fun _ t => P t := by
  refine Sat.get_bind ?_
  cases s.cachedEdges k with
  | none => exact Sat.stuck
  | some r =>
      refine Sat.bind (updateEdgesFrom_keeps ue k hP hE _ _ hs) fun _ t ht => ?_
      exact Sat.modify_bind (answer_keeps _ _ hP (hP.cacheEdge t k _ ht))

/-- **Updates of edges.** -/
theorem updateEdge_invariant {ue : UpdateEdge} (hP : Indifferent P) (hE : IgnoresEdges P)
    (hlist : ∀ qe, ue.queryEdge = some qe → qe.results.rType = .list →
      ∀ e, ListKeeps P (.edge e))
    (hs : P s) : Ensures (updateEdge ue) s fun _ t => P t := by
  refine Sat.get_bind (Sat.ite (fun _ => updateEdgesAt_keeps ue _ hP hE hs) fun _ => ?_)
  cases hqe : ue.queryEdge with
  | none => exact fail_keeps _ _ hP hs
  | some qe =>
      refine Sat.bind (queryEdge_invariant hP (hlist qe hqe) hs) fun _ t ht => Sat.get_bind ?_
      exact Sat.ite (fun _ => Sat.pure ht) fun _ =>
        Sat.ite (fun _ => updateEdgesAt_keeps ue _ hP hE ht) fun _ => fail_keeps _ _ hP ht

end

end Vdms
