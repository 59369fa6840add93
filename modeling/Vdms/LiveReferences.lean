import Vdms.ConditionalAdd
import Vdms.Iterating

/-!
# References to Nodes that Are There

A cached reference holds nodes by pointer: those in its list, and the one that its lazy
iterator points at. A query for nodes that deletes what it lists does not look at the
references, and neither does it look at what it caches itself. So the references hold nodes
of the graph after it, if no node that it deletes is held by a reference.

## Main definitions

* `Handler.Live`: every reference holds nodes of the graph only.
* `QueryNode.Spares`: the query deletes no node that a reference holds.

## Main results

* `NodeIterator.keeps`: what a query may go over, step by step.
* `queryNode_live`: a query that spares the references keeps them live.
-/

namespace Vdms

open Imp Imp.Prog Platform Relation

section

variable [Platform]

/-! ### What a reference holds -/

namespace ReusableIterator

/-- A node in the list of the reference, or the one its iterator points at. -/
def Held (r : ReusableNodeIterator) (n : NodeID) : Prop :=
  n ∈ r.traversed ∨ ∃ i, r.ti = some i ∧ i.current = some n

/-- A node that the reference holds, or would go on to over the graph. -/
def Reaches (g : Graph) (r : ReusableNodeIterator) (n : NodeID) : Prop :=
  n ∈ r.traversed ∨ ∃ i, r.ti = some i ∧ i.Reaches g n

/-- The reference holds nodes of the graph only. -/
structure Live (g : Graph) (r : ReusableNodeIterator) : Prop where
  held : ∀ n, r.Held n → g.Has n
  forNodes : ∀ i, r.ti = some i → i.ForNodes

variable {g g' : Graph} {r : ReusableNodeIterator} {n : NodeID}

theorem Held.reaches (h : r.Held n) : r.Reaches g n := by
  rcases h with h | ⟨i, hi, hcur⟩
  · exact .inl h
  · exact .inr ⟨i, hi, .inl hcur⟩

theorem Reaches.mono (hg : g.Below g') (hclosed : g.Closed) (hr : r.Live g)
    (h : r.Reaches g n) : r.Reaches g' n := by
  rcases h with h | ⟨i, hi, hcur | hsel⟩
  · exact .inl h
  · exact .inr ⟨i, hi, .inl hcur⟩
  · exact .inr ⟨i, hi, .inr (hsel.mono hg hclosed (hr.forNodes i hi))⟩

/-- Whatever a live reference denotes is in the graph. -/
theorem Live.has (hr : r.Live g) (hclosed : g.Closed) (h : r.Reaches g n) : g.Has n := by
  rcases h with h | ⟨i, hi, hcur | hsel⟩
  · exact hr.held n (.inl h)
  · exact hr.held n (.inr ⟨i, hi, hcur⟩)
  · exact hsel.has hclosed (hr.forNodes i hi)

omit [Platform] in
theorem held_reset : r.reset.Held n ↔ r.Held n := by
  simp only [Held, reset_traversed]
  exact Iff.rfl

omit [Platform] in
theorem Live.reset (hr : r.Live g) : r.reset.Live g :=
  ⟨fun n hn => hr.held n (held_reset.1 hn), hr.forNodes⟩

omit [Platform] in
theorem Live.ofElement (hn : g.Has n) : (ofElement n : ReusableNodeIterator).Live g := by
  refine ⟨fun m hm => ?_, fun i hi => by cases hi⟩
  rcases hm with hm | ⟨i, hi, -⟩
  · obtain rfl : m = n := by simpa [ReusableIterator.ofElement, traversed] using hm
    exact hn
  · cases hi

end ReusableIterator

/-- The edges of the graph have their ends, and every reference holds nodes of the graph
only. -/
structure Handler.Live (s : Handler) : Prop where
  closed : s.db.Closed
  refs : ∀ k r, s.cachedNodes k = some r → r.Live s.db

/-! ### Iterators -/

/-- The iterator reaches only nodes with the property `T` over the graph; if its results
stay, the node it points at is there. -/
structure SearchIterator.Bound (g₀ : Graph) (T : NodeID → Prop) (stay : Prop)
    (i : SearchIterator) (s : Handler) : Prop where
  forNodes : i.ForNodes
  reaches : ∀ n, i.Reaches g₀ n → T n
  current : stay → ∀ n, i.current = some n → s.db.Has n

/-- The node has the property; if the results stay, it is there. -/
def Bounded (T : NodeID → Prop) (stay : Prop) (n : NodeID) (s : Handler) : Prop :=
  T n ∧ (stay → s.db.Has n)

/-- If the results stay, no node goes. -/
def Persists (stay : Prop) (s t : Handler) : Prop :=
  stay → ∀ n, s.db.Has n → t.db.Has n

/-- The graph of the handler is a part of `g₀`, with closed edges. -/
def Handler.PartOf (s : Handler) (g₀ : Graph) : Prop := s.db.Below g₀ ∧ s.db.Closed

section Iterators

variable {g₀ : Graph} {T : NodeID → Prop} {stay : Prop} {P : Handler → Prop} {s : Handler}

theorem SearchIterator.Follows.bound {i i' : SearchIterator} (h : i.Follows s.db i')
    (hs : s.PartOf g₀) (hi : i.Bound g₀ T stay s) : i'.Bound g₀ T stay s where
  forNodes := h.forNodes hi.forNodes
  reaches n hn := by
    refine hi.reaches n ?_
    rcases hn with hcur | hsel
    · rcases h.current n hcur with hold | hsel
      · exact .inl hold
      · exact .inr (hsel.mono hs.1 hs.2 hi.forNodes)
    · exact .inr ((h.selects g₀ n).1 hsel)
  current hstay n hn := by
    rcases h.current n hn with hold | hsel
    · exact hi.current hstay n hold
    · exact hsel.has hs.2 hi.forNodes

variable [Platform.Fresh]

/-- **Searches.** -/
theorem SearchIterator.keeps (hP : ∀ t, P t → t.PartOf g₀) :
    SearchIterator.iter.Keeps P (Persists stay) (SearchIterator.Bound g₀ T stay)
      (Bounded T stay) where
  refl _ _ _ hn := hn
  trans hst htu hstay n hn := htu hstay n (hst hstay n hn)
  iter_stable hst hi :=
    ⟨hi.forNodes, hi.reaches, fun hstay n hn => hst hstay n (hi.current hstay n hn)⟩
  elem_stable hst hx := ⟨hx.1, fun hstay => hst hstay _ (hx.2 hstay)⟩
  ref {i s} _ hi := Reads.mono (ref_reads i) fun n hn =>
    ⟨hi.reaches n (.inl hn), fun hstay => hi.current hstay n hn⟩
  next {i s} hs hi := Ensures.mono (next_follows i) fun i' t ht => by
    obtain ⟨rfl, hfollows⟩ := ht
    exact ⟨hs, fun _ _ hn => hn, hfollows.bound (hP _ hs) hi⟩

/-- `next` of a cached reference. -/
theorem ReusableIterator.next_live {r : ReusableNodeIterator} (hs : s.PartOf g₀)
    (hr : r.Live s.db) :
    Reads (r.next SearchIterator.iter) s fun r' => r'.Live s.db ∧
      ∀ n, r'.Reaches g₀ n → r.Reaches g₀ n := by
  have hkeeps : SearchIterator.iter.Keeps (fun t => t = s) (Persists True)
      (SearchIterator.Bound g₀ (r.Reaches g₀) True) (Bounded (r.Reaches g₀) True) :=
    SearchIterator.keeps fun t ht => ht ▸ hs
  have hholding : r.Holding (SearchIterator.Bound g₀ (r.Reaches g₀) True)
      (Bounded (r.Reaches g₀) True) s := by
    refine ⟨fun n hn => ⟨.inl hn, fun _ => hr.held n (.inl hn)⟩, fun i hi => ?_⟩
    exact ⟨hr.forNodes i hi, fun n hn => .inr ⟨i, hi, hn⟩,
      fun _ n hn => hr.held n (.inr ⟨i, hi, hn⟩)⟩
  refine Ensures.mono (ReusableIterator.next_keeps hkeeps rfl hholding) fun r' t ht => ?_
  obtain ⟨rfl, -, hlist, hti⟩ := ht
  refine ⟨rfl, ⟨fun n hn => ?_, fun i hi => (hti i hi).forNodes⟩, fun n hn => ?_⟩
  · rcases hn with hn | ⟨i, hi, hcur⟩
    · exact (hlist n hn).2 trivial
    · exact (hti i hi).current trivial n hcur
  · rcases hn with hn | ⟨i, hi, hreach⟩
    · exact (hlist n hn).1
    · exact (hti i hi).reaches n hreach

end Iterators

/-! ### In the middle of a query -/

/-- The state in the middle of a query over the graph `g₀`. If the results of the query
stay, all nodes are still there. The references hold nodes with the property `D` only, and
the start reference reaches nodes with the property `A` only. -/
structure During (g₀ : Graph) (D A : NodeID → Prop) (start : Option ℤ) (stay deletes : Prop)
    (u : Handler) : Prop where
  part : u.PartOf g₀
  persists : stay → ∀ n, g₀.Has n → u.db.Has n
  deletes : u.resultdeletion = true → deletes
  live : ∀ k r, u.cachedNodes k = some r → r.Live u.db
  held : ∀ k r, u.cachedNodes k = some r → ∀ n, r.Held n → D n
  start : ∀ k r, start = some k → u.cachedNodes k = some r → ∀ n, r.Reaches g₀ n → A n

section Query

variable {g₀ : Graph} {D A T : NodeID → Prop} {start : Option ℤ} {stay deletes : Prop}
  {u : Handler}

theorem During.toLive (h : During g₀ D A start stay deletes u) : u.Live :=
  ⟨h.part.2, h.live⟩

theorem During.respond : RespondKeeps (During g₀ D A start stay deletes) (Persists stay) :=
  fun _ _ h => ⟨⟨h.part, h.persists, h.deletes, h.live, h.held, h.start⟩, fun _ _ hn => hn⟩

/-- What a query may go over: it deletes such a node only if its results do not stay and no
reference holds the node. -/
def SparesAll (g₀ : Graph) (D T : NodeID → Prop) (stay deletes : Prop) : Prop :=
  deletes → ∀ n, T n → g₀.tag (.node n) ≠ descSetTag → ¬ stay ∧ ¬ D n

/-- **Deleting a listed node** that the query may go over. -/
theorem listElement_during {n : NodeID} (keys : List String)
    (hspare : SparesAll g₀ D T stay deletes) (h : During g₀ D A start stay deletes u)
    (hn : Bounded T stay n u) : Ensures (listElement (.node n) keys) u fun _ t =>
      During g₀ D A start stay deletes t ∧ Persists stay u t := by
  refine Ensures.mono (listElement_ensures _ _) fun _ t ht => ?_
  obtain ⟨hnodes, hdel, ⟨-, hdb⟩ | ⟨hpurge, hdb⟩⟩ := ht.data
  · refine ⟨⟨?_, ?_, ?_, ?_, ?_, ?_⟩, fun _ m hm => by rwa [hdb]⟩
    · rw [Handler.PartOf, hdb]
      exact h.part
    · rw [hdb]
      exact h.persists
    · rw [hdel]
      exact h.deletes
    · rw [hdb, hnodes]
      exact h.live
    · rw [hnodes]
      exact h.held
    · rw [hnodes]
      exact h.start
  · -- A node that is not there is deleted without effect on the others.
    have hother : ∀ m, u.db.Has m → (stay ∨ D m) → m ≠ n := by
      rintro m hm hstay rfl
      have htag : g₀.tag (.node m) ≠ descSetTag := by
        rw [(h.part.1.same hm).2]
        exact hpurge.2
      obtain ⟨hno, hnot⟩ := hspare (h.deletes hpurge.1) m hn.1 htag
      exact hstay.elim hno hnot
    have hremove : t.db = u.db.removeNode n := hdb
    refine ⟨⟨?_, fun hstay m hm => ?_, ?_, fun k r hk => ?_, ?_, ?_⟩, fun hstay m hm => ?_⟩
    · rw [Handler.PartOf, hremove]
      exact ⟨(Graph.removeNode_below _ n).trans h.part.1, h.part.2.removeNode n⟩
    · rw [hremove]
      have hm := h.persists hstay m hm
      exact Graph.has_removeNode hm (hother m hm (.inl hstay))
    · rw [hdel]
      exact h.deletes
    · rw [hnodes] at hk
      have hlive := h.live k r hk
      refine ⟨fun m hm => ?_, hlive.forNodes⟩
      rw [hremove]
      have hthere := hlive.held m hm
      exact Graph.has_removeNode hthere (hother m hthere (.inr (h.held k r hk m hm)))
    · rw [hnodes]
      exact h.held
    · rw [hnodes]
      exact h.start
    · rw [hremove]
      exact Graph.has_removeNode hm (hother m hm (.inl hstay))

variable [Platform.Fresh]

/-- `next` of the start reference. -/
theorem nextCached_during {k : ℤ} (hAD : ∀ n, A n → D n) (hk : start = some k)
    (h : During g₀ D A start stay deletes u) : Ensures (nextCached k) u fun _ t =>
      During g₀ D A start stay deletes t ∧ Persists stay u t := by
  refine Reads.bind (cachedNode_reads k) fun r hr => ?_
  refine Reads.bind (ReusableIterator.next_live h.part (h.live k r hr)) fun r' hr' => ?_
  obtain ⟨hlive, hreach⟩ := hr'
  have hA : ∀ n, r'.Reaches g₀ n → A n := fun n hn => h.start k r hk hr n (hreach n hn)
  have hcases : ∀ k' r'', (u.cacheNode k r').cachedNodes k' = some r'' →
      k' = k ∧ r'' = r' ∨ u.cachedNodes k' = some r'' := fun k' r'' hk' => by
    by_cases hkk : k' = k
    · subst hkk
      rw [Handler.cacheNode_same] at hk'
      injection hk' with hk'
      exact .inl ⟨rfl, hk'.symm⟩
    · rw [Handler.cacheNode_of_ne u r' hkk] at hk'
      exact .inr hk'
  refine Sat.modify ⟨⟨h.part, h.persists, h.deletes, fun k' r'' hk' => ?_,
    fun k' r'' hk' n hn => ?_, fun k' r'' hstart hk' n hn => ?_⟩, fun _ _ hn => hn⟩
  · rcases hcases k' r'' hk' with ⟨rfl, rfl⟩ | hold
    · exact hlive
    · exact h.live k' r'' hold
  · rcases hcases k' r'' hk' with ⟨rfl, rfl⟩ | hold
    · exact hAD n (hA n hn.reaches)
    · exact h.held k' r'' hold n hn
  · rcases hcases k' r'' hk' with ⟨rfl, rfl⟩ | hold
    · exact hA n hn
    · exact h.start k' r'' hstart hold n hn

omit [Platform.Fresh] in
/-- What an iterator that begins a search is bound to. -/
theorem SearchIterator.Begins.bound {i : SearchIterator} {Q : Graph → NodeID → Prop}
    {G : NodeID → Prop} (hi : i.Begins u.db Q G) (h : During g₀ D A start stay deletes u)
    (hQ : ∀ n, Q g₀ n → T n) (hG : ∀ n, G n → T n) (hstay : stay → ∀ n, G n → g₀.Has n) :
    i.Bound g₀ T stay u where
  forNodes := hi.forNodes
  reaches n hn := by
    rcases hn with hcur | hsel
    · rcases hi.current n hcur with hsel | hgarbage
      · exact hQ n (hi.selects g₀ n (hsel.mono h.part.1 h.part.2 hi.forNodes))
      · exact hG n hgarbage
    · exact hQ n (hi.selects g₀ n hsel)
  current hst n hn := by
    rcases hi.current n hn with hsel | hgarbage
    · exact hsel.has h.part.2 hi.forNodes
    · exact h.persists hst n (hstay hst n hgarbage)

/-! ### The iterators of a query -/

/-- The search of a query along a link, whose start nodes have the property `A`. -/
structure MultiNeighborIteratorImpl.Bound (g₀ : Graph) (A T : NodeID → Prop)
    (start : Option ℤ) (stay : Prop) (m : MultiNeighborIteratorImpl) (s : Handler) : Prop where
  startNi : ∀ k, m.startNi = some k → start = some k
  found : ∀ node n, A node → m.searchNeighbors.SelectsNeighbor g₀ m.dir m.edgeTag node n → T n
  garbage : ∀ n, m.searchNeighbors.Garbage n → T n
  stays : stay → ∀ n, m.searchNeighbors.Garbage n → g₀.Has n
  neighbI : ∀ i, m.neighbI = some i → i.Bound g₀ T stay s

/-- What the node iterator of a query is bound to. -/
def NodeIterator.Bound (g₀ : Graph) (A T : NodeID → Prop) (start : Option ℤ) (stay : Prop) :
    NodeIterator → Handler → Prop
  | .search i, s => i.Bound g₀ T stay s
  | .multi m, s => m.Bound g₀ A T start stay s

variable {m : MultiNeighborIteratorImpl}

/-- What a step of an iterator of a query leaves. -/
def Continues {ι : Type} (J : ι → Handler → Prop) (P : Handler → Prop) (stay : Prop)
    (u : Handler) (i : ι) (t : Handler) : Prop :=
  P t ∧ Persists stay u t ∧ J i t

theorem MultiNeighborIteratorImpl.findNext_during (hAD : ∀ n, A n → D n)
    (h : During g₀ D A start stay deletes u)
    (hm : m.Bound g₀ A T start stay u) : Ensures m.findNext u
      (Continues (MultiNeighborIteratorImpl.Bound g₀ A T start stay)
        (During g₀ D A start stay deletes) stay u) := by
  refine Sat.loop (fun m t => Continues (MultiNeighborIteratorImpl.Bound g₀ A T start stay)
    (During g₀ D A start stay deletes) stay u m t) ?_ ⟨h, fun _ _ hn => hn, hm⟩
  rintro m t ⟨h, hp, hm⟩
  cases hk : m.startNi with
  | none => exact Sat.pure ⟨h, hp, hm⟩
  | some k =>
      have hstart := hm.startNi k hk
      refine Reads.bind (cachedNode_reads k) fun r hr => Sat.ite (fun _ => ?_) fun _ => ?_
      · have hread : Reads r.ref t fun n => n ∈ r.traversed := by
          rw [ReusableIterator.ref]
          cases hrest : r.rest with
          | nil => exact Sat.throw trivial
          | cons n l => exact Reads.pure (by simp [ReusableIterator.traversed, hrest])
        refine Reads.bind hread fun node hnode => ?_
        refine Reads.bind (evalNeighbors_begins _ _ _ _ _) fun i hi => ?_
        have hA : A node := h.start k r hstart hr node (.inl hnode)
        have hbound := hi.bound h (fun n hn => hm.found node n hA hn) hm.garbage hm.stays
        refine Sat.bind (nextCached_during hAD hstart h) fun _ v hv => ?_
        have hbound : i.Bound g₀ T stay v :=
          ⟨hbound.forNodes, hbound.reaches, fun hst n hn => hv.2 hst n (hbound.current hst n hn)⟩
        have hm' : ({ m with neighbI := some i } : MultiNeighborIteratorImpl).Bound g₀ A T start
            stay v := by
          refine ⟨hm.startNi, hm.found, hm.garbage, hm.stays, fun i' hi' => ?_⟩
          injection hi' with hi'
          exact hi' ▸ hbound
        have hp' : Persists stay u v := fun hst n hn => hv.2 hst n (hp hst n hn)
        exact Sat.ite (fun _ => Sat.pure ⟨hv.1, hp', hm'⟩) fun _ => Sat.pure ⟨hv.1, hp', hm'⟩
      · refine Sat.pure ⟨h, hp, ?_, hm.found, hm.garbage, hm.stays, hm.neighbI⟩
        intro k' hk'
        cases hk'

theorem MultiNeighborIteratorImpl.keeps (hAD : ∀ n, A n → D n) :
    MultiNeighborIteratorImpl.iter.Keeps (During g₀ D A start stay deletes) (Persists stay)
      (MultiNeighborIteratorImpl.Bound g₀ A T start stay) (Bounded T stay) := by
  have hsearch : SearchIterator.iter.Keeps (During g₀ D A start stay deletes) (Persists stay)
      (SearchIterator.Bound g₀ T stay) (Bounded T stay) :=
    SearchIterator.keeps fun t ht => ht.part
  have hor := orNull_keeps hsearch
  have hset : ∀ {m : MultiNeighborIteratorImpl} {ti : Option SearchIterator} {s t : Handler},
      m.Bound g₀ A T start stay s → (∀ i, ti = some i → i.Bound g₀ T stay t) →
      ({ m with neighbI := ti } : MultiNeighborIteratorImpl).Bound g₀ A T start stay t :=
    fun hm hti => ⟨hm.startNi, hm.found, hm.garbage, hm.stays, hti⟩
  exact
    { refl := hsearch.refl
      trans := hsearch.trans
      iter_stable := fun hst hm => hset hm (hor.iter_stable hst hm.neighbI)
      elem_stable := hsearch.elem_stable
      ref := fun {m s} hs hm => hor.ref hs hm.neighbI
      next := fun {m s} hs hm => by
        refine Sat.ite (fun _ => ?_) fun _ => findNext_during hAD hs hm
        refine Sat.bind (hor.next hs hm.neighbI) fun ti t ht => ?_
        have hm' := hset hm ht.2.2
        refine Sat.ite (fun _ => Sat.pure ⟨ht.1, ht.2.1, hm'⟩) fun _ => ?_
        refine Ensures.mono (findNext_during hAD ht.1 hm') fun m' v hv => ?_
        exact ⟨hv.1, hsearch.trans ht.2.1 hv.2.1, hv.2.2⟩ }

/-- **The iterator of a query.** -/
theorem NodeIterator.keeps (hAD : ∀ n, A n → D n) :
    NodeIterator.iter.Keeps (During g₀ D A start stay deletes) (Persists stay)
      (NodeIterator.Bound g₀ A T start stay) (Bounded T stay) := by
  have hsearch : SearchIterator.iter.Keeps (During g₀ D A start stay deletes) (Persists stay)
      (SearchIterator.Bound g₀ T stay) (Bounded T stay) :=
    SearchIterator.keeps fun t ht => ht.part
  have hmulti : MultiNeighborIteratorImpl.iter.Keeps (During g₀ D A start stay deletes)
      (Persists stay) (MultiNeighborIteratorImpl.Bound g₀ A T start stay) (Bounded T stay) :=
    MultiNeighborIteratorImpl.keeps hAD
  exact
    { refl := hsearch.refl
      trans := hsearch.trans
      iter_stable := fun {ni s t} hst h => by
        cases ni with
        | search i => exact hsearch.iter_stable hst h
        | multi m => exact hmulti.iter_stable hst h
      elem_stable := hsearch.elem_stable
      ref := fun {ni s} hs h => by
        cases ni with
        | search i => exact hsearch.ref hs h
        | multi m => exact hmulti.ref hs h
      next := fun {ni s} hs h => by
        cases ni with
        | search i => exact Sat.bind (hsearch.next hs h) fun i' t ht => Sat.pure ht
        | multi m => exact Sat.bind (hmulti.next hs h) fun m' t ht => Sat.pure ht }

end Query

/-! ### Queries for nodes -/

/-- The key of the start reference of a query. -/
def QueryNode.startKey (qn : QueryNode) : Option ℤ :=
  qn.link.map fun link => toInt link.startIdentifier

/-- The start reference of the query reaches the node. -/
def QueryNode.StartsAt (qn : QueryNode) (s : Handler) (n : NodeID) : Prop :=
  ∃ k r, qn.startKey = some k ∧ s.cachedNodes k = some r ∧ r.Reaches s.db n

/-- What the search of the query may point at although it has found nothing there. -/
def QueryNode.Stray (qn : QueryNode) (s : Handler) (e : SearchExpression) (n : NodeID) : Prop :=
  e.Garbage n ∧ (qn.link = none → ∀ m, ¬ e.Selects s.db m)

/-- A node that the query may go over: one that its search is for, or garbage. -/
def QueryNode.Finds (qn : QueryNode) (s : Handler) (n : NodeID) : Prop :=
  ∃ e, qn.constraints.search = .ok e ∧ (qn.Stray s e n ∨ match qn.link with
    | none => e.Selects s.db n
    | some link => ∃ preds node, link.predicates.mapM constructSearchTerm = .ok preds ∧
        qn.StartsAt s node ∧ SearchExpression.SelectsNeighbor { e with edgePredicates := preds }
          s.db link.dir link.edgeTag.resolve node n)

/-- A reference holds the node, or the start reference reaches it. -/
def QueryNode.Meets (qn : QueryNode) (s : Handler) (n : NodeID) : Prop :=
  (∃ k r, s.cachedNodes k = some r ∧ r.Held n) ∨ qn.StartsAt s n

/-- The query spares the references: it does not delete a node that it caches itself or that
a reference holds, and what it caches is no garbage. -/
structure QueryNode.Spares (qn : QueryNode) (s : Handler) : Prop where
  deleted : qn.results.rType = .list → SparesAll s.db (qn.Meets s) (qn.Finds s)
    (0 ≤ qn.identifier) (s.resultdeletion = true)
  garbage : 0 ≤ qn.identifier → ∀ e, qn.constraints.search = .ok e →
    ∀ n, qn.Stray s e n → s.db.Has n

section QueryNode

variable {s u : Handler} {qn : QueryNode}

/-- In the middle of the query, over the graph on which it started. -/
abbrev QueryNode.Running (qn : QueryNode) (s : Handler) : Handler → Prop :=
  During s.db (qn.Meets s) (qn.StartsAt s) qn.startKey (0 ≤ qn.identifier)
    (s.resultdeletion = true)

theorem QueryNode.running (hs : s.Live) : qn.Running s s where
  part := ⟨.refl _, hs.closed⟩
  persists _ _ hn := hn
  deletes h := h
  live := hs.refs
  held k r hr _ hn := .inl ⟨k, r, hr, hn⟩
  start k r hk hr _ hn := ⟨k, r, hk, hr, hn⟩

omit [Platform] in
theorem live_modifyResponse (h : u.Live) (f : Response → Response) :
    (u.modifyResponse f).Live :=
  ⟨h.closed, h.refs⟩

omit [Platform] in
theorem Handler.Live.cacheNode (h : u.Live) {r : ReusableNodeIterator} (hr : r.Live u.db)
    (k : ℤ) : (u.cacheNode k r).Live := by
  refine ⟨h.closed, fun k' r' hk' => ?_⟩
  by_cases hkk : k' = k
  · subst hkk
    rw [Handler.cacheNode_same] at hk'
    injection hk' with hk'
    exact hk' ▸ hr
  · rw [Handler.cacheNode_of_ne u r hkk] at hk'
    exact h.refs k' r' hk'

omit [Platform] in
theorem resetCached_live (h : u.Live) (k : ℤ) :
    Ensures (resetCached k) u fun _ t => t.Live :=
  Reads.bind (cachedNode_reads k) fun r hr =>
    Sat.modify (h.cacheNode (h.refs k r hr).reset k)

omit [Platform] in
theorem resetStart_live (h : u.Live) (start : Start) {α : Type} (a : α) :
    Ensures (do resetStart start; pure a) u fun _ t => t.Live := by
  refine Sat.bind (P := fun _ t => t.Live) ?_ fun _ t ht => Sat.pure ht
  cases start with
  | none => exact Sat.pure h
  | some p => exact resetCached_live h p.2

theorem settle_live {g : Graph} {T : NodeID → Prop} {stay : Prop}
    {tni : ReusableIterator NodeIterator NodeID}
    (h : tni.Holding (NodeIterator.Bound g (qn.StartsAt s) T qn.startKey stay)
      (Bounded T stay) u) (hstay : stay) : (settle tni).Live u.db := by
  have hti : ∀ i, (settle tni).ti = some i → i.Bound g T stay u := fun i hi => by
    cases ht : tni.ti with
    | none => simp [settle, ht] at hi
    | some ni =>
        cases ni with
        | multi m => simp [settle, ht] at hi
        | search i' =>
            obtain rfl : i' = i := by simpa [settle, ht] using hi
            exact h.2 _ ht
  refine ⟨fun n hn => ?_, fun i hi => (hti i hi).forNodes⟩
  rcases hn with hn | ⟨i, hi, hcur⟩
  · exact (h.1 n hn).2 hstay
  · exact (hti i hi).current hstay n hcur

variable [Platform.Fresh]

/-- What is known of a reusable iterator of the query. -/
abbrev QueryNode.Holds (qn : QueryNode) (s : Handler) :
    ReusableIterator NodeIterator NodeID → Handler → Prop :=
  ReusableIterator.Holding
    (NodeIterator.Bound s.db (qn.StartsAt s) (qn.Finds s) qn.startKey (0 ≤ qn.identifier))
    (Bounded (qn.Finds s) (0 ≤ qn.identifier))

theorem QueryNode.keeps (qn : QueryNode) (s : Handler) :
    NodeIterator.iter.Keeps (qn.Running s) (Persists (0 ≤ qn.identifier))
      (NodeIterator.Bound s.db (qn.StartsAt s) (qn.Finds s) qn.startKey (0 ≤ qn.identifier))
      (Bounded (qn.Finds s) (0 ≤ qn.identifier)) :=
  NodeIterator.keeps fun _ hn => .inr hn

theorem cacheResult_live {tni : ReusableIterator NodeIterator NodeID} (start : Start)
    (hu : qn.Running s u) (htni : qn.Holds s tni u) :
    Ensures (cacheResult qn start tni) u fun _ t => t.Live := by
  refine Sat.ite (fun hid => ?_) fun _ => Sat.pure hu.toLive
  refine Sat.bind (P := fun tni t => qn.Running s t ∧ qn.Holds s tni t) ?_ fun tni t ht => ?_
  · refine Sat.ite (fun _ => ?_) fun _ => Sat.pure ⟨hu, htni⟩
    refine Ensures.mono (ReusableIterator.traverseAll_keeps (qn.keeps s) hu htni) fun _ t ht => ?_
    exact ⟨ht.1, ht.2.2⟩
  · exact Sat.modify (ht.1.toLive.cacheNode (settle_live ht.2.reset hid) _)

theorem queryNodeFinish_live {tni : ReusableIterator NodeIterator NodeID} (start : Start)
    (hspare : qn.Spares s) (hu : qn.Running s u) (htni : qn.Holds s tni u) :
    Ensures (queryNodeFinish qn start tni) u fun _ t => t.Live := by
  have hkeeps := qn.keeps s
  refine Sat.bind (P := fun tni t => qn.Running s t ∧ qn.Holds s tni t) ?_ fun tni t ht => ?_
  · refine Sat.ite (fun _ => ?_) fun _ => Sat.pure ⟨hu, htni⟩
    refine Ensures.mono (ReusableIterator.sort_keeps hkeeps _ _ _ hu htni) fun _ t ht => ?_
    exact ⟨ht.1, ht.2.2⟩
  obtain ⟨hrunning, hholds⟩ := ht
  refine Sat.bind (P := fun tni t => qn.Running s t ∧ qn.Holds s tni t) ?_ fun tni t ht => ?_
  · refine Sat.ite (fun _ => ?_) fun _ => Sat.pure ⟨hrunning, hholds⟩
    refine Ensures.mono (buildResults_keeps (ReusableIterator.keeps hkeeps) During.respond _
      (fun hlist n v hv hn => listElement_during _ (hspare.deleted hlist) hv hn) hrunning hholds)
      fun _ t ht => ?_
    exact ⟨ht.1, ht.2.2⟩
  obtain ⟨hrunning, hholds⟩ := ht
  refine Sat.bind (cacheResult_live start hrunning hholds) fun _ v hv => ?_
  exact resetStart_live hv start _

theorem queryNodeFound_live {ni : NodeIterator} (start : Start) (hspare : qn.Spares s)
    (hu : qn.Running s u) (hni : ni.Bound s.db (qn.StartsAt s) (qn.Finds s) qn.startKey
      (0 ≤ qn.identifier) u) :
    Ensures (queryNodeFound qn start ni) u fun _ t => t.Live := by
  have hkeeps := qn.keeps s
  refine Sat.modify_bind ?_
  let f : Response → Response := fun r =>
    { r with rType := qn.results.rType, errorCode := .success }
  have hv : qn.Running s (u.modifyResponse f) := (During.respond u f hu).1
  have hni := hkeeps.iter_stable (s := u) (t := u.modifyResponse f) (fun _ _ hn => hn) hni
  refine Sat.ite (fun _ => ?_) fun _ => ?_
  · refine Sat.bind (buildResults_keeps hkeeps During.respond _ (fun hlist n v hv hn =>
      listElement_during _ (hspare.deleted hlist) hv hn) hv hni) fun _ w hw => ?_
    exact resetStart_live hw.1.toLive start _
  · refine Sat.bind (ReusableIterator.new_keeps hkeeps hv hni) fun tni w hw => ?_
    refine Sat.ite (fun _ => ?_) fun _ => queryNodeFinish_live start hspare hw.1 hw.2.2
    refine Sat.bind (ReusableIterator.next_keeps hkeeps hw.1 hw.2.2) fun tni x hx => ?_
    refine Sat.ite (fun _ => ?_) fun _ => queryNodeFinish_live start hspare hx.1 hx.2.2.reset
    exact Sat.modify_bind (resetStart_live (live_modifyResponse hx.1.toLive _) start _)

variable [Platform.Lawful]

/-- The search of the query. -/
theorem queryNodeSearch_running (hs : s.Live) (hspare : qn.Spares s) :
    ∀ start : Start, start = qn.link.map (fun link => (link, toInt link.startIdentifier)) →
    Ensures (queryNodeSearch qn start) s fun ni t => qn.Running s t ∧
      ni.Bound s.db (qn.StartsAt s) (qn.Finds s) qn.startKey (0 ≤ qn.identifier) t := by
  intro start hstart
  have hrunning : qn.Running s s := QueryNode.running hs
  have hsearch : Reads (ofExcept qn.constraints.search) s fun e =>
      qn.constraints.search = .ok e := by
    cases qn.constraints.search with
    | error e => exact Sat.throw trivial
    | ok e => exact Reads.pure rfl
  refine Reads.bind hsearch fun e he => ?_
  cases hlink : qn.link with
  | none =>
      rw [hlink] at hstart
      subst hstart
      refine Reads.bind (evalNodes_begins e) fun i hi => Sat.pure ⟨hrunning, ?_⟩
      refine hi.bound hrunning (fun n hn => ⟨e, he, .inr ?_⟩)
        (fun n hn => ⟨e, he, .inl ⟨hn.1, fun _ => hn.2⟩⟩) fun hid n hn =>
          hspare.garbage hid e he n ⟨hn.1, fun _ => hn.2⟩
      rw [hlink]
      exact hn
  | some link =>
      rw [hlink] at hstart
      subst hstart
      have hpreds : Reads (ofExcept (link.predicates.mapM constructSearchTerm)) s fun preds =>
          link.predicates.mapM constructSearchTerm = .ok preds := by
        cases link.predicates.mapM constructSearchTerm with
        | error e => exact Sat.throw trivial
        | ok preds => exact Reads.pure rfl
      have hstray : ∀ n, e.Garbage n → qn.Stray s e n := fun n hn =>
        ⟨hn, fun hnone => by rw [hlink] at hnone; cases hnone⟩
      refine Reads.bind hpreds fun preds hp => ?_
      refine Sat.bind (MultiNeighborIteratorImpl.findNext_during (T := qn.Finds s)
        (fun _ hn => .inr hn) hrunning ⟨?_, ?_, ?_, ?_, ?_⟩) fun m t ht =>
          Sat.pure ⟨ht.1, ht.2.2⟩
      · intro k hk
        injection hk with hk
        rw [QueryNode.startKey, hlink, ← hk]
        rfl
      · intro node n hnode hn
        refine ⟨e, he, .inr ?_⟩
        rw [hlink]
        exact ⟨preds, node, hp, hnode, hn⟩
      · exact fun n hn => ⟨e, he, .inl (hstray n hn)⟩
      · exact fun hid n hn => hspare.garbage hid e he n (hstray n hn)
      · exact fun i hi => (by cases hi)

/-- **Queries for nodes.** A query that spares the references keeps them live. -/
theorem queryNode_live (hs : s.Live) (hspare : qn.Spares s) :
    Ensures (queryNode qn) s fun _ t => t.Live := by
  have hfail : ∀ msg, Ensures (fail .error msg) s fun _ t => t.Live := fun msg =>
    Sat.modify_bind (Sat.pure (live_modifyResponse hs _))
  have hfrom : ∀ start : Start,
      start = qn.link.map (fun link => (link, toInt link.startIdentifier)) →
      Ensures (queryNodeFrom qn start) s fun _ t => t.Live := by
    intro start hstart
    refine Sat.bind (queryNodeSearch_running hs hspare start hstart) fun ni t ht => ?_
    refine Sat.ite (fun _ => ?_) fun _ => queryNodeFound_live start hspare ht.1 ht.2
    exact Sat.modify_bind (resetStart_live (live_modifyResponse ht.1.toLive _) start _)
  refine Sat.get_bind (Sat.ite (fun _ => hfail _) fun _ => ?_)
  cases hlink : qn.link with
  | none => exact hfrom none (by rw [hlink]; rfl)
  | some link =>
      refine Sat.ite (fun _ => hfail _) fun _ => Sat.ite (fun _ => hfail _) fun _ => ?_
      exact hfrom _ (by rw [hlink]; rfl)

end QueryNode

end

end Vdms
