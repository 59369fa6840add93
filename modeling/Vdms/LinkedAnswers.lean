import Vdms.LinkConstraints
import Vdms.ListAnswers

/-!
# Answers of Linked Queries

A query that follows a link with a list as its result goes over the nodes that the link reaches,
in the order of the list, up to its limit. With a reference of its own it caches all of them,
and it refuses to find none.

## Main definitions

* `LinkedQuery`: such a query.
* `linkedNodes`: what it finds.

## Main results

* `listOf_view`: the iterator that a list leaves still denotes all of its nodes.
* `LinkedQuery.none`: a query with a reference that finds nothing.
* `LinkedQuery.total`: what a query answers, and what the references denote after it.
-/

namespace Vdms

open Imp Imp.Prog Platform Relation

section

variable [Platform] {ι τ : Type} {I : Iter Handler PMGDException ι τ}
  {V : ι → Handler → List τ → Prop} {S : Handler → Handler → Prop} {el : τ → Element} {ni : ι}
  {qn : ResultInfo} {s : Handler} {l : List τ}

/-! ### The iterator that is left -/

omit [Platform] in
/-- A loop over an iterator leaves it with something in view. -/
theorem upTo_view {α : Type} {limit : Option ℕ} {f : α → τ → Handling α} {count : α → ℕ}
    (hI : I.Tracks V S)
    (hf : ∀ a x left i t, V i t (x :: left) → Ensures (f a x) t fun _ u => V i u (x :: left))
    {a : α} (hV : V ni s l) :
    Ensures (upTo I limit f count ni a) s fun p t => ∃ left, V p.1 t left := by
  refine Sat.loop (fun p t => ∃ left, V p.1 t left) ?_ ⟨l, hV⟩
  rintro ⟨i, a⟩ t ⟨left, hV⟩
  refine Sat.ite (fun hbool => ?_) fun _ => Sat.pure ⟨left, hV⟩
  cases left with
  | nil =>
      rw [hI.bool_eq hV] at hbool
      cases hbool
  | cons x left =>
      have href : Reads (I.ref i) t fun y => y = x := Sat.of_runs (hI.ref_runs hV) ⟨rfl, rfl⟩
      refine Reads.bind href fun y hy => ?_
      subst hy
      refine Sat.bind (hf a y left i t hV) fun a' u hVu => ?_
      refine Sat.ite (fun _ => Sat.pure ⟨_, hVu⟩) fun _ => ?_
      obtain ⟨i', v, hnext, hV', -⟩ := hI.next_runs hVu
      have hpull : Ensures (I.next i) u fun j w => V j w left := Sat.of_runs hnext hV'
      exact Sat.bind hpull fun j w hj => Sat.pure ⟨left, hj⟩

/-- The graph, the transaction and the references are the same, and nothing is deleted. -/
def SameView (s t : Handler) : Prop :=
  t.db = s.db ∧ t.tx = s.tx ∧ t.cachedNodes = s.cachedNodes ∧ t.resultdeletion = false

/-- Listing an element without deleting it. -/
theorem listElement_sameView (x : Element) (keys : List String) (hdel : s.resultdeletion = false) :
    Ensures (listElement x keys) s fun _ t => SameView s t := by
  refine Ensures.mono (listElement_ensures x keys) fun _ t ht => ?_
  have hkept : ¬ s.Purges x := fun h => absurd (hdel.symm.trans h.1) (by decide)
  rcases ht with ⟨-, r, q, f, f', rfl⟩ | ⟨hpurge, -⟩
  · cases x <;> exact ⟨rfl, rfl, rfl, hdel⟩
  · exact absurd hpurge hkept

variable [Platform.Quiet]

/-- **The iterator of a list** still denotes the elements of the result when the list is done,
in their order. The references have moved as the iterator moves them. -/
theorem listOf_view (hI : I.Tracks V S) (hst : Steady V S) (hsees : SeesGraph V)
    (C : Handler → Prop) (hmove : ∀ t u, S t u → C t → C u)
    (hsame : ∀ t u, u.cachedNodes = t.cachedNodes → C t → C u) (hC : C s)
    (hdel : s.resultdeletion = false) (hs : s.Open) (hlist : qn.rType = .list) (hV : V ni s l) :
    Ensures (listOf I el true ni qn) s fun r t => (t.db = s.db ∧ t.tx = s.tx ∧ C t) ∧
      ∃ tni past left, r = some tni ∧ View V tni t past left ∧
        past ++ left = resultOrder s.db el qn l := by
  let s₀ := s.modifyResponse fun r => { r with rType := qn.rType, errorCode := .success }
  have hmoves : ∀ {t u}, ReflTransGen S t u → C t → C u := fun h => by
    induction h with
    | refl => exact id
    | tail _ h ih => exact fun ht => hmove _ _ h (ih ht)
  refine Sat.modify_bind (Sat.ite (fun _ => ?_) fun h => absurd (.inl rfl) h)
  obtain ⟨tni, s₁, hnew, hview, hS⟩ := View.new_runs hI (hst.respond _ hV : V ni s₀ l)
  have hC₁ := hmoves hS (hsame s s₀ rfl hC)
  obtain ⟨c, rfl⟩ : ∃ c, s₁ = { s₀ with cachedNodes := c } :=
    (ReusableIterator.steady hst l).moves hS
  have hfirst : Ensures (ReusableIterator.new I ni) s₀ fun r t =>
      t = { s₀ with cachedNodes := c } ∧ View V r t [] l := Sat.of_runs hnew ⟨rfl, hview⟩
  refine Sat.bind hfirst ?_
  rintro tni _ ⟨rfl, hview⟩
  let V' := fun (r : ReusableIterator ι τ) (t : Handler) (left : List τ) =>
    (t.resultdeletion = false ∧ t.db = s.db ∧ t.tx = s.tx ∧ C t) ∧
      ∃ past, View V r t past left ∧ past ++ left = resultOrder s.db el qn l
  have htracks : (ReusableIterator.iter I).Tracks V' (ReflTransGen S) := by
    have hreusable := ReusableIterator.tracks hI (resultOrder s.db el qn l)
    refine ⟨fun h => hreusable.bool_eq h.2, fun h => hreusable.ref_runs h.2, fun h => ?_⟩
    obtain ⟨r', t, hrun, hV', hS⟩ := hreusable.next_runs h.2
    have hCt := hmoves hS h.1.2.2.2
    obtain ⟨c, rfl⟩ := (ReusableIterator.steady hst (resultOrder s.db el qn l)).moves hS
    exact ⟨r', _, hrun, ⟨⟨h.1.1, h.1.2.1, h.1.2.2.1, hCt⟩, hV'⟩, hS⟩
  have hbody : ∀ (count : ℕ) x left r t, V' r t (x :: left) → Ensures (do
      listElement (el x) qn.responseKeys
      pure (count + 1)) t fun _ u => V' r u (x :: left) := by
    rintro count x left r t ⟨⟨hdel, hdb, htx, hCt⟩, hV⟩
    refine Sat.bind (listElement_sameView _ _ hdel) fun _ u hu => Sat.pure ?_
    obtain ⟨hdb', htx', hnodes, hdel'⟩ := hu
    exact ⟨⟨hdel', hdb'.trans hdb, htx'.trans htx, hsame t u hnodes hCt⟩,
      (ReusableIterator.seesGraph hsees _).congr hdb' htx' hnodes hV⟩
  have hsorted : Ensures (sortResults I el qn tni) { s₀ with cachedNodes := c } fun r t =>
      V' r t (resultOrder s.db el qn l) := by
    have htotal := sortResults_total (s := { s₀ with cachedNodes := c }) el qn hI hst hs hview
    have hkept : Ensures (sortResults I el qn tni) { s₀ with cachedNodes := c } fun _ t => C t := by
      refine Sat.ite (fun _ => ?_) fun _ => Sat.pure hC₁
      obtain ⟨r, t, hrun, -, -, -, hS⟩ := hview.traverseAll_runs hI
      have hall : Ensures (tni.traverseAll I) { s₀ with cachedNodes := c } fun _ t => C t :=
        Sat.of_runs hrun (hmoves hS hC₁)
      refine Sat.bind hall fun r t ht => Sat.ite (fun _ => Sat.pure ht) fun _ => ?_
      exact Reads.bind (ReusableIterator.withKeys_reads el _ _) fun _ _ => Sat.pure ht
    refine Sat.mono (Sat.and htotal.sat hkept) ?_ fun _ _ _ => trivial
    rintro r _ ⟨⟨-, ⟨c', rfl⟩, hview⟩, hCt⟩
    exact ⟨⟨hdel, rfl, rfl, hCt⟩, [], hview, rfl⟩
  refine Sat.bind hsorted fun tni t ht => ?_
  have hbuild : Ensures (reusableResults I el qn tni) t fun r u =>
      ∃ left, V' r u left := by
    rw [reusableResults, if_pos (by rw [hlist]; decide), buildResults, hlist]
    refine Sat.bind (upTo_view htracks hbody ht) ?_
    rintro ⟨r, count⟩ t ⟨left, ⟨hdel, hdb, htx, hCt⟩, past, hview, hall⟩
    obtain ⟨past, hstill, hall⟩ := (ReusableIterator.steady hst _).respond
      (fun r => { r with op := .int count }) ⟨past, hview, hall⟩
    exact Sat.modify_bind (Sat.pure
      ⟨left, ⟨hdel, hdb, htx, hsame t _ rfl hCt⟩, past, hstill, hall⟩)
  refine Sat.bind hbuild fun r t ht => Sat.pure ?_
  obtain ⟨left, ⟨-, hdb, htx, hCt⟩, past, hview, hall⟩ := ht
  exact ⟨⟨hdb, htx, hCt⟩, r, past, left, rfl, hview, hall⟩

omit [Platform.Quiet] in
/-- A reference stays cached. -/
theorem Does.cachedNodes_isSome {K : List Kind} {t : Handler} {k : ℤ} (h : Does K s t)
    (hk : (s.cachedNodes k).isSome = true) : (t.cachedNodes k).isSome = true := by
  refine h.invariant (P := fun t => (t.cachedNodes k).isSome = true) hk fun {κ t u} _ he ht => ?_
  have hcache : ∀ k' r, ((t.cacheNode k' r).cachedNodes k).isSome = true := by
    intro k' r
    by_cases hk : k = k'
    · rw [hk, Handler.cacheNode_same]
      rfl
    · rwa [Handler.cacheNode_of_ne _ _ hk]
  cases he with
  | next | reset | cacheNode => exact hcache _ _
  | @list _ x _ =>
      obtain ⟨l, hl⟩ := list_eq t x
      rwa [hl]
  | @purge _ x _ =>
      obtain ⟨l, hl⟩ := list_eq t x
      rwa [hl]
  | _ => exact ht

omit [Platform.Quiet] in
theorem listOf_footprint (reusable : Bool) (i : NodeIterator) (qn : ResultInfo) :
    Footprint foundKinds (listOf NodeIterator.iter Element.node reusable i qn) := by
  have hnode : IterFootprint (.move :: resultKinds) NodeIterator.iter :=
    NodeIterator.footprint.mono (by simp)
  refine Footprint.bind ((setType_footprint _ _).mono (by simp [foundKinds])) fun _ =>
    Footprint.ite ?_ ?_
  · refine Footprint.bind ((ReusableIterator.next_footprint NodeIterator.footprint _).mono
      (by simp [foundKinds])) fun tni => ?_
    refine Footprint.bind ((sortResults_footprint Element.node NodeIterator.footprint qn tni).mono
      (by simp [foundKinds])) fun tni => ?_
    exact Footprint.bind ((reusableResults_footprint Element.node hnode qn
      (ResponseType.kinds_subset _) tni).mono driven_subset) fun _ => Footprint.pure _
  · exact Footprint.bind ((buildResults_footprint Element.node hnode qn
      (ResponseType.kinds_subset _) i).mono driven_subset) fun _ => Footprint.pure _

/-! ### Linked queries -/

/-- A query along a link, for a list of all the nodes that meet all of its constraints. The link
starts at the reference `k`. -/
structure LinkedQuery (qn : QueryNode) (info : LinkInfo) (pps : List PropertyPredicate)
    (e : SearchExpression) (k : ℤ) : Prop where
  link : qn.link = some info
  repeated : info.nbUnique = false
  start : toInt info.startIdentifier = k
  readable : info.predicates.mapM constructSearchTerm = .ok pps
  search : qn.constraints.search = .ok e
  conj : e.isOr = false
  several : qn.constraints.unique = false
  list : qn.results.rType = .list

/-- The nodes that a link reaches from a list, in the order in which they are found. -/
noncomputable def linkedNodes [Platform.Lawful] (info : LinkInfo) (pps : List PropertyPredicate)
    (e : SearchExpression) (g : Graph) (l₀ : List NodeID) : List NodeID :=
  l₀.flatMap (SearchExpression.neighborList { e with edgePredicates := pps } g info.dir
    info.edgeTag.resolve)

/-- The state `t` holds the list of these elements, and nothing was thrown on the way. -/
structure ListedIn (qn : ResultInfo) (s : Handler) (l : List NodeID) (t : Handler) : Prop where
  sortable : Sortable s.db Element.node qn l
  listable : ∀ x ∈ qn.cut (resultOrder s.db Element.node qn l), Listable s (.node x)
  response : t.response = listResponse s.db Element.node qn.responseKeys
    (qn.cut (resultOrder s.db Element.node qn l))
    { s.response with rType := .list, errorCode := .success }

/-- Nothing is thrown when the elements are listed. -/
def CanList (qn : ResultInfo) (s : Handler) (l : List NodeID) : Prop :=
  Sortable s.db Element.node qn l ∧
    ∀ x ∈ qn.cut (resultOrder s.db Element.node qn l), Listable s (.node x)

variable [Platform.Lawful] {q : QueryNode} {info : LinkInfo} {pps : List PropertyPredicate}
  {e : SearchExpression} {k : ℤ} {l₀ : List NodeID}

omit [Platform.Quiet] in
theorem mem_linkedNodes {g : Graph} {x : NodeID} :
    x ∈ linkedNodes info pps e g l₀ ↔ e.acceptsNeighbor g x = true ∧
      info.Reaches (Combined .and pps) g l₀ x :=
  mem_neighborLists

/-- The iterator of a linked query. -/
def LinkedView (k : ℤ) (l₀ : List NodeID) (ni : NodeIterator) (s : Handler) (l : List NodeID) :
    Prop :=
  ∃ m, ni = .multi m ∧ MultiView k l₀ m s l

theorem linkedView_tracks : NodeIterator.iter.Tracks (LinkedView k l₀) (OnlyMoved k) where
  bool_eq := by
    rintro _ s l ⟨m, rfl, h⟩
    exact (MultiNeighborIteratorImpl.tracks l₀).bool_eq h
  ref_runs := by
    rintro _ s x l ⟨m, rfl, h⟩
    exact (MultiNeighborIteratorImpl.tracks l₀).ref_runs h
  next_runs := by
    rintro _ s x l ⟨m, rfl, h⟩
    obtain ⟨m', t, hrun, h', hS⟩ := (MultiNeighborIteratorImpl.tracks l₀).next_runs h
    exact ⟨.multi m', t, hrun.bind (Runs.of_eq fun _ => rfl), ⟨m', rfl, h'⟩, hS⟩

omit [Platform.Quiet] in
theorem linkedView_steady : Steady (LinkedView k l₀) (OnlyMoved k) where
  respond := by
    rintro _ s l f ⟨m, rfl, h⟩
    exact ⟨m, rfl, (MultiNeighborIteratorImpl.steady k l₀).respond f h⟩
  moves := (MultiNeighborIteratorImpl.steady k l₀).moves

omit [Platform.Quiet] in
theorem linkedView_seesGraph : SeesGraph (LinkedView k l₀) where
  congr := by
    rintro _ s t l hdb htx hcached ⟨m, rfl, h⟩
    have hview : NodeIterator.InView k l₀ (.multi m) s l := h
    exact ⟨m, rfl, (NodeIterator.seesGraph k l₀).congr hdb htx hcached hview⟩

namespace LinkedQuery

/-- The search of the query. -/
theorem search_runs (hq : LinkedQuery q info pps e k) (hk : Denotes k l₀ s) :
    ∃ ni t, Runs (queryNodeSearch q (some (info, k))) s (.ret ni t) ∧ OnlyMoved k s t ∧
      LinkedView k l₀ ni t (linkedNodes info pps e s.db l₀) := by
  obtain ⟨m, t, hnew, hmoved, hview⟩ : ∃ m t,
      Runs (MultiNeighborIteratorImpl.new k { e with edgePredicates := pps } info.dir
        info.edgeTag.resolve) s (.ret m t) ∧ OnlyMoved k s t ∧
        MultiView k l₀ m t (linkedNodes info pps e s.db l₀) :=
    MultiNeighborIteratorImpl.new_runs (e := { e with edgePredicates := pps }) hq.conj hk
  refine ⟨.multi m, t, ?_, hmoved, m, rfl, hview⟩
  rw [queryNodeSearch, hq.search]
  refine Runs.bind (Runs.of_eq fun _ => rfl) ?_
  simp only [hq.readable]
  exact Runs.bind (Runs.of_eq fun _ => rfl) (hnew.bind (Runs.of_eq fun _ => rfl))

omit [Platform.Quiet] [Platform.Lawful] in
/-- A query with a free reference, along a link that is there, starts with its search. -/
theorem query_apply (hq : LinkedQuery q info pps e k) (hk : Denotes k l₀ s)
    (hfree : 0 ≤ q.identifier → s.cachedNodes (toInt q.identifier) = none) (n : ℕ) :
    queryNode q n s = queryNodeFrom q (some (info, k)) n s := by
  obtain ⟨r, hr, -⟩ := hk.view
  have hreuse : ¬ (0 ≤ q.identifier ∧ (s.cachedNodes (toInt q.identifier)).isSome = true) := by
    rintro ⟨hid, hsome⟩
    rw [hfree hid] at hsome
    cases hsome
  simp [queryNode, hreuse, hq.link, hq.repeated, hq.start, hr]

/-- With a reference of its own the query refuses to find nothing. -/
theorem none_runs (hq : LinkedQuery q info pps e k) (hk : Denotes k l₀ s)
    (hfree : s.cachedNodes (toInt q.identifier) = none) (hid : 0 ≤ q.identifier)
    (hnone : linkedNodes info pps e s.db l₀ = []) :
    ∃ t, Runs (queryNode q) s (.ret (-1) t) ∧ t.response.errorCode = .empty := by
  obtain ⟨ni, t, hsearch, ⟨r, rfl⟩, hview⟩ := hq.search_runs hk
  have hbool : NodeIterator.iter.bool ni = false := by
    rw [linkedView_tracks.bool_eq hview, hnone]
    rfl
  let t := (s.modifyResponse fun r =>
    { r with errorCode := .empty, errorMsg := "Null search iterator" }).cacheNode k r
  have hreset : Runs (resetCached k) t (.ret () (t.cacheNode k r.reset)) :=
    resetCached_runs (Handler.cacheNode_same _ k r)
  refine ⟨t.cacheNode k r.reset, (Runs.congr (N := 0)
    (fun n _ => hq.query_apply hk (fun _ => hfree) n) _).mpr (hsearch.bind ?_), rfl⟩
  rw [hbool, if_pos ⟨rfl, hid⟩]
  exact Runs.bind (Runs.of_eq fun _ => rfl) (hreset.bind (Runs.of_eq fun _ => rfl))

omit [Platform.Quiet] [Platform.Lawful] in
/-- The graph is as it was. -/
theorem query_db (q : QueryNode) (hdel : s.resultdeletion = false) :
    Ensures (queryNode q) s fun _ t => t.db = s.db ∧ t.tx = s.tx ∧ t.resultdeletion = false := by
  refine Sat.mono (queryNode_footprint q s) (fun _ t ht => ?_) fun _ _ _ => trivial
  refine ht.invariant (P := fun t => t.db = s.db ∧ t.tx = s.tx ∧ t.resultdeletion = false)
    ⟨rfl, rfl, hdel⟩ fun {κ t u} hκ he ht => ?_
  obtain ⟨hdb, htx, hdel⟩ := ht
  refine ⟨?_, he.fixed.1.trans htx, he.fixed.2.1.trans hdel⟩
  by_cases hpurge : κ = .purge
  · subst hpurge
    cases he with
    | purge hx => exact absurd (hdel.symm.trans hx.1) (by decide)
  · refine (he.db_eq ?_).trans hdb
    simp only [queryNodeKinds, foundKinds, List.mem_cons] at hκ
    grind

/-- The end of a query with a reference: it denotes the elements that the iterator has gone over
and those that it has before it. -/
theorem cache_runs {tni : ReusableIterator NodeIterator NodeID} {t : Handler}
    {past left : List NodeID} (hid : 0 ≤ q.identifier) (hne : k ≠ toInt q.identifier)
    (hview : View (LinkedView k l₀) tni t past left) (ht : t.Open)
    (hstart : (t.cachedNodes k).isSome = true) :
    ∃ u, Runs (do
        cacheResult q (some (info, k)) tni
        resetStart (some (info, k))
        pure 0) t (.ret (0 : ℤ) u) ∧
      u.response = t.response ∧ Denotes (toInt q.identifier) (past ++ left) u := by
  obtain ⟨r, t', hrun, hpast, hleft, hend, hmoved⟩ := hview.traverseAll_runs linkedView_tracks
  obtain ⟨r₀, hr₀⟩ := Option.isSome_iff_exists.mp hstart
  obtain ⟨r₁, rfl⟩ := OnlyMoved.of_steps ⟨r₀, (Handler.cacheNode_eq_self hr₀).symm⟩ hmoved
  let u := (t.cacheNode k r₁).cacheNode (toInt q.identifier) (settle r.reset)
  have hr₁ : u.cachedNodes k = some r₁ := by
    rw [Handler.cacheNode_of_ne _ _ hne, Handler.cacheNode_same]
  refine ⟨u.cacheNode k r₁.reset, ?_, rfl, ht, settle r.reset, ?_, ?_⟩
  · have hcache : Runs (cacheResult q (some (info, k)) tni) t (.ret () u) := by
      rw [cacheResult, when_pos hid]
      exact hrun.bind (Runs.of_eq fun _ => rfl)
    exact hcache.bind ((resetCached_runs hr₁).bind (Runs.of_eq fun _ => rfl))
  · rw [Handler.cacheNode_of_ne _ _ (Ne.symm hne), Handler.cacheNode_same]
  · have hnone : (settle r.reset).ti = Option.none := by
      cases hti : r.ti with
      | none => simp [settle, ReusableIterator.reset, hti]
      | some ni =>
          rw [hti] at hend
          obtain ⟨m, rfl, -⟩ := hend
          simp [settle, ReusableIterator.reset, hti]
    refine ⟨rfl, [], ?_, ?_, fun _ => rfl⟩
    · rw [hnone]
      exact rfl
    · simp [settle, ReusableIterator.reset, ReusableIterator.traversed, hpast, hleft]

/-- What a query lists, and what its reference denotes. -/
theorem total_list (hq : LinkedQuery q info pps e k) (hk : Denotes k l₀ s)
    (hfree : 0 ≤ q.identifier → s.cachedNodes (toInt q.identifier) = none)
    (hfresh : s.response.propValues = []) (hdel : s.resultdeletion = false)
    (hsome : 0 ≤ q.identifier → linkedNodes info pps e s.db l₀ ≠ []) :
    Total (queryNode q) s
      (fun r t => r = 0 ∧ ListedIn q.results s (linkedNodes info pps e s.db l₀) t ∧
        (0 ≤ q.identifier → Denotes (toInt q.identifier)
          (resultOrder s.db Element.node q.results (linkedNodes info pps e s.db l₀)) t))
      fun _ _ => ¬ CanList q.results s (linkedNodes info pps e s.db l₀) := by
  obtain ⟨ni, s₁, hsearch, ⟨r₁, rfl⟩, hview⟩ := hq.search_runs hk
  generalize hl : linkedNodes info pps e s.db l₀ = l at hview hsome ⊢
  refine Total.congr (hq.query_apply hk hfree) (Total.after hsearch ?_)
  have hfound : ¬ ((!NodeIterator.iter.bool ni) = true ∧ 0 ≤ q.identifier) := by
    rintro ⟨hbool, hid⟩
    rw [linkedView_tracks.bool_eq hview] at hbool
    simp [hsome hid] at hbool
  rw [if_neg hfound]
  refine Total.congr (fun n => queryNodeFound_eq hq.several _ ni n _) ?_
  have hlisted := listOf_total (s := s.cacheNode k r₁) linkedView_tracks linkedView_steady
    linkedView_seesGraph node_apart
    (fun h => absurd (hdel.symm.trans h) (by decide)) hk.isOpen hfresh hq.list hview
    (0 ≤ q.identifier)
  have hcongr : ∀ x, Listable (s.cacheNode k r₁) x ↔ Listable s x := fun x =>
    listable_congr rfl rfl rfl rfl
  by_cases hid : 0 ≤ q.identifier
  · have hC : ∃ r, (s.cacheNode k r₁).cachedNodes k = some r := ⟨r₁, Handler.cacheNode_same ..⟩
    have hleft := @listOf_view _ _ _ _ _ _ Element.node ni q.results (s.cacheNode k r₁) l _
      linkedView_tracks linkedView_steady linkedView_seesGraph
        (fun t => ∃ r, t.cachedNodes k = some r)
      (fun t u hmove _ => by
        obtain ⟨r, rfl⟩ := hmove
        exact ⟨r, Handler.cacheNode_same ..⟩)
      (fun t u hsame ht => hsame ▸ ht) hC hdel hk.isOpen hq.list hview
    simp only [hid, decide_true] at hlisted ⊢
    refine Total.bind ((hlisted.and_sat hleft).mono (fun _ _ h => h) fun _ _ h hcan => h.1
      ⟨hcan.1, fun x hx => (hcongr _).mpr (hcan.2 x hx)⟩) ?_
    rintro r t ⟨⟨hsortable, hlistable, hresponse⟩, ⟨hdb, htx, r₂, hr₂⟩, tni, past, left, rfl, hview,
      hall⟩
    have hopen : t.Open := open_congr htx hk.isOpen
    obtain ⟨r₀, hr₀, -⟩ := hk.view
    have hne : k ≠ toInt q.identifier := by
      intro h
      rw [h, hfree hid] at hr₀
      cases hr₀
    obtain ⟨u, hrun, hsame, hdenotes⟩ : ∃ u, Runs (do
        cacheResult q (some (info, k)) tni
        resetStart (some (info, k))
        pure 0) t (.ret (0 : ℤ) u) ∧ u.response = t.response ∧
          Denotes (toInt q.identifier) (past ++ left) u :=
      cache_runs hid hne hview hopen (by simp [hr₂])
    rw [hall] at hdenotes
    exact .ret hrun ⟨rfl, ⟨hsortable, fun x hx => (hcongr _).mp (hlistable x hx),
      hsame.trans hresponse⟩, fun _ => hdenotes⟩
  · simp only [hid, decide_false] at hlisted ⊢
    have hstart := Sat.mono (listOf_footprint false ni q.results (s.cacheNode k r₁))
      (fun _ t (ht : Does _ _ t) => ht.cachedNodes_isSome (k := k)
        (by rw [Handler.cacheNode_same]; rfl)) fun _ _ _ => trivial
    refine Total.bind ((hlisted.and_sat hstart).mono (fun _ _ h => h) fun _ _ h hcan => h.1
      ⟨hcan.1, fun x hx => (hcongr _).mpr (hcan.2 x hx)⟩) ?_
    rintro r t ⟨⟨hsortable, hlistable, hresponse⟩, hstart⟩
    obtain ⟨r₀, hr₀⟩ := Option.isSome_iff_exists.mp hstart
    have hend : Runs (do
        resetStart (some (info, k))
        pure 0) t (.ret (0 : ℤ) (t.cacheNode k r₀.reset)) :=
      (resetCached_runs hr₀).bind (Runs.of_eq fun _ => rfl)
    have hanswer : ListedIn q.results s l (t.cacheNode k r₀.reset) :=
      ⟨hsortable, fun x hx => (hcongr _).mp (hlistable x hx), hresponse⟩
    cases r with
    | none => exact .ret hend ⟨rfl, hanswer, False.elim⟩
    | some tni =>
        have hnothing : Runs (cacheResult q (some (info, k)) tni) t (.ret () t) := by
          simp only [cacheResult, when_neg hid]
          exact Runs.of_eq fun _ => rfl
        exact .ret (hnothing.bind hend) ⟨rfl, hanswer, False.elim⟩

/-- **A linked query** that may find what it finds answers with its list, leaves the start
reference as it was, and caches what it has found under its own. -/
theorem total (hq : LinkedQuery q info pps e k) (hk : Denotes k l₀ s)
    (hfree : 0 ≤ q.identifier → s.cachedNodes (toInt q.identifier) = none)
    (hfresh : s.response.propValues = []) (hdel : s.resultdeletion = false)
    (hsome : 0 ≤ q.identifier → linkedNodes info pps e s.db l₀ ≠ []) :
    Total (queryNode q) s
      (fun r t => r = 0 ∧ ListedIn q.results s (linkedNodes info pps e s.db l₀) t ∧
        (t.db = s.db ∧ t.resultdeletion = false ∧ Denotes k l₀ t) ∧
        (0 ≤ q.identifier → Denotes (toInt q.identifier)
          (resultOrder s.db Element.node q.results (linkedNodes info pps e s.db l₀)) t))
      fun _ _ => ¬ CanList q.results s (linkedNodes info pps e s.db l₀) := by
  cases hq.total_list hk hfree hfresh hdel hsome with
  | throw hrun h => exact .throw hrun h
  | @ret r t hrun h =>
      obtain ⟨hr, hlisted, hdenotes⟩ := h
      obtain ⟨hdb, -, hdel'⟩ := (query_db q hdel).ret hrun
      obtain ⟨r₀, hr₀, hview⟩ := hk.view
      have hrewound : Rewound k t := by
        have hsat := queryNode_rewinds (s := s) hq.link (by
          rw [hq.start]
          exact ⟨r₀, hr₀, hview.1⟩)
        rw [hq.start] at hsat
        exact hsat.ret hrun
      have hdoes : Does queryNodeKinds s t := (queryNode_footprint q s).does hrun
      have hholds := hdoes.holds (by simp [queryNodeKinds, foundKinds]) hdel ⟨[], l₀, rfl, hk⟩
      exact .ret hrun ⟨hr, hlisted, ⟨hdb, hdel', hholds.denotes hrewound⟩, hdenotes⟩

end LinkedQuery

end

end Vdms
