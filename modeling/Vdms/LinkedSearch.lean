import Vdms.NeighborSearch
import Vdms.CommandFootprints
import Vdms.TableScan

/-!
# Conjunctive Search and Linked Queries

A query for nodes that follows a link moves the reference it starts from while it drives
its iterator. Every way out of the query resets that reference, so the next command sees
its whole list again.

## Main results

* `Does.holds`: as long as no element changes, the steps of a command keep the list that
  a reference denotes.
* `queryNode_rewinds`: a query leaves its start reference at its beginning.
* `and_search_and_neighbors`: what a conjunctive search and a search among neighbours
  enumerate.
-/

namespace Vdms

open Imp Imp.Prog Platform Relation

section

variable [Platform] {s t u : Handler} {k : ℤ} {l : List NodeID}

/-- The reference `k` denotes the list `l`, and is at some position in it. -/
def Holds (k : ℤ) (l : List NodeID) (s : Handler) : Prop :=
  ∃ past left, past ++ left = l ∧ At k past left s

/-- The reference `k` is at its beginning. -/
def Rewound (k : ℤ) (s : Handler) : Prop := ∃ r, s.cachedNodes k = some r ∧ r.passed = []

theorem Holds.cacheNode_ne {k' : ℤ} (h : Holds k l s) (r : ReusableNodeIterator)
    (hk : k ≠ k') : Holds k l (s.cacheNode k' r) := by
  obtain ⟨past, left, hl, hat⟩ := h
  obtain ⟨r₀, hr₀, hview⟩ := hat.view
  exact ⟨past, left, hl, hat.isOpen, r₀, by rw [Handler.cacheNode_of_ne s r hk, hr₀], hview⟩

/-- A reference that holds a list and is at its beginning denotes the list. -/
theorem Holds.denotes (h : Holds k l s) (hk : Rewound k s) : Denotes k l s := by
  obtain ⟨past, left, rfl, hat⟩ := h
  obtain ⟨r, hr, hview⟩ := hat.view
  obtain ⟨r', hr', hpassed⟩ := hk
  rw [hr] at hr'
  injection hr' with hr'
  have hpast : past = [] := by rw [← hview.1, hr', hpassed]
  subst hpast
  exact hat

section

variable [Platform.Quiet]

/-- `next` of a cached reference moves it within its list. -/
theorem Holds.next {r r' : ReusableNodeIterator} {n : ℕ} (h : Holds k l s)
    (hr : s.cachedNodes k = some r) (hrun : r.next SearchIterator.iter n s = .ret r' s) :
    Holds k l (s.cacheNode k r') := by
  obtain ⟨past, left, hl, hat⟩ := h
  obtain ⟨r₀, hr₀, hview⟩ := hat.view
  rw [hr] at hr₀
  injection hr₀ with hr₀
  subst hr₀
  cases left with
  | nil =>
      have hview' : View (fun (i : SearchIterator) (s : Handler) l =>
          s.Open ∧ i.Ahead s.db l ∧ i.Scans) r s past [] :=
        View.mono hview fun _ _ hi => ⟨hat.isOpen, hi⟩
      have heq := (Runs.of_ret hrun).unique (hview'.next_runs_end scans_tracks)
      injection heq with heq _
      subst heq
      rw [Handler.cacheNode_eq_self hr]
      exact ⟨past, [], hl, hat⟩
  | cons x left =>
      obtain ⟨r'', hrun', hview'⟩ := hview.next_runs hat.isOpen
      have heq := (Runs.of_ret hrun).unique hrun'
      injection heq with heq _
      subst heq
      exact ⟨past ++ [x], left, by simpa using hl, hat.isOpen, r', Handler.cacheNode_same s k r',
        hview'⟩

/-- A step that changes no element keeps the list of a reference. -/
theorem Effect.holds {κ : Kind} (he : Effect κ s t)
    (hκ : κ ∉ [Kind.add, .update, .expire]) (hdel : s.resultdeletion = false)
    (h : Holds k l s) : Holds k l t := by
  cases he with
  | @next _ k' r r' n hr hrun =>
      by_cases hk : k = k'
      · subst hk
        exact h.next hr hrun
      · exact h.cacheNode_ne r' hk
  | @reset _ k' r hr =>
      by_cases hk : k = k'
      · subst hk
        obtain ⟨past, left, hl, hat⟩ := h
        obtain ⟨r₀, hr₀, hview⟩ := hat.view
        rw [hr] at hr₀
        injection hr₀ with hr₀
        subst hr₀
        exact ⟨[], past ++ left, hl, hat.isOpen, _, Handler.cacheNode_same s k _, View.reset hview⟩
      · exact h.cacheNode_ne _ hk
  | @cacheNode _ k' r hfree =>
      refine h.cacheNode_ne r fun hk => ?_
      obtain ⟨past, left, -, hat⟩ := h
      obtain ⟨r₀, hr₀, -⟩ := hat.view
      rw [hk, hfree] at hr₀
      cases hr₀
  | @list _ x hx =>
      obtain ⟨ls, hls⟩ := list_eq s x
      rw [hls]
      obtain ⟨past, left, hl, hat⟩ := h
      exact ⟨past, left, hl, hat.isOpen, hat.view⟩
  | purge hx =>
      rw [Handler.Purges, hdel] at hx
      exact absurd hx.1 (by simp)
  | addNode | addEdge | update | removeFile | expire => simp at hκ
  | _ =>
      obtain ⟨past, left, hl, hat⟩ := h
      exact ⟨past, left, hl, hat.isOpen, hat.view⟩

/-- **References keep their lists.** A command that changes no element may move a
reference, but the reference still holds the same list. -/
theorem Does.holds {K : List Kind} (h : Does K s t)
    (hK : ∀ κ ∈ K, κ ∉ [Kind.add, .update, .expire]) (hdel : s.resultdeletion = false)
    (hs : Holds k l s) : Holds k l t := by
  have hinv := h.invariant (P := fun u => u.resultdeletion = false ∧ Holds k l u) ⟨hdel, hs⟩
    fun hκ he hu => ⟨he.fixed.2.1.trans hu.1, he.holds (hK _ hκ) hu.1 hu.2⟩
  exact hinv.2

end

/-! ### The start reference of a query -/

omit [Platform] in
theorem resetCached_rewinds (k : ℤ) (s : Handler) :
    Sat (resetCached k) s (fun _ t => Rewound k t) fun _ _ => True :=
  Sat.seq fun r u => Sat.modify ⟨r.reset, Handler.cacheNode_same u k _, rfl⟩

omit [Platform] in
/-- Every way out of a linked query goes through a reset of its start reference. -/
theorem resetStart_rewinds (link : LinkInfo) (k : ℤ) (c : ℤ) (s : Handler) :
    Sat (do resetStart (some (link, k)); pure c : Handling ℤ) s
      (fun _ t => Rewound k t) fun _ _ => True :=
  Sat.bind (resetCached_rewinds k s) fun _ _ h => Sat.pure h

theorem queryNodeFinish_rewinds (qn : QueryNode) (link : LinkInfo) (k : ℤ)
    (tni : ReusableIterator NodeIterator NodeID) (s : Handler) :
    Sat (queryNodeFinish qn (some (link, k)) tni) s (fun _ t => Rewound k t)
      fun _ _ => True :=
  Sat.seq fun _ _ => Sat.seq fun _ _ => Sat.seq fun _ _ => resetStart_rewinds link k 0 _

theorem queryNodeFrom_rewinds (qn : QueryNode) (link : LinkInfo) (k : ℤ) (s : Handler) :
    Sat (queryNodeFrom qn (some (link, k))) s (fun _ t => Rewound k t) fun _ _ => True := by
  refine Sat.seq fun ni t => Sat.ite (fun _ => ?_) fun _ => ?_
  · exact Sat.seq fun _ _ => resetStart_rewinds link k (-1) _
  · refine Sat.seq fun _ _ => Sat.ite (fun _ => ?_) fun _ => ?_
    · exact Sat.seq fun _ _ => resetStart_rewinds link k 0 _
    · refine Sat.seq fun tni _ => Sat.ite (fun _ => ?_) fun _ => ?_
      · refine Sat.seq fun tni _ => Sat.ite (fun _ => ?_) fun _ => ?_
        · exact Sat.seq fun _ _ => resetStart_rewinds link k (-1) _
        · exact queryNodeFinish_rewinds qn link k _ _
      · exact queryNodeFinish_rewinds qn link k _ _

/-- **The driver.** However a query that follows a link returns, it leaves its start
reference at its beginning. -/
theorem queryNode_rewinds {qn : QueryNode} {link : LinkInfo} (hlink : qn.link = some link)
    (hs : Rewound (toInt link.startIdentifier) s) :
    Sat (queryNode qn) s (fun _ t => Rewound (toInt link.startIdentifier) t)
      fun _ _ => True := by
  have hfail : ∀ msg, Sat (fail .error msg) s
      (fun _ t => Rewound (toInt link.startIdentifier) t) fun _ _ => True := fun msg =>
    Sat.modify_bind (Sat.pure hs)
  refine Sat.get_bind (Sat.ite (fun _ => hfail _) fun _ => ?_)
  rw [hlink]
  refine Sat.ite (fun _ => hfail _) fun _ => Sat.ite (fun _ => hfail _) fun _ => ?_
  exact queryNodeFrom_rewinds qn link _ s

/-! ### What is enumerated -/

omit [Platform] in
theorem OnlyMoved.trans (h : OnlyMoved k s t) (h' : OnlyMoved k t u) : OnlyMoved k s u := by
  obtain ⟨r, rfl⟩ := h
  obtain ⟨r', rfl⟩ := h'
  exact ⟨r', Handler.cacheNode_cacheNode s k r r'⟩

omit [Platform] in
theorem OnlyMoved.of_steps (h : OnlyMoved k s t) (h' : ReflTransGen (OnlyMoved k) t u) :
    OnlyMoved k s u := by
  induction h' with
  | refl => exact h
  | tail _ hstep ih => exact ih.trans hstep

variable [Platform.Lawful] [Platform.Quiet]

/-- **Conjunctive search and search among neighbours.** A conjunctive search over all
nodes enumerates the tagged nodes that satisfy every predicate, in the order of the index
scan and each once. A search among the neighbours of a reference enumerates, node by node
of its list, the neighbours of that node along matching edges that carry the tag and
satisfy every predicate, and moves nothing but the reference, which a reset takes back to
its list. A query that follows a link leaves its start reference at the beginning, and
denoting the same list unless the transaction deletes results. -/
theorem and_search_and_neighbors (hs : s.Open) {e : SearchExpression} (he : e.isOr = false) :
    (∃ i l, Runs e.evalNodes s (.ret i s) ∧ Iter.Rest SearchIterator.iter s i l ∧
      l.Sublist (scanList s.db e.indexLookup) ∧ l.Nodup ∧
      ∀ n, n ∈ l ↔ e.Satisfies s.db n) ∧
    (∀ k l₀ dir edgeTag, Denotes k l₀ s →
      ∃ (found : NodeID → List NodeID) (m : MultiNeighborIteratorImpl) (t : Handler)
        (m' : MultiNeighborIteratorImpl) (u v : Handler),
        (∀ n, (found n).Nodup ∧ ∀ x, x ∈ found n ↔
          e.Neighbor s.db dir edgeTag n x ∧ e.acceptsNeighbor s.db x = true) ∧
        Runs (MultiNeighborIteratorImpl.new k e dir edgeTag) s (.ret m t) ∧
        Iter.Yields MultiNeighborIteratorImpl.iter m t (l₀.flatMap found) m' u ∧
        OnlyMoved k s u ∧ Runs (resetCached k) u (.ret () v) ∧ Denotes k l₀ v) ∧
    ∀ k l₀ qn link r t, Denotes k l₀ s → qn.link = some link →
      toInt link.startIdentifier = k → Runs (queryNode qn) s (.ret r t) →
      Rewound k t ∧ (s.resultdeletion = false → Denotes k l₀ t) := by
  refine ⟨?_, ?_, ?_⟩
  · obtain ⟨i, hrun, hahead, -⟩ := SearchExpression.evalNodes_runs hs he
    exact ⟨i, e.matchList s.db, hrun, SearchIterator.tracks.rest ⟨hs, hahead⟩,
      List.filter_sublist, SearchExpression.matchList_nodup e s.db,
      fun _ => SearchExpression.mem_matchList⟩
  · intro k l₀ dir edgeTag hk
    obtain ⟨m, t, hnew, hmoved, hview⟩ := MultiNeighborIteratorImpl.new_runs he hk
    obtain ⟨m', u, hyields, hview', hsteps⟩ :=
      (MultiNeighborIteratorImpl.tracks l₀).yields hview
    obtain ⟨-, past, left, cur, hl, hat, -⟩ := hview'
    obtain ⟨v, hreset, -, hdenotes⟩ := hat.reset
    rw [hl] at hdenotes
    refine ⟨e.neighborList s.db dir edgeTag, m, t, m', u, v, fun n => ⟨?_, fun x => ?_⟩, hnew,
      hyields, hmoved.of_steps hsteps, hreset, hdenotes⟩
    · exact (scanList_nodup rfl).filter _
    · exact SearchExpression.mem_neighborList
  · rintro _ l₀ qn link r t hk hlink rfl hrun
    obtain ⟨r₀, hr₀, hview⟩ := hk.view
    have hrewound := (queryNode_rewinds hlink ⟨r₀, hr₀, hview.1⟩).ret hrun
    refine ⟨hrewound, fun hdel => ?_⟩
    have hdoes : Does queryNodeKinds s t := (queryNode_footprint qn s).does hrun
    have hholds := hdoes.holds (by simp [queryNodeKinds, foundKinds]) hdel
      ⟨[], l₀, rfl, hk⟩
    exact hholds.denotes hrewound

end

/-- Two nodes and an edge from the first to the second. -/
def linkedGraph : Graph where
  nodes := [some ⟨1, fun _ => none⟩, some ⟨1, fun _ => none⟩]
  edges := [some ⟨0, 1, 3, fun _ => none⟩]

/-- From the list of the first node the search finds the second and ends. -/
theorem and_search_and_neighbors_two_nodes : ∃ m t m' u,
    Runs (MultiNeighborIteratorImpl.new 7 ⟨1, false, [], []⟩ .outgoing 3)
      ((Handler.inTransaction linkedGraph).cacheNode 7 (.ofElement 0)) (.ret m t) ∧
    Iter.Yields MultiNeighborIteratorImpl.iter m t [1] m' u := by
  have hk : Denotes 7 [0] ((Handler.inTransaction linkedGraph).cacheNode 7 (.ofElement 0)) :=
    ⟨rfl, _, Handler.cacheNode_same _ _ _, NodeView.ofElement _ 0⟩
  obtain ⟨found, m, t, m', u, v, hfound, hnew, hyields, -⟩ :=
    (and_search_and_neighbors (e := ⟨1, false, [], []⟩) hk.isOpen rfl).2.1 7 [0] .outgoing 3 hk
  obtain ⟨hnodup, hmem⟩ := hfound 0
  have hone : ∀ x, x ∈ found 0 ↔ x = 1 := by
    intro x
    rw [hmem]
    constructor
    · rintro ⟨⟨y, ed, hy, -, hconn, -⟩, -⟩
      cases y with
      | zero =>
          cases hy
          simpa [Direction.connects, eq_comm] using hconn
      | succ y => cases hy
    · rintro rfl
      exact ⟨⟨0, _, rfl, by decide, by decide, by simp⟩, by decide⟩
  have hlist : found 0 = [1] := List.perm_singleton.1
    ((List.perm_ext_iff_of_nodup hnodup (List.nodup_singleton 1)).2 (by simpa using hone))
  refine ⟨m, t, m', u, hnew, ?_⟩
  simpa [hlist] using hyields

end Vdms
