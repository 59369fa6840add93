import Vdms.Atomicity
import Vdms.Reaching

/-!
# Failures That Are Noticed

Which commands fail without being noticed depends on the command and the state before it. A
query that has found something fails if its result is of a type that `build_results` has no
case for, or if what it is to sum is not a number. An update succeeds through a cached
reference of its own, or through a query that selects a node; otherwise it fails, and the
transaction goes on.

## Main definitions

* `ResultInfo.Computable`: the result of a query can be computed.
* `QueryNode.FindsNodes`: the query of an update leads to nodes to update.
* `Noticed`: a command that does not fail, or whose failure ends the transaction.

## Main results

* `queryNode_success`, `queryEdge_success`: what a query reports that returns 0.
* `queryNode_selects`: a query that selects a node succeeds.
* `transaction_atomic`: a transaction of such commands is atomic.
-/

namespace Vdms

open Imp Imp.Prog Platform

/-- A value that can be summed. -/
def Property.IsNumber : Property → Prop
  | .integer _ | .float _ => True
  | _ => False

section

variable [Platform] {s t : Handler} {cmd : Command}

/-! ### Results -/

/-- The result can be computed over the elements of a graph: the type is one that
`build_results` has a case for, and what is summed are numbers. -/
def ResultInfo.Computable (r : ResultInfo) (el : ℕ → Element) (g : Graph) : Prop :=
  match r.rType with
  | .list | .count | .nodeID => True
  | .sum | .average => ∀ key ∈ r.responseKeys.head?, ∀ x v,
      g.props (el x) (stringID key) = some v → v.IsNumber
  | .cached | .edgeID | .tx => False

/-- No error has been reported, and a sum is still to be computed over the graph. -/
def Good (r : ResultInfo) (g : Graph) (t : Handler) : Prop :=
  t.response.errorCode = .success ∧ (r.rType = .sum ∨ r.rType = .average → t.db = g)

/-- `get_property` leaves the state as it is and returns a value that the graph has for the key.
-/
theorem getProperty_reads (x : Element) (key : StringID) :
    Reads (getProperty x key) s fun v => s.db.props x key = some v := by
  refine Reads.bind (call_reads _) fun _ _ => Reads.bind get_reads fun t ht => ?_
  subst ht
  cases hv : t.db.props x key with
  | some v => exact Reads.pure rfl
  | none => exact Sat.throw trivial

section Computable

variable {ι : Type} {I : Iter Handler PMGDException ι ℕ} {el : ℕ → Element} {r : ResultInfo}
  {g : Graph}

/-- What only moves cached references reports no error and leaves the graph as it is. -/
theorem Footprint.good {α : Type} {m : Handling α} (hm : Footprint [.move] m)
    (h : Good r g t) : Ensures m t fun _ u => Good r g u := by
  refine Ensures.mono (Sat.mono (hm t) (fun _ _ hu => hu) fun _ _ _ => trivial) fun _ u hu => ?_
  refine ⟨?_, fun hsum => (hu.db_eq (by simp)).trans (h.2 hsum)⟩
  rcases hu.errorCode_eq with heq | hmem
  · exact heq.trans h.1
  · simp at hmem

/-- A footprint without reports keeps success. -/
theorem Footprint.success {α : Type} {K : List Kind} {m : Handling α} (hm : Footprint K m)
    (hK : ∀ code, .report code ∉ K) (h : t.response.errorCode = .success) :
    Ensures m t fun _ u => u.response.errorCode = .success :=
  Sat.mono (hm.keeps_code (C := fun code => code = .success)
    (fun code hmem => absurd hmem (hK code)) h) (fun _ _ h => h) fun _ _ _ => trivial

/-- A sum of numbers reports no error: the first value is a number. -/
theorem buildSum_success (hI : IterFootprint [.move] I) (avg : Bool) (limit : Option ℕ)
    (hnumbers : ∀ key ∈ r.responseKeys.head?, ∀ x v,
      t.db.props (el x) (stringID key) = some v → v.IsNumber)
    (h : t.response.errorCode = .success) (ni : ι) :
    Ensures (buildSum I el avg limit r ni) t
      fun _ u => u.response.errorCode = .success := by
  have hresponds : IterFootprint [.move, .respond] I := hI.mono (by simp)
  refine Sat.ite (fun _ => ?_) fun _ => ?_
  · cases hkeys : r.responseKeys with
    | nil => exact Sat.stuck
    | cons key keys =>
        have hgood : Good { rType := .sum } t.db t := ⟨h, fun _ => rfl⟩
        refine Sat.bind ((hI.ref ni).good hgood) fun x u hu => ?_
        refine Reads.bind (getProperty_reads _ _) fun v hv => ?_
        rw [hu.2 (.inl rfl)] at hv
        have hnumber := hnumbers key (by rw [hkeys]; rfl) x v hv
        cases v with
        | integer z =>
            refine (accumulate_footprint el hresponds (by simp) limit _ addInteger_readOnly _
              (fun _ _ => ?_) ni).success (by simp) hu.1
            exact Footprint.ite (setFloat_footprint _) (setInt_footprint _)
        | float y =>
            refine (accumulate_footprint el hresponds (by simp) limit _ addFloat_readOnly _
              (fun _ _ => ?_) ni).success (by simp) hu.1
            exact Footprint.ite (setFloat_footprint _) (setFloat_footprint _)
        | _ => exact hnumber.elim
  · have hnothing : Footprint [.respond] (reportNothing avg) :=
      Footprint.ite (setFloat_footprint _) (setInt_footprint _)
    exact (hnothing.bind fun _ => Footprint.pure _).success (by simp) h

/-- **A result** that can be computed reports no error. -/
theorem buildResults_success (hI : IterFootprint [.move] I) (hr : r.Computable el g)
    (h : Good r g t) (ni : ι) :
    Ensures (buildResults I el ni r) t fun _ u => u.response.errorCode = .success := by
  have hplain : (∀ code, .report code ∉ r.rType.kinds) →
      Ensures (buildResults I el ni r) t fun _ u => u.response.errorCode = .success := by
    intro hno
    have hmoves : IterFootprint (.move :: r.rType.kinds) I := hI.mono (by simp)
    refine (buildResults_footprint el hmoves r (List.subset_cons_self _ _)
      ni).success (fun code hmem => ?_) h.1
    rcases List.mem_cons.1 hmem with heq | hmem
    · cases heq
    · exact hno code hmem
  cases hr' : r.rType
  case list | count | nodeID => exact hplain (by simp [hr', ResponseType.kinds])
  case sum =>
    have hdb := h.2 (.inl hr')
    simp only [ResultInfo.Computable, hr'] at hr
    rw [buildResults, hr']
    exact buildSum_success hI _ _ (hdb ▸ hr) h.1 ni
  case average =>
    have hdb := h.2 (.inr hr')
    simp only [ResultInfo.Computable, hr'] at hr
    rw [buildResults, hr']
    exact buildSum_success hI _ _ (hdb ▸ hr) h.1 ni
  all_goals simp [ResultInfo.Computable, hr'] at hr

end Computable

/-! ### Queries -/

section Query

variable {qn : QueryNode} {qe : QueryEdge} {g : Graph}

/-- The result of a query can be computed; `Cached` is one of a reusable iterator only. -/
def QueryNode.Computable (qn : QueryNode) (g : Graph) : Prop :=
  qn.results.Computable Element.node g ∨ qn.results.rType = .cached ∧
    (0 ≤ qn.identifier ∨ qn.constraints.unique ∨ qn.results.sort)

def QueryEdge.Computable (qe : QueryEdge) (g : Graph) : Prop :=
  qe.results.Computable Element.edge g ∨ qe.results.rType = .cached ∧
    (0 ≤ qe.identifier ∨ qe.constraints.unique ∨ qe.results.sort)

/-- The results that are built from a reusable iterator over a computable result are no error. -/
theorem reusableResults_success {ι : Type} {I : Iter Handler PMGDException ι ℕ}
    {el : ℕ → Element} {r : ResultInfo} (hI : IterFootprint [.move] I)
    (hr : r.Computable el g ∨ r.rType = .cached) (h : Good r g t)
    (tni : ReusableIterator ι ℕ) :
    Ensures (reusableResults I el r tni) t fun _ u => u.response.errorCode = .success := by
  refine Sat.ite (fun hne => ?_) fun _ => Sat.pure h.1
  exact buildResults_success (ReusableIterator.iter_footprint hI) (hr.resolve_right hne) h tni

/-- The end of a query of nodes reports success if its result can be computed. -/
theorem queryNodeFinish_success (hr : qn.Computable g) (start : Start)
    (tni : ReusableIterator NodeIterator NodeID) (h : Good qn.results g t) :
    Ensures (queryNodeFinish qn start tni) t fun _ u => u.response.errorCode = .success := by
  refine Sat.bind ((sortResults_footprint Element.node NodeIterator.footprint qn.results
    tni).good h) fun tni u hu => ?_
  refine Sat.bind (reusableResults_success NodeIterator.footprint (hr.imp_right And.left) hu tni)
    fun tni w hw => ?_
  refine Sat.bind (P := fun _ x => x.response.errorCode = .success) (Sat.ite (fun _ => ?_)
    fun _ => Sat.pure hw) fun _ x hx => ?_
  · refine Sat.bind ((traverseLinked_footprint start tni).success (by simp) hw) fun tni x hx => ?_
    exact Sat.modify hx
  · refine Sat.bind ((resetStart_footprint start).success (by simp) hx) fun _ y hy => ?_
    exact Sat.pure hy

/-- After the search, if what works on a reusable iterator does so. -/
theorem queryNodeFound_ensures {Q : ℤ → Handler → Prop} (hr : qn.Computable g) (start : Start)
    (ni : NodeIterator) (hdb : t.db = g) (hQ : ∀ u, u.response.errorCode = .success → Q 0 u)
    (hreusable : ∀ u, Good qn.results g u → u.db = t.db →
      Ensures (queryNodeReusable qn start ni) u Q) :
    Ensures (queryNodeFound qn start ni) t Q := by
  have hgood : Good qn.results g (t.modifyResponse fun r => { r with
      rType := qn.results.rType, errorCode := .success }) := ⟨rfl, fun _ => hdb⟩
  refine Sat.modify_bind (Sat.ite (fun hplain => ?_) fun _ => hreusable _ hgood rfl)
  have hr := hr.resolve_right fun h => hplain h.2
  refine Sat.bind (buildResults_success NodeIterator.footprint hr hgood ni) fun _ u hu => ?_
  refine Sat.bind ((resetStart_footprint start).success (by simp) hu) fun _ w hw => ?_
  exact Sat.pure (hQ _ hw)

/-- A query that goes through a reusable iterator reports success, or returns a number below 0. -/
theorem queryNodeReusable_reports (hr : qn.Computable g) (start : Start) (ni : NodeIterator)
    (h : Good qn.results g t) :
    Ensures (queryNodeReusable qn start ni) t (Reports fun code => code = .success) := by
  have hnext := ReusableIterator.next_footprint (τ := NodeID) NodeIterator.footprint
  refine Sat.bind ((hnext _).good h) fun tni u hu => ?_
  refine Sat.ite (fun _ => ?_) fun _ => ?_
  · refine Sat.bind ((hnext tni).good hu) fun tni w hw => Sat.ite (fun _ => ?_) fun _ => ?_
    · exact Sat.seq fun _ t => Sat.seq fun _ t => Sat.pure fun h => absurd h (by decide)
    · exact Ensures.mono (queryNodeFinish_success hr start _ hw) fun _ _ h _ => h
  · exact Ensures.mono (queryNodeFinish_success hr start tni hu) fun _ _ h _ => h

/-- **A query for nodes** whose result can be computed and that returns 0 reports success. -/
theorem queryNode_success (hr : qn.Computable s.db) :
    Ensures (queryNode qn) s (Reports fun code => code = .success) := by
  have hfrom : ∀ start : Start,
      Ensures (queryNodeFrom qn start) s (Reports fun code => code = .success) := fun start => by
    refine Sat.bind (P := fun _ t => t.db = s.db) (Ensures.mono (Sat.mono
      (queryNodeSearch_footprint qn start s) (fun _ _ h => h) fun _ _ _ => trivial)
      fun _ _ h => h.db_eq (by simp)) fun ni t ht => ?_
    refine Sat.ite (fun _ => ?_) fun _ => ?_
    · exact Sat.seq fun _ t => Sat.seq fun _ t => Sat.pure fun h => absurd h (by decide)
    · exact queryNodeFound_ensures hr start ni ht (fun _ h _ => h)
        fun u hu _ => queryNodeReusable_reports hr start ni hu
  refine Sat.get_bind (Sat.ite (fun _ => fail_reports _ _) fun _ => ?_)
  split
  · exact hfrom _
  · exact Sat.ite (fun _ => fail_reports _ _) fun _ =>
      Sat.ite (fun _ => fail_reports _ _) fun _ => hfrom _

/-- **A query for edges** whose result can be computed and that returns 0 reports success. -/
theorem queryEdge_success (hr : qe.Computable s.db) :
    Ensures (queryEdge qe) s (Reports fun code => code = .success) := by
  have hnext := ReusableIterator.next_footprint (τ := EdgeID) NodeEdgeIteratorImpl.footprint
  have hall := ReusableIterator.traverseAll_footprint (τ := EdgeID) NodeEdgeIteratorImpl.footprint
  have hfinish : ∀ {t refs} (tei : ReusableIterator NodeEdgeIteratorImpl EdgeID),
      Good qe.results s.db t → Ensures (queryEdgeFinish qe refs tei) t
        (Reports fun code => code = .success) := by
    intro t refs tei h
    refine Sat.bind ((sortResults_footprint Element.edge NodeEdgeIteratorImpl.footprint qe.results
      tei).good h) fun tei u hu => ?_
    refine Sat.bind (reusableResults_success NodeEdgeIteratorImpl.footprint
      (hr.imp_right And.left) hu tei) fun tei w hw => ?_
    refine Sat.bind (P := fun _ x => x.response.errorCode = .success) (Sat.ite (fun _ => ?_)
      fun _ => Sat.pure hw) fun _ x hx => ?_
    · refine Sat.bind ((hall tei).success (by simp) hw) fun tei x hx => ?_
      exact Sat.modify hx
    · refine Sat.bind ((resetAll_footprint refs).success (by simp) hx) fun _ y hy => ?_
      exact Sat.pure fun _ => hy
  refine Sat.modify_bind (Sat.get_bind (Sat.ite (fun _ => fail_reports _ _) fun _ => ?_))
  refine Sat.ite (fun _ => fail_reports _ _) fun _ => ?_
  refine Sat.bind (P := fun _ t => t.db = s.db) (Ensures.mono (Sat.mono
    (queryEdgeSearch_footprint qe _) (fun _ _ h => h) fun _ _ _ => trivial)
    fun _ _ h => h.db_eq (by simp)) fun p t ht => ?_
  refine Sat.ite (fun _ => ?_) fun _ => Sat.modify_bind ?_
  · exact Sat.seq fun _ t => Sat.seq fun _ t => Sat.pure fun h => absurd h (by decide)
  · have hgood : Good qe.results s.db (t.modifyResponse fun r => { r with
        rType := qe.results.rType, errorCode := .success }) := ⟨rfl, fun _ => ht⟩
    refine Sat.ite (fun hplain => ?_) fun _ => ?_
    · have hr := hr.resolve_right fun h => hplain h.2
      refine Sat.bind (buildResults_success NodeEdgeIteratorImpl.footprint hr hgood p.1)
        fun _ u hu => ?_
      refine Sat.bind ((resetAll_footprint p.2).success (by simp) hu) fun _ w hw => ?_
      exact Sat.pure fun _ => hw
    · refine Sat.bind ((hnext _).good hgood) fun tei u hu => ?_
      refine Sat.ite (fun _ => ?_) fun _ => hfinish tei hu
      refine Sat.bind ((hnext tei).good hu) fun tei w hw => ?_
      refine Sat.ite (fun _ => ?_) fun _ => hfinish _ hw
      exact Sat.seq fun _ t => Sat.seq fun _ t => Sat.pure fun h => absurd h (by decide)

end Query

/-! ### Searches that select a node -/

section Selecting

variable [Platform.Lawful]

omit [Platform.Lawful] in
/-- The test of a candidate leaves the state as it is and decides what `accepts` says. -/
theorem NodeAndIteratorImpl.candidate_reads_eq (i : NodeAndIteratorImpl) (n : NodeID) :
    Reads (i.candidate n) s fun b => b = i.accepts s.db n := by
  refine Reads.bind get_reads fun t ht => ?_
  subst ht
  refine Sat.ite (fun h => Reads.pure ?_) fun h => ?_
  · rw [NodeAndIteratorImpl.accepts, decide_eq_true h]
    rfl
  · refine Reads.mono (passAll_reads _ _) fun b hb => ?_
    rw [NodeAndIteratorImpl.accepts, decide_eq_false h, hb]
    rfl

omit [Platform.Lawful] in
/-- Moving a cursor on leaves the state as it is and the rest of the list ahead. -/
theorem Cursor.Ahead.next_reads {c : Cursor} {n : ℕ} {l : List ℕ} (h : c.Ahead s.db (n :: l)) :
    Reads c.next s fun c' => c'.Ahead s.db l := by
  refine Reads.bind (call_reads _) fun _ _ => Reads.bind get_reads fun t ht => ?_
  subst ht
  exact Reads.pure h.step

omit [Platform.Lawful] in
/-- `_next` of a conjunctive iterator drops what it does not accept. -/
theorem NodeAndIteratorImpl.findNext_ahead {i : NodeAndIteratorImpl} {l : List NodeID}
    (h : i.mNodeIt.Ahead s.db l) : Reads i.findNext s fun i' => ∃ c : Cursor,
      i' = { i with mNodeIt := c } ∧ c.Ahead s.db (l.dropWhile fun n => !i.accepts s.db n) := by
  refine Sat.loop (fun i' t => t = s ∧ ∃ (c : Cursor) (l' : List NodeID),
    i' = { i with mNodeIt := c } ∧ c.Ahead s.db l' ∧
      (l'.dropWhile fun n => !i.accepts s.db n) = l.dropWhile fun n => !i.accepts s.db n) ?_
    ⟨rfl, i.mNodeIt, l, rfl, h, rfl⟩
  rintro _ t ⟨rfl, c, l', rfl, hc, hdrop⟩
  cases l' with
  | nil =>
      have hcur : c.cur = none := hc.cur_eq
      simp only [hcur]
      exact Sat.pure ⟨rfl, c, rfl, hdrop ▸ hc⟩
  | cons n l' =>
      have hcur : c.cur = some n := hc.cur_eq
      simp only [hcur]
      refine Reads.bind (candidate_reads_eq { i with mNodeIt := c } n) fun b hb => ?_
      have hb : b = i.accepts t.db n := hb
      refine Sat.ite (fun htrue => ?_) fun hfalse => ?_
      · rw [List.dropWhile_cons_of_neg (by simp [← hb, htrue])] at hdrop
        exact Sat.pure ⟨rfl, c, rfl, hdrop ▸ hc⟩
      · rw [List.dropWhile_cons_of_pos (by simp [← hb, hfalse])] at hdrop
        refine Reads.bind hc.next_reads fun c' hc' => Sat.pure ⟨rfl, c', l', rfl, hc', hdrop⟩

omit [Platform.Lawful] in
/-- Moving a search on leaves the state as it is and the rest of the list ahead. -/
theorem SearchIterator.Ahead.next_reads {i : SearchIterator} {n : NodeID} {l : List NodeID}
    (h : i.Ahead s.db (n :: l)) :
    Reads (SearchIterator.iter.next i) s fun i' => i'.Ahead s.db l := by
  generalize hl : n :: l = l' at h
  cases h with
  | @and i m hc hhead =>
      cases m with
      | nil => cases hl
      | cons a m =>
          rw [List.filter_cons_of_pos (hhead a rfl)] at hl
          injection hl with _ hl
          have hnext : Reads i.next s fun i' => ∃ c : Cursor, i' = { i with mNodeIt := c } ∧
              c.Ahead s.db (m.dropWhile fun n => !i.accepts s.db n) :=
            Reads.bind hc.next_reads fun c hc => Reads.mono
              (NodeAndIteratorImpl.findNext_ahead (i := { i with mNodeIt := c }) hc) fun _ h => h
          refine Reads.bind hnext fun i' hi' => Reads.pure ?_
          obtain ⟨c', rfl, hahead⟩ := hi'
          rw [hl]
          exact SearchIterator.ahead_dropWhile (i := { i with mNodeIt := c' }) hahead
  | or _ => cases hl

/-- A conjunctive search over all nodes has its matches ahead. -/
theorem evalNodes_ahead {e : SearchExpression} (he : e.isOr = false) :
    Reads e.evalNodes s fun i => i.Ahead s.db (e.matchList s.db) := by
  have hnot : ¬ e.isOr = true := by simp [he]
  have hnew : Reads (NodeAndIteratorImpl.new e) s fun i => ∃ c : Cursor,
      i = { expr := e, mNodeIt := c, startAt := 1, neighbor := false } ∧
        c.Ahead s.db ((scanList s.db e.indexLookup).dropWhile fun n =>
          !(e.nodePredicates.drop 1).all fun pp => passes pp (s.db.props (.node n))) := by
    have hscan : Reads (scan e.indexLookup) s fun c => c.Ahead s.db (scanList s.db e.indexLookup) :=
      Reads.bind (call_reads _) fun _ _ => Reads.bind get_reads fun t ht => by
        subst ht
        exact Reads.pure (Cursor.ahead_start t.db _)
    refine Reads.bind hscan fun c hc => ?_
    refine Reads.mono (NodeAndIteratorImpl.findNext_ahead hc) fun i hi => ?_
    obtain ⟨c', rfl, hahead⟩ := hi
    refine ⟨c', rfl, ?_⟩
    simpa [NodeAndIteratorImpl.accepts] using hahead
  refine Sat.ite (fun h => absurd h hnot) fun _ => Reads.bind hnew fun i hi => Reads.pure ?_
  obtain ⟨c, rfl, hahead⟩ := hi
  have hacc : ({ expr := e, mNodeIt := c, startAt := 1, neighbor := false } :
      NodeAndIteratorImpl).accepts s.db = fun n =>
        (e.nodePredicates.drop 1).all fun pp => passes pp (s.db.props (.node n)) := by
    funext n
    simp [NodeAndIteratorImpl.accepts]
  have hahead := SearchIterator.ahead_dropWhile (g := s.db) (l := scanList s.db e.indexLookup)
    (i := { expr := e, mNodeIt := c, startAt := 1, neighbor := false }) (by rw [hacc]; exact hahead)
  rwa [hacc] at hahead

/-- **A search** that selects a node is not null. -/
theorem evalNodes_finds [Platform.Fresh] {e : SearchExpression} {n : NodeID}
    (hn : e.Selects s.db n) :
    Reads e.evalNodes s fun i => SearchIterator.iter.bool i = true := by
  by_cases hor : e.isOr = true
  · rw [SearchExpression.Selects, if_pos hor] at hn
    obtain ⟨nd, hnd, htag, pp, hpp, hpass⟩ := hn
    refine Sat.ite (fun _ => ?_) fun h => absurd hor h
    refine Reads.bind (NodeOrIteratorImpl.findNext_finds _) fun i hi => Reads.pure ?_
    rcases hi with ⟨m, hm, -⟩ | hnone
    · simp [SearchIterator.iter, NodeOrIteratorImpl.bool, hm]
    · obtain ⟨k, hk⟩ := List.mem_iff_getElem?.1 hpp
      refine absurd ?_ (hnone k pp (Nat.zero_le k) hk n)
      simp [Lookup.matches, Lookup.matchesBy, hnd, htag, hpass]
  · rw [SearchExpression.Selects, if_neg hor] at hn
    refine Reads.mono (evalNodes_ahead (Bool.eq_false_iff.2 hor)) fun i hi => ?_
    rw [hi.bool_eq]
    have hmem := SearchExpression.mem_matchList.2 hn
    cases hlist : e.matchList s.db with
    | nil =>
        rw [hlist] at hmem
        cases hmem
    | cons m l => rfl

omit [Platform.Lawful] in
/-- A reusable iterator over one element has no other. -/
theorem reusable_single {i : SearchIterator} {n : NodeID} (h : i.Ahead s.db [n]) :
    Reads (ReusableIterator.new NodeIterator.iter (.search i)) s fun tni =>
      Reads (tni.next NodeIterator.iter) s fun tni' => tni'.bool = false := by
  have hbool : (orNull NodeIterator.iter).bool (some (.search i)) = true := h.bool_eq
  simp only [ReusableIterator.new, ReusableIterator.next, ReusableIterator.advance,
    List.isEmpty_nil, Bool.not_true, Bool.false_eq_true, if_false, hbool, if_true, List.drop_nil]
  refine Reads.bind (P := fun _ => True) ?_ fun x _ => ?_
  · exact Reads.mono (SearchIterator.ref_reads i) fun _ _ => trivial
  · refine Reads.bind (P := fun ti => (orNull NodeIterator.iter).bool ti = false) ?_
      fun ti hti => ?_
    · have hnext : Reads (NodeIterator.iter.next (.search i)) s fun i' =>
          NodeIterator.iter.bool i' = false :=
        Reads.bind h.next_reads fun i' hi' => Reads.pure hi'.bool_eq
      exact Reads.bind hnext fun i' hi' => Reads.pure hi'
    · refine Reads.pure ?_
      simp only [List.drop_succ_cons, List.drop_nil, List.isEmpty_nil, Bool.not_true,
        Bool.false_eq_true, if_false, hti]
      exact Reads.pure rfl

/-- The query of an update leads to nodes to update: it has a free reference and no link, its
result can be computed, its search selects a node, and only one if this is to be unique. -/
structure QueryNode.FindsNodes (qn : QueryNode) (s : Handler) : Prop where
  named : 0 ≤ qn.identifier
  free : s.cachedNodes (toInt qn.identifier) = none
  unlinked : qn.link = none
  computable : qn.Computable s.db
  selects : ∀ e, qn.constraints.search = .ok e → ∃ n, e.Selects s.db n
  single : qn.constraints.unique = true → ∀ e, qn.constraints.search = .ok e →
    e.isOr = false ∧ ∀ n m, e.Selects s.db n → e.Selects s.db m → n = m

omit [Platform.Lawful] in
/-- A conjunctive search that selects one node has it ahead. -/
theorem matchList_single [Platform.Lawful] {e : SearchExpression} {g : Graph} {n : NodeID}
    (he : e.isOr = false) (hn : e.Selects g n) (hone : ∀ m, e.Selects g m → m = n) :
    e.matchList g = [n] := by
  have hmem : ∀ m, m ∈ e.matchList g ↔ e.Selects g m := fun m => by
    rw [SearchExpression.mem_matchList, SearchExpression.Selects, he]
    simp
  exact List.perm_singleton.1 ((List.perm_ext_iff_of_nodup (e.matchList_nodup g)
    (List.nodup_singleton n)).2 fun m => by
      rw [hmem, List.mem_singleton]
      exact ⟨hone m, fun h => h ▸ hn⟩)

/-- **A query that finds nodes** reports success. -/
theorem queryNode_selects [Platform.Fresh] {qn : QueryNode} (h : qn.FindsNodes s) :
    Ensures (queryNode qn) s fun _ t => t.response.errorCode = .success := by
  have hfree : ¬ (0 ≤ qn.identifier ∧ (s.cachedNodes (toInt qn.identifier)).isSome) := by
    simp [h.free]
  refine Sat.get_bind (Sat.ite (fun hcached => absurd hcached hfree) fun _ => ?_)
  rw [h.unlinked]
  cases hsearch : qn.constraints.search with
  | error x =>
      have hthrow : Ensures (queryNodeSearch qn none) s fun _ _ => False := by
        rw [queryNodeSearch, hsearch]
        exact Sat.bind (P := fun _ _ => False) (Sat.throw trivial) fun _ _ h => h.elim
      exact Sat.bind hthrow fun _ _ h => h.elim
  | ok e =>
      obtain ⟨n, hn⟩ := h.selects e hsearch
      have hfind : Reads (queryNodeSearch qn none) s fun ni => ∃ i : SearchIterator,
          ni = .search i ∧ SearchIterator.iter.bool i = true ∧
            (e.isOr = false → i.Ahead s.db (e.matchList s.db)) := by
        rw [queryNodeSearch, hsearch]
        refine Reads.bind (P := fun e' => e = e') (Reads.pure rfl) ?_
        rintro _ rfl
        have hahead : Reads e.evalNodes s fun i =>
            e.isOr = false → i.Ahead s.db (e.matchList s.db) := by
          by_cases he : e.isOr = false
          · exact Reads.mono (evalNodes_ahead he) fun _ hi _ => hi
          · exact Reads.mono (evalNodes_finds hn) fun _ _ h => absurd h he
        refine Reads.bind (Reads.and (evalNodes_finds hn) hahead) fun i hi => ?_
        exact Reads.pure ⟨i, rfl, hi⟩
      refine Reads.bind hfind ?_
      rintro _ ⟨i, rfl, hbool, hahead⟩
      have hnotnull : ¬ (!NodeIterator.iter.bool (.search i) ∧ 0 ≤ qn.identifier) := by
        have hbool : NodeIterator.iter.bool (.search i) = true := hbool
        simp [hbool]
      refine Sat.ite (fun hnull => absurd hnull hnotnull) fun _ => ?_
      refine queryNodeFound_ensures h.computable none _ rfl (fun _ hu => hu) fun u hu hdb => ?_
      by_cases hunique : qn.constraints.unique = true
      · obtain ⟨he, hone⟩ := h.single hunique e hsearch
        have hahead := hahead he
        rw [matchList_single he hn (fun m hm => hone m n hm hn), ← hdb] at hahead
        refine Reads.bind (reusable_single hahead) fun tni htni => Sat.ite (fun _ => ?_) fun _ => ?_
        · refine Reads.bind htni fun tni' hnull => Sat.ite (fun hsome => ?_) fun _ => ?_
          · rw [hnull] at hsome
            cases hsome
          · exact queryNodeFinish_success h.computable none _ hu
        · exact queryNodeFinish_success h.computable none _ hu
      · have hnext := ReusableIterator.next_footprint (τ := NodeID) NodeIterator.footprint
        refine Sat.bind ((hnext _).good hu) fun tni w hw => ?_
        refine Sat.ite (fun h => absurd h hunique) fun _ => ?_
        exact queryNodeFinish_success h.computable none tni hw

end Selecting

/-! ### Transactions -/

/-- The command does not fail, or its failure ends the transaction. A query has a result that
can be computed. An update of nodes has a cached reference of its own, or a query that finds
nodes. An update of edges has a cached reference of its own. -/
def Noticed (cmd : Command) (s : Handler) : Prop :=
  match cmd.cmdId with
  | .queryNode => cmd.queryNode.Computable s.db
  | .queryEdge => cmd.queryEdge.Computable s.db
  | .updateNode =>
      0 ≤ cmd.updateNode.identifier ∧
          (s.cachedNodes (toInt cmd.updateNode.identifier)).isSome ∨
        ∃ qn, cmd.updateNode.queryNode = some qn ∧ qn.FindsNodes s
  | .updateEdge =>
      0 ≤ cmd.updateEdge.identifier ∧
        (s.cachedEdges (toInt cmd.updateEdge.identifier)).isSome
  | _ => True

variable [Platform.Lawful] [Platform.Fresh]

/-- The condition on the command and the state rules out that its run fails unnoticed. -/
theorem Noticed.not_fails (h : Noticed cmd s) : ¬ FailsUnnoticed cmd s := by
  have hdb : (s.begin cmd).db = s.db := rfl
  intro hfails
  rw [Noticed] at h
  rw [FailsUnnoticed] at hfails
  cases hid : cmd.cmdId
  case queryNode =>
    simp only [hid] at h hfails
    obtain ⟨v, t, hrun, hv, hcode⟩ := hfails
    have hsucc := (queryNode_success (hdb ▸ h)).ret hrun hv
    rw [hcode] at hsucc
    cases hsucc
  case queryEdge =>
    simp only [hid] at h hfails
    obtain ⟨v, t, hrun, hv, hcode⟩ := hfails
    have hsucc := (queryEdge_success (hdb ▸ h)).ret hrun hv
    rw [hcode] at hsucc
    cases hsucc
  case updateNode =>
    simp only [hid] at h hfails
    obtain ⟨hown, hnothing⟩ := hfails
    rcases h with h | ⟨qn, hqn, hfinds⟩
    · exact hown h
    · rw [hqn] at hnothing
      obtain ⟨v, t, hrun, hcode⟩ := hnothing
      have hfinds : qn.FindsNodes (s.begin cmd) :=
        ⟨hfinds.named, hfinds.free, hfinds.unlinked, hfinds.computable, hfinds.selects,
          hfinds.single⟩
      rcases hcode with hcode | hneg
      · exact hcode ((queryNode_selects hfinds).ret hrun)
      · exact absurd hfinds.named (by omega)
  case updateEdge =>
    simp only [hid] at h hfails
    exact hfails.1 h
  all_goals simp [hid] at hfails

/-- **Atomicity.** A transaction of commands that do not fail, or whose failure ends it, is
atomic. -/
theorem transaction_atomic {r : Request} {rs : Responses} (hr : IsTransaction r.cmds)
    (h : Runs r.process s (.ret rs t)) (hnoticed : EachCommand Noticed r.cmds (r.opens s)) :
    Atomic r.cmds s t rs :=
  atomic_of_noticed hr h (hnoticed.mono fun _ _ h => h.not_fails)

end

/-- The query for what has the age 7. -/
def whoseAge : QueryNode where
  identifier := 2
  results := { rType := .count }
  constraints := {
    predicates := [{
      key := .name "age"
      op := .eq
      v1 := { type := .integerType, key := "age", intValue := 7 } }] }

/-- A transaction that adds a node, updates it by its reference and by a search, and counts. -/
def addAndUpdate : Request where
  cmds := [
    { cmdId := .txBegin },
    { cmdId := .addNode, addNode := { identifier := 1 } },
    { cmdId := .updateNode, updateNode := {
      identifier := 1
      properties := [{ type := .integerType, key := "age", intValue := 7 }] } },
    { cmdId := .updateNode, updateNode := {
      identifier := -1
      queryNode := some whoseAge
      removeProps := ["name"] } },
    { cmdId := .queryNode, queryNode := { identifier := -1, results := { rType := .count } } },
    { cmdId := .txCommit }]
  numGroups := 1
  readonly := false
  resultdeletion := false

/-- The query finds the node that has the age, if its reference is free. -/
theorem whoseAge_finds {s : Handler} (hfree : s.cachedNodes 2 = none)
    (hfound : ∀ e, whoseAge.constraints.search = .ok e → e.Selects s.db 0) :
    whoseAge.FindsNodes s where
  named := by decide
  free := hfree
  unlinked := rfl
  computable := by simp [QueryNode.Computable, ResultInfo.Computable, whoseAge]
  selects e he := ⟨0, hfound e he⟩
  single h := by cases h

/-- The additions and updates are atomic. -/
theorem transaction_atomic_updates : ∃ rs t,
    Runs addAndUpdate.process { db := ⟨[], []⟩ } (.ret rs t) ∧
      Atomic addAndUpdate.cmds { db := ⟨[], []⟩ } t rs ∧ t.db.nodes.length = 1 := by
  have hcount : ∀ u, Noticed { cmdId := .queryNode, queryNode :=
      { identifier := -1, results := { rType := .count } } } u := fun u => by
    simp [Noticed, QueryNode.Computable, ResultInfo.Computable]
  obtain ⟨rs, t, hrun, hnodes, hnoticed⟩ : ∃ rs t,
      Runs addAndUpdate.process { db := ⟨[], []⟩ } (.ret rs t) ∧ t.db.nodes.length = 1 ∧
        EachCommand Noticed addAndUpdate.cmds (addAndUpdate.opens { db := ⟨[], []⟩ }) := by
    refine ⟨_, _, Runs.of_ret (n := 8) rfl, ?_, ?_⟩
    · rfl
    refine eachCommand_cons_of_runs (Runs.of_ret (n := 2) rfl) trivial ?_
    refine eachCommand_cons_of_runs (Runs.of_ret (n := 2) rfl) trivial ?_
    refine eachCommand_cons_of_runs (Runs.of_ret (n := 2) rfl) (.inl ⟨by decide, rfl⟩) ?_
    refine eachCommand_cons_of_runs (Runs.of_ret (n := 8) rfl) (.inr ⟨_, rfl, ?_⟩) ?_
    · exact whoseAge_finds rfl fun e he => by
        cases he
        exact ⟨_, rfl, rfl, by decide⟩
    refine eachCommand_cons_of_runs (Runs.of_ret (n := 8) rfl) (hcount _) ?_
    exact eachCommand_cons_of_runs (Runs.of_ret (n := 2) rfl) trivial eachCommand_nil
  exact ⟨rs, t, hrun, transaction_atomic
    ⟨_, addAndUpdate.cmds.tail.dropLast, { cmdId := .txCommit }, rfl, rfl, by decide, rfl⟩
    hrun hnoticed, hnodes⟩

/-- A transaction that adds a node and does one more thing. -/
def addAnd (cmd : Command) : Request where
  cmds := [{ cmdId := .txBegin }, { cmdId := .addNode, addNode := { identifier := -1 } }, cmd,
    { cmdId := .txCommit }]
  numGroups := 1
  readonly := false
  resultdeletion := false

/-- **A failure that goes unnoticed.** The update fails, and the node is added all the
same. -/
theorem update_fails_unnoticed : ∃ rs t,
    Runs (addAnd { cmdId := .updateNode, updateNode := { identifier := 5 } }).process
      { db := ⟨[], []⟩ } (.ret rs t) ∧
    (∃ r ∈ rs.flatten, r.errorCode = .error) ∧ t.db ≠ (⟨[], []⟩ : Graph) ∧
    ¬ Atomic (addAnd { cmdId := .updateNode, updateNode := { identifier := 5 } }).cmds
      { db := ⟨[], []⟩ } t rs := by
  obtain ⟨rs, t, hrun, herror, hdb⟩ : ∃ rs t,
      Runs (addAnd { cmdId := .updateNode, updateNode := { identifier := 5 } }).process
        { db := ⟨[], []⟩ } (.ret rs t) ∧
      (rs.flatten.map Response.errorCode)[2]? = some .error ∧ t.db.nodes.length = 1 :=
    ⟨_, _, Runs.of_ret (n := 2) rfl, rfl, rfl⟩
  obtain ⟨r, hr, hcode⟩ := List.mem_map.1 (List.mem_of_getElem? herror)
  have hchanged : t.db ≠ (⟨[], []⟩ : Graph) := by
    intro heq
    rw [heq] at hdb
    cases hdb
  refine ⟨rs, t, hrun, ⟨r, hr, hcode⟩, hchanged, fun hatomic => ?_⟩
  rcases (hatomic hchanged).2 r hr with hsucc | hexists
  · rw [hcode] at hsucc
    cases hsucc
  · rw [hcode] at hexists
    cases hexists

end Vdms
