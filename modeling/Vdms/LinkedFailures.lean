import Vdms.Iterating
import Vdms.LinkedAnswers
import Vdms.OrSearch

/-!
# Linked Queries without a List

A linked query with a reference goes over all that it finds before it is done. If it asks for a
disjunction its iterator never ends, so it is never done. What it answers with is of the type
that it asks for.

## Main results

* `traverseAll_endless`: an iterator that never ends is not gone over.
* `queryNode_type`: the type of an answer.
* `LinkedQuery.of_runs`: what a query is like that answers with a list.
-/

namespace Vdms

open Imp Imp.Prog Platform Relation

section

variable [Platform] {ι τ : Type} {I : Iter Handler PMGDException ι τ} {P : Handler → Prop}
  {S : Handler → Handler → Prop} {J : ι → Handler → Prop} {E : τ → Handler → Prop} {s : Handler}

/-! ### Iterators that never end -/

namespace ReusableIterator

/-- A reusable iterator that still pulls from an iterator. -/
def Attached (J : ι → Handler → Prop) (E : τ → Handler → Prop) (r : ReusableIterator ι τ)
    (s : Handler) : Prop :=
  r.Holding J E s ∧ r.ti.isSome = true

variable {r : ReusableIterator ι τ}

omit [Platform] in
theorem next_attached (h : I.Keeps P S J E) (hP : P s) (hr : r.Attached J E s) :
    Ensures (r.next I) s fun r' t => P t ∧ S s t ∧ r'.Attached J E t := by
  have hsome : Ensures (r.next I) s fun r' _ => r'.ti.isSome = true := by
    have hstay : Ensures (pure r.advance : Handling _) s fun r' _ => r'.ti.isSome = true :=
      Sat.pure hr.2
    refine Sat.ite (fun _ => hstay) fun _ => Sat.ite (fun _ => ?_) fun _ => hstay
    refine Sat.seq fun x t => ?_
    obtain ⟨i, hi⟩ := Option.isSome_iff_exists.mp hr.2
    rw [hi]
    refine Sat.bind (P := fun ti _ => ti.isSome = true) (Sat.seq fun i' u => Sat.pure rfl)
      fun ti u hti => Sat.pure hti
  refine Sat.mono (Sat.and (next_keeps h hP hr.1) hsome) (fun r' t ht => ?_) fun _ _ _ => trivial
  obtain ⟨⟨hPt, hS, hhold⟩, hti⟩ := ht
  exact ⟨hPt, hS, hhold, hti⟩

omit [Platform] in
theorem attached_keeps (h : I.Keeps P S J E) : (iter I).Keeps P S (Attached J E) E where
  refl := h.refl
  trans := h.trans
  iter_stable hS hr := ⟨(keeps h).iter_stable hS hr.1, hr.2⟩
  elem_stable := h.elem_stable
  ref hP hr := (keeps h).ref hP hr.1
  next hP hr := next_attached h hP hr

omit [Platform] in
/-- **An iterator that never ends** is not gone over to its end. -/
theorem traverseAll_endless (h : I.Keeps P S J E) (hbool : ∀ i s, J i s → I.bool i = true)
    (hP : P s) (hr : r.Attached J E s) : Ensures (r.traverseAll I) s fun _ _ => False := by
  obtain ⟨i, hi⟩ := Option.isSome_iff_exists.mp hr.2
  have hJ : J i s := hr.1.2 i hi
  refine Sat.bind (P := fun _ _ => False) ?_ fun _ _ h => h.elim
  rw [hi]
  refine Sat.loop (fun p t => P t ∧ ∃ i, p.1 = some i ∧ J i t) ?_ ⟨hP, i, rfl, hJ⟩
  rintro ⟨ti, acc⟩ t ⟨hPt, i, rfl, hJ⟩
  refine Sat.ite (fun _ => ?_) fun hend => absurd (hbool i t hJ) hend
  refine Reads.bind (h.ref hPt hJ) fun x _ => ?_
  refine Sat.bind (P := fun ti u => P u ∧ ∃ i, ti = some i ∧ J i u) ?_ fun ti u hu => Sat.pure hu
  exact Sat.bind (h.next hPt hJ) fun i' u hu => Sat.pure ⟨hu.1, i', rfl, hu.2.2⟩

end ReusableIterator

/-! ### Disjunctions along links -/

variable {g : Graph}

/-- The graph that is searched, and nothing is deleted from it. -/
def Searching (g : Graph) (s : Handler) : Prop :=
  s.Open ∧ s.db = g ∧ s.resultdeletion = false

theorem searching_of_does {K : List Kind} {t : Handler} (h : Does K s t)
    (hK : ∀ κ ∈ K, κ ∉ [Kind.add, .update, .purge, .expire]) (hs : Searching g s) :
    Searching g t :=
  ⟨open_congr h.tx_eq hs.1, (h.db_eq hK).trans hs.2.1, h.resultdeletion_eq.trans hs.2.2⟩

variable [Platform.Lawful] [Platform.Quiet]

/-- An iterator over neighbours that points at one of a disjunction. -/
def OrLasting (g : Graph) (ni : NodeIterator) : Prop :=
  ∃ m o, ni = .multi m ∧ m.neighbI = some (.or o) ∧ NodeOrIteratorImpl.Lasting o g

omit [Platform.Lawful] [Platform.Quiet] in
theorem OrLasting.bool (ni : NodeIterator) (h : OrLasting g ni) :
    NodeIterator.iter.bool ni = true := by
  obtain ⟨m, o, rfl, hm, ho⟩ := h
  have hbool : m.bool = true := by
    rw [MultiNeighborIteratorImpl.bool, hm]
    exact ho.node
  exact hbool

/-- An iterator over the neighbours of a disjunction stays at the last of them. -/
theorem orLasting_keeps : NodeIterator.iter.Keeps (Searching g) (fun _ _ => True)
    (fun ni _ => OrLasting g ni) fun _ _ => True where
  refl _ := trivial
  trans _ _ := trivial
  iter_stable _ h := h
  elem_stable _ h := h
  ref {ni s} _ h := by
    obtain ⟨m, o, rfl, -, -⟩ := h
    have hread : ReadOnly (NodeIterator.iter.ref (.multi m)) :=
      (SearchIterator.footprint _).orNull.ref _
    exact hread.reads s
  next {ni s} hs h := by
    obtain ⟨m, o, rfl, hm, ho⟩ := h
    obtain ⟨hopen, rfl, hdel⟩ := hs
    obtain ⟨o', hrun, ho'⟩ := ho.next_runs hopen
    have hbool : m.bool = true := by
      rw [MultiNeighborIteratorImpl.bool, hm]
      exact ho.node
    have hpull : Runs ((orNull SearchIterator.iter).next m.neighbI) s (.ret (some (.or o')) s) := by
      rw [hm]
      exact (hrun.bind (Runs.of_eq fun _ => rfl)).bind (Runs.of_eq fun _ => rfl)
    have hstay : (orNull SearchIterator.iter).bool (some (.or o')) = true := ho'.node
    have hnext : Runs (NodeIterator.iter.next (.multi m)) s
        (.ret (.multi { m with neighbI := some (.or o') }) s) := by
      refine Runs.bind ?_ (Runs.of_eq fun _ => rfl)
      rw [MultiNeighborIteratorImpl.next, if_pos hbool]
      refine hpull.bind ?_
      rw [if_pos hstay]
      exact Runs.of_eq fun _ => rfl
    exact Sat.of_runs hnext ⟨⟨hopen, rfl, hdel⟩, trivial, _, o', rfl, rfl, ho'⟩

/-- The first neighbours of a disjunction: the iterator points at one of them, or there are
none. Every start node has been looked at then. -/
theorem orNew_ensures (k : ℤ) {e : SearchExpression} (he : e.isOr = true) (dir : Direction)
    (edgeTag : StringID) (hs : Searching g s) :
    Ensures (MultiNeighborIteratorImpl.new k e dir edgeTag) s fun m t => Searching g t ∧
      (m.bool = true → OrLasting g (.multi m)) := by
  let OrView (m : MultiNeighborIteratorImpl) : Prop :=
    m.searchNeighbors.isOr = true ∧ ∀ i, m.neighbI = some i → ∃ o : NodeOrIteratorImpl,
      i = .or o ∧ ∃ c l, o.neighborIt = some c ∧ c.Ahead g l
  have hlasting : ∀ m, OrView m → m.bool = true → OrLasting g (.multi m) := by
    rintro m ⟨-, hview⟩ hbool
    cases hm : m.neighbI with
    | none =>
        rw [MultiNeighborIteratorImpl.bool, hm] at hbool
        cases hbool
    | some i =>
        rw [MultiNeighborIteratorImpl.bool, hm] at hbool
        obtain ⟨o, rfl, hit⟩ := hview i hm
        exact ⟨m, o, rfl, hm, hbool, fun _ => hit⟩
  refine Sat.mono (Q := fun m t => Searching g t ∧ OrView m) ?_
    (fun m t h => ⟨h.1, hlasting m h.2⟩) fun _ _ h => h
  refine Sat.loop (fun m t => Searching g t ∧ OrView m) ?_ ⟨hs, he, fun i hi => by cases hi⟩
  rintro m t ⟨ht, hview⟩
  cases hstart : m.startNi with
  | none => exact Sat.pure ⟨ht, hview⟩
  | some k =>
      refine Reads.bind (cachedNode_reads k) fun r _ => Sat.ite (fun _ => ?_) fun _ =>
        Sat.pure ⟨ht, hview⟩
      refine Reads.bind ((ReusableIterator.ref_readOnly r).reads t) fun n _ => ?_
      obtain ⟨-, o, hnew, -, -, hit⟩ := newNeighbor_runs ht.1 m.searchNeighbors n
        m.dir m.edgeTag true
      have heval : Runs (m.searchNeighbors.evalNeighbors n m.dir m.edgeTag) t (.ret (.or o) t) := by
        rw [SearchExpression.evalNeighbors, if_pos hview.1]
        exact hnew.bind (Runs.of_eq fun _ => rfl)
      rw [ht.2.1] at hit
      have hfirst : Reads (m.searchNeighbors.evalNeighbors n m.dir m.edgeTag) t
          fun i => i = .or o := Sat.of_runs heval ⟨rfl, rfl⟩
      refine Reads.bind hfirst fun i hi => ?_
      have hview' : OrView { m with neighbI := some i } := by
        refine ⟨hview.1, fun i' hi' => ⟨o, ?_, hit⟩⟩
        rw [← hi]
        exact (Option.some.inj hi').symm
      refine Sat.bind (Sat.mono (nextCached_footprint k t) (fun _ u hu =>
        searching_of_does hu (by simp) ht) fun _ _ _ => trivial) fun _ u hu => ?_
      exact Sat.ite (fun _ => Sat.pure ⟨hu, hview'⟩) fun _ => Sat.pure ⟨hu, hview'⟩

/-! ### Queries for a disjunction -/

variable {q : QueryNode} {info : LinkInfo} {k : ℤ} {e : SearchExpression}

omit [Platform.Lawful] [Platform.Quiet] in
/-- Listing an element of a graph that nothing is deleted from. -/
theorem listElement_searching (x : Element) (keys : List String) (hs : Searching g s) :
    Ensures (listElement x keys) s fun _ t => Searching g t ∧ True := by
  refine Ensures.mono (listElement_sameView x keys hs.2.2) fun _ t ht => ?_
  obtain ⟨hdb, htx, -, hdel⟩ := ht
  exact ⟨⟨open_congr htx hs.1, hdb.trans hs.2.1, hdel⟩, trivial⟩

/-- **A query for a disjunction along a link**, with a reference, is never done if it finds
anything: the nodes are gone over to the end before they are cached, and there is no end. -/
theorem queryNodeFrom_endless (he : q.constraints.search = .ok e) (hor : e.isOr = true)
    (hid : 0 ≤ q.identifier) (hunique : q.constraints.unique = false) (hs : Searching g s) :
    Ensures (queryNodeFrom q (some (info, k))) s fun r _ => r ≠ 0 := by
  have hsearch : Ensures (queryNodeSearch q (some (info, k))) s fun ni t => Searching g t ∧
      (NodeIterator.iter.bool ni = true → OrLasting g ni) := by
    rw [queryNodeSearch, he]
    refine Reads.bind (P := fun e' => e' = e) (Sat.pure ⟨rfl, rfl⟩) fun e' he' => ?_
    subst he'
    have hread : Reads (ofExcept (info.predicates.mapM constructSearchTerm)) s fun _ => True := by
      cases info.predicates.mapM constructSearchTerm with
      | ok pps => exact Sat.pure ⟨rfl, trivial⟩
      | error err => exact Sat.throw trivial
    refine Reads.bind hread fun pps _ => ?_
    exact Sat.bind (orNew_ensures k (e := { e' with edgePredicates := pps }) hor info.dir
      info.edgeTag.resolve hs) fun m t hm => Sat.pure hm
  refine Sat.bind hsearch fun ni t ht => Sat.ite (fun _ => ?_) fun hfound => ?_
  · exact Sat.seq fun _ _ => Sat.seq fun _ _ => Sat.pure (by decide)
  have hlast : OrLasting g ni := by
    refine ht.2 ?_
    simp only [hid, and_true, Bool.not_eq_true', Bool.not_eq_false] at hfound
    exact hfound
  refine fun n => ?_
  rw [queryNodeFound_eq hunique]
  refine Sat.bind (P := fun tni u => ∃ r, tni = some r ∧ Searching g u ∧ r.Attached
    (fun ni _ => OrLasting g ni) (fun _ _ => True) u) ?_ (fun tni u hu => ?_) n
  · refine Sat.modify_bind (Sat.ite (fun _ => ?_) fun h => absurd (.inl (by simpa using hid)) h)
    let t₀ := t.modifyResponse fun r => { r with rType := q.results.rType, errorCode := .success }
    have ht₀ : Searching g t₀ := ht.1
    have hkeeps := ReusableIterator.attached_keeps (orLasting_keeps (g := g))
    refine Sat.bind (ReusableIterator.next_attached orLasting_keeps ht₀
      ⟨⟨fun _ _ => trivial, fun i hi => Option.some.inj hi ▸ hlast⟩, rfl⟩) fun tni u hu => ?_
    refine Sat.bind (P := fun tni v => Searching g v ∧ tni.Attached
      (fun ni _ => OrLasting g ni) (fun _ _ => True) v) ?_ fun tni v hv => ?_
    · refine Sat.ite (fun _ => ?_) fun _ => Sat.pure ⟨hu.1, hu.2.2⟩
      refine Sat.bind (P := fun _ _ => False) ?_ fun _ _ h => h.elim
      exact ReusableIterator.traverseAll_endless orLasting_keeps (fun ni _ => OrLasting.bool ni)
        hu.1 hu.2.2
    · refine Sat.bind (P := fun tni w => Searching g w ∧ tni.Attached
        (fun ni _ => OrLasting g ni) (fun _ _ => True) w) ?_ fun tni w hw =>
          Sat.pure ⟨tni, rfl, hw⟩
      refine Sat.ite (fun _ => ?_) fun _ => Sat.pure hv
      refine Ensures.mono (buildResults_keeps hkeeps (fun s f hs => ⟨hs, trivial⟩) Element.node
        (fun _ x s hs _ => listElement_searching _ _ hs) hv.1 hv.2) fun tni w hw => ⟨hw.1, hw.2.2⟩
  · obtain ⟨r, rfl, hsearching, hattached⟩ := hu
    refine Sat.bind (P := fun _ _ => False) ?_ fun _ _ h => h.elim
    rw [cacheResult, when_pos hid]
    refine Sat.bind (P := fun _ _ => False) ?_ fun _ _ h => h.elim
    exact ReusableIterator.traverseAll_endless orLasting_keeps (fun ni _ => OrLasting.bool ni)
      hsearching hattached

/-! ### The type of an answer -/

omit [Platform.Lawful] [Platform.Quiet]

/-- The type of the response stays. -/
abbrev KeepsType {α : Type} (m : Handling α) : Prop :=
  Within (fun s t : Handler => t.response.rType = s.response.rType) m

theorem keepsType_of_footprint {α : Type} {K : List Kind} {m : Handling α} (hm : Footprint K m)
    (hK : ∀ κ ∈ K, κ ≠ .respond ∧ ∀ code, κ ≠ .report code) : KeepsType m := by
  have hkept : ∀ {s t}, Does K s t → t.response.rType = s.response.rType := fun h => by
    refine h.keeps (f := fun s : Handler => s.response.rType) fun {κ s t} hκ he => ?_
    obtain ⟨hrespond, hreport⟩ := hK κ hκ
    cases he with
    | respond => exact absurd rfl hrespond
    | report => exact absurd rfl (hreport _)
    | @list _ x _ =>
        obtain ⟨l, hl⟩ := list_eq s x
        rw [hl]
    | @purge _ x _ =>
        obtain ⟨l, hl⟩ := list_eq s x
        rw [hl]
        rfl
    | _ => rfl
  exact fun s => Sat.mono (hm s) (fun _ _ h => .single (hkept h)) fun _ _ h => .single (hkept h)

theorem keepsType_of_readOnly {α : Type} {m : Handling α} (hm : ReadOnly m) : KeepsType m :=
  keepsType_of_footprint hm (by simp)

omit [Platform] in
theorem respond_keepsType {f : Response → Response} (hf : ∀ r, (f r).rType = r.rType) :
    KeepsType (modifyResponse f) :=
  Within.modify fun s => hf s.response

theorem upTo_keepsType {α : Type} (h : IterFootprint [.move] I) (limit : Option ℕ)
    {f : α → τ → Handling α} (count : α → ℕ) (hf : ∀ a x, KeepsType (f a x)) (ni : ι) (a : α) :
    KeepsType (upTo I limit f count ni a) := by
  refine Within.loop (fun p => Within.ite (fun _ => ?_) fun _ => Within.pure _) _
  refine Within.bind (keepsType_of_footprint (h.ref _) (by simp)) fun x => ?_
  refine Within.bind (hf _ x) fun a => Within.ite (fun _ => Within.pure _) fun _ => ?_
  exact Within.bind (keepsType_of_footprint (h.next _) (by simp)) fun _ => Within.pure _

theorem listElement_keepsType (x : Element) (keys : List String) :
    KeepsType (listElement x keys) := by
  have hrow : KeepsType (addRow x keys) := Within.forEach fun key _ =>
    Within.bind (keepsType_of_readOnly (checkProperty_readOnly _ _)) fun _ =>
      respond_keepsType fun _ => rfl
  refine Within.bind hrow fun _ => ?_
  refine Within.bind (keepsType_of_footprint (purgeOrKeep_footprint x) (by simp)) fun _ => ?_
  refine Within.bind Within.get fun s => Within.ite (fun _ => ?_) fun _ => Within.pure _
  refine Within.bind (keepsType_of_readOnly (getProperty_readOnly _ _)) fun v => ?_
  refine Within.bind (keepsType_of_readOnly (intValue_readOnly v)) fun _ => ?_
  exact Within.modify fun _ => rfl

theorem buildSum_keepsType (h : IterFootprint [.move] I) (el : τ → Element) (avg : Bool)
    (limit : Option ℕ) (qn : ResultInfo) (ni : ι) : KeepsType (buildSum I el avg limit qn ni) := by
  have hsum : ∀ {α : Type} (key : StringID) (add : α → Property → Handling α) (zero : α)
      (report : α → ℕ → Handling Unit), (∀ a v, ReadOnly (add a v)) →
      (∀ a n, KeepsType (report a n)) →
      KeepsType (accumulate I el limit key add zero report ni) := by
    intro α key add zero report hadd hreport
    refine Within.bind (upTo_keepsType h limit _ (fun p x => ?_) ni _) fun p =>
      Within.bind (hreport _ _) fun _ => Within.pure _
    exact Within.bind (keepsType_of_readOnly (getProperty_readOnly _ _)) fun v =>
      Within.bind (keepsType_of_readOnly (hadd _ v)) fun _ => Within.pure _
  have hint : ∀ n, KeepsType (setInt n) := fun n => respond_keepsType fun _ => rfl
  have hfloat : ∀ y, KeepsType (setFloat y) := fun y => respond_keepsType fun _ => rfl
  refine Within.ite (fun _ => ?_) fun _ =>
    Within.bind (Within.ite (fun _ => hfloat _) fun _ => hint _) fun _ => Within.pure _
  cases qn.responseKeys with
  | nil => exact Within.stuck
  | cons key keys =>
      refine Within.bind (keepsType_of_footprint (h.ref ni) (by simp)) fun x => ?_
      refine Within.bind (keepsType_of_readOnly (getProperty_readOnly _ _)) fun v => ?_
      cases v with
      | integer z =>
          exact hsum _ _ _ _ addInteger_readOnly fun _ _ =>
            Within.ite (fun _ => hfloat _) fun _ => hint _
      | float y =>
          exact hsum _ _ _ _ addFloat_readOnly fun _ _ =>
            Within.ite (fun _ => hfloat _) fun _ => hfloat _
      | _ => exact Within.bind (respond_keepsType fun _ => rfl) fun _ => Within.pure _

theorem buildResults_keepsType (h : IterFootprint [.move] I) (el : τ → Element) (ni : ι)
    (qn : ResultInfo) : KeepsType (buildResults I el ni qn) := by
  have hset : ∀ (n : ℕ) (ni : ι), KeepsType (do setInt n; pure ni) := fun n ni =>
    Within.bind (respond_keepsType fun _ => rfl) fun _ => Within.pure _
  rw [buildResults]
  cases qn.rType
  case list =>
    refine Within.bind (upTo_keepsType h _ _ (fun count x => ?_) ni _) fun p => hset _ _
    exact Within.bind (listElement_keepsType _ _) fun _ => Within.pure _
  case count =>
    exact Within.bind (upTo_keepsType h _ _ (fun _ _ => Within.pure _) ni _) fun p => hset _ _
  case nodeID =>
    have hid : ∀ (_ : Unit) (x : τ), KeepsType (setInt (el x).id) := fun _ x =>
      respond_keepsType fun _ => rfl
    exact Within.bind (upTo_keepsType h _ _ hid ni _) fun p => Within.pure _
  case average => exact buildSum_keepsType h el _ _ _ _
  case sum => exact buildSum_keepsType h el _ _ _ _
  all_goals exact Within.bind (respond_keepsType fun _ => rfl) fun _ => Within.pure _

theorem listOf_type (h : IterFootprint [.move] I) (el : τ → Element) (reusable : Bool) (ni : ι)
    (qn : ResultInfo) : Ensures (listOf I el reusable ni qn) s fun _ t =>
      t.response.rType = qn.rType := by
  have hrest : KeepsType (if reusable ∨ qn.sort then do
      let tni ← ReusableIterator.new I ni
      let tni ← sortResults I el qn tni
      let tni ← reusableResults I el qn tni
      pure (some tni)
    else do
      let _ ← buildResults I el ni qn
      pure none) := by
    refine Within.ite (fun _ => ?_) fun _ =>
      Within.bind (buildResults_keepsType h el ni qn) fun _ => Within.pure _
    refine Within.bind (keepsType_of_footprint (ReusableIterator.next_footprint h _) (by simp))
      fun tni => ?_
    refine Within.bind (keepsType_of_footprint (sortResults_footprint el h qn tni) (by simp))
      fun tni => Within.bind (Within.ite (fun _ => ?_) fun _ => Within.pure _) fun tni =>
        Within.pure _
    exact buildResults_keepsType (ReusableIterator.iter_footprint h) el tni qn
  refine Sat.modify_bind ?_
  exact Sat.mono (hrest.invariant (I := fun t => t.response.rType = qn.rType)
    (fun _ _ h ht => h.trans ht) rfl) (fun _ _ h => h) fun _ _ _ => trivial

/-- **The type of an answer** is the type that the query asks for. -/
theorem queryNodeFrom_type (hunique : q.constraints.unique = false) (start : Start) :
    Ensures (queryNodeFrom q start) s fun r t =>
      r = 0 → t.response.rType = q.results.rType := by
  refine Sat.seq fun ni t => Sat.ite (fun _ => ?_) fun _ => fun n => ?_
  · exact Sat.seq fun _ _ => Sat.seq fun _ _ => Sat.pure fun h => absurd h (by decide)
  rw [queryNodeFound_eq hunique]
  refine Sat.bind (listOf_type NodeIterator.footprint Element.node _ ni q.results)
    (fun tni u hu => ?_) n
  have hreset : KeepsType (do
      resetStart start
      pure 0 : Handling ℤ) :=
    Within.bind (keepsType_of_footprint (resetStart_footprint start) (by simp)) fun _ =>
      Within.pure _
  have hfinish : ∀ {m : Handling ℤ}, KeepsType m → Ensures m u fun r t =>
      r = 0 → t.response.rType = q.results.rType := fun hkept =>
    Sat.mono (hkept.invariant (I := fun t => t.response.rType = q.results.rType)
      (fun _ _ h ht => h.trans ht) hu) (fun _ _ h _ => h) fun _ _ _ => trivial
  cases tni with
  | none => exact hfinish hreset
  | some tni =>
      refine hfinish (Within.bind ?_ fun _ => hreset)
      refine Within.ite (fun _ => ?_) fun _ => Within.pure _
      exact Within.bind (keepsType_of_footprint (traverseLinked_footprint start tni) (by simp))
        fun tni => Within.modify fun _ => rfl

/-! ### Queries that answer with a list -/

variable [Platform.Lawful] [Platform.Quiet]

/-- **A linked query that answers with a list**: its link and its constraints can be read, it
asks for a conjunction and for a list, and its reference was free. -/
theorem LinkedQuery.of_runs {l₀ : List NodeID} {t : Handler} (hlink : q.link = some info)
    (hk : Denotes (toInt info.startIdentifier) l₀ s) (hid : 0 ≤ q.identifier)
    (hunique : q.constraints.unique = false) (hdel : s.resultdeletion = false)
    (hrun : Runs (queryNode q) s (.ret 0 t)) :
    (t.response.rType = .list → ∃ pps e,
      LinkedQuery q info pps e (toInt info.startIdentifier)) ∧
      s.cachedNodes (toInt q.identifier) = none := by
  have hfail : ∀ msg, ¬ Runs (fail .error msg) s (.ret (0 : ℤ) t) := fun msg h => by
    have hret : Runs (fail .error msg) s (.ret (-1 : ℤ) (s.modifyResponse fun r =>
      { r with errorCode := .error, errorMsg := msg })) := Runs.of_eq fun _ => rfl
    have heq := hret.unique h
    injection heq with hr _
    exact absurd hr (by decide)
  have hrun := Runs.get_bind_inv hrun
  by_cases hreuse : 0 ≤ q.identifier ∧ (s.cachedNodes (toInt q.identifier)).isSome = true
  · rw [if_pos hreuse] at hrun
    exact absurd hrun (hfail _)
  rw [if_neg hreuse, hlink] at hrun
  have hfree : s.cachedNodes (toInt q.identifier) = none := by
    simpa [hid] using hreuse
  refine ⟨fun hlist => ?_, hfree⟩
  simp only at hrun
  by_cases hrepeated : info.nbUnique = true
  · rw [if_pos hrepeated] at hrun
    exact absurd hrun (hfail _)
  rw [if_neg hrepeated] at hrun
  obtain ⟨r, hr, -⟩ := hk.view
  rw [hr, if_neg (by simp)] at hrun
  have htype := (queryNodeFrom_type hunique _).ret hrun rfl
  cases he : q.constraints.search with
  | error err =>
      obtain ⟨ni, u, hsearch, -⟩ := hrun.bind_inv
      rw [queryNodeSearch, he] at hsearch
      obtain ⟨e, v, hread, -⟩ := hsearch.bind_inv
      have hthrow : Runs (ofExcept (Except.error err) : Handling SearchExpression) s
          (.throw err s) := Runs.of_eq fun _ => rfl
      exact absurd (hthrow.unique hread) (by simp)
  | ok e =>
      cases hpps : info.predicates.mapM constructSearchTerm with
      | error err =>
          obtain ⟨ni, u, hsearch, -⟩ := hrun.bind_inv
          rw [queryNodeSearch, he] at hsearch
          obtain ⟨e', v, hread, hsearch⟩ := hsearch.bind_inv
          simp only [hpps] at hsearch
          obtain ⟨pps, w, hthrows, -⟩ := hsearch.bind_inv
          have hthrow : Runs (ofExcept (Except.error err) : Handling (List PropertyPredicate)) v
              (.throw err v) := Runs.of_eq fun _ => rfl
          exact absurd (hthrow.unique hthrows) (by simp)
      | ok pps =>
          have hconj : e.isOr = false := by
            by_contra hor
            have hsearching : Searching s.db s := ⟨hk.isOpen, rfl, hdel⟩
            exact (queryNodeFrom_endless he (by simpa using hor) hid hunique hsearching).ret hrun
              rfl
          exact ⟨pps, e, hlink, by simpa using hrepeated, rfl, hpps, he, hconj, hunique,
            htype.symm.trans hlist⟩

end

end Vdms
