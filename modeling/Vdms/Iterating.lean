import Vdms.CommandFootprints
import Vdms.Reaching

/-!
# Loops over an Iterator under an Invariant

The rules for the loops of the handler over an iterator that changes what it goes over:
pulling from a reusable iterator, running it to its end, sorting it, and building a result,
whose `List` case may delete the very elements the iterator yields. They are stated for the
invariants of `Iter.Keeps`.

## Main results

* `ReusableIterator.keeps`: a reusable iterator keeps what its lazy iterator keeps.
* `upTo_keeps`, `buildResults_keeps`: the rules for results.
* `listElement_ensures`: what a `List` result does to the graph.
-/

namespace Vdms

open Imp Imp.Prog Platform Relation

section

variable [Platform] {ι τ : Type} {I : Iter Handler PMGDException ι τ} {P : Handler → Prop}
  {S : Handler → Handler → Prop} {J : ι → Handler → Prop} {E : τ → Handler → Prop}
  {s : Handler}

omit [Platform] in
theorem orNull_keeps (h : I.Keeps P S J E) :
    (orNull I).Keeps P S (fun ti s => ∀ i, ti = some i → J i s) E where
  refl := h.refl
  trans := h.trans
  iter_stable hS hJ i hi := h.iter_stable hS (hJ i hi)
  elem_stable := h.elem_stable
  ref {ti s} hP hJ := by
    cases ti with
    | none => exact Sat.throw trivial
    | some i => exact h.ref hP (hJ i rfl)
  next {ti s} hP hJ := by
    cases ti with
    | none => exact Sat.throw trivial
    | some i =>
        refine Sat.bind (h.next hP (hJ i rfl)) fun i' t ht => Sat.pure ?_
        refine ⟨ht.1, ht.2.1, fun i'' hi'' => ?_⟩
        injection hi'' with hi''
        exact hi'' ▸ ht.2.2

namespace ReusableIterator

/-- What holds of a reusable iterator: the elements in its list are as they should be, and
so is the iterator that it pulls from. -/
def Holding (J : ι → Handler → Prop) (E : τ → Handler → Prop) (r : ReusableIterator ι τ)
    (s : Handler) : Prop :=
  (∀ x ∈ r.traversed, E x s) ∧ ∀ i, r.ti = some i → J i s

variable {r : ReusableIterator ι τ}

omit [Platform] in
theorem advance_traversed (r : ReusableIterator ι τ) : r.advance.traversed = r.traversed := by
  simp only [advance, traversed, List.append_assoc, List.take_append_drop]

omit [Platform] in
theorem reset_traversed (r : ReusableIterator ι τ) : r.reset.traversed = r.traversed := by
  simp [reset, traversed]

omit [Platform] in
theorem Holding.reset (h : r.Holding J E s) : r.reset.Holding J E s := by
  refine ⟨fun x hx => h.1 x ?_, h.2⟩
  rwa [reset_traversed] at hx

omit [Platform] in
theorem next_keeps (h : I.Keeps P S J E) (hP : P s) (hr : r.Holding J E s) :
    Ensures (r.next I) s fun r' t => P t ∧ S s t ∧ r'.Holding J E t := by
  have hadv : r.advance.Holding J E s :=
    ⟨fun x hx => hr.1 x (by rwa [advance_traversed] at hx), hr.2⟩
  have hstay : Ensures (pure r.advance : Handling _) s fun r' t =>
      P t ∧ S s t ∧ r'.Holding J E t := Sat.pure ⟨hP, h.refl s, hadv⟩
  refine Sat.ite (fun _ => hstay) fun hrest => Sat.ite (fun _ => ?_) fun _ => hstay
  have hor := orNull_keeps h
  refine Reads.bind (hor.ref hP hr.2) fun x hx => ?_
  refine Sat.bind (hor.next hP hr.2) fun ti t ht => Sat.pure ⟨ht.1, ht.2.1, ?_, ht.2.2⟩
  intro y hy
  refine h.elem_stable ht.2.1 ?_
  rcases List.mem_append.1 hy with hy | hy
  · exact hadv.1 y (List.mem_append_left _ hy)
  · obtain rfl := List.mem_singleton.1 hy
    exact hx

omit [Platform] in
theorem new_keeps (h : I.Keeps P S J E) (hP : P s) {i : ι} (hi : J i s) :
    Ensures (new I i) s fun r' t => P t ∧ S s t ∧ r'.Holding J E t := by
  refine next_keeps h hP ⟨fun x hx => (by cases hx), fun i' hi' => ?_⟩
  injection hi' with hi'
  exact hi' ▸ hi

omit [Platform] in
/-- **Reusable iterators.** -/
theorem keeps (h : I.Keeps P S J E) : (iter I).Keeps P S (Holding J E) E where
  refl := h.refl
  trans := h.trans
  iter_stable hS hr :=
    ⟨fun x hx => h.elem_stable hS (hr.1 x hx), fun i hi => h.iter_stable hS (hr.2 i hi)⟩
  elem_stable := h.elem_stable
  ref {r s} _ hr := by
    change Reads r.ref s fun x => E x s
    rw [ReusableIterator.ref]
    cases hrest : r.rest with
    | nil => exact Sat.throw trivial
    | cons x xs => exact Reads.pure (hr.1 x (by simp [traversed, hrest]))
  next hP hr := next_keeps h hP hr

omit [Platform] in
theorem traverseAll_keeps (h : I.Keeps P S J E) (hP : P s) (hr : r.Holding J E s) :
    Ensures (r.traverseAll I) s fun r' t => P t ∧ S s t ∧ r'.Holding J E t := by
  have hnone : ∀ x ∈ ([] : List τ), E x s := fun x hx => (by cases hx)
  refine Sat.bind ((orNull_keeps h).collect hP hr.2 hnone) fun p t ht =>
    Sat.pure ⟨ht.1, ht.2.1, fun x hx => ?_, ht.2.2.1⟩
  have hmem : x ∈ r.traversed ∨ x ∈ p.2 := by
    rw [ReusableIterator.insert, traversed] at hx
    rw [traversed]
    split at hx <;> simp only [List.mem_append] at hx ⊢ <;> tauto
  rcases hmem with hold | hnew
  · exact h.elem_stable ht.2.1 (hr.1 x hold)
  · exact ht.2.2.2 x hnew

theorem withKeys_reads (el : τ → Element) (key : StringID) (xs : List τ) :
    Reads (withKeys el key xs) s fun keyed => keyed.map Prod.fst = xs := by
  induction xs with
  | nil => exact Reads.pure rfl
  | cons x xs ih =>
      refine Reads.bind ((getProperty_readOnly _ _).reads s) fun v _ =>
        Reads.bind ih fun rest hrest => Reads.pure ?_
      rw [List.map_cons, hrest]

theorem sort_keeps (h : I.Keeps P S J E) (el : τ → Element) (key : StringID)
    (descending : Bool) (hP : P s) (hr : r.Holding J E s) :
    Ensures (r.sort I el key descending) s fun r' t => P t ∧ S s t ∧ r'.Holding J E t := by
  refine Sat.bind (traverseAll_keeps h hP hr) fun r' t ht => ?_
  obtain ⟨hP, hS, hr⟩ := ht
  refine Sat.ite (fun _ => Sat.pure ⟨hP, hS, hr.reset⟩) fun _ => ?_
  refine Reads.bind (withKeys_reads el key _) fun keyed hkeyed => Sat.pure ⟨hP, hS, ?_, hr.2⟩
  intro x hx
  refine hr.1 x ?_
  rw [← hkeyed]
  have hmem : x ∈ (keyed.insertionSort fun a b => sortsBefore descending a b = true).map
      Prod.fst := by simpa [traversed] using hx
  obtain ⟨p, hp, rfl⟩ := List.mem_map.1 hmem
  exact List.mem_map_of_mem ((List.mem_insertionSort _).1 hp)

end ReusableIterator

/-! ### Results -/

omit [Platform] in
/-- **Loops with a body.** The body may do anything that keeps the invariant and moves the
state along the relation. -/
theorem upTo_keeps {α : Type} (h : I.Keeps P S J E) {limit : Option ℕ}
    {f : α → τ → Handling α} {count : α → ℕ}
    (hf : ∀ a x t, P t → E x t → Ensures (f a x) t fun _ u => P u ∧ S t u) {ni : ι} {a : α}
    (hP : P s) (hJ : J ni s) :
    Ensures (upTo I limit f count ni a) s fun p t => P t ∧ S s t ∧ J p.1 t := by
  refine Sat.loop (fun p t => P t ∧ S s t ∧ J p.1 t) ?_ ⟨hP, h.refl s, hJ⟩
  rintro ⟨ni, a⟩ t ⟨hP, hS, hJ⟩
  refine Sat.ite (fun _ => ?_) fun _ => Sat.pure ⟨hP, hS, hJ⟩
  refine Reads.bind (h.ref hP hJ) fun x hx => ?_
  refine Sat.bind (hf a x t hP hx) fun a' u hu => ?_
  have hSu := h.trans hS hu.2
  have hJu := h.iter_stable hu.2 hJ
  refine Sat.ite (fun _ => Sat.pure ⟨hu.1, hSu, hJu⟩) fun _ => ?_
  refine Sat.bind (h.next hu.1 hJu) fun ni' v hv => Sat.pure ?_
  exact ⟨hv.1, h.trans hSu hv.2.1, hv.2.2⟩

/-- Writing to the response keeps the invariant and the relation. -/
def RespondKeeps (P : Handler → Prop) (S : Handler → Handler → Prop) : Prop :=
  ∀ s f, P s → P (s.modifyResponse f) ∧ S s (s.modifyResponse f)

/-- What only writes to the response. -/
theorem Footprint.respond_keeps {α : Type} {K : List Kind} {m : Handling α}
    (hm : Footprint K m) (hK : ∀ κ ∈ K, κ = .respond ∨ ∃ code, κ = .report code)
    (h : I.Keeps P S J E) (hrespond : RespondKeeps P S) (hP : P s) :
    Ensures m s fun _ t => P t ∧ S s t := by
  refine Sat.mono (hm s) (fun _ t ht => ?_) fun _ _ _ => trivial
  refine ht.invariant (P := fun t => P t ∧ S s t) ⟨hP, h.refl s⟩ fun {κ t u} hκ he ht => ?_
  have hwrite : ∃ f, u = t.modifyResponse f := by
    rcases hK κ hκ with rfl | ⟨code, rfl⟩
    · cases he with
      | respond f _ => exact ⟨f, rfl⟩
    · cases he with
      | report f _ => exact ⟨f, rfl⟩
  obtain ⟨f, rfl⟩ := hwrite
  obtain ⟨hPu, hSu⟩ := hrespond t f ht.1
  exact ⟨hPu, h.trans ht.2 hSu⟩

theorem accumulate_keeps {α : Type} (h : I.Keeps P S J E) (hrespond : RespondKeeps P S)
    (el : τ → Element) (limit : Option ℕ) (key : StringID) {add : α → Property → Handling α}
    (hadd : ∀ a v, ReadOnly (add a v)) (zero : α) {report : α → ℕ → Handling Unit}
    (hreport : ∀ a n, Footprint [.respond] (report a n)) {ni : ι} (hP : P s) (hJ : J ni s) :
    Ensures (accumulate I el limit key add zero report ni) s fun ni' t =>
      P t ∧ S s t ∧ J ni' t := by
  refine Sat.bind (upTo_keeps h (fun p x t hP _ => ?_) hP hJ) fun p t ht => ?_
  · have hread : ReadOnly (do
        let v ← getProperty (el x) key
        let sum ← add p.1 v
        pure (sum, p.2 + 1)) :=
      (getProperty_readOnly _ _).bind fun v => (hadd _ v).bind fun _ => Footprint.pure _
    exact hread.respond_keeps (by simp) h hrespond hP
  · refine Sat.bind ((hreport _ _).respond_keeps (by simp) h hrespond ht.1) fun _ u hu => ?_
    exact Sat.pure ⟨hu.1, h.trans ht.2.1 hu.2, h.iter_stable hu.2 ht.2.2⟩

theorem buildSum_keeps (h : I.Keeps P S J E) (hrespond : RespondKeeps P S)
    (el : τ → Element) (avg : Bool) (limit : Option ℕ) (qn : ResultInfo) {ni : ι} (hP : P s)
    (hJ : J ni s) :
    Ensures (buildSum I el avg limit qn ni) s fun ni' t => P t ∧ S s t ∧ J ni' t := by
  have hwrite : ∀ {m : Handling Unit} {K : List Kind}, Footprint K m →
      (∀ κ ∈ K, κ = .respond ∨ ∃ code, κ = .report code) →
      Ensures (do m; pure ni) s fun ni' t => P t ∧ S s t ∧ J ni' t := fun hm hK =>
    Sat.bind (hm.respond_keeps hK h hrespond hP) fun _ u hu =>
      Sat.pure ⟨hu.1, hu.2, h.iter_stable hu.2 hJ⟩
  refine Sat.ite (fun _ => ?_) fun _ =>
    hwrite (Footprint.ite (setFloat_footprint _) (setInt_footprint _)) (by simp)
  cases qn.responseKeys with
  | nil => exact Sat.stuck
  | cons key keys =>
      refine Reads.bind (h.ref hP hJ) fun x _ => ?_
      refine Reads.bind ((getProperty_readOnly _ _).reads s) fun v _ => ?_
      cases v with
      | integer z =>
          exact accumulate_keeps h hrespond el limit _ addInteger_readOnly _
            (fun _ _ => Footprint.ite (setFloat_footprint _) (setInt_footprint _)) hP hJ
      | float y =>
          exact accumulate_keeps h hrespond el limit _ addFloat_readOnly _
            (fun _ _ => Footprint.ite (setFloat_footprint _) (setFloat_footprint _)) hP hJ
      | _ => exact hwrite (setError_footprint _ _) (by simp)

/-- **Results.** Only the `List` case does anything but write to the response. -/
theorem buildResults_keeps (h : I.Keeps P S J E) (hrespond : RespondKeeps P S)
    (el : τ → Element) {qn : ResultInfo}
    (hlist : qn.rType = .list → ∀ x t, P t → E x t →
      Ensures (listElement (el x) qn.responseKeys) t fun _ u => P u ∧ S t u)
    {ni : ι} (hP : P s) (hJ : J ni s) :
    Ensures (buildResults I el ni qn) s fun ni' t => P t ∧ S s t ∧ J ni' t := by
  have hset : ∀ {m : Handling Unit} {ni' : ι} {t : Handler} {K : List Kind},
      Footprint K m → (∀ κ ∈ K, κ = .respond ∨ ∃ code, κ = .report code) →
      P t ∧ S s t ∧ J ni' t →
      Ensures (do m; pure ni') t fun ni' u => P u ∧ S s u ∧ J ni' u :=
    fun hm hK ht => Sat.bind (hm.respond_keeps hK h hrespond ht.1) fun _ u hu =>
      Sat.pure ⟨hu.1, h.trans ht.2.1 hu.2, h.iter_stable hu.2 ht.2.2⟩
  rw [buildResults]
  cases hr : qn.rType
  case list =>
    refine Sat.bind (upTo_keeps h (fun count x t hPt hx => ?_) hP hJ) fun p t ht =>
      hset (setInt_footprint _) (by simp) ht
    exact Sat.bind (hlist hr x t hPt hx) fun _ u hu => Sat.pure hu
  case count =>
    refine Sat.bind (upTo_keeps h (fun count x t hPt _ => Sat.pure ⟨hPt, h.refl t⟩) hP hJ)
      fun p t ht => hset (setInt_footprint _) (by simp) ht
  case nodeID =>
    refine Sat.bind (upTo_keeps h (fun _ x t hPt _ => ?_) hP hJ) fun p t ht => Sat.pure ht
    exact (setInt_footprint _).respond_keeps (by simp) h hrespond hPt
  case average => exact buildSum_keeps h hrespond el _ _ _ hP hJ
  case sum => exact buildSum_keeps h hrespond el _ _ _ hP hJ
  all_goals exact hset (setError_footprint _ _) (by simp) ⟨hP, h.refl s, hJ⟩

omit [Platform] in
theorem cachedNode_reads (k : ℤ) : Reads (cachedNode k) s fun r => s.cachedNodes k = some r := by
  refine Sat.get_bind ?_
  cases hk : s.cachedNodes k with
  | none => exact Sat.stuck
  | some r => exact Reads.pure rfl

/-- At most the response, the expiration queue and the lists of files have changed. -/
def Handler.SameData (s t : Handler) : Prop :=
  ∃ r q f f', t =
    { s with response := r, expirationQueue := q, cleanupFiles := f, removedFiles := f' }

omit [Platform] in
theorem Handler.SameData.refl (s : Handler) : s.SameData s := ⟨_, _, _, _, rfl⟩

omit [Platform] in
theorem Handler.SameData.trans {s t u : Handler} (h : s.SameData t) (h' : t.SameData u) :
    s.SameData u := by
  obtain ⟨r, q, f, f', rfl⟩ := h
  obtain ⟨r', q', f₁, f₁', rfl⟩ := h'
  exact ⟨_, _, _, _, rfl⟩

theorem FootprintAt.sameData {α : Type} {K : List Kind} {m : Handling α} (hm : FootprintAt K m s)
    (hK : K ⊆ [.respond, .queue]) : Ensures m s fun _ t => s.SameData t := by
  refine Sat.mono hm (fun _ t ht => ?_) fun _ _ _ => trivial
  refine ht.invariant (P := fun t => s.SameData t) (.refl s) fun {κ t u} hκ he ht => ht.trans ?_
  have hmem := hK hκ
  simp only [List.mem_cons, List.not_mem_nil, or_false] at hmem
  rcases hmem with rfl | rfl
  · cases he with
    | respond f _ => exact ⟨_, _, _, _, rfl⟩
  · cases he with
    | unqueue | noteFile | enqueue => exact ⟨_, _, _, _, rfl⟩

/-- What going over a listed element does: it stays, or it is deleted. -/
def Handler.Lists (s : Handler) (x : Element) (t : Handler) : Prop :=
  ¬ s.Purges x ∧ (s.list x).SameData t ∨
    s.Purges x ∧ ((s.list x).setDb (s.db.remove x)).SameData t

theorem Handler.Lists.of_same {s t u : Handler} {x : Element} (h : s.SameData t)
    (h' : t.Lists x u) : s.Lists x u := by
  obtain ⟨r, q, f, f', rfl⟩ := h
  cases x with
  | node n =>
      refine Or.imp (And.imp_right ?_) (And.imp_right ?_) h'
      · exact Handler.SameData.trans ⟨_, _, _, _, rfl⟩
      · exact Handler.SameData.trans ⟨_, _, _, _, rfl⟩
  | edge e =>
      refine Or.imp (And.imp_right ?_) (And.imp_right ?_) h'
      · exact Handler.SameData.trans ⟨_, _, _, _, rfl⟩
      · exact Handler.SameData.trans ⟨_, _, _, _, rfl⟩

theorem Handler.Lists.then_same {s t u : Handler} {x : Element} (h : s.Lists x t)
    (h' : t.SameData u) : s.Lists x u :=
  Or.imp (And.imp_right fun h => h.trans h') (And.imp_right fun h => h.trans h') h

theorem purgeOrKeep_ensures (x : Element) :
    Ensures (purgeOrKeep x) s fun _ t => s.Lists x t := by
  refine Sat.get_bind (Sat.ite (fun hx => ?_) fun hx => Sat.modify (.inl ⟨hx, .refl _⟩))
  have hpurges : ∀ {t}, s.SameData t → t.Purges x := by
    rintro t ⟨r, q, f, f', rfl⟩
    exact hx
  refine Sat.modify_bind (Sat.bind (P := fun _ t => s.SameData t) ?_ fun _ t ht => ?_)
  · refine Sat.forEach (I := s.SameData) (fun key hkey t ht => ?_) ⟨_, _, _, _, rfl⟩
    exact Ensures.mono ((noteFile_footprintAt (hpurges ht) hkey).sameData (by simp)) fun _ _ hu =>
      ht.trans hu
  · refine Reads.bind (call_reads _) fun _ _ => Sat.modify ?_
    exact Handler.Lists.of_same ht (.inr ⟨hpurges ht, .refl _⟩)

/-- **A listed element** is deleted, or nothing happens to the graph. -/
theorem listElement_ensures (x : Element) (keys : List String) :
    Ensures (listElement x keys) s fun _ t => s.Lists x t := by
  refine Sat.bind ((addRow_footprint x keys s).sameData (by simp)) fun _ t ht => ?_
  refine Sat.bind (purgeOrKeep_ensures x) fun _ u hu => ?_
  have hlists := Handler.Lists.of_same ht hu
  refine Sat.get_bind (Sat.ite (fun hinit => ?_) fun _ => Sat.pure hlists)
  exact Ensures.mono ((enqueueExpiration_footprintAt hinit x).sameData (by simp)) fun _ v hv =>
    hlists.then_same hv

omit [Platform] in
/-- Listing an element touches neither the references nor the decision to delete. -/
theorem Handler.list_fields (s : Handler) (x : Element) :
    (s.list x).cachedNodes = s.cachedNodes ∧ (s.list x).resultdeletion = s.resultdeletion ∧
      (s.list x).db = s.db ∧ (s.list x).position = s.position := by
  cases x <;> exact ⟨rfl, rfl, rfl, rfl⟩

/-- What is left of the references and the graph. -/
theorem Handler.Lists.data {s t : Handler} {x : Element} (h : s.Lists x t) :
    t.cachedNodes = s.cachedNodes ∧ t.resultdeletion = s.resultdeletion ∧
      (¬ s.Purges x ∧ t.db = s.db ∨ s.Purges x ∧ t.db = s.db.remove x) := by
  obtain ⟨hnodes, hdel, hdb, -⟩ := s.list_fields x
  rcases h with ⟨hx, r, q, f, f', rfl⟩ | ⟨hx, r, q, f, f', rfl⟩
  · exact ⟨hnodes, hdel, .inl ⟨hx, hdb⟩⟩
  · exact ⟨hnodes, hdel, .inr ⟨hx, rfl⟩⟩

end

end Vdms
