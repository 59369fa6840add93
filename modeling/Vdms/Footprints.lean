import Vdms.Effects

/-!
# The Footprints of the Methods

The footprints of the methods that the commands are built from: reads, searches, and
the iterators, each from those of its parts by the rules of `Effects`.

## Main results

* `evalNodes_readOnly`, `evalNeighbors_readOnly`: a search does not change the handler.
* `NodeIterator.footprint`, `NodeEdgeIteratorImpl.footprint`: driving an iterator moves
  cached references and nothing else.
-/

namespace Vdms

open Imp Imp.Prog Platform Relation

variable [Platform]

/-! ### Reads -/

theorem call_readOnly (c : Call) : ReadOnly (call c) := by
  refine Footprint.get_bind fun s => ?_
  split
  · exact Footprint.throw _
  · exact Footprint.pure _

theorem ofExcept_readOnly {α : Type} (x : Except PMGDException α) : ReadOnly (ofExcept x) := by
  cases x with
  | ok a => exact Footprint.pure a
  | error e => exact Footprint.throw e

theorem scan_readOnly (q : Lookup) : ReadOnly (scan q) :=
  (call_readOnly _).bind fun _ => Footprint.get_bind fun _ => Footprint.pure _

theorem cursorNext_readOnly (c : Cursor) : ReadOnly c.next :=
  (call_readOnly _).bind fun _ => Footprint.get_bind fun _ => Footprint.pure _

theorem passFilter_readOnly (pp : PropertyPredicate) (x : Element) :
    ReadOnly (passFilter pp x) :=
  (call_readOnly _).bind fun _ => Footprint.get_bind fun _ => Footprint.pure _

theorem passAll_readOnly (x : Element) (pps : List PropertyPredicate) :
    ReadOnly (passAll x pps) := by
  induction pps with
  | nil => exact Footprint.pure _
  | cons pp pps ih =>
      exact (passFilter_readOnly pp x).bind fun b => Footprint.ite ih (Footprint.pure _)

theorem passAny_readOnly (x : Element) (pps : List PropertyPredicate) :
    ReadOnly (passAny x pps) := by
  induction pps with
  | nil => exact Footprint.pure _
  | cons pp pps ih =>
      exact (passFilter_readOnly pp x).bind fun b => Footprint.ite (Footprint.pure _) ih

theorem checkProperty_readOnly (x : Element) (key : StringID) :
    ReadOnly (checkProperty x key) :=
  Footprint.get_bind fun _ => Footprint.pure _

theorem getProperty_readOnly (x : Element) (key : StringID) : ReadOnly (getProperty x key) := by
  refine (call_readOnly _).bind fun _ => Footprint.get_bind fun s => ?_
  split
  · exact Footprint.pure _
  · exact Footprint.throw _

theorem intValue_readOnly (p : Property) : ReadOnly p.intValue := by
  cases p with
  | integer v => exact Footprint.pure _
  | _ => exact Footprint.throw _

theorem floatValue_readOnly (p : Property) : ReadOnly p.floatValue := by
  cases p with
  | float v => exact Footprint.pure _
  | _ => exact Footprint.throw _

theorem stringValue_readOnly (p : Property) : ReadOnly p.stringValue := by
  cases p with
  | string v => exact Footprint.pure _
  | _ => exact Footprint.throw _

/-! ### Searches -/

namespace NodeAndIteratorImpl

theorem candidate_readOnly (i : NodeAndIteratorImpl) (n : NodeID) :
    ReadOnly (i.candidate n) :=
  Footprint.get_bind fun _ => Footprint.ite (Footprint.pure _) (passAll_readOnly _ _)

theorem findNext_readOnly (i : NodeAndIteratorImpl) : ReadOnly i.findNext := by
  refine Footprint.loop (fun i => ?_) i
  split
  · exact Footprint.pure _
  · refine (candidate_readOnly i _).bind fun b => Footprint.ite (Footprint.pure _) ?_
    exact (cursorNext_readOnly _).bind fun _ => Footprint.pure _

theorem ref_readOnly (i : NodeAndIteratorImpl) : ReadOnly i.ref := by
  rw [NodeAndIteratorImpl.ref]
  split
  · exact Footprint.pure _
  · exact Footprint.throw _

end NodeAndIteratorImpl

namespace NodeOrIteratorImpl

theorem findNext_readOnly (i : NodeOrIteratorImpl) : ReadOnly i.findNext := by
  refine Footprint.loop (fun i => ?_) i
  split
  · exact Footprint.pure _
  · refine (scan_readOnly _).bind fun ni => ?_
    split
    · exact Footprint.pure _
    · exact Footprint.pure _

theorem findNextNeighbor_readOnly (i : NodeOrIteratorImpl) :
    ReadOnly i.findNextNeighbor := by
  refine Footprint.loop (fun i => ?_) i
  split
  · exact Footprint.pure _
  · split
    · exact Footprint.pure _
    · refine (passAny_readOnly _ _).bind fun b => Footprint.ite (Footprint.pure _) ?_
      exact (cursorNext_readOnly _).bind fun _ => Footprint.pure _

theorem next_readOnly (i : NodeOrIteratorImpl) : ReadOnly i.next := by
  refine Footprint.ite ?_ (findNext_readOnly i)
  split
  · exact findNextNeighbor_readOnly i
  · exact (cursorNext_readOnly _).bind fun _ => findNextNeighbor_readOnly _

theorem ref_readOnly (i : NodeOrIteratorImpl) : ReadOnly i.ref := by
  rw [NodeOrIteratorImpl.ref]
  split
  · exact Footprint.pure _
  · exact Footprint.throw _

end NodeOrIteratorImpl

theorem evalNodes_readOnly (e : SearchExpression) : ReadOnly e.evalNodes := by
  refine Footprint.ite ?_ ?_
  · exact Footprint.bind (NodeOrIteratorImpl.findNext_readOnly _) fun _ => Footprint.pure _
  · refine Footprint.bind (Footprint.bind (scan_readOnly _) fun _ => ?_) fun _ =>
      Footprint.pure _
    exact NodeAndIteratorImpl.findNext_readOnly _

theorem evalNeighbors_readOnly (e : SearchExpression) (node : NodeID) (dir : Direction)
    (edgetag : StringID) (unique : Bool) :
    ReadOnly (e.evalNeighbors node dir edgetag unique) := by
  refine Footprint.ite ?_ ?_
  · refine Footprint.bind (Footprint.bind (scan_readOnly _) fun _ => ?_) fun _ =>
      Footprint.pure _
    exact NodeOrIteratorImpl.findNextNeighbor_readOnly _
  · refine Footprint.bind (Footprint.bind (scan_readOnly _) fun _ => ?_) fun _ =>
      Footprint.pure _
    exact NodeAndIteratorImpl.findNext_readOnly _

/-! ### Iterators -/

/-- Driving an iterator has a footprint. -/
structure IterFootprint {ι τ : Type} (K : List Kind) (I : Iter Handler PMGDException ι τ) :
    Prop where
  ref : ∀ i, Footprint K (I.ref i)
  next : ∀ i, Footprint K (I.next i)

theorem IterFootprint.mono {ι τ : Type} {K K' : List Kind}
    {I : Iter Handler PMGDException ι τ} (h : IterFootprint K I) (hK : K ⊆ K') :
    IterFootprint K' I where
  ref i := (h.ref i).mono hK
  next i := (h.next i).mono hK

theorem SearchIterator.footprint (K : List Kind) : IterFootprint K SearchIterator.iter where
  ref i := by
    cases i with
    | and i => exact (NodeAndIteratorImpl.ref_readOnly i).footprint
    | or i => exact (NodeOrIteratorImpl.ref_readOnly i).footprint
  next i := by
    cases i with
    | and i =>
        refine Footprint.bind (ReadOnly.footprint ?_) fun _ => Footprint.pure _
        exact (cursorNext_readOnly _).bind fun _ => NodeAndIteratorImpl.findNext_readOnly _
    | or i =>
        refine Footprint.bind (ReadOnly.footprint ?_) fun _ => Footprint.pure _
        exact NodeOrIteratorImpl.next_readOnly i

section Generic

variable {ι τ : Type} {K : List Kind} {I : Iter Handler PMGDException ι τ}

theorem IterFootprint.orNull (h : IterFootprint K I) : IterFootprint K (orNull I) where
  ref ti := by
    cases ti with
    | none => exact Footprint.throw _
    | some i => exact h.ref i
  next ti := by
    cases ti with
    | none => exact Footprint.throw _
    | some i => exact (h.next i).bind fun _ => Footprint.pure _

theorem IterFootprint.collect (h : IterFootprint K I) (i : ι) (acc : List τ) :
    Footprint K (I.collect i acc) := by
  refine Footprint.loop (fun p => Footprint.ite ?_ (Footprint.pure _)) _
  exact (h.ref _).bind fun x => (h.next _).bind fun i' => Footprint.pure _

namespace ReusableIterator

theorem ref_readOnly (r : ReusableIterator ι τ) : ReadOnly r.ref := by
  rw [ReusableIterator.ref]
  split
  · exact Footprint.pure _
  · exact Footprint.throw _

theorem next_footprint (h : IterFootprint K I) (r : ReusableIterator ι τ) :
    Footprint K (r.next I) := by
  refine Footprint.ite (Footprint.pure _) (Footprint.ite ?_ (Footprint.pure _))
  exact (h.orNull.ref _).bind fun x => (h.orNull.next _).bind fun ti => Footprint.pure _

theorem iter_footprint (h : IterFootprint K I) : IterFootprint K (ReusableIterator.iter I) where
  ref r := (ref_readOnly r).footprint
  next r := next_footprint h r

theorem traverseAll_footprint (h : IterFootprint K I) (r : ReusableIterator ι τ) :
    Footprint K (r.traverseAll I) :=
  (h.orNull.collect _ _).bind fun _ => Footprint.pure _

theorem withKeys_readOnly (el : τ → Element) (key : StringID) (xs : List τ) :
    ReadOnly (withKeys el key xs) := by
  induction xs with
  | nil => exact Footprint.pure _
  | cons x xs ih =>
      exact (getProperty_readOnly _ _).bind fun v => ih.bind fun rest => Footprint.pure _

theorem sort_footprint (h : IterFootprint K I) (el : τ → Element) (key : StringID)
    (descending : Bool) (r : ReusableIterator ι τ) :
    Footprint K (r.sort I el key descending) := by
  refine (traverseAll_footprint h r).bind fun r => Footprint.ite (Footprint.pure _) ?_
  exact (withKeys_readOnly el key _).footprint.bind fun keyed => Footprint.pure _

end ReusableIterator

end Generic

theorem cachedNode_readOnly (k : ℤ) : ReadOnly (cachedNode k) := by
  refine Footprint.get_bind fun s => ?_
  split
  · exact Footprint.pure _
  · exact Footprint.stuck

/-- The value of a read, with the run it comes from. -/
theorem sat_run {α : Type} {m : Handling α} (h : ReadOnly m) (s : Handler) :
    Sat m s (fun a t => t = s ∧ ∃ n, m n s = .ret a s) (fun _ t => t = s) := by
  intro n
  have hn := h s n
  cases hm : m n s with
  | ret a t =>
      rw [hm] at hn
      obtain rfl := Does.eq hn
      exact ⟨rfl, n, hm⟩
  | throw e t =>
      rw [hm] at hn
      exact Does.eq hn
  | stuck => trivial

/-- A read, and what is done with its value in the same state. -/
theorem FootprintAt.read_bind {α β : Type} {K : List Kind} {m : Handling α}
    {f : α → Handling β} {s : Handler} (h : ReadOnly m)
    (hf : ∀ a, (∃ n, m n s = .ret a s) → FootprintAt K (f a) s) :
    FootprintAt K (m >>= f) s := by
  refine Sat.bind (Sat.mono (sat_run h s) (fun _ _ h => h) fun _ t h => ?_) fun a t ht => ?_
  · rw [h]
    exact .refl
  · obtain ⟨rfl, hrun⟩ := ht
    exact hf a hrun

omit [Platform] in
theorem cachedNode_inv {k : ℤ} {r : ReusableNodeIterator} {n : ℕ} {s : Handler}
    (h : cachedNode k n s = .ret r s) : s.cachedNodes k = some r := by
  simp only [cachedNode, bind_apply, get_apply, Outcome.andThen_ret] at h
  cases hk : s.cachedNodes k with
  | none => rw [hk] at h; cases h
  | some r' => rw [hk] at h; cases h; rfl

theorem nextCached_footprint (k : ℤ) : Footprint [.move] (nextCached k) := by
  intro s
  refine FootprintAt.read_bind (cachedNode_readOnly k) fun r hr => ?_
  obtain ⟨n, hr⟩ := hr
  refine FootprintAt.read_bind
    (ReusableIterator.next_footprint (SearchIterator.footprint []) r) fun r' hr' => ?_
  obtain ⟨n', hr'⟩ := hr'
  exact FootprintAt.modify (List.mem_singleton.2 rfl) (.next (cachedNode_inv hr) hr')

theorem resetCached_footprint (k : ℤ) : Footprint [.move] (resetCached k) := by
  intro s
  refine FootprintAt.read_bind (cachedNode_readOnly k) fun r hr => ?_
  obtain ⟨n, hr⟩ := hr
  exact FootprintAt.modify (List.mem_singleton.2 rfl) (.reset (cachedNode_inv hr))

theorem resetAll_footprint (ks : List ℤ) : Footprint [.move] (resetAll ks) :=
  Footprint.forEach resetCached_footprint

theorem forCached_footprint {α : Type} {K : List Kind} {k : ℤ} {f : α → NodeID → Handling α}
    (hK : .move ∈ K) (hf : ∀ a n, Footprint K (f a n)) (a : α) :
    Footprint K (forCached k f a) := by
  refine Footprint.loop (fun a => ?_) a
  refine (cachedNode_readOnly k).footprint.bind fun r => Footprint.ite ?_ (Footprint.pure _)
  refine (ReusableIterator.ref_readOnly r).footprint.bind fun n => (hf a n).bind fun a' => ?_
  refine Footprint.bind ((nextCached_footprint k).mono ?_) fun _ => Footprint.pure _
  simpa using hK

namespace MultiNeighborIteratorImpl

theorem findNext_footprint (m : MultiNeighborIteratorImpl) :
    Footprint [.move] m.findNext := by
  refine Footprint.loop (fun m => ?_) m
  split
  · exact Footprint.pure _
  · refine (cachedNode_readOnly _).footprint.bind fun r => Footprint.ite ?_ (Footprint.pure _)
    refine (ReusableIterator.ref_readOnly r).footprint.bind fun n => ?_
    refine (evalNeighbors_readOnly _ _ _ _ _).footprint.bind fun i => ?_
    refine (nextCached_footprint _).bind fun _ => ?_
    exact Footprint.ite (Footprint.pure _) (Footprint.pure _)

theorem footprint : IterFootprint [.move] MultiNeighborIteratorImpl.iter where
  ref m := (SearchIterator.footprint _).orNull.ref _
  next m := by
    refine Footprint.ite ?_ (findNext_footprint m)
    refine ((SearchIterator.footprint _).orNull.next _).bind fun ti => ?_
    exact Footprint.ite (Footprint.pure _) (findNext_footprint _)

end MultiNeighborIteratorImpl

theorem NodeIterator.footprint : IterFootprint [.move] NodeIterator.iter where
  ref i := by
    cases i with
    | search i => exact (SearchIterator.footprint _).ref i
    | multi m => exact MultiNeighborIteratorImpl.footprint.ref m
  next i := by
    cases i with
    | search i => exact ((SearchIterator.footprint _).next i).bind fun _ => Footprint.pure _
    | multi m => exact (MultiNeighborIteratorImpl.footprint.next m).bind fun _ => Footprint.pure _

namespace NodeEdgeIteratorImpl

theorem checkPredicates_readOnly (i : NodeEdgeIteratorImpl) (e : EdgeID) :
    ReadOnly (i.checkPredicates e) := by
  refine (passAll_readOnly _ _).bind fun b => Footprint.ite ?_ (Footprint.pure _)
  exact Footprint.get_bind fun _ => Footprint.pure _

theorem seek_readOnly (i : NodeEdgeIteratorImpl) : ReadOnly i.seek := by
  refine Footprint.loop (fun i => ?_) i
  split
  · exact Footprint.pure _
  · refine (checkPredicates_readOnly i _).bind fun b => Footprint.ite (Footprint.pure _) ?_
    exact (cursorNext_readOnly _).bind fun _ => Footprint.pure _

theorem moveOn_footprint (i : NodeEdgeIteratorImpl) (k : ℤ) :
    Footprint [.move] (i.moveOn k) := by
  refine (cachedNode_readOnly _).footprint.bind fun r => Footprint.ite ?_ (Footprint.pure _)
  refine (nextCached_footprint _).bind fun _ => ?_
  refine (cachedNode_readOnly _).footprint.bind fun r => Footprint.ite ?_ (Footprint.pure _)
  refine (ReusableIterator.ref_readOnly r).footprint.bind fun n => ?_
  refine (scan_readOnly _).footprint.bind fun c => (seek_readOnly _).footprint.bind fun i => ?_
  exact Footprint.ite (Footprint.pure _) (Footprint.pure _)

theorem findNext_footprint (i : NodeEdgeIteratorImpl) : Footprint [.move] i.findNext := by
  refine Footprint.loop (fun i => ?_) i
  split
  · exact Footprint.pure _
  · exact moveOn_footprint i _

theorem next_footprint (i : NodeEdgeIteratorImpl) : Footprint [.move] i.next := by
  refine (cursorNext_readOnly _).footprint.bind fun c => ?_
  refine (seek_readOnly _).footprint.bind fun i => ?_
  exact Footprint.ite (Footprint.pure _) (findNext_footprint i)

theorem footprint : IterFootprint [.move] NodeEdgeIteratorImpl.iter where
  ref i := by
    change Footprint _ i.ref
    rw [NodeEdgeIteratorImpl.ref]
    split
    · exact Footprint.pure _
    · exact Footprint.throw _
  next i := next_footprint i

theorem new_footprint (expr : SearchExpression) (srcNi destNi : Option ℤ) :
    Footprint [.move] (new expr srcNi destNi) := by
  have hreturn : ∀ sources dir, ReadOnly (returnIterator expr sources dir) := by
    intro sources dir
    unfold returnIterator
    split
    · exact scan_readOnly _
    · refine (cachedNode_readOnly _).bind fun r => Footprint.ite ?_ (scan_readOnly _)
      exact (ReusableIterator.ref_readOnly r).bind fun n => scan_readOnly _
  refine (hreturn _ _).footprint.bind fun c => ?_
  cases c.cur with
  | none => exact Footprint.pure _
  | some e =>
      refine Footprint.bind ?_ fun i => (checkPredicates_readOnly i _).footprint.bind fun b =>
        Footprint.ite (Footprint.pure _) (next_footprint i)
      unfold addTargets
      split
      · exact Footprint.pure _
      · refine Footprint.bind ?_ fun _ => Footprint.pure _
        exact forCached_footprint (List.mem_singleton.2 rfl) (fun a n => Footprint.pure _) _

end NodeEdgeIteratorImpl

end Vdms
