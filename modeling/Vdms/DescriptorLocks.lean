import Vdms.MemorySets

/-!
# The Locks of the Descriptor Sets

Each method of a set in memory takes the lock of the set and gives it back on the way out, by
hand. A way out that does not is an exception between the two: of a call of the library, of
`std::vector::at` in `classify`, and in `FlinngDescriptorSet` of `get_labels` and `store`
themselves. The lock is then never free again, and the next call waits for it forever.

## Main results

* `SetCall.free_iff`: what a call on a set with a free lock must not do to leave it free.
* `locks_released`: over every sequence of calls that do not, the lock is free after each of
  them, and the next call ends.
* `lock_kept`: a descriptor without a label, and a search that finds it, block the set.
-/

/-- The state an outcome leaves, of a value or of an exception. -/
def Imp.Outcome.state {σ ε α : Type} : Imp.Outcome σ ε α → Option σ
  | .ret _ s => some s
  | .throw _ s => some s
  | .stuck => none

namespace Vdms

namespace VCL

open Imp Imp.Prog VectorLibrary

/-- The classes of the sets in memory. -/
inductive MemoryEngine where
  | FaissFlat
  | FaissIVFFlat
  | FaissHNSWFlat
  | Flinng
  deriving DecidableEq

section

variable [VectorLibrary]

/-- A call of a method of a set. `train()` is `train` of no descriptors. -/
inductive SetCall where
  | add (descriptors : List Vec) (labels : Option (List Int64))
  | train (descriptors : List Vec)
  | search (query : List Vec) (k : ℕ)
  | classify (descriptors : List Vec) (quorum : ℕ)
  | getLabels (ids : List Int64)
  | store (path : String) (ret : ℤ)

namespace MemoryEngine

def add : MemoryEngine → List Vec → Option (List Int64) → MemorySet.Method ℕ
  | .Flinng => Flinng.add
  | .FaissIVFFlat => FaissIVFFlat.add
  | .FaissFlat | .FaissHNSWFlat => Faiss.add

def train : MemoryEngine → List Vec → MemorySet.Method Unit
  | .Flinng => fun _ => Flinng.train
  | .FaissFlat | .FaissIVFFlat | .FaissHNSWFlat => Faiss.trainCore

def search : MemoryEngine → List Vec → ℕ → MemorySet.Method (List (List (Int64 × Dist)))
  | .Flinng => Flinng.search
  | .FaissFlat | .FaissIVFFlat | .FaissHNSWFlat => Faiss.search

def classify : MemoryEngine → List Vec → ℕ → MemorySet.Method (List Int64)
  | .Flinng => Flinng.classify
  | .FaissFlat | .FaissIVFFlat | .FaissHNSWFlat => Faiss.classify

def getLabels : MemoryEngine → List Int64 → MemorySet.Method (List Int64)
  | .Flinng => Flinng.getLabels
  | .FaissFlat | .FaissIVFFlat | .FaissHNSWFlat => Faiss.getLabels

def store : MemoryEngine → String → ℤ → MemorySet.Method Unit
  | .Flinng => Flinng.store
  | .FaissFlat | .FaissIVFFlat | .FaissHNSWFlat => Faiss.store

end MemoryEngine

namespace SetCall

/-- The state of the set after the call, if it ends. -/
def after (e : MemoryEngine) (s : MemorySet) : SetCall → Option MemorySet
  | .add descriptors labels => (e.add descriptors labels 0 s).state
  | .train descriptors => (e.train descriptors 0 s).state
  | .search query k => (e.search query k 0 s).state
  | .classify descriptors quorum => (e.classify descriptors quorum 0 s).state
  | .getLabels ids => (e.getLabels ids 0 s).state
  | .store path ret => (e.store path ret 0 s).state

/-- The calls of the library in an addition. -/
def addCalls (e : MemoryEngine) (s : MemorySet) (descriptors : List Vec) : Call Index Unit :=
  if e = .FaissIVFFlat then
    (prepare s.dimensions descriptors).bind fun _ => VectorLibrary.add descriptors
  else VectorLibrary.add descriptors

/-- Every neighbor that the library finds has a label, if the search returns. -/
def NeighborsLabelled (s : MemorySet) (descriptors : List Vec) (quorum : ℕ) (i : Index) : Prop :=
  ∀ neighbors, (VectorLibrary.search descriptors quorum i).1 = some neighbors →
    ∀ row ∈ neighbors, ∀ p ∈ row, p.1 < 0 ∨ p.1.toUInt64.toNat < s.label_ids.length

/-- The call takes no way out with the lock taken: the library throws nothing between taking
it and giving it back, `classify` finds no neighbor without a label, and a `Flinng` set is not
asked for the label of an id behind the last and is stored in a directory there is. -/
def Meets (e : MemoryEngine) (s : MemorySet) : SetCall → Prop
  | .add descriptors _ => (addCalls e s descriptors s.index).1 ≠ none
  | .train descriptors => e ≠ .Flinng → (retrain descriptors s.index).1 ≠ none
  | .search _ _ => e = .Flinng → ∃ i, searched s = .ok i
  | .classify descriptors quorum =>
    if e = .Flinng then ∃ i, searched s = .ok i ∧ NeighborsLabelled s descriptors quorum i
    else NeighborsLabelled s descriptors quorum s.index
  | .getLabels ids => e = .Flinng → ∀ idx ∈ ids, idx.toUInt64.toNat ≤ s.label_ids.length
  | .store _ ret =>
    (e = .Flinng → ret = 0 ∨ ret = 17) ∧ ((ret = 0 ∨ ret = 17) → (writeIndex s.index).1 ≠ none)

/-- The call does not read the element behind the last label. -/
def Defined (s : MemorySet) : SetCall → Prop
  | .getLabels ids => ∀ idx ∈ ids, idx.toUInt64.toNat ≠ s.label_ids.length
  | _ => True

variable {e : MemoryEngine} {s t : MemorySet} {c : SetCall}

theorem neighborsLabelled_iff {descriptors : List Vec} {quorum : ℕ} {i j : Index}
    {neighbors : List (List (Int64 × Dist))}
    (hs : VectorLibrary.search descriptors quorum i = (some neighbors, j)) :
    NeighborsLabelled s descriptors quorum i ↔
      winners s.label_ids (neighbors.map fun row => row.map Prod.fst) ≠ none := by
  rw [Ne, winners_eq_none, NeighborsLabelled, hs]
  constructor
  · rintro hl ⟨row, hrow, idx, hidx, hpos, hlen⟩
    obtain ⟨r, hr, rfl⟩ := List.mem_map.mp hrow
    obtain ⟨p, hp, rfl⟩ := List.mem_map.mp hidx
    rcases hl neighbors rfl r hr p hp with hneg | hlt
    · exact absurd hpos (Int64.not_le.mpr hneg)
    · omega
  · rintro hw _ ⟨⟩ r hr p hp
    by_cases hneg : p.1 < 0
    · exact .inl hneg
    · refine .inr (Nat.lt_of_not_le fun hlen => hw ?_)
      exact ⟨r.map Prod.fst, List.mem_map_of_mem hr, p.1, List.mem_map_of_mem hp,
        Int64.not_lt.mp hneg, hlen⟩

/-- Where an outcome of a method ends: with the lock taken exactly if it throws by it. -/
theorem faissAdd_iff (h : s.lock = false) {descriptors : List Vec}
    {labels : Option (List Int64)} :
    ∃ t, (Faiss.add descriptors labels 0 s).state = some t ∧
      (t.lock = false ↔ (VectorLibrary.add descriptors s.index).1 ≠ none) := by
  rw [Faiss.add_apply h]
  rcases hadd : VectorLibrary.add descriptors s.index with ⟨_ | _, i⟩ <;>
    simp [Outcome.state, h]

theorem add_iff (h : s.lock = false) {descriptors : List Vec} {labels : Option (List Int64)} :
    ∃ t, after e s (.add descriptors labels) = some t ∧
      (t.lock = false ↔ Meets e s (.add descriptors labels)) := by
  cases e with
  | Flinng =>
      simp only [after, MemoryEngine.add, Flinng.add_apply h]
      rcases hadd : VectorLibrary.add descriptors s.index with ⟨_ | _, i⟩ <;>
        simp [Outcome.state, Meets, addCalls, hadd, h]
  | FaissFlat => exact faissAdd_iff h
  | FaissHNSWFlat => exact faissAdd_iff h
  | FaissIVFFlat =>
      simp only [after, MemoryEngine.add, FaissIVFFlat.add_apply h]
      rcases hp : prepare s.dimensions descriptors s.index with ⟨_ | _, i⟩
      · simp [Outcome.state, Meets, addCalls, Call.bind, hp]
      · obtain ⟨t, ht, hlock⟩ := @faissAdd_iff _ { s with index := i } h descriptors labels
        exact ⟨t, ht, by simp [hlock, Meets, addCalls, Call.bind, hp]⟩

theorem train_iff (h : s.lock = false) {descriptors : List Vec} :
    ∃ t, after e s (.train descriptors) = some t ∧
      (t.lock = false ↔ Meets e s (.train descriptors)) := by
  by_cases he : e = .Flinng
  · subst he
    exact ⟨s, rfl, by simp [Meets, h]⟩
  · have htrain : after e s (.train descriptors) = (Faiss.trainCore descriptors 0 s).state := by
      cases e <;> first | rfl | exact absurd rfl he
    rw [htrain, Faiss.trainCore_apply h]
    rcases hr : retrain descriptors s.index with ⟨_ | _, i⟩ <;>
      simp [Outcome.state, Meets, he, hr, h]

theorem search_iff (h : s.lock = false) {query : List Vec} {k : ℕ} :
    ∃ t, after e s (.search query k) = some t ∧
      (t.lock = false ↔ Meets e s (.search query k)) := by
  by_cases he : e = .Flinng
  · subst he
    simp only [after, MemoryEngine.search, Flinng.search_apply h]
    rcases hi : searched s with i | i
    · simp [Outcome.state, Meets, hi]
    · rcases hs : VectorLibrary.search query k i with ⟨_ | neighbors, j⟩ <;>
        simp [Outcome.state, Meets, hi, hs, h]
  · have hsearch : after e s (.search query k) = (Faiss.search query k 0 s).state := by
      cases e <;> first | rfl | exact absurd rfl he
    rw [hsearch, Faiss.search]
    rcases hs : VectorLibrary.search query k s.index with ⟨_ | neighbors, j⟩ <;>
      simp [MemorySet.call, ofFun, Outcome.state, Meets, he, hs, h]

theorem classify_iff (h : s.lock = false) {descriptors : List Vec} {quorum : ℕ} :
    ∃ t, after e s (.classify descriptors quorum) = some t ∧
      (t.lock = false ↔ Meets e s (.classify descriptors quorum)) := by
  by_cases he : e = .Flinng
  · subst he
    simp only [after, MemoryEngine.classify, Flinng.classify_apply h, Meets]
    rcases hi : searched s with i | i
    · simp [Outcome.state]
    · rcases hs : VectorLibrary.search descriptors quorum i with ⟨_ | neighbors, j⟩
      · simp [Outcome.state, NeighborsLabelled, hs, h]
      · have hn := neighborsLabelled_iff (s := s) hs
        cases hw : winners s.label_ids (neighbors.map fun row => row.map Prod.fst) with
        | none => simp [Outcome.state, hs, hn, hw]
        | some ids => simp [Outcome.state, hs, hn, hw, h]
  · have hclassify : after e s (.classify descriptors quorum) =
        (Faiss.classify descriptors quorum 0 s).state := by
      cases e <;> first | rfl | exact absurd rfl he
    rw [hclassify, Faiss.classify_apply h]
    simp only [Meets, he, if_false]
    rcases hs : VectorLibrary.search descriptors quorum s.index with ⟨_ | neighbors, j⟩
    · simp [Outcome.state, NeighborsLabelled, hs, h]
    · have hn := neighborsLabelled_iff (s := s) hs
      cases hw : winners s.label_ids (neighbors.map fun row => row.map Prod.fst) with
      | none => simp [Outcome.state, hn, hw]
      | some ids => simp [Outcome.state, hn, hw, h]

theorem store_iff (h : s.lock = false) {path : String} {ret : ℤ} :
    ∃ t, after e s (.store path ret) = some t ∧
      (t.lock = false ↔ Meets e s (.store path ret)) := by
  by_cases he : e = .Flinng
  · subst he
    simp only [after, MemoryEngine.store, Flinng.store_apply h]
    by_cases hret : ret = 0 ∨ ret = 17
    · rcases hw : writeIndex s.index with ⟨_ | file, i⟩ <;>
        simp [Outcome.state, Meets, hret, hw, h]
    · simp [Outcome.state, Meets, hret]
  · have hstore : after e s (.store path ret) = (Faiss.store path ret 0 s).state := by
      cases e <;> first | rfl | exact absurd rfl he
    rw [hstore, Faiss.store_apply h]
    by_cases hret : ret = 0 ∨ ret = 17
    · rcases hw : writeIndex s.index with ⟨_ | file, i⟩ <;>
        simp [Outcome.state, Meets, he, hret, hw, h]
    · simp [Outcome.state, Meets, he, hret, h]

/-- The one call that may have no end: reading the element behind the last label. -/
theorem getLabels_iff (h : s.lock = false) (ids : List Int64) :
    match lookUp s.label_ids ids with
    | .undefined => after e s (.getLabels ids) = none
    | .missing => ∃ t, after e s (.getLabels ids) = some t ∧ (t.lock = false ↔ e ≠ .Flinng)
    | .found _ => after e s (.getLabels ids) = some s := by
  by_cases he : e = .Flinng
  · subst he
    simp only [after, MemoryEngine.getLabels, Flinng.getLabels_apply h]
    cases hl : lookUp s.label_ids ids <;> simp [Outcome.state]
  · have hget : after e s (.getLabels ids) = (Faiss.getLabels ids 0 s).state := by
      cases e <;> first | rfl | exact absurd rfl he
    simp only [hget, Faiss.getLabels_apply h]
    cases hl : lookUp s.label_ids ids <;> simp [Outcome.state, he, h]

/-- A call whose lock is free ends, but for reading behind the last label. -/
theorem ends_of_free (h : s.lock = false) (hd : Defined s c) : ∃ t, after e s c = some t := by
  cases c with
  | add descriptors labels => exact (add_iff h).imp fun _ ht => ht.1
  | train descriptors => exact (train_iff h).imp fun _ ht => ht.1
  | search query k => exact (search_iff h).imp fun _ ht => ht.1
  | classify descriptors quorum => exact (classify_iff h).imp fun _ ht => ht.1
  | store path ret => exact (store_iff h).imp fun _ ht => ht.1
  | getLabels ids =>
      have hspec := lookUp_spec s.label_ids ids
      have hend := getLabels_iff (e := e) h ids
      cases hl : lookUp s.label_ids ids with
      | found labels => exact ⟨s, by simpa only [hl] using hend⟩
      | missing =>
          simp only [hl] at hend
          exact hend.imp fun _ ht => ht.1
      | undefined =>
          rw [hl] at hspec
          obtain ⟨idx, hidx, heq⟩ := hspec
          exact absurd heq (hd idx hidx)

/-- **One call.** -/
theorem free_iff (h : s.lock = false) (hd : Defined s c) (ht : after e s c = some t) :
    t.lock = false ↔ Meets e s c := by
  have unique {p : Prop} (hend : ∃ u, after e s c = some u ∧ (u.lock = false ↔ p)) :
      t.lock = false ↔ p := by
    obtain ⟨u, hu, hp⟩ := hend
    rwa [Option.some.inj (ht.symm.trans hu)]
  cases c with
  | add descriptors labels => exact unique (add_iff h)
  | train descriptors => exact unique (train_iff h)
  | search query k => exact unique (search_iff h)
  | classify descriptors quorum => exact unique (classify_iff h)
  | store path ret => exact unique (store_iff h)
  | getLabels ids =>
      have hspec := lookUp_spec s.label_ids ids
      have hend := getLabels_iff (e := e) h ids
      cases hl : lookUp s.label_ids ids with
      | found labels =>
          simp only [hl] at hend
          have hlt := lt_of_lookUp_found hl
          refine unique ⟨s, hend, ?_⟩
          exact iff_of_true h fun _ idx hidx => (hlt idx hidx).le
      | missing =>
          simp only [hl] at hend hspec
          obtain ⟨idx, hidx, hlt⟩ := hspec
          refine unique (hend.imp fun u hu => ⟨hu.1, hu.2.trans ?_⟩)
          exact ⟨fun he hf => absurd hf he, fun hm hf => absurd (hm hf idx hidx) (by omega)⟩
      | undefined => simp only [hl, ht] at hend; cases hend

/-- A call that meets its condition leaves the lock free, whatever it reads. -/
theorem free_of_meets (h : s.lock = false) (hm : Meets e s c) (ht : after e s c = some t) :
    t.lock = false := by
  cases c with
  | getLabels ids =>
      have hspec := lookUp_spec s.label_ids ids
      have hend := getLabels_iff (e := e) h ids
      cases hl : lookUp s.label_ids ids with
      | found labels =>
          simp only [hl] at hend
          rwa [← Option.some.inj (hend.symm.trans ht)]
      | missing =>
          simp only [hl] at hend hspec
          obtain ⟨idx, hidx, hlt⟩ := hspec
          obtain ⟨u, hu, hfree⟩ := hend
          rw [← Option.some.inj (hu.symm.trans ht), hfree]
          intro he
          exact absurd (hm he idx hidx) (by omega)
      | undefined => simp only [hl, ht] at hend; cases hend
  | add descriptors labels => exact (free_iff (c := .add _ _) h trivial ht).mpr hm
  | train descriptors => exact (free_iff (c := .train _) h trivial ht).mpr hm
  | search query k => exact (free_iff (c := .search _ _) h trivial ht).mpr hm
  | classify descriptors quorum => exact (free_iff (c := .classify _ _) h trivial ht).mpr hm
  | store path ret => exact (free_iff (c := .store _ _) h trivial ht).mpr hm

end SetCall

open SetCall

/-- A sequence of calls on a set, each with the state it finds. -/
inductive CallRun (e : MemoryEngine) : MemorySet → List (MemorySet × SetCall) → MemorySet → Prop
  | refl (s : MemorySet) : CallRun e s [] s
  | step {s t u : MemorySet} {c : SetCall} {calls : List (MemorySet × SetCall)}
      (ht : after e s c = some t) (rest : CallRun e t calls u) : CallRun e s ((s, c) :: calls) u

variable {e : MemoryEngine} {s t : MemorySet} {calls : List (MemorySet × SetCall)}

theorem CallRun.free (hrun : CallRun e s calls t) (h : s.lock = false)
    (hmeets : ∀ p ∈ calls, Meets e p.1 p.2) : t.lock = false := by
  induction hrun with
  | refl s => exact h
  | @step s t u c calls ht rest ih =>
      have hfree := free_of_meets h (hmeets (s, c) List.mem_cons_self) ht
      exact ih hfree fun p hp => hmeets p (List.mem_cons_of_mem _ hp)

/-- **Locks of descriptor sets.** In every sequence of calls each of which meets its condition,
the lock is free after every call, and every call that comes next ends. -/
theorem locks_released (hrun : CallRun e s calls t) (h : s.lock = false)
    (hmeets : ∀ p ∈ calls, Meets e p.1 p.2) :
    t.lock = false ∧ ∀ c, Defined t c → ∃ u, after e t c = some u :=
  ⟨hrun.free h hmeets, fun _ hd => ends_of_free (hrun.free h hmeets) hd⟩

end

/-- The set after a descriptor has been added with a label. -/
@[reducible] def labelledSet : @MemorySet flatIndex :=
  let _ := flatIndex
  { flatSet with index := ([5] : List ℤ), n_total := 1, label_ids := [7] }

/-- An error of `get_labels` after a vote. -/
theorem locks_released_labelled :
    let _ := flatIndex
    labelledSet.lock = false ∧
      ∀ c, SetCall.Defined labelledSet c →
        ∃ u, SetCall.after .FaissFlat labelledSet c = some u := by
  let _ := flatIndex
  have hrun : CallRun .FaissFlat flatSet
      [(flatSet, .add [(5 : ℤ)] (some [7])), (labelledSet, .classify [(5 : ℤ)] 1),
        (labelledSet, .getLabels [9])] labelledSet :=
    .step rfl (.step rfl (.step rfl (.refl _)))
  refine locks_released hrun rfl fun p hp => ?_
  simp only [List.mem_cons, List.not_mem_nil, or_false] at hp
  rcases hp with rfl | rfl | rfl
  · intro hnone
    cases hnone
  · have hs : VectorLibrary.search [(5 : ℤ)] 1 ([5] : List ℤ) =
        (some [[((0 : Int64), (0 : ℕ))]], [5]) := rfl
    exact (SetCall.neighborsLabelled_iff hs).mpr (by decide)
  · intro he
    cases he

/-- A search that finds a descriptor without a label throws with the lock taken: the next call
waits for it forever. -/
theorem lock_kept :
    let _ := flatIndex
    ∃ t : MemorySet,
      CallRun .FaissFlat flatSet [(flatSet, .add [(5 : ℤ)] none),
        ({ flatSet with index := ([5] : List ℤ), n_total := 1 }, .classify [(5 : ℤ)] 1)] t ∧
      t.lock = true ∧ ∀ ids, Diverges (Faiss.getLabels ids) t := by
  let _ := flatIndex
  refine ⟨{ flatSet with index := ([5] : List ℤ), n_total := 1, lock := true },
    .step rfl (.step rfl (.refl _)), rfl, fun ids => ?_⟩
  exact takeLock_diverges rfl _

end VCL

end Vdms
