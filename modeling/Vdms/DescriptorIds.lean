import Vdms.DescriptorLocks
import Vdms.Imp.AppendLog
import Vdms.LabelRoundTrip

/-!
# The Ids of the Descriptors

A descriptor set numbers its descriptors in the order of their addition. It is to be an
append-only log: the first addition after the set has been opened again goes on where the last
one ended, and nothing that is stored is overwritten. What the classes of sets remember of
their total differs, and so does what they need for that.

## Main definitions

* `memoryStore`, `denseStore`, `sparseStore`: the classes of sets as stores, with what a run has
  to meet.
* `LawfulLibrary`: what is assumed of faiss and FLINNG.

## Main results

* `ids_unique`: in every run that meets the conditions, the ids follow on each other and each
  descriptor stays under its id, with its label.
* `first_id_again`: sets that hand out an id again after they have been reopened.
-/

namespace Vdms

namespace VCL

open Imp Imp.Prog DescriptorSetData VectorLibrary

/-- The arguments of `add`: labels for all of the descriptors, or for none. -/
structure Batch (V : Type) where
  descriptors : List V
  labels : Option (List Int64)
  same : ∀ ls, labels = some ls → ls.length = descriptors.length

namespace Batch

variable {V : Type} (b : Batch V)

/-- The descriptors of a batch, each with its label. -/
def items : List (V × Option Int64) :=
  match b.labels with
  | none => b.descriptors.map fun x => (x, none)
  | some ls => List.zipWith (fun x l => (x, some l)) b.descriptors ls

theorem map_fst_items : b.items.map Prod.fst = b.descriptors := by
  obtain ⟨descriptors, labels, same⟩ := b
  cases labels with
  | none => simp [items, Function.comp_def]
  | some ls =>
      have hlen := same ls rfl
      refine List.ext_getElem? fun i => ?_
      by_cases hi : i < descriptors.length
      · simp [items, hi, hlen]
      · simp [items, hi, hlen]

theorem length_items : b.items.length = b.descriptors.length := by
  rw [← List.length_map (f := Prod.fst), map_fst_items]

/-- The label of a descriptor is the one given for its place. -/
theorem label_of_items {j : ℕ} {x : V} {l : Int64} (h : b.items[j]? = some (x, some l)) :
    ∃ ls, b.labels = some ls ∧ ls[j]? = some l := by
  obtain ⟨descriptors, labels, same⟩ := b
  cases labels with
  | none => simp [items] at h
  | some ls =>
      refine ⟨ls, rfl, ?_⟩
      simp only [items, List.getElem?_zipWith] at h
      cases hx : descriptors[j]? <;> cases hl : ls[j]? <;> simp_all

/-- The label that is stored: `-1` where none is given. -/
theorem storedLabels :
    b.labels.getD (List.replicate b.descriptors.length (-1)) =
      b.items.map fun x => x.2.getD (-1) := by
  obtain ⟨descriptors, labels, same⟩ := b
  cases labels with
  | none => simp [items, Function.comp_def]
  | some ls =>
      have hlen := same ls rfl
      refine List.ext_getElem? fun i => ?_
      by_cases hi : i < ls.length
      · simp [items, hi, ← hlen]
      · simp [items, hi, ← hlen]

end Batch

/-- The label of each item that has one is under its id. -/
def LabelsKept {V : Type} (items : List (V × Option Int64)) (label_ids : List Int64) : Prop :=
  ∀ (id : ℕ) (x : V) (label : Int64), items[id]? = some (x, some label) →
    label_ids[id]? = some label

/-- The label ids after an addition: the old ones, zeros for what had none, and the new. -/
theorem LabelsKept.after {V : Type} {items : List (V × Option Int64)} {label_ids : List Int64}
    (h : LabelsKept items label_ids) (hshort : label_ids.length ≤ items.length)
    (b : Batch V) :
    LabelsKept (items ++ b.items) (labelsAfter label_ids items.length b.labels) ∧
      (labelsAfter label_ids items.length b.labels).length ≤ (items ++ b.items).length := by
  have hlt {id : ℕ} {x : V} {label : Int64} (hid : items[id]? = some (x, some label)) :
      id < label_ids.length :=
    (List.getElem?_eq_some_iff.mp (h id x label hid)).1
  cases hb : b.labels with
  | none =>
      refine ⟨fun id x label hget => ?_, by simp [labelsAfter]; omega⟩
      rw [labelsAfter]
      by_cases hid : id < items.length
      · rw [List.getElem?_append_left hid] at hget
        exact h id x label hget
      · rw [List.getElem?_append_right (by omega)] at hget
        obtain ⟨ls, hls, -⟩ := b.label_of_items hget
        rw [hb] at hls
        cases hls
  | some ls =>
      have hlen : ls.length = b.items.length := by rw [b.length_items, b.same ls hb]
      have htake : label_ids.take items.length = label_ids := List.take_of_length_le hshort
      rw [labelsAfter, copyBehind, htake]
      refine ⟨fun id x label hget => ?_, by simp; omega⟩
      by_cases hid : id < items.length
      · rw [List.getElem?_append_left hid] at hget
        rw [List.append_assoc, List.getElem?_append_left (hlt hget)]
        exact h id x label hget
      · rw [List.getElem?_append_right (by omega)] at hget
        obtain ⟨ls', hls', hnew⟩ := b.label_of_items hget
        rw [hb] at hls'
        cases hls'
        have hpre : (label_ids ++ List.replicate (items.length - label_ids.length) 0).length =
            items.length := by simp; omega
        rw [List.getElem?_append_right (by omega), hpre]
        exact hnew

/-! ### Sets in memory -/

/-- What is documented of the libraries: additions are appended, nothing else that the methods
call changes what an index contains, a search finds descriptors of the index, and an index that
is read is the one that has been written. -/
class LawfulLibrary [VectorLibrary] where
  contents : Index → List Vec
  contents_add : ∀ {xs i j}, VectorLibrary.add xs i = (some (), j) → contents j = contents i ++ xs
  contents_train : ∀ {xs i r j}, VectorLibrary.train xs i = (r, j) → contents j = contents i
  contents_makeDirectMap : ∀ {i r j}, makeDirectMap i = (r, j) → contents j = contents i
  contents_search : ∀ {q k i r j}, VectorLibrary.search q k i = (r, j) → contents j = contents i
  contents_finalize : ∀ {i r j}, finalizeConstruction i = (r, j) → contents j = contents i
  contents_write : ∀ {i r j}, writeIndex i = (r, j) → contents j = contents i
  contents_read : ∀ {i file j k}, writeIndex i = (some file, j) → readIndex file = some k →
    contents k = contents i
  ntotal_eq : ∀ i, ntotal i = (contents i).length
  found : ∀ {q k i rows j}, VectorLibrary.search q k i = (some rows, j) →
    ∀ row ∈ rows, ∀ p ∈ row, p.1 < 0 ∨ p.1.toUInt64.toNat < (contents i).length

section

variable [VectorLibrary]

/-- Opening a set of a class. -/
def MemoryEngine.openSet (e : MemoryEngine) (path : String) (disk : Directories File)
    (uninitialized : Int64) (dimensions : Index → ℕ) : Except SetError MemorySet :=
  if e = .Flinng then Flinng.openSet path disk uninitialized
  else Faiss.openSet path disk uninitialized dimensions

/-- The calls that only ask. -/
def SetCall.IsQuery : SetCall → Prop
  | .search _ _ | .classify _ _ | .getLabels _ => True
  | .add _ _ | .train _ | .store _ _ => False

variable [LawfulLibrary]

open LawfulLibrary

/-- A class of sets in memory as a store. A new set has a directory of its own, in which there
is nothing yet. -/
@[reducible] def memoryStore (e : MemoryEngine) : Store (Vec × Option Int64) where
  State := MemorySet
  IsNew s := contents s.index = [] ∧ s.label_ids = [] ∧ s.n_total = 0 ∧ s.disk s.set_path = none
  add s xs id t := ∃ b : Batch Vec, xs = b.items ∧ e.add b.descriptors b.labels 0 s = .ret id t
  save s t := ∃ ret, e.store s.set_path ret 0 s = .ret () t
  reopen s t := ∃ uninitialized dimensions,
    e.openSet s.set_path s.disk uninitialized dimensions = .ok t
  query s t := ∃ c : SetCall, c.IsQuery ∧ c.after e s = some t
  stores s id x := (contents s.index)[id]? = some x.1 ∧
    ∀ l, x.2 = some l → s.label_ids[id]? = some l

/-- A set in memory is opened again only when all is stored, with a number of label ids that
fits its four bytes, and one of FLINNG is not added to after it has been opened again. -/
def MemoryMeets (e : MemoryEngine) (s : MemorySet) (l : Ledger (Vec × Option Int64)) :
    StoreAction (Vec × Option Int64) → Prop
  | .add _ => e = .Flinng → l.reopened = false
  | .reopen => l.saved = true ∧ s.label_ids.length < 2 ^ 32
  | .save | .query => True

/-- What a set in memory has of its history. -/
structure MemoryInv (e : MemoryEngine) (s : MemorySet) (l : Ledger (Vec × Option Int64)) :
    Prop where
  contents : contents s.index = l.items.map Prod.fst
  labels : LabelsKept l.items s.label_ids
  short : s.label_ids.length ≤ l.items.length
  total : e = .Flinng → l.reopened = false → s.n_total = l.items.length
  saved : l.saved = true → ∀ files, s.disk s.set_path = some files →
    files.ids = some (writeLabelIds s.label_ids) ∧
    ∀ file j, files.index = some file → readIndex file = some j →
      LawfulLibrary.contents j = LawfulLibrary.contents s.index

/-- What asking a set does not change. -/
structure Asked (s t : MemorySet) : Prop where
  contents : contents t.index = contents s.index
  label_ids : t.label_ids = s.label_ids
  n_total : t.n_total = s.n_total
  disk : t.disk = s.disk
  set_path : t.set_path = s.set_path

namespace Asked

variable {α : Type} {s t u : MemorySet}

theorem refl (s : MemorySet) : Asked s s := ⟨rfl, rfl, rfl, rfl, rfl⟩

theorem trans (h : Asked s t) (h' : Asked t u) : Asked s u :=
  ⟨h'.contents.trans h.contents, h'.label_ids.trans h.label_ids, h'.n_total.trans h.n_total,
    h'.disk.trans h.disk, h'.set_path.trans h.set_path⟩

theorem takeLock : Within Asked MemorySet.takeLock := by
  intro s n
  by_cases h : s.lock = true
  · simp [MemorySet.takeLock, ofFun, h, Outcome.Ok]
  · simp only [MemorySet.takeLock, ofFun, h, Bool.false_eq_true, if_false, Outcome.Ok]
    exact .single ⟨rfl, rfl, rfl, rfl, rfl⟩

theorem unlock : Within Asked MemorySet.unlock := .modify fun _ => ⟨rfl, rfl, rfl, rfl, rfl⟩

theorem call {f : Call Index α}
    (hf : ∀ i r j, f i = (r, j) → LawfulLibrary.contents j = LawfulLibrary.contents i) :
    Within Asked (MemorySet.call f) := by
  intro s n
  rcases hr : f s.index with ⟨_ | a, i⟩ <;>
    simp only [MemorySet.call, ofFun, hr, Outcome.Ok] <;>
    exact .single ⟨hf _ _ _ hr, rfl, rfl, rfl, rfl⟩

theorem faissSearch (q : List Vec) (k : ℕ) : Within Asked (Faiss.search q k) :=
  call fun _ _ _ => contents_search

theorem flinngSearch (q : List Vec) (k : ℕ) : Within Asked (Flinng.search q k) := by
  refine .bind .get fun s => .ite (fun _ => ?_) fun _ => call fun _ _ _ => contents_search
  refine .bind takeLock fun _ => .bind (call fun _ _ _ => contents_finalize) fun _ => ?_
  refine .bind (.modify fun _ => ⟨rfl, rfl, rfl, rfl, rfl⟩) fun _ => .bind unlock fun _ => ?_
  exact call fun _ _ _ => contents_search

/-- Both classes vote in the same way. -/
theorem vote (neighbors : List (List (Int64 × Dist))) :
    Within Asked (do
      MemorySet.takeLock
      let s ← get
      match winners s.label_ids (neighbors.map fun row => row.map Prod.fst) with
      | none => throw .outOfRange
      | some ids => do
        MemorySet.unlock
        pure ids : MemorySet.Method (List Int64)) := by
  refine .bind takeLock fun _ => .bind .get fun s => ?_
  split
  · exact .throw _
  · exact .bind unlock fun _ => .pure _

theorem getLabels (e : MemoryEngine) (ids : List Int64) : Within Asked (e.getLabels ids) := by
  have hfaiss : Within Asked (Faiss.getLabels ids) := by
    refine .bind takeLock fun _ => .bind .get fun s => ?_
    split
    · exact .bind unlock fun _ => .pure _
    · exact .bind unlock fun _ => .throw _
    · exact .stuck
  have hflinng : Within Asked (Flinng.getLabels ids) := by
    refine .bind takeLock fun _ => .bind .get fun s => ?_
    split
    · exact .bind unlock fun _ => .pure _
    · exact .throw _
    · exact .stuck
  cases e with
  | Flinng => exact hflinng
  | FaissFlat | FaissIVFFlat | FaissHNSWFlat => exact hfaiss

theorem search (e : MemoryEngine) (q : List Vec) (k : ℕ) : Within Asked (e.search q k) := by
  cases e with
  | Flinng => exact flinngSearch q k
  | FaissFlat | FaissIVFFlat | FaissHNSWFlat => exact faissSearch q k

theorem classify (e : MemoryEngine) (ds : List Vec) (quorum : ℕ) :
    Within Asked (e.classify ds quorum) := by
  cases e with
  | Flinng => exact .bind (flinngSearch ds quorum) vote
  | FaissFlat | FaissIVFFlat | FaissHNSWFlat => exact .bind (faissSearch ds quorum) vote

/-- Where a computation that only asks ends. -/
theorem of_within {m : MemorySet.Method α} (h : Within Asked m) {n : ℕ}
    (ht : (m n s).state = some t) : Asked s t := by
  have hend := (h.invariant (I := Asked s) (fun _ _ hstep hs => hs.trans hstep) (refl s)) n
  cases hm : m n s with
  | ret a u =>
      rw [hm] at hend ht
      exact Option.some.inj ht ▸ hend
  | throw e u =>
      rw [hm] at hend ht
      exact Option.some.inj ht ▸ hend
  | stuck => rw [hm] at ht; cases ht

theorem of_query {e : MemoryEngine} {c : SetCall} (hc : c.IsQuery) (ht : c.after e s = some t) :
    Asked s t := by
  cases c with
  | search q k => exact of_within (search e q k) ht
  | classify ds quorum => exact of_within (classify e ds quorum) ht
  | getLabels ids => exact of_within (getLabels e ids) ht
  | add ds labels => exact hc.elim
  | train ds => exact hc.elim
  | store path ret => exact hc.elim

end Asked

section

variable {e : MemoryEngine} {s t : MemorySet} {id : ℕ} {descriptors : List Vec}
  {labels : Option (List Int64)}

omit [LawfulLibrary] in
/-- A method that returns has found the lock free. -/
theorem lock_of_ret {α : Type} {f : Unit → MemorySet.Method α} {n : ℕ} {a : α}
    (h : (MemorySet.takeLock >>= f) n s = .ret a t) : s.lock = false := by
  by_contra hlock
  rw [takeLock_diverges (by simpa using hlock) f n] at h
  cases h

/-- What an addition that returns has changed. -/
structure AddedTo (e : MemoryEngine) (s : MemorySet) (descriptors : List Vec)
    (labels : Option (List Int64)) (id : ℕ) (t : MemorySet) : Prop where
  first : id = if e = .Flinng then s.n_total else (contents s.index).length
  contents : contents t.index = contents s.index ++ descriptors
  label_ids : t.label_ids = labelsAfter s.label_ids id labels
  n_total : e = .Flinng → t.n_total = s.n_total + descriptors.length
  disk : t.disk = s.disk
  set_path : t.set_path = s.set_path

theorem faiss_added (he : e ≠ .Flinng) (h : Faiss.add descriptors labels 0 s = .ret id t) :
    AddedTo e s descriptors labels id t := by
  rw [Faiss.add_apply (lock_of_ret h)] at h
  rcases hadd : VectorLibrary.add descriptors s.index with ⟨_ | _, i⟩
  · rw [hadd] at h
    cases h
  · rw [hadd] at h
    cases h
    refine ⟨?_, contents_add hadd, rfl, fun hf => absurd hf he, rfl, rfl⟩
    rw [if_neg he, ntotal_eq]

/-- Training an index does not change what it contains. -/
theorem contents_prepare {dimensions : ℕ} {i j : Index} {r : Option Unit}
    (h : prepare dimensions descriptors i = (r, j)) :
    LawfulLibrary.contents j = LawfulLibrary.contents i := by
  rw [prepare] at h
  split at h
  · cases h
    rfl
  · rw [Call.bind] at h
    split at h
    · next hmap htrain => exact (contents_makeDirectMap h).trans (contents_train htrain)
    · next htrain =>
      cases h
      exact contents_train htrain

theorem MemoryEngine.add_ret (h : e.add descriptors labels 0 s = .ret id t) :
    AddedTo e s descriptors labels id t := by
  cases e with
  | FaissFlat => exact faiss_added (by decide) h
  | FaissHNSWFlat => exact faiss_added (by decide) h
  | FaissIVFFlat =>
      have hlock := lock_of_ret h
      rw [MemoryEngine.add, FaissIVFFlat.add_apply hlock] at h
      rcases hp : prepare s.dimensions descriptors s.index with ⟨_ | _, i⟩
      · rw [hp] at h
        cases h
      · rw [hp] at h
        have hadded := faiss_added (e := .FaissIVFFlat) (by decide) h
        have hi := contents_prepare hp
        have hid := hadded.first
        have hcontents := hadded.contents
        simp only [hi] at hid hcontents
        exact ⟨hid, hcontents, hadded.label_ids, by simp, hadded.disk, hadded.set_path⟩
  | Flinng =>
      have hlock := lock_of_ret h
      rw [MemoryEngine.add, Flinng.add_apply hlock] at h
      rcases hadd : VectorLibrary.add descriptors s.index with ⟨_ | _, i⟩
      · rw [hadd] at h
        cases h
      · rw [hadd] at h
        cases h
        exact ⟨rfl, contents_add hadd, rfl, fun _ => rfl, rfl, rfl⟩

omit [LawfulLibrary] in
theorem MemoryEngine.store_ret {path : String} {ret : ℤ} (h : e.store path ret 0 s = .ret () t) :
    ∃ file i, writeIndex s.index = (some file, i) ∧ t = stored s path file i := by
  have hfaiss (h : Faiss.store path ret 0 s = .ret () t) :
      ∃ file i, writeIndex s.index = (some file, i) ∧ t = stored s path file i := by
    rw [Faiss.store_apply (lock_of_ret h)] at h
    split at h
    · rcases hw : writeIndex s.index with ⟨_ | file, i⟩
      · rw [hw] at h
        cases h
      · rw [hw] at h
        cases h
        exact ⟨file, i, rfl, rfl⟩
    · cases h
  cases e with
  | FaissFlat | FaissIVFFlat | FaissHNSWFlat => exact hfaiss h
  | Flinng =>
      have hlock := lock_of_ret h
      rw [MemoryEngine.store, Flinng.store_apply hlock] at h
      split at h
      · rcases hw : writeIndex s.index with ⟨_ | file, i⟩
        · rw [hw] at h
          cases h
        · rw [hw] at h
          cases h
          exact ⟨file, i, rfl, rfl⟩
      · cases h

/-- What a set that is opened has read. -/
structure OpenedFrom (e : MemoryEngine) (path : String) (disk : Directories File)
    (t : MemorySet) : Prop where
  files : ∃ files ids file, disk path = some files ∧ files.ids = some ids ∧
    t.label_ids = readLabelIds ids ∧ files.index = some file ∧ readIndex file = some t.index
  n_total : e = .Flinng → t.n_total = 0
  disk : t.disk = disk
  set_path : t.set_path = path

omit [LawfulLibrary] in
theorem MemoryEngine.openSet_ok {path : String} {disk : Directories File} {u : Int64}
    {dimensions : Index → ℕ} (h : e.openSet path disk u dimensions = .ok t) :
    OpenedFrom e path disk t := by
  rw [MemoryEngine.openSet, Flinng.openSet, Faiss.openSet, MemorySet.openLabels] at h
  cases hfiles : disk path with
  | none => simp [hfiles] at h
  | some files =>
      cases hids : files.ids with
      | none => simp [hfiles, hids] at h
      | some ids =>
          simp only [hfiles, hids] at h
          cases hindex : files.index.bind readIndex with
          | none =>
              simp only [hindex] at h
              split at h <;> cases h
          | some j =>
              obtain ⟨file, hfile, hread⟩ := Option.bind_eq_some_iff.mp hindex
              simp only [hindex] at h
              split at h
              · cases h
                exact ⟨⟨files, ids, file, hfiles, hids, rfl, hfile, hread⟩, fun _ => rfl, rfl, rfl⟩
              · next he =>
                cases h
                exact ⟨⟨files, ids, file, hfiles, hids, rfl, hfile, hread⟩,
                  fun hf => absurd hf he, rfl, rfl⟩

/-- The history of a set in memory is kept by each of its operations. -/
theorem memoryInv (e : MemoryEngine) :
    Store.Invariant (memoryStore e) (MemoryMeets e) (MemoryInv e) where
  new s h := by
    obtain ⟨hcontents, hlabels, htotal, hdisk⟩ := h
    refine ⟨hcontents, fun id x label hid => ?_, by simp [hlabels], fun _ _ => htotal, ?_⟩
    · simp [Ledger.empty, Ledger.items] at hid
    · intro _ files hfiles
      rw [hdisk] at hfiles
      cases hfiles
  add s t l batch id hinv hmeets h := by
    obtain ⟨b, rfl, h⟩ := h
    have hadded := e.add_ret h
    have hcontents := hinv.contents
    have hid : id = l.items.length := by
      rw [hadded.first]
      split
      · next he => exact hinv.total he (hmeets he)
      · rw [hcontents, List.length_map]
    subst hid
    obtain ⟨hkept, hshort⟩ := hinv.labels.after hinv.short b
    rw [← hadded.label_ids] at hkept hshort
    have hitems : Ledger.items
        { l with adds := l.adds ++ [⟨l.items.length, b.items⟩], saved := false } =
        l.items ++ b.items := by simp [Ledger.items]
    refine ⟨rfl, ?_, hitems ▸ hkept, hitems ▸ hshort, fun he hreopened => ?_,
      fun h => absurd h Bool.false_ne_true⟩
    · rw [hadded.contents, hitems, List.map_append, hcontents, b.map_fst_items]
    · rw [hadded.n_total he, hitems, List.length_append, b.length_items,
        hinv.total he hreopened]
  save s t l hinv _ h := by
    obtain ⟨ret, h⟩ := h
    obtain ⟨file, i, hw, rfl⟩ := MemoryEngine.store_ret h
    have hcontents : LawfulLibrary.contents i = LawfulLibrary.contents s.index :=
      contents_write hw
    refine ⟨hcontents.trans hinv.contents, hinv.labels, hinv.short, hinv.total, ?_⟩
    intro _ files hfiles
    have hfiles : files = filesOf s file := by
      simpa [stored] using hfiles.symm
    subst hfiles
    refine ⟨rfl, fun file' j hfile hread => ?_⟩
    cases hfile
    exact (contents_read hw hread).trans hcontents.symm
  reopen s t l hinv hmeets h := by
    obtain ⟨u, dimensions, h⟩ := h
    have hopen := MemoryEngine.openSet_ok h
    obtain ⟨files, ids, file, hfiles, hids, hlabels, hindex, hread⟩ := hopen.files
    obtain ⟨hwritten, hcontents⟩ := hinv.saved hmeets.1 files hfiles
    have hcontents := hcontents file t.index hindex hread
    have hlabels : t.label_ids = s.label_ids := by
      rw [hlabels]
      rw [hids] at hwritten
      cases hwritten
      exact (read_write_labelIds_iff _).mpr hmeets.2
    refine ⟨hcontents.trans hinv.contents, hlabels ▸ hinv.labels, hlabels ▸ hinv.short, ?_, ?_⟩
    · intro he hreopened
      have hempty : l.items = [] := by simpa using hreopened
      rw [hopen.n_total he]
      exact (congrArg List.length hempty).symm
    · rw [hopen.disk, hopen.set_path, hlabels, hcontents]
      exact hinv.saved
  query s t l hinv _ h := by
    obtain ⟨c, hc, h⟩ := h
    have hasked := Asked.of_query hc h
    refine ⟨hasked.contents.trans hinv.contents, hasked.label_ids ▸ hinv.labels,
      hasked.label_ids ▸ hinv.short, hasked.n_total ▸ hinv.total, ?_⟩
    rw [hasked.disk, hasked.set_path, hasked.label_ids, hasked.contents]
    exact hinv.saved

end

end

/-! ### Dense arrays -/

/-- The cells of a batch. -/
theorem cellsOf_batch (b : Batch Descriptor) :
    cellsOf b.descriptors (b.labels.getD (List.replicate b.descriptors.length (-1))) =
      b.items.map fun x => ⟨x.1, x.2.getD (-1)⟩ := by
  rw [b.storedLabels, cellsOf, ← b.map_fst_items, List.zipWith_map, List.zipWith_self]

/-- The cells before those of the metadata have room for the batch. -/
def DenseMeets (_ : DenseSet) (l : Ledger (Descriptor × Option Int64)) :
    StoreAction (Descriptor × Option Int64) → Prop
  | .add batch => l.items.length + batch.length ≤ Dense.METADATA_OFFSET
  | .save | .reopen | .query => True

/-- What a set with a dense array has of its history. -/
structure DenseInv (s : DenseSet) (l : Ledger (Descriptor × Option Int64)) : Prop where
  stores : ∀ (id : ℕ) x, l.items[id]? = some x → s.cells id = ⟨x.1, x.2.getD (-1)⟩
  total : s.n_total = l.items.length
  bound : l.items.length ≤ Dense.METADATA_OFFSET
  metadata : (s.cells (Dense.METADATA_OFFSET + 1)).label = Int64.ofNat l.items.length

namespace Dense

variable {s t : DenseSet}

theorem metadata_label (s : DenseSet) :
    ((writeDescriptorMetadata s).cells (METADATA_OFFSET + 1)).label = Int64.ofNat s.n_total := by
  rw [writeDescriptorMetadata]
  simp only
  rw [writeCells_add rfl]

/-- An addition writes its cells and those of the metadata. -/
theorem added_cells {b : Batch Descriptor} {id : ℕ} (h : id < METADATA_OFFSET) :
    (added s b.descriptors b.labels).cells id =
      writeCells s.cells s.n_total (b.items.map fun x => ⟨x.1, x.2.getD (-1)⟩) id := by
  rw [← cellsOf_batch]
  exact writeCells_of_outside (.inl h)

theorem total_persists {l : Ledger (Descriptor × Option Int64)} (h : DenseInv s l)
    (hcells : t.cells = s.cells) : (readDescriptorMetadata t).n_total = l.items.length := by
  have hbound := h.bound
  rw [readDescriptorMetadata]
  simp only [hcells, h.metadata]
  refine toNat_ofNat ?_
  simp only [METADATA_OFFSET, MAX_DESC] at hbound
  omega

end Dense

theorem DenseInv.congr {s t : DenseSet} {l l' : Ledger (Descriptor × Option Int64)}
    (h : DenseInv s l) (hadds : l'.adds = l.adds) (hcells : t.cells = s.cells)
    (htotal : t.n_total = l.items.length) : DenseInv t l' := by
  have hitems : l'.items = l.items := congrArg Imp.items hadds
  exact ⟨hitems ▸ hcells ▸ h.stores, hitems ▸ htotal, hitems ▸ h.bound,
    hitems ▸ hcells ▸ h.metadata⟩

section

variable [StdPartialSort]

/-- The sets with a dense array as a store. The text of an error is TileDB's. -/
@[reducible] def denseStore (what : String) : Store (Descriptor × Option Int64) where
  State := DenseSet
  IsNew s := ∃ dim fill, s = Dense.create dim fill
  add s xs id t := ∃ b : Batch Descriptor, xs = b.items ∧
    Dense.add what b.descriptors b.labels 0 s = .ret id t
  save s t := Dense.store 0 s = .ret () t
  reopen s t := ∃ uninitialized, t = Dense.openSet s uninitialized
  query s t := ∃ q k, (Dense.search q k 0 s).state = some t
  stores s id x := s.cells id = ⟨x.1, x.2.getD (-1)⟩

/-- A search loads the buffer if it has not been loaded. -/
theorem Dense.search_state {s t : DenseSet} {q : List Descriptor} {k n : ℕ}
    (h : (Dense.search q k n s).state = some t) :
    s.flag_buffer_updated = true ∧ t = s ∨
      s.flag_buffer_updated = false ∧ (Dense.loadBuffer n s).state = some t := by
  have hend (u : DenseSet) : ((if q ≠ [] ∧ u.n_total < k then stuck
      else pure (q.map fun q => (StdPartialSort.sort (distances u q) k).map fun i =>
        (Int64.ofNat i, (distances u q).getD i 0)) : Dense.Method _) n u).state = some t →
      t = u := by
    intro ht
    split at ht
    · cases ht
    · exact (Option.some.inj ht).symm
  rw [Dense.search] at h
  simp only [bind_apply, get_apply, Outcome.andThen_ret] at h
  cases hflag : s.flag_buffer_updated with
  | true =>
      rw [when_neg (by simp [hflag])] at h
      exact .inl ⟨rfl, hend s h⟩
  | false =>
      rw [when_pos (by simpa using hflag)] at h
      refine .inr ⟨rfl, ?_⟩
      cases hload : Dense.loadBuffer n s with
      | ret u v =>
          rw [hload] at h
          exact congrArg some (hend v h).symm
      | throw e v =>
          rw [hload] at h
          exact h
      | stuck => rw [hload] at h; cases h

omit [StdPartialSort] in
/-- Loading the buffer reads the metadata and leaves the array. -/
theorem Dense.loadBuffer_state {s t : DenseSet} {n : ℕ}
    (h : (Dense.loadBuffer n s).state = some t) :
    t.cells = s.cells ∧ t.n_total = (Dense.readDescriptorMetadata s).n_total := by
  rw [Dense.loadBuffer_apply] at h
  simp only at h
  split at h <;> cases h <;> exact ⟨rfl, rfl⟩

theorem denseInv (what : String) : Store.Invariant (denseStore what) DenseMeets DenseInv where
  new s h := by
    obtain ⟨dim, fill, rfl⟩ := h
    refine ⟨fun id x hid => ?_, rfl, Nat.zero_le _, Dense.metadata_label _⟩
    simp [Ledger.empty, Ledger.items] at hid
  add s t l batch id hinv hmeets h := by
    obtain ⟨b, rfl, h⟩ := h
    obtain ⟨rfl, rfl, -⟩ := Dense.add_ret h
    have htotal := hinv.total
    have hroom : l.items.length + b.items.length ≤ Dense.METADATA_OFFSET := hmeets
    have hitems : Ledger.items
        { l with adds := l.adds ++ [⟨s.n_total, b.items⟩], saved := false } =
        l.items ++ b.items := by simp [Ledger.items]
    refine ⟨htotal, fun id x hid => ?_, ?_, ?_, ?_⟩
    · rw [hitems] at hid
      have hlt : id < Dense.METADATA_OFFSET := by
        have := (List.getElem?_eq_some_iff.mp hid).1
        rw [List.length_append] at this
        omega
      rw [Dense.added_cells hlt, htotal]
      by_cases hold : id < l.items.length
      · rw [List.getElem?_append_left hold] at hid
        rw [writeCells_of_outside (.inl hold)]
        exact hinv.stores id x hid
      · obtain ⟨j, rfl⟩ : ∃ j, id = l.items.length + j := ⟨id - l.items.length, by omega⟩
        rw [List.getElem?_append_right (by omega), Nat.add_sub_cancel_left] at hid
        exact writeCells_add (by rw [List.getElem?_map, hid]; rfl)
    · rw [hitems, List.length_append, b.length_items, ← htotal]
      rfl
    · rw [hitems, List.length_append]
      exact hroom
    · rw [hitems, List.length_append, b.length_items, ← htotal]
      exact Dense.metadata_label _
  save s t l hinv _ h := by
    cases h
    exact hinv.congr rfl rfl hinv.total
  reopen s t l hinv _ h := by
    obtain ⟨u, rfl⟩ := h
    have hcells : (Dense.openSet s u).cells = s.cells := rfl
    exact hinv.congr rfl hcells (Dense.total_persists (t := { s with
      n_total := 0, dimensions := 0, buffer := [], label_ids := [], flag_buffer_updated := false,
      labels_map := readLabelsMap u (s.labels_file.getD []) }) hinv rfl)
  query s t l hinv _ h := by
    obtain ⟨q, k, h⟩ := h
    rcases Dense.search_state h with ⟨-, rfl⟩ | ⟨-, hload⟩
    · exact hinv
    · obtain ⟨hcells, htotal⟩ := Dense.loadBuffer_state hload
      exact hinv.congr rfl hcells (htotal.trans (Dense.total_persists hinv rfl))

end

/-! ### Sparse arrays -/

/-- The sets with a sparse array as a store. A search changes nothing. -/
@[reducible] def sparseStore : Store (Descriptor × Option Int64) where
  State := SparseSet
  IsNew s := ∃ dim, 1 ≤ dim ∧ dim < 2 ^ 32 ∧ s = Sparse.create dim
  add s xs id t := ∃ b : Batch Descriptor, xs = b.items ∧
    Sparse.add b.descriptors b.labels 0 s = .ret id t
  save s t := Sparse.store 0 s = .ret () t
  reopen s t := ∃ uninitialized, t = Sparse.openSet s uninitialized
  query s t := t = s
  stores s id x := ⟨x.1, Int64.ofNat id, x.2.getD (-1)⟩ ∈ s.cells

/-- Nothing is added after the set has been opened again, and a new descriptor is neither at
the point of another one nor at that of the metadata. -/
def SparseMeets (s : SparseSet) (l : Ledger (Descriptor × Option Int64)) :
    StoreAction (Descriptor × Option Int64) → Prop
  | .add batch => l.reopened = false ∧
    ∀ x ∈ batch, x.1 ∉ l.items.map Prod.fst ∧ x.1 ≠ Sparse.metadataCoords s.ndim
  | .save | .reopen | .query => True

/-- What a set with a sparse array has of its history. -/
structure SparseInv (s : SparseSet) (l : Ledger (Descriptor × Option Int64)) : Prop where
  holds : Sparse.Holds s s.ndim (l.items.map Prod.fst) (l.items.map fun x => x.2.getD (-1))
  small : s.ndim < 2 ^ 32
  total : l.reopened = false → s.n_total = l.items.length ∧ s.dimensions = s.ndim
  start : l.items = [] → s.cells = [⟨Sparse.metadataCoords s.ndim, Int64.ofNat s.ndim, 0⟩]

namespace Sparse

theorem mem_cellsFrom {xs : List Descriptor} {ls : List Int64} {j id : ℕ} {x : Descriptor}
    {l : Int64} (hx : xs[j]? = some x) (hl : ls[j]? = some l) :
    ⟨x, Int64.ofNat (id + j), l⟩ ∈ cellsFrom id xs ls := by
  induction xs generalizing id ls j with
  | nil => simp at hx
  | cons y ys ih =>
      cases ls with
      | nil => simp at hl
      | cons m ms =>
          cases j with
          | zero =>
              obtain rfl : y = x := by simpa using hx
              obtain rfl : m = l := by simpa using hl
              exact List.mem_cons_self
          | succ j =>
              have hmem : ⟨x, Int64.ofNat (id + 1 + j), l⟩ ∈ cellsFrom (id + 1) ys ms :=
                ih (by simpa using hx) (by simpa using hl)
              rw [Nat.add_right_comm, ← Nat.add_assoc] at *
              exact List.mem_cons_of_mem _ hmem

end Sparse

theorem SparseInv.stores {s : SparseSet} {l : Ledger (Descriptor × Option Int64)}
    (h : SparseInv s l) {id : ℕ} {x : Descriptor × Option Int64} (hid : l.items[id]? = some x) :
    ⟨x.1, Int64.ofNat id, x.2.getD (-1)⟩ ∈ s.cells := by
  obtain ⟨metadata, -, hperm⟩ := h.holds.cells
  refine hperm.mem_iff.mpr (List.mem_cons_of_mem _ ?_)
  have hmem : ⟨x.1, Int64.ofNat (0 + id), x.2.getD (-1)⟩ ∈ Sparse.cellsFrom 0
      (l.items.map Prod.fst) (l.items.map fun x => x.2.getD (-1)) :=
    Sparse.mem_cellsFrom (by rw [List.getElem?_map, hid]; rfl)
      (by rw [List.getElem?_map, hid]; rfl)
  rwa [Nat.zero_add] at hmem

/-- The array of a set with a changed total, or of another history with the same items. -/
theorem SparseInv.congr {s t : SparseSet} {l l' : Ledger (Descriptor × Option Int64)}
    (h : SparseInv s l) (hadds : l'.adds = l.adds) (hcells : t.cells = s.cells)
    (hndim : t.ndim = s.ndim)
    (htotal : l'.reopened = false → t.n_total = l.items.length ∧ t.dimensions = s.ndim) :
    SparseInv t l' := by
  have hitems : l'.items = l.items := congrArg Imp.items hadds
  obtain ⟨hpos, hdim, hlen, hfresh, hperm⟩ := h.holds
  refine ⟨?_, hndim ▸ h.small, ?_, ?_⟩
  · rw [hitems, hndim]
    exact ⟨hpos, hndim, hlen, hfresh, hcells ▸ hperm⟩
  · rw [hitems, hndim]
    exact htotal
  · rw [hitems, hcells, hndim]
    exact h.start

theorem sparseInv : Store.Invariant sparseStore SparseMeets SparseInv where
  new s h := by
    obtain ⟨dim, hpos, hsmall, rfl⟩ := h
    exact ⟨Sparse.Holds.create hpos, hsmall, fun _ => ⟨rfl, rfl⟩, fun _ => rfl⟩
  add s t l batch id hinv hmeets h := by
    obtain ⟨b, rfl, h⟩ := h
    obtain ⟨rfl, rfl, -⟩ := Sparse.add_ret h
    obtain ⟨htotal, hdim⟩ := hinv.total hmeets.1
    have hitems : Ledger.items
        { l with adds := l.adds ++ [⟨s.n_total, b.items⟩], saved := false } =
        l.items ++ b.items := by simp [Ledger.items]
    have hnew : ∀ x ∈ b.descriptors,
        x ∉ l.items.map Prod.fst ∧ x ≠ Sparse.metadataCoords s.ndim := by
      intro x hx
      rw [← b.map_fst_items] at hx
      obtain ⟨y, hy, rfl⟩ := List.mem_map.mp hx
      exact hmeets.2 y hy
    refine ⟨htotal, ?_, hinv.small, fun _ => ⟨?_, hdim⟩, fun hempty => ?_⟩
    · have hadded := hinv.holds.added hdim (by rw [htotal, List.length_map]) b.same hnew
      rw [hitems, List.map_append, List.map_append, b.map_fst_items, ← b.storedLabels]
      exact hadded
    · rw [hitems, List.length_append, b.length_items, ← htotal]
      rfl
    · rw [hitems, List.append_eq_nil_iff] at hempty
      have hnone : b.descriptors = [] := by
        rw [← b.map_fst_items, hempty.2, List.map_nil]
      have hzero : s.n_total = 0 := by rw [htotal, hempty.1, List.length_nil]
      have hcells := hinv.start hempty.1
      simp [Sparse.added, Sparse.writeDescriptorMetadata, writePoints, Sparse.cellsFrom, hnone,
        hzero, hdim, hcells]
  save s t l hinv _ h := by
    cases h
    exact hinv.congr rfl rfl rfl hinv.total
  reopen s t l hinv _ h := by
    obtain ⟨u, rfl⟩ := h
    have hread (p : SparseSet) : (Sparse.readDescriptorMetadata p).cells = p.cells ∧
        (Sparse.readDescriptorMetadata p).ndim = p.ndim := by
      rw [Sparse.readDescriptorMetadata]
      split <;> exact ⟨rfl, rfl⟩
    refine hinv.congr rfl (hread _).1 (hread _).2 fun hreopened => ?_
    have hempty : l.items = [] := by simpa using hreopened
    have hcells := hinv.start hempty
    have hsmall := hinv.small
    have hdim : (Int64.ofNat s.ndim).toUInt64.toNat % 2 ^ 32 = s.ndim := by
      rw [toNat_ofNat (by omega), Nat.mod_eq_of_lt hsmall]
    rw [Sparse.openSet, Sparse.readDescriptorMetadata]
    simp only [hcells, List.find?_singleton, beq_self_eq_true, if_true, hempty, List.length_nil]
    exact ⟨rfl, hdim⟩
  query s t l hinv _ h := by
    cases h
    exact hinv

/-! ### All classes -/

/-- **Ids of descriptors.** In every run of a set of any class that meets the condition of its
class, the ids that additions answer follow on each other, also across openings, and every
descriptor added is stored under its id, with its label. -/
theorem ids_unique [VectorLibrary] [LawfulLibrary] [StdPartialSort] :
    (∀ e s l, Store.Run (memoryStore e) (MemoryMeets e) s l → Store.IsLog (memoryStore e) s l) ∧
    (∀ what s l, Store.Run (denseStore what) DenseMeets s l →
      Store.IsLog (denseStore what) s l) ∧
    (∀ s l, Store.Run sparseStore SparseMeets s l → Store.IsLog sparseStore s l) := by
  refine ⟨fun e s l hrun => ?_, fun what s l hrun => ?_, fun s l hrun => ?_⟩
  · refine hrun.sound (memoryInv e) fun s l hinv id x hid => ⟨?_, fun label hlabel => ?_⟩
    · rw [hinv.contents, List.getElem?_map, hid]
      rfl
    · exact hinv.labels id x.1 label (by rw [hid, ← hlabel])
  · exact hrun.sound (denseInv what) fun s l hinv => hinv.stores
  · exact hrun.sound sparseInv fun s l hinv id x => hinv.stores

/-! ### Sets that are opened again -/

theorem mem_insertNeighbor {p r : Int64 × ℕ} {found : List (Int64 × ℕ)}
    (h : r ∈ insertNeighbor p found) : r = p ∨ r ∈ found := by
  induction found with
  | nil => exact .inl (List.mem_singleton.mp h)
  | cons q found ih =>
      rw [insertNeighbor] at h
      split at h
      · exact List.mem_cons.mp h
      · rcases List.mem_cons.mp h with rfl | h
        · exact .inr List.mem_cons_self
        · exact (ih h).imp_right (List.mem_cons_of_mem q)

theorem mem_flatNeighbors {query : ℤ} {xs : List ℤ} {id : Int64} {found : List (Int64 × ℕ)}
    {r : Int64 × ℕ} (h : r ∈ flatNeighbors query id xs found) :
    r ∈ found ∨ ∃ j < xs.length, r.1 = id + Int64.ofNat j := by
  induction xs generalizing id found with
  | nil => exact .inl h
  | cons x xs ih =>
      rcases ih h with hmem | ⟨j, hj, hr⟩
      · rcases mem_insertNeighbor hmem with rfl | hmem
        · exact .inr ⟨0, Nat.succ_pos _, by simp⟩
        · exact .inl hmem
      · refine .inr ⟨j + 1, Nat.succ_lt_succ hj, ?_⟩
        rw [hr, Int64.ofNat_add, Int64.add_comm (Int64.ofNat j), ← Int64.add_assoc]
        rfl

theorem flatSearch_found {xs : List ℤ} {k : ℕ} {query : ℤ} {p : Int64 × ℕ}
    (h : p ∈ flatSearch xs k query) : p.1 < 0 ∨ p.1.toUInt64.toNat < xs.length := by
  rcases List.mem_append.mp h with hnear | hnone
  · rcases mem_flatNeighbors (List.mem_of_mem_take hnear) with hmem | ⟨j, hj, hr⟩
    · cases hmem
    · rw [hr, Int64.zero_add, Int64.toUInt64_ofNat']
      exact .inr (Nat.lt_of_le_of_lt (Nat.mod_le j _) hj)
  · rw [List.eq_of_mem_replicate hnone]
    exact .inl (by decide)

/-- The flat index does what is documented. -/
@[reducible] def flatLawful : @LawfulLibrary flatIndex :=
  let _ := flatIndex
  { contents := fun i => i
    contents_add := fun h => by cases h; rfl
    contents_train := fun h => by cases h; rfl
    contents_makeDirectMap := fun h => by cases h; rfl
    contents_search := fun h => by cases h; rfl
    contents_finalize := fun h => by cases h; rfl
    contents_write := fun h => by cases h; rfl
    contents_read := fun h h' => by cases h; cases h'; rfl
    ntotal_eq := fun _ => rfl
    found := fun h row hrow p hp => by
      cases h
      obtain ⟨query, -, rfl⟩ := List.mem_map.mp hrow
      exact flatSearch_found hp }

/-- A descriptor, with a label or without. -/
def oneMore {V : Type} (x : V) (label : Option Int64) : Batch V :=
  ⟨[x], label.map fun l => [l], by rintro ls h; cases label <;> cases h; rfl⟩

/-- The set with one descriptor and its label, stored and opened again. -/
@[reducible] def reopenedSet (label_ids : List Int64) (n_total dimensions : ℕ) :
    @MemorySet flatIndex :=
  let _ := flatIndex
  { flatSet with
    index := ([5] : List ℤ)
    label_ids := readLabelIds (writeLabelIds label_ids)
    n_total := n_total
    dimensions := dimensions
    labels_map := readLabelsMap 0 (writeLabelsMap ∅)
    disk := Function.update (fun _ => none) "set"
      (some ⟨some ([5] : List ℤ), some (writeLabelIds label_ids), some (writeLabelsMap ∅)⟩) }

/-- An addition before a set is opened again, and one after. -/
theorem ids_unique_reopened :
    let _ := flatIndex
    let _ := flatLawful
    let _ := insertionPartialSort
    ∃ s l, l.adds.map Added.first = [0, 1] ∧ Store.IsLog (memoryStore .FaissFlat) s l := by
  let _ := flatIndex
  let _ := flatLawful
  let _ := insertionPartialSort
  have hnew : Store.Run (memoryStore .FaissFlat) (MemoryMeets .FaissFlat) flatSet .empty :=
    .new ⟨rfl, rfl, rfl, rfl⟩
  have hadd := hnew.add (t := labelledSet) nofun ⟨oneMore (5 : ℤ) (some 7), rfl, rfl⟩
  have hsave := hadd.save trivial
    ⟨0, @Faiss.store_ret _ labelledSet "set" 0 [5] [5] rfl (.inl rfl) rfl 0⟩
  have hread : MemoryEngine.FaissFlat.openSet "set" (stored labelledSet "set" [5] [5]).disk 0
      (fun _ => 1) = .ok (reopenedSet [7] 1 1) :=
    @Faiss.openSet_filesOf _ labelledSet "set" [5] [5] 0 (fun _ => 1) flatSet.disk rfl
  have hopen := hsave.reopen ⟨rfl, by decide⟩ ⟨0, fun _ => 1, hread⟩
  have hmore := hopen.add nofun ⟨oneMore (6 : ℤ) none, rfl, rfl⟩
  exact ⟨_, _, rfl, ids_unique.1 .FaissFlat _ _ hmore⟩

/-- **Ids handed out twice.** The totals of a set of FLINNG and of one with a sparse array are
not those of the descriptors after the set has been opened again. -/
theorem first_id_again :
    let _ := flatIndex
    let _ := flatLawful
    (∃ s l, Store.Run (memoryStore .Flinng) (fun _ _ _ => True) s l ∧
      l.adds.map Added.first = [0, 0] ∧ ¬ Store.IsLog (memoryStore .Flinng) s l) ∧
    (∃ s l, Store.Run sparseStore (fun _ _ _ => True) s l ∧
      l.adds.map Added.first = [0, 0] ∧ ¬ Store.IsLog sparseStore s l) := by
  let _ := flatIndex
  let _ := flatLawful
  refine ⟨?_, ?_⟩
  · have hnew : Store.Run (memoryStore .Flinng) (fun _ _ _ => True) flatSet .empty :=
      .new ⟨rfl, rfl, rfl, rfl⟩
    have hadd := hnew.add (t := labelledSet) trivial ⟨oneMore (5 : ℤ) (some 7), rfl, rfl⟩
    have hsave := hadd.save trivial
      ⟨0, @Flinng.store_ret _ labelledSet "set" 0 [5] [5] rfl (.inl rfl) rfl 0⟩
    have hread : MemoryEngine.Flinng.openSet "set" (stored labelledSet "set" [5] [5]).disk 0
        (fun _ => 1) = .ok (reopenedSet [7] 0 0) :=
      @Flinng.openSet_filesOf _ labelledSet "set" [5] [5] 0 flatSet.disk rfl
    have hopen := hsave.reopen trivial ⟨0, fun _ => 1, hread⟩
    have hmore := hopen.add trivial ⟨oneMore (6 : ℤ) none, rfl, rfl⟩
    refine ⟨_, _, hmore, rfl, fun hlog => ?_⟩
    exact absurd hlog.consecutive.2.1 (by decide)
  · have hnew : Store.Run sparseStore (fun _ _ _ => True) (Sparse.create 1) .empty :=
      .new ⟨1, le_rfl, by decide, rfl⟩
    have hadd := hnew.add trivial ⟨oneMore [5] (some 7), rfl,
      Sparse.add_apply.trans (if_pos (by decide +kernel))⟩
    have hopen := hadd.reopen trivial ⟨0, rfl⟩
    have hmore := hopen.add trivial ⟨oneMore [6] none, rfl,
      Sparse.add_apply.trans (if_pos (by decide +kernel))⟩
    have hzero : (Sparse.openSet (Sparse.added (Sparse.create 1) [[5]] (some [7])) 0).n_total = 0 :=
      by decide +kernel
    refine ⟨_, _, hmore, congrArg (fun n => [0, n]) hzero, fun hlog => ?_⟩
    exact absurd (hzero.symm.trans hlog.consecutive.2.1) (by decide)

end VCL

end Vdms
