import Vdms.TDBSets

/-!
# Storing and Reopening the Labels

Every descriptor set writes its labels to `labels.txt` when it is stored and reads them when
it is opened, one line for each label and one word from each line. A set in memory has its
label ids in a binary file beside it, behind their number in four bytes.

## Main results

* `Faiss.openSet_filesOf`, `Flinng.openSet_filesOf`: the set that is opened from the files of
  another one.
* `labels_round_trip`: which labels and label ids come back.
* `two_words`: a label of two words does not.
-/

namespace Vdms

namespace VCL

open Imp Imp.Prog DescriptorSetData VectorLibrary

section

variable {s : DenseSet} {p : SparseSet} {uninitialized : Int64}

/-- The set comes back with its labels. -/
def Dense.RoundTrip (s : DenseSet) (uninitialized : Int64) : Prop :=
  ∃ t, Dense.store 0 s = .ret () t ∧ (Dense.openSet t uninitialized).labels_map = s.labels_map

def Sparse.RoundTrip (s : SparseSet) (uninitialized : Int64) : Prop :=
  ∃ t, Sparse.store 0 s = .ret () t ∧ (Sparse.openSet t uninitialized).labels_map = s.labels_map

theorem Dense.roundTrip_iff :
    Dense.RoundTrip s uninitialized ↔ Words s.labels_map := by
  rw [← read_write_labels_iff uninitialized]
  constructor
  · rintro ⟨t, ht, hlabels⟩
    cases ht
    exact hlabels
  · intro hlabels
    exact ⟨_, rfl, hlabels⟩

theorem Sparse.openSet_labels_map (s : SparseSet) (uninitialized : Int64) :
    (Sparse.openSet s uninitialized).labels_map =
      readLabelsMap uninitialized (s.labels_file.getD []) := by
  rw [Sparse.openSet, Sparse.readDescriptorMetadata]
  split <;> rfl

theorem Sparse.roundTrip_iff :
    Sparse.RoundTrip p uninitialized ↔ Words p.labels_map := by
  rw [← read_write_labels_iff uninitialized]
  constructor
  · rintro ⟨t, ht, hlabels⟩
    cases ht
    rwa [Sparse.openSet_labels_map] at hlabels
  · intro hlabels
    refine ⟨_, rfl, ?_⟩
    rw [Sparse.openSet_labels_map]
    exact hlabels

end

section

variable [VectorLibrary] {s : MemorySet} {path : String} {ret : ℤ} {file : File}
  {i j : Index} {uninitialized : Int64} {dimensions : Index → ℕ}

/-- The set `s` after it has been stored. -/
def stored (s : MemorySet) (path : String) (file : File) (i : Index) : MemorySet :=
  { s with
    index := i
    set_path := path
    disk := Function.update s.disk path (some (filesOf s file)) }

theorem Faiss.store_ret (h : s.lock = false) (hret : ret = 0 ∨ ret = 17)
    (hw : writeIndex s.index = (some file, i)) (n : ℕ) :
    Faiss.store path ret n s = .ret () (stored s path file i) := by
  rw [Faiss.store_apply h, if_pos hret, hw]
  rfl

theorem Flinng.store_ret (h : s.lock = false) (hret : ret = 0 ∨ ret = 17)
    (hw : writeIndex s.index = (some file, i)) (n : ℕ) :
    Flinng.store path ret n s = .ret () (stored s path file i) := by
  rw [Flinng.store_apply h, if_pos hret, hw]
  rfl

/-- A set read from the files of `s`, for which the library reads the index `j`. -/
theorem Faiss.openSet_filesOf (disk : Directories File) (hr : readIndex file = some j) :
    Faiss.openSet path (Function.update disk path (some (filesOf s file))) uninitialized
      dimensions =
      .ok { index := j, label_ids := readLabelIds (writeLabelIds s.label_ids),
            n_total := ntotal j, dimensions := dimensions j, is_finalized := false,
            labels_map := readLabelsMap uninitialized (writeLabelsMap s.labels_map),
            lock := false, set_path := path,
            disk := Function.update disk path (some (filesOf s file)) } := by
  simp [Faiss.openSet, MemorySet.openLabels, filesOf, hr]

theorem Flinng.openSet_filesOf (disk : Directories File) (hr : readIndex file = some j) :
    Flinng.openSet path (Function.update disk path (some (filesOf s file))) uninitialized =
      .ok { index := j, label_ids := readLabelIds (writeLabelIds s.label_ids), n_total := 0,
            dimensions := 0, is_finalized := false,
            labels_map := readLabelsMap uninitialized (writeLabelsMap s.labels_map),
            lock := false, set_path := path,
            disk := Function.update disk path (some (filesOf s file)) } := by
  simp [Flinng.openSet, MemorySet.openLabels, filesOf, hr]

/-- The set `s` comes back with its labels and label ids from a store and an opening. -/
def Faiss.RoundTrip (s : MemorySet) (path : String) (ret : ℤ) (uninitialized : Int64)
    (dimensions : Index → ℕ) : Prop :=
  ∃ t u, Faiss.store path ret 0 s = .ret () t ∧
    Faiss.openSet path t.disk uninitialized dimensions = .ok u ∧
    u.labels_map = s.labels_map ∧ u.label_ids = s.label_ids

/-- The set `s` comes back with its labels. -/
def Flinng.RoundTrip (s : MemorySet) (path : String) (ret : ℤ) (uninitialized : Int64) : Prop :=
  ∃ t u, Flinng.store path ret 0 s = .ret () t ∧
    Flinng.openSet path t.disk uninitialized = .ok u ∧ u.labels_map = s.labels_map

theorem Faiss.roundTrip_iff (h : s.lock = false) (hret : ret = 0 ∨ ret = 17)
    (hw : writeIndex s.index = (some file, i)) (hr : readIndex file = some j) :
    Faiss.RoundTrip s path ret uninitialized dimensions ↔
      Words s.labels_map ∧ s.label_ids.length < 2 ^ 32 := by
  rw [← read_write_labels_iff uninitialized, ← read_write_labelIds_iff]
  constructor
  · rintro ⟨t, u, ht, hu, hlabels, hids⟩
    cases ht.symm.trans (Faiss.store_ret h hret hw 0)
    cases hu.symm.trans (Faiss.openSet_filesOf s.disk hr)
    exact ⟨hlabels, hids⟩
  · rintro ⟨hlabels, hids⟩
    exact ⟨_, _, Faiss.store_ret h hret hw 0, Faiss.openSet_filesOf s.disk hr, hlabels, hids⟩

theorem Flinng.roundTrip_iff (h : s.lock = false) (hret : ret = 0 ∨ ret = 17)
    (hw : writeIndex s.index = (some file, i)) (hr : readIndex file = some j) :
    Flinng.RoundTrip s path ret uninitialized ↔ Words s.labels_map := by
  rw [← read_write_labels_iff uninitialized]
  constructor
  · rintro ⟨t, u, ht, hu, hlabels⟩
    cases ht.symm.trans (Flinng.store_ret h hret hw 0)
    cases hu.symm.trans (Flinng.openSet_filesOf s.disk hr)
    exact hlabels
  · intro hlabels
    exact ⟨_, _, Flinng.store_ret h hret hw 0, Flinng.openSet_filesOf s.disk hr, hlabels⟩

/-- **Label round trip.** A set of any of the classes comes back with its labels exactly if
each of them is a word, and one of faiss with its label ids if their number fits its four
bytes. The directory can be written, and the library reads the index it has written. -/
theorem labels_round_trip {d : DenseSet} {p : SparseSet} (h : s.lock = false)
    (hret : ret = 0 ∨ ret = 17) (hw : writeIndex s.index = (some file, i))
    (hr : readIndex file = some j) :
    (Faiss.RoundTrip s path ret uninitialized dimensions ↔
      Words s.labels_map ∧ s.label_ids.length < 2 ^ 32) ∧
    (Flinng.RoundTrip s path ret uninitialized ↔ Words s.labels_map) ∧
    (Dense.RoundTrip d uninitialized ↔ Words d.labels_map) ∧
    (Sparse.RoundTrip p uninitialized ↔ Words p.labels_map) :=
  ⟨Faiss.roundTrip_iff h hret hw hr, Flinng.roundTrip_iff h hret hw hr, Dense.roundTrip_iff,
    Sparse.roundTrip_iff⟩

end

/-- A set with a label, and the same set with a label of two words. -/
@[reducible] def setWithLabel (label : String) : @MemorySet flatIndex :=
  let _ := flatIndex
  { flatSet with labels_map := (∅ : LabelsMap).insert 7 label, label_ids := [7] }

theorem labels_round_trip_word :
    let _ := flatIndex
    Faiss.RoundTrip (setWithLabel "car") "set" 0 0 (fun _ => 1) := by
  intro _
  exact (labels_round_trip (d := Dense.create 2 ⟨[], 0⟩) (p := Sparse.create 2) (i := ([] : List ℤ))
    (j := ([] : List ℤ)) rfl (.inl rfl) rfl rfl).1.mpr ⟨by decide, by decide⟩

/-- The label comes back without its second word. -/
theorem two_words :
    let _ := flatIndex
    ¬ Faiss.RoundTrip (setWithLabel "red car") "set" 0 0 (fun _ => 1) := by
  intro _ hround
  have hwords := ((Faiss.roundTrip_iff (i := ([] : List ℤ)) (j := ([] : List ℤ)) rfl (.inl rfl) rfl
    rfl).mp hround).1
  exact absurd hwords (by decide)

end VCL

end Vdms
