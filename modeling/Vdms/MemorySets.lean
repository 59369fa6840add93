import Vdms.DescriptorSetData
import Vdms.Imp.Prog

/-!
# Descriptor Sets in Memory

`FaissDescriptorSet` and `FlinngDescriptorSet` keep the descriptors in an index of their library
and the ids of the labels beside it. Every method takes the lock of the set and gives it back
by hand. What the libraries do is a parameter (`VectorLibrary`): their calls change the
index, and may throw. Reading an element behind the end of a vector is undefined.

## Main definitions

* `MemorySet`: the state of such a set, with the files of all sets.
* `Faiss.add`, `Faiss.trainCore`, `Faiss.classify`, `Faiss.getLabels`, `Faiss.store`,
  `FaissIVFFlat.add`: the methods of `FaissDescriptorSet`.
* `Flinng.add`, `Flinng.search`, `Flinng.classify`, `Flinng.getLabels`, `Flinng.store`: those of
  `FlinngDescriptorSet`.
-/

namespace Vdms

namespace VCL

open Imp Imp.Prog DescriptorSetData

/-- What the methods of a set throw: a `VCLException`, the `std::out_of_range` of a vector, or
an exception of the library. -/
inductive SetError where
  | OpenFailed (msg : String)
  | ObjectNotFound (msg : String)
  | NotImplemented (msg : String)
  | UnsupportedOperation (msg : String)
  | TileDBError (msg : String)
  | outOfRange
  | library
  deriving DecidableEq

/-- A call of the library: what it does to the index, and a value unless it throws. -/
abbrev Call (Index α : Type) := Index → Option α × Index

/-- The libraries faiss and FLINNG. A descriptor is a `Vec`. -/
class VectorLibrary where
  Index : Type
  Vec : Type
  Dist : Type
  File : Type
  zero : Vec
  ntotal : Index → ℕ
  isTrained : Index → Bool
  add : List Vec → Call Index Unit
  train : List Vec → Call Index Unit
  makeDirectMap : Call Index Unit
  reconstructN : ℕ → Call Index (List Vec)
  reset : Call Index Unit
  search : List Vec → ℕ → Call Index (List (List (Int64 × Dist)))
  finalizeConstruction : Call Index Unit
  writeIndex : Call Index File
  readIndex : File → Option Index

/-- The directory of a set: the file of the index, `ids.arr` or `flinng_ids.arr`, and
`labels.txt`. -/
structure SetFiles (File : Type) where
  index : Option File
  ids : Option (List UInt8)
  labels : Option (List Char)

/-- The directories, by path. -/
abbrev Directories (File : Type) := String → Option (SetFiles File)

/-- `std::vector::resize` and `std::memcpy` behind the first `offset` elements. -/
def copyBehind {α : Type} (zero : α) (xs : List α) (offset : ℕ) (ys : List α) : List α :=
  xs.take offset ++ List.replicate (offset - xs.length) zero ++ ys

/-- `std::vector::at`, of an index that is not negative. -/
def vectorAt (ids : List Int64) (idx : Int64) : Option Int64 := ids[idx.toUInt64.toNat]?

/-! ### The vote -/

/-- `map_voting`, with the winner so far. -/
structure Vote where
  count : Int64 → ℕ
  winner : Int64
  max : ℕ

def Vote.start : Vote := ⟨fun _ => 0, -1, 0⟩

def Vote.add (v : Vote) (label : Int64) : Vote :=
  let count := v.count label + 1
  { count := Function.update v.count label count
    winner := if v.max < count then label else v.winner
    max := if v.max < count then count else v.max }

/-- The vote of the neighbors of a descriptor: a negative id stands for no neighbor. `none` is
an id without a label. -/
def tally (label_ids : List Int64) : List Int64 → Vote → Option Vote
  | [], v => some v
  | idx :: ids, v =>
    if idx < 0 then tally label_ids ids v
    else
      match vectorAt label_ids idx with
      | none => none
      | some label => tally label_ids ids (v.add label)

/-- The winner for each of the descriptors. -/
def winners (label_ids : List Int64) : List (List Int64) → Option (List Int64)
  | [] => some []
  | ids :: rows =>
    match tally label_ids ids .start with
    | none => none
    | some v => (winners label_ids rows).map (v.winner :: ·)

theorem vectorAt_eq_none {ids : List Int64} {idx : Int64} :
    vectorAt ids idx = none ↔ ids.length ≤ idx.toUInt64.toNat := by
  simp [vectorAt]

/-- The vote of a descriptor ends with an exception if a neighbor has no label. -/
theorem tally_eq_none {label_ids ids : List Int64} : ∀ {v : Vote},
    tally label_ids ids v = none ↔
      ∃ idx ∈ ids, 0 ≤ idx ∧ label_ids.length ≤ idx.toUInt64.toNat := by
  induction ids with
  | nil => simp [tally]
  | cons idx ids ih =>
      intro v
      rw [tally]
      by_cases hneg : idx < 0
      · have hpos : ¬ 0 ≤ idx := Int64.not_le.mpr hneg
        simp [hneg, hpos, ih]
      · have hpos : 0 ≤ idx := Int64.not_lt.mp hneg
        cases hat : vectorAt label_ids idx with
        | none =>
            have hlen := vectorAt_eq_none.mp hat
            simp [hneg, hpos, hlen]
        | some label =>
            have hlen : ¬ label_ids.length ≤ idx.toUInt64.toNat := fun hlen =>
              absurd (vectorAt_eq_none.mpr hlen) (by simp [hat])
            simp [hneg, hlen, ih]

theorem winners_eq_none {label_ids : List Int64} {rows : List (List Int64)} :
    winners label_ids rows = none ↔
      ∃ row ∈ rows, ∃ idx ∈ row, 0 ≤ idx ∧ label_ids.length ≤ idx.toUInt64.toNat := by
  induction rows with
  | nil => simp [winners]
  | cons row rows ih =>
      rw [winners]
      cases ht : tally label_ids row .start with
      | none =>
          have hrow := tally_eq_none.mp ht
          exact ⟨fun _ => ⟨row, by simp, hrow⟩, fun _ => rfl⟩
      | some v =>
          have hrow : ¬ ∃ idx ∈ row, 0 ≤ idx ∧ label_ids.length ≤ idx.toUInt64.toNat := fun h =>
            absurd (tally_eq_none (v := .start).mpr h) (by simp [ht])
          simp only [Option.map_eq_none_iff, ih, List.mem_cons, exists_eq_or_imp]
          exact ⟨.inr, fun h => h.resolve_left hrow⟩

/-! ### Looking labels up -/

/-- What the loop of `get_labels` ends with: the labels, an id that does not pass the check, or
the element behind the last one, which is read. -/
inductive LookUp where
  | found (labels : List Int64)
  | missing
  | undefined
  deriving DecidableEq

/-- The loop of `get_labels`: `idx > _label_ids.size()` compares as unsigned numbers. -/
def lookUp (label_ids : List Int64) : List Int64 → LookUp
  | [] => .found []
  | idx :: ids =>
    if label_ids.length < idx.toUInt64.toNat then .missing
    else
      match label_ids[idx.toUInt64.toNat]? with
      | none => .undefined
      | some label =>
        match lookUp label_ids ids with
        | .found labels => .found (label :: labels)
        | .missing => .missing
        | .undefined => .undefined

/-- What each of the ends of the loop says about the ids. -/
theorem lookUp_spec (label_ids ids : List Int64) :
    match lookUp label_ids ids with
    | .found labels => ids.map (fun idx => label_ids[idx.toUInt64.toNat]?) = labels.map some
    | .missing => ∃ idx ∈ ids, label_ids.length < idx.toUInt64.toNat
    | .undefined => ∃ idx ∈ ids, idx.toUInt64.toNat = label_ids.length := by
  induction ids with
  | nil => simp [lookUp]
  | cons idx ids ih =>
      rw [lookUp]
      by_cases hlt : label_ids.length < idx.toUInt64.toNat
      · rw [if_pos hlt]
        exact ⟨idx, by simp, hlt⟩
      · rw [if_neg hlt]
        cases hat : label_ids[idx.toUInt64.toNat]? with
        | none =>
            have hlen := List.getElem?_eq_none_iff.mp hat
            exact ⟨idx, by simp, by omega⟩
        | some label =>
            cases hl : lookUp label_ids ids with
            | found labels =>
                rw [hl] at ih
                simp only [List.map_cons, hat, ih]
            | missing =>
                rw [hl] at ih
                obtain ⟨j, hj, hlt⟩ := ih
                exact ⟨j, List.mem_cons_of_mem _ hj, hlt⟩
            | undefined =>
                rw [hl] at ih
                obtain ⟨j, hj, heq⟩ := ih
                exact ⟨j, List.mem_cons_of_mem _ hj, heq⟩

theorem lt_of_lookUp_found {label_ids ids labels : List Int64}
    (h : lookUp label_ids ids = .found labels) :
    ∀ idx ∈ ids, idx.toUInt64.toNat < label_ids.length := by
  intro idx hidx
  have hspec := lookUp_spec label_ids ids
  rw [h] at hspec
  have hmem : label_ids[idx.toUInt64.toNat]? ∈ labels.map some :=
    hspec ▸ List.mem_map_of_mem hidx
  obtain ⟨label, -, hlabel⟩ := List.mem_map.mp hmem
  exact (List.getElem?_eq_some_iff.mp hlabel.symm).1

section

variable [VectorLibrary]

open VectorLibrary

/-- A set and the directories. -/
structure MemorySet where
  index : Index
  label_ids : List Int64
  n_total : ℕ
  dimensions : ℕ
  is_finalized : Bool
  labels_map : LabelsMap
  lock : Bool
  set_path : String
  disk : Directories File

namespace MemorySet

/-- A computation on the set. -/
abbrev Method (α : Type) := Prog MemorySet SetError α

/-- `_lock.lock()`: a lock that is taken is waited for. -/
def takeLock : Method Unit :=
  ofFun fun s => if s.lock then .stuck else .ret () { s with lock := true }

/-- `_lock.unlock()`. -/
def unlock : Method Unit := modify fun s => { s with lock := false }

/-- A call of the library. -/
def call {α : Type} (f : Call Index α) : Method α :=
  ofFun fun s =>
    match f s.index with
    | (some a, i) => .ret a { s with index := i }
    | (none, i) => .throw .library { s with index := i }

/-- Change the files of the set. -/
def writeFiles (f : SetFiles File → SetFiles File) : Method Unit :=
  modify fun s =>
    let files := f ((s.disk s.set_path).getD ⟨none, none, none⟩)
    { s with disk := Function.update s.disk s.set_path (some files) }

/-- `write_label_ids`. -/
def storeLabelIds : Method Unit := do
  let s ← get
  writeFiles fun files => { files with ids := some (writeLabelIds s.label_ids) }

/-- `write_labels_map`. -/
def storeLabelsMap : Method Unit := do
  let s ← get
  writeFiles fun files => { files with labels := some (writeLabelsMap s.labels_map) }

/-- `_labels_map` and `_label_ids` of a set that is opened, or an error. -/
def openLabels (path : String) (disk : Directories File) (uninitialized : Int64) :
    Except SetError (SetFiles File × List Int64 × LabelsMap) :=
  match disk path with
  | none => .error (.OpenFailed "File does not exists")
  | some files =>
    match files.ids with
    | none => .error (.OpenFailed "Cannot read labels file")
    | some ids =>
      .ok (files, readLabelIds ids, readLabelsMap uninitialized (files.labels.getD []))

end MemorySet

open MemorySet

/-! ### faiss -/

namespace Faiss

/-- `FaissDescriptorSet::add`. -/
def add (descriptors : List Vec) (labels : Option (List Int64)) : Method ℕ := do
  takeLock
  let s ← get
  let id_first := ntotal s.index
  match labels with
  | some labels =>
    modify fun s => { s with label_ids := copyBehind 0 s.label_ids (ntotal s.index) labels }
  | none => pure ()
  call (VectorLibrary.add descriptors)
  modify fun s => { s with n_total := ntotal s.index }
  unlock
  pure id_first

/-- `FaissDescriptorSet::train_core`. -/
def trainCore (descriptors : List Vec) : Method Unit := do
  takeLock
  let s ← get
  let n_total := ntotal s.index
  let recons ← call (reconstructN n_total)
  call reset
  call (train (if descriptors = [] then recons else descriptors))
  call (VectorLibrary.add recons)
  unlock

/-- `FaissDescriptorSet::search`, which takes no lock. -/
def search (query : List Vec) (k : ℕ) : Method (List (List (Int64 × Dist))) :=
  call (VectorLibrary.search query k)

/-- `FaissDescriptorSet::classify`. -/
def classify (descriptors : List Vec) (quorum : ℕ) : Method (List Int64) := do
  let neighbors ← search descriptors quorum
  takeLock
  let s ← get
  match winners s.label_ids (neighbors.map fun row => row.map Prod.fst) with
  | none => throw .outOfRange
  | some ids => do
    unlock
    pure ids

/-- `FaissDescriptorSet::get_labels`. -/
def getLabels (ids : List Int64) : Method (List Int64) := do
  takeLock
  let s ← get
  match lookUp s.label_ids ids with
  | .found labels => do
    unlock
    pure labels
  | .missing => do
    unlock
    throw (.ObjectNotFound "Label id does not exists")
  | .undefined => stuck

/-- The name of the file of the index. -/
def indexFile (path : String) : String := path ++ "/" ++ "faiss.idx"

/-- `FaissDescriptorSet::store`. What creating the directory returns is an argument. -/
def store (path : String) (ret : ℤ) : Method Unit := do
  takeLock
  modify fun s => { s with set_path := path }
  if ret = 0 ∨ ret = 17 then do
    let file ← call writeIndex
    writeFiles fun files => { files with index := some file }
    storeLabelIds
    unlock
    storeLabelsMap
  else do
    unlock
    throw (.OpenFailed
      (indexFile path ++ "cannot be created or written. " ++ "Error: " ++ toString ret))

/-- A set of the classes derived from `FaissDescriptorSet` that is read from its directory. -/
def openSet (path : String) (disk : Directories File) (uninitialized : Int64)
    (dimensions : Index → ℕ) : Except SetError MemorySet :=
  match openLabels path disk uninitialized with
  | .error e => .error e
  | .ok (files, ids, labels) =>
    match files.index.bind readIndex with
    | none => .error (.OpenFailed ("Problem reading: " ++ indexFile path))
    | some index =>
      .ok { index := index, label_ids := ids, n_total := ntotal index,
            dimensions := dimensions index, is_finalized := false, labels_map := labels,
            lock := false, set_path := path, disk := disk }

end Faiss

/-- `FaissIVFFlatDescriptorSet::add`: the index is trained before the first addition. -/
def FaissIVFFlat.add (descriptors : List Vec) (labels : Option (List Int64)) : Method ℕ := do
  takeLock
  let s ← get
  if !isTrained s.index then do
    let desc_4_training := s.dimensions * 100
    if descriptors.length < desc_4_training then
      call (train (descriptors ++
        List.replicate (desc_4_training - descriptors.length) zero))
    else call (train descriptors)
    call makeDirectMap
    unlock
    Faiss.add descriptors labels
  else do
    unlock
    Faiss.add descriptors labels

/-! ### FLINNG -/

namespace Flinng

/-- `FlinngDescriptorSet::add`. -/
def add (descriptors : List Vec) (labels : Option (List Int64)) : Method ℕ := do
  takeLock
  modify fun s => { s with is_finalized := false }
  let s ← get
  let id_first := s.n_total
  match labels with
  | some labels =>
    modify fun s => { s with label_ids := copyBehind 0 s.label_ids s.n_total labels }
  | none => pure ()
  call (VectorLibrary.add descriptors)
  modify fun s => { s with n_total := s.n_total + descriptors.length }
  unlock
  pure id_first

/-- `FlinngDescriptorSet::train`. -/
def train : Method Unit :=
  throw (.NotImplemented "Train Operation not supported for used Index")

/-- `FlinngDescriptorSet::search`. -/
def search (query : List Vec) (k : ℕ) : Method (List (List (Int64 × Dist))) := do
  let s ← get
  if !s.is_finalized then do
    takeLock
    call finalizeConstruction
    modify fun s => { s with is_finalized := true }
    unlock
    call (VectorLibrary.search query k)
  else call (VectorLibrary.search query k)

/-- `FlinngDescriptorSet::classify`. -/
def classify (descriptors : List Vec) (quorum : ℕ) : Method (List Int64) := do
  let neighbors ← search descriptors quorum
  takeLock
  let s ← get
  match winners s.label_ids (neighbors.map fun row => row.map Prod.fst) with
  | none => throw .outOfRange
  | some ids => do
    unlock
    pure ids

/-- `FlinngDescriptorSet::get_labels`, which throws with the lock taken. -/
def getLabels (ids : List Int64) : Method (List Int64) := do
  takeLock
  let s ← get
  match lookUp s.label_ids ids with
  | .found labels => do
    unlock
    pure labels
  | .missing => throw (.ObjectNotFound "Label id does not exists")
  | .undefined => stuck

/-- The name of the file of the index. -/
def indexFile (path : String) : String := path ++ "/" ++ "flinng.idx"

/-- `FlinngDescriptorSet::store`, which throws with the lock taken. -/
def store (path : String) (ret : ℤ) : Method Unit := do
  takeLock
  modify fun s => { s with set_path := path }
  if ret = 0 ∨ ret = 17 then do
    let file ← call writeIndex
    writeFiles fun files => { files with index := some file }
    storeLabelIds
    unlock
    storeLabelsMap
  else throw (.OpenFailed
    (indexFile path ++ "cannot be created or written. " ++ "Error: " ++ toString ret))

/-- A `FlinngDescriptorSet` that is read from its directory: neither the number of descriptors
nor their dimensions are. An index that cannot be read is none of ours. -/
def openSet (path : String) (disk : Directories File) (uninitialized : Int64) :
    Except SetError MemorySet :=
  match openLabels path disk uninitialized with
  | .error e => .error e
  | .ok (files, ids, labels) =>
    match files.index.bind readIndex with
    | none => .error .library
    | some index =>
      .ok { index := index, label_ids := ids, n_total := 0, dimensions := 0,
            is_finalized := false, labels_map := labels, lock := false, set_path := path,
            disk := disk }

end Flinng

/-! ### What the methods do

Each method is evaluated once, for a set whose lock is free. -/

section Specs

variable {s : MemorySet} {α β : Type} {n : ℕ}

theorem takeLock_bind (h : s.lock = false) (f : Unit → Method α) :
    (takeLock >>= f) n s = f () n { s with lock := true } := by
  simp [takeLock, ofFun, h]

/-- A taken lock is waited for, and nobody gives it back. -/
theorem takeLock_diverges (h : s.lock = true) (f : Unit → Method α) :
    Diverges (takeLock >>= f) s := by
  intro n
  simp [takeLock, ofFun, h]

/-- The ids of the labels after an addition. -/
def labelsAfter (label_ids : List Int64) (offset : ℕ) : Option (List Int64) → List Int64
  | some labels => copyBehind 0 label_ids offset labels
  | none => label_ids

variable {descriptors : List Vec} {labels : Option (List Int64)} {ids : List Int64}
  {query : List Vec} {k quorum : ℕ} {path : String} {ret : ℤ}

theorem Faiss.add_apply (h : s.lock = false) :
    Faiss.add descriptors labels n s =
      match VectorLibrary.add descriptors s.index with
      | (some (), i) =>
        .ret (ntotal s.index)
          { s with
            index := i
            label_ids := labelsAfter s.label_ids (ntotal s.index) labels
            n_total := ntotal i }
      | (none, i) =>
        .throw .library
          { s with
            index := i
            label_ids := labelsAfter s.label_ids (ntotal s.index) labels
            lock := true } := by
  rw [Faiss.add, takeLock_bind h]
  cases labels with
  | none =>
      cases hadd : VectorLibrary.add descriptors s.index with
      | mk r i => cases r <;> simp [call, ofFun, hadd, unlock, labelsAfter, ← h]
  | some labels =>
      cases hadd : VectorLibrary.add descriptors s.index with
      | mk r i => cases r <;> simp [call, ofFun, hadd, unlock, labelsAfter, ← h]

/-- The files of a set after it has been stored with the file of its index. -/
def filesOf (s : MemorySet) (file : File) : SetFiles File where
  index := some file
  ids := some (writeLabelIds s.label_ids)
  labels := some (writeLabelsMap s.labels_map)

theorem Faiss.store_apply (h : s.lock = false) :
    Faiss.store path ret n s =
      if ret = 0 ∨ ret = 17 then
        match writeIndex s.index with
        | (some file, i) =>
          .ret ()
            { s with
              index := i
              set_path := path
              disk := Function.update s.disk path (some (filesOf s file)) }
        | (none, i) => .throw .library { s with index := i, set_path := path, lock := true }
      else
        .throw
          (.OpenFailed (Faiss.indexFile path ++ "cannot be created or written. " ++ "Error: " ++
            toString ret))
          { s with set_path := path } := by
  rw [Faiss.store, takeLock_bind h]
  by_cases hret : ret = 0 ∨ ret = 17
  · cases hw : writeIndex s.index with
    | mk r i =>
      cases r with
      | none => simp [hret, call, ofFun, hw]
      | some file =>
          simp [hret, call, ofFun, hw, writeFiles, storeLabelIds, storeLabelsMap, unlock,
            filesOf, ← h]
  · simp [hret, unlock, ← h]

theorem Faiss.classify_apply (h : s.lock = false) :
    Faiss.classify descriptors quorum n s =
      match VectorLibrary.search descriptors quorum s.index with
      | (none, i) => .throw .library { s with index := i }
      | (some neighbors, i) =>
        match winners s.label_ids (neighbors.map fun row => row.map Prod.fst) with
        | some ids => .ret ids { s with index := i }
        | none => .throw .outOfRange { s with index := i, lock := true } := by
  rw [Faiss.classify, Faiss.search]
  rcases hs : VectorLibrary.search descriptors quorum s.index with ⟨_ | neighbors, i⟩
  · simp [call, ofFun, hs]
  · cases hw : winners s.label_ids (neighbors.map fun row => row.map Prod.fst) with
    | none => simp [call, ofFun, hs, takeLock, h, hw]
    | some ids => simp [call, ofFun, hs, takeLock, h, hw, unlock]

theorem Faiss.getLabels_apply (h : s.lock = false) :
    Faiss.getLabels ids n s =
      match lookUp s.label_ids ids with
      | .found labels => .ret labels s
      | .missing => .throw (.ObjectNotFound "Label id does not exists") s
      | .undefined => .stuck := by
  rw [Faiss.getLabels, takeLock_bind h]
  cases hl : lookUp s.label_ids ids <;> simp [hl, unlock, ← h]

theorem Flinng.add_apply (h : s.lock = false) :
    Flinng.add descriptors labels n s =
      match VectorLibrary.add descriptors s.index with
      | (some (), i) =>
        .ret s.n_total
          { s with
            index := i
            is_finalized := false
            label_ids := labelsAfter s.label_ids s.n_total labels
            n_total := s.n_total + descriptors.length }
      | (none, i) =>
        .throw .library
          { s with
            index := i
            is_finalized := false
            label_ids := labelsAfter s.label_ids s.n_total labels
            lock := true } := by
  rw [Flinng.add, takeLock_bind h]
  cases labels with
  | none =>
      cases hadd : VectorLibrary.add descriptors s.index with
      | mk r i => cases r <;> simp [call, ofFun, hadd, unlock, labelsAfter, ← h]
  | some labels =>
      cases hadd : VectorLibrary.add descriptors s.index with
      | mk r i => cases r <;> simp [call, ofFun, hadd, unlock, labelsAfter, ← h]

theorem Flinng.store_apply (h : s.lock = false) :
    Flinng.store path ret n s =
      if ret = 0 ∨ ret = 17 then
        match writeIndex s.index with
        | (some file, i) =>
          .ret ()
            { s with
              index := i
              set_path := path
              disk := Function.update s.disk path (some (filesOf s file)) }
        | (none, i) => .throw .library { s with index := i, set_path := path, lock := true }
      else
        .throw
          (.OpenFailed (Flinng.indexFile path ++ "cannot be created or written. " ++ "Error: " ++
            toString ret))
          { s with set_path := path, lock := true } := by
  rw [Flinng.store, takeLock_bind h]
  by_cases hret : ret = 0 ∨ ret = 17
  · cases hw : writeIndex s.index with
    | mk r i =>
      cases r with
      | none => simp [hret, call, ofFun, hw]
      | some file =>
          simp [hret, call, ofFun, hw, writeFiles, storeLabelIds, storeLabelsMap, unlock,
            filesOf, ← h]
  · simp [hret]

theorem Flinng.getLabels_apply (h : s.lock = false) :
    Flinng.getLabels ids n s =
      match lookUp s.label_ids ids with
      | .found labels => .ret labels s
      | .missing =>
        .throw (.ObjectNotFound "Label id does not exists") { s with lock := true }
      | .undefined => .stuck := by
  rw [Flinng.getLabels, takeLock_bind h]
  cases hl : lookUp s.label_ids ids <;> simp [hl, unlock, ← h]

/-- The index that is searched, or what finalizing its construction leaves if that throws. -/
def searched (s : MemorySet) : Except Index Index :=
  if s.is_finalized then .ok s.index
  else
    match finalizeConstruction s.index with
    | (some (), i) => .ok i
    | (none, i) => .error i

theorem Flinng.search_apply (h : s.lock = false) :
    Flinng.search query k n s =
      match searched s with
      | .error i => .throw .library { s with index := i, lock := true }
      | .ok i =>
        match VectorLibrary.search query k i with
        | (some neighbors, j) => .ret neighbors { s with index := j, is_finalized := true }
        | (none, j) => .throw .library { s with index := j, is_finalized := true } := by
  rw [Flinng.search]
  by_cases hf : s.is_finalized = true
  · have hfinal (j : Index) : { s with index := j, is_finalized := true } =
        ({ s with index := j } : MemorySet) := by rw [← hf]
    rcases hs : VectorLibrary.search query k s.index with ⟨_ | neighbors, j⟩ <;>
      simp [searched, hf, call, ofFun, hs, hfinal]
  · rcases hc : finalizeConstruction s.index with ⟨_ | u, i⟩
    · simp [searched, hf, takeLock, call, ofFun, hc, h]
    · rcases hs : VectorLibrary.search query k i with ⟨_ | neighbors, j⟩ <;>
        simp [searched, hf, takeLock, call, ofFun, hc, hs, unlock, h]

theorem Flinng.classify_apply (h : s.lock = false) :
    Flinng.classify descriptors quorum n s =
      match searched s with
      | .error i => .throw .library { s with index := i, lock := true }
      | .ok i =>
        match VectorLibrary.search descriptors quorum i with
        | (none, j) => .throw .library { s with index := j, is_finalized := true }
        | (some neighbors, j) =>
          match winners s.label_ids (neighbors.map fun row => row.map Prod.fst) with
          | some ids => .ret ids { s with index := j, is_finalized := true }
          | none =>
            .throw .outOfRange { s with index := j, is_finalized := true, lock := true } := by
  rw [Flinng.classify, bind_apply, Flinng.search_apply h]
  rcases searched s with i | i
  · simp
  · rcases hs : VectorLibrary.search descriptors quorum i with ⟨_ | neighbors, j⟩
    · simp [hs]
    · cases hw : winners s.label_ids (neighbors.map fun row => row.map Prod.fst) with
      | none => simp [hs, takeLock, ofFun, h, hw]
      | some ids => simp [hs, takeLock, ofFun, h, hw, unlock]

/-- One call of the library after the other. -/
def Call.bind {J : Type} (f : Call J α) (g : α → Call J β) : Call J β := fun i =>
  match f i with
  | (some a, j) => g a j
  | (none, j) => (none, j)

/-- The calls of `train_core`. -/
def retrain (descriptors : List Vec) : Call Index Unit := fun i =>
  ((reconstructN (ntotal i)).bind fun recons => reset.bind fun _ =>
    (train (if descriptors = [] then recons else descriptors)).bind fun _ =>
      VectorLibrary.add recons) i

theorem Faiss.trainCore_apply (h : s.lock = false) :
    Faiss.trainCore descriptors n s =
      match retrain descriptors s.index with
      | (some (), i) => .ret () { s with index := i }
      | (none, i) => .throw .library { s with index := i, lock := true } := by
  rw [Faiss.trainCore, takeLock_bind h, retrain]
  rcases h1 : reconstructN (ntotal s.index) s.index with ⟨_ | recons, i⟩
  · simp [call, ofFun, Call.bind, h1]
  · rcases h2 : reset i with ⟨_ | u, j⟩
    · simp [call, ofFun, Call.bind, h1, h2]
    · rcases h3 : train (if descriptors = [] then recons else descriptors) j with ⟨_ | u, j'⟩
      · simp [call, ofFun, Call.bind, h1, h2, h3]
      · rcases h4 : VectorLibrary.add recons j' with ⟨_ | u, j''⟩ <;>
          simp [call, ofFun, Call.bind, h1, h2, h3, h4, unlock, ← h]

/-- The calls of `FaissIVFFlatDescriptorSet::add` before the addition. -/
def prepare (dimensions : ℕ) (descriptors : List Vec) : Call Index Unit := fun i =>
  if isTrained i then (some (), i)
  else
    ((train (descriptors ++ List.replicate (dimensions * 100 - descriptors.length) zero)).bind
      fun _ => makeDirectMap) i

theorem FaissIVFFlat.add_apply (h : s.lock = false) :
    FaissIVFFlat.add descriptors labels n s =
      match prepare s.dimensions descriptors s.index with
      | (some (), i) => Faiss.add descriptors labels n { s with index := i }
      | (none, i) => .throw .library { s with index := i, lock := true } := by
  rw [FaissIVFFlat.add, takeLock_bind h, prepare]
  have hfree (i : Index) : { s with index := i, lock := false } =
      ({ s with index := i } : MemorySet) := by rw [← h]
  by_cases ht : isTrained s.index = true
  · simp [ht, unlock, hfree]
  · by_cases hlen : descriptors.length < s.dimensions * 100
    · rcases h1 : train (descriptors ++
        List.replicate (s.dimensions * 100 - descriptors.length) zero) s.index with ⟨_ | u, i⟩
      · simp [ht, hlen, call, ofFun, Call.bind, h1]
      · rcases h2 : makeDirectMap i with ⟨_ | u, j⟩ <;>
          simp [ht, hlen, call, ofFun, Call.bind, h1, h2, unlock, hfree]
    · have hpad : s.dimensions * 100 - descriptors.length = 0 := by omega
      rcases h1 : train descriptors s.index with ⟨_ | u, i⟩
      · simp [ht, hlen, hpad, call, ofFun, Call.bind, h1]
      · rcases h2 : makeDirectMap i with ⟨_ | u, j⟩ <;>
          simp [ht, hlen, hpad, call, ofFun, Call.bind, h1, h2, unlock, hfree]

end Specs

end

/-! ### A flat index

An index that keeps the descriptors in their order and compares a query with all of them, for
descriptors of dimension one. -/

/-- Insert a neighbor behind those that are not farther. -/
def insertNeighbor (p : Int64 × ℕ) : List (Int64 × ℕ) → List (Int64 × ℕ)
  | [] => [p]
  | q :: qs => if p.2 < q.2 then p :: q :: qs else q :: insertNeighbor p qs

/-- The neighbors of a query: the descriptors `xs`, the first of which has the id `id`. -/
def flatNeighbors (query : ℤ) : Int64 → List ℤ → List (Int64 × ℕ) → List (Int64 × ℕ)
  | _, [], found => found
  | id, x :: xs, found =>
    flatNeighbors query (id + 1) xs (insertNeighbor (id, (x - query).natAbs) found)

/-- The `k` nearest, with the id `-1` where there are fewer. -/
def flatSearch (xs : List ℤ) (k : ℕ) (query : ℤ) : List (Int64 × ℕ) :=
  (flatNeighbors query 0 xs []).take k ++ List.replicate (k - xs.length) (-1, 0)

@[reducible] def flatIndex : VectorLibrary where
  Index := List ℤ
  Vec := ℤ
  Dist := ℕ
  File := List ℤ
  zero := 0
  ntotal := List.length
  isTrained _ := true
  add xs i := (some (), i ++ xs)
  train _ i := (some (), i)
  makeDirectMap i := (some (), i)
  reconstructN n i := (some (i.take n), i)
  reset _ := (some (), [])
  search queries k i := (some (queries.map (flatSearch i k)), i)
  finalizeConstruction i := (some (), i)
  writeIndex i := (some i, i)
  readIndex file := some file

/-- A new set with a flat index. -/
@[reducible] def flatSet : @MemorySet flatIndex :=
  let _ := flatIndex
  { index := ([] : List ℤ), label_ids := [], n_total := 0, dimensions := 1,
    is_finalized := false, labels_map := ∅, lock := false, set_path := "set",
    disk := fun _ => none }

end VCL

end Vdms
