import Vdms.Imp.PartialSort
import Vdms.MemorySets
import Mathlib.Algebra.Order.Ring.Rat
import Mathlib.Algebra.Order.Field.Rat
import Mathlib.Tactic.NormNum

/-!
# Descriptor Sets in TileDB

`TDBDenseDescriptorSet` keeps the descriptors in a dense array, one cell for each id, and
`TDBSparseDescriptorSet` in a sparse array, one cell for each point. Both keep their dimensions
and their total in cells of the same array. The arrays persist what is written, and refuse
what is outside of their domain. Distances are computed over the rationals.

## Main definitions

* `DenseSet`, `Dense.add`, `Dense.loadBuffer`, `Dense.search`, `Dense.classify`,
  `Dense.getLabels`: a dense set and its methods.
* `SparseSet`, `Sparse.add`, `Sparse.loadNeighbors`, `Sparse.search`: a sparse one.
* `StdPartialSort`: what is assumed of `std::partial_sort`.
-/

namespace Vdms

namespace VCL

open Imp Imp.Prog DescriptorSetData

/-- The coordinates of a descriptor. -/
abbrev Descriptor := List ℚ

/-- The entry of `compute_distances` for a descriptor. -/
def distance (query descriptor : Descriptor) : ℚ :=
  (List.zipWith (fun q x => (x - q) ^ 2) query descriptor).sum

/-- `std::partial_sort` of the indices `0, …, d.length - 1` by their distances: the first `k`.
Where distances are equal, the order is that of the library. -/
class StdPartialSort where
  sort : List ℚ → ℕ → List ℕ
  isPartialSort : ∀ d k, k ≤ d.length →
    IsPartialSort (fun i => d.getD i 0) k (List.range d.length) (sort d k)

/-- A stable sort of all the indices. -/
@[reducible] def insertionPartialSort : StdPartialSort where
  sort d k := ((List.range d.length).insertionSort fun i j => d.getD i 0 ≤ d.getD j 0).take k
  isPartialSort _ _ hk := .of_insertionSort _ (by simpa using hk)

/-- `TDBDescriptorSet::store`: only the labels, as everything else is in the array. -/
def storeTDB (labels : LabelsMap) : List Char := writeLabelsMap labels

/-! ### Dense arrays -/

structure DenseCell where
  descriptor : Descriptor
  label : Int64

/-- A set with a dense array. The array and the file of the labels are on disk. -/
structure DenseSet where
  cells : ℕ → DenseCell
  labels_file : Option (List Char)
  n_total : ℕ
  dimensions : ℕ
  buffer : List Descriptor
  label_ids : List Int64
  flag_buffer_updated : Bool
  labels_map : LabelsMap

/-- Write cells from `start` on. -/
def writeCells (cells : ℕ → DenseCell) (start : ℕ) (new : List DenseCell) : ℕ → DenseCell :=
  fun i => if start ≤ i then (new[i - start]?).getD (cells i) else cells i

/-- The cells of a batch. -/
def cellsOf (descriptors : List Descriptor) (labels : List Int64) : List DenseCell :=
  List.zipWith DenseCell.mk descriptors labels

namespace Dense

abbrev Method (α : Type) := Prog DenseSet SetError α

/-- The domain of the array is `0, …, MAX_DESC - 1`. -/
def MAX_DESC : ℕ := 100000

def METADATA_OFFSET : ℕ := MAX_DESC - 2

/-- `TDBDenseDescriptorSet::read_descriptor_metadata`. -/
def readDescriptorMetadata (s : DenseSet) : DenseSet :=
  { s with
    dimensions := (s.cells METADATA_OFFSET).label.toUInt64.toNat % 2 ^ 32
    n_total := (s.cells (METADATA_OFFSET + 1)).label.toUInt64.toNat }

/-- `TDBDenseDescriptorSet::write_descriptor_metadata`. -/
def writeDescriptorMetadata (s : DenseSet) : DenseSet :=
  let aux_dims := List.replicate s.dimensions 0
  let metadata := [⟨aux_dims, Int64.ofNat s.dimensions⟩, ⟨aux_dims, Int64.ofNat s.n_total⟩]
  { s with cells := writeCells s.cells METADATA_OFFSET metadata }

/-- The constructor of a new set. Cells that have not been written hold the fill value. -/
def create (dim : ℕ) (fill : DenseCell) : DenseSet :=
  writeDescriptorMetadata
    { cells := fun _ => fill, labels_file := none, n_total := 0, dimensions := dim, buffer := [],
      label_ids := [], flag_buffer_updated := true, labels_map := ∅ }

/-- The constructor of a set that exists. -/
def openSet (s : DenseSet) (uninitialized : Int64) : DenseSet :=
  readDescriptorMetadata
    { s with
      n_total := 0
      dimensions := 0
      buffer := []
      label_ids := []
      flag_buffer_updated := false
      labels_map := readLabelsMap uninitialized (s.labels_file.getD []) }

/-- `store`. -/
def store : Method Unit :=
  modify fun s => { s with labels_file := some (storeTDB s.labels_map) }

/-- `TDBDenseDescriptorSet::load_buffer`. -/
def loadBuffer : Method Unit := do
  modify readDescriptorMetadata
  let s ← get
  if s.n_total = 0 ∨ MAX_DESC < s.n_total then do
    modify fun s =>
      { s with
        buffer := copyBehind (List.replicate s.dimensions 0) s.buffer s.n_total []
        label_ids := copyBehind 0 s.label_ids s.n_total [] }
    throw (.TileDBError "Error: Reading Dense array")
  else
    modify fun s =>
      { s with
        buffer := (List.range s.n_total).map fun i => (s.cells i).descriptor
        label_ids := (List.range s.n_total).map fun i => (s.cells i).label
        flag_buffer_updated := true }

/-- `TDBDenseDescriptorSet::add`. The text of an error is TileDB's. -/
def add (what : String) (descriptors : List Descriptor) (labels : Option (List Int64)) :
    Method ℕ := do
  let s ← get
  let n := descriptors.length
  let labels_buffer := labels.getD (List.replicate n (-1))
  if n = 0 ∨ MAX_DESC < s.n_total + n then do
    modify fun s => { s with flag_buffer_updated := false }
    throw (.UnsupportedOperation what)
  else do
    modify fun s =>
      { s with cells := writeCells s.cells s.n_total (cellsOf descriptors labels_buffer) }
    modify fun s => { s with n_total := s.n_total + n }
    modify writeDescriptorMetadata
    let old_n_total := s.n_total
    modify fun s =>
      { s with
        buffer := copyBehind (List.replicate s.dimensions 0) s.buffer old_n_total descriptors }
    match labels with
    | some labels =>
      modify fun s => { s with label_ids := copyBehind 0 s.label_ids old_n_total labels }
    | none => pure ()
    pure old_n_total

/-- `compute_distances` into a vector of `_n_total` distances. -/
def distances (s : DenseSet) (query : Descriptor) : List ℚ :=
  s.buffer.map (distance query) ++ List.replicate (s.n_total - s.buffer.length) 0

/-- `TDBDescriptorSet::get_labels`, which reads without a check. -/
def getLabels (ids : List Int64) : Method (List Int64) := do
  let s ← get
  match ids.mapM fun idx => s.label_ids[idx.toUInt64.toNat]? with
  | none => stuck
  | some labels => pure labels

section

variable [StdPartialSort]

/-- `TDBDenseDescriptorSet::search`. The first `k` of fewer than `k` indices is undefined. -/
def search (query : List Descriptor) (k : ℕ) : Method (List (List (Int64 × ℚ))) := do
  let s ← get
  when (!s.flag_buffer_updated) loadBuffer
  let s ← get
  if query ≠ [] ∧ s.n_total < k then stuck
  else
    pure (query.map fun q =>
      let d := distances s q
      (StdPartialSort.sort d k).map fun i => (Int64.ofNat i, d.getD i 0))

/-- `TDBDescriptorSet::classify`. -/
def classify (descriptors : List Descriptor) (quorum : ℕ) : Method (List Int64) := do
  let neighbors ← search descriptors quorum
  let s ← get
  match winners s.label_ids (neighbors.map fun row => row.map Prod.fst) with
  | none => throw .outOfRange
  | some ids => pure ids

end

end Dense

/-! ### Sparse arrays -/

structure SparseCell where
  coords : Descriptor
  id : Int64
  label : Int64
  deriving DecidableEq

/-- A set with a sparse array, which has one cell for each point. -/
structure SparseSet where
  cells : List SparseCell
  ndim : ℕ
  labels_file : Option (List Char)
  n_total : ℕ
  dimensions : ℕ
  labels_map : LabelsMap

/-- Write cells: one that is there has its values replaced. -/
def writePoints (cells new : List SparseCell) : List SparseCell :=
  (cells.filter fun c => !(new.map SparseCell.coords).contains c.coords) ++ new

namespace Sparse

abbrev Method (α : Type) := Prog SparseSet SetError α

def DIMENSION_LOWER_LIMIT : ℚ := -10000

def DIMENSION_UPPER_LIMIT : ℚ := 10000

def DIMENSION_TILE_SIZE : ℚ := 250

/-- The point is in the domain of the array. -/
def inDomain (ndim : ℕ) (x : Descriptor) : Bool :=
  x.length == ndim && x.all (fun c => DIMENSION_LOWER_LIMIT ≤ c) &&
    (x.take 1).all (fun c => c ≤ DIMENSION_UPPER_LIMIT + DIMENSION_TILE_SIZE) &&
    (x.drop 1).all (fun c => c ≤ DIMENSION_UPPER_LIMIT)

/-- The point of the cell with the dimensions and the total. -/
def metadataCoords (dimensions : ℕ) : Descriptor :=
  (List.replicate dimensions DIMENSION_UPPER_LIMIT).modify 0 (· + 1)

/-- `TDBSparseDescriptorSet::read_descriptor_metadata`. -/
def readDescriptorMetadata (s : SparseSet) : SparseSet :=
  match s.cells.find? fun c => c.coords == metadataCoords s.ndim with
  | some c =>
    { s with dimensions := c.id.toUInt64.toNat % 2 ^ 32, n_total := c.label.toUInt64.toNat }
  | none => { s with dimensions := 0, n_total := 0 }

/-- `TDBSparseDescriptorSet::write_descriptor_metadata`. -/
def writeDescriptorMetadata (s : SparseSet) : SparseSet :=
  { s with
    cells := writePoints s.cells
      [⟨metadataCoords s.dimensions, Int64.ofNat s.dimensions, Int64.ofNat s.n_total⟩] }

/-- The constructor of a new set. -/
def create (dim : ℕ) : SparseSet :=
  writeDescriptorMetadata
    { cells := [], ndim := dim, labels_file := none, n_total := 0, dimensions := dim,
      labels_map := ∅ }

/-- The constructor of a set that exists. -/
def openSet (s : SparseSet) (uninitialized : Int64) : SparseSet :=
  readDescriptorMetadata
    { s with
      n_total := 0
      dimensions := 0
      labels_map := readLabelsMap uninitialized (s.labels_file.getD []) }

/-- `store`. -/
def store : Method Unit :=
  modify fun s => { s with labels_file := some (storeTDB s.labels_map) }

/-- The cells of a batch, the first of which has the id `id`. -/
def cellsFrom : ℕ → List Descriptor → List Int64 → List SparseCell
  | id, x :: xs, label :: labels => ⟨x, Int64.ofNat id, label⟩ :: cellsFrom (id + 1) xs labels
  | _, _, _ => []

/-- `TDBSparseDescriptorSet::add`. The array refuses a point outside of its domain and two
cells at one point. The total is written before it is increased. -/
def add (descriptors : List Descriptor) (labels : Option (List Int64)) : Method ℕ := do
  let s ← get
  let n := descriptors.length
  let labels_for_query := labels.getD (List.replicate n (-1))
  if descriptors.all (inDomain s.ndim) = true ∧ descriptors.Nodup then do
    modify fun s =>
      { s with cells := writePoints s.cells (cellsFrom s.n_total descriptors labels_for_query) }
    modify writeDescriptorMetadata
    modify fun s => { s with n_total := s.n_total + n }
    pure s.n_total
  else throw (.UnsupportedOperation "TileDBError, check logs")

/-- The ranges of the box around a query. -/
def subarray (q : Descriptor) (space : ℚ) : List (ℚ × ℚ) :=
  q.map fun c =>
    (if DIMENSION_LOWER_LIMIT < c - space then c - space else DIMENSION_LOWER_LIMIT,
      if c + space < DIMENSION_UPPER_LIMIT then c + space else DIMENSION_UPPER_LIMIT)

/-- The point is in the box. -/
def inBox (box : List (ℚ × ℚ)) (x : Descriptor) : Bool :=
  (box.zip x).all fun (range, c) => range.1 ≤ c && c ≤ range.2

theorem attempt_lt {attempt : ℕ}
    (h : ¬ (DIMENSION_UPPER_LIMIT - DIMENSION_LOWER_LIMIT) / 2 ≤ (2 : ℚ) ^ (4 + attempt)) :
    attempt < 10 := by
  refine Nat.lt_of_not_le fun hle => h ?_
  have hpow : (2 : ℚ) ^ 14 ≤ 2 ^ (4 + attempt) :=
    pow_le_pow_right₀ (by norm_num) (by omega)
  exact le_trans (by norm_num [DIMENSION_UPPER_LIMIT, DIMENSION_LOWER_LIMIT]) hpow

/-- `TDBSparseDescriptorSet::load_neighbors`, from an attempt on: the cells of the first box
that has `k` of them, or none if the box grows too large. TileDB refuses a range without
points. -/
def loadNeighbors (cells : List SparseCell) (q : Descriptor) (k attempt : ℕ) :
    Except SetError (List SparseCell) :=
  let space : ℚ := 2 ^ (4 + attempt)
  if (DIMENSION_UPPER_LIMIT - DIMENSION_LOWER_LIMIT) / 2 ≤ space then .ok []
  else
    let box := subarray q space
    if box.any fun range => range.2 < range.1 then .error .library
    else
      let found := cells.filter fun c => inBox box c.coords
      if found.length < k then loadNeighbors cells q k (attempt + 1) else .ok found
termination_by 10 - attempt
decreasing_by
  have := attempt_lt ‹_›
  omega

section

variable [StdPartialSort]

/-- The loop of `TDBSparseDescriptorSet::search` for a query: ids, distances and labels. The
first `k` of fewer than `k` indices is undefined. -/
def searchOne (cells : List SparseCell) (k : ℕ) (q : Descriptor) :
    Outcome Unit SetError (List (Int64 × ℚ × Int64)) :=
  match if k = 0 then .ok [] else loadNeighbors cells q k 0 with
  | .error e => .throw e ()
  | .ok found =>
    if found.length < k then .stuck
    else
      let d := found.map fun c => distance q c.coords
      .ret ((StdPartialSort.sort d k).map fun i =>
        let c := found.getD i ⟨[], 0, 0⟩
        (c.id, d.getD i 0, c.label)) ()

end

end Sparse

/-! ### What the methods do -/

theorem copyBehind_length {α : Type} (zero : α) (xs ys : List α) :
    copyBehind zero xs xs.length ys = xs ++ ys := by
  simp [copyBehind]

theorem toNat_ofNat {k : ℕ} (h : k < 2 ^ 64) : (Int64.ofNat k).toUInt64.toNat = k := by
  rw [Int64.toUInt64_ofNat']
  exact Nat.mod_eq_of_lt h

theorem writeCells_of_outside {cells : ℕ → DenseCell} {start i : ℕ} {new : List DenseCell}
    (h : i < start ∨ start + new.length ≤ i) : writeCells cells start new i = cells i := by
  rw [writeCells]
  by_cases hle : start ≤ i
  · have hnone : new[i - start]? = none := List.getElem?_eq_none (by omega)
    rw [if_pos hle, hnone, Option.getD_none]
  · rw [if_neg hle]

theorem writeCells_add {cells : ℕ → DenseCell} {start j : ℕ} {new : List DenseCell}
    {c : DenseCell} (h : new[j]? = some c) : writeCells cells start new (start + j) = c := by
  simp [writeCells, h]

namespace Dense

variable {s t : DenseSet} {n id : ℕ} {what : String} {descriptors : List Descriptor}
  {labels : Option (List Int64)}

/-- The set after an addition. -/
def added (s : DenseSet) (descriptors : List Descriptor) (labels : Option (List Int64)) :
    DenseSet :=
  let new := cellsOf descriptors (labels.getD (List.replicate descriptors.length (-1)))
  let written := writeDescriptorMetadata
    { s with
      cells := writeCells s.cells s.n_total new
      n_total := s.n_total + descriptors.length }
  { written with
    buffer := copyBehind (List.replicate s.dimensions 0) s.buffer s.n_total descriptors
    label_ids := labelsAfter s.label_ids s.n_total labels }

theorem add_apply : add what descriptors labels n s =
    if descriptors = [] ∨ MAX_DESC < s.n_total + descriptors.length then
      .throw (.UnsupportedOperation what) { s with flag_buffer_updated := false }
    else .ret s.n_total (added s descriptors labels) := by
  rw [add]
  by_cases hfull : descriptors = [] ∨ MAX_DESC < s.n_total + descriptors.length
  · simp [hfull]
  · cases labels <;> simp [hfull, added, labelsAfter, writeDescriptorMetadata]

theorem add_ret (h : add what descriptors labels n s = .ret id t) :
    id = s.n_total ∧ t = added s descriptors labels ∧
      s.n_total + descriptors.length ≤ MAX_DESC := by
  rw [add_apply] at h
  split at h
  · cases h
  · cases h
    exact ⟨rfl, rfl, by omega⟩

theorem loadBuffer_apply : loadBuffer n s =
    let s := readDescriptorMetadata s
    if s.n_total = 0 ∨ MAX_DESC < s.n_total then
      .throw (.TileDBError "Error: Reading Dense array")
        { s with
          buffer := copyBehind (List.replicate s.dimensions 0) s.buffer s.n_total []
          label_ids := copyBehind 0 s.label_ids s.n_total [] }
    else
      .ret ()
        { s with
          buffer := (List.range s.n_total).map fun i => (s.cells i).descriptor
          label_ids := (List.range s.n_total).map fun i => (s.cells i).label
          flag_buffer_updated := true } := by
  rw [loadBuffer]
  by_cases hfull : (readDescriptorMetadata s).n_total = 0 ∨
      MAX_DESC < (readDescriptorMetadata s).n_total
  · simp [hfull]
  · simp [hfull]

end Dense

namespace Sparse

variable {s t : SparseSet} {n id : ℕ} {descriptors : List Descriptor}
  {labels : Option (List Int64)}

/-- The set after an addition. -/
def added (s : SparseSet) (descriptors : List Descriptor) (labels : Option (List Int64)) :
    SparseSet :=
  let new := cellsFrom s.n_total descriptors
    (labels.getD (List.replicate descriptors.length (-1)))
  let written := writeDescriptorMetadata { s with cells := writePoints s.cells new }
  { written with n_total := s.n_total + descriptors.length }

theorem add_apply : add descriptors labels n s =
    if descriptors.all (inDomain s.ndim) = true ∧ descriptors.Nodup then
      .ret s.n_total (added s descriptors labels)
    else .throw (.UnsupportedOperation "TileDBError, check logs") s := by
  rw [add]
  by_cases hok : descriptors.all (inDomain s.ndim) = true ∧ descriptors.Nodup
  · simp only [bind_apply, get_apply, Outcome.andThen_ret, if_pos hok, modify_apply, pure_apply]
    rfl
  · simp only [bind_apply, get_apply, Outcome.andThen_ret, if_neg hok, throw_apply]

theorem add_ret (h : add descriptors labels n s = .ret id t) :
    id = s.n_total ∧ t = added s descriptors labels ∧ descriptors.Nodup := by
  rw [add_apply] at h
  split at h
  · next hok =>
    cases h
    exact ⟨rfl, rfl, hok.2⟩
  · cases h

theorem cellsFrom_append {xs ys : List Descriptor} {ls ms : List Int64}
    (h : ls.length = xs.length) (id : ℕ) :
    cellsFrom id (xs ++ ys) (ls ++ ms) =
      cellsFrom id xs ls ++ cellsFrom (id + xs.length) ys ms := by
  induction xs generalizing id ls with
  | nil =>
      obtain rfl : ls = [] := List.length_eq_zero_iff.mp h
      rfl
  | cons x xs ih =>
      cases ls with
      | nil => cases h
      | cons l ls =>
          rw [List.cons_append, List.cons_append, cellsFrom, cellsFrom, ih (Nat.succ.inj h),
            List.length_cons, List.cons_append, Nat.add_assoc id 1, Nat.add_comm 1]

theorem map_coords_cellsFrom {xs : List Descriptor} {labels : List Int64}
    (h : labels.length = xs.length) (id : ℕ) :
    (cellsFrom id xs labels).map SparseCell.coords = xs := by
  induction xs generalizing id labels with
  | nil => cases labels <;> rfl
  | cons x xs ih =>
      cases labels with
      | nil => cases h
      | cons label labels => simp [cellsFrom, ih (Nat.succ.inj h)]

theorem writePoints_of_disjoint {cells new : List SparseCell}
    (h : ∀ c ∈ cells, c.coords ∉ new.map SparseCell.coords) :
    writePoints cells new = cells ++ new := by
  rw [writePoints, List.filter_eq_self.mpr]
  intro c hc
  simpa using h c hc

/-- The array holds the descriptors under their ids, with their labels, and its metadata. -/
structure Holds (s : SparseSet) (dim : ℕ) (xs : List Descriptor) (labels : List Int64) : Prop where
  dim_pos : 1 ≤ dim
  ndim : s.ndim = dim
  length : labels.length = xs.length
  fresh : metadataCoords dim ∉ xs
  cells : ∃ metadata, metadata.coords = metadataCoords dim ∧
    s.cells.Perm (metadata :: cellsFrom 0 xs labels)

theorem Holds.create {dim : ℕ} (h : 1 ≤ dim) : Holds (create dim) dim [] [] :=
  ⟨h, rfl, rfl, by simp, _, rfl, .refl _⟩

/-- New points are put beside those that are there. -/
theorem Holds.added {dim : ℕ} {xs : List Descriptor} {ls : List Int64} (h : Holds s dim xs ls)
    (hdim : s.dimensions = dim) (htotal : s.n_total = xs.length)
    (hlabels : ∀ l ∈ labels, l.length = descriptors.length)
    (hnew : ∀ x ∈ descriptors, x ∉ xs ∧ x ≠ metadataCoords dim) :
    Holds (added s descriptors labels) dim (xs ++ descriptors)
      (ls ++ labels.getD (List.replicate descriptors.length (-1))) := by
  obtain ⟨metadata, hmeta, hperm⟩ := h.cells
  have hlen : (labels.getD (List.replicate descriptors.length (-1))).length =
      descriptors.length := by
    cases labels with
    | none => simp
    | some l => exact hlabels l rfl
  generalize hms : labels.getD (List.replicate descriptors.length (-1)) = ms at hlen
  have hcoords := map_coords_cellsFrom hlen s.n_total
  have hdisjoint : ∀ c ∈ s.cells, c.coords ∉
      (cellsFrom s.n_total descriptors ms).map SparseCell.coords := by
    intro c hc
    rw [hcoords]
    rcases List.mem_cons.mp (hperm.mem_iff.mp hc) with rfl | hold
    · exact fun hin => (hnew _ hin).2 hmeta
    · intro hin
      refine (hnew _ hin).1 ?_
      rw [← map_coords_cellsFrom h.length 0]
      exact List.mem_map_of_mem hold
  -- writing the metadata again drops only the old one
  let keep := fun c : SparseCell => !([metadataCoords dim] : List Descriptor).contains c.coords
  have hkeep {id : ℕ} {ys : List Descriptor} {ns : List Int64} (hn : ns.length = ys.length)
      (hys : metadataCoords dim ∉ ys) : (cellsFrom id ys ns).filter keep = cellsFrom id ys ns := by
    refine List.filter_eq_self.mpr fun c hc => ?_
    have hne : c.coords ≠ metadataCoords dim := by
      intro heq
      refine hys ?_
      rw [← heq, ← map_coords_cellsFrom hn id]
      exact List.mem_map_of_mem hc
    simpa [keep] using hne
  have hold : (s.cells.filter keep).Perm (cellsFrom 0 xs ls) := by
    have hfilter := hperm.filter keep
    rwa [List.filter_cons, if_neg (by simp [keep, hmeta]), hkeep h.length h.fresh] at hfilter
  have hnew' : metadataCoords dim ∉ descriptors := fun hin => (hnew _ hin).2 rfl
  refine ⟨h.dim_pos, h.ndim, by simp [h.length, hlen], ?_,
    ⟨metadataCoords dim, Int64.ofNat dim, Int64.ofNat xs.length⟩, rfl, ?_⟩
  · intro hin
    rcases List.mem_append.mp hin with hold | hin
    · exact h.fresh hold
    · exact hnew' hin
  · have hcells : (Sparse.added s descriptors labels).cells =
        (s.cells ++ cellsFrom s.n_total descriptors ms).filter keep ++
          [⟨metadataCoords dim, Int64.ofNat s.dimensions, Int64.ofNat s.n_total⟩] := by
      simp only [Sparse.added, writeDescriptorMetadata, hms, writePoints_of_disjoint hdisjoint,
        hdim]
      rfl
    rw [hcells, List.filter_append, hkeep hlen hnew', htotal]
    refine (List.perm_append_singleton _ _).trans ?_
    rw [cellsFrom_append h.length, Nat.zero_add, hdim]
    exact (hold.append_right _).cons _

end Sparse

end VCL

end Vdms
