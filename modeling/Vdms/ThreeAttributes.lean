import Mathlib.Data.List.Basic
import Mathlib.Data.List.Range
import Mathlib.Data.Fin.VecNotation
import Vdms.Imp.EqualParts
import Vdms.PixelIndex

/-!
# Images of Three Attributes

An image of three channels may be stored as three attributes, blue, green and red.
`TDBImage::write` splits the pixels into a plane for each of them, in a loop of its own in
each of its two forms, and `read_from_tdb` puts them together again. The loop over the raw
data does not advance its counter; the other form deletes the planes before the query that
writes them is submitted, and says that they are three times as long as they are.

Nor do the queries fit the array. That of the raw data has no subarray, so it goes through the
row of the metadata and through the cells that the array is larger than the image, for which
there are no values. The other form first writes the metadata to one attribute only.

## Main results

* `ThreeAttributes.planes_round_trip_iff`: which images the planes still have.
* `ThreeAttributes.never_round_trips`: TileDB takes none of the queries.
-/

namespace Vdms

namespace VCL

/-- The pixels of an image of three channels, row after row: those of a `cv::Mat` or of
`_raw_data`. -/
structure Interleaved where
  height : ℕ
  width : ℕ
  data : List UInt8
  length_data : data.length = height * width * 3

namespace ThreeAttributes

/-- The two forms of `TDBImage::write`. -/
inductive WritePath where
  | mat | raw

/-- A plane for each attribute: what was allocated for it, or `none` when that is deleted. -/
abbrev Planes := Fin 3 → Option (List UInt8)

/-- `cv::split`: row `i` of the matrix of channel `k`. -/
def splitRow (img : Interleaved) (k : Fin 3) (i : ℕ) : List UInt8 :=
  (List.range img.width).map fun j => img.data.getD ((i * img.width + j) * 3 + k) 0

/-- The three loops of `write(const cv::Mat &)`, each of which copies the rows of a channel. -/
def matPlanes (img : Interleaved) : Planes := fun k =>
  some ((List.range img.height).foldl (fun plane i => plane ++ splitRow img k i) [])

/-- `delete[]`. -/
def deletePlanes (_ : Planes) : Planes := fun _ => none

/-- The planes in the loop of `write(const std::string &)`, and its `count`. -/
structure RawLoop where
  blue : List UInt8
  green : List UInt8
  red : List UInt8
  count : ℕ

/-- A pass of the loop. It leaves `count` as it is. -/
def rawStep (raw : List UInt8) (loop : RawLoop) : RawLoop where
  blue := loop.blue ++ [raw.getD loop.count 0]
  green := loop.green ++ [raw.getD (loop.count + 1) 0]
  red := loop.red ++ [raw.getD (loop.count + 2) 0]
  count := loop.count

def rawLoop (raw : List UInt8) (bufferSize : ℕ) : RawLoop :=
  (List.range bufferSize).foldl (fun loop _ => rawStep raw loop) ⟨[], [], [], 0⟩

def rawPlanes (img : Interleaved) : Planes :=
  let loop := rawLoop img.data (img.height * img.width)
  ![some loop.blue, some loop.green, some loop.red]

/-- The `n` bytes that a query finds in a buffer. Those of a deleted one are any. -/
def bufferBytes (freed : ℕ → UInt8) (n : ℕ) : Option (List UInt8) → List UInt8
  | some contents => contents.take n
  | none => (List.range n).map freed

/-- The bytes that are set for each attribute by `set_data_buffer`; the memory that has been
deleted holds `freed`. -/
def buffers (freed : Fin 3 → ℕ → UInt8) (img : Interleaved) : WritePath → Fin 3 → List UInt8
  | .mat => fun k =>
    bufferBytes (freed k) (img.height * img.width * 3) (deletePlanes (matPlanes img) k)
  | .raw => fun k => bufferBytes (freed k) (img.height * img.width) (rawPlanes img k)

/-- A pass of the loop of `read_from_tdb`, over `_raw_data` and `count`. -/
def readStep (attributes : Fin 3 → List UInt8) (loop : List UInt8 × ℕ) (i : ℕ) :
    List UInt8 × ℕ :=
  (((loop.1.set loop.2 ((attributes 0).getD i 0)).set
      (loop.2 + 1) ((attributes 1).getD i 0)).set (loop.2 + 2) ((attributes 2).getD i 0),
    loop.2 + 3)

/-- `read_from_tdb` of three attributes, whose cells are as written. -/
def readFromTdb (height width : ℕ) (attributes : Fin 3 → List UInt8) : List UInt8 :=
  ((List.range (height * width)).foldl (readStep attributes)
    (List.replicate (height * width * 3) 0, 0)).1

/-! ### Interleaving -/

/-- Three values for each of `n` places. -/
def interleave (n : ℕ) (f : ℕ → Fin 3 → UInt8) : List UInt8 :=
  (List.range n).flatMap fun i => [f i 0, f i 1, f i 2]

section Interleave

variable {n m : ℕ} {f g : ℕ → Fin 3 → UInt8} {data : List UInt8}
  {attributes : Fin 3 → List UInt8} {img : Interleaved} {path : WritePath}

/-- One more pixel is appended with its three values. -/
theorem interleave_succ : interleave (n + 1) f = interleave n f ++ [f n 0, f n 1, f n 2] := by
  simp [interleave, List.range_succ]

/-- The first pixel comes first, with its three values. -/
theorem interleave_succ_left :
    interleave (n + 1) f = f 0 0 :: f 0 1 :: f 0 2 :: interleave n fun i => f (i + 1) := by
  simp [interleave, List.range_succ_eq_map, List.flatMap_map]

/-- There are three values for each pixel. -/
theorem length_interleave : (interleave n f).length = n * 3 := by
  induction n with
  | zero => rfl
  | succ n ih => simp only [interleave_succ, List.length_append, ih, List.length_cons,
      List.length_nil]; omega

/-- Two images are the same exactly if all the values of their pixels are. -/
theorem interleave_eq_iff : interleave n f = interleave n g ↔ ∀ i < n, ∀ k, f i k = g i k := by
  induction n with
  | zero => simp [interleave]
  | succ n ih =>
    rw [interleave_succ, interleave_succ]
    constructor
    · intro h i hi k
      obtain ⟨hleft, hright⟩ := List.append_inj h (by simp only [length_interleave])
      rcases Nat.lt_succ_iff_lt_or_eq.1 hi with hlt | rfl
      · exact ih.1 hleft i hlt k
      · simp only [List.cons.injEq, and_true] at hright
        match k with
        | 0 => exact hright.1
        | 1 => exact hright.2.1
        | 2 => exact hright.2.2
    · intro h
      rw [ih.2 fun i hi => h i (by omega), h n (by omega) 0, h n (by omega) 1, h n (by omega) 2]

/-- A list of three times as many values is one of these. -/
theorem eq_interleave (h : data.length = n * 3) :
    data = interleave n fun i k => data.getD (i * 3 + k) 0 := by
  induction n generalizing data with
  | zero => exact List.eq_nil_of_length_eq_zero (by omega)
  | succ n ih =>
    obtain ⟨a, b, c, rest, rfl⟩ : ∃ a b c rest, data = a :: b :: c :: rest := by
      rcases data with _ | ⟨a, _ | ⟨b, _ | ⟨c, rest⟩⟩⟩
      · simp at h
      · simp only [List.length_cons, List.length_nil] at h
        omega
      · simp only [List.length_cons, List.length_nil] at h
        omega
      · exact ⟨a, b, c, rest, rfl⟩
    have hrest : rest.length = n * 3 := by
      simp only [List.length_cons] at h
      omega
    have hshift : (fun i (k : Fin 3) => (a :: b :: c :: rest).getD ((i + 1) * 3 + k) 0) =
        fun i (k : Fin 3) => rest.getD (i * 3 + k) 0 := by
      funext i k
      rw [show (i + 1) * 3 + (k : ℕ) = i * 3 + k + 1 + 1 + 1 by omega]
      rfl
    rw [interleave_succ_left, hshift, ← ih hrest]
    rfl

/-- The invariant of the loop that reads: `count` is past the places that are set. -/
theorem readStep_foldl (h : n ≤ m) :
    (List.range n).foldl (readStep attributes) (List.replicate (m * 3) 0, 0) =
      (interleave n (fun i k => (attributes k).getD i 0) ++ List.replicate ((m - n) * 3) 0,
        n * 3) := by
  induction n with
  | zero => simp [interleave]
  | succ n ih =>
    rw [List.range_succ, List.foldl_append, ih (by omega), interleave_succ]
    have hrest : List.replicate ((m - n) * 3) (0 : UInt8) =
        0 :: 0 :: 0 :: List.replicate ((m - (n + 1)) * 3) 0 := by
      rw [show (m - n) * 3 = (m - (n + 1)) * 3 + 1 + 1 + 1 by omega]
      rfl
    have hlength : (interleave n fun i k => (attributes k).getD i 0).length = n * 3 :=
      length_interleave
    simp only [List.foldl_cons, List.foldl_nil, readStep, hrest]
    rw [List.set_append_right _ _ (by omega), List.set_append_right _ _ (by omega),
      List.set_append_right _ _ (by omega), hlength, Nat.sub_self,
      show n * 3 + 1 - n * 3 = 1 by omega, show n * 3 + 2 - n * 3 = 2 by omega,
      show (n + 1) * 3 = n * 3 + 3 by omega]
    simp

/-- What is read: the attributes' values, interleaved. -/
theorem readFromTdb_eq {height width : ℕ} :
    readFromTdb height width attributes =
      interleave (height * width) fun i k => (attributes k).getD i 0 := by
  rw [readFromTdb, readStep_foldl le_rfl, Nat.sub_self, Nat.zero_mul]
  simp

/-- The invariant of the loop that splits the raw data: `count` stays 0. -/
theorem rawLoop_eq :
    rawLoop data n =
      ⟨List.replicate n (data.getD 0 0), List.replicate n (data.getD 1 0),
        List.replicate n (data.getD 2 0), 0⟩ := by
  induction n with
  | zero => rfl
  | succ n ih =>
    rw [rawLoop, List.range_succ, List.foldl_append]
    rw [rawLoop] at ih
    rw [ih]
    simp [rawStep, List.replicate_succ']

end Interleave

/-! ### The planes -/

/-- The pixels are in the values that are set for the cells, whatever the deleted memory holds. -/
def PlanesRoundTrip (img : Interleaved) (path : WritePath) : Prop :=
  ∀ freed, readFromTdb img.height img.width (buffers freed img path) = img.data

section Planes

variable {img : Interleaved} {freed : Fin 3 → ℕ → UInt8} {i : ℕ}

/-- What the raw data's path sets: the first pixel, over and over. -/
theorem buffers_raw (hi : i < img.height * img.width) (k : Fin 3) :
    (buffers freed img .raw k).getD i 0 = img.data.getD k 0 := by
  match k with
  | 0 => simp [buffers, rawPlanes, rawLoop_eq, bufferBytes, List.getD, hi]
  | 1 => simp [buffers, rawPlanes, rawLoop_eq, bufferBytes, List.getD, hi]
  | 2 => simp [buffers, rawPlanes, rawLoop_eq, bufferBytes, List.getD, hi]

/-- What the matrix's path sets: what is left of the planes. -/
theorem buffers_mat (hi : i < img.height * img.width) (k : Fin 3) :
    (buffers freed img .mat k).getD i 0 = freed k i := by
  have hlong : i < img.height * img.width * 3 := by omega
  simp [buffers, deletePlanes, bufferBytes, List.getD, hlong]

/-- The planes have the pixels exactly if there are none or, from raw data, all are as the
first. -/
theorem planes_round_trip_iff {path : WritePath} :
    PlanesRoundTrip img path ↔
      img.height * img.width = 0 ∨
        path = .raw ∧ ∀ i < img.height * img.width, ∀ k : Fin 3,
          img.data.getD (i * 3 + k) 0 = img.data.getD k 0 := by
  have hread : PlanesRoundTrip img path ↔
      ∀ freed, ∀ i < img.height * img.width, ∀ k : Fin 3,
        (buffers freed img path k).getD i 0 = img.data.getD (i * 3 + k) 0 := by
    refine forall_congr' fun freed => ?_
    rw [readFromTdb_eq]
    conv_lhs => rhs; rw [eq_interleave img.length_data]
    exact interleave_eq_iff
  rw [hread]
  cases path with
  | mat =>
    constructor
    · intro h
      by_contra hne
      have hpos : 0 < img.height * img.width := by omega
      have hother := h (fun _ _ => img.data.getD 0 0 + 1) 0 hpos 0
      rw [buffers_mat hpos] at hother
      simp at hother
    · rintro (hzero | ⟨hpath, -⟩) freed i hi k
      · omega
      · cases hpath
  | raw =>
    constructor
    · intro h
      refine .inr ⟨rfl, fun i hi k => ?_⟩
      rw [← h (fun _ _ => 0) i hi k, buffers_raw hi]
    · rintro (hzero | ⟨-, hsame⟩) freed i hi k
      · omega
      · rw [buffers_raw hi, hsame i hi k]

end Planes

/-! ### The queries -/

/-- The schema of the array: the last row and the last column, and the values in a cell of each
attribute. -/
structure ArraySchema where
  rowBound : ℕ
  columnBound : ℕ
  cellValNum : Fin 3 → ℕ

/-- A query that writes in row-major order. Without a subarray it goes through all cells. -/
structure WriteQuery where
  subarray : Option (ℕ × ℕ × ℕ × ℕ)
  buffers : Fin 3 → Option (List UInt8)

/-- The rows and the columns of the query, first and last. -/
def WriteQuery.bounds (q : WriteQuery) (schema : ArraySchema) : ℕ × ℕ × ℕ × ℕ :=
  q.subarray.getD (0, schema.rowBound, 0, schema.columnBound)

/-- The cells of the query. -/
def WriteQuery.cells (q : WriteQuery) (schema : ArraySchema) : List (ℕ × ℕ) :=
  let (row, lastRow, column, lastColumn) := q.bounds schema
  TDBImage.subarray row lastRow column lastColumn

/-- There are as many values as the cells have. -/
def Enough (n : ℕ) : Option (List UInt8) → Bool
  | none => false
  | some buffer => buffer.length = n

/-- The query fits the array: its bounds are in order and in the domain, and every attribute has a
buffer of as many values as the cells have. -/
def WriteQuery.Fits (q : WriteQuery) (schema : ArraySchema) : Prop :=
  let (row, lastRow, column, lastColumn) := q.bounds schema
  (row ≤ lastRow ∧ lastRow ≤ schema.rowBound ∧ column ≤ lastColumn ∧
      lastColumn ≤ schema.columnBound) ∧
    ∀ k, Enough ((lastRow + 1 - row) * (lastColumn + 1 - column) * schema.cellValNum k)
      (q.buffers k)

instance (q : WriteQuery) (schema : ArraySchema) : Decidable (q.Fits schema) :=
  inferInstanceAs (Decidable (_ ∧ ∀ _, _))

/-- TileDB: what a query leaves in the cells, if it is not refused. -/
abbrev SubmitWrite := ArraySchema → WriteQuery → Option (Fin 3 → ℕ × ℕ → List UInt8)

/-- A dense write, as TileDB documents it: there has to be a buffer for every attribute, with a
value for every value of the cells. They are stored cell after cell. -/
structure SubmitWrite.Dense (submit : SubmitWrite) : Prop where
  stores : ∀ schema q, q.Fits schema → ∃ values, submit schema q = some values ∧
    ∀ k buffer, q.buffers k = some buffer → (q.cells schema).flatMap (values k) = buffer
  refuses : ∀ schema q, ¬ q.Fits schema → submit schema q = none

/-- The loop of `find_tile_extents`: the dimension of the array. -/
def arrayDimension (minTileDimension dimension : ℕ) : ℕ :=
  if h : TDBImage.greatestFactor minTileDimension dimension = 1 then
    arrayDimension minTileDimension (dimension + 1)
  else dimension
termination_by
  if dimension < 2 * max minTileDimension 1 then 2 * max minTileDimension 1 + 2 - dimension
  else dimension % 2
decreasing_by
  by_cases hlt : dimension < 2 * max minTileDimension 1
  · rw [if_pos hlt]
    split <;> omega
  · have hodd := TDBImage.odd_of_greatestFactor (by omega) h
    rw [if_neg hlt, if_neg (by omega)]
    omega

/-- The dimension of the array is as long as the one of the image. -/
theorem le_arrayDimension (m dimension : ℕ) : dimension ≤ arrayDimension m dimension := by
  fun_induction arrayDimension m dimension with
  | case1 dimension _ ih => omega
  | case2 => exact le_rfl

/-- `set_schema_dense`. The upper bounds are those that `write` sets for a matrix, and that a read
leaves. `num_values` has one element, and `beyond` is in memory behind it. -/
def setSchemaDense (minTileDimension : ℕ) (beyond : ℕ → ℕ) (img : Interleaved) : ArraySchema where
  rowBound := arrayDimension minTileDimension (img.height + 1)
  columnBound := arrayDimension minTileDimension img.width
  cellValNum := ![1, beyond 1, beyond 2]

/-- The query of `write_image_metadata`: of the last attribute. -/
def metadataQuery (img : Interleaved) : WriteQuery where
  subarray := some (0, 0, 0, 1)
  buffers := ![none, none,
    some ((TDBImage.construct "").setImageProperties img.height img.width 3).metadata]

/-- The query for the pixels. The bounds are 64-bit numbers. -/
def pixelQuery (freed : Fin 3 → ℕ → UInt8) (img : Interleaved) (path : WritePath) : WriteQuery where
  subarray := match path with
    | .mat => some (1, img.height, 0, (img.width + (2 ^ 64 - 1)) % 2 ^ 64)
    | .raw => none
  buffers := fun k => some (buffers freed img path k)

/-- `TDBImage::write` of an image of three attributes. A query that TileDB refuses is an
exception. -/
def write (submit : SubmitWrite) (minTileDimension : ℕ) (beyond : ℕ → ℕ)
    (freed : Fin 3 → ℕ → UInt8) (img : Interleaved) (path : WritePath) :
    Option (Fin 3 → ℕ × ℕ → List UInt8) :=
  let schema := setSchemaDense minTileDimension beyond img
  match path with
  | .mat => (submit schema (metadataQuery img)).bind fun _ =>
      submit schema (pixelQuery freed img .mat)
  | .raw => submit schema (pixelQuery freed img .raw)

/-- The pixels are written, and read back as they were, by a reader that knows the height and the
width. -/
def RoundTrips (submit : SubmitWrite) (minTileDimension : ℕ) (beyond : ℕ → ℕ)
    (freed : Fin 3 → ℕ → UInt8) (img : Interleaved) (path : WritePath) : Prop :=
  ∃ values, write submit minTileDimension beyond freed img path = some values ∧
    readFromTdb img.height img.width (fun k =>
      (TDBImage.subarray 1 img.height 0 (img.width - 1)).flatMap (values k)) = img.data

section Queries

variable {submit : SubmitWrite} {minTileDimension : ℕ} {beyond : ℕ → ℕ}
  {freed : Fin 3 → ℕ → UInt8} {img : Interleaved} {path : WritePath}

/-- The metadata are written to one attribute of three. -/
theorem metadata_misfit (schema : ArraySchema) : ¬ (metadataQuery img).Fits schema := by
  rintro ⟨-, h⟩
  exact Bool.false_ne_true (h 0)

/-- The raw data's planes have a value for each pixel. -/
theorem length_buffers_raw :
    (buffers freed img .raw 0).length = img.height * img.width := by
  simp [buffers, rawPlanes, rawLoop_eq, bufferBytes]

/-- The matrix's are said to be three times as long. -/
theorem length_buffers_mat :
    (buffers freed img .mat 0).length = img.height * img.width * 3 := by
  simp [buffers, deletePlanes, bufferBytes]

/-- No planes fit the array. It has more cells than the image has pixels; and where the bounds are
those of the image, the planes are said to be three times as long, or there are no pixels and the
bounds are not in order. -/
theorem pixels_misfit :
    ¬ (pixelQuery freed img path).Fits (setSchemaDense minTileDimension beyond img) := by
  have hrows := le_arrayDimension minTileDimension (img.height + 1)
  have hcolumns := le_arrayDimension minTileDimension img.width
  rintro ⟨hbounds, h⟩
  have hlength := of_decide_eq_true (h 0)
  cases path with
  | raw =>
    change (buffers freed img .raw 0).length =
      (arrayDimension minTileDimension (img.height + 1) + 1 - 0) *
        (arrayDimension minTileDimension img.width + 1 - 0) * 1 at hlength
    have hcells : (img.height + 2) * (img.width + 1) ≤
        (arrayDimension minTileDimension (img.height + 1) + 1) *
          (arrayDimension minTileDimension img.width + 1) :=
      Nat.mul_le_mul (by omega) (by omega)
    have hpixels : img.height * img.width < (img.height + 2) * (img.width + 1) := by
      calc img.height * img.width ≤ img.height * (img.width + 1) :=
            Nat.mul_le_mul_left _ (Nat.le_succ _)
        _ < (img.height + 2) * (img.width + 1) :=
            Nat.mul_lt_mul_of_pos_right (by omega) (Nat.succ_pos _)
    rw [length_buffers_raw, Nat.sub_zero, Nat.sub_zero, Nat.mul_one] at hlength
    exact absurd (hlength ▸ hcells) (Nat.not_le.2 hpixels)
  | mat =>
    change (buffers freed img .mat 0).length =
      (img.height + 1 - 1) * ((img.width + (2 ^ 64 - 1)) % 2 ^ 64 + 1 - 0) * 1 at hlength
    change 1 ≤ img.height ∧ _ ∧ 0 ≤ (img.width + (2 ^ 64 - 1)) % 2 ^ 64 ∧
      (img.width + (2 ^ 64 - 1)) % 2 ^ 64 ≤ arrayDimension minTileDimension img.width at hbounds
    rw [length_buffers_mat, Nat.add_sub_cancel, Nat.sub_zero, Nat.mul_one] at hlength
    obtain ⟨hheight, -, -, hlast⟩ := hbounds
    by_cases hwidth : img.width = 0
    · rw [hwidth, arrayDimension, dif_neg (by rw [TDBImage.greatestFactor]; exact zero_ne_one)]
        at hlast
      omega
    · have hle : (img.width + (2 ^ 64 - 1)) % 2 ^ 64 + 1 ≤ img.width := by omega
      have hcells := Nat.mul_le_mul_left img.height hle
      have hpos : 0 < img.height * img.width := Nat.mul_pos hheight (by omega)
      omega

/-- TileDB refuses what is written. -/
theorem write_refused (hsubmit : submit.Dense) :
    write submit minTileDimension beyond freed img path = none := by
  cases path with
  | mat => rw [write, hsubmit.refuses _ _ (metadata_misfit _), Option.bind_none]
  | raw => rw [write, hsubmit.refuses _ _ pixels_misfit]

/-- **Three attributes.** No image is written, so none is read back. -/
theorem never_round_trips (hsubmit : submit.Dense) :
    ¬ RoundTrips submit minTileDimension beyond freed img path := by
  rintro ⟨values, hwrite, -⟩
  rw [write_refused hsubmit] at hwrite
  cases hwrite

end Queries

/-- Two pixels, one blue and one green. -/
def twoPixels : Interleaved where
  height := 1
  width := 2
  data := [255, 0, 0, 0, 255, 0]
  length_data := rfl

/-- Takes the queries that fit, and no others. -/
def submitDense : SubmitWrite := fun schema q =>
  if q.Fits schema then
    some fun k p => (((q.buffers k).getD []).drop
      ((q.cells schema).idxOf p * schema.cellValNum k)).take (schema.cellValNum k)
  else none

/-- The library that writes dense arrays refuses a query that does not fit. -/
theorem submitDense_dense : submitDense.Dense where
  refuses schema q hfits := if_neg hfits
  stores schema q hfits := by
    refine ⟨_, if_pos hfits, fun k buffer hbuffer => ?_⟩
    have hplaces : (q.cells schema).map (q.cells schema).idxOf =
        List.range (q.cells schema).length := by
      refine List.ext_getElem (by simp) fun i hi _ => ?_
      rw [List.getElem_map, List.getElem_range]
      exact (Imp.nodup_rowMajor _ _ _ _).idxOf_getElem i _
    have hlength : buffer.length = (q.cells schema).length * schema.cellValNum k := by
      have henough := hfits.2 k
      rw [hbuffer] at henough
      have hcells : (q.cells schema).length = _ := Imp.length_rowMajor
      rw [hcells]
      exact of_decide_eq_true henough
    have hparts := Imp.flatMap_parts hlength
    rw [← hplaces, List.flatMap_map] at hparts
    rw [hbuffer]
    exact hparts

/-- Neither form writes the two pixels. From the raw data there would be two blue pixels in the
planes; from the matrix, what the memory of the planes holds by then. -/
theorem two_pixels_lost :
    write submitDense 4 (fun _ => 1) (fun _ _ => 0) twoPixels .raw = none ∧
      write submitDense 4 (fun _ => 1) (fun _ _ => 0) twoPixels .mat = none ∧
      readFromTdb 1 2 (buffers (fun _ _ => 0) twoPixels .raw) = [255, 0, 0, 255, 0, 0] ∧
      readFromTdb 1 2 (buffers (fun _ _ => 7) twoPixels .mat) = [7, 7, 7, 7, 7, 7] ∧
      ¬ ∀ img path, RoundTrips submitDense 4 (fun _ => 1) (fun _ _ => 0) img path := by
  have hwrite : write submitDense 4 (fun _ => 1) (fun _ _ => 0) twoPixels .raw = none :=
    write_refused submitDense_dense
  refine ⟨hwrite, write_refused submitDense_dense, by decide, by decide, fun h => ?_⟩
  obtain ⟨values, hvalues, -⟩ := h twoPixels .raw
  rw [hwrite] at hvalues
  cases hvalues

/-- An image of two pixels in a matrix does not come back. -/
theorem never_round_trips_two_pixels :
    ¬ RoundTrips submitDense 4 (fun _ => 1) (fun _ _ => 0) twoPixels .mat :=
  never_round_trips submitDense_dense

end ThreeAttributes

end VCL

end Vdms
