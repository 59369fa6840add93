import Vdms.Imp.EqualParts
import Vdms.ThreeAttributes

/-!
# Partial Reads

`TDBImage::read` with a rectangle asks TileDB for the rectangle's part of the array only. The
sub-array it sets is of the rows from `x` and the columns from `y` on, without the row of the
metadata, and one longer than the rectangle each way. Of an image that has been read it reads
nothing, and leaves all of its pixels.

## Main results

* `TDBArray.readRect_eq`: what a read with a rectangle has read.
* `TDBArray.reads_crop_iff`: when the pixels that are read are those of the rectangle.
* `TDBArray.reads_crop_never`: for no rectangle with pixels are they for all images.
-/

namespace Vdms

namespace VCL

open Imp

/-- `VCL::Rectangle`. -/
structure Rectangle where
  x : ℕ
  y : ℕ
  width : ℕ
  height : ℕ
deriving DecidableEq

/-- What the reads throw. -/
inductive TDBError where
  | SizeMismatch
  | tileDB
deriving DecidableEq

/-- The array of an image, with the properties in its metadata. A cell has the values of a pixel,
all of them in its one attribute, or each in one of its three. TileDB has no arrays without
cells, and no queries on none. -/
structure TDBArray where
  height : ℕ
  width : ℕ
  channels : ℕ
  numAttributes : ℕ
  rows : ℕ
  columns : ℕ
  tileDimension : ℕ × ℕ
  value : ℕ → ℕ → ℕ → UInt8
  height_pos : 0 < height
  width_pos : 0 < width
  channels_pos : 0 < channels
  rows_le : height + 1 ≤ rows
  columns_le : width ≤ columns
  attributes : numAttributes = 1 ∨ numAttributes = 3 ∧ channels = 3

namespace TDBArray

/-- The values of a cell. -/
def cell (a : TDBArray) (p : ℕ × ℕ) : List UInt8 := (List.range a.channels).map (a.value p.1 p.2)

/-- The cells of a query are in the domain. TileDB refuses others. -/
def Inside (a : TDBArray) (cells : List (ℕ × ℕ)) : Prop :=
  ∀ p ∈ cells, p.1 < a.rows ∧ p.2 < a.columns

instance (a : TDBArray) (cells : List (ℕ × ℕ)) : Decidable (a.Inside cells) :=
  inferInstanceAs (Decidable (∀ p ∈ cells, p.1 < a.rows ∧ p.2 < a.columns))

/-- The values of an attribute in a cell: of the one attribute, `pixel`, or of `blue`, `green` or
`red`. -/
def attributeCell (a : TDBArray) (k : ℕ) (p : ℕ × ℕ) : List UInt8 :=
  if a.numAttributes = 1 then a.cell p else [a.value p.1 p.2 k]

/-- What a query leaves in a buffer of so many values for an attribute. -/
def fill (a : TDBArray) (cells : List (ℕ × ℕ)) (k bufferSize : ℕ) : List UInt8 :=
  (cells.flatMap (a.attributeCell k)).take bufferSize

/-- `read_from_tdb`, into the pixels themselves or into a buffer for each of the three attributes.
`set_from_schema` appends to the tile extents, so that those that the image has stay the first;
`(0, 0)` stands for none. -/
def readFromTdb (a : TDBArray) (cells : List (ℕ × ℕ)) (img : TDBImage) :
    Except TDBError TDBImage :=
  let img := { img with
    numAttributes := a.numAttributes
    tileDimension := if img.tileDimension = (0, 0) then a.tileDimension else img.tileDimension }
  if a.Inside cells then
    if img.numAttributes = 1 then
      .ok { img with rawData := some (a.fill cells 0 (img.height * img.width * img.channels)) }
    else
      let bufferSize := img.height * img.width
      let blue := a.fill cells 0 bufferSize
      let green := a.fill cells 1 bufferSize
      let red := a.fill cells 2 bufferSize
      .ok { img with
        rawData := some (ThreeAttributes.readFromTdb img.height img.width ![blue, green, red]) }
  else .error .tileDB

/-- `read_image_metadata`, of metadata as they were. They are in the cells of the last attribute,
of which the image has the name. -/
def readImageMetadata (a : TDBArray) (img : TDBImage) : TDBImage :=
  { img.setImageProperties a.height a.width a.channels with
    upperDimensions := (a.height + 1, a.width) }

/-- `read`. -/
def read (a : TDBArray) (img : TDBImage) : Except TDBError TDBImage :=
  match img.rawData with
  | some _ => .ok img
  | none =>
    let img := if img.height = 0 then a.readImageMetadata img else img
    a.readFromTdb (TDBImage.subarray 1 img.height 0 (img.width - 1)) img

/-- `read` with a rectangle. -/
def readRect (a : TDBArray) (rect : Rectangle) (img : TDBImage) : Except TDBError TDBImage :=
  match img.rawData with
  | some _ => .ok img
  | none =>
    let img := if img.height = 0 then a.readImageMetadata img else img
    if img.height < rect.height + rect.y ∨ img.width < rect.width + rect.x then
      .error .SizeMismatch
    else
      a.readFromTdb
        (TDBImage.subarray rect.x (rect.x + rect.height) rect.y (rect.y + rect.width))
        (img.setImageProperties rect.height rect.width img.channels)

end TDBArray

/-- The pixels of a rectangle of an image whose rows lie one after the other: a region of a
`cv::Mat`. -/
def cropData (width channels : ℕ) (rect : Rectangle) (data : List UInt8) : List UInt8 :=
  (List.range rect.height).flatMap fun i =>
    (data.drop (((rect.y + i) * width + rect.x) * channels)).take (rect.width * channels)

/-- The crop to the whole image. -/
theorem cropData_whole {height width channels : ℕ} {data : List UInt8}
    (h : data.length = height * width * channels) :
    cropData width channels ⟨0, 0, width, height⟩ data = data := by
  rw [Nat.mul_assoc] at h
  rw [cropData]
  simp only [Nat.zero_add, Nat.add_zero, Nat.mul_assoc]
  exact flatMap_parts h

namespace TDBArray

/-- The image has not been read; its properties are not known, or those of the array. -/
structure Unread (a : TDBArray) (img : TDBImage) : Prop where
  rawData : img.rawData = none
  properties : img.height = 0 ∨
    img.height = a.height ∧ img.width = a.width ∧ img.channels = a.channels

/-- The image has not been read, or it has as many values as its properties say. -/
structure Ready (a : TDBArray) (img : TDBImage) : Prop where
  unread : img.rawData = none → a.Unread img
  loaded : ∀ data, img.rawData = some data →
    data.length = img.height * img.width * img.channels

/-- The rectangle is in the image: in that of the array, or in the one that has been read. -/
structure Contains (a : TDBArray) (img : TDBImage) (rect : Rectangle) : Prop where
  rows : rect.y + rect.height ≤ if img.rawData = none then a.height else img.height
  columns : rect.x + rect.width ≤ if img.rawData = none then a.width else img.width

/-- The read with the rectangle has the pixels of the full read that are in it. -/
def ReadsCrop (a : TDBArray) (rect : Rectangle) (img : TDBImage) : Prop :=
  ∃ full part data, a.read img = .ok full ∧ full.rawData = some data ∧
    a.readRect rect img = .ok part ∧ part.height = rect.height ∧ part.width = rect.width ∧
      part.rawData = some (cropData full.width full.channels rect data)

/-! ### What is read -/

section Reads

variable {a : TDBArray} {img : TDBImage} {rect : Rectangle} {cells : List (ℕ × ℕ)}

/-- A cell has a value for each channel. -/
theorem length_cell (p : ℕ × ℕ) : (a.cell p).length = a.channels := by
  rw [cell, List.length_map, List.length_range]

/-- The one attribute's buffer has the values of the first cells. -/
theorem fill_one (hone : a.numAttributes = 1) (n : ℕ) :
    a.fill cells 0 (n * a.channels) = (cells.take n).flatMap a.cell := by
  have hattribute : a.attributeCell 0 = a.cell := funext fun p => if_pos hone
  rw [fill, hattribute]
  exact take_flatMap_const fun p _ => length_cell p

/-- Each of the three attributes' buffers has its value of the first cells. -/
theorem fill_three (hthree : a.numAttributes = 3) {k n i : ℕ} (hi : i < n)
    (hn : n ≤ cells.length) :
    (a.fill cells k n).getD i 0 = a.value (cells.getD i (0, 0)).1 (cells.getD i (0, 0)).2 k := by
  have hattribute : a.attributeCell k = fun p => [a.value p.1 p.2 k] :=
    funext fun p => if_neg (by omega)
  have hlt : i < cells.length := by omega
  rw [fill, hattribute, ← List.map_eq_flatMap]
  simp [List.getD, hi, hlt]

/-- The three buffers interleaved have the values of the first cells. Induction on these. -/
theorem interleave_cells (hthree : a.channels = 3) {n : ℕ} (hn : n ≤ cells.length) :
    ThreeAttributes.interleave n
        (fun i k => a.value (cells.getD i (0, 0)).1 (cells.getD i (0, 0)).2 k) =
      (cells.take n).flatMap a.cell := by
  induction n with
  | zero => simp [ThreeAttributes.interleave]
  | succ n ih =>
    have hlt : n < cells.length := by omega
    have hlast : cells.getD n (0, 0) = cells[n] := by simp [List.getD, hlt]
    rw [ThreeAttributes.interleave_succ, ih (by omega), List.take_succ_eq_append_getElem hlt,
      List.flatMap_append, hlast]
    simp [cell, hthree, List.range_succ]

/-- In both layouts the pixels that are read are the values of the first cells. -/
theorem readFromTdb_inside (hchannels : img.channels = a.channels)
    (hcells : img.height * img.width ≤ cells.length) (hinside : a.Inside cells) :
    a.readFromTdb cells img = .ok { img with
      numAttributes := a.numAttributes
      tileDimension := if img.tileDimension = (0, 0) then a.tileDimension else img.tileDimension
      rawData := some ((cells.take (img.height * img.width)).flatMap a.cell) } := by
  rcases a.attributes with hone | ⟨hthree, hthree'⟩
  · simp only [readFromTdb, if_pos hinside, if_pos hone, hchannels, fill_one hone]
  · have hne : ¬ a.numAttributes = 1 := by omega
    have hvalues : ThreeAttributes.readFromTdb img.height img.width
        ![a.fill cells 0 (img.height * img.width), a.fill cells 1 (img.height * img.width),
          a.fill cells 2 (img.height * img.width)] =
        (cells.take (img.height * img.width)).flatMap a.cell := by
      rw [ThreeAttributes.readFromTdb_eq, ← interleave_cells hthree' hcells]
      refine ThreeAttributes.interleave_eq_iff.2 fun i hi k => ?_
      match k with
      | 0 | 1 | 2 => exact fill_three hthree hi hcells
    simp only [readFromTdb, if_pos hinside, if_neg hne, hvalues]

/-- The properties that a read goes by. -/
theorem Unread.opened (h : a.Unread img) :
    let img := if img.height = 0 then a.readImageMetadata img else img
    img.height = a.height ∧ img.width = a.width ∧ img.channels = a.channels := by
  by_cases hzero : img.height = 0
  · simp only [if_pos hzero]
    exact ⟨rfl, rfl, rfl⟩
  · simp only [if_neg hzero]
    exact h.properties.resolve_left hzero

/-- The cells of an image are those of its rows, without the row of the metadata. -/
theorem subarray_image (height width : ℕ) (hwidth : 0 < width) :
    TDBImage.subarray 1 height 0 (width - 1) = rowMajor 1 height 0 width := by
  rw [TDBImage.subarray, show height + 1 - 1 = height by omega,
    show width - 1 + 1 - 0 = width by omega]

/-- The cells of a rectangle are between its corners. -/
theorem mem_rowMajor_lt {r height c width : ℕ} {p : ℕ × ℕ}
    (h : p ∈ rowMajor r height c width) :
    p.1 < r + height ∧ p.2 < c + width ∧ r ≤ p.1 ∧ c ≤ p.2 := by
  simp only [rowMajor, List.mem_flatMap, List.mem_map, List.mem_range] at h
  obtain ⟨i, hi, j, hj, rfl⟩ := h
  dsimp only
  omega

/-- The full read. -/
theorem read_eq (a : TDBArray) (img : TDBImage) (h : a.Unread img) :
    ∃ full, a.read img = .ok full ∧ full.height = a.height ∧ full.width = a.width ∧
      full.channels = a.channels ∧
      full.size = (if img.height = 0 then a.readImageMetadata img else img).size ∧
      full.rawData = some ((rowMajor 1 a.height 0 a.width).flatMap a.cell) := by
  obtain ⟨hheight, hwidth, hchannels⟩ := h.opened
  rw [read, h.rawData]
  generalize (if img.height = 0 then a.readImageMetadata img else img) = opened at *
  have hinside : a.Inside (rowMajor 1 a.height 0 a.width) := by
    intro p hp
    have := mem_rowMajor_lt hp
    have := a.rows_le
    have := a.columns_le
    omega
  have hcells : TDBImage.subarray 1 opened.height 0 (opened.width - 1) =
      rowMajor 1 a.height 0 a.width := by
    rw [hheight, hwidth, subarray_image _ _ a.width_pos]
  simp only [hcells, readFromTdb_inside hchannels (by simp [hheight, hwidth]) hinside]
  refine ⟨_, rfl, hheight, hwidth, hchannels, rfl, congrArg some ?_⟩
  rw [List.take_of_length_le (by simp [hheight, hwidth])]

/-- A region of what the full read has read. -/
theorem cropData_read (hrows : rect.y + rect.height ≤ a.height)
    (hcolumns : rect.x + rect.width ≤ a.width) :
    cropData a.width a.channels rect ((rowMajor 1 a.height 0 a.width).flatMap a.cell) =
      (rowMajor (1 + rect.y) rect.height rect.x rect.width).flatMap a.cell := by
  have hrow : ∀ i < rect.height,
      ((rowMajor 1 a.height 0 a.width).drop ((rect.y + i) * a.width + rect.x)).take rect.width =
        (List.range rect.width).map fun j => (1 + rect.y + i, rect.x + j) := by
    intro i hi
    refine List.ext_getElem? fun j => ?_
    by_cases hj : j < rect.width
    · rw [List.getElem?_take_of_lt hj, List.getElem?_drop, Nat.add_assoc,
        getElem?_rowMajor (by omega) (by omega)]
      simp [hj, Nat.add_assoc]
    · rw [List.getElem?_eq_none (by rw [List.length_take]; omega),
        List.getElem?_eq_none (by rw [List.length_map, List.length_range]; omega)]
  have hpart : ∀ i ∈ List.range rect.height,
      ((((rowMajor 1 a.height 0 a.width).flatMap a.cell).drop
        (((rect.y + i) * a.width + rect.x) * a.channels)).take (rect.width * a.channels)) =
      ((List.range rect.width).map fun j => (1 + rect.y + i, rect.x + j)).flatMap a.cell := by
    intro i hi
    rw [drop_flatMap_const fun p _ => length_cell p, take_flatMap_const fun p _ => length_cell p,
      hrow i (List.mem_range.1 hi)]
  have hregion : rowMajor (1 + rect.y) rect.height rect.x rect.width =
      (List.range rect.height).flatMap fun i =>
        (List.range rect.width).map fun j => (1 + rect.y + i, rect.x + j) := rfl
  rw [cropData, hregion, List.flatMap_assoc]
  exact List.flatMap_congr hpart

/-- The read with a rectangle that is in the image. -/
theorem readRect_eq (h : a.Unread img) (hrows : rect.y + rect.height ≤ a.height)
    (hcolumns : rect.x + rect.width ≤ a.width) :
    (a.Inside (rowMajor rect.x (rect.height + 1) rect.y (rect.width + 1)) →
      ∃ part, a.readRect rect img = .ok part ∧ part.height = rect.height ∧
        part.width = rect.width ∧
        part.rawData = some (((rowMajor rect.x (rect.height + 1) rect.y (rect.width + 1)).take
          (rect.height * rect.width)).flatMap a.cell)) ∧
    (¬ a.Inside (rowMajor rect.x (rect.height + 1) rect.y (rect.width + 1)) →
      a.readRect rect img = .error .tileDB) := by
  obtain ⟨hheight, hwidth, hchannels⟩ := h.opened
  rw [readRect, h.rawData]
  generalize (if img.height = 0 then a.readImageMetadata img else img) = opened at *
  have hfits : ¬ (opened.height < rect.height + rect.y ∨ opened.width < rect.width + rect.x) := by
    omega
  have hcells : TDBImage.subarray rect.x (rect.x + rect.height) rect.y (rect.y + rect.width) =
      rowMajor rect.x (rect.height + 1) rect.y (rect.width + 1) := by
    rw [TDBImage.subarray, show rect.x + rect.height + 1 - rect.x = rect.height + 1 by omega,
      show rect.y + rect.width + 1 - rect.y = rect.width + 1 by omega]
  simp only [if_neg hfits, hcells]
  constructor
  · intro hinside
    have hle : rect.height * rect.width ≤ (rect.height + 1) * (rect.width + 1) :=
      Nat.mul_le_mul (Nat.le_succ _) (Nat.le_succ _)
    have hread : a.readFromTdb _
        (opened.setImageProperties rect.height rect.width opened.channels) = _ :=
      readFromTdb_inside hchannels (by rw [length_rowMajor]; exact hle) hinside
    simp only [hread]
    exact ⟨_, rfl, rfl, rfl, rfl⟩
  · intro hinside
    simp only [readFromTdb, if_neg hinside]

/-- A rectangle is inside the array exactly if its last row and column are. -/
theorem inside_iff {r height c width : ℕ} :
    a.Inside (rowMajor r (height + 1) c (width + 1)) ↔
      r + height < a.rows ∧ c + width < a.columns := by
  constructor
  · intro h
    have hlast := List.mem_of_getElem? (getElem?_rowMajor (r := r) (c := c)
      (Nat.lt_succ_self height) (Nat.lt_succ_self width))
    exact h _ hlast
  · rintro ⟨hrows, hcolumns⟩ p hp
    have := mem_rowMajor_lt hp
    omega

/-- The partial read of an image that has not been read. -/
theorem unread_reads_crop_iff (h : a.Unread img) (hrows : rect.y + rect.height ≤ a.height)
    (hcolumns : rect.x + rect.width ≤ a.width) :
    a.ReadsCrop rect img ↔
      (rect.x + rect.height < a.rows ∧ rect.y + rect.width < a.columns) ∧
        ∀ i < rect.height * rect.width, ∀ k < a.channels,
          a.value (rect.x + i / (rect.width + 1)) (rect.y + i % (rect.width + 1)) k =
            a.value (1 + rect.y + i / rect.width) (rect.x + i % rect.width) k := by
  obtain ⟨full, hfull, -, hwidth, hchannels, -, hdata⟩ := read_eq a _ h
  obtain ⟨hin, hout⟩ := readRect_eq h hrows hcolumns
  rw [← inside_iff]
  by_cases hinside : a.Inside (rowMajor rect.x (rect.height + 1) rect.y (rect.width + 1))
  · obtain ⟨part, hpart, hpartHeight, hpartWidth, hpartData⟩ := hin hinside
    have hreads : a.ReadsCrop rect img ↔
        ((rowMajor rect.x (rect.height + 1) rect.y (rect.width + 1)).take
            (rect.height * rect.width)).flatMap a.cell =
          (rowMajor (1 + rect.y) rect.height rect.x rect.width).flatMap a.cell := by
      rw [← cropData_read hrows hcolumns]
      constructor
      · rintro ⟨full', part', data, hfull', hdata', hpart', -, -, heq⟩
        obtain rfl := Except.ok.inj (hfull.symm.trans hfull')
        obtain rfl := Except.ok.inj (hpart.symm.trans hpart')
        obtain rfl := Option.some.inj (hdata.symm.trans hdata')
        rw [hwidth, hchannels] at heq
        exact Option.some.inj (hpartData.symm.trans heq)
      · intro heq
        refine ⟨full, part, _, hfull, hdata, hpart, hpartHeight, hpartWidth, ?_⟩
        rw [hpartData, heq, hwidth, hchannels]
    have hle : rect.height * rect.width ≤ (rect.height + 1) * (rect.width + 1) :=
      Nat.mul_le_mul (Nat.le_succ _) (Nat.le_succ _)
    have hlength : ((rowMajor rect.x (rect.height + 1) rect.y (rect.width + 1)).take
        (rect.height * rect.width)).length =
          (rowMajor (1 + rect.y) rect.height rect.x rect.width).length := by
      rw [List.length_take, length_rowMajor, length_rowMajor]
      omega
    rw [and_iff_right hinside, hreads,
      flatMap_const_inj (fun p _ => length_cell p) (fun p _ => length_cell p) hlength,
      rowMajor_eq_map, rowMajor_eq_map, ← List.map_take, List.take_range, Nat.min_eq_left hle,
      List.map_map, List.map_map, List.map_inj_left]
    simp only [List.mem_range, Function.comp_apply, cell, List.map_inj_left]
  · refine iff_of_false ?_ fun hboth => hinside hboth.1
    rintro ⟨_, part', _, -, -, hpart', -⟩
    rw [hout hinside] at hpart'
    cases hpart'

/-- The partial read of an image that has been read: it is left as it is. -/
theorem loaded_reads_crop_iff {data : List UInt8} (hdata : img.rawData = some data)
    (hlength : data.length = img.height * img.width * img.channels)
    (hrows : rect.y + rect.height ≤ img.height) (hcolumns : rect.x + rect.width ≤ img.width) :
    a.ReadsCrop rect img ↔ rect.height = img.height ∧ rect.width = img.width := by
  have hread : a.read img = .ok img := by rw [read, hdata]
  have hpart : a.readRect rect img = .ok img := by rw [readRect, hdata]
  constructor
  · rintro ⟨_, part, _, -, -, hpart', hheight, hwidth, -⟩
    obtain rfl := Except.ok.inj (hpart.symm.trans hpart')
    exact ⟨hheight.symm, hwidth.symm⟩
  · rintro ⟨hheight, hwidth⟩
    obtain ⟨x, y, width, height⟩ := rect
    dsimp only at hheight hwidth hrows hcolumns
    obtain rfl : x = 0 := by omega
    obtain rfl : y = 0 := by omega
    refine ⟨img, img, data, hread, hdata, hpart, hheight.symm, hwidth.symm, ?_⟩
    rw [hheight, hwidth, cropData_whole hlength, hdata]

end Reads

/-- For no rectangle with pixels of an image that has not been read is that so whatever the
array's values: the first pixel is read from another cell. -/
theorem reads_crop_never {a : TDBArray} {img : TDBImage} {rect : Rectangle} (h : a.Unread img)
    (hinside : rect.y + rect.height ≤ a.height ∧ rect.x + rect.width ≤ a.width)
    (hrows : 0 < rect.height) (hcolumns : 0 < rect.width) :
    ∃ value, ¬ ReadsCrop { a with value := value } rect img := by
  refine ⟨fun row column _ => if row = rect.x ∧ column = rect.y then 1 else 0, fun hreads => ?_⟩
  have hother : TDBArray.Unread { a with
      value := fun row column _ => if row = rect.x ∧ column = rect.y then 1 else 0 } img :=
    ⟨h.rawData, h.properties⟩
  have hfirst := ((unread_reads_crop_iff hother hinside.1 hinside.2).1 hreads).2 0
    (Nat.mul_pos hrows hcolumns) 0 a.channels_pos
  have hne : ¬ (1 + rect.y = rect.x ∧ rect.x = rect.y) := by omega
  simp [hne] at hfirst

/-- An image of three rows and four columns, whose pixels have their row and their column as
values, in three channels. -/
def numbered : TDBArray where
  height := 3
  width := 4
  channels := 3
  numAttributes := 1
  rows := 8
  columns := 8
  tileDimension := (2, 2)
  value row column channel := UInt8.ofNat (10 * row + column + 80 * channel)
  height_pos := by decide
  width_pos := by decide
  channels_pos := by decide
  rows_le := by decide
  columns_le := by decide
  attributes := .inl rfl

/-- An image of the same size in three attributes, of one colour but for two pixels. -/
def spotted : TDBArray :=
  { numbered with
    numAttributes := 3
    value := fun row column channel =>
      UInt8.ofNat ((if row = 2 ∧ column % 2 = 0 then 7 else 5) + 80 * channel)
    attributes := .inr ⟨rfl, rfl⟩ }

end TDBArray

end VCL

end Vdms
