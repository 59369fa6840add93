import Mathlib.Tactic.Ring
import Vdms.TDBImage

/-!
# The Pixel Index

`TDBImage::get_index` finds a pixel in a buffer that is filled tile after tile. The buffer
that `read` fills is in row-major order, which is another order as soon as a row of pixels
has more than one tile.

## Main results

* `TDBImage.indexesPixels_iff`: when the index is the pixel's place in the buffer.
-/

namespace Vdms

namespace VCL

namespace TDBImage

open Imp

/-- The loop of `TDBObject::greatest_factor`, from `b` down. -/
def greatestFactorFrom (minTileDimension a : ℕ) : ℕ → ℕ
  | 0 => 0
  | 1 => 1
  | b + 2 =>
    if a % (b + 2) = 0 ∧ minTileDimension ≤ a / (b + 2) then b + 2
    else greatestFactorFrom minTileDimension a (b + 1)

/-- `TDBObject::greatest_factor`. -/
def greatestFactor (minTileDimension a : ℕ) : ℕ :=
  greatestFactorFrom minTileDimension a a

section GreatestFactor

variable {m a b n : ℕ}

theorem greatestFactorFrom_pos (hb : 0 < b) : 0 < greatestFactorFrom m a b := by
  fun_induction greatestFactorFrom m a b with
  | case1 => omega
  | case2 => omega
  | case3 => omega
  | case4 b hne ih => exact ih (by omega)

/-- A number of at least two tiles' least size is even, or its greatest factor is not 1. -/
theorem greatestFactorFrom_ne_one (hb : 2 ≤ b) (ha : a % 2 = 0) (hm : m ≤ a / 2) :
    greatestFactorFrom m a b ≠ 1 := by
  fun_induction greatestFactorFrom m a b with
  | case1 => omega
  | case2 => omega
  | case3 => omega
  | case4 b hne ih =>
    rcases b with _ | b
    · exact absurd ⟨ha, hm⟩ hne
    · exact ih (by omega)

theorem odd_of_greatestFactor (ha : 2 * max m 1 ≤ a) (h : greatestFactor m a = 1) :
    a % 2 = 1 := by
  by_contra hne
  have hhalf : m ≤ a / 2 := by omega
  exact greatestFactorFrom_ne_one (by omega) (by omega) hhalf h

end GreatestFactor

/-- A dimension of the loop of `TDBObject::find_tile_extents`: the dimension grows until it
has a factor. It does soon, since an even one has. -/
def tileExtent (minTileDimension dimension : ℕ) : ℕ :=
  if h : greatestFactor minTileDimension dimension = 1 then
    tileExtent minTileDimension (dimension + 1)
  else greatestFactor minTileDimension dimension
termination_by
  if dimension < 2 * max minTileDimension 1 then 2 * max minTileDimension 1 + 2 - dimension
  else dimension % 2
decreasing_by
  by_cases hlt : dimension < 2 * max minTileDimension 1
  · rw [if_pos hlt]
    split <;> omega
  · have hodd := odd_of_greatestFactor (by omega) h
    rw [if_neg hlt, if_neg (by omega)]
    omega

theorem two_le_tileExtent (m : ℕ) {dimension : ℕ} (h : 0 < dimension) :
    2 ≤ tileExtent m dimension := by
  fun_induction tileExtent m dimension with
  | case1 dimension _ ih => exact ih (by omega)
  | case2 dimension hne =>
    have hpos : 0 < greatestFactor m dimension := greatestFactorFrom_pos h
    omega

/-- `TDBObject::find_tile_extents`; the lower bounds of an image are 0. -/
def findTileExtents (img : TDBImage) : TDBImage :=
  { img with
    tileDimension :=
      (tileExtent img.minTileDimension img.upperDimensions.1,
        tileExtent img.minTileDimension img.upperDimensions.2) }

/-- `get_tile_height`. -/
def getTileHeight (img : TDBImage) (row numberTiles : ℕ) : ℕ :=
  if row / img.tileDimension.1 = numberTiles then
    img.height - numberTiles * img.tileDimension.1
  else img.tileDimension.1

/-- `get_tile_width`. -/
def getTileWidth (img : TDBImage) (column numberTiles : ℕ) : ℕ :=
  if column / img.tileDimension.2 = numberTiles then
    img.width - numberTiles * img.tileDimension.2
  else img.tileDimension.2

/-- `get_index`. -/
def getIndex (img : TDBImage) (row column : ℕ) : ℕ :=
  let tileWidth := img.getTileWidth column (img.width / img.tileDimension.2)
  let tileHeight := img.getTileHeight row (img.height / img.tileDimension.1)
  let tileSize := tileWidth * tileHeight
  let currentTileRow := row % img.tileDimension.1
  let currentRowTile := row / img.tileDimension.1
  let currentColumnTile := column / img.tileDimension.2
  let currentTileColumn := column % img.tileDimension.2
  let fullRowTile := img.width * img.tileDimension.1
  let rowIndex := currentRowTile * fullRowTile + currentTileRow * tileWidth
  let columnIndex := currentColumnTile * tileSize + currentTileColumn
  rowIndex + columnIndex

/-- The pixels that `get_index_value` reads for a point whose row and column, rounded down,
are `row` and `column`: top and bottom, left and right. -/
def neighbors (img : TDBImage) (row column : ℤ) : List (ℕ × ℕ) :=
  let columnLeft := column.toNat
  let columnRight := (min (column + 1) (img.width - 1)).toNat
  let rowTop := row.toNat
  let rowBottom := (min (row + 1) (img.height - 1)).toNat
  [(rowTop, columnLeft), (rowTop, columnRight), (rowBottom, columnLeft), (rowBottom, columnRight)]

/-- `get_index` gives the places of the pixels in the buffer of `read`, whose subarray is
`{1, _img_height, 0, _img_width - 1}`. The points that `resize` reads are between half a
pixel before the first and half a pixel after the last. -/
structure IndexesPixels (img : TDBImage) : Prop where
  position : ∀ row column, row < img.height → column < img.width →
    (subarray 1 img.height 0 (img.width - 1))[img.getIndex row column]? = some (1 + row, column)
  injective : ∀ row column row' column', row < img.height → column < img.width →
    row' < img.height → column' < img.width →
    img.getIndex row column = img.getIndex row' column' → row = row' ∧ column = column'
  within : ∀ row column channel, row < img.height → column < img.width →
    channel < img.channels →
    img.getIndex row column * img.channels + channel < img.height * img.width * img.channels
  samples : ∀ row column : ℤ, -1 ≤ row → row < img.height → -1 ≤ column → column < img.width →
    0 < img.height → 0 < img.width → ∀ pixel ∈ img.neighbors row column,
      (subarray 1 img.height 0 (img.width - 1))[img.getIndex pixel.1 pixel.2]? =
          some (1 + pixel.1, pixel.2) ∧
        ∀ channel < img.channels,
          img.getIndex pixel.1 pixel.2 * img.channels + channel <
            img.height * img.width * img.channels

section Index

variable {img : TDBImage} {row column : ℕ}

/-- The rows of pixels are the array's from row 1 on. -/
theorem pixel_place_iff {k : ℕ} (hrow : row < img.height) (hcolumn : column < img.width) :
    (subarray 1 img.height 0 (img.width - 1))[k]? = some (1 + row, column) ↔
      k = row * img.width + column := by
  have hcells : subarray 1 img.height 0 (img.width - 1) = rowMajor 1 img.height 0 img.width := by
    rw [subarray, show img.height + 1 - 1 = img.height by omega,
      show img.width - 1 + 1 - 0 = img.width by omega]
  have h := rowMajor_getElem?_iff (r := 1) (c := 0) (k := k) hrow hcolumn
  rwa [Nat.zero_add, ← hcells] at h

/-- What is left to show: the index is that of a row-major order. -/
theorem IndexesPixels.of_eq
    (h : ∀ row column, row < img.height → column < img.width →
      img.getIndex row column = row * img.width + column) : img.IndexesPixels := by
  have hposition : ∀ row column, row < img.height → column < img.width →
      (subarray 1 img.height 0 (img.width - 1))[img.getIndex row column]? =
        some (1 + row, column) :=
    fun row column hrow hcolumn => (pixel_place_iff hrow hcolumn).2 (h row column hrow hcolumn)
  have hwithin : ∀ row column channel, row < img.height → column < img.width →
      channel < img.channels →
      img.getIndex row column * img.channels + channel <
        img.height * img.width * img.channels := by
    intro row column channel hrow hcolumn hchannel
    rw [h row column hrow hcolumn]
    exact place_lt (place_lt hrow hcolumn) hchannel
  refine ⟨hposition, ?_, hwithin, ?_⟩
  · intro row column row' column' hrow hcolumn hrow' hcolumn' heq
    have hcell := hposition row column hrow hcolumn
    rw [heq, hposition row' column' hrow' hcolumn', Option.some.injEq, Prod.mk.injEq] at hcell
    omega
  · intro row column hrow hrow' hcolumn hcolumn' hheight hwidth pixel hpixel
    have hin : pixel.1 < img.height ∧ pixel.2 < img.width := by
      simp only [neighbors, List.mem_cons, List.not_mem_nil, or_false] at hpixel
      rcases hpixel with rfl | rfl | rfl | rfl <;> constructor <;> dsimp only <;> omega
    exact ⟨hposition _ _ hin.1 hin.2, fun channel hchannel =>
      hwithin _ _ channel hin.1 hin.2 hchannel⟩

/-- The index where a tile is as wide as the image or wider. -/
theorem getIndex_wide (htile : 0 < img.tileDimension.1) (hwide : img.width ≤ img.tileDimension.2)
    (hcolumn : column < img.width) : img.getIndex row column = row * img.width + column := by
  have htileWidth : img.getTileWidth column (img.width / img.tileDimension.2) = img.width := by
    rcases hwide.lt_or_eq with hlt | heq
    · rw [getTileWidth, if_pos (by rw [Nat.div_eq_of_lt (by omega), Nat.div_eq_of_lt hlt]),
        Nat.div_eq_of_lt hlt, Nat.zero_mul, Nat.sub_zero]
    · rw [getTileWidth, if_neg, ← heq]
      rw [← heq, Nat.div_eq_of_lt hcolumn, Nat.div_self (by omega)]
      omega
  have hrow := Nat.div_add_mod row img.tileDimension.1
  simp only [getIndex, htileWidth, Nat.div_eq_of_lt (by omega : column < img.tileDimension.2),
    Nat.mod_eq_of_lt (by omega : column < img.tileDimension.2), Nat.zero_mul, Nat.zero_add]
  calc row / img.tileDimension.1 * (img.width * img.tileDimension.1) +
        row % img.tileDimension.1 * img.width + column
      = (img.tileDimension.1 * (row / img.tileDimension.1) + row % img.tileDimension.1) *
          img.width + column := by ring
    _ = row * img.width + column := by rw [hrow]

/-- The index of a pixel of a single row, tile by tile. -/
theorem getIndex_row (hheight : img.height = 1) (htile : 2 ≤ img.tileDimension.1) :
    img.getIndex 0 column =
      column / img.tileDimension.2 *
          img.getTileWidth column (img.width / img.tileDimension.2) +
        column % img.tileDimension.2 := by
  have htileHeight : img.getTileHeight 0 (img.height / img.tileDimension.1) = 1 := by
    rw [hheight, Nat.div_eq_of_lt (by omega : 1 < img.tileDimension.1), getTileHeight,
      if_pos (Nat.zero_div _), Nat.zero_mul, hheight]
  simp only [getIndex, htileHeight, Nat.zero_div, Nat.zero_mod, Nat.zero_mul, Nat.zero_add,
    Nat.mul_one]

/-- A single row of whole tiles. -/
theorem getIndex_whole (hheight : img.height = 1) (htile : 2 ≤ img.tileDimension.1)
    (hwhole : img.tileDimension.2 ∣ img.width) (hcolumn : column < img.width) :
    img.getIndex 0 column = column := by
  obtain ⟨tiles, htiles⟩ := hwhole
  have hpos : 0 < img.tileDimension.2 := by
    rcases Nat.eq_zero_or_pos img.tileDimension.2 with h | h
    · rw [h, Nat.zero_mul] at htiles
      omega
    · exact h
  have hlt : column / img.tileDimension.2 < img.width / img.tileDimension.2 := by
    rw [htiles, Nat.mul_div_cancel_left _ hpos]
    exact (Nat.div_lt_iff_lt_mul hpos).2 (by rwa [Nat.mul_comm, ← htiles])
  rw [getIndex_row hheight htile, getTileWidth, if_neg hlt.ne, Nat.mul_comm]
  exact Nat.div_add_mod column _

/-- The second pixel of a column comes a tile's width after the first, and not a row's. -/
theorem getIndex_second (htile : 2 ≤ img.tileDimension.1) (hpos : 0 < img.tileDimension.2)
    (hnarrow : img.tileDimension.2 < img.width) : img.getIndex 1 0 = img.tileDimension.2 := by
  have hone : 0 < img.width / img.tileDimension.2 := Nat.div_pos hnarrow.le hpos
  have htileWidth : img.getTileWidth 0 (img.width / img.tileDimension.2) = img.tileDimension.2 := by
    rw [getTileWidth, if_neg]
    rw [Nat.zero_div]
    omega
  simp only [getIndex, htileWidth, Nat.div_eq_of_lt (by omega : 1 < img.tileDimension.1),
    Nat.mod_eq_of_lt (by omega : 1 < img.tileDimension.1), Nat.zero_div, Nat.zero_mod,
    Nat.zero_mul, Nat.zero_add, Nat.one_mul, Nat.add_zero]

/-- In a single row whose last tile is not full, the first pixel of the last tile comes too
early. -/
theorem getIndex_last (hheight : img.height = 1) (htile : 2 ≤ img.tileDimension.1)
    (hpos : 0 < img.tileDimension.2) (hnarrow : img.tileDimension.2 < img.width)
    (hrest : 0 < img.width % img.tileDimension.2) :
    img.getIndex 0 (img.width / img.tileDimension.2 * img.tileDimension.2) <
      img.width / img.tileDimension.2 * img.tileDimension.2 := by
  have hone : 0 < img.width / img.tileDimension.2 := Nat.div_pos hnarrow.le hpos
  have hdiv := Nat.div_add_mod img.width img.tileDimension.2
  rw [Nat.mul_comm] at hdiv
  have hmod := Nat.mod_lt img.width hpos
  rw [getIndex_row hheight htile, Nat.mul_div_cancel _ hpos, Nat.mul_mod_left, Nat.add_zero,
    getTileWidth, if_pos (Nat.mul_div_cancel _ hpos),
    show img.width - img.width / img.tileDimension.2 * img.tileDimension.2 =
      img.width % img.tileDimension.2 by omega]
  exact Nat.mul_lt_mul_of_pos_left hmod hone

/-- The index of a pixel is its place in the buffer exactly if the image has no pixels in it
to be mistaken: a tile is as wide as the image, or the image is a single row of whole
tiles. -/
theorem indexesPixels_iff (hupper : img.upperDimensions = (img.height + 1, img.width)) :
    img.findTileExtents.IndexesPixels ↔
      img.height = 0 ∨ img.width ≤ tileExtent img.minTileDimension img.width ∨
        img.height = 1 ∧ tileExtent img.minTileDimension img.width ∣ img.width := by
  have htile : 2 ≤ img.findTileExtents.tileDimension.1 := by
    rw [findTileExtents, hupper]
    exact two_le_tileExtent _ (Nat.succ_pos _)
  have hextent :
      img.findTileExtents.tileDimension.2 = tileExtent img.minTileDimension img.width := by
    rw [findTileExtents, hupper]
  have hheight : img.findTileExtents.height = img.height := rfl
  have hwidth : img.findTileExtents.width = img.width := rfl
  rw [← hextent, ← hheight, ← hwidth]
  generalize img.findTileExtents = laid at htile hextent hheight hwidth ⊢
  constructor
  · intro h
    by_contra hne
    simp only [not_or, not_le, not_and] at hne
    obtain ⟨hrows, hnarrow, hrow⟩ := hne
    have hpos : 0 < laid.tileDimension.2 := by
      have := two_le_tileExtent img.minTileDimension (show 0 < img.width by omega)
      omega
    rcases Nat.lt_or_ge 1 laid.height with hmany | hfew
    · have hplace := (pixel_place_iff hmany (by omega)).1 (h.position 1 0 hmany (by omega))
      rw [getIndex_second htile hpos hnarrow] at hplace
      omega
    · have hone : laid.height = 1 := by omega
      have hrest : 0 < laid.width % laid.tileDimension.2 :=
        Nat.pos_of_ne_zero fun hzero => hrow hone (Nat.dvd_of_mod_eq_zero hzero)
      have hlast : laid.width / laid.tileDimension.2 * laid.tileDimension.2 < laid.width := by
        have hdiv := Nat.div_add_mod laid.width laid.tileDimension.2
        rw [Nat.mul_comm] at hdiv
        omega
      have hplace := (pixel_place_iff (by omega) hlast).1 (h.position 0 _ (by omega) hlast)
      have hearly := getIndex_last hone htile hpos hnarrow hrest
      omega
  · rintro (hnone | hwide | ⟨hone, hwhole⟩)
    · exact .of_eq fun row column hrow _ => absurd hrow (by omega)
    · exact .of_eq fun row column _ hcolumn => getIndex_wide (by omega) hwide hcolumn
    · refine .of_eq fun row column hrow hcolumn => ?_
      obtain rfl : row = 0 := by omega
      rw [getIndex_whole hone htile hwhole hcolumn, Nat.zero_mul, Nat.zero_add]

end Index

theorem indexesPixels_strip :
    (((construct "strip").setImageProperties 1 6 3).readImageMetadata
      ((construct "strip").setImageProperties 1 6 3).metadata).findTileExtents.IndexesPixels :=
  (indexesPixels_iff rfl).2 (.inr (.inr ⟨rfl, by decide +kernel⟩))

/-- The first pixel of the second row of a square of 8 × 8 has index 2: the tiles are two
pixels wide. In the buffer that is the third pixel of the first row. -/
theorem square_index :
    let square := (((construct "square").setImageProperties 8 8 3).readImageMetadata
      ((construct "square").setImageProperties 8 8 3).metadata).findTileExtents
    square.getIndex 1 0 = 2 ∧
      (subarray 1 square.height 0 (square.width - 1))[square.getIndex 1 0]? = some (1, 2) ∧
      ¬ square.IndexesPixels := by
  refine ⟨by decide +kernel, by decide +kernel, fun h => ?_⟩
  exact absurd (h.position 1 0 (by decide) (by decide)) (by decide +kernel)

end TDBImage

end VCL

end Vdms
