import Mathlib.Data.List.Basic
import Mathlib.Tactic.IntervalCases
import Vdms.Imp.RowMajor

/-!
# Images in TileDB

`VCL::TDBImage`: the array that an image is stored in has the image's rows from row 1 on, and
in row 0 the number of channels, the height and the width, two bytes each. The first of these
bytes is the number cut to a byte and then divided by 256 for the channels, and the number
divided by 256 and then cut for the others, so that the packed numbers wrap.

The query that writes the six bytes addresses two cells. Only the cells of a three-channel
image with one attribute have three values, and hold them.

## Main results

* `TDBImage.metadata_round_trip_iff`: when the metadata are read back as they were.
-/

namespace Vdms

namespace VCL

/-- `MAX_UCHAR` of TDBImage.cc and `UCHAR_MAX` of TDBObject.cc. -/
def maxUchar : ℕ := 256

/-- `VCL::TDBImage`, with the members of `VCL::TDBObject`. `_raw_data` is NULL or a buffer. -/
structure TDBImage where
  group : String
  name : String
  height : ℕ
  width : ℕ
  channels : ℕ
  size : ℕ
  threshold : ℤ
  rawData : Option (List UInt8)
  numAttributes : ℕ
  minTileDimension : ℕ
  upperDimensions : ℕ × ℕ
  tileDimension : ℕ × ℕ
deriving DecidableEq

/-- What a query that writes a buffer to some cells, each of `cellValNum` values, leaves in
them. The query may fail. -/
abbrev WriteCells := ℕ → ℕ → List UInt8 → Option (List UInt8)

/-- TileDB stores the values of the buffer, cell after cell, and takes a buffer that has just
as many as the cells. -/
structure WriteCells.AsWritten (store : WriteCells) : Prop where
  accepts : ∀ cells cellValNum buffer, buffer.length = cells * cellValNum →
    (store cells cellValNum buffer).isSome
  stored : ∀ cells cellValNum buffer values, store cells cellValNum buffer = some values →
    values = buffer.take (cells * cellValNum)

/-- `rfind` of a character. -/
def rfind (c : Char) : List Char → Option ℕ
  | [] => none
  | a :: path =>
    match rfind c path with
    | some pos => some (pos + 1)
    | none => if a = c then some 0 else none

/-- `get_path_delimiter`: a delimiter at the end does not count. -/
def getPathDelimiter (path : List Char) : Option ℕ :=
  let pos := rfind '/' path
  if pos = some (path.length - 1) then rfind '/' (path.take (path.length - 1)) else pos

/-- Where the name begins: behind the delimiter. -/
def nameStart (path : List Char) : ℕ := (getPathDelimiter path).elim 0 (· + 1)

/-- `get_group`; that it creates a group that is not there is left out. -/
def getGroup (path : String) : String := .ofList (path.toList.take (nameStart path.toList))

/-- `get_name`. -/
def getName (path : String) : String := .ofList (path.toList.drop (nameStart path.toList))

namespace TDBImage

/-- The path of the array. -/
def arrayName (img : TDBImage) : String := img.group ++ img.name

/-- The constructor, from the path of the array. -/
def construct (path : String) : TDBImage where
  group := getGroup path
  name := getName path
  height := 0
  width := 0
  channels := 0
  size := 0
  threshold := 0
  rawData := none
  numAttributes := 1
  minTileDimension := 4
  upperDimensions := (0, 0)
  tileDimension := (0, 0)

/-- The group and the name are together the path that they were taken from. -/
theorem construct_arrayName (path : String) : (construct path).arrayName = path := by
  change String.ofList _ ++ String.ofList _ = path
  rw [← String.ofList_append, List.take_append_drop, String.ofList_toList]

/-- `set_image_properties`. -/
def setImageProperties (height width channels : ℕ) (img : TDBImage) : TDBImage :=
  { img with
    height := height
    width := width
    channels := channels
    size := height * width * channels }

/-- The `num_values` that `write` sets the schema with. -/
def cellValNum (img : TDBImage) : ℕ :=
  if img.numAttributes = 1 ∧ img.channels = 3 then 3 else 1

/-- The cells that a query on the subarray `{rowStart, rowEnd, columnStart, columnEnd}` goes
through in row-major order; the ends belong to it. -/
def subarray (rowStart rowEnd columnStart columnEnd : ℕ) : List (ℕ × ℕ) :=
  Imp.rowMajor rowStart (rowEnd + 1 - rowStart) columnStart (columnEnd + 1 - columnStart)

/-- The `metadata` of `write_image_metadata`. The first cast binds tighter than the division. -/
def metadata (img : TDBImage) : List UInt8 :=
  [UInt8.ofNat ((UInt8.ofNat img.channels).toNat / maxUchar),
    UInt8.ofNat ((UInt8.ofNat img.channels).toNat % maxUchar),
    UInt8.ofNat (img.height / maxUchar),
    UInt8.ofNat (img.height % maxUchar),
    UInt8.ofNat (img.width / maxUchar),
    UInt8.ofNat (img.width % maxUchar)]

/-- `write_image_metadata`: the subarray `{0, 0, 0, 1}` is of two cells. -/
def writeImageMetadata (store : WriteCells) (img : TDBImage) : Option (List UInt8) :=
  store 2 img.cellValNum img.metadata

/-- The loop of `TDBObject::read_metadata`: a number of two bytes at a time. -/
def metadataValues : List UInt8 → List ℕ
  | a :: b :: values => (a.toNat * maxUchar + b.toNat) :: metadataValues values
  | _ => []

/-- `TDBObject::read_metadata`, with room for `n` numbers: the buffer is of zeros, and the
query fills it as far as the cells' values go. -/
def readMetadata (n : ℕ) (values : List UInt8) : List ℕ :=
  metadataValues ((values ++ List.replicate (n * 2) 0).take (n * 2))

/-- `read_image_metadata`. -/
def readImageMetadata (values : List UInt8) (img : TDBImage) : TDBImage :=
  let metadata := readMetadata 3 values
  let height := metadata.getD 1 0
  let width := metadata.getD 2 0
  { img.setImageProperties height width (metadata.getD 0 0) with
    upperDimensions := (height + 1, width) }

/-! ### The metadata -/

section Metadata

variable {img other : TDBImage} {store : WriteCells}

/-- `other` has the height, the width, the channels and the size of `img`. -/
structure SameProperties (img other : TDBImage) : Prop where
  height : other.height = img.height
  width : other.width = img.width
  channels : other.channels = img.channels
  size : other.size = img.height * img.width * img.channels

/-- There are six values in the metadata. -/
theorem length_metadata : img.metadata.length = 6 := rfl

/-- Where the cells have three values they hold the metadata, and these are read back up to
what two bytes, and for the channels one byte, can hold. -/
theorem readMetadata_whole :
    readMetadata 3 img.metadata = [img.channels % 256, img.height % 65536, img.width % 65536] := by
  simp [readMetadata, metadata, metadataValues, maxUchar]
  omega

/-- Where they have one, only the channels are stored. -/
theorem readMetadata_cut :
    readMetadata 3 (img.metadata.take 2) = [img.channels % 256, 0, 0] := by
  simp [readMetadata, metadata, metadataValues, maxUchar]

/-- A cell has three values for one attribute with three channels, and one otherwise. -/
theorem cellValNum_cases (img : TDBImage) :
    img.cellValNum = 3 ∧ img.numAttributes = 1 ∧ img.channels = 3 ∨
      img.cellValNum = 1 ∧ ¬ (img.numAttributes = 1 ∧ img.channels = 3) := by
  rw [cellValNum]
  split
  next h => exact .inl ⟨rfl, h⟩
  next h => exact .inr ⟨rfl, h⟩

/-- The metadata as TileDB gives them back, if it took them. -/
theorem writeImageMetadata_eq (hstore : store.AsWritten) {values : List UInt8}
    (h : img.writeImageMetadata store = some values) :
    values = img.metadata.take (2 * img.cellValNum) :=
  hstore.stored _ _ _ _ h

/-- What `read_image_metadata` finds for an image whose cells have three values. -/
theorem readImageMetadata_whole (hcells : img.cellValNum = 3) :
    SameProperties img (other.readImageMetadata (img.metadata.take (2 * img.cellValNum))) ↔
      img.channels < 256 ∧ img.height < 65536 ∧ img.width < 65536 := by
  have htake : img.metadata.take (2 * img.cellValNum) = img.metadata := by
    rw [hcells, List.take_of_length_le (by rw [length_metadata])]
  rw [htake]
  simp only [readImageMetadata, readMetadata_whole, List.getD_cons_succ, List.getD_cons_zero]
  constructor
  · rintro ⟨hheight, hwidth, hchannels, -⟩
    simp only [setImageProperties] at hheight hwidth hchannels
    omega
  · rintro ⟨hchannels, hheight, hwidth⟩
    rw [Nat.mod_eq_of_lt hchannels, Nat.mod_eq_of_lt hheight, Nat.mod_eq_of_lt hwidth]
    exact ⟨rfl, rfl, rfl, rfl⟩

/-- And for one whose cells have one value. -/
theorem readImageMetadata_cut (hcells : img.cellValNum = 1) :
    SameProperties img (other.readImageMetadata (img.metadata.take (2 * img.cellValNum))) ↔
      img.channels < 256 ∧ img.height = 0 ∧ img.width = 0 := by
  rw [hcells, show 2 * 1 = 2 from rfl]
  simp only [readImageMetadata, readMetadata_cut, List.getD_cons_succ, List.getD_cons_zero]
  constructor
  · rintro ⟨hheight, hwidth, hchannels, -⟩
    simp only [setImageProperties] at hheight hwidth hchannels
    omega
  · rintro ⟨hchannels, hheight, hwidth⟩
    rw [Nat.mod_eq_of_lt hchannels]
    refine ⟨hheight.symm, hwidth.symm, rfl, ?_⟩
    simp [setImageProperties, hheight]

/-- The properties that are read back are those that were written if there are none, since
TileDB did not take the metadata, or if the cells have room for the metadata and the
metadata for the properties. -/
theorem metadata_round_trip_iff (hstore : store.AsWritten) :
    (∀ values, img.writeImageMetadata store = some values →
      SameProperties img (other.readImageMetadata values)) ↔
    img.writeImageMetadata store = none ∨
      img.numAttributes = 1 ∧ img.channels = 3 ∧ img.height < 65536 ∧ img.width < 65536 ∨
      ¬ (img.numAttributes = 1 ∧ img.channels = 3) ∧
        img.channels < 256 ∧ img.height = 0 ∧ img.width = 0 := by
  have hread : (∀ values, img.writeImageMetadata store = some values →
        SameProperties img (other.readImageMetadata values)) ↔
      img.writeImageMetadata store = none ∨
        SameProperties img (other.readImageMetadata (img.metadata.take (2 * img.cellValNum))) := by
    cases hwrite : img.writeImageMetadata store with
    | none => simp
    | some values => simp [writeImageMetadata_eq hstore hwrite]
  rw [hread]
  refine or_congr_right ?_
  rcases cellValNum_cases img with ⟨hcells, hattributes, hchannels⟩ | ⟨hcells, hne⟩
  · rw [readImageMetadata_whole hcells]
    simp [hattributes, hchannels]
  · rw [readImageMetadata_cut hcells]
    tauto

end Metadata

/-- Takes a buffer that is as long as the cells ask for, and no other. -/
def storeExact : WriteCells := fun cells cellValNum buffer =>
  if buffer.length = cells * cellValNum then some buffer else none

/-- The library that stores exactly returns what has been written. -/
theorem storeExact_asWritten : storeExact.AsWritten where
  accepts cells cellValNum buffer h := by simp [storeExact, h]
  stored cells cellValNum buffer values h := by
    obtain ⟨hlength, rfl⟩ : buffer.length = cells * cellValNum ∧ buffer = values := by
      simpa [storeExact] using h
    rw [← hlength, List.take_length]

/-- The metadata of a square image comes back. -/
theorem metadata_round_trip_square :
    ∃ values,
      ((construct "square").setImageProperties 300 300 3).writeImageMetadata storeExact =
        some values ∧
      SameProperties ((construct "square").setImageProperties 300 300 3)
        ((construct "square").readImageMetadata values) :=
  ⟨_, rfl, (metadata_round_trip_iff storeExact_asWritten).2 (.inr (.inl (by decide))) _ rfl⟩

/-- The height of an image of 65536 rows is read back as 0. -/
theorem metadata_wrap :
    ∃ values,
      ((construct "tall").setImageProperties 65536 1 3).writeImageMetadata storeExact =
        some values ∧
      ((construct "tall").readImageMetadata values).height = 0 ∧
      ¬ SameProperties ((construct "tall").setImageProperties 65536 1 3)
        ((construct "tall").readImageMetadata values) :=
  ⟨_, rfl, by decide, fun h => absurd h.height (by decide)⟩

end TDBImage

end VCL

end Vdms
