import Mathlib.Data.PNat.Defs
import Vdms.PartialRead

/-!
# Pending Operations

An image in the TDB format has its pixels in a `TDBImage`, which is read when they are needed,
and a list of pending operations, the first of which is the read. `Image::crop` takes the only
pending operation off the list, which it takes for the read; a crop is a partial read, and
does nothing to pixels that have been read already.

## Main results

* `Harmless.performed`: operations that come to the same whether the image has been read or
  not, each applied once.
* `crop_depends`: a crop that does not.
-/

namespace Vdms

namespace VCL

/-- An operation that a client asks for. A size is positive. -/
inductive ImageOp where
  | crop (rect : Rectangle)
  | threshold (value : ℤ)
  | resize (height width : ℕ+)
deriving DecidableEq

/-- A pending operation. -/
inductive PendingOp where
  | read
  | op (op : ImageOp)
deriving DecidableEq

/-- An image in the TDB format, with the message of an operation that has failed. -/
structure TDBContent where
  tdb : TDBImage
  height : ℕ
  width : ℕ
  channels : ℕ
  opCompleted : ℕ
  queryErrorResponse : Option TDBError
deriving DecidableEq

/-- Such an image and its pending operations. -/
structure QueuedImage where
  content : TDBContent
  operations : List PendingOp
deriving DecidableEq

namespace TDBImage

/-- `get_image_height`, `get_image_width` and `get_image_channels`: a property that is 0 is
taken from the metadata, with the others. -/
def getProperties (a : TDBArray) (img : TDBImage) : TDBImage :=
  let img := if img.height = 0 then a.readImageMetadata img else img
  let img := if img.width = 0 then a.readImageMetadata img else img
  if img.channels = 0 then a.readImageMetadata img else img

/-- The new pixels of `resize`, from the floating-point interpolation of their values. -/
def resample (sample : TDBImage → ℕ → ℕ → ℕ → UInt8) (img : TDBImage) (height width : ℕ) :
    TDBImage :=
  { img.setImageProperties height width img.channels with
    rawData := some ((List.range (height * width * img.channels)).map (sample img height width))
    upperDimensions := (height + 1, width) }

/-- The loop of `threshold`. -/
def applyThreshold (value : ℤ) (img : TDBImage) : TDBImage :=
  { img with rawData := img.rawData.map fun data =>
      data.map fun pixel => if (pixel.toNat : ℤ) ≤ value then 0 else pixel }

variable (sample : TDBImage → ℕ → ℕ → ℕ → UInt8)

/-- `resize`. -/
def resize (a : TDBArray) (height width : ℕ) (img : TDBImage) : Except TDBError TDBImage := do
  let img ← match img.rawData with
    | none => a.read img
    | some _ => pure img
  pure (img.resample sample height width)

/-- `threshold`. Pixels that are not there yet are read, and left as they are. -/
def setThreshold (a : TDBArray) (value : ℤ) (img : TDBImage) : Except TDBError TDBImage :=
  match img.rawData with
  | none => a.read { img with threshold := value }
  | some _ => .ok (img.applyThreshold value)

end TDBImage

namespace TDBContent

variable (sample : TDBImage → ℕ → ℕ → ℕ → UInt8)

/-- The properties of the image are those of its `TDBImage`. -/
def withProperties (a : TDBArray) (tdb : TDBImage) (img : TDBContent) : TDBContent :=
  let tdb := tdb.getProperties a
  { img with tdb := tdb, height := tdb.height, width := tdb.width, channels := tdb.channels }

/-- An operation counts its success, and keeps the message of a `VCL::Exception`; other
exceptions go on. -/
def attempt (result : Except TDBError TDBImage) (done : TDBImage → TDBContent)
    (img : TDBContent) : Except TDBError TDBContent :=
  match result with
  | .ok tdb => .ok { done tdb with opCompleted := img.opCompleted + 1 }
  | .error .SizeMismatch => .ok { img with queryErrorResponse := some .SizeMismatch }
  | .error .tileDB => .error .tileDB

/-- The call operators of `Read`, `Crop`, `Threshold` and `Resize`. -/
def apply (a : TDBArray) (img : TDBContent) : PendingOp → Except TDBError TDBContent
  | .read => do
    let tdb ← a.read img.tdb
    pure (img.withProperties a tdb)
  | .op (.crop rect) =>
    img.attempt (a.readRect rect img.tdb) fun tdb => img.withProperties a tdb
  | .op (.threshold value) =>
    img.attempt (img.tdb.setThreshold a value) fun tdb => { img with tdb := tdb }
  | .op (.resize height width) =>
    img.attempt (img.tdb.resize sample a height width) fun tdb => img.withProperties a tdb

/-- What an operation is for: its effect on the pixels of an image that has been read. -/
def effect (a : TDBArray) (img : TDBContent) : ImageOp → TDBContent
  | .crop rect =>
    if img.tdb.height < rect.height + rect.y ∨ img.tdb.width < rect.width + rect.x then
      { img with queryErrorResponse := some .SizeMismatch }
    else
      let tdb :=
        { img.tdb.setImageProperties rect.height rect.width img.tdb.channels with
          rawData := img.tdb.rawData.map (cropData img.tdb.width img.tdb.channels rect) }
      { img.withProperties a tdb with opCompleted := img.opCompleted + 1 }
  | .threshold value =>
    { img with tdb := img.tdb.applyThreshold value, opCompleted := img.opCompleted + 1 }
  | .resize height width =>
    { img.withProperties a (img.tdb.resample sample height width) with
      opCompleted := img.opCompleted + 1 }

end TDBContent

namespace QueuedImage

variable (sample : TDBImage → ℕ → ℕ → ℕ → UInt8)

/-- The constructor from the path of a stored image: `read` is pending. -/
def ofId (imageId : String) : QueuedImage where
  content :=
    { tdb := TDBImage.construct imageId
      height := 0
      width := 0
      channels := 0
      opCompleted := 0
      queryErrorResponse := none }
  operations := [.read]

/-- `Image::crop`, `Image::threshold` and `Image::resize`. -/
def queue (img : QueuedImage) : ImageOp → QueuedImage
  | .crop rect =>
    let operations := if img.operations.length = 1 then img.operations.dropLast
      else img.operations
    { img with operations := operations ++ [.op (.crop rect)] }
  | op => { img with operations := img.operations ++ [.op op] }

/-- `perform_operations`. -/
def performOperations (a : TDBArray) (img : QueuedImage) : Except TDBError QueuedImage := do
  let content ← img.operations.foldlM (TDBContent.apply sample a) img.content
  pure ⟨content, []⟩

/-- The operations are queued and performed. -/
def perform (a : TDBArray) (ops : List ImageOp) (img : QueuedImage) :
    Except TDBError QueuedImage :=
  (ops.foldl queue img).performOperations sample a

/-- The operations come to their effects, one after the other, on the pixels of the stored
image, whether they have been read before or not. -/
def Independent (a : TDBArray) (imageId : String) (ops : List ImageOp) : Prop :=
  ∃ loaded, (ofId imageId).performOperations sample a = .ok loaded ∧
    (ofId imageId).perform sample a ops =
      .ok ⟨ops.foldl (TDBContent.effect sample a) loaded.content, []⟩ ∧
    loaded.perform sample a ops =
      .ok ⟨ops.foldl (TDBContent.effect sample a) loaded.content, []⟩

end QueuedImage

/-- Every crop comes third or later, and is of the whole image. -/
def Harmless : ℕ → ℕ → ℕ → List ImageOp → Prop
  | _, _, _, [] => True
  | i, height, width, .crop rect :: ops =>
    2 ≤ i ∧ rect = ⟨0, 0, width, height⟩ ∧ Harmless (i + 1) height width ops
  | i, height, width, .threshold _ :: ops => Harmless (i + 1) height width ops
  | i, _, _, .resize height width :: ops => Harmless (i + 1) height width ops

section Loaded

variable {sample : TDBImage → ℕ → ℕ → ℕ → UInt8} {a : TDBArray} {img : TDBContent}
  {ops : List ImageOp} {i height width : ℕ} {imageId : String}

/-- The image has been read: it has the pixels that its properties say, and some. -/
structure IsLoaded (img : TDBContent) : Prop where
  data : ∃ data, img.tdb.rawData = some data ∧
    data.length = img.tdb.height * img.tdb.width * img.tdb.channels
  size : img.tdb.size = img.tdb.height * img.tdb.width * img.tdb.channels
  height_pos : 0 < img.tdb.height
  width_pos : 0 < img.tdb.width
  channels_pos : 0 < img.tdb.channels
  shown : img.height = img.tdb.height ∧ img.width = img.tdb.width ∧
    img.channels = img.tdb.channels

theorem getProperties_eq {tdb : TDBImage} (hheight : 0 < tdb.height) (hwidth : 0 < tdb.width)
    (hchannels : 0 < tdb.channels) : tdb.getProperties a = tdb := by
  simp only [TDBImage.getProperties]
  rw [if_neg hheight.ne', if_neg hwidth.ne', if_neg hchannels.ne']

theorem IsLoaded.withProperties_eq (h : IsLoaded img) :
    img.withProperties a img.tdb = img := by
  obtain ⟨hheight, hwidth, hchannels⟩ := h.shown
  rw [TDBContent.withProperties, getProperties_eq h.height_pos h.width_pos h.channels_pos]
  obtain ⟨tdb, height, width, channels, opCompleted, response⟩ := img
  dsimp only at hheight hwidth hchannels ⊢
  subst hheight hwidth hchannels
  rfl

/-- The effect of a crop to the whole image: none. -/
theorem IsLoaded.effect_whole (h : IsLoaded img) :
    img.effect sample a (.crop ⟨0, 0, img.tdb.width, img.tdb.height⟩) =
      { img with opCompleted := img.opCompleted + 1 } := by
  obtain ⟨data, hdata, hlength⟩ := h.data
  have htdb : { img.tdb.setImageProperties img.tdb.height img.tdb.width img.tdb.channels with
      rawData := img.tdb.rawData.map
        (cropData img.tdb.width img.tdb.channels ⟨0, 0, img.tdb.width, img.tdb.height⟩) } =
      img.tdb := by
    rw [hdata, Option.map_some, cropData_whole hlength, ← hdata, TDBImage.setImageProperties,
      ← h.size]
  rw [TDBContent.effect, if_neg (by dsimp only; omega)]
  simp only [htdb, h.withProperties_eq]

/-- An operation on pixels that have been read has its effect, if it is no crop to a part. -/
theorem IsLoaded.apply_eq (h : IsLoaded img) {op : ImageOp}
    (hop : ∀ rect, op = .crop rect → rect = ⟨0, 0, img.tdb.width, img.tdb.height⟩) :
    img.apply sample a (.op op) = .ok (img.effect sample a op) := by
  obtain ⟨data, hdata, hlength⟩ := h.data
  cases op with
  | crop rect =>
    rw [hop rect rfl, h.effect_whole]
    have hread : a.readRect ⟨0, 0, img.tdb.width, img.tdb.height⟩ img.tdb = .ok img.tdb := by
      rw [TDBArray.readRect, hdata]
    rw [TDBContent.apply, hread, TDBContent.attempt, h.withProperties_eq]
  | threshold value =>
    have hset : img.tdb.setThreshold a value = .ok (img.tdb.applyThreshold value) := by
      rw [TDBImage.setThreshold, hdata]
    rw [TDBContent.apply, hset, TDBContent.attempt, TDBContent.effect]
  | resize height width =>
    have hresize : img.tdb.resize sample a height width =
        .ok (img.tdb.resample sample height width) := by
      rw [TDBImage.resize, hdata]
      rfl
    rw [TDBContent.apply, hresize, TDBContent.attempt, TDBContent.effect]

/-- And the pixels are there afterwards. -/
theorem IsLoaded.effect (h : IsLoaded img) {op : ImageOp}
    (hop : ∀ rect, op = .crop rect → rect = ⟨0, 0, img.tdb.width, img.tdb.height⟩) :
    IsLoaded (img.effect sample a op) := by
  obtain ⟨data, hdata, hlength⟩ := h.data
  cases op with
  | crop rect =>
    rw [hop rect rfl, h.effect_whole]
    exact ⟨h.data, h.size, h.height_pos, h.width_pos, h.channels_pos, h.shown⟩
  | threshold value =>
    refine ⟨⟨_, congrArg (Option.map _) hdata, ?_⟩, h.size, h.height_pos, h.width_pos,
      h.channels_pos, h.shown⟩
    rw [List.length_map]
    exact hlength
  | resize height width =>
    have hprops : (img.tdb.resample sample height width).getProperties a =
        img.tdb.resample sample height width :=
      getProperties_eq height.pos width.pos h.channels_pos
    rw [TDBContent.effect, TDBContent.withProperties, hprops]
    exact ⟨⟨_, rfl, by simp [TDBImage.resample, TDBImage.setImageProperties]⟩, rfl, height.pos,
      width.pos, h.channels_pos, rfl, rfl, rfl⟩

/-- Harmless operations on pixels that have been read. -/
theorem Harmless.apply_all (h : Harmless i img.tdb.height img.tdb.width ops)
    (hloaded : IsLoaded img) :
    (ops.map PendingOp.op).foldlM (TDBContent.apply sample a) img =
      .ok (ops.foldl (TDBContent.effect sample a) img) := by
  induction ops generalizing i img with
  | nil => rfl
  | cons op ops ih =>
    have hop : ∀ rect, op = .crop rect → rect = ⟨0, 0, img.tdb.width, img.tdb.height⟩ := by
      rintro rect rfl
      exact h.2.1
    have hrest : Harmless (i + 1) (img.effect sample a op).tdb.height
        (img.effect sample a op).tdb.width ops := by
      cases op with
      | crop rect =>
        rw [hop rect rfl, hloaded.effect_whole]
        exact h.2.2
      | threshold value => exact h
      | resize height width =>
        have hprops : (img.tdb.resample sample height width).getProperties a =
            img.tdb.resample sample height width :=
          getProperties_eq height.pos width.pos hloaded.channels_pos
        rw [TDBContent.effect, TDBContent.withProperties, hprops]
        exact h
    rw [List.map_cons, List.foldlM_cons, hloaded.apply_eq hop]
    exact ih hrest (hloaded.effect hop)

/-- Harmless operations take none off the list. -/
theorem Harmless.queue_all {queued : QueuedImage} (h : Harmless i height width ops)
    (hlength : i ≤ queued.operations.length) :
    ops.foldl QueuedImage.queue queued =
      ⟨queued.content, queued.operations ++ ops.map PendingOp.op⟩ := by
  induction ops generalizing i height width queued with
  | nil => rw [List.foldl_nil, List.map_nil, List.append_nil]
  | cons op ops ih =>
    have happend : queued.queue op = ⟨queued.content, queued.operations ++ [.op op]⟩ := by
      cases op with
      | crop rect =>
        have hne : ¬ queued.operations.length = 1 := by
          have := h.1
          omega
        rw [QueuedImage.queue, if_neg hne]
      | threshold value => rfl
      | resize height width => rfl
    have hnext : i + 1 ≤
        (QueuedImage.mk queued.content (queued.operations ++ [.op op])).operations.length := by
      rw [List.length_append, List.length_singleton]
      omega
    have hsplit : queued.operations ++ (op :: ops).map PendingOp.op =
        (queued.operations ++ [.op op]) ++ ops.map PendingOp.op := by simp
    rw [List.foldl_cons, happend, hsplit]
    cases op with
    | crop rect => exact ih h.2.2 hnext
    | threshold value => exact ih h hnext
    | resize height width => exact ih h hnext

/-- The image is read. -/
theorem read_loaded (sample : TDBImage → ℕ → ℕ → ℕ → UInt8) (a : TDBArray) (imageId : String) :
    ∃ content, (QueuedImage.ofId imageId).content.apply sample a .read = .ok content ∧
      IsLoaded content ∧ content.tdb.height = a.height ∧ content.tdb.width = a.width := by
  obtain ⟨full, hfull, hheight, hwidth, hchannels, hsize, hdata⟩ :=
    a.read_eq (TDBImage.construct imageId) ⟨rfl, .inl rfl⟩
  have hprops : full.getProperties a = full :=
    getProperties_eq (hheight ▸ a.height_pos) (hwidth ▸ a.width_pos) (hchannels ▸ a.channels_pos)
  have hread : (QueuedImage.ofId imageId).content.apply sample a .read =
      .ok ((QueuedImage.ofId imageId).content.withProperties a full) := by
    have hstart : (QueuedImage.ofId imageId).content.tdb = TDBImage.construct imageId := rfl
    rw [TDBContent.apply, hstart, hfull]
    rfl
  refine ⟨_, hread, ?_, ?_, ?_⟩
  · simp only [TDBContent.withProperties, hprops]
    refine ⟨⟨_, hdata, ?_⟩, ?_, hheight ▸ a.height_pos, hwidth ▸ a.width_pos,
      hchannels ▸ a.channels_pos, rfl, rfl, rfl⟩
    · rw [Imp.length_flatMap_const fun p _ => TDBArray.length_cell p, Imp.length_rowMajor,
        hheight, hwidth, hchannels]
    · rw [hsize, hheight, hwidth, hchannels]
      rfl
  · simp only [TDBContent.withProperties, hprops, hheight]
  · simp only [TDBContent.withProperties, hprops, hwidth]

/-- **Pending operations** that are harmless come to their effects, each once, whether the image
has been read before or not. -/
theorem Harmless.performed (h : Harmless 0 a.height a.width ops) :
    QueuedImage.Independent sample a imageId ops := by
  obtain ⟨content, hread, hloaded, hheight, hwidth⟩ := read_loaded sample a imageId
  have hall : (ops.map PendingOp.op).foldlM (TDBContent.apply sample a) content =
      .ok (ops.foldl (TDBContent.effect sample a) content) :=
    Harmless.apply_all (i := 0) (by rwa [hheight, hwidth]) hloaded
  have hfirst : (QueuedImage.ofId imageId).operations.foldlM (TDBContent.apply sample a)
      (QueuedImage.ofId imageId).content = .ok content := by
    rw [show (QueuedImage.ofId imageId).operations = [.read] from rfl, List.foldlM_cons, hread]
    rfl
  refine ⟨⟨content, []⟩, ?_, ?_, ?_⟩
  · rw [QueuedImage.performOperations, hfirst]
    rfl
  · rw [QueuedImage.perform, h.queue_all (Nat.zero_le _), QueuedImage.performOperations,
      List.foldlM_append, hfirst]
    change (do
      let content ← (ops.map PendingOp.op).foldlM (TDBContent.apply sample a) content
      pure (QueuedImage.mk content [])) = _
    rw [hall]
    rfl
  · rw [QueuedImage.perform, h.queue_all (Nat.zero_le _), QueuedImage.performOperations,
      List.nil_append, hall]
    rfl

end Loaded

/-- An image of four pixels in a row. -/
def fourPixels : TDBArray :=
  { TDBArray.numbered with
    height := 1
    height_pos := Nat.one_pos
    rows_le := by decide }

/-- Two thresholds, a crop to the whole image and a resize. -/
theorem Harmless.performed_thresholds :
    QueuedImage.Independent (fun _ _ _ _ => 0) fourPixels "four"
      [.threshold 11, .threshold 92, .crop ⟨0, 0, 4, 1⟩, .resize 2 2] :=
  Harmless.performed ⟨le_rfl, rfl, trivial⟩

/-- The pixels and the properties that a list of operations leaves. -/
def shownAfter (ops : List ImageOp) (img : QueuedImage) : Option (Option (List UInt8) × ℕ × ℕ) :=
  (img.perform (fun _ _ _ _ => 0) fourPixels ops).toOption.map fun img =>
    (img.content.tdb.rawData, img.content.height, img.content.width)

/-- The image, after its read has been performed. -/
def readBefore : QueuedImage where
  content := (QueuedImage.ofId "four").content.withProperties fourPixels
    { TDBImage.construct "four" with
      height := 1
      width := 4
      channels := 3
      size := 12
      rawData := some [10, 90, 170, 11, 91, 171, 12, 92, 172, 13, 93, 173]
      upperDimensions := (2, 4)
      tileDimension := (2, 2) }
  operations := []

/-- A crop to two pixels reads two of the metadata's cells if the image has not been read, and
does nothing if it has. After a threshold it is not done if the image has not been read, and
takes the threshold off the list if it has. -/
theorem crop_depends :
    (QueuedImage.ofId "four").performOperations (fun _ _ _ _ => 0) fourPixels = .ok readBefore ∧
      shownAfter [.crop ⟨0, 0, 2, 1⟩] (.ofId "four") = some (some [0, 80, 160, 1, 81, 161], 1, 2) ∧
      shownAfter [.crop ⟨0, 0, 2, 1⟩] readBefore =
        some (some [10, 90, 170, 11, 91, 171, 12, 92, 172, 13, 93, 173], 1, 4) ∧
      shownAfter [.threshold 11, .crop ⟨0, 0, 2, 1⟩] (.ofId "four") =
        some (some [0, 90, 170, 0, 91, 171, 12, 92, 172, 13, 93, 173], 1, 4) ∧
      shownAfter [.threshold 11, .crop ⟨0, 0, 2, 1⟩] readBefore =
        some (some [10, 90, 170, 11, 91, 171, 12, 92, 172, 13, 93, 173], 1, 4) ∧
      ¬ QueuedImage.Independent (fun _ _ _ _ => 0) fourPixels "four" [.crop ⟨0, 0, 2, 1⟩] := by
  have hread : (QueuedImage.ofId "four").performOperations (fun _ _ _ _ => 0) fourPixels =
      .ok readBefore := by rfl
  have hlazy : shownAfter [.crop ⟨0, 0, 2, 1⟩] (.ofId "four") =
      some (some [0, 80, 160, 1, 81, 161], 1, 2) := by
    decide
  have hloaded : shownAfter [.crop ⟨0, 0, 2, 1⟩] readBefore =
      some (some [10, 90, 170, 11, 91, 171, 12, 92, 172, 13, 93, 173], 1, 4) := by decide
  refine ⟨hread, hlazy, hloaded, by decide, by decide, ?_⟩
  rintro ⟨loaded, hfirst, hsecond, hthird⟩
  obtain rfl := Except.ok.inj (hread.symm.trans hfirst)
  have hsame : shownAfter [.crop ⟨0, 0, 2, 1⟩] (.ofId "four") =
      shownAfter [.crop ⟨0, 0, 2, 1⟩] readBefore := by
    rw [shownAfter, shownAfter, hsecond, hthird]
  rw [hlazy, hloaded] at hsame
  exact absurd hsame (by decide)

end VCL

end Vdms
