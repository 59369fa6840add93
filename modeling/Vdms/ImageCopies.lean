import Vdms.ImageLoop
import Vdms.LazyOperations

/-!
# Copies of Images

`VCL::Image` is copied when it is enqueued in an `ImageLoop`. A copy takes over the pixels and
the pending operations; for a read that comes first, it has the result of `cv::imread` in its
place, whatever the format, and reads the `TDBImage` of the original before it copies that.
The raw binary, the connection and the message of a failed operation stay behind, and of the path
of the array the name.

## Main results

* `copyTo_preserves_iff`: the images that a copy or an assignment preserves.
* `ImageContent.move_iff`: those that a move preserves.
* `copies_preserve_iff`: both.
-/

namespace Vdms

namespace VCL

variable {Mat : Type}

/-- What the operations throw. -/
inductive ImageError where
  | tileDBNotFound | openFailed | objectEmpty | tileDB
deriving DecidableEq

/-- The files and the arrays that images are read from, the sizes of a `cv::Mat`, and what is in
memory behind a buffer. An empty matrix is `none`. -/
structure ImageWorld (Mat : Type) where
  rows : Mat → ℕ
  cols : Mat → ℕ
  channels : Mat → ℕ
  imread : String → Option Mat
  remoteRead : String → Option Mat
  binFile : String → Option (List UInt8)
  array : String → Option TDBArray
  memory : ℕ → UInt8

/-- The members of a `VCL::Image` that the operations use. `remote` is an image with a remote
connection. -/
structure ImageContent (Mat : Type) where
  imageId : String
  cvImg : Option Mat
  tdb : Option TDBImage
  bin : Option (List UInt8)
  binSize : ℕ
  height : ℕ
  width : ℕ
  channels : ℕ
  opCompleted : ℕ
  remote : Bool
  queryErrorResponse : String

/-- A pending operation: a read, or any other, as what its call operator does. -/
inductive ImageOperation (Mat : Type) where
  | read (fullpath : String) (format : Format)
  | other (run : ImageContent Mat → Except ImageError (ImageContent Mat))

/-- An image and its pending operations. -/
structure PendingImage (Mat : Type) where
  content : ImageContent Mat
  operations : List (ImageOperation Mat)

namespace ImageContent

/-- `shallow_copy_cv` and `deep_copy_cv`. An empty matrix has one channel. -/
def withMat (w : ImageWorld Mat) (mat : Option Mat) (c : ImageContent Mat) : ImageContent Mat :=
  { c with
    cvImg := mat
    height := mat.elim 0 w.rows
    width := mat.elim 0 w.cols
    channels := mat.elim 1 w.channels }

/-- `TDBImage::read`, of the array at the image's path. The metadata of an array that is not
there are a `VCL::Exception`, and its schema is one of TileDB. -/
def readTdb (w : ImageWorld Mat) (tdb : TDBImage) : Except ImageError TDBImage :=
  match tdb.rawData with
  | some _ => .ok tdb
  | none =>
    match w.array tdb.arrayName with
    | none => .error (if tdb.height = 0 then .tileDBNotFound else .tileDB)
    | some a =>
      match a.read tdb with
      | .ok tdb => .ok tdb
      | .error _ => .error .tileDB

/-- The getters of the properties. One that is not known is not looked up without a name. -/
def tdbProperties (w : ImageWorld Mat) (tdb : TDBImage) : Except ImageError TDBImage :=
  if tdb.height = 0 ∨ tdb.width = 0 ∨ tdb.channels = 0 then
    if tdb.name = "" then .error .tileDBNotFound
    else match w.array tdb.arrayName with
    | none => .error .tileDBNotFound
    | some a => .ok (a.readImageMetadata tdb)
  else .ok tdb

/-- The call operator of `Read` for an image in the TDB format. -/
def readTdbFormat (w : ImageWorld Mat) (c : ImageContent Mat) :
    Except ImageError (ImageContent Mat) :=
  match c.tdb with
  | none => .error .tileDBNotFound
  | some tdb =>
    match (readTdb w tdb).bind (tdbProperties w) with
    | .error e => .error e
    | .ok tdb => .ok { c with
        tdb := some tdb
        height := tdb.height
        width := tdb.width
        channels := tdb.channels }

/-- The call operator of `Read`. -/
def applyRead (w : ImageWorld Mat) (fullpath : String) (format : Format) (c : ImageContent Mat) :
    Except ImageError (ImageContent Mat) :=
  if format = .tdb then readTdbFormat w c
  else if c.remote = false then
    if format = .bin then
      match w.binFile fullpath with
      | none => .error .openFailed
      | some bytes => .ok { c with bin := some (bytes.take c.binSize) }
    else
      match w.imread fullpath with
      | none => .error .objectEmpty
      | some mat => .ok (c.withMat w (some mat))
  else
    match w.remoteRead fullpath with
    | none => .error .objectEmpty
    | some mat => .ok (c.withMat w (some mat))

/-- An operation's call operator. -/
def applyOperation (w : ImageWorld Mat) (c : ImageContent Mat) :
    ImageOperation Mat → Except ImageError (ImageContent Mat)
  | .read fullpath format => c.applyRead w fullpath format
  | .other run => run c

/-- `memcpy` of the size of the image, from a buffer that may be shorter or longer. -/
def copyBuffer (w : ImageWorld Mat) (size : ℕ) (buffer : List UInt8) : List UInt8 :=
  buffer.take size ++ (List.range (size - buffer.length)).map w.memory

/-- `TDBObject::set_equal` and `TDBImage::set_image_data_equal`, for a new image, and the copy of
the buffer. `_name` is not assigned. -/
def setEqual (w : ImageWorld Mat) (tdb : TDBImage) : TDBImage :=
  { tdb with
    name := ""
    rawData := tdb.rawData.map (copyBuffer w (tdb.height * tdb.width * tdb.channels)) }

/-- The copy of a `TDBImage`, which reads the original and catches a `VCL::Exception`. -/
def copyTdb (w : ImageWorld Mat) (tdb : TDBImage) : Except ImageError TDBImage :=
  match readTdb w tdb with
  | .ok tdb => .ok (setEqual w tdb)
  | .error .tileDB => .error .tileDB
  | .error _ => .ok (setEqual w tdb)

/-- What a new image has before anything is copied to it. -/
def blank : ImageContent Mat where
  imageId := ""
  cvImg := none
  tdb := none
  bin := none
  binSize := 0
  height := 0
  width := 0
  channels := 0
  opCompleted := 0
  remote := false
  queryErrorResponse := ""

/-- The pixels and the members of a copy, before the operations are. -/
def copyMembers (w : ImageWorld Mat) (target c : ImageContent Mat) (tdb : Option TDBImage) :
    ImageContent Mat :=
  let members := { c with
    cvImg := target.cvImg
    tdb := tdb
    bin := none
    binSize := 0
    remote := target.remote
    queryErrorResponse := target.queryErrorResponse }
  match c.cvImg with
  | some mat => members.withMat w (some mat)
  | none => members

/-- The copy of the `TDBImage` that an image has. -/
def copyTdbOf (w : ImageWorld Mat) (c : ImageContent Mat) : Except ImageError (Option TDBImage) :=
  match c.tdb with
  | none => .ok none
  | some tdb => (copyTdb w tdb).map some

end ImageContent

namespace PendingImage

/-- `operator=`, to an image with the members of `target`; the copy constructor is that of a
blank image. -/
def copyTo (w : ImageWorld Mat) (target : ImageContent Mat) (img : PendingImage Mat) :
    Except ImageError (PendingImage Mat) := do
  let tdb ← img.content.copyTdbOf w
  let content := ImageContent.copyMembers w target img.content tdb
  match img.operations with
  | .read _ _ :: operations =>
    pure ⟨content.withMat w (w.imread img.content.imageId), operations⟩
  | operations => pure ⟨content, operations⟩

/-- The move constructor. -/
def move (w : ImageWorld Mat) (img : PendingImage Mat) : PendingImage Mat where
  content :=
    { img.content.withMat w img.content.cvImg with
      bin := none
      binSize := 0
      remote := false
      queryErrorResponse := "" }
  operations := img.operations

/-- `perform_operations`. -/
def performAll (w : ImageWorld Mat) (img : PendingImage Mat) :
    Except ImageError (ImageContent Mat) :=
  img.operations.foldlM (ImageContent.applyOperation w) img.content

end PendingImage

/-- The pixels, the dimensions and the error of an image. -/
structure Shown (Mat : Type) where
  cvImg : Option Mat
  rawData : Option (Option (List UInt8))
  bin : Option (List UInt8)
  height : ℕ
  width : ℕ
  channels : ℕ
  error : String

def ImageContent.shown (c : ImageContent Mat) : Shown Mat :=
  ⟨c.cvImg, c.tdb.map TDBImage.rawData, c.bin, c.height, c.width, c.channels,
    c.queryErrorResponse⟩

/-! ### The state behind the operations -/

/-- The pending operations, the first of which is a read, if any. -/
def withLead (lead : Option (String × Format)) (rest : List (ImageOperation Mat)) :
    List (ImageOperation Mat) :=
  match lead with
  | none => rest
  | some (fullpath, format) => .read fullpath format :: rest

/-- Without a read that comes first, the rest does not start with one. -/
def IsRest (lead : Option (String × Format)) (rest : List (ImageOperation Mat)) : Prop :=
  lead = none → ∀ fullpath format, rest.head? ≠ some (.read fullpath format)

/-- The ways to copy an image. -/
inductive CopyKind (Mat : Type) where
  | construct
  | assign (target : ImageContent Mat)
  | move

/-- The copy of an image. -/
def copyOf (w : ImageWorld Mat) (img : PendingImage Mat) :
    CopyKind Mat → Except ImageError (PendingImage Mat)
  | .construct => img.copyTo w .blank
  | .assign target => img.copyTo w target
  | .move => .ok (img.move w)

/-- Whatever operations are pending behind a read, or from the start, the copy comes to what
the original comes to. -/
def Preserves (w : ImageWorld Mat) (kind : CopyKind Mat) (c : ImageContent Mat)
    (lead : Option (String × Format)) : Prop :=
  ∀ rest, IsRest lead rest →
    ((copyOf w ⟨c, withLead lead rest⟩ kind).bind (PendingImage.performAll w)).map
        ImageContent.shown =
      (PendingImage.performAll w ⟨c, withLead lead rest⟩).map ImageContent.shown

/-- The image once the read that comes first has been done. -/
def afterLead (w : ImageWorld Mat) (c : ImageContent Mat) :
    Option (String × Format) → Except ImageError (ImageContent Mat)
  | none => .ok c
  | some (fullpath, format) => c.applyRead w fullpath format

/-- A copy by construction or assignment at the same point. -/
def copyAfterLead (w : ImageWorld Mat) (target c : ImageContent Mat)
    (lead : Option (String × Format)) : Except ImageError (ImageContent Mat) :=
  (c.copyTdbOf w).map fun tdb =>
    let content := ImageContent.copyMembers w target c tdb
    match lead with
    | none => content
    | some _ => content.withMat w (w.imread c.imageId)

section Lead

variable {w : ImageWorld Mat} {target c c' : ImageContent Mat} {lead : Option (String × Format)}
  {rest : List (ImageOperation Mat)} {x y : Except ImageError (ImageContent Mat)}

/-- Performing the operations is the leading read and then the others, in order. -/
theorem performAll_withLead :
    PendingImage.performAll w ⟨c, withLead lead rest⟩ =
      (afterLead w c lead).bind fun c => rest.foldlM (ImageContent.applyOperation w) c := by
  cases lead with
  | none => rfl
  | some p => rw [PendingImage.performAll, withLead, List.foldlM_cons]; rfl

/-- Performing the operations of a copy is the copy of the leading read and then the others. -/
theorem copyTo_withLead (hrest : IsRest lead rest) :
    (PendingImage.copyTo w target ⟨c, withLead lead rest⟩).bind (PendingImage.performAll w) =
      (copyAfterLead w target c lead).bind fun c =>
        rest.foldlM (ImageContent.applyOperation w) c := by
  rw [PendingImage.copyTo, copyAfterLead]
  dsimp only
  cases c.copyTdbOf w with
  | error e => rfl
  | ok tdb =>
    cases lead with
    | some p => rfl
    | none =>
      cases rest with
      | nil => rfl
      | cons op rest =>
        cases op with
        | other run => rfl
        | read fullpath format => exact absurd rfl (hrest rfl fullpath format)

/-- A single operation is performed as it is. -/
theorem run_other {run : ImageContent Mat → Except ImageError (ImageContent Mat)} :
    ((Except.ok c).bind fun c => [ImageOperation.other run].foldlM
      (ImageContent.applyOperation w) c) = run c := by
  change ([ImageOperation.other run].foldlM (ImageContent.applyOperation w) c) = run c
  rw [List.foldlM_cons, ImageContent.applyOperation]
  cases run c <;> rfl

/-- Two states come to the same by all operations only if they are the same: there is an
operation that fails for one of them. -/
theorem outcomes_iff (lead : Option (String × Format)) :
    (∀ rest, IsRest lead rest →
        (x.bind fun c => rest.foldlM (ImageContent.applyOperation w) c).map ImageContent.shown =
          (y.bind fun c => rest.foldlM (ImageContent.applyOperation w) c).map
            ImageContent.shown) ↔
      x = y := by
  classical
  constructor
  · intro h
    have hnothing := h [] fun _ _ _ => by simp
    cases x with
    | error e =>
      cases y with
      | error e' => exact congrArg _ (Except.error.inj hnothing)
      | ok c => cases hnothing
    | ok c =>
      cases y with
      | error e => cases hnothing
      | ok c' =>
        by_contra hne
        have hfail := h [.other fun d => if d = c then .error .objectEmpty else .ok d]
          fun _ _ _ => by simp
        have hother : ¬ c' = c := fun heq => hne (congrArg _ heq.symm)
        rw [run_other, run_other, if_pos rfl, if_neg hother] at hfail
        cases hfail
  · rintro rfl rest _
    rfl

end Lead

/-! ### What a copy keeps -/

namespace ImageContent

/-- What a copy does not take over is as the target has it. -/
structure Plain (target c : ImageContent Mat) : Prop where
  bin : c.bin = none
  binSize : c.binSize = 0
  remote : c.remote = target.remote
  error : c.queryErrorResponse = target.queryErrorResponse

/-- The dimensions are those of a matrix. -/
structure HasSize (w : ImageWorld Mat) (c : ImageContent Mat) (mat : Option Mat) : Prop where
  height : c.height = mat.elim 0 w.rows
  width : c.width = mat.elim 0 w.cols
  channels : c.channels = mat.elim 1 w.channels

/-- A copy of this `TDBImage` has all of it: no name, and a buffer of the size of the image. -/
structure Nameless (tdb : TDBImage) : Prop where
  name : tdb.name = ""
  data : ∀ data, tdb.rawData = some data → data.length = tdb.height * tdb.width * tdb.channels

/-- The copy does not change the `TDBImage`: it has no name, and it has been read, or cannot
be. -/
def TdbStays (w : ImageWorld Mat) (c : ImageContent Mat) : Prop :=
  ∀ tdb, c.tdb = some tdb →
    Nameless tdb ∧ (tdb.rawData ≠ none ∨ readTdb w tdb = .error .tileDBNotFound)

/-- The images that a copy to a target preserves. Without a read: those with their pixels at
hand. With one: those whose file `cv::imread` can read, whatever is done with a file or with the
array that cannot be opened. -/
def CopyKeeps (w : ImageWorld Mat) (target c : ImageContent Mat) :
    Option (String × Format) → Prop
  | none =>
    Plain target c ∧ TdbStays w c ∧
      (c.cvImg = none ∧ target.cvImg = none ∨ c.cvImg ≠ none ∧ HasSize w c c.cvImg)
  | some (fullpath, format) =>
    if format = .tdb then
      ∃ tdb, c.tdb = some tdb ∧
        (readTdb w tdb = .error .tileDB ∨
          ∃ tdb', readTdb w tdb = .ok tdb' ∧ tdbProperties w tdb' = .ok tdb' ∧ Nameless tdb' ∧
            Plain target c ∧ w.imread c.imageId = c.cvImg ∧
            tdb'.height = c.cvImg.elim 0 w.rows ∧ tdb'.width = c.cvImg.elim 0 w.cols ∧
              tdb'.channels = c.cvImg.elim 1 w.channels)
    else
      (c.remote = false → format ≠ .bin) ∧ Plain target c ∧ TdbStays w c ∧
        ∃ mat, (if c.remote = false then w.imread fullpath else w.remoteRead fullpath) = some mat ∧
          w.imread c.imageId = some mat

/-- The images that a move preserves: it leaves the read to be done, but not the connection to
read with, nor the dimensions of an image that has no matrix. -/
def MoveKeeps (w : ImageWorld Mat) (c : ImageContent Mat) : Option (String × Format) → Prop
  | none => Plain blank c ∧ HasSize w c c.cvImg
  | some (fullpath, format) =>
    if format = .tdb then (∃ e, readTdbFormat w c = .error e) ∨ Plain blank c
    else if c.remote = false then
      if format = .bin then
        w.binFile fullpath = none ∨
          c.binSize = 0 ∧ c.queryErrorResponse = "" ∧ HasSize w c c.cvImg
      else w.imread fullpath = none ∨ Plain blank c
    else format ≠ .bin ∧ w.remoteRead fullpath = none ∧ w.imread fullpath = none

section Copy

variable {w : ImageWorld Mat} {target c : ImageContent Mat} {tdb tdb' : TDBImage}
  {fullpath : String} {format : Format}

/-- A TDB image with data is not read again. -/
theorem readTdb_of_data (h : tdb.rawData ≠ none) : readTdb w tdb = .ok tdb := by
  obtain ⟨data, hdata⟩ := Option.ne_none_iff_exists'.1 h
  rw [readTdb, hdata]

/-- A read gives pixels. -/
theorem rawData_of_readFromTdb {a : TDBArray} {cells : List (ℕ × ℕ)}
    (h : a.readFromTdb cells tdb = .ok tdb') : tdb'.rawData ≠ none := by
  rw [TDBArray.readFromTdb] at h
  dsimp only at h
  by_cases hinside : a.Inside cells
  · rw [if_pos hinside] at h
    split at h
    all_goals
      obtain rfl := Except.ok.inj h
      simp
  · rw [if_neg hinside] at h
    cases h

/-- An array that has been read has data. -/
theorem rawData_of_read {a : TDBArray} (h : a.read tdb = .ok tdb') : tdb'.rawData ≠ none := by
  rw [TDBArray.read] at h
  split at h
  next data hdata =>
    obtain rfl := Except.ok.inj h
    rw [hdata]
    simp
  next => exact rawData_of_readFromTdb h

/-- A TDB image that has been read has data. -/
theorem rawData_of_readTdb (h : readTdb w tdb = .ok tdb') : tdb'.rawData ≠ none := by
  rw [readTdb] at h
  split at h
  next data hdata =>
    obtain rfl := Except.ok.inj h
    rw [hdata]
    simp
  next =>
    split at h
    · cases h
    · split at h
      next hread =>
        obtain rfl := Except.ok.inj h
        exact rawData_of_read hread
      · cases h

/-- The read of a TDB image fails for the file or for TileDB. -/
theorem readTdb_error {e : ImageError} (h : readTdb w tdb = .error e) :
    e = .tileDBNotFound ∨ e = .tileDB := by
  rw [readTdb] at h
  split at h
  · cases h
  · split at h
    · obtain rfl := Except.error.inj h
      split
      · exact .inl rfl
      · exact .inr rfl
    · split at h
      · cases h
      · exact .inr (Except.error.inj h).symm

/-- The copy of a buffer is the buffer exactly if the size is its length. -/
theorem copyBuffer_eq_iff {size : ℕ} {buffer : List UInt8} :
    copyBuffer w size buffer = buffer ↔ buffer.length = size := by
  constructor
  · intro h
    have hlength := congrArg List.length h
    simp only [copyBuffer, List.length_append, List.length_take, List.length_map,
      List.length_range] at hlength
    omega
  · rintro rfl
    simp [copyBuffer]

/-- `set_equal` keeps a TDB image as it is exactly if it has no name. -/
theorem setEqual_eq_iff : setEqual w tdb = tdb ↔ Nameless tdb := by
  obtain ⟨group, name, height, width, channels, size, threshold, rawData, _, _, _, _⟩ := tdb
  simp only [setEqual, TDBImage.mk.injEq, true_and, and_true]
  constructor
  · rintro ⟨rfl, hdata⟩
    refine ⟨rfl, fun data hsome => ?_⟩
    obtain rfl : rawData = some data := hsome
    exact copyBuffer_eq_iff.1 (Option.some.inj hdata)
  · rintro ⟨hname, hdata⟩
    refine ⟨hname.symm, ?_⟩
    cases rawData with
    | none => rfl
    | some data => exact congrArg some (copyBuffer_eq_iff.2 (hdata data rfl))

/-- `set_equal` keeps whether there is data. -/
theorem rawData_setEqual : (setEqual w tdb).rawData = none ↔ tdb.rawData = none := by
  simp [setEqual]

/-- The copy of the `TDBImage` is the image's own exactly if it stays. -/
theorem copyTdbOf_eq_iff : c.copyTdbOf w = .ok c.tdb ↔ TdbStays w c := by
  rw [copyTdbOf, TdbStays]
  cases htdb : c.tdb with
  | none => simp
  | some tdb =>
    simp only [Option.some.injEq, forall_eq']
    by_cases hdata : tdb.rawData = none
    · cases hread : readTdb w tdb with
      | ok tdb' =>
        have hne : setEqual w tdb' ≠ tdb := by
          intro heq
          exact rawData_of_readTdb hread (rawData_setEqual.1 (heq ▸ hdata))
        simp [copyTdb, hread, hdata, Except.map, hne]
      | error e =>
        rcases readTdb_error hread with rfl | rfl
        · simp [copyTdb, hread, Except.map, setEqual_eq_iff]
        · simp [copyTdb, hread, hdata, Except.map]
    · have hread := readTdb_of_data (w := w) hdata
      simp [copyTdb, hread, hdata, Except.map, setEqual_eq_iff]

/-- A copy of an image that has no read to do first. -/
theorem copy_start_iff :
    copyAfterLead w target c none = afterLead w c none ↔ CopyKeeps w target c none := by
  rw [copyAfterLead, afterLead, CopyKeeps, ← copyTdbOf_eq_iff]
  cases hcopy : c.copyTdbOf w with
  | error e => simp [Except.map]
  | ok tdb =>
    obtain ⟨imageId, cvImg, tdb₀, bin, binSize, height, width, channels, opCompleted, remote,
      error⟩ := c
    simp only [Except.map, Except.ok.injEq]
    cases cvImg with
    | none =>
      simp only [copyMembers, ImageContent.mk.injEq]
      constructor
      · rintro ⟨-, hcv, htdb, hbin, hsize, -, -, -, -, hremote, herror⟩
        exact ⟨⟨hbin.symm, hsize.symm, hremote.symm, herror.symm⟩, htdb, .inl ⟨trivial, hcv⟩⟩
      · rintro ⟨⟨hbin, hsize, hremote, herror⟩, htdb, ⟨-, hcv⟩ | ⟨hne, -⟩⟩
        · exact ⟨trivial, hcv, htdb, hbin.symm, hsize.symm, trivial, trivial, trivial, trivial,
            hremote.symm, herror.symm⟩
        · exact absurd rfl hne
    | some mat =>
      simp only [copyMembers, withMat, ImageContent.mk.injEq]
      constructor
      · rintro ⟨-, -, htdb, hbin, hsize, hheight, hwidth, hchannels, -, hremote, herror⟩
        exact ⟨⟨hbin.symm, hsize.symm, hremote.symm, herror.symm⟩, htdb,
          .inr ⟨by simp, hheight.symm, hwidth.symm, hchannels.symm⟩⟩
      · rintro ⟨⟨hbin, hsize, hremote, herror⟩, htdb, ⟨hne, -⟩ | ⟨-, hheight, hwidth, hchannels⟩⟩
        · cases hne
        · exact ⟨trivial, trivial, htdb, hbin.symm, hsize.symm, hheight.symm, hwidth.symm,
            hchannels.symm, trivial, hremote.symm, herror.symm⟩

/-- The copy's image in the place of a read, as the members say. -/
theorem copyMembers_withMat {tdb : Option TDBImage} (mat : Option Mat) :
    (copyMembers w target c tdb).withMat w mat =
      { c with
        cvImg := mat
        tdb := tdb
        bin := none
        binSize := 0
        height := mat.elim 0 w.rows
        width := mat.elim 0 w.cols
        channels := mat.elim 1 w.channels
        remote := target.remote
        queryErrorResponse := target.queryErrorResponse } := by
  rw [copyMembers]
  cases c.cvImg <;> rfl

/-- A read that gives a matrix, and the copy's matrix in its place. -/
theorem withMat_eq_iff {tdb : Option TDBImage} {mat mat' : Option Mat} :
    (copyMembers w target c tdb).withMat w mat' = c.withMat w mat ↔
      mat' = mat ∧ tdb = c.tdb ∧ Plain target c := by
  rw [copyMembers_withMat, withMat, ImageContent.mk.injEq]
  constructor
  · rintro ⟨-, hmat, htdb, hbin, hsize, -, -, -, -, hremote, herror⟩
    exact ⟨hmat, htdb, hbin.symm, hsize.symm, hremote.symm, herror.symm⟩
  · rintro ⟨rfl, htdb, hbin, hsize, hremote, herror⟩
    exact ⟨rfl, rfl, htdb, hbin.symm, hsize.symm, rfl, rfl, rfl, rfl, hremote.symm, herror.symm⟩

/-- A copy of an image in another format than TDB whose read comes first. -/
theorem copy_lead_iff (hformat : format ≠ .tdb) :
    copyAfterLead w target c (some (fullpath, format)) =
        afterLead w c (some (fullpath, format)) ↔
      CopyKeeps w target c (some (fullpath, format)) := by
  have hread : ∀ mat', (c.copyTdbOf w).map (fun tdb =>
        (copyMembers w target c tdb).withMat w (w.imread c.imageId)) =
          .ok (c.withMat w (some mat')) ↔
      w.imread c.imageId = some mat' ∧ TdbStays w c ∧ Plain target c := by
    intro mat'
    rw [← copyTdbOf_eq_iff]
    cases c.copyTdbOf w with
    | error e => simp [Except.map]
    | ok tdb => simp only [Except.map, Except.ok.injEq, withMat_eq_iff]
  have herror : ∀ e, (e = .openFailed ∨ e = .objectEmpty) → ¬ (c.copyTdbOf w).map (fun tdb =>
      (copyMembers w target c tdb).withMat w (w.imread c.imageId)) = .error e := by
    intro e he h
    cases htdb : c.tdb with
    | none => simp [copyTdbOf, htdb, Except.map] at h
    | some tdb =>
      have hcopy : copyTdb w tdb = .error e := by
        cases hcopy : copyTdb w tdb with
        | ok tdb' => simp [copyTdbOf, htdb, hcopy, Except.map] at h
        | error e' =>
          simp only [copyTdbOf, htdb, hcopy, Except.map, Except.error.injEq] at h
          rw [h]
      rw [copyTdb] at hcopy
      split at hcopy
      · cases hcopy
      · obtain rfl := Except.error.inj hcopy
        rcases he with he | he <;> cases he
      · cases hcopy
  rw [copyAfterLead, afterLead, CopyKeeps, if_neg hformat, applyRead, if_neg hformat]
  dsimp only
  cases hremote : c.remote with
  | false =>
    rw [if_pos rfl]
    by_cases hbin : format = .bin
    · rw [if_pos hbin]
      refine iff_of_false ?_ fun h => h.1 rfl hbin
      cases w.binFile fullpath with
      | none => exact herror _ (.inl rfl)
      | some bytes =>
        intro h
        cases hcopy : c.copyTdbOf w with
        | error e => simp [hcopy, Except.map] at h
        | ok tdb =>
          simp only [hcopy, Except.map, Except.ok.injEq, copyMembers_withMat,
            ImageContent.mk.injEq] at h
          exact absurd h.2.2.2.1 (by simp)
    · rw [if_neg hbin]
      simp only [hbin, ne_eq, not_false_eq_true, implies_true, true_and, if_true]
      cases himread : w.imread fullpath with
      | none => exact iff_of_false (herror _ (.inr rfl)) fun h => by simp at h
      | some mat =>
        rw [hread]
        constructor
        · rintro ⟨hsame, hstays, hplain⟩
          exact ⟨hplain, hstays, mat, rfl, hsame⟩
        · rintro ⟨hplain, hstays, mat', hmat, hsame⟩
          obtain rfl := Option.some.inj hmat
          exact ⟨hsame, hstays, hplain⟩
  | true =>
    simp only [Bool.true_eq_false, if_false, false_imp_iff, true_and]
    cases hremoteRead : w.remoteRead fullpath with
    | none => exact iff_of_false (herror _ (.inr rfl)) fun h => by simp at h
    | some mat =>
      dsimp only
      rw [hread]
      constructor
      · rintro ⟨hsame, hstays, hplain⟩
        exact ⟨hplain, hstays, mat, rfl, hsame⟩
      · rintro ⟨hplain, hstays, mat', hmat, hsame⟩
        obtain rfl := Option.some.inj hmat
        exact ⟨hsame, hstays, hplain⟩

/-- Without a name no property is looked up. -/
theorem stays_of_setEqual {tdb'' : TDBImage} (hprops : tdbProperties w tdb' = .ok tdb'')
    (h : setEqual w tdb' = tdb'') : tdb'' = tdb' := by
  rw [tdbProperties] at hprops
  split at hprops
  · split at hprops
    · cases hprops
    next hname =>
      split at hprops
      · cases hprops
      · obtain rfl := Except.ok.inj hprops
        exact absurd (congrArg TDBImage.name h).symm hname
  · exact (Except.ok.inj hprops).symm

/-- A copy of an image in the TDB format whose read comes first. -/
theorem copy_tdb_iff :
    copyAfterLead w target c (some (fullpath, .tdb)) = afterLead w c (some (fullpath, .tdb)) ↔
      CopyKeeps w target c (some (fullpath, .tdb)) := by
  rw [copyAfterLead, afterLead, CopyKeeps, if_pos rfl, applyRead, if_pos rfl, readTdbFormat]
  cases htdb : c.tdb with
  | none => simp [copyTdbOf, htdb, Except.map]
  | some tdb =>
    simp only [Option.some.injEq, exists_eq_left']
    cases hread : readTdb w tdb with
    | error e =>
      rcases readTdb_error hread with rfl | rfl
      · simp [copyTdbOf, htdb, copyTdb, hread, Except.map, Except.bind]
      · simp [copyTdbOf, htdb, copyTdb, hread, Except.map, Except.bind]
    | ok tdb' =>
      have hcopy : c.copyTdbOf w = .ok (some (setEqual w tdb')) := by
        simp [copyTdbOf, htdb, copyTdb, hread, Except.map]
      simp only [hcopy, Except.map, Except.bind, copyMembers_withMat, reduceCtorEq, false_or,
        Except.ok.injEq, exists_eq_left']
      cases hprops : tdbProperties w tdb' with
      | error e => simp
      | ok tdb'' =>
        simp only [Except.ok.injEq, ImageContent.mk.injEq, true_and, Option.some.injEq]
        rw [← setEqual_eq_iff (w := w)]
        constructor
        · rintro ⟨hmat, hequal, hbin, hsize, hheight, hwidth, hchannels, hremote, herror⟩
          have hsame : tdb'' = tdb' := stays_of_setEqual hprops hequal
          rw [← hmat]
          rw [hsame] at hequal hheight hwidth hchannels
          exact ⟨hsame, hequal, ⟨hbin.symm, hsize.symm, hremote.symm, herror.symm⟩, rfl,
            hheight.symm, hwidth.symm, hchannels.symm⟩
        · rintro ⟨rfl, hequal, ⟨hbin, hsize, hremote, herror⟩, hmat, hheight, hwidth, hchannels⟩
          rw [hmat]
          exact ⟨rfl, hequal, hbin.symm, hsize.symm, hheight.symm, hwidth.symm, hchannels.symm,
            hremote.symm, herror.symm⟩

/-- The members of an image that is moved. -/
theorem move_content {rest : List (ImageOperation Mat)} :
    (PendingImage.move w ⟨c, rest⟩).content =
      { c with
        bin := none
        binSize := 0
        height := c.cvImg.elim 0 w.rows
        width := c.cvImg.elim 0 w.cols
        channels := c.cvImg.elim 1 w.channels
        remote := false
        queryErrorResponse := "" } := rfl

/-- A move of an image, at the point where a read that comes first has been done. -/
theorem move_iff {lead : Option (String × Format)} (rest : List (ImageOperation Mat)) :
    afterLead w (PendingImage.move w ⟨c, rest⟩).content lead = afterLead w c lead ↔
      MoveKeeps w c lead := by
  rw [move_content]
  rcases lead with _ | ⟨fullpath, format⟩
  · obtain ⟨imageId, cvImg, tdb, bin, binSize, height, width, channels, opCompleted, remote,
      error⟩ := c
    simp only [afterLead, Except.ok.injEq, ImageContent.mk.injEq, MoveKeeps, true_and]
    constructor
    · rintro ⟨hbin, hsize, hheight, hwidth, hchannels, hremote, herror⟩
      exact ⟨⟨hbin.symm, hsize.symm, hremote.symm, herror.symm⟩, hheight.symm, hwidth.symm,
        hchannels.symm⟩
    · rintro ⟨⟨hbin, hsize, hremote, herror⟩, hheight, hwidth, hchannels⟩
      exact ⟨hbin.symm, hsize.symm, hheight.symm, hwidth.symm, hchannels.symm, hremote.symm,
        herror.symm⟩
  have hplain : (c.bin = none ∧ c.binSize = 0 ∧ c.remote = false ∧ c.queryErrorResponse = "") ↔
      Plain blank c := ⟨fun ⟨h, h', h'', h'''⟩ => ⟨h, h', h'', h'''⟩,
    fun h => ⟨h.bin, h.binSize, h.remote, h.error⟩⟩
  rw [afterLead, afterLead, applyRead, applyRead, MoveKeeps]
  by_cases htdb : format = .tdb
  · rw [if_pos htdb, if_pos htdb, if_pos htdb, readTdbFormat, readTdbFormat]
    dsimp only
    cases c.tdb with
    | none => simp
    | some tdb =>
      dsimp only
      cases (readTdb w tdb).bind (tdbProperties w) with
      | error e => simp
      | ok tdb =>
        simp only [Except.ok.injEq, ImageContent.mk.injEq, true_and, reduceCtorEq, exists_false,
          false_or, ← hplain, eq_comm]
  rw [if_neg htdb, if_neg htdb, if_neg htdb]
  dsimp only
  rw [if_pos rfl]
  cases hremote : c.remote with
  | false =>
    rw [if_pos rfl, if_pos rfl]
    by_cases hbin : format = .bin
    · rw [if_pos hbin, if_pos hbin, if_pos hbin]
      cases w.binFile fullpath with
      | none => simp
      | some bytes =>
        simp only [Except.ok.injEq, ImageContent.mk.injEq, true_and, reduceCtorEq, false_or,
          List.take_zero, Option.some.injEq]
        constructor
        · rintro ⟨-, hsize, hheight, hwidth, hchannels, herror⟩
          exact ⟨hsize.symm, herror.symm, hheight.symm, hwidth.symm, hchannels.symm⟩
        · rintro ⟨hsize, herror, hheight, hwidth, hchannels⟩
          rw [hsize]
          exact ⟨rfl, rfl, hheight.symm, hwidth.symm, hchannels.symm, herror.symm⟩
    · rw [if_neg hbin, if_neg hbin, if_neg hbin]
      cases w.imread fullpath with
      | none => simp
      | some mat =>
        simp only [withMat, Except.ok.injEq, ImageContent.mk.injEq, true_and, reduceCtorEq,
          false_or, ← hplain, eq_comm]
  | true =>
    simp only [Bool.true_eq_false, if_false]
    by_cases hbin : format = .bin
    · rw [if_pos hbin]
      refine iff_of_false ?_ fun h => h.1 hbin
      cases w.binFile fullpath <;> cases w.remoteRead fullpath <;> simp [withMat, hremote]
    · rw [if_neg hbin]
      cases w.imread fullpath <;> cases w.remoteRead fullpath <;> simp [withMat, hbin, hremote]

end Copy

end ImageContent

section Kinds

variable {w : ImageWorld Mat} {target c : ImageContent Mat} {lead : Option (String × Format)}

/-- The images that a copy preserves. -/
def Keeps (w : ImageWorld Mat) (c : ImageContent Mat) (lead : Option (String × Format)) :
    CopyKind Mat → Prop
  | .construct => ImageContent.CopyKeeps w .blank c lead
  | .assign target => ImageContent.CopyKeeps w target c lead
  | .move => ImageContent.MoveKeeps w c lead

/-- The copy does what the original does exactly under the condition on its content. -/
theorem copyAfterLead_iff :
    copyAfterLead w target c lead = afterLead w c lead ↔
      ImageContent.CopyKeeps w target c lead := by
  rcases lead with _ | ⟨fullpath, format⟩
  · exact ImageContent.copy_start_iff
  · by_cases hformat : format = .tdb
    · subst hformat
      exact ImageContent.copy_tdb_iff
    · exact ImageContent.copy_lead_iff hformat

/-- Whatever operations follow, the copy shows what the original shows exactly under it. -/
theorem copyTo_preserves_iff :
    (∀ rest, IsRest lead rest →
      ((PendingImage.copyTo w target ⟨c, withLead lead rest⟩).bind
          (PendingImage.performAll w)).map ImageContent.shown =
        (PendingImage.performAll w ⟨c, withLead lead rest⟩).map ImageContent.shown) ↔
      ImageContent.CopyKeeps w target c lead := by
  rw [← copyAfterLead_iff, ← outcomes_iff (w := w) lead]
  refine forall₂_congr fun rest hrest => ?_
  rw [copyTo_withLead hrest, performAll_withLead]

/-- **Copies.** The copy of an image comes to what the image comes to, whatever operations are
pending, exactly if the image is one that this kind of copy keeps. -/
theorem copies_preserve_iff (kind : CopyKind Mat) :
    Preserves w kind c lead ↔ Keeps w c lead kind := by
  cases kind with
  | construct => exact copyTo_preserves_iff
  | assign target => exact copyTo_preserves_iff
  | move =>
    rw [Keeps, ← ImageContent.move_iff [], ← outcomes_iff (w := w) lead]
    refine forall₂_congr fun rest hrest => ?_
    have hmove : ((copyOf w ⟨c, withLead lead rest⟩ .move).bind (PendingImage.performAll w)) =
        PendingImage.performAll w
          ⟨(PendingImage.move w ⟨c, []⟩).content, withLead lead rest⟩ := rfl
    rw [hmove, performAll_withLead, performAll_withLead]

end Kinds

/-- A file system with the array of four pixels, and no file that `cv::imread` could read. -/
def arrayWorld : ImageWorld Unit where
  rows := fun _ => 1
  cols := fun _ => 1
  channels := fun _ => 1
  imread := fun _ => none
  remoteRead := fun _ => none
  binFile := fun _ => none
  array := fun path => if path = "four" then some fourPixels else none
  memory := fun _ => 0

/-- The image of the array, new. -/
def newImage : ImageContent Unit :=
  { ImageContent.blank with imageId := "four", tdb := some (TDBImage.construct "four") }

/-- The image of the array has one row and four columns once its read has been performed. The
copy of it has none. -/
theorem copy_loses_size :
    (PendingImage.performAll arrayWorld ⟨newImage, [.read "four" .tdb]⟩).toOption.map
        (fun c => (c.height, c.width)) = some (1, 4) ∧
      ((copyOf arrayWorld ⟨newImage, [.read "four" .tdb]⟩ .construct).bind
        (PendingImage.performAll arrayWorld)).toOption.map (fun c => (c.height, c.width)) =
        some (0, 0) ∧
      ¬ Preserves arrayWorld .construct newImage (some ("four", .tdb)) := by
  have hleft : (PendingImage.performAll arrayWorld ⟨newImage, [.read "four" .tdb]⟩).toOption.map
      (fun c => (c.height, c.width)) = some (1, 4) := by rfl
  have hright : ((copyOf arrayWorld ⟨newImage, [.read "four" .tdb]⟩ .construct).bind
      (PendingImage.performAll arrayWorld)).toOption.map (fun c => (c.height, c.width)) =
      some (0, 0) := by rfl
  refine ⟨hleft, hright, fun h => ?_⟩
  have hsame := h [] fun hnone => by cases hnone
  have hsize := congrArg
    (fun r : Except ImageError (Shown Unit) => r.toOption.map fun s => (s.height, s.width)) hsame
  cases hsize

end VCL

end Vdms
