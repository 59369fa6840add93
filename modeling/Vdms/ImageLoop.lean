import Vdms.EventLoop
import Vdms.QueryHandlerPMGD
import Vdms.TableScan

/-!
# The Event Loop of Images

`VCL::Image` with its operations, and `ImageLoop`, the event loop of `FindImage`. The loop
is ended by the operation thread as soon as it finds both buffers empty, although the caller
may not have enqueued all of its images, and although the remote thread may have images at
hand and not have said so.

## Main results

* `ImageLoop.loop_complete`: if the loop is ended only when no image is in flight, then the
  map of a loop that has stopped has every image, with all of its operations applied once
  and in order, or with its error.
* `ImageLoop.ends_early`: a run in which an image is left in a buffer.
-/

namespace Vdms

open Relation
open Std (TreeMap)

namespace VCL

/-- `VCL::Format`. -/
inductive Format where
  | noneImage | jpg | png | tdb | bin
deriving DecidableEq

/-- What an operation throws: a `VCL::Exception` has a message. -/
abbrev Message := { msg : String // msg ≠ "" }

/-- The operations of an image, with the JSON objects that describe them. `apply` is one
that the operation thread applies. -/
inductive Operation where
  | read
  | apply (op : Json)
  | remote (op : Json)

def Operation.isRead : Operation → Bool
  | .read => true
  | _ => false

def Operation.isRemote : Operation → Bool
  | .remote _ => true
  | _ => false

/-- `VCL::Image`. The pixels are those of `_cv_img` or, in the TDB format, of `_tdb`; an
empty matrix is `none`. -/
structure Image (Mat : Type) where
  imageId : String
  format : Format
  pixels : Option Mat
  operations : List Operation
  opCompleted : ℕ
  queryErrorResponse : String

/-- The libraries and services that images depend on. -/
structure Library (Mat : Type) where
  /-- `cv::imread`. -/
  imread : String → Option Mat
  /-- The array of a `TDBImage`. -/
  tdbImage : String → Option Mat
  /-- What an operation makes of pixels. -/
  perform : Format → Json → Mat → Except Message (Option Mat) → Prop
  /-- The decoded answer of the remote service. -/
  answer : Json → Mat → Option Mat → Prop
  /-- `custom_vcl_function`: `none` if it fails. -/
  custom : Json → Image Mat → Option Mat
  /-- The content of a file in the binary format. -/
  readFile : String → Bytes
  /-- `cv::imencode`. -/
  imencode : Format → Mat → Bytes

/-- The position of the last occurrence. -/
def findLastOf (c : UInt8) (s : Bytes) : Option ℕ :=
  (s.reverse.findIdx? (· == c)).map fun i => s.length - 1 - i

/-- `get_extension`. Without a slash, `npos + 2` is 1. -/
def getExtension (objectId : String) : Except String Bytes :=
  let s := objectId.toUTF8.data.toList
  match findLastOf 46 s with
  | none => .ok []
  | some fileExt =>
      if (match findLastOf 47 s with
          | some dirExt => dirExt + 2
          | none => 1) < fileExt then
        .ok (s.drop (fileExt + 1))
      else .error (objectId ++ " does not have a valid extension")

/-- `Image::set_format`. -/
def formatOf (extension : Bytes) : Except String Format :=
  if extension = "jpg".toUTF8.data.toList then .ok .jpg
  else if extension = "png".toUTF8.data.toList then .ok .png
  else if extension = "tdb".toUTF8.data.toList then .ok .tdb
  else if extension = "bin".toUTF8.data.toList then .ok .bin
  else .error "is not a supported format"

namespace Image

variable {Mat : Type} (L : Library Mat)

/-- `VCL::Image img(path)`. The format is that of the extension, so that the full path is
the path itself. -/
def new (path : String) : Except String (Image Mat) := do
  let extension ← getExtension path
  let format ← formatOf extension
  if path = "" then throw "Location to write object is undefined"
  return {
    imageId := path
    format := format
    pixels := if format = .tdb then L.tdbImage path else none
    operations := [.read]
    opCompleted := 0
    queryErrorResponse := "" }

/-- The copy constructor: an image that is to be read is read. -/
def copy (img : Image Mat) : Image Mat :=
  match img.operations with
  | .read :: rest =>
      { img with
        pixels := if img.format = .tdb then img.pixels else L.imread img.imageId
        operations := rest
        queryErrorResponse := "" }
  | _ => { img with queryErrorResponse := "" }

/-- `(*op)(this)`. A copy has been read, so that `read` is not met. -/
inductive Operate : Operation → Image Mat → Image Mat → Prop where
  | applied {op img m result} : img.pixels = some m → L.perform img.format op m (.ok result) →
      Operate (.apply op) img
        { img with pixels := result, opCompleted := img.opCompleted + 1 }
  | thrown {op img m} {msg : Message} : img.pixels = some m →
      L.perform img.format op m (.error msg) →
      Operate (.apply op) img { img with queryErrorResponse := msg }
  | empty {op img} : img.pixels = none →
      Operate (.apply op) img { img with queryErrorResponse := "Image object is empty" }
  | remote {op img m} : img.format ≠ .tdb → img.pixels = some m → Operate (.remote op) img img
  | remoteEmpty {op img} : img.format ≠ .tdb → img.pixels = none →
      Operate (.remote op) img { img with queryErrorResponse := "Image object is empty" }
  | remoteTdb {op img} : img.format = .tdb →
      Operate (.remote op) img
        { img with queryErrorResponse := "Operation not supported for this format" }

/-- One turn of the loop over the operations: `execute_operation`, and what its result -1,
-2 or 0 leads to. -/
inductive Turn (img : Image Mat) : Vdms.Turn (Image Mat) → Prop where
  | done : img.operations.length ≤ img.opCompleted → Turn img .done
  | execute {op img'} : img.operations[img.opCompleted]? = some op → Operate L op img img' →
      Turn img
        (if img'.queryErrorResponse ≠ "" then .failed img'
         else if op.isRemote then .remote img'
         else .applied img')

end Image

end VCL

open VCL

/-- `ImageCommand::enqueue_operations`, for one operation; `none` is its result -1. A custom
function is applied at once, to the image with the operations before it. -/
def ImageCommand.enqueueOperation [Platform] {Mat : Type} (L : Library Mat) (img : Image Mat)
    (op : Json) : Except QueryError (Option (Image Mat)) := do
  let type ← getValue Json.asString op "type" ""
  if type = "crop" then
    let operations :=
      if img.format = .tdb ∧ img.operations.length = 1 then [] else img.operations
    return some { img with operations := operations ++ [.apply op] }
  else if type ∈ ["threshold", "resize", "flip", "rotate", "syncremoteOp", "userOp"] then
    return some { img with operations := img.operations ++ [.apply op] }
  else if type = "remoteOp" then
    return some { img with operations := img.operations ++ [.remote op] }
  else if type = "custom" then
    return (L.custom op img).map fun m => { img with operations := [], pixels := some m }
  else throw (.exceptionCommand "Operation not defined")

/-- `ImageCommand::enqueue_operations`. -/
def ImageCommand.enqueueOperations [Platform] {Mat : Type} (L : Library Mat) (img : Image Mat) :
    List Json → Except QueryError (Option (Image Mat))
  | [] => .ok (some img)
  | op :: ops => do
      match ← ImageCommand.enqueueOperation L img op with
      | none => return none
      | some img' => ImageCommand.enqueueOperations L img' ops

/-- The image that `FindImage` makes of a path, if nothing fails. -/
def FindImage.image [Platform] {Mat : Type} (L : Library Mat) (ops : List Json)
    (path : String) : Option (Image Mat) :=
  match Image.new L path with
  | .error _ => none
  | .ok img =>
      match ImageCommand.enqueueOperations L img ops with
      | .ok img' => img'
      | .error _ => none

/-- What differs between `ImageLoop` and another event loop. -/
def imageLoop {Mat : Type} (L : Library Mat) : LoopKind (Image Mat) where
  key := Image.imageId
  copy := Image.copy L
  turn := Image.Turn L
  sendable img := img.pixels.isSome
  answer img img' := ∃ op m m', img.operations[img.opCompleted]? = some (.remote op) ∧
    img.pixels = some m ∧ L.answer op m (some m') ∧
    img' = { img with pixels := some m', opCompleted := img.opCompleted + 1 }
  undecoded img img' := ∃ op m, img.operations[img.opCompleted]? = some (.remote op) ∧
    img.pixels = some m ∧ L.answer op m none ∧
    img' = { img with pixels := none, opCompleted := img.opCompleted + 1 }
  reject img img' := ∃ msg : VCL.Message, img' = { img with queryErrorResponse := msg }
  store _ img := img
  storeAnswer _ img := img
  storeError _ img := img
  leavesBatch := false

namespace VCL.Image

variable {Mat : Type} {L : Library Mat}

/-- What one operation makes of the pixels of an image, here or at the remote service. -/
inductive Result (L : Library Mat) (format : Format) : Operation → Option Mat → Option Mat → Prop
    where
  | apply {op m result} : L.perform format op m (.ok result) →
      Result L format (.apply op) (some m) result
  | remote {op m m'} : L.answer op m (some m') →
      Result L format (.remote op) (some m) (some m')

/-- The operations have been applied to the pixels, each once and in order. -/
inductive Applied (L : Library Mat) (format : Format) (pixels : Option Mat) :
    List Operation → Option Mat → Prop where
  | nil : Applied L format pixels [] pixels
  | snoc {ops op middle result} : Applied L format pixels ops middle →
      Result L format op middle result → Applied L format pixels (ops ++ [op]) result

/-- The image is the entity as it was enqueued, with all of its operations applied. -/
structure Finished (L : Library Mat) (entity img : Image Mat) : Prop where
  imageId : img.imageId = entity.imageId
  all : img.opCompleted = (entity.copy L).operations.length
  applied : Applied L entity.format (entity.copy L).pixels (entity.copy L).operations img.pixels

/-- An operation is left. -/
def Left (img : Image Mat) : Prop := img.opCompleted < img.operations.length

/-- The image is the entity with the operations applied that are counted as completed, or
has lost its pixels. -/
structure Comes (L : Library Mat) (entity img : Image Mat) : Prop where
  imageId : img.imageId = entity.imageId
  format : img.format = entity.format
  operations : img.operations = (entity.copy L).operations
  counted : img.opCompleted ≤ img.operations.length
  noError : img.queryErrorResponse = ""
  pixels : img.pixels = none ∨ Applied L entity.format (entity.copy L).pixels
    (img.operations.take img.opCompleted) img.pixels

/-- An image that `FindImage` enqueues: it is read when it is copied, and has an operation
then. -/
structure Enqueued (L : Library Mat) (img : Image Mat) : Prop where
  noError : img.queryErrorResponse = ""
  notStarted : img.opCompleted = 0
  read : ∀ op ∈ (img.copy L).operations, op.isRead = false
  operations : (img.copy L).operations ≠ []

@[simp] theorem copy_imageId (L : Library Mat) (img : Image Mat) :
    (img.copy L).imageId = img.imageId := by
  rw [copy]
  split <;> rfl

@[simp] theorem copy_format (L : Library Mat) (img : Image Mat) :
    (img.copy L).format = img.format := by
  rw [copy]
  split <;> rfl

@[simp] theorem copy_opCompleted (L : Library Mat) (img : Image Mat) :
    (img.copy L).opCompleted = img.opCompleted := by
  rw [copy]
  split <;> rfl

@[simp] theorem copy_queryErrorResponse (L : Library Mat) (img : Image Mat) :
    (img.copy L).queryErrorResponse = "" := by
  rw [copy]
  split <;> rfl

/-- A copy of an image that has been read, and has no error, is the image. -/
theorem copy_eq {img : Image Mat} (hread : ∀ op ∈ img.operations, op.isRead = false)
    (herror : img.queryErrorResponse = "") : img.copy L = img := by
  obtain ⟨imageId, format, pixels, operations, opCompleted, error⟩ := img
  cases operations with
  | nil => simp_all [copy]
  | cons op rest =>
      cases op with
      | read => simpa [Operation.isRead] using hread .read
      | apply op => simp_all [copy]
      | remote op => simp_all [copy]

/-- An image that comes from an entity is its own copy. -/
theorem Comes.copy_eq {entity img : Image Mat} (h : Comes L entity img)
    (hentity : Enqueued L entity) : img.copy L = img :=
  VCL.Image.copy_eq (h.operations ▸ hentity.read) h.noError

theorem Enqueued.comes {entity : Image Mat} (h : Enqueued L entity) :
    Comes L entity (entity.copy L) where
  imageId := copy_imageId L entity
  format := copy_format L entity
  operations := rfl
  counted := by simp [h.notStarted]
  noError := copy_queryErrorResponse L entity
  pixels := .inr (by simpa [h.notStarted] using Applied.nil)

/-- One more operation is applied. -/
theorem Comes.applied {entity img : Image Mat} {op : Operation} {result : Option Mat}
    (h : Comes L entity img) (hop : img.operations[img.opCompleted]? = some op)
    (hresult : Result L img.format op img.pixels result) :
    Applied L entity.format (entity.copy L).pixels
      (img.operations.take (img.opCompleted + 1)) result := by
  have hpixels : img.pixels ≠ none := by
    intro hnone
    rw [hnone] at hresult
    cases hresult
  rw [List.take_add_one, hop]
  exact .snoc (h.pixels.resolve_left hpixels) (h.format ▸ hresult)

theorem Comes.advance {entity img : Image Mat} {op : Operation} {result : Option Mat}
    (h : Comes L entity img) (hop : img.operations[img.opCompleted]? = some op)
    (hpixels : result = none ∨ Result L img.format op img.pixels result) :
    Comes L entity { img with pixels := result, opCompleted := img.opCompleted + 1 } where
  imageId := h.imageId
  format := h.format
  operations := h.operations
  counted := (List.getElem?_eq_some_iff.mp hop).1
  noError := h.noError
  pixels := hpixels.imp id (h.applied hop)

/-- Where the last operation is applied, the entity is finished. -/
theorem Comes.finished {entity img : Image Mat} {op : Operation} {result : Option Mat}
    (h : Comes L entity img) (hop : img.operations[img.opCompleted]? = some op)
    (hresult : Result L img.format op img.pixels result)
    (hlast : img.operations.length ≤ img.opCompleted + 1) :
    Finished L entity { img with pixels := result, opCompleted := img.opCompleted + 1 } := by
  have hall : img.opCompleted + 1 = img.operations.length :=
    le_antisymm (List.getElem?_eq_some_iff.mp hop).1 hlast
  refine ⟨h.imageId, h.operations ▸ hall, ?_⟩
  have happlied := h.applied hop hresult
  rwa [hall, List.take_length, h.operations] at happlied

end VCL.Image

namespace ImageLoop

open VCL.Image EventLoop

variable {Mat : Type} {L : Library Mat}

/-- The image comes from one of the entities. -/
def Ready (L : Library Mat) (entities : List (Image Mat)) (img : Image Mat) : Prop :=
  ∃ entity ∈ entities, Comes L entity img

/-- Its next operation is a remote one. -/
def Handed (L : Library Mat) (entities : List (Image Mat)) (img : Image Mat) : Prop :=
  Ready L entities img ∧ img.pixels.isSome ∧
    ∃ op, img.operations[img.opCompleted]? = some (.remote op)

/-- The entry is the entity of the key, finished, or has an error. -/
def Recorded (L : Library Mat) (entities : List (Image Mat)) (fails : Prop) (key : String)
    (img : Image Mat) : Prop :=
  img.imageId = key ∧
    ((∃ entity ∈ entities, Finished L entity img) ∨ fails ∧ img.queryErrorResponse ≠ "")

/-- One turn at an image that comes from an entity. -/
theorem turn_cases {entities : List (Image Mat)} {img : Image Mat} {turn : Vdms.Turn (Image Mat)}
    (h : Ready L entities img) (hturn : Image.Turn L img turn) :
    (¬Left img ∧ turn = .done) ∨
    (∃ img', turn = .applied img' ∧ Ready L entities img' ∧ img'.imageId = img.imageId ∧
      (¬Left img' → ∃ entity ∈ entities, Finished L entity img')) ∨
    (turn = .remote img ∧ Handed L entities img) ∨
    ∃ img', turn = .failed img' ∧ img'.imageId = img.imageId ∧ img'.queryErrorResponse ≠ "" := by
  obtain ⟨entity, hentity, hcomes⟩ := h
  cases hturn with
  | done hall => exact .inl ⟨by simpa [Left] using hall, rfl⟩
  | @execute op img' hop hoperate =>
      cases hoperate with
      | @applied json _ m result hm hperform =>
          have hresult : Result L img.format (.apply json) img.pixels result :=
            hm ▸ .apply hperform
          refine .inr (.inl ⟨_, if_neg (by simp [hcomes.noError]), ?_, rfl, ?_⟩)
          · exact ⟨entity, hentity, hcomes.advance hop (.inr hresult)⟩
          · intro hleft
            exact ⟨entity, hentity, hcomes.finished hop hresult (by simpa [Left] using hleft)⟩
      | @thrown json _ m msg hm hperform =>
          exact .inr (.inr (.inr ⟨_, if_pos msg.2, rfl, msg.2⟩))
      | empty hm => exact .inr (.inr (.inr ⟨_, if_pos (by simp), rfl, by simp⟩))
      | @remote json _ m hformat hm =>
          refine .inr (.inr (.inl ⟨if_neg (by simp [hcomes.noError]), ?_⟩))
          exact ⟨⟨entity, hentity, hcomes⟩, by simp [hm], json, hop⟩
      | remoteEmpty hformat hm => exact .inr (.inr (.inr ⟨_, if_pos (by simp), rfl, by simp⟩))
      | remoteTdb hformat => exact .inr (.inr (.inr ⟨_, if_pos (by simp), rfl, by simp⟩))

/-- The account of a loop over these entities. Where nothing fails, entries without an
error are asked for. -/
def account (L : Library Mat) (entities : List (Image Mat))
    (henqueued : ∀ entity ∈ entities, Enqueued L entity) (fails : Prop) :
    Account (imageLoop L) (entities.map Image.imageId) where
  fresh img := img ∈ entities
  ready := Ready L entities
  handed := Handed L entities
  left := Left
  recorded := Recorded L entities fails
  recordsErrors := fails
  copy_key := copy_imageId L
  fresh_copy {img} himg := by
    have hen := henqueued img himg
    refine ⟨⟨img, himg, hen.comes⟩, ?_⟩
    have hops := List.length_pos_iff.mpr hen.operations
    change (img.copy L).opCompleted < (img.copy L).operations.length
    rwa [copy_opCompleted, hen.notStarted]
  ready_copy := by
    rintro img ⟨entity, hentity, hcomes⟩
    have hcopy : (imageLoop L).copy img = img := hcomes.copy_eq (henqueued entity hentity)
    rw [hcopy]
    exact ⟨⟨entity, hentity, hcomes⟩, Iff.rfl⟩
  handed_copy := by
    rintro img ⟨⟨entity, hentity, hcomes⟩, hhanded⟩
    have hcopy : (imageLoop L).copy img = img := hcomes.copy_eq (henqueued entity hentity)
    rw [hcopy]
    exact ⟨⟨entity, hentity, hcomes⟩, hhanded⟩
  ready_key := by
    rintro img ⟨entity, hentity, hcomes⟩
    exact List.mem_map.mpr ⟨entity, hentity, hcomes.imageId.symm⟩
  handed_key := by
    rintro img ⟨⟨entity, hentity, hcomes⟩, -⟩
    exact List.mem_map.mpr ⟨entity, hentity, hcomes.imageId.symm⟩
  done hready hturn := by
    rcases turn_cases hready hturn with ⟨hleft, -⟩ | ⟨_, hturn, -⟩ | ⟨hturn, -⟩ | ⟨_, hturn, -⟩
    · exact hleft
    all_goals cases hturn
  settled := by
    rintro img turn ⟨entity, hentity, hcomes⟩ hleft hturn
    cases hturn with
    | done => rfl
    | execute hop => exact absurd (List.getElem?_eq_some_iff.mp hop).1 hleft
  applied hready hturn := by
    rcases turn_cases hready hturn with ⟨-, hturn⟩ | ⟨_, hturn, hready', hid, hfinished⟩ |
      ⟨hturn, -⟩ | ⟨_, hturn, -⟩
    · cases hturn
    · cases hturn
      exact ⟨hid, hready', fun hleft prior => ⟨rfl, .inl (hfinished hleft)⟩⟩
    all_goals cases hturn
  stored hready hturn := by
    rcases turn_cases hready hturn with ⟨-, hturn⟩ | ⟨_, hturn, -⟩ | ⟨hturn, -⟩ | ⟨_, hturn, -⟩
    all_goals cases hturn
  hand hready hturn := by
    rcases turn_cases hready hturn with ⟨-, hturn⟩ | ⟨_, hturn, -⟩ | ⟨hturn, hhanded⟩ |
      ⟨_, hturn, -⟩
    · cases hturn
    · cases hturn
    · cases hturn
      exact ⟨rfl, hhanded⟩
    · cases hturn
  fail hready hturn := by
    rcases turn_cases hready hturn with ⟨-, hturn⟩ | ⟨_, hturn, -⟩ | ⟨hturn, -⟩ |
      ⟨_, hturn, hid, herror⟩
    · cases hturn
    · cases hturn
    · cases hturn
    · cases hturn
      exact ⟨hid, fun hfails prior => ⟨rfl, .inr ⟨hfails, herror⟩⟩⟩
  sendable hhanded := hhanded.2.1
  answer := by
    rintro img img' ⟨⟨entity, hentity, hcomes⟩, -⟩ ⟨op, m, m', hop, hm, hanswer, rfl⟩
    have hresult : Result L img.format (.remote op) img.pixels (some m') :=
      hm ▸ .remote hanswer
    refine ⟨rfl, ⟨entity, hentity, hcomes.advance hop (.inr hresult)⟩, fun hleft prior => ?_⟩
    exact ⟨rfl, .inl ⟨entity, hentity,
      hcomes.finished hop hresult (by simpa [Left] using hleft)⟩⟩
  undecoded := by
    rintro img img' ⟨⟨entity, hentity, hcomes⟩, -⟩ ⟨op, m, hop, hm, hanswer, rfl⟩
    exact ⟨rfl, ⟨entity, hentity, hcomes.advance hop (.inl rfl)⟩, by simp [imageLoop]⟩
  reject := by
    rintro img img' hhanded ⟨msg, rfl⟩
    exact ⟨rfl, fun hfails prior => ⟨rfl, .inr ⟨hfails, msg.2⟩⟩⟩

/-! ### What `FindImage` enqueues -/

/-- An image under construction: it has yet to be read, or need not be. -/
structure Built (img : Image Mat) : Prop where
  noError : img.queryErrorResponse = ""
  notStarted : img.opCompleted = 0
  operations : ∃ ops : List Operation, (∀ op ∈ ops, op.isRead = false) ∧
    (img.operations = ops ∨ img.operations = .read :: ops)

theorem new_built {path : String} {img : Image Mat} (h : Image.new L path = .ok img) :
    Built img ∧ img.imageId = path := by
  simp only [Image.new, bind, Except.bind] at h
  split at h
  · cases h
  split at h
  · cases h
  split at h
  · cases h
  simp only [pure, Except.pure, Except.ok.injEq] at h
  subst h
  exact ⟨⟨rfl, rfl, [], by simp, .inr rfl⟩, rfl⟩

theorem Built.append {img : Image Mat} (h : Built img) {op : Operation}
    (hop : op.isRead = false) : Built { img with operations := img.operations ++ [op] } := by
  obtain ⟨ops, hread, hops⟩ := h.operations
  refine ⟨h.noError, h.notStarted, ops ++ [op], ?_, ?_⟩
  · exact List.forall_mem_append.mpr ⟨hread, List.forall_mem_singleton.mpr hop⟩
  · rcases hops with hops | hops
    · exact .inl (by rw [hops])
    · exact .inr (by rw [hops, List.cons_append])

theorem Built.drop {img : Image Mat} (h : Built img) (pixels : Option Mat) :
    Built { img with operations := [], pixels := pixels } :=
  ⟨h.noError, h.notStarted, [], by simp, .inl rfl⟩

/-- A copy of the image has been read. -/
theorem Built.read {img : Image Mat} (h : Built img) :
    ∀ op ∈ (img.copy L).operations, op.isRead = false := by
  obtain ⟨ops, hread, hops⟩ := h.operations
  rcases hops with hops | hops
  · rwa [copy_eq (hops ▸ hread) h.noError, hops]
  · simpa [Image.copy, hops] using hread

theorem Built.enqueued {img : Image Mat} (h : Built img) (hops : (img.copy L).operations ≠ []) :
    Enqueued L img :=
  ⟨h.noError, h.notStarted, h.read, hops⟩

section Platform

variable [Platform]

theorem enqueueOperation_built {img img' : Image Mat} {op : Json} (h : Built img)
    (hop : ImageCommand.enqueueOperation L img op = .ok (some img')) :
    Built img' ∧ img'.imageId = img.imageId := by
  simp only [ImageCommand.enqueueOperation, bind, Except.bind] at hop
  split at hop
  · cases hop
  split_ifs at hop with hcrop htdb
  · cases hop
    exact ⟨(h.drop img.pixels).append rfl, rfl⟩
  · cases hop
    exact ⟨h.append rfl, rfl⟩
  · cases hop
    exact ⟨h.append rfl, rfl⟩
  · cases hop
    exact ⟨h.append rfl, rfl⟩
  · simp only [pure, Except.pure, Except.ok.injEq, Option.map_eq_some_iff] at hop
    obtain ⟨m, -, rfl⟩ := hop
    exact ⟨h.drop _, rfl⟩

theorem enqueueOperations_built {ops : List Json} {img img' : Image Mat} (h : Built img)
    (hops : ImageCommand.enqueueOperations L img ops = .ok (some img')) :
    Built img' ∧ img'.imageId = img.imageId := by
  induction ops generalizing img with
  | nil =>
      cases hops
      exact ⟨h, rfl⟩
  | cons op ops ih =>
      simp only [ImageCommand.enqueueOperations, bind, Except.bind] at hops
      split at hops
      · cases hops
      rename_i result hop
      cases result with
      | none => cases hops
      | some middle =>
          obtain ⟨hbuilt, hid⟩ := enqueueOperation_built h hop
          obtain ⟨hbuilt', hid'⟩ := ih hbuilt hops
          exact ⟨hbuilt', hid'.trans hid⟩

/-- What `FindImage` enqueues is named by its path, and its copy is read. -/
theorem image_built {ops : List Json} {path : String} {img : Image Mat}
    (h : FindImage.image L ops path = some img) : Built img ∧ img.imageId = path := by
  rw [FindImage.image] at h
  split at h
  · cases h
  rename_i middle hnew
  split at h
  · rename_i result hops
    obtain rfl : result = some img := h
    obtain ⟨hbuilt, hid⟩ := new_built hnew
    obtain ⟨hbuilt', hid'⟩ := enqueueOperations_built hbuilt hops
    exact ⟨hbuilt', hid'.trans hid⟩
  · cases h

/-- The invariant of a run over the images of `FindImage`. -/
theorem run_inv {ops : List Json} {entities : List (Image Mat)} {fails : Prop} {n : ℕ}
    {s : EventLoop (Image Mat)}
    (hmade : ∀ img ∈ entities, FindImage.image L ops img.imageId = some img)
    (hops : ∀ img ∈ entities, (img.copy L).operations ≠ [])
    (hrun : ReflTransGen (QuietStep (imageLoop L) Left fails) (.start n entities) s) :
    Inv (account L entities (fun img himg => Built.enqueued (image_built (hmade img himg)).1
      (hops img himg)) fails) s := by
  have hkeys : ∀ k ∈ entities.map Image.imageId, ∃ img ∈ entities, (imageLoop L).key img = k :=
    fun k hk => List.mem_map.mp hk
  exact (Inv.start _ n (fun _ h => h) hkeys).run hrun

/-- When the loop has stopped, every image is finished or has its error. Images with one
path are one image. -/
theorem recorded_of_mem {ops : List Json} {entities : List (Image Mat)} {fails : Prop}
    {henqueued : ∀ img ∈ entities, Enqueued L img} {s : EventLoop (Image Mat)}
    (hmade : ∀ img ∈ entities, FindImage.image L ops img.imageId = some img)
    (hinv : Inv (account L entities henqueued fails) s) (hstopped : s.isLoopRunning = false)
    {img : Image Mat} (himg : img ∈ entities) :
    ∃ y, s.map[img.imageId]? = some y ∧
      (Finished L img y ∨ fails ∧ y.queryErrorResponse ≠ "") := by
  obtain ⟨y, hy, hid, hrec⟩ :=
    (hinv.complete hstopped).1 img.imageId (List.mem_map_of_mem himg)
  refine ⟨y, hy, hrec.imp ?_ id⟩
  rintro ⟨entity, hentity, hfinished⟩
  have hsame : entity.imageId = img.imageId := hfinished.imageId.symm.trans hid
  have heq : some entity = some img := by
    rw [← hmade entity hentity, ← hmade img himg, hsame]
  exact Option.some.inj heq ▸ hfinished

/-- **Event loop completeness.** The images are those of `FindImage`, with at least one
operation, and in every step that ends the loop (after the test of the operation thread, or
after an error) nothing is in flight: all images have been enqueued, and none with an
operation left is in a buffer or at hand. Then the map of a loop that has stopped has every
image, with all of its operations applied once and in order or with its error, and none is
left in a buffer. -/
theorem loop_complete {ops : List Json} {entities : List (Image Mat)}
    {s : EventLoop (Image Mat)}
    (hmade : ∀ img ∈ entities, FindImage.image L ops img.imageId = some img)
    (hops : ∀ img ∈ entities, (img.copy L).operations ≠ [])
    (hrun : ReflTransGen (QuietStep (imageLoop L) Left True) (.start entities.length entities) s)
    (hstopped : s.isLoopRunning = false) :
    (∀ img ∈ entities, ∃ y, s.map[img.imageId]? = some y ∧
      (Finished L img y ∨ y.queryErrorResponse ≠ "")) ∧ Quiet Left s := by
  have hinv := run_inv hmade hops hrun
  refine ⟨fun img himg => ?_, (hinv.complete hstopped).2⟩
  obtain ⟨y, hy, hrec⟩ := recorded_of_mem hmade hinv hstopped himg
  exact ⟨y, hy, hrec.imp id And.right⟩

end Platform

/-! ### Two images -/

/-- Pixels are counted: every operation adds one. -/
def counting : Library ℕ where
  imread _ := some 0
  tdbImage _ := none
  perform _ _ m result := result = .ok (some (m + 1))
  answer _ m result := result = some (m + 1)
  custom _ _ := none
  readFile _ := []
  imencode _ m := [m.toUInt8]

/-- `{"type": "threshold", "value": 128}`. -/
def threshold : Json := .object [("type", .string "threshold"), ("value", .int 128)]

/-- The image of a path, to be read and thresholded. -/
def thresholded (path : String) : Image ℕ where
  imageId := path
  format := .png
  pixels := none
  operations := [.read, .apply threshold]
  opCompleted := 0
  queryErrorResponse := ""

theorem thresholded_made (path : String) (h : path = "png/aa.png" ∨ path = "png/bb.png") :
    FindImage.image counting [threshold] path = some (thresholded path) := by
  rcases h with rfl | rfl
  · rfl
  · rfl

/-- The image of a path, as it is in the buffer. -/
def buffered (path : String) : Image ℕ := (thresholded path).copy counting

/-- The image of a path, after its operation. -/
def operated (path : String) : Image ℕ :=
  { buffered path with pixels := some 1, opCompleted := 1 }

theorem buffered_turn (path : String) :
    (imageLoop counting).turn (buffered path) (.applied (operated path)) :=
  @Image.Turn.execute _ _ _ (.apply threshold) _ rfl (.applied (m := 0) rfl rfl)

theorem operated_turn (path : String) :
    (imageLoop counting).turn (operated path) .done :=
  .done (Nat.le_refl 1)

/-- The loop of these images, where all are enqueued before the first is taken, after the
operation of each has been applied. -/
def stoppedAfter (n : ℕ) (paths : List String) : EventLoop (Image ℕ) :=
  { EventLoop.start n [] with
    map := paths.foldl (fun map path =>
      put (imageLoop counting) (imageLoop counting).store map (operated path)) ∅
    mRunning := false
    rRunning := false }

variable {fails : Prop}

/-- The images are enqueued one after the other. -/
theorem enqueue_run {s : EventLoop (Image ℕ)} {paths : List String}
    (hent : s.entities = paths.map thresholded) (hrun : s.mRunning = true)
    (hfails : s.failing = false) :
    ReflTransGen (QuietStep (imageLoop counting) Left fails) s
      { s with entities := [], mWriteBuffer := s.mWriteBuffer ++ paths.map buffered } := by
  induction paths generalizing s with
  | nil =>
      obtain ⟨n, entities, map, write⟩ := s
      obtain rfl : entities = [] := hent
      simp only [List.map_nil, List.append_nil]
      exact .refl
  | cons path paths ih =>
      refine .head (.of_running (.enqueue hent) hrun hfails) ?_
      have hrest := ih (s := { s with
        entities := paths.map thresholded
        mWriteBuffer := s.mWriteBuffer ++ [buffered path] }) rfl hrun hfails
      rwa [List.append_assoc] at hrest

/-- Their operations are applied one after the other. -/
theorem work_run {s : EventLoop (Image ℕ)} {paths : List String} {flag : Bool}
    (hop : s.operation = .working flag (paths.map buffered)) (hrun : s.mRunning = true)
    (hremote : s.remote.isRejected = false) :
    ReflTransGen (QuietStep (imageLoop counting) Left fails) s
      { s with
        map := paths.foldl (fun map path =>
          put (imageLoop counting) (imageLoop counting).store map (operated path)) s.map
        operation := .working flag [] } := by
  induction paths generalizing s with
  | nil =>
      obtain ⟨n, entities, map, write, run, rwrite, rrun, rrunning, operation⟩ := s
      obtain rfl : operation = .working flag [] := hop
      exact .refl
  | cons path paths ih =>
      refine .head (.of_running (.applied hop (buffered_turn path)) hrun ?_) ?_
      · simpa [failing] using hremote
      refine .head (.of_running (.done rfl (operated_turn path)) hrun ?_) ?_
      · simpa [failing] using hremote
      exact ih rfl hrun hremote

theorem stoppedAfter_run (n : ℕ) (paths : List String) (hne : paths ≠ []) :
    ReflTransGen (QuietStep (imageLoop counting) Left fails)
      (.start n (paths.map thresholded)) (stoppedAfter n paths) := by
  refine (enqueue_run rfl rfl rfl).trans (.head (.of_running (.enter rfl rfl) rfl rfl) ?_)
  refine .head (.of_running (.take rfl (by simpa [start] using hne)) rfl rfl) ?_
  refine (work_run rfl rfl rfl).trans (.head (.of_running (.worked rfl) rfl rfl) ?_)
  refine .head (.of_running (.test rfl) rfl rfl) ?_
  refine .head (.of_running (.testWriteBuffer rfl) rfl rfl) ?_
  refine .head (.of_running (.testRemoteBuffer rfl) rfl rfl) ?_
  exact .single ⟨.stop rfl, fun _ => ⟨rfl, rfl, rfl, nofun, nofun, nofun⟩, nofun⟩

/-- The loop of two images, run to its end. -/
theorem loop_complete_pair :
    (∀ img ∈ [thresholded "png/aa.png", thresholded "png/bb.png"], ∃ y,
      (stoppedAfter 2 ["png/aa.png", "png/bb.png"]).map[img.imageId]? = some y ∧
        (Finished counting img y ∨ y.queryErrorResponse ≠ "")) ∧
      Quiet Left (stoppedAfter 2 ["png/aa.png", "png/bb.png"]) :=
  loop_complete (L := counting)
    (List.forall_mem_cons.mpr ⟨thresholded_made "png/aa.png" (.inl rfl),
      List.forall_mem_singleton.mpr (thresholded_made "png/bb.png" (.inr rfl))⟩)
    (by simp [thresholded, Image.copy])
    (stoppedAfter_run 2 ["png/aa.png", "png/bb.png"] (by simp)) rfl

/-- The loop of two images, stopped before the second is enqueued. -/
def stoppedEarly : EventLoop (Image ℕ) :=
  { EventLoop.start 2 [thresholded "png/aa.png", thresholded "png/bb.png"] with
    entities := []
    map := put (imageLoop counting) (imageLoop counting).store ∅ (operated "png/aa.png")
    mWriteBuffer := [buffered "png/bb.png"]
    mRunning := false
    rRunning := false }

theorem stoppedEarly_run :
    ReflTransGen (Step (imageLoop counting))
      (.start 2 [thresholded "png/aa.png", thresholded "png/bb.png"]) stoppedEarly := by
  refine .head (.enqueue rfl) (.head (.enter rfl rfl) (.head (.take rfl (by simp)) ?_))
  refine .head (.applied rfl (buffered_turn _)) (.head (.done rfl (operated_turn _)) ?_)
  refine .head (.worked rfl) (.head (.test rfl) (.head (.testWriteBuffer rfl) ?_))
  exact .head (.testRemoteBuffer rfl) (.head (.stop rfl) (.head (.enqueue rfl) .refl))

/-- The loop ends while the caller has another image to enqueue: the image is enqueued, and
stays in the buffer. -/
theorem ends_early :
    ∃ s : EventLoop (Image ℕ), ReflTransGen (Step (imageLoop counting))
        (.start 2 [thresholded "png/aa.png", thresholded "png/bb.png"]) s ∧
      s.isLoopRunning = false ∧ s.entities = [] ∧
      s.map["png/bb.png"]? = none ∧ buffered "png/bb.png" ∈ s.mWriteBuffer ∧
      Left (buffered "png/bb.png") := by
  refine ⟨stoppedEarly, stoppedEarly_run, rfl, rfl, ?_, List.mem_singleton_self _,
    Nat.one_pos⟩
  rw [stoppedEarly, getElem?_put, if_neg (by decide)]
  exact TreeMap.getElem?_emptyc

end ImageLoop

end Vdms
