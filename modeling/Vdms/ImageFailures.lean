import Vdms.VideoCopies

/-!
# Failures of Image Operations

An operation of an image that fails notes its message in the image and returns. The loop of
`perform_operations`, through which `AddImage` stores an image, does not look at the message and
goes on with the next operation, so that a failed operation is as one that was not asked for.
`FindImage` looks at the message of the first image in its map, and at no other.

## Main definitions

* `AddImage.addImage`: an addition with operations, up to the file.
* `AddImage.Prepared.outcomes`: what each of the operations of an addition does.

## Main results

* `FindImage.failures_reported_iff`: the requests whose failed operations are reported.
-/

namespace Vdms

open Relation VCL
open Std (TreeMap)

/-! ### `AddImage` -/

/-- What an operation does to pixels that are there: it leaves others, or it catches a
`VCL::Exception`, or a `cv::Exception` leaves it. -/
inductive OperationResult (Mat : Type) where
  | done (pixels : Option Mat)
  | failed (msg : VCL.Message)
  | threw

/-- The libraries and services of `perform_operations`. -/
structure OperationLibrary (Mat : Type) extends Library Mat where
  /-- What the operation at this place of the list does, when it is performed. -/
  outcome : ℕ → Format → Json → Mat → OperationResult Mat

namespace VCL.Image

variable {Mat : Type} (L : OperationLibrary Mat)

/-- What an operation does to the pixels of an image. -/
def outcomeAt (imageId : String) (format : Format) (k : ℕ) : Operation → Option Mat →
    OperationResult Mat
  | .read, _ =>
      match L.imread imageId with
      | some m => .done (some m)
      | none => .threw
  | _, none => .failed ⟨"Image object is empty", by decide⟩
  | .apply op, some m => L.outcome k format op m
  | .remote _, some m => .done (some m)

/-- `(*op)(this)`: none if an exception leaves it. Reading is not counted, and neither is what is
left to the remote service. -/
def perform (k : ℕ) (op : Operation) (img : Image Mat) : Option (Image Mat) :=
  match outcomeAt L img.imageId img.format k op img.pixels with
  | .done pixels => some { img with
      pixels := pixels
      opCompleted := if op.isRead || op.isRemote then img.opCompleted else img.opCompleted + 1 }
  | .failed msg => some { img with queryErrorResponse := msg }
  | .threw => none

/-- The loop of `Image::perform_operations`, from the operation at this place on. -/
def performOperations (k : ℕ) : List Operation → Image Mat → Option (Image Mat)
  | [], img => some { img with operations := [] }
  | op :: ops, img => do
      let img ← perform L k op img
      performOperations (k + 1) ops img

end VCL.Image

namespace AddImage

open VCL.Image

/-- The libraries and services of an addition. -/
structure IngestLibrary (Mat : Type) extends OperationLibrary Mat where
  /-- `cv::imdecode`. -/
  imdecode : Bytes → Option Mat
  /-- The file can be written. -/
  canWrite : String → Format → Option Mat → Bool

variable {Mat : Type}

/-- Why nothing is stored: an exception, `return -1`, or the null pointer of a TDB image that is
read from a file. -/
inductive Early where
  | threw
  | refused (info : String)
  | crashed

/-- How `construct_protobuf` ends. -/
inductive Ended (Mat : Type) where
  | early (e : Early)
  | stored (fileName : String) (format : Format) (pixels : Option Mat)

/-- The response is an error, and nothing is stored. -/
def Ended.IsError : Ended Mat → Prop
  | .early .crashed => False
  | .early _ => True
  | .stored .. => False

/-- An image with its operations, and where it is to be stored. -/
structure Prepared (Mat : Type) where
  img : Image Mat
  fileName : String
  format : Format

def ofJson {α : Type} (x : Except QueryError α) : Except Early α := x.mapError fun _ => .threw

/-- The remote operations of an addition are synchronous. -/
def sync : Operation → Operation
  | .remote op => .apply op
  | op => op

section

variable (L : IngestLibrary Mat)

/-- The image: its blob is decoded, or its file is read as soon as it is assigned. -/
def source (blob : Bytes) (path : String) (binary : Bool) : Except Early (Image Mat) :=
  if path = "" then
    let img : Image Mat := ⟨"", .noneImage, none, [], 0, ""⟩
    if binary then .ok img
    else match L.imdecode blob with
      | some m => .ok { img with pixels := some m }
      | none => .error .threw
  else match Image.new L.toLibrary path with
    | .ok img => if img.format = .tdb then .error .crashed else .ok (img.copy L.toLibrary)
    | .error _ => .error .threw

/-- `enqueue_operations(img, ops, true)`. -/
def enqueueOperations [Platform] (img : Image Mat) :
    List Json → Except QueryError (Option (Image Mat))
  | [] => .ok (some img)
  | op :: ops => do
      match ← ImageCommand.enqueueOperation L.toLibrary img op with
      | none => return none
      | some img' => enqueueOperations { img' with operations := img'.operations.map sync } ops

/-- The format in which the image is stored. -/
def storageFormat (format : String) : Option Format :=
  if format = "png" then some .png
  else if format = "tdb" then some .tdb
  else if format = "jpg" then some .jpg
  else if format = "bin" then some .bin
  else none

/-- `AddImage::construct_protobuf` with operations, before the image is stored. `createUnique` is
`create_unique` in the directory of the format. -/
def prepare [Platform] (createUnique : Format → String) (cmd : Json) (blob : Bytes) :
    Except Early (Prepared Mat) := do
  let path ← ofJson (getValue Json.asString cmd "from_file_path" "")
  let isLocalFile ← ofJson (getValue Json.asBool cmd "is_local_file" false)
  let format ← ofJson (getValue Json.asString cmd "format" "")
  let img ← source L blob path (format = "bin")
  let operations ← ofJson (cmd.get "operations")
  match ← ofJson (enqueueOperations L img operations.elements) with
  | none => throw (.refused "custom function process not found")
  | some img =>
      match storageFormat format with
      | none => throw (.refused (format ++ ": format not implemented"))
      | some inputFormat =>
          -- `is_blob_not_stored`: the file is used where it is
          let fileName := if path ≠ "" ∧ isLocalFile = false then path else createUnique inputFormat
          pure ⟨img, fileName, inputFormat⟩

/-- `Image::Write::operator()`. -/
def write (fileName : String) (format : Format) (img : Image Mat) : Ended Mat :=
  if (format = .png ∨ format = .jpg) ∧ img.pixels.isNone = true then .early .threw
  else if L.canWrite fileName format img.pixels then .stored fileName format img.pixels
  else .early .threw

/-- `Image::store`. -/
def store (p : Prepared Mat) : Ended Mat :=
  match performOperations L.toOperationLibrary 0 p.img.operations p.img with
  | some img => write L p.fileName p.format img
  | none => .early .threw

/-- `AddImage::construct_protobuf` with operations. -/
def addImage [Platform] (createUnique : Format → String) (cmd : Json) (blob : Bytes) : Ended Mat :=
  match prepare L createUnique cmd blob with
  | .ok p => store L p
  | .error e => .early e

/-! ### The outcomes of the operations -/

/-- What each operation does, on the pixels that those before it have left, up to an
exception. -/
def outcomes (imageId : String) (format : Format) : ℕ → List Operation → Option Mat →
    List (OperationResult Mat)
  | _, [], _ => []
  | k, op :: ops, pixels =>
      match outcomeAt L.toOperationLibrary imageId format k op pixels with
      | .done pixels' => .done pixels' :: outcomes imageId format (k + 1) ops pixels'
      | .failed msg => .failed msg :: outcomes imageId format (k + 1) ops pixels
      | .threw => [.threw]

/-- The pixels of the last operation that has left any. -/
def lastPixels (pixels : Option Mat) : List (OperationResult Mat) → Option Mat
  | [] => pixels
  | .done pixels' :: rest => lastPixels pixels' rest
  | _ :: rest => lastPixels pixels rest

/-- The outcomes of the operations of the image. -/
def Prepared.outcomes (p : Prepared Mat) : List (OperationResult Mat) :=
  AddImage.outcomes L p.img.imageId p.img.format 0 p.img.operations p.img.pixels

/-- The pixels after the operations. -/
def Prepared.lastPixels (p : Prepared Mat) : Option Mat :=
  AddImage.lastPixels p.img.pixels (p.outcomes L)

/-- The pixels can be written into the file: some format needs pixels. -/
def Writable (p : Prepared Mat) (pixels : Option Mat) : Prop :=
  (p.format = .png ∨ p.format = .jpg → pixels.isSome = true) ∧
    L.canWrite p.fileName p.format pixels = true

end

variable {L : IngestLibrary Mat}

/-- The loop ends with an exception if an operation throws one, and otherwise with the pixels
of the last operation that has not failed. Induction on the operations. -/
theorem performOperations_pixels (k : ℕ) (ops : List Operation) (img : Image Mat)
    (pixels : Option Mat) :
    (performOperations L.toOperationLibrary k ops img).map Image.pixels = some pixels ↔
      .threw ∉ outcomes L img.imageId img.format k ops img.pixels ∧
        lastPixels img.pixels (outcomes L img.imageId img.format k ops img.pixels) = pixels := by
  induction ops generalizing k img with
  | nil => simp [performOperations, outcomes, lastPixels]
  | cons op ops ih =>
      rw [performOperations, outcomes, perform]
      cases outcomeAt L.toOperationLibrary img.imageId img.format k op img.pixels with
      | done pixels' =>
          simp only [List.mem_cons, reduceCtorEq, false_or, lastPixels]
          exact ih (k + 1) { img with pixels := pixels', opCompleted := _ }
      | failed msg =>
          simp only [List.mem_cons, reduceCtorEq, false_or, lastPixels]
          exact ih (k + 1) { img with queryErrorResponse := msg }
      | threw => simp

/-- `write` stores the pixels as they are exactly if there are any to encode and OpenCV can write.
-/
theorem write_eq_stored_iff {fileName fileName' : String} {format format' : Format}
    {img : Image Mat}
    {pixels : Option Mat} : write L fileName format img = .stored fileName' format' pixels ↔
      (fileName = fileName' ∧ format = format' ∧ img.pixels = pixels) ∧
        (format = .png ∨ format = .jpg → img.pixels.isSome = true) ∧
        L.canWrite fileName format img.pixels = true := by
  rw [write]
  split_ifs with hempty hwrite
  · refine iff_of_false (by simp) ?_
    rintro ⟨-, hsome, -⟩
    rw [Option.isNone_iff_eq_none] at hempty
    rw [hempty.2] at hsome
    exact absurd (hsome hempty.1) (by simp)
  · have hsome : format = .png ∨ format = .jpg → img.pixels.isSome = true := by
      intro hformat
      by_contra hnone
      exact hempty ⟨hformat, by simpa using hnone⟩
    simp only [hwrite, Ended.stored.injEq, and_true, iff_self_and]
    exact fun _ => hsome
  · simp [hwrite]

/-- **The store.** What the operations that have not failed leave is stored, unless an operation
throws an exception or the file cannot be written. -/
theorem store_eq_stored_iff {p : Prepared Mat} {fileName : String} {format : Format}
    {pixels : Option Mat} : store L p = .stored fileName format pixels ↔
      (p.fileName = fileName ∧ p.format = format ∧ p.lastPixels L = pixels) ∧
        .threw ∉ p.outcomes L ∧ Writable L p pixels := by
  have hpixels := performOperations_pixels (L := L) 0 p.img.operations p.img pixels
  rw [store, Prepared.lastPixels, Prepared.outcomes, Writable]
  cases hperform : performOperations L.toOperationLibrary 0 p.img.operations p.img with
  | none =>
      rw [hperform, Option.map_none] at hpixels
      simp only [reduceCtorEq, false_iff]
      rintro ⟨⟨-, -, hlast⟩, hthrew, -⟩
      cases hpixels.mpr ⟨hthrew, hlast⟩
  | some img =>
      rw [hperform, Option.map_some, Option.some_inj] at hpixels
      simp only [write_eq_stored_iff]
      constructor
      · rintro ⟨⟨rfl, rfl, rfl⟩, hwritable⟩
        obtain ⟨hthrew, hlast⟩ := hpixels.mp rfl
        exact ⟨⟨rfl, rfl, hlast⟩, hthrew, hwritable⟩
      · rintro ⟨⟨rfl, rfl, hlast⟩, hthrew, hwritable⟩
        obtain rfl := hpixels.mpr ⟨hthrew, hlast⟩
        exact ⟨⟨rfl, rfl, rfl⟩, hwritable⟩

/-- There is an error exactly if an operation throws an exception, or what is left cannot be
written. -/
theorem store_isError_iff {p : Prepared Mat} :
    (store L p).IsError ↔ .threw ∈ p.outcomes L ∨ ¬ Writable L p (p.lastPixels L) := by
  cases hstore : store L p with
  | stored fileName format pixels =>
      obtain ⟨⟨-, -, rfl⟩, hthrew, hwritable⟩ := store_eq_stored_iff.1 hstore
      exact iff_of_false id (not_or.2 ⟨hthrew, not_not.2 hwritable⟩)
  | early e =>
      have hnot : .threw ∈ p.outcomes L ∨ ¬ Writable L p (p.lastPixels L) := by
        by_contra hboth
        rw [not_or, not_not] at hboth
        rw [store_eq_stored_iff.2 ⟨⟨rfl, rfl, rfl⟩, hboth⟩] at hstore
        cases hstore
      have hthrew : e = .threw := by
        rw [store] at hstore
        split at hstore
        · rw [write] at hstore
          split_ifs at hstore
          · exact (Ended.early.inj hstore).symm
          · exact (Ended.early.inj hstore).symm
        · exact (Ended.early.inj hstore).symm
      rw [hthrew]
      exact iff_of_true trivial hnot

/-- **Additions.** There is an error exactly if an operation throws an exception, or what the
others leave cannot be written; otherwise that is stored, whichever operations have failed. -/
theorem addImage_reports_iff [Platform] (createUnique : Format → String) (cmd : Json)
    (blob : Bytes) {p : Prepared Mat} (h : prepare L createUnique cmd blob = .ok p) :
    ((addImage L createUnique cmd blob).IsError ↔
      .threw ∈ p.outcomes L ∨ ¬ Writable L p (p.lastPixels L)) ∧
    (.threw ∉ p.outcomes L → Writable L p (p.lastPixels L) →
      addImage L createUnique cmd blob = .stored p.fileName p.format (p.lastPixels L)) := by
  have hstore : addImage L createUnique cmd blob = store L p := by rw [addImage, h]
  rw [hstore]
  exact ⟨store_isError_iff, fun hthrew hwritable =>
    store_eq_stored_iff.2 ⟨⟨rfl, rfl, rfl⟩, hthrew, hwritable⟩⟩

end AddImage

/-! ### `FindImage` -/

namespace FindImage

variable {Mat : Type} {L : Library Mat}

/-- Every image of the map can be encoded in its format. -/
def CanAnswer (L : Library Mat) (formats : TreeMap String Format)
    (map : TreeMap String (Image Mat)) : Prop :=
  ∀ entry ∈ map.toList, ∃ blob, blob ≠ [] ∧
    getEncodedImageAsync L (formats[entry.1]?.getD .noneImage) entry.2 = .ok blob

/-- The reply to a failure is not one of success. -/
theorem not_succeeds_failure {cmdName info : String} {blobs : List Bytes} :
    ¬ Reply.Succeeds cmdName ((Stop.returned (failure info)).reply cmdName blobs) := by
  rintro ⟨response, status, hresult, hget, hne⟩
  obtain rfl : failure info = response := by
    simpa [Stop.reply] using hresult
  cases hget
  exact hne rfl

/-- The images are collected exactly if each of them can be encoded, into something. -/
theorem collect_ok_iff {formats : TreeMap String Format} {entries : List (String × Image Mat)}
    {before : List Bytes} :
    (∃ blobs, collect L formats entries before = .ok blobs) ↔
      ∀ entry ∈ entries, ∃ blob, blob ≠ [] ∧
        getEncodedImageAsync L (formats[entry.1]?.getD .noneImage) entry.2 = .ok blob := by
  induction entries generalizing before with
  | nil => simp [collect]
  | cons entry entries ih =>
      obtain ⟨key, img⟩ := entry
      rw [List.forall_mem_cons]
      cases henc : getEncodedImageAsync L (formats[key]?.getD .noneImage) img with
      | error e => simp [collect, henc]
      | ok blob =>
          cases blob with
          | nil => simp [collect, henc]
          | cons byte blob => simp [collect, henc, ih]

/-- If one of them cannot, the reply is not one of success. -/
theorem collect_error {formats : TreeMap String Format} {entries : List (String × Image Mat)}
    {before : List Bytes} {reply : Reply}
    (h : collect L formats entries before = .error reply) : ¬ reply.Succeeds "FindImage" := by
  induction entries generalizing before with
  | nil => cases h
  | cons entry entries ih =>
      obtain ⟨key, img⟩ := entry
      rw [collect] at h
      split at h
      · cases h
        rintro ⟨response, status, hresult, -⟩
        cases hresult
      · cases h
        exact not_succeeds_failure
      · exact ih h

variable [Platform]

/-- The response that is walked through is an object with the status of a success. -/
theorem listed_status {cmd findImage : Json} {responses : List Json} {entities : List Json}
    (h : listed cmd responses = .ok (findImage, some entities)) :
    findImage.isObject = true ∧ ∃ status, findImage.get "status" = .ok status ∧
      status ≠ .int (-1) := by
  rcases responses with - | ⟨resp, - | ⟨resp', rest⟩⟩
  · cases h
  · rw [listed] at h
    obtain ⟨status, hstatus, h⟩ := bind_ok_inv h
    have hstatus := ofJson_eq hstatus
    dsimp only at h
    split at h
    · obtain ⟨_, -, h⟩ := bind_ok_inv h
      cases h
    rename_i hzero
    obtain ⟨results, -, h⟩ := bind_ok_inv h
    obtain ⟨entities', hentities, h⟩ := bind_ok_inv h
    have hentities := ofJson_eq hentities
    split at h
    · cases h
    rename_i hsize
    obtain ⟨blob, -, h⟩ := bind_ok_inv h
    split at h
    · cases h
      refine ⟨?_, status, hstatus, ?_⟩
      · cases findImage with
        | object ms => rfl
        | null =>
            cases hentities
            exact absurd rfl hsize
        | _ => cases hentities
      · rintro rfl
        exact hzero rfl
    · cases h
  · cases h

omit [Platform] in
/-- There is a reply to every map with an entry. -/
theorem exists_resume (L : Library Mat) (findImage : Json) (w : Walk Mat)
    {map : TreeMap String (Image Mat)} (h : map.toList ≠ []) :
    ∃ reply, resume L findImage w map = some reply := by
  rw [resume]
  split
  next hnil => exact absurd hnil h
  next =>
    split_ifs
    · exact ⟨_, rfl⟩
    · split
      · exact ⟨_, rfl⟩
      · exact ⟨_, rfl⟩

omit [Platform] in
/-- **The reply.** It says that the command has failed only for the error of the first entry, or
where an image cannot be encoded. -/
theorem resume_succeeds_iff {findImage : Json} {w : Walk Mat} {map : TreeMap String (Image Mat)}
    {reply : Reply} (hobject : findImage.isObject = true)
    (hstatus : ∃ status, findImage.get "status" = .ok status ∧ status ≠ .int (-1))
    (h : resume L findImage w map = some reply) :
    reply.Succeeds "FindImage" ↔
      (∀ entry ∈ map.toList.head?, entry.2.queryErrorResponse = "") ∧
        CanAnswer L w.formats map := by
  obtain ⟨status, hstatus, hne⟩ := hstatus
  rw [resume] at h
  split at h
  · cases h
  rename_i key img rest hentries
  rw [CanAnswer, hentries]
  simp only [List.head?_cons, Option.mem_some_iff, forall_eq']
  split_ifs at h with herror
  · cases h
    exact iff_of_false not_succeeds_failure fun hand => herror hand.1
  rw [and_iff_right (by simpa using herror), ← @collect_ok_iff _ L w.formats _ []]
  split at h
  · rename_i failed hcollect
    cases h
    refine iff_of_false (collect_error hcollect) ?_
    rintro ⟨blobs, hok⟩
    rw [hcollect] at hok
    cases hok
  · rename_i blobs hcollect
    cases h
    exact iff_of_true (FindVideo.finishReply_succeeds hobject hstatus hne) ⟨blobs, hcollect⟩

/-! The writes of a run. -/

omit [Platform] in
/-- A turn leaves the path of an image as it is. -/
theorem imageId_of_turn {img : Image Mat} {result : Vdms.Turn (Image Mat)}
    (h : Image.Turn L img result) : ∀ y, (result = .applied y ∨ result = .stored y ∨
      result = .remote y ∨ result = .failed y) → y.imageId = img.imageId := by
  cases h with
  | done _ => simp
  | @execute op img' _ hoperate =>
      have hid : img'.imageId = img.imageId := by
        cases hoperate <;> rfl
      intro y hy
      have hsame : y = img' := by
        split_ifs at hy <;> simpa [eq_comm] using hy
      rw [hsame, hid]

omit [Platform] in
/-- All images that a run writes are of the paths of the images that it starts with. -/
theorem kept_path (paths : List String) :
    EventLoop.Kept (imageLoop L) fun img => img.imageId ∈ paths where
  copy x h := by
    have hid : (x.copy L).imageId = x.imageId := by
      rw [Image.copy]
      split <;> rfl
    exact hid ▸ h
  applied x y h hturn := by rwa [imageId_of_turn hturn y (.inl rfl)]
  stored x y h hturn := by rwa [imageId_of_turn hturn y (.inr (.inl rfl))]
  handed x y h hturn := by rwa [imageId_of_turn hturn y (.inr (.inr (.inl rfl)))]
  failed x y h hturn := by rwa [imageId_of_turn hturn y (.inr (.inr (.inr rfl)))]
  answer := by
    rintro x y h ⟨-, -, -, -, -, -, rfl⟩
    exact h
  undecoded := by
    rintro x y h ⟨-, -, -, -, -, rfl⟩
    exact h
  reject := by
    rintro x y h ⟨-, rfl⟩
    exact h

omit [Platform] in
/-- An entry of the map is the last image that was written for its path. -/
theorem get_replay_iff {log : List (MapWrite (Image Mat))} {path : String} {img : Image Mat} :
    (EventLoop.replay (imageLoop L) log)[path]? = some img ↔
      ∃ w, EventLoop.LastWrite (imageLoop L) log w ∧ w.item.imageId = path ∧ w.item = img := by
  have hlast : ∀ w, EventLoop.LastWrite (imageLoop L) log w →
      (EventLoop.replay (imageLoop L) log)[w.item.imageId]? = some w.item := by
    rintro w ⟨before, after, rfl, hafter⟩
    refine (EventLoop.replay_last (K := imageLoop L) before w hafter).trans ?_
    cases w <;> rfl
  constructor
  · intro hget
    have hwritten := EventLoop.mem_replay.mp (TreeMap.mem_iff_isSome_getElem?.mpr
      (by rw [hget]; rfl))
    obtain ⟨w, hw, rfl⟩ := EventLoop.exists_lastWrite hwritten
    exact ⟨w, hw, rfl, Option.some.inj ((hlast w hw).symm.trans hget)⟩
  · rintro ⟨w, hw, rfl, rfl⟩
    exact hlast w hw

omit [Platform] in
/-- The first entry of the map is the last image that was written for the least path. -/
theorem head_error_iff {log : List (MapWrite (Image Mat))} :
    (∃ entry ∈ (EventLoop.replay (imageLoop L) log).toList.head?,
      entry.2.queryErrorResponse ≠ "") ↔
    ∃ w, EventLoop.LastWrite (imageLoop L) log w ∧
      (∀ w' ∈ log, w.item.imageId ≤ w'.item.imageId) ∧ w.item.queryErrorResponse ≠ "" := by
  have hleast : ∀ k, (∀ k' ∈ EventLoop.replay (imageLoop L) log, k ≤ k') ↔
      ∀ w' ∈ log, k ≤ w'.item.imageId := fun k => by
    simp only [EventLoop.mem_replay, forall_exists_index, and_imp]
    exact ⟨fun h w' hw' => h _ w' hw' rfl, fun h _ w' hw' hkey => hkey ▸ h w' hw'⟩
  rw [EventLoop.exists_head_iff]
  simp only [hleast, get_replay_iff]
  constructor
  · rintro ⟨_, _, ⟨w, hw, rfl, rfl⟩, hk, herror⟩
    exact ⟨w, hw, hk, herror⟩
  · rintro ⟨w, hw, hk, herror⟩
    exact ⟨_, _, ⟨w, hw, rfl, rfl⟩, hk, herror⟩

/-- The image has a blob in the format in which the command returns the image of its path. -/
def HasBlob (L : Library Mat) (cmd : Json) (images : List (Image Mat)) (img : Image Mat) : Prop :=
  ∃ entity ∈ images, ∃ format blob, entity.imageId = img.imageId ∧
    replyFormat cmd entity = .ok format ∧ blob ≠ [] ∧
    getEncodedImageAsync L format img = .ok blob

/-- The map can be answered if all that was written last has a blob. -/
theorem canAnswer_iff {cmd : Json} {w : Walk Mat} {log : List (MapWrite (Image Mat))}
    (hw : Formatted cmd w)
    (hsame : ∀ img ∈ w.images, ∀ img' ∈ w.images, img.imageId = img'.imageId → img = img')
    (hknown : ∀ v ∈ log, v.item.imageId ∈ w.images.map Image.imageId) :
    CanAnswer L w.formats (EventLoop.replay (imageLoop L) log) ↔
      ∀ v, EventLoop.LastWrite (imageLoop L) log v → HasBlob L cmd w.images v.item := by
  have hformat : ∀ v ∈ log, ∀ blob, getEncodedImageAsync L
      (w.formats[v.item.imageId]?.getD .noneImage) v.item = .ok blob ↔
      ∃ entity ∈ w.images, ∃ format, entity.imageId = v.item.imageId ∧
        replyFormat cmd entity = .ok format ∧ getEncodedImageAsync L format v.item = .ok blob := by
    intro v hv blob
    obtain ⟨img, himg, hid⟩ := List.mem_map.mp (hknown v hv)
    obtain ⟨entity, hentity, format, hid', hreply, hget⟩ := hw img himg
    rw [hid] at hid' hget
    rw [hget, Option.getD_some]
    constructor
    · exact fun hblob => ⟨entity, hentity, format, hid', hreply, hblob⟩
    · rintro ⟨entity', hentity', format', hsameId, hreply', hblob⟩
      obtain rfl := hsame entity' hentity' entity hentity (hsameId.trans hid'.symm)
      obtain rfl := Except.ok.inj (hreply.symm.trans hreply')
      exact hblob
  have hmem : ∀ v, EventLoop.LastWrite (imageLoop L) log v → v ∈ log := by
    rintro v ⟨before, after, rfl, -⟩
    simp
  rw [CanAnswer]
  constructor
  · intro h v hv
    have hentry : (v.item.imageId, v.item) ∈
        (EventLoop.replay (imageLoop L) log).toList :=
      TreeMap.mem_toList_iff_getElem?_eq_some.mpr (get_replay_iff.mpr ⟨v, hv, rfl, rfl⟩)
    obtain ⟨blob, hne, hblob⟩ := h _ hentry
    obtain ⟨entity, hentity, format, hid, hreply, hencoded⟩ :=
      (hformat v (hmem v hv) blob).mp hblob
    exact ⟨entity, hentity, format, blob, hid, hreply, hne, hencoded⟩
  · rintro h ⟨path, img⟩ hentry
    obtain ⟨v, hv, rfl, rfl⟩ := get_replay_iff.mp
      (TreeMap.mem_toList_iff_getElem?_eq_some.mp hentry)
    obtain ⟨entity, hentity, format, blob, hid, hreply, hne, hencoded⟩ := h v hv
    exact ⟨blob, hne, (hformat v (hmem v hv) blob).mpr
      ⟨entity, hentity, format, hid, hreply, hencoded⟩⟩

/-- **Failures.** In an addition, a failed operation is reported exactly if another one throws
an exception, or what the others leave cannot be written; otherwise that is stored. In a search,
the entry of an image that has failed carries its error, and the reply says so exactly if what was
written last for the least path has an error, or what was written last for some path has no blob
in the format that the command asks for. -/
theorem failures_reported_iff {Mat : Type} (L : AddImage.IngestLibrary Mat) :
    (∀ (createUnique : Format → String) (cmd : Json) (blob : Bytes),
      (∀ (p : AddImage.Prepared Mat) (k : ℕ) (msg : VCL.Message),
        AddImage.prepare L createUnique cmd blob = .ok p →
        (p.outcomes L)[k]? = some (.failed msg) →
        (AddImage.addImage L createUnique cmd blob).IsError) ↔
      ∀ (p : AddImage.Prepared Mat) (k : ℕ) (msg : VCL.Message),
        AddImage.prepare L createUnique cmd blob = .ok p →
        (p.outcomes L)[k]? = some (.failed msg) →
        .threw ∈ p.outcomes L ∨ ¬ AddImage.Writable L p (p.lastPixels L)) ∧
    (∀ (createUnique : Format → String) (cmd : Json) (blob : Bytes) (p : AddImage.Prepared Mat),
      AddImage.prepare L createUnique cmd blob = .ok p → .threw ∉ p.outcomes L →
      AddImage.Writable L p (p.lastPixels L) →
      AddImage.addImage L createUnique cmd blob =
        .stored p.fileName p.format (p.lastPixels L)) ∧
    (∀ (responses : List Json) (json cmd : Json) (n : ℕ) (images : List (Image Mat))
      (resumed : TreeMap String (Image Mat) → Option Reply) (log : List (MapWrite (Image Mat)))
      (img : Image Mat) (s : EventLoop (Image Mat)) (reply : Reply),
      json.get "FindImage" = .ok cmd →
      constructResponses L.toLibrary responses json = .wait n images resumed →
      EventLoop.LoggedRun (imageLoop L.toLibrary) (.start n images) log s →
      s.isLoopRunning = false →
      EventLoop.LastWrite (imageLoop L.toLibrary) log (.error img) →
      resumed s.map = some reply →
      s.map[img.imageId]? = some img ∧
        (¬ reply.Succeeds "FindImage" ↔
          (∃ w, EventLoop.LastWrite (imageLoop L.toLibrary) log w ∧
            (∀ w' ∈ log, w.item.imageId ≤ w'.item.imageId) ∧ w.item.queryErrorResponse ≠ "") ∨
          ∃ w, EventLoop.LastWrite (imageLoop L.toLibrary) log w ∧
            ¬ HasBlob L.toLibrary cmd images w.item)) := by
  refine ⟨fun createUnique cmd blob => ?_, fun createUnique cmd blob p hp =>
    (AddImage.addImage_reports_iff createUnique cmd blob hp).2, ?_⟩
  · refine forall₄_congr fun p k msg hp => forall_congr' fun _ => ?_
    exact (AddImage.addImage_reports_iff createUnique cmd blob hp).1
  · intro responses json cmd n images resumed log img s reply hcmd hwait hrun _ hfailed hreply
    obtain ⟨cmd', findImage, w, ops, entities, hcmd', hlisted, -, rfl, rfl, hformats, hall⟩ :=
      wait_inv hwait
    obtain rfl := Except.ok.inj (hcmd.symm.trans hcmd')
    have hmade : ∀ img ∈ w.images, image L.toLibrary ops img.imageId = some img :=
      forall₂_right hall fun _ _ ⟨_, _, hmade⟩ => hmade
    have hsame : ∀ img ∈ w.images, ∀ img' ∈ w.images, img.imageId = img'.imageId →
        img = img' := fun img himg img' himg' hid =>
      Option.some.inj ((hmade img himg).symm.trans (hid ▸ hmade img' himg'))
    have hknown : ∀ v ∈ log, v.item.imageId ∈ w.images.map Image.imageId :=
      (hrun.allHave (kept_path _) (.start n fun _ himg => List.mem_map_of_mem himg)).2
    have hmap := hrun.map_eq rfl
    obtain ⟨hobject, hstatus⟩ := listed_status hlisted
    refine ⟨by rw [hmap]; exact get_replay_iff.mpr ⟨_, hfailed, rfl, rfl⟩, ?_⟩
    rw [resume_succeeds_iff hobject hstatus hreply, not_and_or, hmap,
      canAnswer_iff hformats hsame hknown, ← head_error_iff]
    simp only [not_forall, exists_prop, ne_eq]

end FindImage

/-! ### A crop that does not fit -/

namespace AddImage

/-- What `Image::Crop` does to the numbers of rows and columns. -/
def cropSize (op : Json) (m : ℕ × ℕ) : OperationResult (ℕ × ℕ) :=
  match (do
    let x ← getValue Json.asInt op "x" 0
    let y ← getValue Json.asInt op "y" 0
    let width ← getValue Json.asInt op "width" 0
    let height ← getValue Json.asInt op "height" 0
    pure (x, y, width, height) : Except QueryError (ℤ × ℤ × ℤ × ℤ)) with
  | .ok (x, y, width, height) =>
      if m.1 < height + y ∨ m.2 < width + x then
        .failed ⟨"Requested area is not within the image", by decide⟩
      else .done (some (height.toNat, width.toNat))
  | .error _ => .threw

/-- Images of 10 rows and columns, and one of 30, which are cropped. -/
def cropping : IngestLibrary (ℕ × ℕ) where
  imread path := if path = "png/aa.png" then some (30, 30) else some (10, 10)
  tdbImage _ := none
  perform _ op m result := cropSize op m = match result with
    | .ok pixels => .done pixels
    | .error msg => .failed msg
  answer _ _ _ := False
  custom _ _ := none
  readFile _ := []
  imencode _ m := [m.1.toUInt8, m.2.toUInt8]
  imdecode _ := some (10, 10)
  outcome _ _ := cropSize
  canWrite _ _ _ := true

/-- `{"type": "crop", "x": 0, "y": 0, "width": 20, "height": 20}`. -/
def wideCrop : Json := .object [("height", .int 20), ("type", .string "crop"),
  ("width", .int 20), ("x", .int 0), ("y", .int 0)]

/-- An addition of an image, cropped. -/
def cropCommand : Json := .object [("format", .string "png"), ("operations", .array [wideCrop])]

/-- Where the image is stored. -/
def uniqueName (_ : Format) : String := "db/images/png/aa.png"

/-- The image with the operation. -/
def toCrop : Prepared (ℕ × ℕ) where
  img := ⟨"", .noneImage, some (10, 10), [.apply wideCrop], 0, ""⟩
  fileName := "db/images/png/aa.png"
  format := .png

/-- A crop outside of the image fails, and `AddImage` stores the image without it. -/
theorem failed_crop_stored : prepare cropping uniqueName cropCommand [] = .ok toCrop ∧
    (toCrop.outcomes cropping)[0]? =
      some (.failed ⟨"Requested area is not within the image", by decide⟩) ∧
    addImage cropping uniqueName cropCommand [] =
      .stored "db/images/png/aa.png" .png (some (10, 10)) := by
  exact ⟨rfl, rfl, rfl⟩

end AddImage

namespace FindImage

open EventLoop AddImage

/-- The image of a path, with the operation. -/
def toCrop (path : String) : Image (ℕ × ℕ) where
  imageId := path
  format := .png
  pixels := none
  operations := [.read, .apply wideCrop]
  opCompleted := 0
  queryErrorResponse := ""

/-- The image of 30 rows and columns, after its operation. -/
def cropped : Image (ℕ × ℕ) := { (toCrop "png/aa.png").copy cropping.toLibrary with
  pixels := some (20, 20)
  opCompleted := 1 }

def tooSmall : Image (ℕ × ℕ) := { (toCrop "png/bb.png").copy cropping.toLibrary with
  queryErrorResponse := "Requested area is not within the image" }

/-- One step of the loop crops the first image. -/
theorem turn_cropped : Image.Turn cropping.toLibrary
    ((toCrop "png/aa.png").copy cropping.toLibrary) (.applied cropped) :=
  @Image.Turn.execute _ _ _ (.apply wideCrop) cropped rfl
    (@Image.Operate.applied _ _ wideCrop ((toCrop "png/aa.png").copy cropping.toLibrary) (30, 30)
      (some (20, 20)) rfl rfl)

/-- One step of the loop fails at the second image, which is too small. -/
theorem turn_tooSmall : Image.Turn cropping.toLibrary
    ((toCrop "png/bb.png").copy cropping.toLibrary) (.failed tooSmall) :=
  @Image.Turn.execute _ _ _ (.apply wideCrop) tooSmall rfl
    (@Image.Operate.thrown _ _ wideCrop ((toCrop "png/bb.png").copy cropping.toLibrary) (10, 10)
      ⟨"Requested area is not within the image", by decide⟩ rfl rfl)

/-- The thread does not write where it goes on to the next image. -/
theorem not_wrote_done {s t : EventLoop (Image (ℕ × ℕ))} {flag : Bool} {item : Image (ℕ × ℕ)}
    {rest : List (Image (ℕ × ℕ))} (hat : s.operation = .working flag (item :: rest))
    (hremote : s.remote = .looping []) (ht : t.operation = .working flag rest)
    (w : MapWrite (Image (ℕ × ℕ))) : ¬ Wrote (imageLoop cropping.toLibrary) s t w := by
  intro hwrote
  cases w with
  | store item' =>
      obtain ⟨_, _, _, hat', ⟨hturn, -⟩ | ⟨-, hnext⟩, -⟩ := hwrote
      · generalize hresult : Turn.stored item' = result at hturn
        cases hturn with
        | done _ => cases hresult
        | execute _ _ => split_ifs at hresult
      · rw [hat] at hat'
        cases hat'
        rw [ht] at hnext
        simp at hnext
  | answer item' =>
      obtain ⟨_, _, _, _, hat', -⟩ := hwrote
      rw [hremote] at hat'
      cases hat'
  | error item' =>
      rcases hwrote with ⟨_, _, _, -, -, hnext, -⟩ | ⟨_, _, hat', -⟩
      · rw [ht] at hnext
        cases hnext
      · rw [hremote] at hat'
        cases hat'

/-- The first image is cropped, and the second one is too small. -/
theorem too_small_run : ∃ s, LoggedRun (imageLoop cropping.toLibrary)
    (.start 2 (["png/aa.png", "png/bb.png"].map toCrop)) [.store cropped, .error tooSmall] s ∧
    s.isLoopRunning = false ∧
    s.map.toList = [("png/aa.png", cropped), ("png/bb.png", tooSmall)] := by
  have hrun := LoggedRun.refl (K := imageLoop cropping.toLibrary)
    (s := .start 2 (["png/aa.png", "png/bb.png"].map toCrop))
  have hrun := hrun.silent (.enqueue rfl) (not_wrote rfl rfl)
  have hrun := hrun.silent (.enqueue rfl) (not_wrote rfl rfl)
  have hrun := hrun.silent (.enter rfl rfl) (not_wrote rfl rfl)
  have hrun := hrun.silent (.take rfl (by simp [start])) (not_wrote rfl rfl)
  have hrun := hrun.wrote (w := .store cropped) (.applied rfl turn_cropped)
    ⟨_, _, _, rfl, .inr ⟨turn_cropped, rfl⟩, rfl⟩
  have hrun := hrun.silent (.done rfl (.done (Nat.le_refl 1))) (not_wrote_done rfl rfl rfl)
  have hrun := hrun.wrote (w := .error tooSmall) (.fail rfl turn_tooSmall)
    (.inl ⟨_, _, _, rfl, turn_tooSmall, rfl, rfl⟩)
  have hrun := hrun.silent (.abort rfl) (not_wrote rfl rfl)
  exact ⟨_, hrun, rfl, rfl⟩

/-- A search for the two images, cropped. -/
def cropSearch : Json := .object [("FindImage", .object [("operations", .array [wideCrop])])]

/-- `FindImage` of two images with a crop waits for the loop. -/
theorem waits_for_crop : ∃ findImage w, constructResponses cropping.toLibrary
    (found ["png/aa.png", "png/bb.png"]) cropSearch =
      .wait 2 (["png/aa.png", "png/bb.png"].map toCrop)
        (resume cropping.toLibrary findImage w) :=
  ⟨_, _, rfl⟩

/-- The second image has failed, and the search succeeds; an addition whose only operation has
failed is not reported either. -/
theorem failures_reported_iff_two : ∃ s findImage w reply,
    LoggedRun (imageLoop cropping.toLibrary)
      (.start 2 (["png/aa.png", "png/bb.png"].map toCrop)) [.store cropped, .error tooSmall] s ∧
    s.map["png/bb.png"]? = some tooSmall ∧
    resume cropping.toLibrary findImage w s.map = some reply ∧ reply.Succeeds "FindImage" ∧
    ¬ (addImage cropping uniqueName cropCommand []).IsError := by
  obtain ⟨s, hrun, hstopped, hmap⟩ := too_small_run
  obtain ⟨findImage, w, hwait⟩ := waits_for_crop
  have hne : s.map.toList ≠ [] := by
    rw [hmap]
    exact List.cons_ne_nil _ _
  obtain ⟨reply, hreply⟩ := exists_resume cropping.toLibrary findImage w hne
  have hlast : LastWrite (imageLoop cropping.toLibrary) [.store cropped, .error tooSmall]
      (.error tooSmall) := ⟨[.store cropped], [], rfl, List.forall_mem_nil _⟩
  obtain ⟨-, hstores, hsearch⟩ := failures_reported_iff cropping
  obtain ⟨hentry, hiff⟩ := hsearch _ _ _ _ _ _ _ tooSmall s reply rfl hwait hrun hstopped hlast
    hreply
  refine ⟨s, findImage, w, reply, hrun, hentry, hreply, ?_, ?_⟩
  · by_contra hno
    rcases hiff.mp hno with ⟨v, ⟨before, after, hlog, -⟩, hleast, herror⟩ |
      ⟨v, ⟨before, after, hlog, -⟩, hnone⟩
    · have hv : v ∈ [.store cropped, .error tooSmall] := by
        rw [hlog]
        simp
      rcases List.mem_pair.mp hv with rfl | rfl
      · exact herror rfl
      · exact absurd (hleast (.store cropped) (List.mem_cons_self ..)) (by decide)
    · have hv : v ∈ [.store cropped, .error tooSmall] := by
        rw [hlog]
        simp
      rcases List.mem_pair.mp hv with rfl | rfl
      · exact hnone ⟨toCrop "png/aa.png", by simp, .png, _, rfl, rfl, List.cons_ne_nil _ _, rfl⟩
      · exact hnone ⟨toCrop "png/bb.png", by simp, .png, _, rfl, rfl, List.cons_ne_nil _ _, rfl⟩
  · have houtcomes : AddImage.toCrop.outcomes cropping =
        [.failed ⟨"Requested area is not within the image", by decide⟩] := rfl
    rw [hstores uniqueName cropCommand [] AddImage.toCrop rfl (by simp [houtcomes])
      ⟨fun _ => rfl, rfl⟩]
    exact id

end FindImage

end Vdms
