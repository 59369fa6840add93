import Vdms.Building
import Vdms.VideoLoop

/-!
# The Responses of `FindImage` and `FindVideo`

`construct_responses` of the two commands. Without operations the blobs are added while the
entities are walked through. With operations the entities are enqueued in an event loop, and
the blobs are those of the loop's map, in the order of its keys, where entities with one
path have one entry.

## Main results

* `blobs_follow_entities`: with operations the blobs are those of the entities, in their
  order, exactly if the paths are in strictly increasing order.
* `FindImage.walk_blobs`, `FindVideo.walk_blobs`: without operations they always are.
-/

namespace Vdms

open Relation VCL
open Std (TreeMap)

/-- `removeMember(key)`. -/
def Json.removeMember (j : Json) (key : String) : Except QueryError Json :=
  match j with
  | .null => .ok .null
  | .object ms => .ok (.object (ms.filter fun m => m.1 ≠ key))
  | _ => .error .logicError

/-- The status is that of a success. -/
def Json.isZero : Json → Bool
  | .int 0 => true
  | _ => false

/-- What a command adds to the answer: its blobs, and its JSON or an exception. -/
structure Reply where
  blobs : List Bytes
  result : Except RequestError Json

/-- `construct_responses` up to its end, or up to the loop that it waits for. There is no
reply to an empty map: the first entry is read without a look. -/
inductive Phase (α : Type) where
  | reply (reply : Reply)
  | wait (nrofEntities : ℕ) (entities : List α) (resume : TreeMap String α → Option Reply)

/-- Why a walk through the entities stops: an exception, or `return error(…)`. -/
inductive Stop where
  | threw (e : RequestError)
  | returned (res : Json)

/-- `{"info": info, "status": RSCommand::Error}`. -/
def failure (info : String) : Json := .object [("info", .string info), ("status", .int (-1))]

/-- A JSON exception leaves the walk. -/
def ofJson {α : Type} (x : Except QueryError α) : Except Stop α :=
  x.mapError fun e => .threw e.toRequestError

/-- A `VCL::Exception` is caught in the walk. -/
def ofVcl {ε α : Type} (x : Except ε α) : Except Stop α :=
  x.mapError fun _ => .returned (failure "VCL Exception")

/-- The reply of a walk that has stopped after these blobs. -/
def Stop.reply (cmdName : String) (blobs : List Bytes) : Stop → Reply
  | .threw e => ⟨blobs, .error e⟩
  | .returned res => ⟨blobs, .ok (.object [(cmdName, res)])⟩

/-- `ret[_cmd_name].swap(response)` at the end, without the entities if there is nothing in
them. -/
def finishReply (cmdName : String) (response : Json) (entities : List Json)
    (dropEntities : Bool) (blobs : List Bytes) : Reply :=
  ⟨blobs, Except.mapError QueryError.toRequestError do
    let response ← response.setMember "entities" (.array entities)
    let response ← if dropEntities then response.removeMember "entities" else pure response
    pure (.object [(cmdName, response)])⟩

/-! ### `FindImage` -/

namespace FindImage

variable {Mat : Type}

/-- What the walk through the entities has built. -/
structure Walk (Mat : Type) where
  entities : List Json := []
  flagEmpty : Bool := false
  images : List (Image Mat) := []
  formats : TreeMap String Format := ∅
  blobs : List Bytes := []

variable (L : Library Mat)

/-- `Image::get_encoded_image`, of an image without operations: the pixels are read. -/
def getEncodedImage (format : Format) (img : Image Mat) : Except String Bytes :=
  if format = .bin then .ok (L.readFile img.imageId)
  else match (img.copy L).pixels with
    | none => .error "could not be read, object is empty"
    | some m => .ok (L.imencode format m)

/-- `Image::get_encoded_image_async`. -/
def getEncodedImageAsync (format : Format) (img : Image Mat) : Except RequestError Bytes :=
  if format = .bin then .ok (L.readFile img.imageId)
  else match img.pixels with
    | none => .error .vcl
    | some m => .ok (L.imencode format m)

variable [Platform]

/-- `get_requested_format`. -/
def requestedFormat (cmd : Json) : Except QueryError Format := do
  let format ← getValue Json.asString cmd "format" ""
  pure (if format = "png" then .png
    else if format = "jpg" then .jpg
    else if format = "tdb" then .tdb
    else if format = "bin" then .bin
    else .noneImage)

/-- The path of the image of an entity, and the entity without it. -/
def entityPath (cmd ent : Json) : Except QueryError (String × Json) := do
  if ← cmd.hasMember "metaconstraints" then
    let name ← ent.get "image_name"
    pure (← name.asString, ent)
  else
    let path ← ent.get "VD:imgPath"
    pure (← path.asString, ← ent.removeMember "VD:imgPath")

/-- The image of a path, with the operations of the command. -/
def entityImage (cmd : Json) (path : String) : Except Stop (Image Mat) := do
  let img ← ofVcl (Image.new L path)
  if ← ofJson (cmd.hasMember "operations") then
    let operations ← ofJson (cmd.get "operations")
    match ← ofJson (ImageCommand.enqueueOperations L img operations.elements) with
    | some img => pure img
    | none => throw (.returned (failure "custom function process not found"))
  else pure img

/-- The format in which the image is returned. -/
def replyFormat (cmd : Json) (img : Image Mat) : Except Stop Format := do
  if ← ofJson (cmd.hasMember "format") then
    let format ← ofJson (requestedFormat cmd)
    if format = .noneImage ∨ format = .tdb then
      throw (.returned (failure "Invalid Requested Format for FindImage"))
    pure format
  else pure (if img.format ≠ .tdb then img.format else .png)

/-- One entity: its image is enqueued, or its blob is added. -/
def visit (cmd ent : Json) (w : Walk Mat) : Except Stop (Walk Mat) := do
  let (path, ent) ← ofJson (entityPath cmd ent)
  let names ← ofJson ent.memberNames
  let img ← entityImage L cmd path
  let format ← replyFormat cmd img
  let w := { w with
    entities := w.entities ++ [ent]
    flagEmpty := w.flagEmpty || names.isEmpty }
  if ← ofJson (cmd.hasMember "operations") then
    pure { w with
      images := w.images ++ [img]
      formats := w.formats.insertIfNew img.imageId format }
  else
    let blob ← ofVcl (getEncodedImage L format img)
    if blob = [] then throw (.returned (failure "Image Data not found"))
    pure { w with blobs := w.blobs ++ [blob] }

/-- The walk through the entities. -/
def walk (cmd : Json) : List Json → Walk Mat → Except Reply (Walk Mat)
  | [], w => .ok w
  | ent :: rest, w =>
      match visit L cmd ent w with
      | .ok w' => walk cmd rest w'
      | .error stop => .error (stop.reply "FindImage" w.blobs)

/-- The loop over the map. -/
def collect (formats : TreeMap String Format) :
    List (String × Image Mat) → List Bytes → Except Reply (List Bytes)
  | [], blobs => .ok blobs
  | (key, img) :: rest, blobs =>
      match getEncodedImageAsync L (formats[key]?.getD .noneImage) img with
      | .error e => .error ⟨blobs, .error e⟩
      | .ok [] => .error ((Stop.returned (failure "Image Data not found")).reply "FindImage" blobs)
      | .ok blob => collect formats rest (blobs ++ [blob])

/-- From the end of the event loop on. -/
def resume (findImage : Json) (w : Walk Mat) (map : TreeMap String (Image Mat)) : Option Reply :=
  match map.toList with
  | [] => none
  | (key, img) :: rest =>
      if img.queryErrorResponse ≠ "" then
        some ((Stop.returned (failure img.queryErrorResponse)).reply "FindImage" [])
      else match collect L w.formats ((key, img) :: rest) [] with
        | .error reply => some reply
        | .ok blobs => some (finishReply "FindImage" findImage w.entities w.flagEmpty blobs)

/-- The entities that are walked through, and the response they are part of; or the end,
where there is none or no blob is asked for. -/
def listed (cmd : Json) (responses : List Json) : Except Stop (Json × Option (List Json)) := do
  match responses with
  | [findImage] =>
      let status ← ofJson (findImage.get "status")
      if !status.isZero then
        throw (.returned (← ofJson (findImage.setMember "status" (.int (-1)))))
      let results ← ofJson (getValue .ok cmd "results" .null)
      let entities ← ofJson (findImage.get "entities")
      if entities.size = 0 then
        throw (.returned (.object [("info", .string "No entities found"), ("status", .int 0)]))
      if ← ofJson (getValue Json.asBool results "blob" true) then
        pure (findImage, some entities.elements)
      else pure (findImage, none)
  | _ => throw (.returned (failure "PMGD Response Bad Size"))

/-- `FindImage::construct_responses`. -/
def constructResponses (responses : List Json) (json : Json) : Phase (Image Mat) :=
  match (do
    let cmd ← ofJson (json.get "FindImage")
    let hasOperations ← ofJson (cmd.hasMember "operations")
    pure (cmd, hasOperations, ← listed cmd responses) : Except Stop _) with
  | .error stop => .reply (stop.reply "FindImage" [])
  | .ok (_, _, findImage, none) => .reply ⟨[], .ok (.object [("FindImage", findImage)])⟩
  | .ok (cmd, hasOperations, findImage, some entities) =>
      match walk L cmd entities {} with
      | .error reply => .reply reply
      | .ok w =>
          if hasOperations then .wait entities.length w.images (resume L findImage w)
          else .reply (finishReply "FindImage" findImage w.entities w.flagEmpty w.blobs)

end FindImage

/-! ### `FindVideo` -/

/-- `check_responses`. -/
def checkResponses (responses : List Json) : Except QueryError Json :=
  match responses with
  | [] => .ok (.object [("info", .string "No responses!"), ("status", .int (-1))])
  | first :: _ => do
      let statuses ← responses.mapM (Json.get · "status")
      if statuses.all fun status => match status with
          | .int z => z = 0 ∨ z = 2
          | _ => false then
        first.setMember "status" (.int 0)
      else pure first

namespace FindVideo

variable {Data : Type}

/-- What the walk through the entities has built. `shortlisted` is a member of the command
object. -/
structure Walk (Data : Type) where
  shortlisted : List String
  entities : List Json := []
  flagEmpty : Bool := true
  videos : List (Video Data) := []
  blobs : List Bytes := []

variable (L : VideoLibrary Data)

/-- The text of the exception for a vector or a string of the size -1. -/
def lengthError : RequestError := .std "cannot create std::vector larger than max_size()"

/-- `Video::get_encoded`: of a video whose operated file is not set nothing can be read. -/
def getEncoded (container codec : String) (video : Video Data) : Except RequestError Bytes :=
  match video.operated with
  | none => .error lengthError
  | some data => L.encode container codec data

/-- `VideoCommand::enqueue_operations`, for one operation. -/
def enqueueOperation [Platform] (video : Video Data) (op : Json) :
    Except QueryError (Video Data) := do
  let type ← getValue Json.asString op "type" ""
  if type ∈ ["threshold", "interval", "resize", "crop", "syncremoteOp", "userOp"] then
    return { video with operations := video.operations ++ [.apply op] }
  else if type = "remoteOp" then
    return { video with operations := video.operations ++ [.remote op] }
  else throw (.exceptionCommand "Operation not defined")

variable [Platform]

/-- With `metaconstraints`, the entities are the shortlisted videos in the order of their
names, each with the entities that name it. -/
def groupByVideo (shortlisted : List String) :
    List Json → TreeMap String (List Json) → Except QueryError (TreeMap String (List Json))
  | [], videos => .ok videos
  | ent :: rest, videos => do
      let name ← (← ent.get "video_name").asString
      if name ∉ shortlisted then groupByVideo shortlisted rest videos
      else
        let ent ← ent.setMember "VD:videoPath" (.string name)
        groupByVideo shortlisted rest (videos.insert name (videos[name]?.getD [] ++ [ent]))

/-- With `frameconstraints`, the entities of shortlisted videos are left. -/
def ofShortlisted (shortlisted : List String) : List Json → Except QueryError (List Json)
  | [] => .ok []
  | ent :: rest => do
      let name ← (← ent.get "video_name").asString
      let rest ← ofShortlisted shortlisted rest
      pure (if name ∈ shortlisted then ent :: rest else rest)

/-- The video of a path, with the operations of the command. -/
def entityVideo (cmd : Json) (path : String) : Except Stop (Video Data) := do
  if !L.opens path then throw (.returned (failure "VCL Exception"))
  let video : Video Data :=
    { videoId := path, operations := [], operated := none, queryErrorResponse := "" }
  if ← ofJson (cmd.hasMember "operations") then
    let operations ← ofJson (cmd.get "operations")
    ofJson (operations.elements.foldlM enqueueOperation video)
  else pure video

/-- The blob of one entity, or its video for the loop. A file that cannot be read has an
empty blob by the time the exception is raised; a video without data has none. -/
def visitBlob (cmd : Json) (path : String) (w : Walk Data) :
    Except (List Bytes × Stop) (Walk Data) :=
  let fails {α : Type} (x : Except Stop α) := x.mapError fun stop => (w.blobs, stop)
  do
  let operations ← fails (ofJson (cmd.hasMember "operations"))
  let container ← fails (ofJson (cmd.hasMember "container"))
  let codec ← fails (ofJson (cmd.hasMember "codec"))
  if !operations && !container && !codec then
    match L.readFile path with
    | some blob => pure { w with blobs := w.blobs ++ [blob] }
    | none => throw (w.blobs ++ [[]], .threw (.std "basic_string::_M_replace_aux"))
  else
    let video ← fails (entityVideo L cmd path)
    let container ← fails (ofJson (getValue Json.asString cmd "container" "mp4"))
    let codec ← fails (ofJson (getValue Json.asString cmd "codec" "h264"))
    if operations then pure { w with videos := w.videos ++ [video] }
    else match getEncoded L container codec video with
      | .error .vcl => throw (w.blobs, .returned (failure "VCL Exception"))
      | .error e => throw (w.blobs, .threw e)
      | .ok [] => pure w
      | .ok blob => pure { w with blobs := w.blobs ++ [blob] }

/-- The path of the video of an entity, and the entity without it. -/
def entityPath (ent : Json) : Except QueryError (String × Json) := do
  let path ← (← ent.get "VD:videoPath").asString
  pure (path, ← ent.removeMember "VD:videoPath")

/-- One entity. An entity without a path is left as it is. -/
def visit (cmd ent : Json) (w : Walk Data) :
    Except (List String × List Bytes × Stop) (Walk Data) :=
  let fails {α : Type} (x : Except Stop α) := x.mapError fun stop => (w.shortlisted, w.blobs, stop)
  do
  if !(← fails (ofJson (ent.hasMember "VD:videoPath"))) then
    pure { w with entities := w.entities ++ [ent] }
  else
    let (path, ent) ← fails (ofJson (entityPath ent))
    let byMetadata ← fails (ofJson (cmd.hasMember "metaconstraints"))
    let byFrame ← fails (ofJson (cmd.hasMember "frameconstraints"))
    let w := { w with
      shortlisted := if !byMetadata && !byFrame then w.shortlisted ++ [path] else w.shortlisted }
    let names ← (ofJson ent.memberNames).mapError fun stop => (w.shortlisted, w.blobs, stop)
    let w := { w with
      entities := w.entities ++ [ent]
      flagEmpty := w.flagEmpty && names.isEmpty }
    (visitBlob L cmd path w).mapError fun (blobs, stop) => (w.shortlisted, blobs, stop)

/-- The walk through the entities. -/
def walk (cmd : Json) : List Json → Walk Data → Except (List String × Reply) (Walk Data)
  | [], w => .ok w
  | ent :: rest, w =>
      match visit L cmd ent w with
      | .ok w' => walk cmd rest w'
      | .error (shortlisted, blobs, stop) => .error (shortlisted, stop.reply "FindVideo" blobs)

/-- The loop over the map. A video without data has no blob. -/
def collect (container codec : String) :
    List (String × Video Data) → List Bytes → Except Reply (List Bytes)
  | [], blobs => .ok blobs
  | (_, video) :: rest, blobs =>
      match getEncoded L container codec video with
      | .error e => .error ⟨blobs, .error e⟩
      | .ok [] => collect container codec rest blobs
      | .ok blob => collect container codec rest (blobs ++ [blob])

/-- From the end of the event loop on. -/
def resume (cmd findVideo : Json) (w : Walk Data) (map : TreeMap String (Video Data)) :
    Option Reply :=
  match map.toList with
  | [] => none
  | (key, video) :: rest =>
      if video.queryErrorResponse ≠ "" then
        some ((Stop.returned (failure video.queryErrorResponse)).reply "FindVideo" [])
      else match (do
          let container ← getValue Json.asString cmd "container" "mp4"
          let codec ← getValue Json.asString cmd "codec" "h264"
          pure (container, codec) : Except QueryError (String × String)) with
        | .error e => some ⟨[], .error e.toRequestError⟩
        | .ok (container, codec) =>
            match collect L container codec ((key, video) :: rest) [] with
            | .error reply => some reply
            | .ok blobs => some (finishReply "FindVideo" findVideo w.entities w.flagEmpty blobs)

/-- The entities that are walked through, and the response they are part of; with
`frameconstraints` the walk is left out. -/
def listed (shortlisted : List String) (cmd : Json) (responses : List Json) :
    Except Stop (Json × List Json) := do
  let resp ← ofJson (checkResponses responses)
  let status ← ofJson (resp.get "status")
  if !status.isZero then throw (.returned resp)
  let findVideo := responses.headD .null
  let entities ← ofJson (findVideo.get "entities")
  if entities.size = 0 then throw (.returned (failure "No entities found"))
  if ← ofJson (cmd.hasMember "metaconstraints") then
    let videos ← ofJson (groupByVideo shortlisted entities.elements ∅)
    pure (findVideo, videos.toList.map fun (name, ents) =>
      .object [("VD:videoPath", .string name), ("bbox", .array ents)])
  else if ← ofJson (cmd.hasMember "frameconstraints") then
    let entities ← ofJson (ofShortlisted shortlisted entities.elements)
    let findVideo ← ofJson (findVideo.setMember "entities" (.array entities))
    let findVideo ← ofJson (findVideo.setMember "returned" (.int entities.length))
    throw (.returned findVideo)
  else pure (findVideo, entities.elements)

/-- `FindVideo::construct_responses`, with the member of the command object before and
after. -/
def constructResponses (shortlisted : List String) (responses : List Json) (json : Json) :
    List String × Phase (Video Data) :=
  match (do
    let cmd ← ofJson (json.get "FindVideo")
    let hasOperations ← ofJson (cmd.hasMember "operations")
    pure (cmd, hasOperations, ← listed shortlisted cmd responses) : Except Stop _) with
  | .error stop => (shortlisted, .reply (stop.reply "FindVideo" []))
  | .ok (cmd, hasOperations, findVideo, entities) =>
      match walk L cmd entities { shortlisted := shortlisted } with
      | .error (shortlisted, reply) => (shortlisted, .reply reply)
      | .ok w =>
          if hasOperations ∧ w.videos ≠ [] then
            (w.shortlisted, .wait entities.length w.videos (resume L cmd findVideo w))
          else (w.shortlisted,
            .reply (finishReply "FindVideo" findVideo w.entities w.flagEmpty w.blobs))

end FindVideo

/-! ### Keys -/

/-- The keys of a map are in ascending order. -/
theorem keys_sorted {α : Type} (map : TreeMap String α) : map.keys.Pairwise (· < ·) :=
  (TreeMap.ordered_keys (t := map)).imp fun h => compareOfLessAndEq_eq_lt.mp h

/-- The entries of a map are in the order of a list of their keys exactly if the list is
strictly increasing. -/
theorem keys_eq_iff {α : Type} {map : TreeMap String α} {ids : List String}
    (hmem : ∀ k, k ∈ map ↔ k ∈ ids) : map.keys = ids ↔ ids.Pairwise (· < ·) := by
  constructor
  · rintro rfl
    exact keys_sorted map
  · intro hsorted
    have hnodup : ids.Nodup := hsorted.imp fun {a b} hlt heq => by
      subst heq
      exact String.lt_irrefl _ hlt
    have hperm : map.keys.Perm ids := by
      rw [List.perm_ext_iff_of_nodup TreeMap.nodup_keys hnodup]
      exact fun k => TreeMap.mem_keys.trans (hmem k)
    refine hperm.eq_of_pairwise ?_ (keys_sorted map) hsorted
    exact fun a b _ _ hab hba => absurd (String.lt_trans hab hba) (String.lt_irrefl a)

/-- A map that has an entry for each key of a list has one. -/
theorem toList_ne_nil {α : Type} {map : TreeMap String α} {ids : List String}
    (hmem : ∀ k, k ∈ map ↔ k ∈ ids) (hne : ids ≠ []) : map.toList ≠ [] := by
  intro hnil
  obtain ⟨id, rest, rfl⟩ := List.exists_cons_of_ne_nil hne
  have hid := TreeMap.mem_keys.mpr ((hmem id).mpr (List.mem_cons_self ..))
  rw [← TreeMap.map_fst_toList_eq_keys, hnil] at hid
  cases hid

/-- What a relation says of its second argument holds of every member of the second list. -/
theorem forall₂_right {α β : Type} {R : α → β → Prop} {P : β → Prop} {l : List α} {l' : List β}
    (h : List.Forall₂ R l l') (hR : ∀ a b, R a b → P b) : ∀ b ∈ l', P b := by
  induction h with
  | nil => exact nofun
  | cons hab _ ih => exact List.forall_mem_cons.mpr ⟨hR _ _ hab, ih⟩

/-! ### Blobs of images -/

/-- What the conversion of a JSON result returns is the result. -/
theorem ofJson_eq {α : Type} {x : Except QueryError α} {a : α} (h : ofJson x = .ok a) :
    x = .ok a :=
  mapError_eq h

/-- What the conversion of a result of the VCL returns is the result. -/
theorem ofVcl_eq {ε α : Type} {x : Except ε α} {a : α} (h : ofVcl x = .ok a) : x = .ok a :=
  mapError_eq h

/-- A member that is there has a value. -/
theorem get_of_hasMember {j : Json} {key : String} (h : j.hasMember key = .ok true) :
    ∃ v, j.get key = .ok v := by
  cases j with
  | object ms => exact ⟨_, rfl⟩
  | _ => cases h

namespace FindImage

variable [Platform] {Mat : Type} {L : Library Mat}

/-- The image of an entity is that of its path, with the operations of the command. -/
theorem entityImage_eq {cmd : Json} {path : String} {img : Image Mat}
    (h : entityImage L cmd path = .ok img) (hops : cmd.hasMember "operations" = .ok true) :
    ∃ ops : Json, cmd.get "operations" = .ok ops ∧ image L ops.elements path = some img := by
  rw [entityImage] at h
  obtain ⟨fresh, hnew, h⟩ := bind_ok_inv h
  obtain ⟨has, hhas, h⟩ := bind_ok_inv h
  obtain rfl : has = true := Except.ok.inj ((ofJson_eq hhas).symm.trans hops)
  obtain ⟨ops, hget, h⟩ := bind_ok_inv h
  obtain ⟨result, henqueue, h⟩ := bind_ok_inv h
  cases result with
  | none => cases h
  | some img' =>
      cases h
      refine ⟨ops, ofJson_eq hget, ?_⟩
      rw [image, ofVcl_eq hnew]
      dsimp only
      rw [ofJson_eq henqueue]

/-- What the visit of one entity enqueues. -/
theorem visit_enqueues {cmd ent : Json} {w w' : Walk Mat} (h : visit L cmd ent w = .ok w')
    (hops : cmd.hasMember "operations" = .ok true) :
    ∃ path ent' ops img format, entityPath cmd ent = .ok (path, ent') ∧
      cmd.get "operations" = .ok ops ∧ image L ops.elements path = some img ∧
      replyFormat cmd img = .ok format ∧ w'.images = w.images ++ [img] ∧
      w'.formats = w.formats.insertIfNew img.imageId format := by
  rw [visit] at h
  obtain ⟨⟨path, ent'⟩, hpath, h⟩ := bind_ok_inv h
  obtain ⟨names, -, h⟩ := bind_ok_inv h
  obtain ⟨img, himg, h⟩ := bind_ok_inv h
  obtain ⟨format, hformat, h⟩ := bind_ok_inv h
  obtain ⟨has, hhas, h⟩ := bind_ok_inv h
  obtain rfl : has = true := Except.ok.inj ((ofJson_eq hhas).symm.trans hops)
  obtain ⟨ops, hget, hmade⟩ := entityImage_eq himg hops
  cases h
  exact ⟨path, ent', ops, img, format, ofJson_eq hpath, hget, hmade, hformat, rfl, rfl⟩

/-- What the visit of one entity adds to the blobs. -/
theorem visit_adds {cmd ent : Json} {w w' : Walk Mat} (h : visit L cmd ent w = .ok w')
    (hops : cmd.hasMember "operations" = .ok false) :
    ∃ path ent' img format blob, entityPath cmd ent = .ok (path, ent') ∧
      Image.new L path = .ok img ∧ getEncodedImage L format img = .ok blob ∧
      w'.blobs = w.blobs ++ [blob] := by
  rw [visit] at h
  obtain ⟨⟨path, ent'⟩, hpath, h⟩ := bind_ok_inv h
  obtain ⟨names, -, h⟩ := bind_ok_inv h
  obtain ⟨img, himg, h⟩ := bind_ok_inv h
  obtain ⟨format, -, h⟩ := bind_ok_inv h
  obtain ⟨has, hhas, h⟩ := bind_ok_inv h
  obtain rfl : has = false := Except.ok.inj ((ofJson_eq hhas).symm.trans hops)
  obtain ⟨blob, hblob, h⟩ := bind_ok_inv h
  rw [entityImage] at himg
  obtain ⟨fresh, hnew, himg⟩ := bind_ok_inv himg
  rw [hops] at himg
  cases himg
  dsimp only at h
  split at h
  · cases h
  cases h
  exact ⟨path, ent', _, format, blob, ofJson_eq hpath, ofVcl_eq hnew, ofVcl_eq hblob, rfl⟩

/-- Every image of the loop is that of an entity, in the order of the entities. -/
theorem walk_enqueues {cmd : Json} (hops : cmd.hasMember "operations" = .ok true) :
    ∀ {entities : List Json} {w w' : Walk Mat}, walk L cmd entities w = .ok w' →
      ∃ images, w'.images = w.images ++ images ∧
        List.Forall₂ (fun ent img => ∃ path ent' ops, entityPath cmd ent = .ok (path, ent') ∧
          cmd.get "operations" = .ok ops ∧ image L ops.elements path = some img)
          entities images
  | [], w, w', h => by
      cases h
      exact ⟨[], (List.append_nil _).symm, .nil⟩
  | ent :: rest, w, w', h => by
      rw [walk] at h
      split at h
      · rename_i middle hvisit
        obtain ⟨path, ent', ops, img, -, hpath, hget, hmade, -, himages, -⟩ :=
          visit_enqueues hvisit hops
        obtain ⟨images, hrest, hall⟩ := walk_enqueues hops h
        refine ⟨img :: images, ?_, .cons ⟨path, ent', ops, hpath, hget, hmade⟩ hall⟩
        rw [hrest, himages, List.append_assoc, List.singleton_append]
      · cases h

/-- Every image of the loop has a format, which is the reply format of an image of its path. -/
def Formatted (cmd : Json) (w : Walk Mat) : Prop :=
  ∀ img ∈ w.images, ∃ img' ∈ w.images, ∃ format, img'.imageId = img.imageId ∧
    replyFormat cmd img' = .ok format ∧ w.formats[img.imageId]? = some format

/-- The walk notes a format for every image that it enqueues, the first one of each path. -/
theorem walk_formats {cmd : Json} (hops : cmd.hasMember "operations" = .ok true) :
    ∀ {entities : List Json} {w w' : Walk Mat}, Formatted cmd w →
      (∀ key, key ∈ w.formats → ∃ img ∈ w.images, img.imageId = key) →
      walk L cmd entities w = .ok w' → Formatted cmd w'
  | [], w, w', hw, _, h => by
      cases h
      exact hw
  | ent :: rest, w, w', hw, hknown, h => by
      rw [walk] at h
      split at h
      · rename_i middle hvisit
        obtain ⟨-, -, -, img, format, -, -, -, hformat, himages, hformats⟩ :=
          visit_enqueues hvisit hops
        refine walk_formats hops ?_ ?_ h
        · intro img' himg'
          rw [himages, List.mem_append, List.mem_singleton] at himg'
          -- a format that is there for the path stays
          by_cases hmem : img'.imageId ∈ w.formats
          · obtain ⟨known, hin, hid⟩ := hknown _ hmem
            obtain ⟨made, hin, format', hid', hformat', hget⟩ := hw known hin
            refine ⟨made, by rw [himages]; exact List.mem_append_left _ hin, format',
              hid'.trans hid, hformat', ?_⟩
            have hold : ¬(compare img.imageId img'.imageId = .eq ∧ img.imageId ∉ w.formats) := by
              rintro ⟨heq, hnew⟩
              rw [Std.compare_eq_iff_eq.mp heq] at hnew
              exact hnew hmem
            rw [hformats, TreeMap.getElem?_insertIfNew, if_neg hold, ← hid, hget]
          · have hid : img'.imageId = img.imageId := by
              rcases himg' with hin | rfl
              · obtain ⟨-, -, format', -, -, hget⟩ := hw _ hin
                exact absurd (TreeMap.mem_iff_isSome_getElem?.mpr (by rw [hget]; rfl)) hmem
              · rfl
            refine ⟨img, by rw [himages]; simp, format, hid.symm, hformat, ?_⟩
            rw [hformats, TreeMap.getElem?_insertIfNew, hid,
              if_pos ⟨Std.compare_eq_iff_eq.mpr rfl, hid ▸ hmem⟩]
        · intro key hkey
          rw [hformats, TreeMap.mem_insertIfNew, Std.compare_eq_iff_eq] at hkey
          rw [himages]
          rcases hkey with rfl | hkey
          · exact ⟨img, by simp, rfl⟩
          · obtain ⟨known, hin, hid⟩ := hknown key hkey
            exact ⟨known, List.mem_append_left _ hin, hid⟩
      · cases h

/-- Without operations every entity has its blob, in the order of the entities. -/
theorem walk_blobs {cmd : Json} (hops : cmd.hasMember "operations" = .ok false) :
    ∀ {entities : List Json} {w w' : Walk Mat}, walk L cmd entities w = .ok w' →
      ∃ blobs, w'.blobs = w.blobs ++ blobs ∧
        List.Forall₂ (fun ent blob => ∃ path ent' img format,
          entityPath cmd ent = .ok (path, ent') ∧ Image.new L path = .ok img ∧
          getEncodedImage L format img = .ok blob) entities blobs
  | [], w, w', h => by
      cases h
      exact ⟨[], (List.append_nil _).symm, .nil⟩
  | ent :: rest, w, w', h => by
      rw [walk] at h
      split at h
      · rename_i middle hvisit
        obtain ⟨path, ent', img, format, blob, hpath, hnew, hblob, hblobs⟩ :=
          visit_adds hvisit hops
        obtain ⟨blobs, hrest, hall⟩ := walk_blobs hops h
        refine ⟨blob :: blobs, ?_, .cons ⟨path, ent', img, format, hpath, hnew, hblob⟩ hall⟩
        rw [hrest, hblobs, List.append_assoc, List.singleton_append]
      · cases h

omit [Platform] in
/-- What the loop over the map has added when it ends: the blobs of the entries it has
come to. -/
theorem collect_blobs {formats : TreeMap String Format} :
    ∀ {entries : List (String × Image Mat)} {before blobs : List Bytes},
      (collect L formats entries before = .ok blobs ∨
        ∃ reply, collect L formats entries before = .error reply ∧ reply.blobs = blobs) →
      ∃ done added, done <+: entries ∧ blobs = before ++ added ∧
        List.Forall₂ (fun entry blob => getEncodedImageAsync L
          (formats[entry.1]?.getD .noneImage) entry.2 = .ok blob) done added
  | [], before, blobs, h => by
      rcases h with h | ⟨reply, h, -⟩
      · cases h
        exact ⟨[], [], List.prefix_refl _, (List.append_nil _).symm, .nil⟩
      · cases h
  | (key, img) :: rest, before, blobs, h => by
      have hstop : blobs = before → ∃ done added, done <+: (key, img) :: rest ∧
          blobs = before ++ added ∧ List.Forall₂ (fun entry blob => getEncodedImageAsync L
            (formats[entry.1]?.getD .noneImage) entry.2 = .ok blob) done added := by
        rintro rfl
        exact ⟨[], [], List.nil_prefix, (List.append_nil _).symm, .nil⟩
      rw [collect] at h
      split at h
      · obtain ⟨reply, h, hblobs⟩ := h.resolve_left nofun
        cases h
        exact hstop hblobs.symm
      · obtain ⟨reply, h, hblobs⟩ := h.resolve_left nofun
        cases h
        exact hstop hblobs.symm
      · rename_i blob hne hblob
        obtain ⟨done, added, hdone, rfl, hall⟩ := collect_blobs h
        refine ⟨(key, img) :: done, blob :: added, List.cons_prefix_cons.mpr ⟨rfl, hdone⟩, ?_,
          .cons hblob hall⟩
        rw [List.append_assoc, List.singleton_append]

omit [Platform] in
/-- A reply after the loop has the blobs of entries of the map, in the order of the keys. -/
theorem resume_blobs {findImage : Json} {w : Walk Mat} {map : TreeMap String (Image Mat)}
    {reply : Reply} (h : resume L findImage w map = some reply) :
    ∃ done, done <+: map.toList ∧ List.Forall₂ (fun entry blob =>
      getEncodedImageAsync L (w.formats[entry.1]?.getD .noneImage) entry.2 = .ok blob)
        done reply.blobs := by
  rw [resume] at h
  split at h
  · cases h
  rename_i key img rest hentries
  split_ifs at h with herror
  · cases h
    exact ⟨[], List.nil_prefix, .nil⟩
  rw [hentries]
  split at h
  · rename_i failed hcollect
    cases h
    obtain ⟨done, added, hdone, hblobs, hall⟩ := collect_blobs (.inr ⟨_, hcollect, rfl⟩)
    exact ⟨done, hdone, by rwa [hblobs]⟩
  · rename_i blobs hcollect
    cases h
    obtain ⟨done, added, hdone, hblobs, hall⟩ := collect_blobs (.inl hcollect)
    exact ⟨done, hdone, by rwa [finishReply, hblobs]⟩

/-- An entry of the map has no error, and its image has this blob in the reply format of the
image that was enqueued. -/
def Encoded (L : Library Mat) (cmd : Json) (images : List (Image Mat))
    (entry : String × Image Mat) (blob : Bytes) : Prop :=
  entry.2.queryErrorResponse = "" ∧ blob ≠ [] ∧ ∃ img ∈ images, ∃ format,
    img.imageId = entry.1 ∧ replyFormat cmd img = .ok format ∧
      getEncodedImageAsync L format entry.2 = .ok blob

omit [Platform] in
/-- Where every entry has a blob, the loop over the map adds all of them. -/
theorem collect_all {formats : TreeMap String Format} {entries : List (String × Image Mat)}
    {blobs : List Bytes} (h : List.Forall₂ (fun entry blob => blob ≠ [] ∧
      getEncodedImageAsync L (formats[entry.1]?.getD .noneImage) entry.2 = .ok blob)
        entries blobs) (before : List Bytes) :
    collect L formats entries before = .ok (before ++ blobs) := by
  induction h generalizing before with
  | nil => rw [collect, List.append_nil]
  | @cons entry blob rest blobs hblob _ ih =>
      obtain ⟨hne, hencoded⟩ := hblob
      rw [collect]
      split
      next hfails => cases hencoded.symm.trans hfails
      next hempty => exact absurd (Except.ok.inj (hencoded.symm.trans hempty)) hne
      next hsome =>
        obtain rfl := Except.ok.inj (hencoded.symm.trans hsome)
        rw [ih, List.append_assoc, List.singleton_append]

/-- Where every entry of the map has a blob, the reply has the blobs of all of them. -/
theorem resume_all {cmd findImage : Json} {w : Walk Mat} {map : TreeMap String (Image Mat)}
    {blobs : List Bytes} (hw : Formatted cmd w)
    (hsame : ∀ img ∈ w.images, ∀ img' ∈ w.images, img.imageId = img'.imageId → img = img')
    (hne : map.toList ≠ []) (h : List.Forall₂ (Encoded L cmd w.images) map.toList blobs) :
    ∃ result, resume L findImage w map = some ⟨blobs, result⟩ := by
  have hall : List.Forall₂ (fun entry blob => blob ≠ [] ∧
      getEncodedImageAsync L (w.formats[entry.1]?.getD .noneImage) entry.2 = .ok blob)
        map.toList blobs := by
    refine h.imp fun entry blob => ?_
    rintro ⟨-, hblob, img, himg, format, hid, hformat, hencoded⟩
    obtain ⟨img', himg', format', hid', hformat', hget⟩ := hw img himg
    obtain rfl := hsame img' himg' img himg hid'
    obtain rfl : format = format' := Except.ok.inj (hformat.symm.trans hformat')
    exact ⟨hblob, by rwa [← hid, hget]⟩
  rw [resume]
  cases hentries : map.toList with
  | nil => exact absurd hentries hne
  | cons entry rest =>
      rw [hentries] at h hall
      cases h with
      | cons hfirst _ =>
          dsimp only
          rw [if_neg (by simp [hfirst.1]), collect_all hall]
          exact ⟨_, rfl⟩

/-- A walk is made for entities only. -/
theorem listed_ne_nil {cmd findImage : Json} {responses entities : List Json}
    (h : listed cmd responses = .ok (findImage, some entities)) : entities ≠ [] := by
  unfold listed at h
  split at h
  · obtain ⟨status, -, h⟩ := bind_ok_inv h
    split at h
    · obtain ⟨res, -, h⟩ := bind_ok_inv h
      cases h
    obtain ⟨results, -, h⟩ := bind_ok_inv h
    obtain ⟨found, -, h⟩ := bind_ok_inv h
    dsimp only at h
    split at h
    · cases h
    rename_i hsize
    obtain ⟨blob, -, h⟩ := bind_ok_inv h
    split at h
    · cases h
      simpa [Json.elements, Json.size] using hsize
    · cases h
  · cases h

/-- What is known where `construct_responses` waits for the loop: every entity of the
response has its image, in the order of the entities. -/
theorem wait_inv {responses : List Json} {json : Json} {n : ℕ} {images : List (Image Mat)}
    {resumed : TreeMap String (Image Mat) → Option Reply}
    (h : constructResponses L responses json = .wait n images resumed) :
    ∃ cmd findImage w ops entities, json.get "FindImage" = .ok cmd ∧
      listed cmd responses = .ok (findImage, some entities) ∧
      n = entities.length ∧ resumed = resume L findImage w ∧ w.images = images ∧
      Formatted cmd w ∧ List.Forall₂ (fun ent img => ∃ ent',
        entityPath cmd ent = .ok (img.imageId, ent') ∧
        image L ops img.imageId = some img) entities images := by
  rw [constructResponses] at h
  split at h
  · cases h
  · cases h
  · rename_i cmd hasOperations findImage entities hlisted
    obtain ⟨cmd', hcmd, hlisted⟩ := bind_ok_inv hlisted
    obtain ⟨has, hhas, hlisted⟩ := bind_ok_inv hlisted
    obtain ⟨result, hlist, hlisted⟩ := bind_ok_inv hlisted
    cases hlisted
    split at h
    · cases h
    rename_i w hwalk
    cases hasOperations with
    | false => cases h
    | true =>
        cases h
        have hhas := ofJson_eq hhas
        obtain ⟨ops, hget⟩ := get_of_hasMember hhas
        obtain ⟨images, himages, hall⟩ := walk_enqueues hhas hwalk
        rw [List.nil_append] at himages
        have hformats := walk_formats hhas (w := {}) (fun _ h => nomatch h) (by simp) hwalk
        refine ⟨cmd, findImage, w, ops.elements, entities, ofJson_eq hcmd, hlist, rfl, rfl, rfl,
          hformats, ?_⟩
        rw [himages]
        refine hall.imp ?_
        rintro ent img ⟨path, ent', ops', hpath, hget', hmade⟩
        cases hget.symm.trans hget'
        have hid := (ImageLoop.image_built hmade).2
        exact ⟨ent', hid ▸ hpath, hid ▸ hmade⟩

end FindImage

/-! ### Blobs of videos -/

namespace FindVideo

variable {Data : Type} {L : VideoLibrary Data}

/-- The entities with a path: the others are left as they are. -/
def withPath (entities : List Json) : List Json :=
  entities.filter fun ent => ent.isMember "VD:videoPath"

/-- An entity with the path of a video stays in the list. -/
theorem withPath_cons_of_pos {ent : Json} {rest : List Json}
    (h : ent.isMember "VD:videoPath" = true) : withPath (ent :: rest) = ent :: withPath rest :=
  List.filter_cons_of_pos h

/-- An entity without the path of a video leaves the list. -/
theorem withPath_cons_of_neg {ent : Json} {rest : List Json}
    (h : ent.isMember "VD:videoPath" = false) : withPath (ent :: rest) = withPath rest :=
  List.filter_cons_of_neg (by simp [h])

/-- `isMember` says what the check for the member returned. -/
theorem isMember_of_hasMember {ent : Json} {key : String} {b : Bool}
    (h : ent.hasMember key = .ok b) : ent.isMember key = b := by
  cases ent with
  | null => cases h; rfl
  | object ms => exact Except.ok.inj h
  | _ => cases h

variable [Platform]

/-- Enqueuing an operation leaves the id of the video as it is. -/
theorem enqueueOperation_id {video video' : Video Data} {op : Json}
    (h : enqueueOperation video op = .ok video') : video'.videoId = video.videoId := by
  rw [enqueueOperation] at h
  obtain ⟨type, -, h⟩ := bind_ok_inv h
  split_ifs at h
  · cases h
    rfl
  · cases h
    rfl

/-- Enqueuing the operations of a command leaves the id of the video as it is. -/
theorem enqueueOperations_id {ops : List Json} {video video' : Video Data}
    (h : ops.foldlM enqueueOperation video = .ok video') : video'.videoId = video.videoId := by
  induction ops generalizing video with
  | nil =>
      cases h
      rfl
  | cons op ops ih =>
      obtain ⟨middle, hop, h⟩ := bind_ok_inv h
      exact (ih h).trans (enqueueOperation_id hop)

/-- The video of an entity has its path for an id, and nothing operated without operations. -/
theorem entityVideo_id {cmd : Json} {path : String} {video : Video Data}
    (h : entityVideo L cmd path = .ok video) : video.videoId = path ∧ (
      cmd.hasMember "operations" = .ok false → video.operated = none) := by
  rw [entityVideo] at h
  dsimp only at h
  split at h
  · cases h
  obtain ⟨has, hhas, h⟩ := bind_ok_inv h
  cases has with
  | false =>
      cases h
      exact ⟨rfl, fun _ => rfl⟩
  | true =>
      obtain ⟨ops, -, h⟩ := bind_ok_inv h
      refine ⟨enqueueOperations_id (ofJson_eq h), fun hnone => ?_⟩
      cases (ofJson_eq hhas).symm.trans hnone

/-- What the visit of an entity with a path does to the videos and the blobs. -/
theorem visitBlob_ok {cmd : Json} {path : String} {w w' : Walk Data}
    (h : visitBlob L cmd path w = .ok w') :
    (cmd.hasMember "operations" = .ok true ∧ ∃ video : Video Data, video.videoId = path ∧
      w'.videos = w.videos ++ [video] ∧ w'.blobs = w.blobs) ∨
    (cmd.hasMember "operations" = .ok false ∧ ∃ blob, L.readFile path = some blob ∧
      w'.videos = w.videos ∧ w'.blobs = w.blobs ++ [blob]) := by
  rw [visitBlob] at h
  dsimp only at h
  obtain ⟨operations, hops, h⟩ := bind_ok_inv h
  obtain ⟨container, -, h⟩ := bind_ok_inv h
  obtain ⟨codec, -, h⟩ := bind_ok_inv h
  have hops := ofJson_eq (mapError_eq hops)
  split at h
  · rename_i hplain
    split at h
    · rename_i blob hblob
      cases h
      have hfalse : operations = false := by
        cases operations <;> simp_all
      exact .inr ⟨hfalse ▸ hops, blob, hblob, rfl, rfl⟩
    · cases h
  · obtain ⟨video, hvideo, h⟩ := bind_ok_inv h
    obtain ⟨containerName, -, h⟩ := bind_ok_inv h
    obtain ⟨codecName, -, h⟩ := bind_ok_inv h
    obtain ⟨hid, hnone⟩ := entityVideo_id (mapError_eq hvideo)
    cases operations with
    | true =>
        cases h
        exact .inl ⟨hops, video, hid, rfl, rfl⟩
    | false =>
        rw [getEncoded, hnone hops] at h
        cases h

/-- What the visit of an entity does to the videos and the blobs. -/
theorem visit_ok {cmd ent : Json} {w w' : Walk Data} (h : visit L cmd ent w = .ok w') :
    (ent.isMember "VD:videoPath" = false ∧ w'.videos = w.videos ∧ w'.blobs = w.blobs) ∨
    (ent.isMember "VD:videoPath" = true ∧ ∃ path ent', entityPath ent = .ok (path, ent') ∧
      ((cmd.hasMember "operations" = .ok true ∧ ∃ video : Video Data, video.videoId = path ∧
        w'.videos = w.videos ++ [video] ∧ w'.blobs = w.blobs) ∨
      (cmd.hasMember "operations" = .ok false ∧ ∃ blob, L.readFile path = some blob ∧
        w'.videos = w.videos ∧ w'.blobs = w.blobs ++ [blob]))) := by
  rw [visit] at h
  dsimp only at h
  obtain ⟨has, hhas, h⟩ := bind_ok_inv h
  have hmember := isMember_of_hasMember (ofJson_eq (mapError_eq hhas))
  cases has with
  | false =>
      cases h
      exact .inl ⟨hmember, rfl, rfl⟩
  | true =>
      obtain ⟨⟨path, ent'⟩, hpath, h⟩ := bind_ok_inv h
      obtain ⟨byMetadata, -, h⟩ := bind_ok_inv h
      obtain ⟨byFrame, -, h⟩ := bind_ok_inv h
      obtain ⟨names, -, h⟩ := bind_ok_inv h
      have hblob := visitBlob_ok (mapError_eq h)
      exact .inr ⟨hmember, path, ent', ofJson_eq (mapError_eq hpath), hblob⟩

/-- The videos of the loop are those of the entities with a path, in their order. -/
theorem walk_enqueues {cmd : Json} (hops : cmd.hasMember "operations" = .ok true) :
    ∀ {entities : List Json} {w w' : Walk Data}, walk L cmd entities w = .ok w' →
      ∃ videos, w'.videos = w.videos ++ videos ∧
        List.Forall₂ (fun ent video => ∃ path ent', entityPath ent = .ok (path, ent') ∧
          video.videoId = path) (withPath entities) videos
  | [], w, w', h => by
      cases h
      exact ⟨[], (List.append_nil _).symm, .nil⟩
  | ent :: rest, w, w', h => by
      rw [walk] at h
      split at h
      · rename_i middle hvisit
        obtain ⟨videos, hrest, hall⟩ := walk_enqueues hops h
        rcases visit_ok hvisit with ⟨hmember, hvideos, -⟩ |
          ⟨hmember, path, ent', hpath, ⟨-, video, hid, hvideos, -⟩ | ⟨hnone, -⟩⟩
        · refine ⟨videos, by rw [hrest, hvideos], ?_⟩
          rwa [withPath_cons_of_neg hmember]
        · refine ⟨video :: videos, ?_, ?_⟩
          · rw [hrest, hvideos, List.append_assoc, List.singleton_append]
          · rw [withPath_cons_of_pos hmember]
            exact .cons ⟨path, ent', hpath, hid⟩ hall
        · cases hops.symm.trans hnone
      · cases h

/-- Without operations every entity with a path has its blob, in the order of the
entities. -/
theorem walk_blobs {cmd : Json} (hops : cmd.hasMember "operations" = .ok false) :
    ∀ {entities : List Json} {w w' : Walk Data}, walk L cmd entities w = .ok w' →
      ∃ blobs, w'.blobs = w.blobs ++ blobs ∧
        List.Forall₂ (fun ent blob => ∃ path ent', entityPath ent = .ok (path, ent') ∧
          L.readFile path = some blob) (withPath entities) blobs
  | [], w, w', h => by
      cases h
      exact ⟨[], (List.append_nil _).symm, .nil⟩
  | ent :: rest, w, w', h => by
      rw [walk] at h
      split at h
      · rename_i middle hvisit
        obtain ⟨blobs, hrest, hall⟩ := walk_blobs hops h
        rcases visit_ok hvisit with ⟨hmember, -, hblobs⟩ |
          ⟨hmember, path, ent', hpath, ⟨hnone, -⟩ | ⟨-, blob, hread, -, hblobs⟩⟩
        · refine ⟨blobs, by rw [hrest, hblobs], ?_⟩
          rwa [withPath_cons_of_neg hmember]
        · cases hops.symm.trans hnone
        · refine ⟨blob :: blobs, ?_, ?_⟩
          · rw [hrest, hblobs, List.append_assoc, List.singleton_append]
          · rw [withPath_cons_of_pos hmember]
            exact .cons ⟨path, ent', hpath, hread⟩ hall
      · cases h

omit [Platform] in
/-- What the loop over the map has added when it ends: the blobs of the entries it has
come to, without those of which there is no data. -/
theorem collect_blobs {container codec : String} :
    ∀ {entries : List (String × Video Data)} {before blobs : List Bytes},
      (collect L container codec entries before = .ok blobs ∨
        ∃ reply, collect L container codec entries before = .error reply ∧
          reply.blobs = blobs) →
      ∃ done encoded, done <+: entries ∧ blobs = before ++ encoded.filter (· ≠ []) ∧
        List.Forall₂ (fun entry blob => getEncoded L container codec entry.2 = .ok blob)
          done encoded
  | [], before, blobs, h => by
      rcases h with h | ⟨reply, h, -⟩
      · cases h
        exact ⟨[], [], List.prefix_refl _, (List.append_nil _).symm, .nil⟩
      · cases h
  | (key, video) :: rest, before, blobs, h => by
      rw [collect] at h
      split at h
      · obtain ⟨reply, h, hblobs⟩ := h.resolve_left nofun
        cases h
        exact ⟨[], [], List.nil_prefix, hblobs.symm.trans (List.append_nil _).symm, .nil⟩
      · rename_i hblob
        obtain ⟨done, encoded, hdone, rfl, hall⟩ := collect_blobs h
        exact ⟨(key, video) :: done, [] :: encoded, List.cons_prefix_cons.mpr ⟨rfl, hdone⟩, rfl,
          .cons hblob hall⟩
      · rename_i blob hne hblob
        obtain ⟨done, encoded, hdone, rfl, hall⟩ := collect_blobs h
        refine ⟨(key, video) :: done, blob :: encoded, List.cons_prefix_cons.mpr ⟨rfl, hdone⟩,
          ?_, .cons hblob hall⟩
        rw [List.filter_cons_of_pos (by simpa using hne), List.append_assoc,
          List.singleton_append]

/-- A reply after the loop has the blobs of entries of the map, in the order of the keys. -/
theorem resume_blobs {cmd findVideo : Json} {w : Walk Data} {map : TreeMap String (Video Data)}
    {reply : Reply} (h : resume L cmd findVideo w map = some reply) :
    ∃ container codec done encoded, done <+: map.toList ∧
      reply.blobs = encoded.filter (· ≠ []) ∧ List.Forall₂
        (fun entry blob => getEncoded L container codec entry.2 = .ok blob) done encoded := by
  rw [resume] at h
  split at h
  · cases h
  rename_i key video rest hentries
  split_ifs at h with herror
  · cases h
    exact ⟨"", "", [], [], List.nil_prefix, rfl, .nil⟩
  rw [hentries]
  split at h
  · cases h
    exact ⟨"", "", [], [], List.nil_prefix, rfl, .nil⟩
  rename_i container codec hnames
  split at h
  · rename_i failed hcollect
    cases h
    obtain ⟨done, encoded, hdone, hblobs, hall⟩ := collect_blobs (.inr ⟨_, hcollect, rfl⟩)
    exact ⟨container, codec, done, encoded, hdone, hblobs, hall⟩
  · rename_i blobs hcollect
    cases h
    obtain ⟨done, encoded, hdone, hblobs, hall⟩ := collect_blobs (.inl hcollect)
    exact ⟨container, codec, done, encoded, hdone, hblobs, hall⟩

/-- An entry of the map has no error, and its video has this blob. -/
def Encoded (L : VideoLibrary Data) (container codec : String) (entry : String × Video Data)
    (blob : Bytes) : Prop :=
  entry.2.queryErrorResponse = "" ∧ blob ≠ [] ∧ getEncoded L container codec entry.2 = .ok blob

omit [Platform] in
/-- Where every entry has a blob, the loop over the map adds all of them. -/
theorem collect_all {container codec : String} {entries : List (String × Video Data)}
    {blobs : List Bytes} (h : List.Forall₂ (Encoded L container codec) entries blobs)
    (before : List Bytes) :
    collect L container codec entries before = .ok (before ++ blobs) := by
  induction h generalizing before with
  | nil => rw [collect, List.append_nil]
  | @cons entry blob rest blobs hblob _ ih =>
      obtain ⟨-, hne, hencoded⟩ := hblob
      rw [collect]
      split
      next hfails => cases hencoded.symm.trans hfails
      next hempty => exact absurd (Except.ok.inj (hencoded.symm.trans hempty)) hne
      next hsome =>
        obtain rfl := Except.ok.inj (hencoded.symm.trans hsome)
        rw [ih, List.append_assoc, List.singleton_append]

/-- Where every entry of the map has a blob, the reply has the blobs of all of them. -/
theorem resume_all {cmd findVideo : Json} {w : Walk Data} {map : TreeMap String (Video Data)}
    {container codec : String} {blobs : List Bytes}
    (hcontainer : getValue Json.asString cmd "container" "mp4" = .ok container)
    (hcodec : getValue Json.asString cmd "codec" "h264" = .ok codec) (hne : map.toList ≠ [])
    (h : List.Forall₂ (Encoded L container codec) map.toList blobs) :
    ∃ result, resume L cmd findVideo w map = some ⟨blobs, result⟩ := by
  rw [resume]
  cases hentries : map.toList with
  | nil => exact absurd hentries hne
  | cons entry rest =>
      rw [hentries] at h
      have hfirst := (List.forall₂_cons_left_iff.mp h).choose_spec.choose_spec.1
      dsimp only
      rw [if_neg (by simp [hfirst.1]), hcontainer, hcodec]
      dsimp only [bind, Except.bind, pure, Except.pure]
      rw [collect_all h]
      exact ⟨_, rfl⟩

/-- What is known where `construct_responses` waits for the loop: every entity with a path
has its video, in the order of the entities. -/
theorem wait_inv {shortlisted : List String} {responses : List Json} {json : Json} {n : ℕ}
    {videos : List (Video Data)} {resumed : TreeMap String (Video Data) → Option Reply}
    (h : (constructResponses L shortlisted responses json).2 = .wait n videos resumed) :
    ∃ cmd findVideo w entities, json.get "FindVideo" = .ok cmd ∧
      listed shortlisted cmd responses = .ok (findVideo, entities) ∧
      n = entities.length ∧ resumed = resume L cmd findVideo w ∧ videos ≠ [] ∧
      List.Forall₂ (fun ent video => ∃ ent', entityPath ent = .ok (video.videoId, ent'))
        (withPath entities) videos := by
  rw [constructResponses] at h
  split at h
  · cases h
  · rename_i cmd hasOperations findVideo entities hlisted
    obtain ⟨cmd', hcmd, hlisted⟩ := bind_ok_inv hlisted
    obtain ⟨has, hhas, hlisted⟩ := bind_ok_inv hlisted
    obtain ⟨result, hlist, hlisted⟩ := bind_ok_inv hlisted
    cases hlisted
    split at h
    · cases h
    rename_i w hwalk
    split_ifs at h with hwait
    · cases h
      have hhas := ofJson_eq hhas
      rw [hwait.1] at hhas
      obtain ⟨videos, hvideos, hall⟩ := walk_enqueues hhas hwalk
      rw [List.nil_append] at hvideos
      refine ⟨cmd, findVideo, w, entities, ofJson_eq hcmd, hlist, rfl, rfl, hwait.2, ?_⟩
      rw [hvideos]
      refine hall.imp ?_
      rintro ent video ⟨path, ent', hpath, rfl⟩
      exact ⟨ent', hpath⟩

end FindVideo

/-! ### Blob i is entity i -/

/-- **Blob i is entity i.** Without operations, every entity has its blob, in the order of
the entities. With operations, and in a run that ends the loop only when nothing is in flight
and in which nothing fails, the map has every entity, finished. If its entries can be encoded,
the reply has the blobs of all of them, one each, in the order of the keys; otherwise it has
those of the first entries. The keys are the paths of the entities, in their order, exactly if
the paths are strictly increasing. For videos the entities are those with a path. -/
theorem blobs_follow_entities [Platform] {Mat Data : Type} {L : Library Mat}
    {V : VideoLibrary Data} :
    (∀ (cmd : Json) (entities : List Json) (w : FindImage.Walk Mat),
      cmd.hasMember "operations" = .ok false → FindImage.walk L cmd entities {} = .ok w →
      List.Forall₂ (fun ent blob => ∃ path ent' img format,
        FindImage.entityPath cmd ent = .ok (path, ent') ∧ Image.new L path = .ok img ∧
        FindImage.getEncodedImage L format img = .ok blob) entities w.blobs) ∧
    (∀ (responses : List Json) (json : Json) (n : ℕ) (images : List (Image Mat))
      (resume : TreeMap String (Image Mat) → Option Reply) (s : EventLoop (Image Mat)),
      FindImage.constructResponses L responses json = .wait n images resume →
      (∀ img ∈ images, (img.copy L).operations ≠ []) →
      ReflTransGen (EventLoop.QuietStep (imageLoop L) Image.Left False) (.start n images) s →
      s.isLoopRunning = false →
      (∃ cmd findImage entities, json.get "FindImage" = .ok cmd ∧
        FindImage.listed cmd responses = .ok (findImage, some entities) ∧
        List.Forall₂ (fun ent img => ∃ ent',
          FindImage.entityPath cmd ent = .ok (img.imageId, ent')) entities images ∧
        ∀ blobs, List.Forall₂ (FindImage.Encoded L cmd images) s.map.toList blobs →
          ∃ result, resume s.map = some ⟨blobs, result⟩) ∧
      (∀ reply, resume s.map = some reply → ∃ done, done <+: s.map.toList ∧
        List.Forall₂ (fun entry blob => ∃ format,
          FindImage.getEncodedImageAsync L format entry.2 = .ok blob) done reply.blobs) ∧
      (∀ img ∈ images, ∃ y, s.map[img.imageId]? = some y ∧ Image.Finished L img y) ∧
      (s.map.keys = images.map Image.imageId ↔
        (images.map Image.imageId).Pairwise (· < ·))) ∧
    (∀ (cmd : Json) (shortlisted : List String) (entities : List Json)
      (w : FindVideo.Walk Data), cmd.hasMember "operations" = .ok false →
      FindVideo.walk V cmd entities { shortlisted := shortlisted } = .ok w →
      List.Forall₂ (fun ent blob => ∃ path ent',
        FindVideo.entityPath ent = .ok (path, ent') ∧ V.readFile path = some blob)
        (FindVideo.withPath entities) w.blobs) ∧
    (∀ (shortlisted : List String) (responses : List Json) (json : Json) (n : ℕ)
      (videos : List (Video Data)) (resume : TreeMap String (Video Data) → Option Reply)
      (s : EventLoop (Video Data)),
      (FindVideo.constructResponses V shortlisted responses json).2 = .wait n videos resume →
      ReflTransGen (EventLoop.QuietStep (videoLoop V) (fun _ => True) False)
        (.start n videos) s →
      s.isLoopRunning = false →
      (∃ cmd findVideo entities, json.get "FindVideo" = .ok cmd ∧
        FindVideo.listed shortlisted cmd responses = .ok (findVideo, entities) ∧
        List.Forall₂ (fun ent video => ∃ ent',
          FindVideo.entityPath ent = .ok (video.videoId, ent'))
          (FindVideo.withPath entities) videos ∧
        ∀ container codec blobs,
          getValue Json.asString cmd "container" "mp4" = .ok container →
          getValue Json.asString cmd "codec" "h264" = .ok codec →
          List.Forall₂ (FindVideo.Encoded V container codec) s.map.toList blobs →
          ∃ result, resume s.map = some ⟨blobs, result⟩) ∧
      (∀ reply, resume s.map = some reply → ∃ container codec done encoded,
        done <+: s.map.toList ∧ reply.blobs = encoded.filter (· ≠ []) ∧
        List.Forall₂ (fun entry blob =>
          FindVideo.getEncoded V container codec entry.2 = .ok blob) done encoded) ∧
      (∀ video ∈ videos, ∃ y entity, s.map[video.videoId]? = some y ∧ entity ∈ videos ∧
        entity.videoId = video.videoId ∧ Video.Finished V entity y) ∧
      (s.map.keys = videos.map Video.videoId ↔
        (videos.map Video.videoId).Pairwise (· < ·))) := by
  refine ⟨?_, ?_, ?_, ?_⟩
  · intro cmd entities w hops hwalk
    obtain ⟨blobs, hblobs, hall⟩ := FindImage.walk_blobs hops hwalk
    rwa [hblobs, List.nil_append]
  · intro responses json n images resume s hwait hops hrun hstopped
    obtain ⟨cmd, findImage, w, ops, entities, hcmd, hlist, -, rfl, rfl, hformats, hall⟩ :=
      FindImage.wait_inv hwait
    have hmade : ∀ img ∈ w.images, FindImage.image L ops img.imageId = some img :=
      forall₂_right hall fun _ _ ⟨_, _, hmade⟩ => hmade
    have hinv := ImageLoop.run_inv hmade hops hrun
    have hkeys := hinv.mem_map_iff hstopped
    refine ⟨⟨cmd, findImage, entities, hcmd, hlist, hall.imp fun _ _ ⟨ent', hpath, _⟩ =>
      ⟨ent', hpath⟩, fun blobs hblobs => ?_⟩, ?_, ?_, keys_eq_iff hkeys⟩
    · have hsame : ∀ img ∈ w.images, ∀ img' ∈ w.images, img.imageId = img'.imageId →
          img = img' := fun img himg img' himg' hid =>
        Option.some.inj ((hmade img himg).symm.trans (hid ▸ hmade img' himg'))
      have hne : w.images.map Image.imageId ≠ [] := by
        rw [Ne, List.map_eq_nil_iff, ← List.length_eq_zero_iff, ← hall.length_eq,
          List.length_eq_zero_iff]
        exact FindImage.listed_ne_nil hlist
      exact FindImage.resume_all hformats hsame (toList_ne_nil hkeys hne) hblobs
    · intro reply hreply
      obtain ⟨done, hdone, hblobs⟩ := FindImage.resume_blobs hreply
      exact ⟨done, hdone, hblobs.imp fun _ _ hblob => ⟨_, hblob⟩⟩
    · intro img himg
      obtain ⟨y, hy, hrec⟩ := ImageLoop.recorded_of_mem hmade hinv hstopped himg
      exact ⟨y, hy, hrec.resolve_right And.left⟩
  · intro cmd shortlisted entities w hops hwalk
    obtain ⟨blobs, hblobs, hall⟩ := FindVideo.walk_blobs hops hwalk
    rwa [hblobs, List.nil_append]
  · intro shortlisted responses json n videos resume s hwait hrun hstopped
    obtain ⟨cmd, findVideo, w, entities, hcmd, hlist, -, rfl, hne, hall⟩ :=
      FindVideo.wait_inv hwait
    have hids : ∀ k ∈ videos.map Video.videoId, ∃ video ∈ videos,
        (videoLoop V).key video = k := fun k hk => List.mem_map.mp hk
    have hinv := (EventLoop.Inv.start (VideoLoop.account V videos) n (fun _ h => h) hids).run
      hrun
    have hkeys := hinv.mem_map_iff hstopped
    refine ⟨⟨cmd, findVideo, entities, hcmd, hlist, hall, fun container codec blobs hcontainer
      hcodec hblobs => FindVideo.resume_all hcontainer hcodec ?_ hblobs⟩, fun reply hreply =>
      FindVideo.resume_blobs hreply, ?_, keys_eq_iff hkeys⟩
    · exact toList_ne_nil hkeys (by simpa using hne)
    · intro video hvideo
      obtain ⟨y, hy, hid, entity, hentity, hfinished⟩ :=
        (hinv.complete hstopped).1 video.videoId (List.mem_map_of_mem hvideo)
      exact ⟨y, entity, hy, hentity, hfinished.videoId.symm.trans hid, hfinished⟩

/-! ### Three entities of two images -/

namespace FindImage

open ImageLoop EventLoop

/-- `{"FindImage": {"operations": [{"type": "threshold", "value": 128}]}}`. -/
def thresholdRequest : Json :=
  .object [("FindImage", .object [("operations", .array [threshold])])]

/-- The response of the database with entities of these paths. -/
def found (paths : List String) : List Json :=
  [.object [("entities", .array (paths.map fun path => .object [("VD:imgPath", .string path)])),
    ("status", .int 0)]]

theorem waits_for_two : ∃ resume, constructResponses counting
    (found ["png/aa.png", "png/bb.png"]) thresholdRequest =
      .wait 2 (["png/aa.png", "png/bb.png"].map thresholded) resume :=
  ⟨_, rfl⟩

/-- The entities have the paths of two images, not in their order, and one of them twice.
Without operations there are three blobs. After a loop in which all is done, the map has two
entries, in the order of the paths, and there are two blobs. -/
theorem blobs_not_in_order :
    (∃ json, constructResponses counting (found ["png/bb.png", "png/aa.png", "png/bb.png"])
      (.object [("FindImage", .object [])]) = .reply ⟨[[0], [0], [0]], .ok json⟩) ∧
    ∃ resume s, constructResponses counting
        (found ["png/bb.png", "png/aa.png", "png/bb.png"]) thresholdRequest =
          .wait 3 (["png/bb.png", "png/aa.png", "png/bb.png"].map thresholded) resume ∧
      ReflTransGen (QuietStep (imageLoop counting) Image.Left False)
        (.start 3 (["png/bb.png", "png/aa.png", "png/bb.png"].map thresholded)) s ∧
      s.isLoopRunning = false ∧ s.map.keys = ["png/aa.png", "png/bb.png"] ∧
      ∃ json, resume s.map = some ⟨[[1], [1]], .ok json⟩ :=
  ⟨⟨_, rfl⟩, _, stoppedAfter 3 ["png/bb.png", "png/aa.png", "png/bb.png"], rfl,
    stoppedAfter_run 3 _ (by simp), rfl, by decide, _, rfl⟩

end FindImage

/-! ### Two images and two videos -/

namespace FindVideo

open EventLoop

/-- Frames are counted: every run of operations adds one. -/
def counting : VideoLibrary ℕ where
  source _ := some 0
  perform _ data result := result = .ok (data + 1)
  answer data result := result = data + 1
  opens _ := true
  readFile _ := some [0]
  encode _ _ data := .ok [data.toUInt8]

/-- The video of a path, to be thresholded. -/
def thresholded (path : String) : Video ℕ where
  videoId := path
  operations := [.apply ImageLoop.threshold]
  operated := none
  queryErrorResponse := ""

/-- The video of a path, after its operation. -/
def operated (path : String) : Video ℕ :=
  { thresholded path with operations := [], operated := some 1 }

/-- The response of the database with two videos, which are entities with and without another
property. -/
def found : List Json :=
  [.object [("entities", .array [
      .object [("VD:videoPath", .string "a.mp4"), ("name", .string "a")],
      .object [("VD:videoPath", .string "b.mp4")]]),
    ("status", .int 0)]]

theorem waits_for_two : ∃ resume, (constructResponses counting [] found
    (.object [("FindVideo", .object [("operations", .array [ImageLoop.threshold])])])).2 =
      .wait 2 (["a.mp4", "b.mp4"].map thresholded) resume :=
  ⟨_, rfl⟩

/-- The loop of two videos, stopped after the operation of each. -/
def stopped : EventLoop (Video ℕ) :=
  { EventLoop.start 2 [] with
    map := put (videoLoop counting) (videoLoop counting).store
      (put (videoLoop counting) (videoLoop counting).store ∅ (operated "a.mp4"))
      (operated "b.mp4")
    mRunning := false
    rRunning := false }

/-- A run of the video loop for two entities in which no remote operation answers. -/
theorem stopped_run :
    ReflTransGen (QuietStep (videoLoop counting) (fun _ => True) False)
      (.start 2 (["a.mp4", "b.mp4"].map thresholded)) stopped := by
  have hturn : ∀ path, (videoLoop counting).turn (thresholded path)
      (.stored (operated path)) := fun path =>
    .stored (@Video.ExecuteOperations.performed _ _ _ 0 1
      (by simp [Video.toRemote, thresholded, Operation.isRemote]) rfl rfl) rfl
  refine .head (.of_running (.enqueue rfl) rfl rfl) ?_
  refine .head (.of_running (.enqueue rfl) rfl rfl) ?_
  refine .head (.of_running (.enter rfl rfl) rfl rfl) ?_
  refine .head (.of_running (.take rfl (by simp)) rfl rfl) ?_
  refine .head (.of_running (.stored rfl (hturn "a.mp4")) rfl rfl) ?_
  refine .head (.of_running (.stored rfl (hturn "b.mp4")) rfl rfl) ?_
  refine .head (.of_running (.worked rfl) rfl rfl) (.head (.of_running (.test rfl) rfl rfl) ?_)
  refine .head (.of_running (.testWriteBuffer rfl) rfl rfl) ?_
  refine .head (.of_running (.testRemoteBuffer rfl) rfl rfl) ?_
  exact .single ⟨.stop rfl, fun _ => ⟨rfl, rfl, rfl, nofun, nofun, nofun⟩, nofun⟩

end FindVideo

/-- Two images and two videos, in the order of their paths: the replies have two blobs. -/
theorem blobs_follow_entities_two :
    (∃ resume result, FindImage.constructResponses ImageLoop.counting
        (FindImage.found ["png/aa.png", "png/bb.png"]) FindImage.thresholdRequest =
          .wait 2 (["png/aa.png", "png/bb.png"].map ImageLoop.thresholded) resume ∧
      resume (ImageLoop.stoppedAfter 2 ["png/aa.png", "png/bb.png"]).map =
        some ⟨[[1], [1]], result⟩) ∧
    ((ImageLoop.stoppedAfter 2 ["png/aa.png", "png/bb.png"]).map.keys =
        ["png/aa.png", "png/bb.png"] ↔ ["png/aa.png", "png/bb.png"].Pairwise (· < ·)) ∧
    (∃ result, ∃ resume, (FindVideo.constructResponses FindVideo.counting [] FindVideo.found
        (.object [("FindVideo", .object [("operations", .array [ImageLoop.threshold])])])).2 =
          .wait 2 (["a.mp4", "b.mp4"].map FindVideo.thresholded) resume ∧
      resume FindVideo.stopped.map = some ⟨[[1], [1]], result⟩) ∧
    (FindVideo.stopped.map.keys = ["a.mp4", "b.mp4"] ↔
      ["a.mp4", "b.mp4"].Pairwise (· < ·)) := by
  obtain ⟨resume, hwait⟩ := FindImage.waits_for_two
  obtain ⟨resumeVideo, hwaitVideo⟩ := FindVideo.waits_for_two
  have hops : ∀ img ∈ ["png/aa.png", "png/bb.png"].map ImageLoop.thresholded,
      (img.copy ImageLoop.counting).operations ≠ [] := by
    simp [ImageLoop.thresholded, Image.copy]
  obtain ⟨-, himage, -, hvideo⟩ := blobs_follow_entities (L := ImageLoop.counting)
    (V := FindVideo.counting)
  obtain ⟨⟨cmd, -, -, hcmd, -, -, hblobs⟩, -, -, hkeys⟩ := himage _ _ _ _ _ _ hwait hops
    (ImageLoop.stoppedAfter_run 2 ["png/aa.png", "png/bb.png"] (by simp)) rfl
  obtain ⟨⟨cmdVideo, -, -, hcmdVideo, -, -, hblobsVideo⟩, -, -, hkeysVideo⟩ :=
    hvideo _ _ _ _ _ _ _ hwaitVideo FindVideo.stopped_run rfl
  cases hcmd
  cases hcmdVideo
  obtain ⟨result, hreply⟩ := hblobs [[1], [1]]
    (.cons ⟨rfl, by simp, ImageLoop.thresholded "png/aa.png", by simp, .png, rfl, rfl, rfl⟩
      (.cons ⟨rfl, by simp, ImageLoop.thresholded "png/bb.png", by simp, .png, rfl, rfl, rfl⟩
        .nil))
  obtain ⟨resultVideo, hreplyVideo⟩ := hblobsVideo "mp4" "h264" [[1], [1]] rfl rfl
    (.cons ⟨rfl, by simp, rfl⟩ (.cons ⟨rfl, by simp, rfl⟩ .nil))
  exact ⟨⟨resume, result, hwait, hreply⟩, hkeys,
    ⟨resultVideo, resumeVideo, hwaitVideo, hreplyVideo⟩, hkeysVideo⟩

end Vdms
