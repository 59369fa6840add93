import Vdms.FindDescriptor
import Vdms.Restart

/-!
# The Find Commands

What the commands that search for nodes add to the transaction. Most of them hand the results
block of the client on, with properties added to its list that the answer is made from.

## Main definitions

* `FindEntity.constructProtobuf`, `FindBlob.constructProtobuf`,
  `FindBoundingBox.constructProtobuf`, `FindFrames.constructProtobuf`,
  `FindDescriptorSet.constructProtobuf`: the commands beside those for images, videos and
  descriptors.
* `FindCommand.construct`: all of them.
* `FindCommand.results`: the results block that a command hands on.
-/

namespace Vdms

/-- `j[key].append(v)`. -/
def appendMember (j : Json) (key : String) (v : Json) : Except QueryError Json := do
  match ← j.get key with
  | .null => j.setMember key (.array [v])
  | .array xs => j.setMember key (.array (xs ++ [v]))
  | _ => .error .logicError

section

variable [Platform]

/-! ### Entities and blobs -/

/-- The results of `FindEntity`: the path of the blob is listed if the client asks for it. -/
def FindEntity.results (cmd : Json) : Except QueryError Json := do
  let results ← getValue pure cmd "results" .null
  if ← getValue Json.asBool results "blob" false then appendToList results "VD:blobPath"
  else pure results

/-- `FindEntity::construct_protobuf`. -/
def FindEntity.constructProtobuf (query : PMGDQuery) (cmd : Json) :
    Except QueryError PMGDQuery := do
  let results ← FindEntity.results cmd
  let tag ← getValue Json.asString cmd "class" ""
  findNodes query cmd results tag "constraints"

/-- `FindBlob::construct_protobuf`. -/
def FindBlob.constructProtobuf (query : PMGDQuery) (cmd : Json) :
    Except QueryError PMGDQuery := do
  let results ← findResults cmd "VD:blobPath"
  findNodes query cmd results "VD:BLOB" "constraints"

/-! ### Bounding boxes -/

namespace FindBoundingBox

/-- The loop over the list: the first `_coordinates` is taken out. -/
def takeCoordinates : List Json → Except QueryError (List Json × Bool)
  | [] => pure ([], false)
  | x :: xs => do
      if (← x.asString) = "_coordinates" then pure (xs, true)
      else do
        let (ys, found) ← takeCoordinates xs
        pure (x :: ys, found)

/-- The properties of a bounding box. -/
def coordinateProps : List String := ["VD:x1", "VD:y1", "VD:width", "VD:height"]

/-- The results without the coordinates in the list, and whether they were there. -/
def takeList (results : Json) : Except QueryError (Json × Bool) := do
  if ← results.hasMember "list" then
    match ← results.get "list" with
    | .array xs => do
        let (ys, found) ← takeCoordinates xs
        let results ← results.setMember "list" (.array ys)
        pure (results, found)
    | .object (_ :: _) => .error .logicError
    | _ => pure (results, false)
  else pure (results, false)

/-- The results: the coordinates are listed if they or the images are asked for. -/
def results (cmd : Json) : Except QueryError Json := do
  let results ← getValue pure cmd "results" .null
  let (results, coords) ← takeList results
  let blob ← getValue Json.asBool results "blob" false
  if coords || blob then coordinateProps.foldlM appendToList results else pure results

/-- The link to the image that the command names, or its own. -/
def link (cmd : Json) : Except QueryError Json := do
  if ← cmd.hasMember "image" then do
    let image ← getValue Json.asInt cmd "image" (-1)
    pure (.object [("class", .string "VD:ROIIMGLINK"), ("ref", .int image)])
  else cmd.get "link"

/-- `constraints[key].append(op); constraints[key].append(bound);` -/
def bound (constraints : Json) (key op : String) (bound : ℤ) : Except QueryError Json := do
  let constraints ← appendMember constraints key (.string op)
  appendMember constraints key (.int bound)

/-- The constraints, with those of the rectangle. -/
def constraints (cmd : Json) : Except QueryError Json := do
  let constraints ← cmd.get "constraints"
  if ← cmd.hasMember "rectangle" then do
    let rect ← getValue pure cmd "rectangle" (.int (-1))
    let x ← getValue Json.asInt rect "x" 0
    let y ← getValue Json.asInt rect "y" 0
    let w ← getValue Json.asInt rect "w" 0
    let h ← getValue Json.asInt rect "h" 0
    let constraints ← bound constraints "VD:x1" ">=" x
    let constraints ← bound constraints "VD:x1" "<=" w
    let constraints ← bound constraints "VD:y1" ">=" y
    let constraints ← bound constraints "VD:y1" "<=" h
    let constraints ← bound constraints "VD:width" "<=" (toInt (w + x))
    bound constraints "VD:height" "<=" (toInt (h + y))
  else pure constraints

/-- The query for the images of the boxes, if the images are asked for. -/
def findImages (query : PMGDQuery) (ref : ℤ) (results : Json) (unique : Bool) :
    Except QueryError PMGDQuery := do
  if ← getValue Json.asBool results "blob" false then
    query.queryNode (-1) "VD:IMG" (.object [("ref", .int ref)]) .null
      (.object [("list", .array [.string "VD:imgPath"])]) unique false
  else pure query

/-- `FindBoundingBox::construct_protobuf`. The boxes always have a reference. -/
def constructProtobuf (query : PMGDQuery) (cmd : Json) : Except QueryError PMGDQuery := do
  let (available, query) := query.getAvailableReference
  let ref ← getValue Json.asInt cmd "_ref" available
  let results ← results cmd
  let link ← link cmd
  let constraints ← constraints cmd
  let unique ← getValue Json.asBool cmd "unique" false
  let query ← query.queryNode ref "VD:ROI" link constraints results unique false
  findImages query ref results unique

end FindBoundingBox

/-! ### Frames -/

namespace FindFrames

/-- Whether an operation is an interval. -/
def isInterval (op : Json) : Except QueryError Bool := do
  let type ← getValue Json.asString op "type" ""
  pure (type == "interval")

/-- `get_interval_index`: whether there is one. -/
def getIntervalIndex (cmd : Json) : Except QueryError Bool := do
  if ← cmd.hasMember "operations" then do
    let operations ← cmd.get "operations"
    operations.elements.anyM isInterval
  else pure false

/-- The results: the path of the video is listed. -/
def results (cmd : Json) : Except QueryError Json := do
  let results ← getValue pure cmd "results" .null
  appendToList results "VD:videoPath"

/-- `FindFrames::construct_protobuf`. -/
def constructProtobuf (query : PMGDQuery) (cmd : Json) : Except Stop PMGDQuery := do
  let interval ← ofJson (getIntervalIndex cmd)
  let frames ← ofJson (cmd.hasMember "frames")
  if frames = interval then
    throw (.returned (failure ("Either one of 'frames' or 'operations::interval' " ++
      "must be specified")))
  let results ← ofJson (results cmd)
  ofJson (findNodes query cmd results "VD:VID" "constraints")

end FindFrames

/-! ### Descriptor sets -/

namespace FindDescriptorSet

/-- The results: what the client lists is replaced. -/
def results (cmd : Json) : Except QueryError Json := do
  let results ← getValue pure cmd "results" .null
  results.setMember "list" (.array [.string "VD:name", .string "VD:descSetPath",
    .string "VD:dimensions", .string "VD:engine"])

/-- `FindDescriptorSet::construct_protobuf`. -/
def constructProtobuf (query : PMGDQuery) (cmd : Json) : Except QueryError PMGDQuery := do
  let results ← results cmd
  let set ← cmd.get "set"
  let setName ← set.asString
  query.queryNode (-1) "VD:DESCSET" .null (DescriptorsCommand.nameConstraint setName) results
    true true

end FindDescriptorSet

/-! ### The results blocks -/

/-- The results of `FindImage`. -/
def FindImage.results (cmd : Json) : Except QueryError Json := do
  let results ← findResults cmd "VD:imgPath"
  if ← cmd.hasMember "metaconstraints" then do
    let constraints ← cmd.get "metaconstraints"
    let members ← constraints.memberNames
    (["image_name"] ++ members ++ regionProps).foldlM appendToList results
  else pure results

/-- The results of `FindVideo`. -/
def FindVideo.results (cmd : Json) : Except QueryError Json := do
  let results ← findResults cmd "VD:videoPath"
  if ← cmd.hasMember "metaconstraints" then do
    let constraints ← cmd.get "metaconstraints"
    let members ← constraints.memberNames
    (["video_name", "frameID"] ++ members ++ regionProps).foldlM appendToList results
  else if ← cmd.hasMember "frameconstraints" then
    ["video_name", "frameID"].foldlM appendToList results
  else pure results

/-- The commands that search for nodes. -/
inductive FindCommand where
  | entity | image | video | frames | blob | boundingBox | descriptorSet | descriptor

namespace FindCommand

def name : FindCommand → String
  | entity => "FindEntity"
  | image => "FindImage"
  | video => "FindVideo"
  | frames => "FindFrames"
  | blob => "FindBlob"
  | boundingBox => "FindBoundingBox"
  | descriptorSet => "FindDescriptorSet"
  | descriptor => "FindDescriptor"

/-- What the API schema says of the parameters. -/
def schema : FindCommand → Schema
  | entity => ApiSchema.findEntity
  | image => ApiSchema.findImage
  | video => ApiSchema.findVideo
  | frames => ApiSchema.findFrames
  | blob => ApiSchema.findBlob
  | boundingBox => ApiSchema.findBoundingBox
  | descriptorSet => ApiSchema.findDescriptorSet
  | descriptor => ApiSchema.findDescriptor

/-- The results block that the command hands on to `QueryNode`. -/
def results (F : FindCommand) (cmd : Json) : Except QueryError Json :=
  match F with
  | entity => FindEntity.results cmd
  | image => FindImage.results cmd
  | video => FindVideo.results cmd
  | frames => FindFrames.results cmd
  | blob => findResults cmd "VD:blobPath"
  | boundingBox => FindBoundingBox.results cmd
  | descriptorSet => FindDescriptorSet.results cmd
  | descriptor => do
      let set ← cmd.get "set"
      let setName ← set.asString
      FindDescriptor.results setName cmd

/-- `construct_protobuf` of the command. That for descriptors says as well which ones the index
has found. -/
def construct (F : FindCommand) (handler : String → Except String DescriptorIndex)
    (setPath : String) (dimensions : ℤ) (query : PMGDQuery) (cmd : Json) (bytes : Bytes) :
    Except Stop (PMGDQuery × Option FindDescriptor.Nearest) :=
  let alone (query : Except Stop PMGDQuery) := query.map fun query => (query, none)
  match F with
  | .entity => alone (ofJson (FindEntity.constructProtobuf query cmd))
  | .image => alone (ofJson (FindImage.constructProtobuf query (.object [("FindImage", cmd)])))
  | .video => alone (ofJson (FindVideo.constructProtobuf query (.object [("FindVideo", cmd)])))
  | .frames => alone (FindFrames.constructProtobuf query cmd)
  | .blob => alone (ofJson (FindBlob.constructProtobuf query cmd))
  | .boundingBox => alone (ofJson (FindBoundingBox.constructProtobuf query cmd))
  | .descriptorSet => alone (ofJson (FindDescriptorSet.constructProtobuf query cmd))
  | .descriptor => FindDescriptor.constructProtobuf handler setPath dimensions query cmd bytes

end FindCommand

end

end Vdms
