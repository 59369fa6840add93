import Vdms.DescriptorsCommand
import Vdms.FileCleanup
import Vdms.JsonReader

/-!
# The Start of the Server

The expiration queue is not stored. `build_autodelete_queue` fills it when the server starts:
it hands a query of its own to `process_query`, while `_autodelete_init` says that what the
query lists is to be entered. The query is a text. It has a bracket too many after the second
command, so the array that the reader returns ends there.

## Main definitions

* `FindImage.constructProtobuf`, `FindVideo.constructProtobuf`: the two commands that are read.
* `buildAutodeleteQueue`: the call at the start.
-/

namespace Vdms

open Imp Imp.Prog

/-! ### The text -/

/-- One command of the text. -/
def expiringText (cmd : String) : String :=
  "\x7b\"" ++ cmd ++ "\": \x7b\"results\": \x7b\"list\": [\"_expiration\"]\x7d, " ++
    "\"constraints\": \x7b\"_expiration\": [\">\", 0]\x7d\x7d\x7d"

/-- The text of `build_autodelete_queue`. -/
def autodeleteText : String :=
  "[" ++ expiringText "FindImage" ++ ", " ++ expiringText "FindVideo" ++ "], " ++
    expiringText "FindFrames" ++ "], " ++ expiringText "FindDescriptor" ++ "], " ++
    expiringText "FindEntity"

/-- The parameters of one command. The members are in the order of their keys. -/
def expiringParameters : Json :=
  .object [("constraints", .object [("_expiration", .array [.string ">", .int 0])]),
    ("results", .object [("list", .array [.string "_expiration"])])]

/-- What is left of the text: two commands of five. -/
def autodeleteQueries : List Json :=
  [.object [("FindImage", expiringParameters)], .object [("FindVideo", expiringParameters)]]

/-- **The bracket after the second command** ends the array. -/
theorem autodeleteText_begins : ∃ rest, JsonText.readValue 1000 autodeleteText.toList =
    some (.array autodeleteQueries, rest) := by
  have hread : (JsonText.readValue 1000 autodeleteText.toList).map Prod.fst =
      some (.array autodeleteQueries) := by
    simp only [autodeleteText, expiringText, String.toList_append]
    decide +kernel
  obtain ⟨⟨v, rest⟩, hv, rfl⟩ := Option.map_eq_some_iff.1 hread
  exact ⟨rest, hv⟩

/-! ### The commands -/

/-- `results["list"].append(name)`. -/
def appendToList (results : Json) (name : String) : Except QueryError Json := do
  match ← results.get "list" with
  | .null => results.setMember "list" (.array [.string name])
  | .array xs => results.setMember "list" (.array (xs ++ [.string name]))
  | _ => .error .logicError

section

variable [Platform]

/-- The query for the nodes of a tag, with the constraints of a member of the command. -/
def findNodes (query : PMGDQuery) (cmd results : Json) (tag member : String) :
    Except QueryError PMGDQuery := do
  let ref ← getValue Json.asInt cmd "_ref" (-1)
  let link ← cmd.get "link"
  let constraints ← cmd.get member
  let unique ← getValue Json.asBool cmd "unique" false
  query.queryNode ref tag link constraints results unique false

/-- The results of a command. Unless otherwise specified, the path of the blob is listed. -/
def findResults (cmd : Json) (path : String) : Except QueryError Json := do
  let results ← getValue pure cmd "results" .null
  if ← getValue Json.asBool results "blob" true then appendToList results path
  else pure results

/-- The properties of the regions of interest. -/
def regionProps : List String :=
  ["objectID", "object_det", "VD:x1", "VD:y1", "VD:width", "VD:height"]

/-- The query for the regions of interest in an image or in a video. -/
def findRegions (query : PMGDQuery) (cmd results : Json) (names : List String) :
    Except QueryError PMGDQuery := do
  let constraints ← cmd.get "metaconstraints"
  let members ← constraints.memberNames
  let results ← (names ++ members ++ regionProps).foldlM appendToList results
  findNodes query cmd results "VD:ROI" "metaconstraints"

/-- `FindImage::construct_protobuf`. -/
def FindImage.constructProtobuf (query : PMGDQuery) (jsoncmd : Json) :
    Except QueryError PMGDQuery := do
  let cmd ← jsoncmd.get "FindImage"
  let results ← findResults cmd "VD:imgPath"
  if ← cmd.hasMember "metaconstraints" then findRegions query cmd results ["image_name"]
  else findNodes query cmd results "VD:IMG" "constraints"

/-- `FindVideo::construct_protobuf`. -/
def FindVideo.constructProtobuf (query : PMGDQuery) (jsoncmd : Json) :
    Except QueryError PMGDQuery := do
  let cmd ← jsoncmd.get "FindVideo"
  let results ← findResults cmd "VD:videoPath"
  if ← cmd.hasMember "metaconstraints" then
    findRegions query cmd results ["video_name", "frameID"]
  else if ← cmd.hasMember "frameconstraints" then do
    let results ← ["video_name", "frameID"].foldlM appendToList results
    findNodes query cmd results "Frame" "frameconstraints"
  else findNodes query cmd results "VD:VID" "constraints"

/-! ### The call -/

open QueryHandlerPMGD

/-- What a request calls besides the two commands and the database. The responses read files
and add to the answer. -/
structure Surroundings where
  report : Json → String
  jsonWhat : String
  /-- `construct_protobuf` of the other commands. -/
  constructOther : RSCommand → Json → Bytes → ℕ → Json → Querying Handler (ℤ × Json)
  constructResponses : RSCommand → Json → Json → Bytes → QueryAnswer →
    Except RequestError Json × QueryAnswer
  /-- The files that `cleanup_query` deletes, up to the exception that stops it. -/
  deletedFiles : List String → List String → List String
  /-- Where the videos are stored. -/
  pathVideos : String

/-- A computation of the database. -/
def onServer {α : Type} (m : Handling α) : Querying Handler α :=
  focus QueryState.server (fun h s => { s with server := h }) RequestError.pmgd m

/-- `construct_protobuf` of a command that adds to the query. -/
def constructFind (construct : PMGDQuery → Json → Except QueryError PMGDQuery) (json error : Json) :
    Querying Handler (ℤ × Json) := do
  let s ← get
  let query ← ofQuery (construct s.query json)
  modify fun s => { s with query := query }
  pure (0, error)

/-- The methods of the handler, given `_autodelete_init`. -/
def Surroundings.methods (W : Surroundings) (autodeleteInit : Bool) : Methods Handler where
  report := W.report
  jsonWhat := W.jsonWhat
  constructProtobuf rscmd json blob grpId error :=
    match rscmd with
    | .findImage => constructFind FindImage.constructProtobuf json error
    | .findVideo => constructFind FindVideo.constructProtobuf json error
    | rscmd => W.constructOther rscmd json blob grpId error
  run := do
    let s ← get
    let responses ← onServer (s.query.run autodeleteInit)
    ofQuery (s.query.answer responses)
  constructResponses rscmd response json blob := do
    let s ← get
    let (reply, answer) := W.constructResponses rscmd response json blob s.answer
    modify fun s => { s with answer := answer }
    match reply with
    | .ok json => pure json
    | .error e => throw e
  cleanupQuery images videos :=
    modify fun s => { s with server := { s.server with
      removedFiles := s.server.removedFiles ++ W.deletedFiles images videos } }
  cleanupFiles := onServer (Vdms.cleanupFiles W.pathVideos)

/-- `build_autodelete_queue`, with `_autodelete_init` set. -/
def buildAutodeleteQueue (R : JsonReader) (W : Surroundings) : Querying Handler Unit :=
  QueryHandlerPMGD.processQuery (W.methods true) ⟨R.parse autodeleteText, []⟩

end

end Vdms
