import Vdms.ImageLoop
import Vdms.QueryHandlerPMGD

/-!
# The Commands of the Neo4j Handler

`NeoAdd` stores an image in S3 and lets its Cypher statement set the location; `NeoFind` runs
its statement and fetches the images whose locations it finds. A command has two methods:
`data_processing` before its statement is run, and `construct_responses` after it.

What the commands rely on is the `Neo4jLibrary`: the server behind libneo4j-client, the S3
service, `rand`, and the images.
-/

namespace Vdms

open Imp Imp.Prog

/-- How a request to the Neo4j handler can leave off. `exit(1)` ends the process. -/
inductive NeoError where
  | json
  | vcl
  | std (what : String)
  | exited

/-- A value in a row of a result, by the types that `val_check` knows. -/
inductive Neo4jValue where
  | bool (b : Bool)
  | string (s : String)
  | null
  | float (x : Double)
  | bytes (bs : Bytes)
  | int (z : ℤ)
  | unknown

/-- `neo4j_result_stream_t`. A statement that fails has a stream, too. -/
structure ResultStream where
  failure : Bool
  fieldnames : List String
  rows : List (List Neo4jValue)

/-- The libraries and services: servers `σ`, connections `κ`, transactions `τ`, images `ι`. -/
structure Neo4jLibrary (σ κ τ ι : Type) where
  /-- `neo4j_begin_tx`, for the default database. -/
  beginTx : κ → ℕ → String → σ → τ × σ
  /-- `neo4j_run_in_tx`. -/
  runInTx : τ → String → σ → ResultStream × σ
  /-- `neo4j_commit`. -/
  commit : τ → σ → σ
  rand : σ → ℕ × σ
  /-- `RemoteConnection::connected`, of the connection to S3. -/
  connected : σ → Bool
  /-- `RemoteConnection::Write`, which catches what is thrown. -/
  write : String → Bytes → σ → Bool × σ
  /-- `RemoteConnection::Read`. -/
  read : String → σ → Bytes × σ
  /-- `VCL::Image img(data, size, binary_img_flag)`. -/
  image : Bytes → Bool → Except NeoError ι
  imageFormat : ι → VCL.Format
  threshold : ℤ → ι → Except NeoError ι
  resize : ℤ → ℤ → ι → Except NeoError ι
  crop : ℤ → ℤ → ℤ → ℤ → ι → Except NeoError ι
  flip : ℤ → ι → Except NeoError ι
  /-- `rotate`, with the JSON value that is converted to the angle. -/
  rotate : Json → Bool → ι → Except NeoError ι
  /-- `get_raw_data_size`, which performs the operations, and `get_encoded_image`. -/
  encodedImage : VCL.Format → ι → Except NeoError Bytes

/-- What a command works on: the server, and the blobs of the answer. -/
structure NeoWorld (σ : Type) where
  server : σ
  blobs : List Bytes := []

/-- The classes of commands that `init` registers. -/
inductive Neo4jCommand where
  | neoAdd
  | neoFind
deriving DecidableEq

namespace Neo4jCommand

/-- `_rs_cmds`, as `init` fills it. -/
def registry : List (String × Neo4jCommand) := [("NeoAdd", neoAdd), ("NeoFind", neoFind)]

/-- `_rs_cmds.find(cmd)`. -/
def ofName (cmd : String) : Option Neo4jCommand := registry.lookup cmd

/-- `_cmd_name`. -/
def cmdName : Neo4jCommand → String
  | neoAdd => "NeoAdd"
  | neoFind => "NeoFind"

section

variable {σ κ τ ι : Type} [Platform]

abbrev Processing (σ : Type) := Prog (NeoWorld σ) NeoError

def ofJson {α : Type} : Except QueryError α → Processing σ α
  | .ok a => pure a
  | .error _ => throw .json

def ofImage {α : Type} : Except NeoError α → Processing σ α
  | .ok a => pure a
  | .error e => throw e

/-- A call that changes the server. -/
def onServer {α : Type} (f : σ → α × σ) : Processing σ α := do
  let w ← get
  modify fun w => { w with server := (f w.server).2 }
  pure (f w.server).1

/-- `need_blob`. -/
def needBlob (c : Neo4jCommand) (cmd : Json) : Except QueryError Bool :=
  match c with
  | neoAdd => do
      let firstLevel ← cmd.get "NeoAdd"
      let tgtDataType ← getValue pure firstLevel "target_data_type"
        (.string "tgt_type_not_specified")
      let tgtDataType ← tgtDataType.asString
      pure (tgtDataType ≠ "md_only" && tgtDataType ≠ "tgt_type_not_specified")
  | neoFind => pure false

variable (L : Neo4jLibrary σ κ τ ι)

/-! ### The operations on an image -/

/-- One operation of `img_enqueue_operations`; `none` if it is not defined. -/
def enqueueOperation (op : Json) (img : ι) : Processing σ (Option ι) := do
  let type ← ofJson (getValue Json.asString op "type" "")
  if type = "threshold" then do
    let value ← ofJson (getValue Json.asInt op "value" 0)
    some <$> ofImage (L.threshold value img)
  else if type = "resize" then do
    let height ← ofJson (getValue Json.asInt op "height" 0)
    let width ← ofJson (getValue Json.asInt op "width" 0)
    some <$> ofImage (L.resize height width img)
  else if type = "crop" then do
    let x ← ofJson (getValue Json.asInt op "x" 0)
    let y ← ofJson (getValue Json.asInt op "y" 0)
    let width ← ofJson (getValue Json.asInt op "width" 0)
    let height ← ofJson (getValue Json.asInt op "height" 0)
    some <$> ofImage (L.crop x y width height img)
  else if type = "flip" then do
    let code ← ofJson (getValue Json.asInt op "code" 0)
    some <$> ofImage (L.flip code img)
  else if type = "rotate" then do
    let angle ← ofJson (getValue pure op "angle" (.int 0))
    let resize ← ofJson (getValue Json.asBool op "resize" false)
    some <$> ofImage (L.rotate angle resize img)
  else pure none

/-- `img_enqueue_operations`; `none` for -1. -/
def imgEnqueueOperations : List Json → ι → Processing σ (Option ι)
  | [], img => pure (some img)
  | op :: ops, img => do
      match ← enqueueOperation L op img with
      | some img => imgEnqueueOperations ops img
      | none => pure none

/-- The format to encode an image in; `none` if it is not supported. -/
def vclFormat (cmd : Json) (format : String) (img : ι) : Processing σ (Option VCL.Format) := do
  if ← ofJson (cmd.hasMember "target_format") then
    pure (if format = "png" then some .png
      else if format = "jpg" then some .jpg
      else if format = "bin" then some .bin
      else none)
  else pure (some (L.imageFormat img))

/-- `do_single_img_ops`. -/
def doSingleImgOps (origQuery : Json) (rawData : Bytes) (cmdName : String) :
    Processing σ Bytes := do
  if ← ofJson (origQuery.hasMember cmdName) then
    let cmd ← ofJson (origQuery.get cmdName)
    let format ← ofJson (getValue Json.asString cmd "target_format" "")
    let img ← ofImage (L.image rawData (format = "bin" || format = ""))
    let ops ← ofJson (getValue pure cmd "operations" .null)
    match ← imgEnqueueOperations L ops.elements img with
    | none => pure []
    | some img =>
        match ← vclFormat L cmd format img with
        | none => pure []
        | some format => ofImage (L.encodedImage format img)
  else pure []

/-- `s3_upload`. -/
def s3Upload (objName : String) (uploadData : Bytes) : Processing σ ℤ := do
  let w ← get
  if !L.connected w.server then pure (-1)
  else do
    let writeSucc ← onServer (L.write objName uploadData)
    pure (if writeSucc then 0 else -1)

/-- `s3_retrieval`. -/
def s3Retrieval (objName : String) : Processing σ Bytes := do
  let w ← get
  if !L.connected w.server then pure []
  else onServer (L.read objName)

def alphanum : List Char :=
  "0123456789ABCDEFGHIJKLMNOPQRSTUVWXYZabcdefghijklmnopqrstuvwxyz".toList

/-- `gen_random(len)`, behind what there is already. -/
def genRandom : ℕ → List Char → Processing σ String
  | 0, tmp => pure (String.ofList tmp)
  | len + 1, tmp => do
      let r ← onServer L.rand
      genRandom len (tmp ++ [alphanum.getD (r % 62) '0'])

/-! ### `data_processing` -/

/-- The image of `NeoAdd`. A `VCL::Exception` is caught, and the process exits. -/
def encodedBlob (origQuery : Json) (blob : Bytes) : Processing σ Bytes :=
  tryCatch (doSingleImgOps L origQuery blob "NeoAdd") fun e =>
    match e with
    | .vcl => throw .exited
    | e => throw e

/-- `Neo4jNeoAdd::data_processing`, once the image is encoded. -/
def storeImage (cypher tgtDataType : String) (encImg : Bytes) (error : Json) :
    Processing σ (ℤ × String × Json) := do
  let imgObjId ← genRandom L 32 []
  let uploadRc ← s3Upload L imgObjId encImg
  if uploadRc ≠ 0 then pure (-1, cypher, error)
  else do
    let error ← ofJson (error.setMember "image_added" (.string imgObjId))
    let error ← ofJson (error.setMember "data_type" (.string tgtDataType))
    pure (0, cypher ++ " SET VDMSNODE:" ++ tgtDataType ++ " SET VDMSNODE.img_loc = \"" ++
      imgObjId ++ "\"", error)

/-- `results["list"].append(path)`. -/
def appendToList (results : Json) : Except QueryError Unit := do
  match ← results.get "list" with
  | .null | .array _ => pure ()
  | _ => throw .logicError

/-- `data_processing`: the return code, with the statement and the result as it leaves
them. -/
def dataProcessing (c : Neo4jCommand) (cypher : String) (origQuery : Json) (blob : Bytes)
    (error : Json) : Processing σ (ℤ × String × Json) := do
  match c with
  | neoAdd =>
      let cmd ← ofJson (origQuery.get "NeoAdd")
      let _ ← ofJson (getValue Json.asString cmd "target_format" "")
      let tgtDataType ← ofJson (getValue Json.asString cmd "target_data_type" "")
      if tgtDataType = "md_only" then pure (0, cypher, error)
      else do
        let encImg ← encodedBlob L origQuery blob
        if encImg = [] then pure (-1, cypher, error)
        else storeImage L cypher tgtDataType encImg error
  | neoFind =>
      let cmd ← ofJson (origQuery.get "NeoFind")
      let results ← ofJson (cmd.get "results")
      if ← ofJson (getValue Json.asBool results "blob" true) then
        ofJson (appendToList results)
        pure (0, cypher, error)
      else pure (0, cypher, error)

/-! ### `construct_responses` -/

/-- The locations in the rows of a result. -/
def imgPaths (neo4jResponses : Json) : Except QueryError (List String) := do
  let rows ← neo4jResponses.get "metadata_res"
  (List.range rows.size).mapM fun i => do
    let resRow ← rows.index i
    let imgLoc ← resRow.get "VDMSNODE.img_loc"
    imgLoc.asString

/-- One image of `NeoFind`: what its answer says if it cannot be had. -/
def fetchImage (origQuery : Json) (imPath : String) : Processing σ (Option Json) :=
  tryCatch
    (do
      let rawData ← s3Retrieval L imPath
      if rawData ≠ [] then do
        let imgEnc ← doSingleImgOps L origQuery rawData "NeoFind"
        if imgEnc ≠ [] then do
          modify fun w => { w with blobs := w.blobs ++ [imgEnc] }
          pure none
        else pure (some (rejected "Image Operation Failure"))
      else pure (some (rejected "S3 Object Retrieval Failed")))
    fun e =>
      match e with
      | .vcl => pure (some (rejected "VCL Exception"))
      | e => throw e
where
  /-- `return_error`. -/
  rejected (info : String) : Json := .object [("info", .string info), ("status", .int (-1))]

/-- The images of `NeoFind`, up to the first that cannot be had. -/
def fetchImages (origQuery : Json) : List String → Processing σ (Option Json)
  | [] => pure none
  | imPath :: rest => do
      match ← fetchImage L origQuery imPath with
      | some returnError => pure (some returnError)
      | none => fetchImages origQuery rest

/-- `construct_responses`. -/
def constructResponses (c : Neo4jCommand) (neo4jResponses origQuery : Json) :
    Processing σ Json := do
  match c with
  | neoAdd => pure (.object [("NeoAdd", .string "Filler")])
  | neoFind =>
      let cmd ← ofJson (origQuery.get "NeoFind")
      let paths ← ofJson (imgPaths neo4jResponses)
      let results ← ofJson (cmd.get "results")
      if ← ofJson (getValue Json.asBool results "blob" true) then
        match ← fetchImages L origQuery paths with
        | some returnError => pure (.object [("NeoFind", returnError)])
        | none => pure .null
      else pure .null

/-- The response is that of an error: its status is `Neo4jCommand::Error`. -/
def isError (c : Neo4jCommand) (response : Json) : Bool :=
  match response.get c.cmdName >>= fun ret => ret.get "status" with
  | .ok (.int z) => z = -1
  | _ => false

end

end Neo4jCommand

end Vdms
