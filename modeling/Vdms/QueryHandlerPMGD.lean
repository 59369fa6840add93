import Vdms.ApiSchema
import Vdms.PMGDQuery

/-!
# Requests

`QueryHandlerPMGD`: a message is parsed, checked against the API schema, and its commands
go through two loops, one that builds the transaction and one, after the transaction, that
builds the answer. What the commands do in these loops is left open here: the handler
calls their virtual methods.

Where the source takes the first member name of an object without members, calls a command
that is not registered, or reads a blob the message does not have, its behaviour is
undefined and the model has no outcome.
-/

namespace Vdms

open Imp Imp.Prog

/-! ### JSON objects that change -/

namespace Json

/-- `getMemberNames()`. -/
def memberNames : Json → Except QueryError (List String)
  | .null => .ok []
  | .object ms => .ok (ms.map Prod.fst)
  | _ => .error .logicError

/-- `isMember(key)`, of any value. -/
def hasMember (j : Json) (key : String) : Except QueryError Bool :=
  match j with
  | .null => .ok false
  | .object ms => .ok (ms.lookup key).isSome
  | _ => .error .logicError

/-- The members of an object are in the order of their keys. -/
def insertMember (key : String) (v : Json) : List (String × Json) → List (String × Json)
  | [] => [(key, v)]
  | (k, w) :: ms =>
      if key = k then (key, v) :: ms
      else if key < k then (key, v) :: (k, w) :: ms
      else (k, w) :: insertMember key v ms

/-- `j[key] = v`. -/
def setMember (j : Json) (key : String) (v : Json) : Except QueryError Json :=
  match j with
  | .null => .ok (.object [(key, v)])
  | .object ms => .ok (.object (insertMember key v ms))
  | _ => .error .logicError

end Json

/-- `RSCommand::get_value`, with the conversion of its type. -/
def getValue {α : Type} (conv : Json → Except QueryError α) (j : Json) (key : String)
    (dflt : α) : Except QueryError α := do
  if ← j.hasMember key then
    let v ← j.get key
    conv v
  else pure dflt

/-! ### Messages -/

abbrev Bytes := List UInt8

/-- What `Json::Reader` returns. -/
structure Document where
  root : Json
  distinctKeys : root.DistinctKeys

/-- `protobufs::queryMessage`, with its text read: the document, or what the reader has
left behind in the root when it gave up. -/
structure QueryMessage where
  json : Except Json Document
  blobs : List Bytes

/-- `root`, after the reader. -/
def QueryMessage.root (msg : QueryMessage) : Json :=
  match msg.json with
  | .ok doc => doc.root
  | .error left => left

/-- The message that is sent back. -/
structure QueryAnswer where
  json : Json := .null
  blobs : List Bytes := []

/-- The exceptions `process_query` tells apart. -/
inductive RequestError where
  | vcl
  | pmgd (e : PMGDException)
  | command (msg : String)
  | json
  | invalidArgument (what : String)
  | std (what : String)
  | unknown

def QueryError.toRequestError : QueryError → RequestError
  | .logicError => .json
  | .exceptionCommand msg => .command msg

/-! ### Commands -/

/-- The classes of commands that `init` registers. -/
inductive RSCommand where
  | addEntity | updateEntity | findEntity
  | addConnection | updateConnection | findConnection
  | addImage | updateImage | findImage | deleteExpired
  | addDescriptorSet | findDescriptorSet | addDescriptor | findDescriptor
  | classifyDescriptor
  | addBoundingBox | updateBoundingBox | findBoundingBox
  | addVideo | updateVideo | findVideo | findFrames
  | addBlob | updateBlob | findBlob
deriving DecidableEq

namespace RSCommand

/-- `_rs_cmds`, as `init` fills it. -/
def registry : List (String × RSCommand) :=
  [("AddEntity", addEntity), ("UpdateEntity", updateEntity), ("FindEntity", findEntity),
    ("AddConnection", addConnection), ("UpdateConnection", updateConnection),
    ("FindConnection", findConnection), ("AddImage", addImage), ("UpdateImage", updateImage),
    ("FindImage", findImage), ("DeleteExpired", deleteExpired),
    ("AddDescriptorSet", addDescriptorSet), ("FindDescriptorSet", findDescriptorSet),
    ("AddDescriptor", addDescriptor), ("FindDescriptor", findDescriptor),
    ("ClassifyDescriptor", classifyDescriptor), ("AddBoundingBox", addBoundingBox),
    ("UpdateBoundingBox", updateBoundingBox), ("FindBoundingBox", findBoundingBox),
    ("AddVideo", addVideo), ("UpdateVideo", updateVideo), ("FindVideo", findVideo),
    ("FindFrames", findFrames), ("AddBlob", addBlob), ("UpdateBlob", updateBlob),
    ("FindBlob", findBlob)]

/-- `_rs_cmds.find(cmd)`. -/
def ofName (cmd : String) : Option RSCommand := registry.lookup cmd

variable [Platform]

/-- `need_blob`. -/
def needBlob (c : RSCommand) (query : Json) : Except QueryError Bool :=
  match c with
  | addEntity => do
      let cmd ← query.get "AddEntity"
      getValue Json.asBool cmd "blob" false
  | addImage => do
      let cmd ← query.get "AddImage"
      let stored ← cmd.hasMember "from_file_path"
      pure !stored
  | addVideo => do
      let cmd ← query.get "AddVideo"
      let stored ← cmd.hasMember "from_file_path"
      pure !stored
  | findDescriptor => do
      let cmd ← query.get "FindDescriptor"
      cmd.hasMember "k_neighbors"
  | addDescriptor | classifyDescriptor | addBlob => pure true
  | _ => pure false

end RSCommand

/-! ### The handler -/

namespace QueryHandlerPMGD

/-- What a request works on: the server `σ`, the query that is built, the answer, and the
files that `cleanup_query` removes. -/
structure QueryState (σ : Type) where
  server : σ
  query : PMGDQuery
  answer : QueryAnswer := {}
  imagesLog : List String := []
  videosLog : List String := []

abbrev Querying (σ : Type) := Prog (QueryState σ) RequestError

/-- What the handler calls. -/
structure Methods (σ : Type) where
  /-- What the validator reports about a document that it rejects. -/
  report : Json → String
  /-- The text of a JSON exception. -/
  jsonWhat : String
  constructProtobuf : RSCommand → Json → Bytes → ℕ → Json → Querying σ (ℤ × Json)
  /-- `PMGDQuery::run`. -/
  run : Querying σ Json
  constructResponses : RSCommand → Json → Json → Bytes → Querying σ Json
  cleanupQuery : List String → List String → Querying σ Unit
  cleanupFiles : Querying σ Unit

section Handler

variable {σ : Type}

def ofQuery {α : Type} (x : Except QueryError α) : Querying σ α :=
  match x with
  | .ok a => pure a
  | .error e => throw e.toRequestError

/-- `getMemberNames()[0]`. -/
def firstMember (query : Json) : Querying σ String := do
  match ← ofQuery query.memberNames with
  | cmd :: _ => pure cmd
  | [] => stuck

/-- `_rs_cmds[cmd]`, of which a method is called. -/
def registered (cmd : String) : Querying σ RSCommand :=
  match RSCommand.ofName cmd with
  | some c => pure c
  | none => stuck

/-- The search for a simple error in a document that the schema rejects. -/
def simpleError : List Json → Except QueryError (Option String)
  | [] => pure none
  | query :: rest => do
      match ← query.memberNames with
      | [cmd] =>
          if (RSCommand.ofName cmd).isNone then pure (some (cmd ++ ": Command not found!"))
          else simpleError rest
      | _ => pure (some "Error: Only one command per element allowed")

/-- The elements `root[0]`, `root[1]`, … below `size()`. -/
def indexed (root : Json) : Except QueryError (List Json) :=
  (List.range root.size).mapM root.index

/-- The check of the constraints of one command. -/
def constraintError (constraints : Json) : List String → Except QueryError (Option String)
  | [] => pure none
  | member :: rest => do
      let c ← constraints.get member
      if !c.isArray then
        pure (some ("Constraint for property '" ++ member ++ "' must be an array"))
      else if c.size ≠ 2 ∧ c.size ≠ 4 then
        pure (some ("Constraint for property '" ++ member ++
          "' must be an array of size 2 or 4"))
      else constraintError constraints rest

/-- The check of a command that the schema accepts. -/
def commandError (cmd : Json) : Except QueryError (Option String) := do
  if ← cmd.hasMember "constraints" then
    let constraints ← cmd.get "constraints"
    let names ← constraints.memberNames
    constraintError constraints names
  else pure none

/-- The loop over the commands of a document that the schema accepts. -/
def checkCommands : List Json → Querying σ (Option String)
  | [] => pure none
  | cmdTop :: rest => do
      let cmdStr ← firstMember cmdTop
      let cmd ← ofQuery (cmdTop.get cmdStr)
      match ← ofQuery (commandError cmd) with
      | some info => pure (some info)
      | none => checkCommands rest

variable [Platform] (M : Methods σ)

/-- `syntax_checker`: the error, if there is one. -/
def syntaxChecker (root : Json) : Querying σ (Option String) :=
  if ApiSchema.request root then checkCommands root.elements
  else do
    let queries ← ofQuery (indexed root)
    match ← ofQuery (simpleError queries) with
    | some info => pure (some info)
    | none => pure (some (M.report root))

/-- The number of blobs the commands need. -/
def countBlobs : List Json → Querying σ ℕ
  | [] => pure 0
  | query :: rest => do
      let cmd ← firstMember query
      let rscmd ← registered cmd
      let needs ← ofQuery (rscmd.needBlob query)
      let n ← countBlobs rest
      pure (if needs then n + 1 else n)

/-- `root["info"] = info` and `root["status"] = RSCommand::Error`. -/
def rejection (root : Json) (info : String) : Except QueryError Json := do
  let root ← root.setMember "info" (.string info)
  root.setMember "status" (.int (-1))

/-- What `parse_commands` does with a message whose text could be read: the commands, or
the answer to a request that is rejected. -/
def checkDocument (root : Json) (blobs : List Bytes) :
    Querying σ (Except Json (List Json)) := do
  match ← syntaxChecker M root with
  | some info => do
      let error ← ofQuery (rejection .null info)
      pure (.error error)
  | none => do
      let queries ← ofQuery (indexed root)
      let blobCounter ← countBlobs queries
      if blobCounter ≠ blobs.length then do
        let error ← ofQuery (rejection .null ("Expected blobs: " ++ toString blobCounter ++
          ". Received blobs: " ++ toString blobs.length))
        pure (.error error)
      else pure (.ok queries)

/-- `parse_commands`. -/
def parseCommands (msg : QueryMessage) : Querying σ (Except Json (List Json)) :=
  tryCatch
    (match msg.json with
    | .error left => do
        let error ← ofQuery (rejection left "Error parsing the query, ill formed JSON")
        pure (.error error)
    | .ok doc => checkDocument M doc.root msg.blobs)
    fun e =>
      match e with
      | .json => do
          let error ← ofQuery (rejection msg.root "Json Exception at Parsing")
          pure (.error error)
      | e => throw e

/-- The `error` lambda: clean up, and answer with one result and the command that
failed. -/
def error (res failedCommand : Json) : Querying σ Unit := do
  let s ← get
  M.cleanupQuery s.imagesLog s.videosLog
  let res ← ofQuery (res.setMember "FailedCommand" failedCommand)
  modify fun s => { s with answer := { json := .array [res], blobs := [] } }

/-- `need_blob(query) ? blobs(blob_count++) : ""`. -/
def takeBlob (blobs : List Bytes) (rscmd : RSCommand) (query : Json) (blobCount : ℕ) :
    Querying σ (Bytes × ℕ) := do
  if ← ofQuery (rscmd.needBlob query) then
    match blobs[blobCount]? with
    | some blob => pure (blob, blobCount + 1)
    | none => stuck
  else pure ([], blobCount)

/-- `add_group()`. -/
def addGroup : Querying σ ℕ := do
  modify fun s => { s with query := s.query.addGroup }
  let s ← get
  pure s.query.currentGroupId

/-- Note the files that a command has stored. -/
def logAdded (cmdResult : Json) : Querying σ Unit := do
  if ← ofQuery (cmdResult.hasMember "image_added") then
    let path ← ofQuery (cmdResult.get "image_added")
    let path ← ofQuery path.asString
    modify fun s => { s with imagesLog := s.imagesLog ++ [path] }
  if ← ofQuery (cmdResult.hasMember "video_added") then
    let path ← ofQuery (cmdResult.get "video_added")
    let path ← ofQuery path.asString
    modify fun s => { s with videosLog := s.videosLog ++ [path] }

/-- The rest of a pass of the first loop, once the command has its blob: its result, or
nothing if the request has been answered with an error. -/
def constructCommand (rscmd : RSCommand) (query : Json) (blob : Bytes) (groupCount : ℕ)
    (cmdResult : Json) : Querying σ (Option Json) := do
  let (retCode, cmdResult) ← M.constructProtobuf rscmd query blob groupCount cmdResult
  logAdded cmdResult
  if retCode ≠ 0 then do
    error M cmdResult query
    pure none
  else pure (some cmdResult)

/-- The loop that builds the transaction. `cmd_result` is one variable for all commands;
the results so far are kept beside it. -/
def constructLoop (blobs : List Bytes) :
    List Json → ℕ → Json → List Json → Querying σ (Option (List Json))
  | [], _, _, results => pure (some results)
  | query :: rest, blobCount, cmdResult, results => do
      let cmd ← firstMember query
      let groupCount ← addGroup
      let rscmd ← registered cmd
      let (blob, blobCount) ← takeBlob blobs rscmd query blobCount
      match ← constructCommand M rscmd query blob groupCount cmdResult with
      | some cmdResult =>
          constructLoop blobs rest blobCount cmdResult (results ++ [cmdResult])
      | none => pure none

/-- The rest of a pass of the second loop. The status is compared so that it is an error
whatever it is. -/
def respondCommand (rscmd : RSCommand) (query result response : Json) (blob : Bytes) :
    Querying σ (Option Json) := do
  let query ← ofQuery (query.setMember "cp_result" result)
  let cmdResult ← M.constructResponses rscmd response query blob
  if ← ofQuery (cmdResult.hasMember "status") then do
    let status ← ofQuery (cmdResult.get "status")
    let status ← ofQuery status.asInt
    if status ≠ 0 ∨ status ≠ 1 ∨ status ≠ 2 then do
      error M cmdResult query
      pure none
    else pure (some cmdResult)
  else pure (some cmdResult)

/-- The loop that builds the answer, over the commands with their results and the
responses of the transaction. -/
def responseLoop (blobs : List Bytes) :
    List (Json × Json × Json) → ℕ → List Json → Querying σ (Option (List Json))
  | [], _, jsonResponses => pure (some jsonResponses)
  | (query, result, response) :: rest, blobCount, jsonResponses => do
      let cmd ← firstMember query
      let rscmd ← registered cmd
      let (blob, blobCount) ← takeBlob blobs rscmd query blobCount
      match ← respondCommand M rscmd query result response blob with
      | some cmdResult => responseLoop blobs rest blobCount (jsonResponses ++ [cmdResult])
      | none => pure none

/-- The message of a transaction that has not answered every command. -/
def transactionError (txResponses : Json) : Except QueryError String :=
  if !txResponses.isArray then do
    if ← txResponses.hasMember "info" then
      let info ← txResponses.get "info"
      let info ← info.asString
      pure ("Failed PMGD Transaction" ++ ": " ++ info)
    else pure "Failed PMGD Transaction"
  else pure "Failed PMGD Transaction"

/-- The end of a request whose commands have all answered. -/
def finish (jsonResponses : List Json) : Querying σ Unit := do
  modify fun s => { s with answer := { s.answer with json := Json.appended jsonResponses } }
  M.cleanupFiles

/-- The answer to a transaction that has not answered every command. The last result is
the one that the error is added to. -/
def failTransaction (cmdResult txResponses : Json) : Querying σ Unit := do
  let txErrorMsg ← ofQuery (transactionError txResponses)
  let cmdResult ← ofQuery (cmdResult.setMember "status" (.int (-1)))
  let cmdResult ← ofQuery (cmdResult.setMember "info" (.string txErrorMsg))
  error M cmdResult (.string "Transaction")

/-- From the transaction on, given the number of commands, their results, and the loop
that builds the answer from the results and the responses. -/
def runTransaction (size : ℕ) (results : List Json)
    (respond : List (Json × Json) → Querying σ (Option (List Json))) : Querying σ Unit := do
  let txResponses ← M.run
  if !txResponses.isArray ∨ txResponses.size ≠ size then
    failTransaction M (results.getLast?.getD .null) txResponses
  else do
    match ← respond (results.zip txResponses.elements) with
    | some jsonResponses => finish M jsonResponses
    | none => pure ()

/-- The requests that `parse_commands` has accepted. -/
def processAccepted (queries : List Json) (blobs : List Bytes) : Querying σ Unit := do
  match ← constructLoop M blobs queries 0 .null [] with
  | some results =>
      runTransaction M queries.length results fun rest =>
        responseLoop M blobs (queries.zip rest) 0 []
  | none => pure ()

/-- `exception_handler`: the blobs that have been added stay. -/
def exceptionHandler (msg : String) : Querying σ Unit :=
  modify fun s => { s with answer := { s.answer with
    json := .array [.object [("info", .string msg), ("status", .int (-1))]] } }

/-- The handlers of `process_query`. -/
def handleException : RequestError → Querying σ Unit
  | .vcl => do
      let s ← get
      M.cleanupQuery s.imagesLog s.videosLog
      exceptionHandler "Internal Server Error: VCL Exception at QH\n"
  | .pmgd _ => exceptionHandler "Internal Server Error: PMGD Exception at QH\n"
  | .command _ => exceptionHandler "Internal Server Error: Command Exception at QH\n"
  | .json => exceptionHandler ("Internal Server Error: Json Exception: " ++ M.jsonWhat ++ "\n")
  | .invalidArgument what => exceptionHandler ("FATAL: Invalid argument: " ++ what ++ "\n")
  | .std what => exceptionHandler ("std Exception: " ++ what ++ "\n")
  | .unknown => exceptionHandler "Unknown Exception\n"

/-- `process_query`. -/
def processQuery (msg : QueryMessage) : Querying σ Unit :=
  tryCatch
    (do
      match ← parseCommands M msg with
      | .error root => error M root (.string "Transaction")
      | .ok queries => processAccepted M queries msg.blobs)
    (handleException M)

end Handler

end QueryHandlerPMGD

end Vdms
