import Vdms.Neo4jCommands

/-!
# Requests to Neo4j

`BackendNeo4j` and `QueryHandlerNeo4j`: a request takes a connection from the pool, is parsed
and checked, opens a transaction, and runs its commands in it one after the other. The calls
that the protocol of a request is about are noted in a list of events.

An empty pool blocks the caller. As there is then no outcome, and there is none either where
the source's behaviour is undefined: at the first member name of an object without members,
a command that is not registered, a blob that the message does not have, and in
`results_to_json` beyond its buffers.
-/

namespace Vdms

open Imp Imp.Prog

/-- The calls of a request. -/
inductive NeoEvent (κ τ : Type) where
  | getConn (conn : κ)
  | putConn (conn : κ)
  | openTx (tx : τ)
  | commitTx (tx : τ)
  /-- `rollback_tx`, which nothing calls. -/
  | rollbackTx (tx : τ)
  /-- `parse_commands` has returned. -/
  | parseCommands (rc : ℤ)
  /-- `data_processing` of a command is called. -/
  | dataProcessing
  /-- The statement of a command is run. -/
  | runInTx (tx : τ)
  /-- `construct_responses` of a command is called. -/
  | constructResponses
  /-- A command is through: `data_processing` has returned 0, the statement has not failed,
  and the response is not that of an error. -/
  | succeeded
deriving DecidableEq

/-- What a request works on, with its calls so far. `json` is that of the answer. -/
structure NeoState (σ κ τ : Type) extends NeoWorld σ where
  /-- `conn_pool`. -/
  connPool : List κ
  json : Json := .null
  events : List (NeoEvent κ τ) := []

namespace BackendNeo4j

/-! ### The results of a statement -/

/-- What a `std::string` takes from a pointer to characters: those before the first zero. -/
def cString (s : String) : String := String.ofList (s.toList.takeWhile fun c => c.toNat ≠ 0)

/-- The value of a field, if `results_to_json` sets one. A string that does not fit into
`strbuf` is written behind it. -/
def fieldJson : Neo4jValue → Option (Option Json)
  | .bool b => some (some (.bool b))
  | .string s => if s.utf8ByteSize < 4096 then some (some (.string (cString s))) else none
  | .null => some (some .null)
  | .float x => some (some (.real x))
  | .bytes _ => some none
  | .int z => some (some (.int z))
  | .unknown => some none

/-- A row: its members, of which there are none until one is set. -/
def rowJson : List (String × Neo4jValue) → List (String × Json) → Option (List (String × Json))
  | [], ms => some ms
  | (fname, v) :: rest, ms => do
      match ← fieldJson v with
      | some j => rowJson rest (Json.insertMember fname j ms)
      | none => rowJson rest ms

/-- The array of rows. It ends with the last row that has a member. -/
def rowsJson : List (List (String × Json)) → List Json
  | [] => []
  | ms :: rest =>
      match ms, rowsJson rest with
      | [], [] => []
      | [], rows => .null :: rows
      | ms, rows => .object ms :: rows

/-- `results_to_json`: none beyond `fields`. -/
def resultsToJson (results : ResultStream) : Option Json := do
  if 32 < results.fieldnames.length then none
  let rows ← results.rows.mapM fun row => rowJson (results.fieldnames.zip row) []
  pure (.object [("metadata_res", Json.appended (rowsJson rows))])

end BackendNeo4j

namespace QueryHandlerNeo4j

open QueryHandlerPMGD (indexed commandError rejection)

/-! ### Parsing -/

section Parsing

/-- A computation that only looks at its arguments. -/
abbrev Checking := Prog Unit QueryError

def ofQuery {α : Type} : Except QueryError α → Checking α
  | .ok a => pure a
  | .error e => throw e

/-- `getMemberNames()[0]`. -/
def firstMember (query : Json) : Checking String := do
  match ← ofQuery query.memberNames with
  | cmd :: _ => pure cmd
  | [] => stuck

/-- `_rs_cmds[cmd]`, of which a method is called. -/
def registered (cmd : String) : Checking Neo4jCommand :=
  match Neo4jCommand.ofName cmd with
  | some c => pure c
  | none => stuck

/-- The search for a simple error in a document that the schema rejects. -/
def simpleError : List Json → Except QueryError (Option String)
  | [] => pure none
  | query :: rest => do
      match ← query.memberNames with
      | [cmd] =>
          if (Neo4jCommand.ofName cmd).isNone then pure (some (cmd ++ ": Command not found!"))
          else simpleError rest
      | _ => pure (some "Error: Only one command per element allowed")

/-- The loop over the commands of a document that the schema accepts. -/
def checkCommands : List Json → Checking (Option String)
  | [] => pure none
  | cmdTop :: rest => do
      let cmdStr ← firstMember cmdTop
      let cmd ← ofQuery (cmdTop.get cmdStr)
      match ← ofQuery (commandError cmd) with
      | some info => pure (some info)
      | none => checkCommands rest

variable [Platform] (report : Json → String)

/-- `syntax_checker`: the error, if there is one. `report` is what the validator says about a
document that it rejects. -/
def syntaxChecker (root : Json) : Checking (Option String) :=
  if ApiSchema.request root then checkCommands root.elements
  else do
    let queries ← ofQuery (indexed root)
    match ← ofQuery (simpleError queries) with
    | some info => pure (some info)
    | none => pure (some (report root))

/-- The number of blobs the commands need. -/
def countBlobs : List Json → Checking ℕ
  | [] => pure 0
  | query :: rest => do
      let cmd ← firstMember query
      let rscmd ← registered cmd
      let needs ← ofQuery (rscmd.needBlob query)
      let n ← countBlobs rest
      pure (if needs then n + 1 else n)

/-- What `parse_commands` does with a message whose text could be read. Blobs that no command
needs are not counted. -/
def checkDocument (root : Json) (blobs : List Bytes) : Checking (ℤ × Json) := do
  match ← syntaxChecker report root with
  | some info => do
      let root ← ofQuery (rejection .null info)
      pure (-1, root)
  | none => do
      let queries ← ofQuery (indexed root)
      let blobCounter ← countBlobs queries
      if blobCounter ≠ 0 ∧ blobCounter ≠ blobs.length then do
        let root ← ofQuery (rejection .null ("Expected blobs: " ++ toString blobCounter ++
          ". Received blobs: " ++ toString blobs.length))
        pure (-1, root)
      else pure (0, root)

/-- `parse_commands`: what it returns, and the root as it leaves it. -/
def parseCommands (msg : QueryMessage) : Checking (ℤ × Json) :=
  tryCatch
    (match msg.json with
    | .error left => do
        let root ← ofQuery (rejection left "Error parsing the query, ill formed JSON")
        pure (-1, root)
    | .ok doc => checkDocument report doc.root msg.blobs)
    fun e =>
      match e with
      | .logicError => do
          let root ← ofQuery (rejection msg.root "Json Exception at Parsing")
          pure (-1, root)
      | e => throw e

end Parsing

/-! ### The handler -/

section Handler

variable {σ κ τ ι : Type} [Platform]

abbrev Handling (σ κ τ : Type) := Prog (NeoState σ κ τ) NeoError

/-- A computation that changes nothing. -/
def checking {α : Type} (m : Checking α) : Handling σ κ τ α :=
  focus (fun _ => ()) (fun _ s => s) (fun _ => .json) m

/-- A method of a command. -/
def processing {α : Type} (m : Neo4jCommand.Processing σ α) : Handling σ κ τ α :=
  focus NeoState.toNeoWorld (fun w s => { s with toNeoWorld := w }) id m

/-- A call is made. -/
def note (e : NeoEvent κ τ) : Handling σ κ τ Unit :=
  modify fun s => { s with events := s.events ++ [e] }

/-- `get_conn`. It waits while there is no connection. -/
def getConn : Handling σ κ τ κ := do
  let s ← get
  match s.connPool with
  | [] => stuck
  | conn :: rest =>
      modify fun s => { s with connPool := rest }
      note (.getConn conn)
      pure conn

/-- `put_conn`. -/
def putConn (conn : κ) : Handling σ κ τ Unit := do
  modify fun s => { s with connPool := s.connPool ++ [conn] }
  note (.putConn conn)

variable (L : Neo4jLibrary σ κ τ ι)

/-- `open_tx`. -/
def openTx (conn : κ) (timeoutMs : ℕ) (mode : String) : Handling σ κ τ τ := do
  let tx ← processing (Neo4jCommand.onServer (L.beginTx conn timeoutMs mode))
  note (.openTx tx)
  pure tx

/-- `run_in_tx`. -/
def runInTx (cypherString : String) (tx : τ) : Handling σ κ τ ResultStream := do
  note (.runInTx tx)
  processing (Neo4jCommand.onServer (L.runInTx tx cypherString))

/-- `commit_tx`. What it returns is not looked at. -/
def commitTx (tx : τ) : Handling σ κ τ Unit := do
  processing (Neo4jCommand.onServer fun s => ((), L.commit tx s))
  note (.commitTx tx)

/-- `results_to_json`. -/
def resultsToJson (results : ResultStream) : Handling σ κ τ Json :=
  match BackendNeo4j.resultsToJson results with
  | some neo4jResp => pure neo4jResp
  | none => stuck

/-- What goes from one pass of the loop to the next: `blob_count`, `cmd_result`, `hello_res`
and `json_responses`. -/
structure Pass where
  blobCount : ℕ := 0
  cmdResult : Json := .null
  helloRes : Json := .null
  jsonResponses : List Json := []

/-- `need_blob(query) ? blobs(blob_count++) : ""`. -/
def takeBlob (blobs : List Bytes) (rscmd : Neo4jCommand) (query : Json) (blobCount : ℕ) :
    Checking (Bytes × ℕ) := do
  if ← ofQuery (rscmd.needBlob query) then
    match blobs[blobCount]? with
    | some blob => pure (blob, blobCount + 1)
    | none => stuck
  else pure ([], blobCount)

/-- The command of a query and its statement. -/
def commandOf (query : Json) : Checking (Neo4jCommand × String) := do
  let cmd ← firstMember query
  let params ← ofQuery (query.get cmd)
  let cypher ← ofQuery (params.get "cypher")
  let cypher ← ofQuery cypher.asString
  let rscmd ← registered cmd
  pure (rscmd, cypher)

/-- `neo4j_resp["metadata_res"]`, if it is a member. -/
def metadataRes (neo4jResp : Json) : Checking (Option Json) := do
  if ← ofQuery (neo4jResp.hasMember "metadata_res") then
    let metadata ← ofQuery (neo4jResp.get "metadata_res")
    pure (some metadata)
  else pure none

/-- `hello_res`, with what the statement has found. -/
def metadataSet (neo4jResp helloRes : Json) : Checking Json := do
  match ← metadataRes neo4jResp with
  | some metadata => ofQuery (helloRes.setMember "metadata_res" metadata)
  | none => pure helloRes

/-- The end of a pass: `json_responses.append(hello_res)`, and the answer with it. -/
def respond (neo4jResp : Json) (p : Pass) : Handling σ κ τ Pass := do
  let helloRes ← checking (metadataSet neo4jResp p.helloRes)
  let jsonResponses := p.jsonResponses ++ [helloRes]
  modify fun s => { s with json := .array jsonResponses }
  pure { p with helloRes, jsonResponses }

/-- The rest of a pass, once the command has its statement and blob. There is no next pass if
`data_processing` does not return 0. -/
def processCommand (tx : τ) (query : Json) (rscmd : Neo4jCommand) (cypher : String)
    (blob : Bytes) (p : Pass) : Handling σ κ τ (Option Pass) := do
  note .dataProcessing
  let (rc, cypher, cmdResult) ← processing (rscmd.dataProcessing L cypher query blob p.cmdResult)
  if rc ≠ 0 then pure none
  else do
    let resStream ← runInTx L cypher tx
    let neo4jResp ← resultsToJson resStream
    note .constructResponses
    let response ← processing (rscmd.constructResponses L neo4jResp query)
    when (resStream.failure = false ∧ rscmd.isError response = false) (note .succeeded)
    let p ← respond neo4jResp { p with cmdResult }
    pure (some p)

/-- A pass of the loop. -/
def runCommand (blobs : List Bytes) (tx : τ) (query : Json) (p : Pass) :
    Handling σ κ τ (Option Pass) := do
  let (rscmd, cypher) ← checking (commandOf query)
  let (blob, blobCount) ← checking (takeBlob blobs rscmd query p.blobCount)
  processCommand L tx query rscmd cypher blob { p with blobCount }

/-- The loop over the indices below `root.size()`; whether it has left early. -/
def commandLoop (blobs : List Bytes) (tx : τ) (root : Json) :
    List ℕ → Pass → Handling σ κ τ Bool
  | [], _ => pure false
  | j :: rest, p => do
      let query ← checking (ofQuery (root.index j))
      match ← runCommand L blobs tx query p with
      | some p => commandLoop blobs tx root rest p
      | none => pure true

variable (report : Json → String)

/-- `process_query`. What `parse_commands` returns is not looked at. -/
def processQuery (msg : QueryMessage) : Handling σ κ τ Unit := do
  let conn ← getConn
  let (rc, root) ← checking (parseCommands report msg)
  note (.parseCommands rc)
  let tx ← openTx L conn 10000 "w"
  let error ← commandLoop L msg.blobs tx root (List.range root.size) {}
  when (error = false) (commitTx L tx)
  putConn conn

end Handler

end QueryHandlerNeo4j

end Vdms
