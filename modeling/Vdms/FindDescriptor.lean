import Vdms.DescriptorsCommand
import Vdms.MediaResponses

/-!
# `FindDescriptor`

The command lists descriptors of a set: those that a link leads to, all of them, or the
nearest to a vector. For the nearest, the index is searched while the transaction is built.
Each id that it returns becomes a query of its own, and the answers are put together with the
ids and the distances in the responses.

## Main definitions

* `FindDescriptor.constructProtobuf`: the commands of the transaction.
* `FindDescriptor.constructNearest`: the case of a search.
* `FindDescriptor.nearestResponses`: the answer to a search.
* `FindDescriptor.linkedResponses`: the answer to a link.
-/

namespace Vdms

/-- `VCL::DescriptorSet`, as far as it is searched. An error is a `VCL::Exception`. -/
structure DescriptorIndex where
  dimensions : ℕ
  search : Bytes → ℤ → Except String (List (ℤ × Double))
  getDescriptor : ℤ → Except String Bytes

/-- `operator[](key)` of a value that may change: a key that is not there is added. -/
def Json.touch (j : Json) (key : String) : Except QueryError Json := do
  if ← j.hasMember key then pure j else j.setMember key .null

section

variable [Platform]

/-- `check_blob_size`. -/
def DescriptorsCommand.checkBlobSize (blob : Bytes) (dimensions : ℤ) (n : ℕ) : Bool :=
  blob.length / 4 / dimensions.toNat = n

namespace FindDescriptor

open DescriptorsCommand (nameConstraint checkBlobSize)

/-- The property with the id of a descriptor. Every set has its own. -/
def descIdProp (setName : String) : String := "VD:descId_" ++ setName

/-- A member goes to another key, if it is shown at all. -/
def convertMember (j : Json) (key name : String) (shown : Bool) : Except QueryError Json := do
  if ← j.hasMember key then
    let j ← if shown then do
        let v ← j.get key
        j.setMember name v
      else pure j
    j.removeMember key
  else pure j

/-! ### `construct_protobuf` -/

/-- The constraints, with the names of the graph. -/
def constraints (setName : String) (cmd : Json) : Except QueryError Json := do
  let constraints ← cmd.get "constraints"
  let constraints ← convertMember constraints "_label" "VD:label" true
  convertMember constraints "_id" (descIdProp setName) true

def isSpecial (key : String) : Bool := key = "_label" || key = "_id" || key = "_distance"

/-- The listed keys that are properties of the node. -/
def propertyKeys : Json → Except QueryError (List String)
  | .null => pure []
  | .array keys => do
      let keys ← keys.mapM Json.asString
      pure (keys.filter fun key => !isSpecial key)
  | _ => .error .logicError

/-- The results, with the label and the id in the list. -/
def results (setName : String) (cmd : Json) : Except QueryError Json := do
  let results ← cmd.get "results"
  let list ← if ← results.hasMember "list" then results.get "list" else pure .null
  let keys ← propertyKeys list
  results.setMember "list" (.array ((keys ++ ["VD:label", descIdProp setName]).map .string))

/-- `results_set`. -/
def setResults : Json :=
  .object [("list", .array [.string "VD:descSetPath", .string "VD:dimensions"])]

/-- The descriptors of a link, and the set that they belong to. -/
def constructLinked (setName : String) (constraints results : Json) (query : PMGDQuery)
    (cmd : Json) : Except QueryError PMGDQuery := do
  let (ref, query) := query.getAvailableReference
  let descRef ← getValue Json.asInt cmd "_ref" ref
  let link ← cmd.get "link"
  let query ← query.queryNode descRef "VD:DESC" link constraints results false false
  query.queryNode (-1) "VD:DESCSET" (.object [("ref", .int descRef)]) (nameConstraint setName)
    setResults false false

/-- The descriptors of the set. -/
def constructAll (setName : String) (constraints results : Json) (query : PMGDQuery)
    (cmd : Json) : Except QueryError PMGDQuery := do
  let (refSet, query) := query.getAvailableReference
  let query ← query.queryNode refSet "VD:DESCSET" .null (nameConstraint setName) setResults true
    true
  let ref ← getValue Json.asInt cmd "_ref" (-1)
  query.queryNode ref "VD:DESC" (.object [("ref", .int refSet)]) constraints results false false

/-- What the responses of a search are given: the ids in `cp_result`, and the entry of
`_cache_map`. -/
structure Nearest where
  idsArray : List ℤ
  pair : List (ℤ × Double)

/-- The constraints of the query for an id. -/
def nodeConstraints (setName : String) (constraints : Json) (id : ℤ) : Except QueryError Json :=
  constraints.setMember (descIdProp setName) (.array [.string "==", .int id])

/-- One query for each id, of one result. -/
def queryIds (setName : String) (constraints results : Json) :
    List ℤ → PMGDQuery → Except QueryError PMGDQuery
  | [], query => pure query
  | id :: ids, query => do
      let constraints' ← nodeConstraints setName constraints id
      let limited ← results.setMember "limit" (.int 1)
      let query ← query.queryNode (-1) "VD:DESC" .null constraints' limited false false
      queryIds setName constraints results ids query

/-- The set, and the descriptors that are nearest to the blob. -/
def constructNearest (handler : String → Except String DescriptorIndex) (setName setPath : String)
    (dimensions : ℤ) (constraints results : Json) (query : PMGDQuery) (cmd : Json)
    (blob : Bytes) : Except Stop (PMGDQuery × Nearest) := do
  if ← ofJson (cmd.hasMember "_ref") then
    throw (.returned (failure "_ref is not supported for KNN search"))
  let k ← ofJson (getValue Json.asInt cmd "k_neighbors" 0)
  let (refSet, query) := query.getAvailableReference
  let query ← ofJson (query.queryNode refSet "VD:DESCSET" .null (nameConstraint setName)
    setResults true false)
  if !checkBlobSize blob dimensions 1 then
    throw (.returned (failure "Blob (required) is null or size invalid"))
  let index ← ofVcl (handler setPath)
  let found ← ofVcl (index.search blob k)
  -- Less than `k` descriptors: the ids end with a negative one.
  let pair := found.takeWhile fun p => 0 ≤ p.1
  let ids := pair.map Prod.fst
  let query ← ofJson (queryIds setName constraints results ids query)
  pure (query, ⟨ids, pair⟩)

/-- `construct_protobuf`, after `get_set_path`. -/
def constructProtobuf (handler : String → Except String DescriptorIndex) (setPath : String)
    (dimensions : ℤ) (query : PMGDQuery) (cmd : Json) (blob : Bytes) :
    Except Stop (PMGDQuery × Option Nearest) := do
  let jsonName ← ofJson (cmd.get "set")
  let setName ← ofJson jsonName.asString
  if setPath = "" then throw (.returned (failure "DescriptorSet Not Found!"))
  let constraints ← ofJson (constraints setName cmd)
  let results ← ofJson (results setName cmd)
  if ← ofJson (cmd.hasMember "link") then
    let query ← ofJson (constructLinked setName constraints results query cmd)
    pure (query, none)
  else if ← ofJson (cmd.hasMember "k_neighbors") then
    let (query, nearest) ← constructNearest handler setName setPath dimensions constraints
      results query cmd blob
    pure (query, some nearest)
  else
    let query ← ofJson (constructAll setName constraints results query cmd)
    pure (query, none)

/-! ### `construct_responses` -/

/-- Why `populate_blobs` stops. -/
inductive PopulateError where
  | json (e : QueryError)
  | vcl

/-- The id of an entity, and the entity that says that it has a blob. -/
def markBlob (setName : String) (ent : Json) : Except QueryError (ℤ × Json) := do
  let ent ← ent.touch (descIdProp setName)
  let id ← ent.get (descIdProp setName)
  let id ← id.asInt64
  let ent ← ent.setMember "blob" (.bool true)
  pure (id, ent)

/-- The loop of `populate_blobs`: the blobs it has added, the entities, and how it stops. -/
def populate (index : DescriptorIndex) (setName : String) :
    List Json → List Bytes × List Json × Option PopulateError
  | [] => ([], [], none)
  | ent :: rest =>
      match markBlob setName ent with
      | .error e => ([], ent :: rest, some (.json e))
      | .ok (id, ent) =>
          match index.getDescriptor id with
          | .error _ => ([List.replicate (4 * index.dimensions) 0], ent :: rest, some .vcl)
          | .ok blob =>
              let (blobs, ents, stop) := populate index setName rest
              (blob :: blobs, ent :: ents, stop)

/-- `populate_blobs`. -/
def populateBlobs (handler : String → Except String DescriptorIndex) (setPath setName : String)
    (results : Json) (entities : List Json) : List Bytes × List Json × Option PopulateError :=
  match getValue Json.asBool results "blob" false with
  | .error e => ([], entities, some (.json e))
  | .ok false => ([], entities, none)
  | .ok true =>
      match handler setPath with
      | .error _ => ([], entities, some .vcl)
      | .ok index => populate index setName entities

/-- One entity in `convert_properties`. -/
def convertEntity (setName : String) (keys : List String) (ent : Json) :
    Except QueryError Json := do
  let ent ← convertMember ent "VD:label" "_label" ("_label" ∈ keys)
  convertMember ent (descIdProp setName) "_id" ("_id" ∈ keys)

/-- `convert_properties`. -/
def convertProperties (setName : String) (list : Json) (entities : List Json) :
    Except QueryError (List Json) := do
  let keys ← list.elements.mapM Json.asString
  entities.mapM (convertEntity setName keys)

/-- The end of `construct_responses`: without its entities if there is nothing in one. -/
def finish (returned : ℕ) (entities : List Json) : Except QueryError Json := do
  let names ← entities.mapM Json.memberNames
  pure (.object (if [] ∈ names then
      [("returned", .int returned), ("status", .int 0)]
    else [("entities", .array entities), ("returned", .int returned), ("status", .int 0)]))

/-- The answer that lists these descriptors. Without any there is no member `entities`, and
nothing to convert. -/
def respond (handler : String → Except String DescriptorIndex) (setPath setName : String)
    (results list : Json) (entities : List Json) : Reply :=
  if entities = [] then ⟨[], .ok (.object [("FindDescriptor",
    .object [("returned", .int 0), ("status", .int 0)])])⟩ else
  let (blobs, populated, stop) := populateBlobs handler setPath setName results entities
  match stop with
  | some (.json e) => ⟨blobs, .error e.toRequestError⟩
  | some .vcl => ⟨blobs, .ok (.object [("FindDescriptor", .object [("entities", .array populated),
      ("info", .string "VCL Exception"), ("returned", .int entities.length),
      ("status", .int (-1))])])⟩
  | none => ⟨blobs, Except.mapError QueryError.toRequestError do
      let converted ← convertProperties setName list populated
      let findDesc ← finish entities.length converted
      pure (.object [("FindDescriptor", findDesc)])⟩

/-- The entity of each answer to a query for an id, null if it has none. -/
def answered (responses : Json) : Except QueryError (List Json) :=
  (responses.elements.drop 1).mapM fun response => do
    let entities ← response.get "entities"
    pure (entities.elements.getLast?.getD .null)

/-- The first entity with the id. -/
def findEntity (setName : String) (idsArray : List ℤ) (id : ℤ) :
    List Json → Except QueryError (Option Json)
  | [] => pure none
  | ent :: rest => do
      let ent ← ent.touch (descIdProp setName)
      let entId ← ent.get (descIdProp setName)
      let entId ← entId.asInt64
      if entId = id ∧ entId ∈ idsArray then pure (some ent)
      else findEntity setName idsArray id rest

def addDistance (computeDistance : Bool) (distance : Double) (ent : Json) :
    Except QueryError Json :=
  if computeDistance then ent.setMember "_distance" (.real distance) else pure ent

/-- The entities of the ids, in the order of the index. -/
def matchEntities (setName : String) (idsArray : List ℤ) (computeDistance : Bool)
    (entities : List Json) : List (ℤ × Double) → Except QueryError (List Json)
  | [] => pure []
  | (id, distance) :: rest => do
      let found ← findEntity setName idsArray id entities
      let ents ← match found with
        | none => pure []
        | some ent => do
            let ent ← addDistance computeDistance distance ent
            pure [ent]
      let others ← matchEntities setName idsArray computeDistance entities rest
      pure (ents ++ others)

/-- The path and the dimensions in the response of the query for the set. -/
def setInfo (responses : Json) : Except Stop (String × ℤ) := do
  let setResponse ← ofJson (responses.index 0)
  let status ← ofJson (setResponse.get "status")
  let listed ← ofJson (setResponse.hasMember "entities")
  if !status.isZero || !listed then throw (.returned (failure "Set Not Found"))
  let entities ← ofJson (setResponse.get "entities")
  let set ← ofJson (entities.index 0)
  let path ← ofJson (set.get "VD:descSetPath")
  let path ← ofJson path.asString
  let dim ← ofJson (set.get "VD:dimensions")
  let dim ← ofJson dim.asInt
  pure (path, dim)

/-- `construct_responses`, of a search. -/
def nearestResponses (handler : String → Except String DescriptorIndex) (cmd responses : Json)
    (nearest : Nearest) (blob : Bytes) : Reply :=
  let body : Except Stop (String × String × Json × Json × List Json) := do
    let jsonName ← ofJson (cmd.get "set")
    let setName ← ofJson jsonName.asString
    if responses.size = 0 then throw (.returned (failure "Not Found!"))
    let results ← ofJson (cmd.get "results")
    let list ← ofJson (getValue pure results "list" .null)
    let (setPath, dim) ← setInfo responses
    if !checkBlobSize blob dim 1 then
      throw (.returned (failure "Blob (required) is null or size invalid"))
    let keys ← ofJson (list.elements.mapM Json.asString)
    let entities ← ofJson (answered responses)
    let matched ← ofJson (matchEntities setName nearest.idsArray ("_distance" ∈ keys) entities
      nearest.pair)
    pure (setName, setPath, results, list, matched)
  match body with
  | .error stop => stop.reply "FindDescriptor" []
  | .ok (setName, setPath, results, list, matched) =>
      respond handler setPath setName results list matched

/-- The path of the set and its dimensions in its entity. Nothing, if an assertion fails. -/
def setProperties (set : Json) : Except Stop (Option (String × ℤ)) := do
  let hasPath ← ofJson (set.hasMember "VD:descSetPath")
  let hasDim ← ofJson (set.hasMember "VD:dimensions")
  if !hasPath || !hasDim then pure none else do
  let path ← ofJson (set.get "VD:descSetPath")
  let path ← ofJson path.asString
  let dim ← ofJson (set.get "VD:dimensions")
  let dim ← ofJson dim.asInt
  pure (some (path, dim))

/-- The two responses to a link: that for the descriptors, and the path in that for the set.
Nothing, if an assertion fails. -/
def linkedParts (responses : Json) : Except Stop (Option (Json × String)) := do
  if responses.size ≠ 2 then pure none else do
  let findDesc ← ofJson (responses.index 0)
  let status ← ofJson (findDesc.get "status")
  if !status.isZero then throw (.returned (failure "Descriptors Not Found"))
  let setResponse ← ofJson (responses.index 1)
  let entities ← ofJson (setResponse.get "entities")
  let set ← ofJson (entities.index 0)
  let found ← setProperties set
  pure (found.map fun p => (findDesc, p.1))

/-- The end of `construct_responses` of a link. Without entities there is nothing to convert. -/
def respondLinked (handler : String → Except String DescriptorIndex) (setPath setName : String)
    (results list findDesc : Json) : Reply :=
  match findDesc.members.lookup "entities" with
  | none => ⟨[], .ok (.object [("FindDescriptor", findDesc)])⟩
  | some entities =>
      let (blobs, populated, stop) :=
        populateBlobs handler setPath setName results entities.elements
      match stop with
      | some (.json e) => ⟨blobs, .error e.toRequestError⟩
      | some .vcl => ⟨blobs, Except.mapError QueryError.toRequestError do
          let findDesc ← findDesc.setMember "entities" (.array populated)
          let findDesc ← findDesc.setMember "info" (.string "VCL Exception")
          let findDesc ← findDesc.setMember "status" (.int (-1))
          pure (.object [("FindDescriptor", findDesc)])⟩
      | none => ⟨blobs, Except.mapError QueryError.toRequestError do
          let converted ← convertProperties setName list populated
          let names ← converted.mapM Json.memberNames
          let findDesc ← if [] ∈ names then findDesc.removeMember "entities"
            else findDesc.setMember "entities" (.array converted)
          let findDesc ← findDesc.setMember "status" (.int 0)
          pure (.object [("FindDescriptor", findDesc)])⟩

/-- `construct_responses`, of a link. There is no reply if an assertion fails. The set is looked
at for its path only: the descriptors are those of the first response. -/
def linkedResponses (handler : String → Except String DescriptorIndex) (cmd responses : Json) :
    Option Reply :=
  let body : Except Stop (Option (String × String × Json × Json × Json)) := do
    let jsonName ← ofJson (cmd.get "set")
    let setName ← ofJson jsonName.asString
    if responses.size = 0 then throw (.returned (failure "Not Found!"))
    let results ← ofJson (cmd.get "results")
    let list ← ofJson (getValue pure results "list" .null)
    let parts ← linkedParts responses
    pure (parts.map fun p => (setName, p.2, results, list, p.1))
  match body with
  | .error stop => some (stop.reply "FindDescriptor" [])
  | .ok none => none
  | .ok (some (setName, setPath, results, list, findDesc)) =>
      some (respondLinked handler setPath setName results list findDesc)

end FindDescriptor

end

end Vdms
