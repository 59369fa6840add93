import Std.Data.TreeMap
import Vdms.QueryHandlerPMGD

/-!
# Descriptor Sets

A descriptor set is a node with the tag `VD:DESCSET` and an index in a directory. The
commands that work on a set look it up by name with `get_set_path`, which asks the graph
once and then remembers the answer in two tables that all requests share.

## Main definitions

* `DescriptorState`: the database, and the tables `_desc_set_locator` and `_desc_set_dims`.
* `getSetPath`: `get_set_path`, for any database that can run a transaction.
* `AddDescriptorSet.addSet`: the commands of the transaction that adds a set.
-/

namespace Vdms

open Imp Imp.Prog
open Std (TreeMap)

/-- What the commands for descriptors work on: a database, and for each name that has been
looked up the path and the dimensions. The two tables are filled together. -/
structure DescriptorState (δ : Type) where
  store : δ
  sets : TreeMap String (String × ℤ) := ∅

abbrev Describing (δ : Type) := Prog (DescriptorState δ) RequestError

namespace DescriptorsCommand

variable {δ : Type}

def ofQuery {α : Type} (x : Except QueryError α) : Describing δ α :=
  match x with
  | .ok a => pure a
  | .error e => throw e.toRequestError

/-- A computation that sees the database only. -/
def onStore {α : Type} (m : Prog δ RequestError α) : Describing δ α :=
  focus DescriptorState.store (fun t s => { s with store := t }) id m

/-- The constraint on the name of a set. -/
def nameConstraint (setName : String) : Json :=
  .object [("VD:name", .array [.string "==", .string setName])]

variable [Platform]

/-- The transaction that looks a set up. -/
def setQuery (query : PMGDQuery) (setName : String) : Except QueryError PMGDQuery :=
  (PMGDQuery.new query.expirationLimit query.now).addGroup.queryNode (-1) "VD:DESCSET" .null
    (nameConstraint setName)
    (.object [("list", .array [.string "VD:descSetPath", .string "VD:dimensions",
      .string "VD:engine"])]) true true

def transactionError : QueryError := .exceptionCommand "PMGD Transaction Error"

/-- The test of the responses. It is an error only if both sizes are other than 1. -/
def checkSizes (responses : Json) : Except QueryError Unit :=
  if responses.size ≠ 1 then do
    let group ← responses.index 0
    if group.size ≠ 1 then .error transactionError else pure ()
  else pure ()

/-- The path and the dimensions of the first set in the responses. -/
def firstSet (responses : Json) : Except QueryError (Option (String × ℤ)) := do
  checkSizes responses
  let group ← responses.index 0
  let setJson ← group.index 0
  if ← setJson.hasMember "entities" then do
    let entities ← setJson.get "entities"
    match entities.elements with
    | [] => pure none
    | ent :: _ => do
        let path ← ent.get "VD:descSetPath"
        let path ← path.asString
        let dim ← ent.get "VD:dimensions"
        let dim ← dim.asInt
        pure (some (path, dim))
  else .error transactionError

/-- `get_set_path`: the path, and what has become of `dim`. -/
def getSetPath (run : PMGDQuery → Prog δ RequestError Json) (query : PMGDQuery)
    (setName : String) : Describing δ (String × Option ℤ) := do
  let s ← get
  match s.sets[setName]? with
  | some (path, dim) => pure (path, some dim)
  | none => do
      let q ← ofQuery (setQuery query setName)
      let responses ← onStore (run q)
      match ← ofQuery (firstSet responses) with
      | some (path, dim) => do
          modify fun s => { s with sets := s.sets.insert setName (path, dim) }
          pure (path, some dim)
      | none => pure ("", none)

/-- `PMGDQuery::run`, of the database itself. -/
def runQuery (q : PMGDQuery) : Prog Handler RequestError Json := do
  let responses ← focus id (fun t _ => t) RequestError.pmgd q.run
  match q.answer responses with
  | .ok json => pure json
  | .error e => throw e.toRequestError

end DescriptorsCommand

/-! ### Adding a set -/

/-- `get_available_reference`. -/
def PMGDQuery.getAvailableReference (q : PMGDQuery) : ℕ × PMGDQuery :=
  (q.currentRef, { q with currentRef := q.currentRef + 1 })

section

variable [Platform]

/-- `RSCommand::add_link`. -/
def RSCommand.addLink (query : PMGDQuery) (link : Json) (nodeRef : ℤ) (tag : String) :
    Except QueryError PMGDQuery := do
  let ref ← getValue Json.asInt link "ref" 0
  let ingoing ← if ← link.hasMember "direction" then do
      match ← link.get "direction" with
      | .string direction => pure (direction == "in")
      | _ => pure false
    else pure false
  let (src, dst) := if ingoing then (ref, nodeRef) else (nodeRef, ref)
  let edgeTag ← getValue Json.asString link "class" tag
  let props ← link.get "properties"
  query.addEdge (-1) src dst edgeTag props

/-- The link of a command, if it has one. -/
def RSCommand.addLinkOf (query : PMGDQuery) (cmd : Json) (nodeRef : ℤ) (tag : String) :
    Except QueryError PMGDQuery := do
  if ← cmd.hasMember "link" then do
    let link ← cmd.get "link"
    RSCommand.addLink query link nodeRef tag
  else pure query

namespace AddDescriptorSet

/-- The properties of the node of a set. -/
def props (storageSets : String) (cmd : Json) : Except QueryError Json := do
  let name ← cmd.get "name"
  let name ← name.asString
  let dimensions ← cmd.get "dimensions"
  let dimensions ← dimensions.asInt
  let engine ← cmd.get "engine"
  let engine ← engine.asString
  let props ← cmd.get "properties"
  let props ← props.setMember "VD:name" (.string name)
  let props ← props.setMember "VD:dimensions" (.int dimensions)
  let props ← props.setMember "VD:descSetPath" (.string (storageSets ++ "/" ++ name))
  props.setMember "VD:engine" (.string engine)

/-- The commands of the transaction. -/
def addSet (storageSets : String) (query : PMGDQuery) (cmd : Json) :
    Except QueryError PMGDQuery := do
  let (ref, query) := query.getAvailableReference
  let nodeRef ← getValue Json.asInt cmd "_ref" ref
  let name ← cmd.get "name"
  let name ← name.asString
  let props ← props storageSets cmd
  let query ← query.addNode nodeRef "VD:DESCSET" props (DescriptorsCommand.nameConstraint name)
  RSCommand.addLinkOf query cmd nodeRef "VD:DESCSETLINK"

end AddDescriptorSet

end

end Vdms
