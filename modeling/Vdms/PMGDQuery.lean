import Vdms.Json
import Vdms.PMGDQueryHandler

/-!
# Building a Transaction

`PMGDQuery` collects the commands of one transaction. Each of its methods (`AddNode`,
`QueryNode`, …) translates JSON arguments into one command, and `run` hands the commands
to the handler. On the way two decisions are taken for the whole transaction: whether it
is read-only, and whether the results of its queries are deleted (`resultdeletion`).

`parseQueryConstraints` translates a constraints object into predicates and decides, as
a by-product, whether the query asks for a purge.
-/

namespace Vdms

open Platform

variable [Platform]

/-- `REFERENCE_RANGE_START`. -/
def referenceRangeStart : ℕ := 20000

/-- `DEFAULT_NODE_EXPIRATION`. -/
def defaultNodeExpiration : ℤ := 0

/-- `PMGDQuery`, with the clock reading and the configured node expiration it uses. -/
structure PMGDQuery where
  cmds : List Command
  currentGroupId : ℕ
  currentRef : ℕ
  readonly : Bool
  resultdeletion : Bool
  expirationLimit : ℤ
  now : ℕ

/-- A fresh query: the transaction begins. -/
def PMGDQuery.new (expirationLimit : ℤ) (now : ℕ) : PMGDQuery where
  cmds := [{ cmdId := .txBegin }]
  currentGroupId := 0
  currentRef := referenceRangeStart
  readonly := true
  resultdeletion := false
  expirationLimit := expirationLimit
  now := now

def objectTypeError : QueryError := .exceptionCommand "Object Type Error"

/-- `PMGDQuery::set_property`. -/
def jsonProperty (key : String) (val : Json) : Except QueryError PMGDProp :=
  match val with
  | .int _ => do
      let z ← val.asInt64
      pure { type := .integerType, key, intValue := z }
  | .bool b => pure { type := .booleanType, key, boolValue := b }
  | .real x => pure { type := .floatType, key, floatValue := x }
  | .string s => pure { type := .stringType, key, stringValue := s }
  | .object _ =>
      if val.isMember "_date" then do
        let date ← (← val.get "_date").asString
        pure { type := .timeType, key, timeValue := date }
      else if val.isMember "_blob" then do
        let blob ← (← val.get "_blob").asString
        pure { type := .stringType, key, stringValue := blob }
      else .error objectTypeError
  | _ => .error objectTypeError

/-! ### Constraints -/

/-- The comparison operators of the API. -/
inductive Comparison where
  | gt | ge | lt | le | eq | ne
deriving DecidableEq

def Comparison.ofString (s : String) : Option Comparison :=
  if s = ">" then some .gt
  else if s = ">=" then some .ge
  else if s = "<" then some .lt
  else if s = "<=" then some .le
  else if s = "==" then some .eq
  else if s = "!=" then some .ne
  else none

def Comparison.op : Comparison → Op
  | .gt => .gt | .ge => .ge | .lt => .lt | .le => .le | .eq => .eq | .ne => .ne

/-- The operators that reset `expiration_query_match`. -/
def Comparison.unbounded : Comparison → Bool
  | .gt | .ge | .ne => true
  | _ => false

/-- The operator of a range, `DontCare` for a pair that is not one. -/
def rangeOp (pred1 pred2 : String) : Op :=
  if pred1 = ">" ∧ pred2 = "<" then .gtLt
  else if pred1 = ">=" ∧ pred2 = "<" then .geLt
  else if pred1 = ">" ∧ pred2 = "<=" then .gtLe
  else if pred1 = ">=" ∧ pred2 = "<=" then .geLe
  else .dontCare

/-- What `parse_query_constraints` has collected: the predicates, how they combine, and
its three flags. -/
structure Parsed where
  predicates : List PMGDPropPred := []
  pOp : PredicateOp := .and
  expirationMatch : Bool := false
  deletionMatch : Bool := false
  finalPurge : Bool := false
deriving DecidableEq

/-- A list of values: one predicate for each value, and the whole query becomes a
disjunction. -/
def parseValueList (key : String) (pred1 : Json) (values : List Json) (p : Parsed) :
    Except QueryError Parsed := do
  let op ← pred1.asString
  match Comparison.ofString op with
  | none => .error (.exceptionCommand "Invalid comparsion predicate")
  | some c => do
      let props ← values.mapM fun value => jsonProperty key value
      pure { p with
        pOp := .or
        expirationMatch := p.expirationMatch && !c.unbounded
        predicates := p.predicates ++ props.map fun v1 => { key := .name key, op := c.op, v1 } }

/-- A bound on the expiration counts only if it is not in the future. -/
def stillMatches (now : ℕ) (key : String) (value : Json) (matched : Bool) :
    Except QueryError Bool :=
  if matched ∧ key = "_expiration" then do
    let bound ← value.asUInt64
    pure (decide (bound < 1 + now))
  else pure matched

/-- A single value. An operator that is none of the six is passed over, which leaves the
operator of the predicate unset. -/
def parseValue (now : ℕ) (key : String) (pred1 value : Json) (p : Parsed) :
    Except QueryError Parsed := do
  let v1 ← jsonProperty key value
  let pred1 ← pred1.asString
  let c := Comparison.ofString pred1
  let matched ← stillMatches now key value
    (p.expirationMatch && !(c.any Comparison.unbounded))
  let op := (c.map Comparison.op).getD .dontCare
  pure { p with
    expirationMatch := matched
    predicates := p.predicates ++ [{ key := .name key, op, v1 }] }

/-- A range with two values. -/
def parseRange (key : String) (predicate : Json) (p : Parsed) : Except QueryError Parsed := do
  let v1 ← jsonProperty key (← predicate.index 1)
  let pred1 ← (← predicate.index 0).asString
  let v2 ← jsonProperty key (← predicate.index 3)
  let pred2 ← (← predicate.index 2).asString
  pure { p with
    predicates := p.predicates ++ [{ key := .name key, op := rangeOp pred1 pred2, v1, v2 }] }

/-- The constraint of one key. -/
def parseConstraint (now : ℕ) (key : String) (predicate : Json) (p : Parsed) :
    Except QueryError Parsed :=
  if predicate.size = 2 then do
    let value ← predicate.index 1
    let pred1 ← predicate.index 0
    if value.isArray then parseValueList key pred1 value.elements p
    else parseValue now key pred1 value p
  else parseRange key predicate p

/-- The body of the loop of `parse_query_constraints`, up to the decision. -/
def parseKey (now : ℕ) (p : Parsed) (key : String) (predicate : Json) :
    Except QueryError Parsed :=
  if key = "_deletion" then .ok { p with deletionMatch := true }
  else if key = "_expiration" then
    parseConstraint now key predicate { p with expirationMatch := true }
  else parseConstraint now key predicate p

/-- One pass of the loop of `parse_query_constraints`. A decision to purge sticks. -/
def parseMember (now : ℕ) (p : Parsed) (m : String × Json) : Except QueryError Parsed := do
  let p ← parseKey now p m.1 m.2
  pure { p with finalPurge := p.finalPurge || p.expirationMatch || p.deletionMatch }

/-- `parse_query_constraints`. -/
def parseQueryConstraints (now : ℕ) (constraints : Json) : Except QueryError Parsed :=
  constraints.members.foldlM (parseMember now) {}

/-- `parse_query_constraints` on a constraints argument that may be null. -/
def parseOptional (now : ℕ) (constraints : Json) : Except QueryError Parsed :=
  if constraints.isNull then pure {} else parseQueryConstraints now constraints

/-! ### Links and results -/

/-- `get_response_type`. -/
def getResponseType (res : Json) (qr : ResultInfo) : Except QueryError ResultInfo := do
  let keys ← res.elements.mapM Json.asString
  pure { qr with responseKeys := qr.responseKeys ++ keys }

/-- One pass of the loop of `parse_query_results`. -/
def parseResult (qr : ResultInfo) (m : String × Json) : Except QueryError ResultInfo :=
  if m.1 = "list" then getResponseType m.2 { qr with rType := .list }
  else if m.1 = "count" then pure { qr with rType := .count }
  else if m.1 = "sum" then getResponseType m.2 { qr with rType := .sum }
  else if m.1 = "sort" then
    if m.2.isObject then do
      let sortKey ← (← m.2.get "key").asString
      let descending ← if m.2.isMember "order" then do
          match ← m.2.get "order" with
          | .string o => pure (o == "descending")
          | _ => pure false
        else pure false
      pure { qr with sort := true, sortKey, descending }
    else do
      let sortKey ← m.2.asString
      pure { qr with sort := true, sortKey, descending := false }
  else if m.1 = "limit" then do
    let limit ← m.2.asUInt
    pure { qr with limit := toUInt64 (toInt limit) }
  else if m.1 = "average" then getResponseType m.2 { qr with rType := .average }
  else pure qr

/-- `parse_query_results`. -/
def parseQueryResults (results : Json) : Except QueryError ResultInfo :=
  if results.isNull then pure {} else results.members.foldlM parseResult {}

/-- `add_link`. -/
def addLink (now : ℕ) (link : Json) : Except QueryError LinkInfo := do
  let startIdentifier ← (← link.get "ref").asInt
  let dir : Direction ← if link.isMember "direction" then do
      let direction ← (← link.get "direction").asString
      if direction = "out" then pure .outgoing
      else if direction = "in" then pure .incoming
      else pure .any
    else pure .any
  let nbUnique ← if link.isMember "unique" then do (← link.get "unique").asBool else pure false
  let edgeTag ← if link.isMember "class" then do
      let tag ← (← link.get "class").asString
      pure (.name tag)
    else pure .unset
  let parsed ← if link.isMember "constraints" then do
      parseQueryConstraints now (← link.get "constraints")
    else pure {}
  pure { startIdentifier, dir, nbUnique, edgeTag, pOp := parsed.pOp
         predicates := parsed.predicates }

/-! ### Responses -/

/-- The number of an error code in a message. -/
def ErrorCode.number : ErrorCode → ℤ
  | .success => 0
  | .abort => -3
  | .error => -1
  | .exception => -2
  | .empty => 1
  | .alreadyExists => 2
  | .notUnique => 3

/-- `set_value`: the JSON form of a property. -/
def PMGDProp.toJson (p : PMGDProp) : Except QueryError Json :=
  match p.type with
  | .booleanType => .ok (.bool p.boolValue)
  | .integerType => .ok (.int p.intValue)
  | .stringType => .ok (.string p.stringValue)
  | .timeType => .ok (.string p.timeValue)
  | .floatType => .ok (.real p.floatValue)
  | .blobType | .errorType | .noValueType => .error (.exceptionCommand "Type Error")

/-- `construct_error_response`. -/
def constructErrorResponse (r : Response) : Json :=
  .object [("info", .string r.errorMsg), ("status", .int r.errorCode.number)]

/-- `op_int_value()` and `op_float_value()`: a value of another kind reads as zero. -/
def OpValue.intValue : OpValue → ℕ
  | .int n => n
  | _ => 0

def OpValue.floatValue : OpValue → Double
  | .float x => x
  | _ => ⟨0⟩

/-- One entity of a list: the `i`-th values of all keys. Every key has as many values as
there are entities. Without keys the entity is null. -/
def parseEntity (values : List (String × List PMGDProp)) (i : ℕ) : Except QueryError Json := do
  let ms ← (values.insertionSort fun a b => a.1 ≤ b.1).mapM fun p => do
    let v ← (p.2[i]?.getD {}).toJson
    pure (p.1, v)
  pure (if ms = [] then .null else .object ms)

/-- `parse_response`. The test for success of the types `NodeID` and `EdgeID` asks for two
codes at once, so their answer is always the code and the message. -/
def parseResponse (r : Response) : Except QueryError Json :=
  match r.rType with
  | .list =>
      if r.errorCode = .success then do
        let entities ← (List.range r.op.intValue).mapM (parseEntity r.propValues)
        pure (.object [(if r.nodeEdge then "entities" else "connections", .array entities),
          ("returned", .int r.op.intValue), ("status", .int 0)])
      else .ok (constructErrorResponse r)
  | .average =>
      if r.errorCode = .success then
        .ok (.object [("average", .real r.op.floatValue), ("status", .int 0)])
      else .ok (constructErrorResponse r)
  | .sum =>
      if r.errorCode = .success then
        let sum := match r.op with
          | .float x => Json.real x
          | op => .int op.intValue
        .ok (.object [("status", .int 0), ("sum", sum)])
      else .ok (constructErrorResponse r)
  | .count =>
      if r.errorCode = .success then
        .ok (.object [("count", .int r.op.intValue), ("status", .int 0)])
      else .ok (constructErrorResponse r)
  | .cached =>
      if r.errorCode = .success then .ok (.object [("status", .int 0)])
      else .ok (constructErrorResponse r)
  | _ => .ok (constructErrorResponse r)

/-- An array that values are appended to: without any it stays null. -/
def Json.appended (xs : List Json) : Json := if xs = [] then .null else .array xs

/-! ### Commands -/

namespace PMGDQuery

/-- `_cmds.push_back(cmd)`, in the current group. -/
def push (q : PMGDQuery) (cmd : Command) : PMGDQuery :=
  { q with cmds := q.cmds ++ [{ cmd with cmdGrpId := q.currentGroupId }] }

def addGroup (q : PMGDQuery) : PMGDQuery := { q with currentGroupId := q.currentGroupId + 1 }

/-- The reference of the query of an update: its own, or the next internal one. -/
def queryReference (q : PMGDQuery) (ref : ℤ) (constraints : Json) : ℤ × PMGDQuery :=
  if constraints.isNull ∨ 0 ≤ ref then (ref, q)
  else (q.currentRef, { q with currentRef := q.currentRef + 1 })

/-- The properties of an object. -/
def objectProperties (props : Json) : Except QueryError (List PMGDProp) :=
  props.members.mapM fun m => jsonProperty m.1 m.2

/-- The time stamps of a node that expires: when it was made, and until when it is
valid. -/
def expirationProperties (creation expiration : ℕ) : Except QueryError (List PMGDProp) := do
  let c ← jsonProperty "_creation" (.int creation)
  let e ← jsonProperty "_expiration" (.int expiration)
  pure [c, e]

/-- The properties of a node: `_expiration` is given relative to the clock. -/
def nodeProperties (now : ℕ) : List (String × Json) → Except QueryError (List PMGDProp)
  | [] => pure []
  | (key, val) :: rest => do
      let ps ← if key = "_expiration" then do
          let d ← val.asUInt64
          expirationProperties now ((now + d) % 2 ^ 64)
        else do
          let p ← jsonProperty key val
          pure [p]
      let qs ← nodeProperties now rest
      pure (ps ++ qs)

def constraintsOf (tag : String) (unique : Bool) (p : Parsed) : Constraints :=
  { tag := .name tag, unique, pOp := p.pOp, predicates := p.predicates }

/-- `AddNode`. -/
def addNode (q : PMGDQuery) (ref : ℤ) (tag : String) (props constraints : Json) :
    Except QueryError PMGDQuery := do
  let properties ← nodeProperties q.now props.members
  let flagged := props.members.any fun m => m.1 = "_expiration"
  let configured := !flagged && q.expirationLimit ≠ defaultNodeExpiration
  let extra ← if configured then
      expirationProperties q.now (toUInt64 (q.now + q.expirationLimit))
    else pure []
  let queryNode ← if constraints.isNull then pure none
    else do
      let p ← parseQueryConstraints q.now constraints
      pure (some ({ identifier := ref, constraints := constraintsOf tag true p
                    results := { rType := .nodeID } } : QueryNode))
  pure ({ q with readonly := false }.push
    { cmdId := .addNode
      addNode := { identifier := ref, node := { tag, properties := properties ++ extra }
                   queryNode, expirationFlag := flagged || configured } })

/-- `UpdateNode`. -/
def updateNode (q : PMGDQuery) (ref : ℤ) (tag : String)
    (props removeProps constraints : Json) (unique : Bool) :
    Except QueryError PMGDQuery := do
  let properties ← objectProperties props
  let removeProps ← removeProps.elements.mapM Json.asString
  let (qref, q) := q.queryReference ref constraints
  let queryNode ← if constraints.isNull then pure none
    else do
      let p ← parseQueryConstraints q.now constraints
      pure (some ({ identifier := qref, constraints := constraintsOf tag unique p
                    results := { rType := .nodeID } } : QueryNode))
  pure ({ q with readonly := false }.push
    { cmdId := .updateNode
      updateNode := { identifier := ref, queryNode, properties, removeProps } })

/-- `AddEdge`. The references travel as `uint64`. -/
def addEdge (q : PMGDQuery) (ident src dst : ℤ) (tag : String) (props : Json) :
    Except QueryError PMGDQuery := do
  let properties ← objectProperties props
  pure ({ q with readonly := false }.push
    { cmdId := .addEdge
      addEdge := { identifier := ident
                   edge := { src := toUInt64 src, dst := toUInt64 dst, tag, properties } } })

/-- `UpdateEdge`. -/
def updateEdge (q : PMGDQuery) (ref srcRef destRef : ℤ) (tag : String)
    (props removeProps constraints : Json) (unique : Bool) :
    Except QueryError PMGDQuery := do
  let properties ← objectProperties props
  let removeProps ← removeProps.elements.mapM Json.asString
  let (qref, q) := q.queryReference ref constraints
  let queryEdge ← if constraints.isNull then pure none
    else do
      let p ← parseQueryConstraints q.now constraints
      pure (some ({ identifier := qref, srcNodeId := srcRef, destNodeId := destRef
                    constraints := constraintsOf tag unique p
                    results := { rType := .edgeID } } : QueryEdge))
  pure ({ q with readonly := false }.push
    { cmdId := .updateEdge
      updateEdge := { identifier := ref, queryEdge, properties, removeProps } })

/-- `QueryNode`. It overwrites the decision on `resultdeletion`. -/
def queryNode (q : PMGDQuery) (ref : ℤ) (tag : String) (link constraints results : Json)
    (unique intermediateQuery : Bool) : Except QueryError PMGDQuery := do
  let link ← if link.isNull then pure none else (addLink q.now link).map some
  let p ← parseOptional q.now constraints
  let results ← parseQueryResults results
  pure ({ q with resultdeletion := p.finalPurge && !intermediateQuery }.push
    { cmdId := .queryNode
      queryNode := { identifier := ref, link, constraints := constraintsOf tag unique p
                     results } })

/-- `QueryEdge`. -/
def queryEdge (q : PMGDQuery) (ref srcRef destRef : ℤ) (tag : String)
    (constraints results : Json) (unique : Bool) : Except QueryError PMGDQuery := do
  let p ← parseOptional q.now constraints
  let results ← parseQueryResults results
  pure (q.push
    { cmdId := .queryEdge
      queryEdge := { identifier := ref, srcNodeId := srcRef, destNodeId := destRef
                     constraints := constraintsOf tag unique p, results } })

/-- `DeleteExpired`. -/
def deleteExpired (q : PMGDQuery) : PMGDQuery :=
  { q with readonly := false }.push { cmdId := .deleteExpired }

/-- `run`, up to the call of the handler: the transaction is closed. -/
def close (q : PMGDQuery) : PMGDQuery := q.addGroup.push { cmdId := .txCommit }

/-- `run`: hand the transaction to the handler. -/
def run (q : PMGDQuery) (autodeleteInit : Bool := false) : Handling Responses :=
  processQueries q.close.cmds (q.close.currentGroupId + 1) q.close.readonly
    q.close.resultdeletion autodeleteInit

/-- `run`, from the answer of the handler on: a failed transaction has one response only. The
groups of the commands that open and close the transaction are left out. -/
def answer (q : PMGDQuery) (responses : Responses) : Except QueryError Json :=
  if responses.length ≠ q.close.currentGroupId + 1 then
    match responses with
    | [[r]] => .ok (.object [("info", .string r.errorMsg), ("status", .int (-1))])
    | _ => .ok (.object [("info", .string "PMGDQuery: PMGD Transacion Error"),
        ("status", .int (-1))])
  else do
    let groups ← (responses.drop 1).dropLast.mapM fun group => do
      let arr ← group.mapM parseResponse
      pure (Json.appended arr)
    pure (Json.appended groups)

end PMGDQuery

end Vdms
