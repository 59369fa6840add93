import Vdms.Pmgd

/-!
# The Messages between a Query and the Handler

The protocol buffer messages of `pmgdMessages.proto`, field by field, with the defaults
of proto3. A sub-message that the code tests with `has_…` is an `Option`, a `oneof` is an
inductive type; `int64` fields are `ℤ`, unsigned ones are `ℕ`. The fields `Node.id` and
`Command.tx_id` and the flag `QueryNode.autodelete_flag` are left out: nothing reads them.

The reference maps of the handler are keyed by a C++ `int`, while identifiers travel as
64-bit fields; `toInt` is the conversion in between.
-/

namespace Vdms

/-- Conversion of a 64-bit integer to `int`. -/
def toInt (z : ℤ) : ℤ := z.bmod (2 ^ 32)

/-- Conversion of a signed integer to `uint64_t`. -/
def toUInt64 (z : ℤ) : ℕ := (z % 2 ^ 64).toNat

/-- `protobufs::Property::PropertyType`. -/
inductive PropertyType where
  | errorType | noValueType | booleanType | integerType | stringType | floatType
  | timeType | blobType
deriving DecidableEq

/-- `protobufs::Property`. -/
structure PMGDProp where
  type : PropertyType := .errorType
  key : String := ""
  boolValue : Bool := false
  intValue : ℤ := 0
  stringValue : String := ""
  floatValue : Double := ⟨0⟩
  timeValue : String := ""
  blobValue : String := ""
deriving DecidableEq

/-- A `oneof` of a string and its interned form: a tag or a property key. -/
inductive StringOrID where
  | unset
  | name (s : String)
  | id (n : StringID)
deriving DecidableEq

/-- `protobufs::PropertyPredicate`. -/
structure PMGDPropPred where
  key : StringOrID := .unset
  op : Op := .dontCare
  v1 : PMGDProp := {}
  v2 : PMGDProp := {}
deriving DecidableEq

/-- `protobufs::ResponseType`. -/
inductive ResponseType where
  | cached | count | sum | average | nodeID | edgeID | list | tx
deriving DecidableEq

/-- `protobufs::PredicateOp`. -/
inductive PredicateOp where
  | and | or
deriving DecidableEq

/-- `protobufs::LinkInfo`. -/
structure LinkInfo where
  startIdentifier : ℤ := 0
  edgeTag : StringOrID := .unset
  dir : Direction := .any
  nbUnique : Bool := false
  pOp : PredicateOp := .and
  predicates : List PMGDPropPred := []
deriving DecidableEq

/-- `protobufs::Constraints`. -/
structure Constraints where
  tag : StringOrID := .unset
  pOp : PredicateOp := .and
  predicates : List PMGDPropPred := []
  unique : Bool := false
deriving DecidableEq

/-- `protobufs::ResultInfo`. -/
structure ResultInfo where
  rType : ResponseType := .cached
  responseKeys : List String := []
  sort : Bool := false
  sortKey : String := ""
  descending : Bool := false
  limit : ℕ := 0
deriving DecidableEq

/-- `protobufs::QueryNode`. -/
structure QueryNode where
  identifier : ℤ := 0
  link : Option LinkInfo := none
  constraints : Constraints := {}
  results : ResultInfo := {}
deriving DecidableEq

/-- `protobufs::QueryEdge`. -/
structure QueryEdge where
  identifier : ℤ := 0
  constraints : Constraints := {}
  results : ResultInfo := {}
  srcNodeId : ℤ := 0
  destNodeId : ℤ := 0
deriving DecidableEq

/-- `protobufs::Node`. -/
structure NodeMessage where
  tag : String := ""
  properties : List PMGDProp := []
deriving DecidableEq

/-- `protobufs::Edge`. -/
structure EdgeMessage where
  src : ℕ := 0
  dst : ℕ := 0
  tag : String := ""
  properties : List PMGDProp := []
deriving DecidableEq

/-- `protobufs::AddNode`. -/
structure AddNode where
  identifier : ℤ := 0
  node : NodeMessage := {}
  queryNode : Option QueryNode := none
  expirationFlag : Bool := false
deriving DecidableEq

/-- `protobufs::AddEdge`. -/
structure AddEdge where
  identifier : ℤ := 0
  edge : EdgeMessage := {}
deriving DecidableEq

/-- `protobufs::UpdateNode`. -/
structure UpdateNode where
  identifier : ℤ := 0
  queryNode : Option QueryNode := none
  properties : List PMGDProp := []
  removeProps : List String := []
deriving DecidableEq

/-- `protobufs::UpdateEdge`. -/
structure UpdateEdge where
  identifier : ℤ := 0
  queryEdge : Option QueryEdge := none
  properties : List PMGDProp := []
  removeProps : List String := []
deriving DecidableEq

/-- `protobufs::Command::CommandId`. -/
inductive CommandId where
  | txBegin | txCommit | txAbort
  | addNode | addEdge | updateNode | updateEdge | queryNode | queryEdge | deleteExpired
deriving DecidableEq

/-- `protobufs::Command`: one command identifier, and every kind of command as a
sub-message of its own. -/
structure Command where
  cmdId : CommandId
  cmdGrpId : ℕ := 0
  addNode : AddNode := {}
  addEdge : AddEdge := {}
  updateNode : UpdateNode := {}
  updateEdge : UpdateEdge := {}
  queryNode : QueryNode := {}
  queryEdge : QueryEdge := {}
deriving DecidableEq

/-- `protobufs::CommandResponse::ErrorCode`. -/
inductive ErrorCode where
  | success | abort | error | exception | empty | alreadyExists | notUnique
deriving DecidableEq

/-- The value of a response, a `oneof`. -/
inductive OpValue where
  | unset
  | int (n : ℕ)
  | float (x : Double)
deriving DecidableEq

/-- `protobufs::CommandResponse`. -/
structure Response where
  errorCode : ErrorCode := .success
  errorMsg : String := ""
  cmdGrpId : ℕ := 0
  rType : ResponseType := .cached
  op : OpValue := .unset
  propValues : List (String × List PMGDProp) := []
  nodeEdge : Bool := false
deriving DecidableEq

/-- `prop_values[key].add_values()` filled with `p`: the map makes a new list for a new
key. -/
def addValue (key : String) (p : PMGDProp) :
    List (String × List PMGDProp) → List (String × List PMGDProp)
  | [] => [(key, [p])]
  | (k, ps) :: rest => if k = key then (k, ps ++ [p]) :: rest else (k, ps) :: addValue key p rest

end Vdms
