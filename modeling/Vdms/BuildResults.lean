import Vdms.PMGDIterators

/-!
# Properties and Results

The parts of `PMGDQueryHandler` below its commands: properties going from messages to
the graph and back, the translation of search terms, the expiration queue, and
`build_results`, the loop that turns an iterator into a response.
-/

namespace Vdms

open Imp Imp.Prog Platform

/-! ### The response under construction -/

def modifyResponse (f : Response → Response) : Handling Unit :=
  modify fun s => s.modifyResponse f

/-- `set_response(response, error_code, error_msg)`. -/
def setError (code : ErrorCode) (msg : String) : Handling Unit :=
  modifyResponse fun r => { r with errorCode := code, errorMsg := msg }

/-- `set_response(response, type, error_code)`. -/
def setType (type : ResponseType) (code : ErrorCode) : Handling Unit :=
  modifyResponse fun r => { r with rType := type, errorCode := code }

/-- `response->set_op_int_value`. -/
def setInt (n : ℕ) : Handling Unit :=
  modifyResponse fun r => { r with op := .int n }

/-- `response->set_op_float_value`. -/
def setFloat (x : Double) : Handling Unit :=
  modifyResponse fun r => { r with op := .float x }

/-! ### The expiration queue -/

/-- The branch of `insert_into_queue` for an element that does not go to the back: in
front of the last entries that are not earlier. The first entry is not compared in the
loop, so an element that is not earlier than it but earlier than the second goes behind
it. -/
def insertBefore (new : AutoDeleteNode) : List AutoDeleteNode → List AutoDeleteNode
  | [] => [new]
  | a :: as =>
      if as.any (fun b => b.timestamp < new.timestamp) then a :: insertBefore new as
      else if new.timestamp < a.timestamp then new :: a :: as
      else a :: new :: as

/-- `insert_into_queue`. -/
def insertIntoQueue (queue : List AutoDeleteNode) (new : AutoDeleteNode) :
    List AutoDeleteNode :=
  match queue.getLast? with
  | none => [new]
  | some last =>
      if last.timestamp ≤ new.timestamp then queue ++ [new] else insertBefore new queue

/-- `delete_by_value`: the first entry of the element. -/
def deleteByValue (queue : List AutoDeleteNode) (x : Element) : List AutoDeleteNode :=
  queue.eraseP fun a => a.node = x

variable [Platform]

/-! ### Properties -/

/-- The value of a property message; an unset type has none. -/
def PMGDProp.value (p : PMGDProp) : Except PMGDException (Option Property) :=
  match p.type with
  | .booleanType => .ok (some (.boolean p.boolValue))
  | .integerType => .ok (some (.integer p.intValue))
  | .stringType => .ok (some (.string p.stringValue))
  | .floatType => .ok (some (.float p.floatValue))
  | .timeType =>
      match stringToTime p.timeValue with
      | .ok t => .ok (some (.time t))
      | .error e => .error e
  | .blobType => .ok (some (.blob p.blobValue))
  | .errorType | .noValueType => .ok none

/-- `set_property`. -/
def setProperty (x : Element) (p : PMGDProp) : Handling Unit := do
  match ← ofExcept p.value with
  | some v => setElementProperty x (stringID p.key) v
  | none => pure ()

/-- `construct_search_property`. A blob is refused, and an unset type is `Property(0)`. -/
def constructSearchProperty (p : PMGDProp) : Except PMGDException Property :=
  match p.type with
  | .blobType => .error ⟨"PropertyTypeInvalid", "Search on blob property not permitted"⟩
  | _ => p.value.map fun v => v.getD (.integer 0)

/-- The interned form of a tag or a key. -/
def StringOrID.resolve (k : StringOrID) : StringID :=
  match k with
  | .unset => stringID ""
  | .name s => stringID s
  | .id n => n

/-- The operators with a value on both sides, those from `GeLe` on. -/
def Op.isRange (op : Op) : Bool :=
  match op with
  | .geLe | .geLt | .gtLe | .gtLt => true
  | _ => false

/-- `construct_search_term`. -/
def constructSearchTerm (p : PMGDPropPred) : Except PMGDException PropertyPredicate := do
  let id := p.key.resolve
  if p.op = .dontCare then pure { id }
  else do
    let v1 ← constructSearchProperty p.v1
    if p.op.isRange then do
      let v2 ← constructSearchProperty p.v2
      pure { id, op := p.op, v1 := some v1, v2 := some v2 }
    else pure { id, op := p.op, v1 := some v1 }

/-- `construct_protobuf_property`. -/
def constructProtobufProperty (v : Property) : PMGDProp :=
  match v with
  | .boolean b => { type := .booleanType, boolValue := b }
  | .integer z => { type := .integerType, intValue := z }
  | .string s => { type := .stringType, stringValue := s }
  | .float x => { type := .floatType, floatValue := x }
  | .time t => { type := .timeType, timeValue := timeToString t }
  | .blob b => { type := .blobType, blobValue := b }

/-- `construct_missing_property`. -/
def constructMissingProperty : PMGDProp :=
  { type := .stringType, stringValue := "Missing property" }

/-! ### The rows of a list -/

/-- `VDMS_DESC_SET_TAG`. -/
def descSetTag : StringID := stringID "VD:DESCSET"

/-- `VDMS_IM_PATH_PROP`, `VDMS_VID_PATH_PROP`, `VDMS_EN_BLOB_PATH_PROP`. -/
def pathProps : List String := ["VD:imgPath", "VD:videoPath", "VD:blobPath"]

/-- One row of a `List` result: the values of the response keys. -/
def addRow (x : Element) (keys : List String) : Handling Unit :=
  forEach keys fun key => do
    let v ← checkProperty x (stringID key)
    let p := match v with
      | some v => constructProtobufProperty v
      | none => constructMissingProperty
    modifyResponse fun r => { r with propValues := addValue key p r.propValues }

/-- Note the file that a property names for deletion. -/
def noteFile (x : Element) (key : String) : Handling Unit := do
  match ← checkProperty x (stringID key) with
  | some v => do
      let file ← v.stringValue
      modify fun s => { s with cleanupFiles := s.cleanupFiles ++ [file] }
  | none => pure ()

/-- The purge of a listed element. -/
def purge (x : Element) : Handling Unit := do
  modify fun s => { s with expirationQueue := deleteByValue s.expirationQueue x }
  forEach pathProps fun key => noteFile x key
  call (.remove x)
  modify fun s => (s.list x).setDb (s.db.remove x)

/-- `_autodelete_init`: put the element into the expiration queue. -/
def enqueueExpiration (x : Element) : Handling Unit := do
  let v ← getProperty x (stringID "_expiration")
  let timestamp ← v.intValue
  modify fun s => { s with
    expirationQueue := insertIntoQueue s.expirationQueue ⟨toUInt64 timestamp, x⟩ }

/-- Delete the listed element if the transaction deletes its results. Descriptor sets are
passed over: they are returned with descriptors. -/
def purgeOrKeep (x : Element) : Handling Unit := do
  let s ← get
  if s.resultdeletion ∧ s.db.tag x ≠ descSetTag then purge x
  else modify fun s => s.list x

/-- What a `List` result does with one element. -/
def listElement (x : Element) (keys : List String) : Handling Unit := do
  addRow x keys
  purgeOrKeep x
  let s ← get
  when s.autodeleteInit (enqueueExpiration x)

/-! ### Results -/

section Results

variable {ι τ : Type} (I : Iter Handler PMGDException ι τ) (el : τ → Element)

/-- The loop `for (; ni; ni.next())` with an accumulator, left early once the accumulator
counts `limit` elements. -/
def upTo {α : Type} (limit : Option ℕ) (f : α → τ → Handling α) (count : α → ℕ)
    (ni : ι) (a : α) : Handling (ι × α) :=
  loop (fun p : ι × α =>
    if I.bool p.1 then do
      let x ← I.ref p.1
      let a ← f p.2 x
      if limit.any fun l => l ≤ count a then pure (.inr (p.1, a))
      else do
        let ni ← I.next p.1
        pure (.inl (ni, a))
    else pure (.inr p)) (ni, a)

/-- The result of a sum or an average whose first value is a number: `add` reads a value
and adds it, and `report` writes the sum of so many values to the response. -/
def accumulate {α : Type} (limit : Option ℕ) (key : StringID)
    (add : α → Property → Handling α) (zero : α) (report : α → ℕ → Handling Unit) (ni : ι) :
    Handling ι := do
  let (ni, sum, count) ← upTo I limit (fun (p : α × ℕ) x => do
      let v ← getProperty (el x) key
      let sum ← add p.1 v
      pure (sum, p.2 + 1)) Prod.snd ni (zero, 0)
  report sum count
  pure ni

/-- The sum of integers, in `size_t`. -/
def addInteger (sum : ℕ) (v : Property) : Handling ℕ := do
  let z ← v.intValue
  pure ((sum + toUInt64 z) % 2 ^ 64)

def reportInteger (avg : Bool) (sum count : ℕ) : Handling Unit :=
  if avg then setFloat (doubleDiv (doubleOfNat sum) (doubleOfNat count)) else setInt sum

/-- The sum of doubles. -/
def addFloat (sum : Double) (v : Property) : Handling Double := do
  let y ← v.floatValue
  pure (doubleAdd sum y)

def reportFloat (avg : Bool) (sum : Double) (count : ℕ) : Handling Unit :=
  if avg then setFloat (doubleDiv sum (doubleOfNat count)) else setFloat sum

/-- The sum or the average of nothing. -/
def reportNothing (avg : Bool) : Handling Unit :=
  if avg then setFloat ⟨0⟩ else setInt 0

/-- The cases `Average` and `Sum` of `build_results`. Only the first response key is
used, and the type of the first value decides for all. -/
def buildSum (avg : Bool) (limit : Option ℕ) (qn : ResultInfo) (ni : ι) : Handling ι :=
  if I.bool ni then
    match qn.responseKeys with
    | [] => stuck
    | key :: _ => do
        let x ← I.ref ni
        let v ← getProperty (el x) (stringID key)
        match v with
        | .integer _ =>
            accumulate I el limit (stringID key) addInteger 0 (reportInteger avg) ni
        | .float _ =>
            accumulate I el limit (stringID key) addFloat ⟨0⟩ (reportFloat avg) ni
        | _ => do
            setError .error "Wrong first property for sum/average"
            pure ni
  else do
    reportNothing avg
    pure ni

/-- `get_id()`: the slot of an element, counted from 1. -/
def Element.id : Element → ℕ
  | .node n => n + 1
  | .edge e => e + 1

/-- The limit of a result: 0 is none. -/
def ResultInfo.limit? (qn : ResultInfo) : Option ℕ :=
  if 0 < qn.limit then some qn.limit else none

/-- `build_results`, which returns the iterator it was given a reference to. -/
def buildResults (ni : ι) (qn : ResultInfo) : Handling ι :=
  match qn.rType with
  | .list => do
      let (ni, count) ← upTo I qn.limit? (fun count x => do
          listElement (el x) qn.responseKeys
          pure (count + 1)) id ni 0
      setInt count
      pure ni
  | .count => do
      let (ni, count) ← upTo I none (fun count _ => pure (count + 1)) id ni 0
      setInt count
      pure ni
  | .average => buildSum I el true qn.limit? qn ni
  | .sum => buildSum I el false qn.limit? qn ni
  | .nodeID => do
      let (ni, _) ← upTo I none (fun (_ : Unit) x => setInt (el x).id) (fun _ => 0) ni ()
      pure ni
  | _ => do
      setError .error "Unknown operation type for query"
      pure ni

end Results

end Vdms
