import Vdms.BuildResults

/-!
# The Commands of the Handler

`PMGDQueryHandler`: one method for each kind of command, `process_query`, which
dispatches and catches exceptions, and `process_queries`, which runs a transaction.

A method answers with the C++ return value (0, or -1 for a failure) and fills the
response of the state. `process_query` ignores the return values of `update_node` and
`update_edge`, as the source does.
-/

namespace Vdms

open Imp Imp.Prog Platform

variable [Platform]

/-- Report a failure: `set_response(response, code, msg); return -1;`. -/
def fail (code : ErrorCode) (msg : String) : Handling ℤ := do
  setError code msg
  pure (-1)

def resetAll (ks : List ℤ) : Handling Unit := forEach ks resetCached

/-! ### The steps of a query that works on a reusable iterator -/

section Reusable

variable {ι τ : Type} (I : Iter Handler PMGDException ι τ) (el : τ → Element)

/-- `if (qr.sort()) tni->sort(…)`. -/
def sortResults (qr : ResultInfo) (tni : ReusableIterator ι τ) :
    Handling (ReusableIterator ι τ) :=
  if qr.sort then tni.sort I el (stringID qr.sortKey) qr.descending else pure tni

/-- `if (qr.r_type() != Cached) build_results(*tni, qr, response)`. -/
def reusableResults (qr : ResultInfo) (tni : ReusableIterator ι τ) :
    Handling (ReusableIterator ι τ) :=
  if qr.rType ≠ .cached then buildResults (ReusableIterator.iter I) el tni qr else pure tni

end Reusable

/-! ### Search for nodes -/

/-- The link of a query with the key of its start reference. -/
abbrev Start := Option (LinkInfo × ℤ)

/-- `start_ni->reset()`, if there is a link. -/
def resetStart (start : Start) : Handling Unit :=
  match start with
  | some (_, k) => resetCached k
  | none => pure ()

def Constraints.search (qc : Constraints) : Except PMGDException SearchExpression := do
  let nodePredicates ← qc.predicates.mapM constructSearchTerm
  pure { tag := qc.tag.resolve, isOr := qc.pOp = .or, nodePredicates }

/-- The node iterator of a query: over the neighbours of the start reference if there is
a link, over all nodes otherwise. -/
def queryNodeSearch (qn : QueryNode) (start : Start) : Handling NodeIterator := do
  let search ← ofExcept qn.constraints.search
  match start with
  | some (link, k) => do
      let edgePredicates ← ofExcept (link.predicates.mapM constructSearchTerm)
      let m ← MultiNeighborIteratorImpl.new k { search with edgePredicates } link.dir
        link.edgeTag.resolve
      pure (.multi m)
  | none => do
      let i ← search.evalNodes
      pure (.search i)

/-- What is cached of a reusable node iterator: a search over all nodes stays attached,
a search along a link has been run to its end. -/
def settle (tni : ReusableIterator NodeIterator NodeID) : ReusableNodeIterator :=
  { ti := match tni.ti with
      | some (.search i) => some i
      | _ => none
    passed := tni.passed
    rest := tni.rest }

/-- If there is a link, the iterator is run to its end, so that the start reference can be
reset. -/
def traverseLinked (start : Start) (tni : ReusableIterator NodeIterator NodeID) :
    Handling (ReusableIterator NodeIterator NodeID) :=
  if start.isSome then tni.traverseAll NodeIterator.iter else pure tni

/-- Cache the iterator under the identifier of the query, if it has one. -/
def cacheResult (qn : QueryNode) (start : Start)
    (tni : ReusableIterator NodeIterator NodeID) : Handling Unit :=
  when (0 ≤ qn.identifier) do
    let tni ← traverseLinked start tni
    modify fun s => s.cacheNode (toInt qn.identifier) (settle tni.reset)

/-- `query_node` from the check for uniqueness on. -/
def queryNodeFinish (qn : QueryNode) (start : Start)
    (tni : ReusableIterator NodeIterator NodeID) : Handling ℤ := do
  let tni ← sortResults NodeIterator.iter Element.node qn.results tni
  let tni ← reusableResults NodeIterator.iter Element.node qn.results tni
  cacheResult qn start tni
  resetStart start
  pure 0

/-- The part of `query_node` that works on a reusable iterator. -/
def queryNodeReusable (qn : QueryNode) (start : Start) (ni : NodeIterator) :
    Handling ℤ := do
  let tni ← ReusableIterator.new NodeIterator.iter ni
  if qn.constraints.unique then do
    let tni ← tni.next NodeIterator.iter
    if tni.bool then do
      setError .notUnique "Query response not unique"
      resetStart start
      pure (-1)
    else queryNodeFinish qn start tni.reset
  else queryNodeFinish qn start tni

/-- The part of `query_node` for a search that is not empty or not cached. -/
def queryNodeFound (qn : QueryNode) (start : Start) (ni : NodeIterator) : Handling ℤ := do
  setType qn.results.rType .success
  if ¬ (0 ≤ qn.identifier ∨ qn.constraints.unique ∨ qn.results.sort) then do
    let _ ← buildResults NodeIterator.iter Element.node ni qn.results
    resetStart start
    pure 0
  else queryNodeReusable qn start ni

/-- The part of `query_node` from the search on. -/
def queryNodeFrom (qn : QueryNode) (start : Start) : Handling ℤ := do
  let ni ← queryNodeSearch qn start
  if !NodeIterator.iter.bool ni ∧ 0 ≤ qn.identifier then do
    setError .empty "Null search iterator"
    resetStart start
    pure (-1)
  else queryNodeFound qn start ni

/-- `query_node`. -/
def queryNode (qn : QueryNode) : Handling ℤ := do
  let s ← get
  if 0 ≤ qn.identifier ∧ (s.cachedNodes (toInt qn.identifier)).isSome then
    fail .error "Reuse of _ref value"
  else match qn.link with
    | none => queryNodeFrom qn none
    | some link =>
        if link.nbUnique then fail .error "Non-repeated neighbors not supported"
        else if (s.cachedNodes (toInt link.startIdentifier)).isNone then
          fail .error "Undefined _ref value used in link"
        else queryNodeFrom qn (some (link, toInt link.startIdentifier))

/-! ### Search for edges -/

/-- The cached reference that a query for edges names, if there is one. -/
def Handler.namedNodes (s : Handler) (id : ℤ) : Option ℤ :=
  if 0 ≤ id ∧ (s.cachedNodes (toInt id)).isSome then some (toInt id) else none

/-- The edge iterator of a query, and the references it moves. -/
def queryEdgeSearch (qe : QueryEdge) : Handling (NodeEdgeIteratorImpl × List ℤ) := do
  let s ← get
  let srcNi := s.namedNodes qe.srcNodeId
  let destNi := s.namedNodes qe.destNodeId
  let search ← ofExcept qe.constraints.search
  let ei ← NodeEdgeIteratorImpl.new { search with isOr := false } srcNi destNi
  pure (ei, srcNi.toList ++ destNi.toList)

/-- Cache the iterator under the identifier of the query, if it has one. A search for
edges is always run to its end before it is cached. -/
def cacheEdgeResult (qe : QueryEdge) (tei : ReusableIterator NodeEdgeIteratorImpl EdgeID) :
    Handling Unit :=
  when (0 ≤ qe.identifier) do
    let tei ← tei.traverseAll NodeEdgeIteratorImpl.iter
    modify fun s => s.cacheEdge (toInt qe.identifier) ⟨none, [], tei.traversed⟩

/-- `query_edge` from the check for uniqueness on. -/
def queryEdgeFinish (qe : QueryEdge) (refs : List ℤ)
    (tei : ReusableIterator NodeEdgeIteratorImpl EdgeID) : Handling ℤ := do
  let tei ← sortResults NodeEdgeIteratorImpl.iter Element.edge qe.results tei
  let tei ← reusableResults NodeEdgeIteratorImpl.iter Element.edge qe.results tei
  cacheEdgeResult qe tei
  resetAll refs
  pure 0

/-- The part of `query_edge` that works on a reusable iterator. -/
def queryEdgeReusable (qe : QueryEdge) (refs : List ℤ) (ei : NodeEdgeIteratorImpl) :
    Handling ℤ := do
  let tei ← ReusableIterator.new NodeEdgeIteratorImpl.iter ei
  if qe.constraints.unique then do
    let tei ← tei.next NodeEdgeIteratorImpl.iter
    if tei.bool then do
      setError .notUnique "Query response not unique"
      resetAll refs
      pure (-1)
    else queryEdgeFinish qe refs tei.reset
  else queryEdgeFinish qe refs tei

/-- The part of `query_edge` for a search that is not empty or not cached. -/
def queryEdgeFound (qe : QueryEdge) (ei : NodeEdgeIteratorImpl) (refs : List ℤ) :
    Handling ℤ := do
  setType qe.results.rType .success
  if ¬ (0 ≤ qe.identifier ∨ qe.constraints.unique ∨ qe.results.sort) then do
    let _ ← buildResults NodeEdgeIteratorImpl.iter Element.edge ei qe.results
    resetAll refs
    pure 0
  else queryEdgeReusable qe refs ei

/-- The part of `query_edge` from the test of the iterator on. -/
def queryEdgeFrom (qe : QueryEdge) (ei : NodeEdgeIteratorImpl) (refs : List ℤ) :
    Handling ℤ :=
  if !ei.bool ∧ 0 ≤ qe.identifier then do
    setError .empty "Null search iterator"
    resetAll refs
    pure (-1)
  else queryEdgeFound qe ei refs

/-- `query_edge`. -/
def queryEdge (qe : QueryEdge) : Handling ℤ := do
  modifyResponse fun r => { r with nodeEdge := false }
  let s ← get
  if qe.constraints.pOp = .or then fail .error "Or operation not implemented"
  else if 0 ≤ qe.identifier ∧ (s.cachedEdges (toInt qe.identifier)).isSome then
    fail .error "Reuse of _ref value"
  else do
    let (ei, refs) ← queryEdgeSearch qe
    queryEdgeFrom qe ei refs

/-! ### Additions and updates -/

/-- The properties of an added node. With the expiration flag the time stamp is read off
the property `_expiration` on the way. -/
def setNodeProperties (x : Element) (flag : Bool) (expiration : ℕ) :
    List PMGDProp → Handling ℕ
  | [] => pure expiration
  | p :: ps => do
      setProperty x p
      let expiration :=
        if flag ∧ p.key = "_expiration" then toUInt64 p.intValue else expiration
      setNodeProperties x flag expiration ps

/-- The part of `add_node` that adds the node. -/
def addNewNode (cn : AddNode) : Handling ℤ := do
  let n ← dbAddNode (stringID cn.node.tag)
  when (0 ≤ cn.identifier)
    (modify fun s => s.cacheNode (toInt cn.identifier) (.ofElement n))
  let expiration ← setNodeProperties (.node n) cn.expirationFlag uninitialisedTime
    cn.node.properties
  when cn.expirationFlag
    (modify fun s => { s with
      expirationQueue := insertIntoQueue s.expirationQueue ⟨expiration, .node n⟩ })
  setType .nodeID .success
  setInt (n + 1)
  pure 0

/-- `add_node`. If the query of a conditional addition finds a node, the response says
so; the node is added only if the query came out empty. -/
def addNode (cn : AddNode) : Handling ℤ := do
  let s ← get
  if 0 ≤ cn.identifier ∧ (s.cachedNodes (toInt cn.identifier)).isSome then
    fail .error "Reuse of _ref value"
  else match cn.queryNode with
    | none => addNewNode cn
    | some qn => do
        let _ ← queryNode qn
        let s ← get
        if s.response.rType = .nodeID ∧ s.response.errorCode = .success then do
          modifyResponse fun r => { r with errorCode := .alreadyExists }
          pure 0
        else if s.response.errorCode ≠ .empty then pure (-1)
        else addNewNode cn

/-- The properties an update sets on one element and removes from it. -/
def updateElement (x : Element) (properties : List PMGDProp) (removeProps : List String) :
    Handling Unit := do
  forEach properties fun p => setProperty x p
  forEach removeProps fun key => removeElementProperty x (stringID key)

/-- The loop of `update_node` over the reference at key `k`. -/
def updateNodesAt (un : UpdateNode) (k : ℤ) : Handling ℤ := do
  let updated ← forCached k (fun (updated : ℕ) n => do
    updateElement (.node n) un.properties un.removeProps
    pure (updated + 1)) 0
  resetCached k
  setType .count .success
  setInt updated
  pure 0

/-- The part of `update_node` after its query. -/
def updateNodeFound (un : UpdateNode) (qn : QueryNode) : Handling ℤ := do
  let s ← get
  if s.response.errorCode ≠ .success then pure (-1)
  else if 0 ≤ qn.identifier then updateNodesAt un (toInt qn.identifier)
  else fail .error "Undefined _ref value used in update"

/-- `update_node`. A reference has priority over a query. -/
def updateNode (un : UpdateNode) : Handling ℤ := do
  let s ← get
  if 0 ≤ un.identifier ∧ (s.cachedNodes (toInt un.identifier)).isSome then
    updateNodesAt un (toInt un.identifier)
  else match un.queryNode with
    | none => fail .error "Undefined _ref value used in update"
    | some qn => do
        let _ ← queryNode qn
        updateNodeFound un qn

/-- The body of the loops of `add_edge`: the edge from `src` to `dst`. The accumulator
holds the id of the last edge added and the list of all. -/
def addEdgeBetween (ce : AddEdge) (acc : ℕ × List EdgeID) (src dst : NodeID) :
    Handling (ℕ × List EdgeID) := do
  let e ← dbAddEdge src dst (stringID ce.edge.tag)
  forEach ce.edge.properties fun p => setProperty (.edge e) p
  pure (e + 1, acc.2 ++ [e])

/-- One pass of the outer loop of `add_edge`: the edges from one node. -/
def addEdgesFrom (ce : AddEdge) (dst : ℤ) (acc : ℕ × List EdgeID) (n : NodeID) :
    Handling (ℕ × List EdgeID) := do
  let acc ← forCached dst (fun acc m => addEdgeBetween ce acc n m) acc
  resetCached dst
  pure acc

/-- The two loops of `add_edge`. Both run through the cached reference itself. -/
def addEdgesBetween (ce : AddEdge) (src dst : ℤ) : Handling (ℕ × List EdgeID) := do
  let acc ← forCached src (addEdgesFrom ce dst) (0, [])
  resetCached src
  pure acc

/-- The part of `add_edge` after the loops. -/
def addEdgeFinish (ce : AddEdge) (eid : ℕ) (added : List EdgeID) : Handling ℤ := do
  when (0 ≤ ce.identifier)
    (modify fun s => s.cacheEdge (toInt ce.identifier) ⟨none, [], added⟩)
  setType .edgeID .success
  setInt eid
  pure 0

/-- `add_edge`. -/
def addEdge (ce : AddEdge) : Handling ℤ := do
  modifyResponse fun r => { r with nodeEdge := false }
  let s ← get
  if 0 ≤ ce.identifier ∧ (s.cachedEdges (toInt ce.identifier)).isSome then
    fail .error "Reuse of _ref value"
  else match s.cachedNodes (toInt ce.edge.src), s.cachedNodes (toInt ce.edge.dst) with
    | some srcni, some dstni =>
        if !srcni.bool ∨ !dstni.bool then
          fail .empty "Empty node iterators for adding edge"
        else do
          let (eid, added) ← addEdgesBetween ce (toInt ce.edge.src) (toInt ce.edge.dst)
          addEdgeFinish ce eid added
    | _, _ => fail .error "Source/destination node references not found"

/-- The loop of `update_edge` over the reference at key `k`, from a position in its list
on. Nothing of a cached edge reference is pulled any more. -/
def updateEdgesFrom (ue : UpdateEdge) (k : ℤ) (passed : List EdgeID) :
    List EdgeID → Handling Unit
  | [] => pure ()
  | e :: rest => do
      updateElement (.edge e) ue.properties ue.removeProps
      modify fun s => s.cacheEdge k ⟨none, passed ++ [e], rest⟩
      updateEdgesFrom ue k (passed ++ [e]) rest

/-- The part of `update_edge` that works on the reference at key `k`. -/
def updateEdgesAt (ue : UpdateEdge) (k : ℤ) : Handling ℤ := do
  let s ← get
  match s.cachedEdges k with
  | none => stuck
  | some r => do
      updateEdgesFrom ue k r.passed r.rest
      modify fun s => s.cacheEdge k r.reset
      setType .count .success
      setInt r.rest.length
      pure 0

/-- The part of `update_edge` after its query. -/
def updateEdgeFound (ue : UpdateEdge) (qe : QueryEdge) : Handling ℤ := do
  let s ← get
  if s.response.errorCode ≠ .success then pure (-1)
  else if 0 ≤ qe.identifier then updateEdgesAt ue (toInt qe.identifier)
  else fail .error "Undefined _ref value used in update"

/-- `update_edge`. -/
def updateEdge (ue : UpdateEdge) : Handling ℤ := do
  let s ← get
  if 0 ≤ ue.identifier ∧ (s.cachedEdges (toInt ue.identifier)).isSome then
    updateEdgesAt ue (toInt ue.identifier)
  else match ue.queryEdge with
    | none => fail .error "Undefined _ref value used in update"
    | some qe => do
        let _ ← queryEdge qe
        updateEdgeFound ue qe

/-! ### Expired nodes -/

/-- Delete the file that a property names. -/
def deleteFile (x : Element) (key : String) : Handling Unit := do
  match ← checkProperty x (stringID key) with
  | some v => do
      let file ← v.stringValue
      modify fun s => { s with removedFiles := s.removedFiles ++ [file] }
  | none => pure ()

/-- The loop of `delete_expired_nodes` over the expiration queue, which is ordered by
time stamps: up to the first entry that is not in the past. -/
def deleteExpiredFrom (current : ℕ) : List AutoDeleteNode → Handling Unit
  | [] => pure ()
  | a :: as =>
      if a.timestamp < current then do
        forEach pathProps fun key => deleteFile a.node key
        call (.remove a.node)
        modify fun s => { s.setDb (s.db.remove a.node) with expirationQueue := as }
        deleteExpiredFrom current as
      else pure ()

/-- `delete_expired_nodes`. -/
def deleteExpiredNodes : Handling ℤ := do
  let s ← get
  deleteExpiredFrom s.now s.expirationQueue
  pure 0

/-! ### Transactions -/

/-- The command switch of `process_query`. -/
def dispatch (cmd : Command) : Handling ℤ :=
  match cmd.cmdId with
  | .txBegin => do
      let s ← get
      call (.begin s.readonly)
      modify fun s => { s with tx := some ⟨s.db, s.readonly, false⟩ }
      setType .tx .success
      pure 0
  | .txCommit => do
      let s ← get
      match s.tx with
      | none => stuck
      | some tx => do
          call .commit
          modify fun s => { s with tx := some { tx with committed := true } }
          setType .tx .success
          pure 0
  | .txAbort => do
      modifyResponse fun r =>
        { r with rType := .tx, errorCode := .abort, errorMsg := "Abort called" }
      pure (-1)
  | .addNode => addNode cmd.addNode
  | .addEdge => addEdge cmd.addEdge
  | .queryNode => queryNode cmd.queryNode
  | .queryEdge => queryEdge cmd.queryEdge
  | .updateNode => do
      let _ ← updateNode cmd.updateNode
      pure 0
  | .updateEdge => do
      let _ ← updateEdge cmd.updateEdge
      pure 0
  | .deleteExpired => deleteExpiredNodes

/-- `process_query`, on a fresh response. -/
def processQuery (cmd : Command) : Handling ℤ := do
  modify fun s => { s with response := { nodeEdge := true, cmdGrpId := cmd.cmdGrpId } }
  tryCatch (dispatch cmd) fun e => fail .exception (e.name ++ ": " ++ e.msg)

/-- The responses of a transaction, by group. -/
abbrev Responses := List (List Response)

/-- The command loop of `process_queries`. After a failure the only response is that of
the failed command, in group 0 (`error_cleanup`), and nothing has been listed. -/
def processCommands (responses : Responses) : List Command → Handling Responses
  | [] => pure responses
  | cmd :: cmds => do
      let retval ← processQuery cmd
      let s ← get
      if retval < 0 then do
        modify fun s => { s with listed := [] }
        pure [[{ s.response with cmdGrpId := 0 }]]
      else if cmd.cmdGrpId < responses.length then do
        modify fun s => { s with position := s.position + 1 }
        processCommands (responses.modify cmd.cmdGrpId fun rs => rs ++ [s.response]) cmds
      else stuck

/-- The destructor of a transaction rolls back what was not committed. -/
def Handler.endTransaction (s : Handler) : Handler :=
  match s.tx with
  | none => s
  | some tx => { s with tx := none, db := if tx.committed then s.db else tx.snapshot }

/-- `process_queries`. It asserts that no transaction is open. The node references are
deleted at the end. -/
def processQueries (cmds : List Command) (numGroups : ℕ) (readonly resultdeletion : Bool)
    (autodeleteInit : Bool := false) : Handling Responses := do
  let s ← get
  if s.tx.isSome then stuck
  else do
    modify fun s => { s with
      readonly := readonly && !resultdeletion, resultdeletion, autodeleteInit
      position := 0, listed := [] }
    let responses ← processCommands (List.replicate numGroups []) cmds
    modify fun s => { s with cachedNodes := fun _ => none }
    modify Handler.endTransaction
    pure responses

end Vdms
