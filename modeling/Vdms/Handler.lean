import Vdms.Imp.Iter
import Vdms.Messages

/-!
# The Handler and its State

`Handler` is a `PMGDQueryHandler` together with everything its methods share: the
database, the expiration queue, the list of files to clean up, the open transaction, the
two reference maps, and the response under construction (the methods fill it through a
pointer, so what they wrote before an exception stays in it).

A pointer to a cached reusable iterator is its key in the map: entries are never
replaced within a transaction, and every holder of such a pointer took it from the map.

## Conventions

* `ReusableIterator` is a list with a position in it. The list is cut at the position:
  `passed` is what lies before `_it`, `rest` what lies from `_it` on, and `_it` is
  `end()` exactly if `rest` is empty. A position outside the list cannot be built.
* What a reference denotes is cached with its search still attached (`ti`) or with none.
  Searches that follow a link, and all searches for edges, are run to their end before
  they are cached; they are cached as the list they left behind, so the types of the two
  maps rule out a half-finished search through another reference.
* `position` and `listed` are history: they record which nodes the `List` results of
  which command have gone over. No code reads them.

## Main definitions

* `Handling`: a computation of the handler, which may raise a `PMGDException`.
* `call`: the point at which PMGD may raise its own.
* `Handler.Open`, `Handler.Writable`: there is a transaction, there is one for writing.
-/

namespace Vdms

open Imp Imp.Prog Platform

/-- `SearchExpression`: a tag and the predicates on nodes and on edges. -/
structure SearchExpression where
  tag : StringID
  isOr : Bool
  nodePredicates : List PropertyPredicate := []
  edgePredicates : List PropertyPredicate := []
deriving DecidableEq

/-- `SearchExpression::NodeAndIteratorImpl`. -/
structure NodeAndIteratorImpl where
  expr : SearchExpression
  mNodeIt : Cursor
  startAt : ℕ
  neighbor : Bool
deriving DecidableEq

/-- `SearchExpression::NodeOrIteratorImpl`. -/
structure NodeOrIteratorImpl where
  expr : SearchExpression
  node : Option NodeID
  idx : ℕ
  neighbor : Bool
  neighborIt : Option Cursor
deriving DecidableEq

/-- The iterator a search expression evaluates to. -/
inductive SearchIterator where
  | and (i : NodeAndIteratorImpl)
  | or (i : NodeOrIteratorImpl)
deriving DecidableEq

/-- `PMGDQueryHandler::ReusableIterator`: `_traversed` is `passed ++ rest`, and `_it`
points at the head of `rest`. -/
structure ReusableIterator (ι τ : Type) where
  ti : Option ι
  passed : List τ
  rest : List τ
deriving DecidableEq

/-- A cached node reference. -/
abbrev ReusableNodeIterator := ReusableIterator SearchIterator NodeID

/-- A cached edge reference: nothing of its search is left. -/
abbrev ReusableEdgeIterator := ReusableIterator Empty EdgeID

/-- `AutoDeleteNode`: an entry of the expiration queue. -/
structure AutoDeleteNode where
  timestamp : ℕ
  node : Element
deriving DecidableEq

/-- `PMGD::Transaction`: the graph to go back to unless `commit` is called. -/
structure Transaction where
  snapshot : Graph
  readonly : Bool
  committed : Bool

/-- A node that a `List` result went over: in which command, and with which tag. -/
structure Listing where
  position : ℕ
  node : NodeID
  tag : StringID
deriving DecidableEq

/-- `PMGDQueryHandler`. -/
structure Handler where
  db : Graph
  expirationQueue : List AutoDeleteNode := []
  cleanupFiles : List String := []
  /-- The files deleted so far. -/
  removedFiles : List String := []
  /-- What the system clock reads, in seconds. -/
  now : ℕ := 0
  tx : Option Transaction := none
  readonly : Bool := false
  resultdeletion : Bool := false
  autodeleteInit : Bool := false
  cachedNodes : ℤ → Option ReusableNodeIterator := fun _ => none
  cachedEdges : ℤ → Option ReusableEdgeIterator := fun _ => none
  response : Response := {}
  position : ℕ := 0
  listed : List Listing := []

/-- A computation of the handler. -/
abbrev Handling := Prog Handler PMGDException

namespace Handler

/-- Whether the open transaction is read-only, if there is one. -/
def txMode (s : Handler) : Option Bool := s.tx.map Transaction.readonly

/-- A transaction is open. -/
def Open (s : Handler) : Prop := s.txMode.isSome = true

/-- A transaction is open for writing. -/
def Writable (s : Handler) : Prop := s.txMode = some false

theorem Writable.isOpen {s : Handler} (h : s.Writable) : s.Open := by
  rw [Writable] at h
  simp [Open, h]

/-- A handler over a graph, with a transaction open for writing. -/
def inTransaction (g : Graph) : Handler := { db := g, tx := some ⟨g, false, false⟩ }

def modifyResponse (s : Handler) (f : Response → Response) : Handler :=
  { s with response := f s.response }

def cacheNode (s : Handler) (k : ℤ) (r : ReusableNodeIterator) : Handler :=
  { s with cachedNodes := Function.update s.cachedNodes k (some r) }

def cacheEdge (s : Handler) (k : ℤ) (r : ReusableEdgeIterator) : Handler :=
  { s with cachedEdges := Function.update s.cachedEdges k (some r) }

def setDb (s : Handler) (g : Graph) : Handler := { s with db := g }

/-- Record that a `List` result goes over an element that is still there. -/
def list (s : Handler) (x : Element) : Handler :=
  match x with
  | .edge _ => s
  | .node n =>
      { s with listed := s.listed ++
          ((s.db.node n).map fun nd => ⟨s.position, n, nd.tag⟩).toList }

@[simp] theorem modifyResponse_db (s : Handler) (f : Response → Response) :
    (s.modifyResponse f).db = s.db := rfl

@[simp] theorem modifyResponse_txMode (s : Handler) (f : Response → Response) :
    (s.modifyResponse f).txMode = s.txMode := rfl

@[simp] theorem modifyResponse_cachedNodes (s : Handler) (f : Response → Response) :
    (s.modifyResponse f).cachedNodes = s.cachedNodes := rfl

@[simp] theorem modifyResponse_cachedEdges (s : Handler) (f : Response → Response) :
    (s.modifyResponse f).cachedEdges = s.cachedEdges := rfl

@[simp] theorem cacheNode_db (s : Handler) (k : ℤ) (r : ReusableNodeIterator) :
    (s.cacheNode k r).db = s.db := rfl

@[simp] theorem cacheNode_txMode (s : Handler) (k : ℤ) (r : ReusableNodeIterator) :
    (s.cacheNode k r).txMode = s.txMode := rfl

@[simp] theorem cacheNode_same (s : Handler) (k : ℤ) (r : ReusableNodeIterator) :
    (s.cacheNode k r).cachedNodes k = some r := by
  simp [cacheNode]

@[simp] theorem cacheEdge_same (s : Handler) (k : ℤ) (r : ReusableEdgeIterator) :
    (s.cacheEdge k r).cachedEdges k = some r := by
  simp [cacheEdge]

theorem cacheNode_of_ne (s : Handler) {k k' : ℤ} (r : ReusableNodeIterator) (h : k' ≠ k) :
    (s.cacheNode k r).cachedNodes k' = s.cachedNodes k' := by
  simp [cacheNode, h]

theorem cacheEdge_of_ne (s : Handler) {k k' : ℤ} (r : ReusableEdgeIterator) (h : k' ≠ k) :
    (s.cacheEdge k r).cachedEdges k' = s.cachedEdges k' := by
  simp [cacheEdge, h]

@[simp] theorem cacheNode_cacheNode (s : Handler) (k : ℤ) (r r' : ReusableNodeIterator) :
    (s.cacheNode k r).cacheNode k r' = s.cacheNode k r' := by
  simp [cacheNode]

theorem cacheNode_eq_self {s : Handler} {k : ℤ} {r : ReusableNodeIterator}
    (h : s.cachedNodes k = some r) : s.cacheNode k r = s := by
  simp [cacheNode, ← h]

@[simp] theorem setDb_db (s : Handler) (g : Graph) : (s.setDb g).db = g := rfl

@[simp] theorem setDb_txMode (s : Handler) (g : Graph) :
    (s.setDb g).txMode = s.txMode := rfl

@[simp] theorem setDb_cachedNodes (s : Handler) (g : Graph) :
    (s.setDb g).cachedNodes = s.cachedNodes := rfl

end Handler

variable [Platform]

/-! ### Calls into PMGD -/

/-- A call into PMGD, which may raise an exception. -/
def call (c : Call) : Handling Unit := do
  let s ← get
  match fails s.db s.txMode c with
  | some e => throw e
  | none => pure ()

/-- Continue with a value computed without the handler. -/
def ofExcept {α : Type} (x : Except PMGDException α) : Handling α :=
  match x with
  | .ok a => pure a
  | .error e => throw e

/-- `Graph::add_node`. -/
def dbAddNode (tag : StringID) : Handling NodeID := do
  call (.addNode tag)
  let s ← get
  modify fun s => s.setDb (s.db.addNode tag)
  pure s.db.nodes.length

/-- `Graph::add_edge`. -/
def dbAddEdge (src dst : NodeID) (tag : StringID) : Handling EdgeID := do
  call (.addEdge src dst tag)
  let s ← get
  modify fun s => s.setDb (s.db.addEdge src dst tag)
  pure s.db.edges.length

/-- `set_property` of a node or an edge. -/
def setElementProperty (x : Element) (key : StringID) (v : Property) : Handling Unit := do
  call (.setProperty x key v)
  modify fun s => s.setDb (s.db.setProperty x key v)

/-- `remove_property` of a node or an edge. -/
def removeElementProperty (x : Element) (key : StringID) : Handling Unit := do
  call (.removeProperty x key)
  modify fun s => s.setDb (s.db.removeProperty x key)

/-- `check_property`: the property, if the element has it. -/
def checkProperty (x : Element) (key : StringID) : Handling (Option Property) := do
  let s ← get
  pure (s.db.props x key)

/-- `get_property`, which raises an exception if the element does not have it. -/
def getProperty (x : Element) (key : StringID) : Handling Property := do
  call (.getProperty x key)
  let s ← get
  match s.db.props x key with
  | some v => pure v
  | none => throw (exception "PropertyNotFound")

/-- `Property::int_value`. -/
def Property.intValue (p : Property) : Handling ℤ :=
  match p with
  | .integer v => pure v
  | _ => throw (exception "PropertyTypeInvalid")

/-- `Property::float_value`. -/
def Property.floatValue (p : Property) : Handling Double :=
  match p with
  | .float x => pure x
  | _ => throw (exception "PropertyTypeInvalid")

/-- `Property::string_value`. -/
def Property.stringValue (p : Property) : Handling String :=
  match p with
  | .string x => pure x
  | _ => throw (exception "PropertyTypeInvalid")

section Quiet

variable [Platform.Quiet] {s : Handler}

theorem call_apply {c : Call} (h : c.inOrder s.txMode = true) (n : ℕ) :
    call c n s = .ret () s := by
  simp [call, Platform.Quiet.fails_eq_none _ _ _ h]

/-- A call that needs no more than a transaction. -/
theorem call_open {c : Call} (h : s.Open) (hc : ∀ tx, c.inOrder tx = tx.isSome) (n : ℕ) :
    call c n s = .ret () s :=
  call_apply (by rw [hc]; exact h) n

end Quiet

end Vdms
