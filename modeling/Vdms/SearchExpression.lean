import Vdms.Handler

/-!
# Search Expressions

`SearchExpression` evaluates a tag and a list of predicates over the graph, either as a
conjunction (`NodeAndIteratorImpl`) or as a disjunction (`NodeOrIteratorImpl`), and
either over all nodes (`evalNodes`) or over the neighbours of one node
(`evalNeighbors`). All four are lazy: the constructor moves to the first match, `next`
to the following one, over the graph of the moment. The Booleans that `_next` and
`next` return are dropped, because the drivers test the iterator itself.
-/

namespace Vdms

open Imp Imp.Prog Platform

variable [Platform]

/-- The exception of dereferencing an iterator at its end. -/
def nullIterator : PMGDException := ⟨"NullIterator", "Null impl"⟩

/-! ### PMGD's iterators -/

/-- Start a lookup. -/
def scan (q : Lookup) : Handling Cursor := do
  call (.scan q)
  let s ← get
  pure (Cursor.start s.db q)

/-- `next()` of a PMGD iterator. -/
def Cursor.next (c : Cursor) : Handling Cursor := do
  call (.scan c.lookup)
  let s ← get
  pure (c.step s.db)

/-- `PMGD::PropertyFilter`. -/
def passFilter (pp : PropertyPredicate) (x : Element) : Handling Bool := do
  call (.filter pp x)
  let s ← get
  pure (passes pp (s.db.props x))

/-- The element passes all of the predicates, tested in order. -/
def passAll (x : Element) : List PropertyPredicate → Handling Bool
  | [] => pure true
  | pp :: pps => do
      if ← passFilter pp x then passAll x pps else pure false

/-- The element passes one of the predicates, tested in order. -/
def passAny (x : Element) : List PropertyPredicate → Handling Bool
  | [] => pure false
  | pp :: pps => do
      if ← passFilter pp x then pure true else passAny x pps

/-! ### Conjunctions -/

namespace NodeAndIteratorImpl

/-- The tests of `_next` on the node that `mNodeIt` points at. -/
def candidate (i : NodeAndIteratorImpl) (n : NodeID) : Handling Bool := do
  let s ← get
  if i.neighbor ∧ i.expr.tag ≠ 0 ∧ s.db.tag (.node n) ≠ i.expr.tag then
    pure false
  else passAll (.node n) (i.expr.nodePredicates.drop i.startAt)

/-- `_next`: move on to the first match from the current node on. -/
def findNext (i : NodeAndIteratorImpl) : Handling NodeAndIteratorImpl :=
  loop (fun i : NodeAndIteratorImpl =>
    match i.mNodeIt.cur with
    | none => pure (.inr i)
    | some n => do
        if ← i.candidate n then pure (.inr i)
        else do
          let mNodeIt ← i.mNodeIt.next
          pure (.inl { i with mNodeIt })) i

/-- The constructor over all nodes: the first predicate goes to the index. -/
def new (expr : SearchExpression) : Handling NodeAndIteratorImpl := do
  let mNodeIt ← scan (.nodes expr.tag (expr.nodePredicates.head?.getD {}))
  findNext { expr, mNodeIt, startAt := 1, neighbor := false }

/-- The constructor over the neighbours of a node. -/
def newNeighbor (node : NodeID) (dir : Direction) (edgetag : StringID) (unique : Bool)
    (expr : SearchExpression) : Handling NodeAndIteratorImpl := do
  let mNodeIt ← scan (.neighbors node dir edgetag expr.edgePredicates unique)
  findNext { expr, mNodeIt, startAt := 0, neighbor := true }

def bool (i : NodeAndIteratorImpl) : Bool := i.mNodeIt.cur.isSome

def next (i : NodeAndIteratorImpl) : Handling NodeAndIteratorImpl := do
  let mNodeIt ← i.mNodeIt.next
  findNext { i with mNodeIt }

def ref (i : NodeAndIteratorImpl) : Handling NodeID :=
  match i.mNodeIt.cur with
  | some n => pure n
  | none => throw nullIterator

end NodeAndIteratorImpl

/-! ### Disjunctions -/

namespace NodeOrIteratorImpl

/-- `_next`: the first node of the next predicate that has one. `_node` is left alone
when no predicate is left. -/
def findNext (i : NodeOrIteratorImpl) : Handling NodeOrIteratorImpl :=
  loop (fun i : NodeOrIteratorImpl =>
    match i.expr.nodePredicates[i.idx]? with
    | none => pure (.inr i)
    | some pp => do
        let ni ← scan (.nodes i.expr.tag pp)
        match ni.cur with
        | some n => pure (.inr { i with idx := i.idx + 1, node := some n })
        | none => pure (.inl { i with idx := i.idx + 1 })) i

/-- `_next_neighbor`: the first neighbour from the current one on that passes one of the
predicates. The tag of the expression is not looked at, and `_node` is left alone when no
neighbour is left. -/
def findNextNeighbor (i : NodeOrIteratorImpl) : Handling NodeOrIteratorImpl :=
  loop (fun i : NodeOrIteratorImpl =>
    match i.neighborIt with
    | none => pure (.inr i)
    | some c =>
        match c.cur with
        | none => pure (.inr i)
        | some n => do
            if ← passAny (.node n) i.expr.nodePredicates then
              pure (.inr { i with node := some n })
            else do
              let c ← c.next
              pure (.inl { i with neighborIt := some c })) i

/-- The constructor over all nodes. It does not initialise `_node`. -/
def new (expr : SearchExpression) : Handling NodeOrIteratorImpl :=
  findNext { expr, node := uninitialised, idx := 0, neighbor := false, neighborIt := none }

/-- The constructor over the neighbours of a node. It does not initialise `_node`. -/
def newNeighbor (node : NodeID) (dir : Direction) (edgetag : StringID) (unique : Bool)
    (expr : SearchExpression) : Handling NodeOrIteratorImpl := do
  let c ← scan (.neighbors node dir edgetag expr.edgePredicates unique)
  findNextNeighbor
    { expr, node := uninitialised, idx := 0, neighbor := true, neighborIt := some c }

def bool (i : NodeOrIteratorImpl) : Bool := i.node.isSome

def next (i : NodeOrIteratorImpl) : Handling NodeOrIteratorImpl :=
  if i.neighbor then
    match i.neighborIt with
    | none => findNextNeighbor i
    | some c => do
        let c ← c.next
        findNextNeighbor { i with neighborIt := some c }
  else findNext i

def ref (i : NodeOrIteratorImpl) : Handling NodeID :=
  match i.node with
  | some n => pure n
  | none => throw nullIterator

end NodeOrIteratorImpl

/-! ### Evaluation -/

/-- The bool test, the dereference and `next` of PMGD's `NodeIterator`, forwarded to the
implementation object. -/
def SearchIterator.iter : Iter Handler PMGDException SearchIterator NodeID where
  bool
    | .and i => i.bool
    | .or i => i.bool
  ref
    | .and i => i.ref
    | .or i => i.ref
  next
    | .and i => do
        let i ← i.next
        pure (.and i)
    | .or i => do
        let i ← i.next
        pure (.or i)

namespace SearchExpression

/-- `eval_nodes()`. -/
def evalNodes (e : SearchExpression) : Handling SearchIterator :=
  if e.isOr then do
    let i ← NodeOrIteratorImpl.new e
    pure (.or i)
  else do
    let i ← NodeAndIteratorImpl.new e
    pure (.and i)

/-- `eval_nodes(node, dir, edgetag, unique)`; `unique` defaults to true. -/
def evalNeighbors (e : SearchExpression) (node : NodeID) (dir : Direction)
    (edgetag : StringID) (unique : Bool := true) : Handling SearchIterator :=
  if e.isOr then do
    let i ← NodeOrIteratorImpl.newNeighbor node dir edgetag unique e
    pure (.or i)
  else do
    let i ← NodeAndIteratorImpl.newNeighbor node dir edgetag unique e
    pure (.and i)

end SearchExpression

end Vdms
