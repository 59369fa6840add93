import Vdms.SearchExpression
import Mathlib.Data.List.Sort

/-!
# The Iterators of the Handler

* `ReusableIterator`: a list that is filled lazily from an iterator and can be gone over
  again.
* `MultiNeighborIteratorImpl`: the neighbours of all nodes of a cached reference.
* `NodeEdgeIteratorImpl`: the edges at the nodes of a cached reference, filtered by
  predicates and by the nodes of a second one.

The last two hold pointers to cached references and move them while they are advanced;
here they hold the keys, and move the entries of the map.
-/

namespace Vdms

open Imp Imp.Prog Platform

variable [Platform]

/-- An iterator that may be `NULL`, which tests false. -/
def orNull {ι τ : Type} (I : Iter Handler PMGDException ι τ) :
    Iter Handler PMGDException (Option ι) τ where
  bool ti := ti.any I.bool
  ref
    | some ti => I.ref ti
    | none => throw nullIterator
  next
    | some ti => do
        let ti ← I.next ti
        pure (some ti)
    | none => throw nullIterator

/-! ### Reusable iterators -/

namespace ReusableIterator

variable {ι τ : Type}

/-- `_traversed`. -/
def traversed (r : ReusableIterator ι τ) : List τ := r.passed ++ r.rest

/-- The constructor from an element. -/
def ofElement (x : τ) : ReusableIterator ι τ := ⟨none, [], [x]⟩

/-- The constructor without arguments. -/
def empty : ReusableIterator ι τ := ⟨none, [], []⟩

def bool (r : ReusableIterator ι τ) : Bool := !r.rest.isEmpty

/-- `_it = _traversed.begin()`. -/
def reset (r : ReusableIterator ι τ) : ReusableIterator ι τ :=
  { r with passed := [], rest := r.traversed }

/-- Insert elements at the end of the list. A position at `end()` stays there. -/
def insert (r : ReusableIterator ι τ) (xs : List τ) : ReusableIterator ι τ :=
  if r.rest.isEmpty then { r with passed := r.passed ++ xs }
  else { r with rest := r.rest ++ xs }

/-- `++_it`, unless it is at the end. -/
def advance (r : ReusableIterator ι τ) : ReusableIterator ι τ :=
  { r with passed := r.passed ++ r.rest.take 1, rest := r.rest.drop 1 }

def ref (r : ReusableIterator ι τ) : Handling τ :=
  match r.rest with
  | x :: _ => pure x
  | [] => throw nullIterator

variable (I : Iter Handler PMGDException ι τ)

/-- `_next`: step in the list, and at its end pull one more element. -/
def next (r : ReusableIterator ι τ) : Handling (ReusableIterator ι τ) :=
  if !r.advance.rest.isEmpty then pure r.advance
  else if (orNull I).bool r.ti then do
    let x ← (orNull I).ref r.ti
    let ti ← (orNull I).next r.ti
    pure { ti, passed := r.advance.passed, rest := [x] }
  else pure r.advance

/-- The constructor from an iterator pulls the first element. -/
def new (ti : ι) : Handling (ReusableIterator ι τ) :=
  next I ⟨some ti, [], []⟩

/-- `traverse_all`: pull the remaining elements. -/
def traverseAll (r : ReusableIterator ι τ) : Handling (ReusableIterator ι τ) := do
  let (ti, xs) ← (orNull I).collect r.ti []
  pure { r.insert xs with ti }

/-- The comparison that `sort` sorts by: not the strict comparison the other way round,
so that elements with equal keys stay in order. -/
def sortsBefore (descending : Bool) (a b : τ × Property) : Bool :=
  if descending then !less a.2 b.2 else !less b.2 a.2

/-- The elements with their sort keys. -/
def withKeys (el : τ → Element) (key : StringID) : List τ → Handling (List (τ × Property))
  | [] => pure []
  | x :: xs => do
      let v ← getProperty (el x) key
      let rest ← withKeys el key xs
      pure ((x, v) :: rest)

/-- `sort`: traverse all, sort the list, and go back to its beginning. A list of one
element is not compared with anything, so its key is not read. -/
def sort (el : τ → Element) (key : StringID) (descending : Bool)
    (r : ReusableIterator ι τ) : Handling (ReusableIterator ι τ) := do
  let r ← r.traverseAll I
  if r.traversed.length ≤ 1 then pure r.reset
  else do
    let keyed ← withKeys el key r.traversed
    let sorted := keyed.insertionSort fun a b => sortsBefore descending a b = true
    pure { r with passed := [], rest := sorted.map Prod.fst }

/-- `bool`, `*` and `next` of a reusable iterator. -/
def iter : Iter Handler PMGDException (ReusableIterator ι τ) τ where
  bool := bool
  ref := ref
  next := next I

end ReusableIterator

/-! ### Cached node references -/

/-- Follow a pointer to a cached reference. -/
def cachedNode (k : ℤ) : Handling ReusableNodeIterator := do
  let s ← get
  match s.cachedNodes k with
  | some r => pure r
  | none => stuck

/-- `next()` through a pointer to a cached reference. -/
def nextCached (k : ℤ) : Handling Unit := do
  let r ← cachedNode k
  let r ← r.next SearchIterator.iter
  modify fun s => s.cacheNode k r

/-- `reset()` through a pointer to a cached reference. -/
def resetCached (k : ℤ) : Handling Unit := do
  let r ← cachedNode k
  modify fun s => s.cacheNode k r.reset

/-- One pass of a loop over a cached reference. -/
def cachedPass {α : Type} (k : ℤ) (f : α → NodeID → Handling α) (a : α) :
    Handling (α ⊕ α) := do
  let r ← cachedNode k
  if r.bool then do
    let n ← r.ref
    let a ← f a n
    nextCached k
    pure (.inl a)
  else pure (.inr a)

/-- The loop `for (; *ni; ni->next())` over a cached reference. -/
def forCached {α : Type} (k : ℤ) (f : α → NodeID → Handling α) (a : α) : Handling α :=
  loop (cachedPass k f) a

/-! ### Neighbours of several nodes -/

/-- `PMGDQueryHandler::MultiNeighborIteratorImpl`. -/
structure MultiNeighborIteratorImpl where
  startNi : Option ℤ
  searchNeighbors : SearchExpression
  neighbI : Option SearchIterator
  dir : Direction
  edgeTag : StringID

namespace MultiNeighborIteratorImpl

/-- One pass of the loop of `_next`: start on the neighbours of the current start node. -/
def startOn (m : MultiNeighborIteratorImpl) (k : ℤ) :
    Handling (MultiNeighborIteratorImpl ⊕ MultiNeighborIteratorImpl) := do
  let r ← cachedNode k
  if r.bool then do
    let n ← r.ref
    let i ← m.searchNeighbors.evalNeighbors n m.dir m.edgeTag
    nextCached k
    if SearchIterator.iter.bool i then pure (.inr { m with neighbI := some i })
    else pure (.inl { m with neighbI := some i })
  else pure (.inr { m with startNi := none })

/-- `_next`: the neighbours of the next start node that has any. -/
def findNext (m : MultiNeighborIteratorImpl) : Handling MultiNeighborIteratorImpl :=
  loop (fun m : MultiNeighborIteratorImpl =>
    match m.startNi with
    | none => pure (.inr m)
    | some k => m.startOn k) m

def new (startNi : ℤ) (searchNeighbors : SearchExpression) (dir : Direction)
    (edgeTag : StringID) : Handling MultiNeighborIteratorImpl :=
  findNext { startNi := some startNi, searchNeighbors, neighbI := none, dir, edgeTag }

def bool (m : MultiNeighborIteratorImpl) : Bool := (orNull SearchIterator.iter).bool m.neighbI

def next (m : MultiNeighborIteratorImpl) : Handling MultiNeighborIteratorImpl :=
  if m.bool then do
    let neighbI ← (orNull SearchIterator.iter).next m.neighbI
    if (orNull SearchIterator.iter).bool neighbI then pure { m with neighbI }
    else findNext { m with neighbI }
  else findNext m

def ref (m : MultiNeighborIteratorImpl) : Handling NodeID :=
  (orNull SearchIterator.iter).ref m.neighbI

def iter : Iter Handler PMGDException MultiNeighborIteratorImpl NodeID where
  bool := bool
  ref := ref
  next := next

end MultiNeighborIteratorImpl

/-- The node iterator of `query_node`. -/
inductive NodeIterator where
  | search (i : SearchIterator)
  | multi (m : MultiNeighborIteratorImpl)

def NodeIterator.iter : Iter Handler PMGDException NodeIterator NodeID where
  bool
    | .search i => SearchIterator.iter.bool i
    | .multi m => m.bool
  ref
    | .search i => SearchIterator.iter.ref i
    | .multi m => m.ref
  next
    | .search i => do
        let i ← SearchIterator.iter.next i
        pure (.search i)
    | .multi m => do
        let m ← m.next
        pure (.multi m)

/-! ### Edges at several nodes -/

/-- `PMGDQueryHandler::NodeEdgeIteratorImpl`. `_dest_ni` is used in the constructor
only. -/
structure NodeEdgeIteratorImpl where
  expr : SearchExpression
  srcNi : Option ℤ
  destNodes : List NodeID
  predStart : ℕ
  dir : Direction
  checkDest : Bool
  edgeIt : Cursor

namespace NodeEdgeIteratorImpl

/-- `check_predicates` on the edge that `_edge_it` points at. -/
def checkPredicates (i : NodeEdgeIteratorImpl) (e : EdgeID) : Handling Bool := do
  if ← passAll (.edge e) (i.expr.nodePredicates.drop i.predStart) then do
    let s ← get
    pure (!i.checkDest || (s.db.edge e).any fun ed => i.destNodes.contains ed.dst)
  else pure false

/-- The inner loop: move on to the first edge from the current one on that passes
`check_predicates`. -/
def seek (i : NodeEdgeIteratorImpl) : Handling NodeEdgeIteratorImpl :=
  loop (fun i : NodeEdgeIteratorImpl =>
    match i.edgeIt.cur with
    | none => pure (.inr i)
    | some e => do
        if ← i.checkPredicates e then pure (.inr i)
        else do
          let edgeIt ← i.edgeIt.next
          pure (.inl { i with edgeIt })) i

/-- One pass of the loop of `_next`: move the sources, and look at the edges of the next
one. -/
def moveOn (i : NodeEdgeIteratorImpl) (k : ℤ) :
    Handling (NodeEdgeIteratorImpl ⊕ NodeEdgeIteratorImpl) := do
  let r ← cachedNode k
  if r.bool then do
    nextCached k
    let r ← cachedNode k
    if r.bool then do
      let n ← r.ref
      let edgeIt ← scan (.nodeEdges n i.dir i.expr.tag)
      let i ← seek { i with edgeIt }
      if i.edgeIt.cur.isSome then pure (.inr i) else pure (.inl i)
    else pure (.inr i)
  else pure (.inr i)

/-- `_next`: the first edge of the next source node that has one. -/
def findNext (i : NodeEdgeIteratorImpl) : Handling NodeEdgeIteratorImpl :=
  loop (fun i : NodeEdgeIteratorImpl =>
    match i.srcNi with
    | none => pure (.inr i)
    | some k => i.moveOn k) i

def bool (i : NodeEdgeIteratorImpl) : Bool := i.edgeIt.cur.isSome

def next (i : NodeEdgeIteratorImpl) : Handling NodeEdgeIteratorImpl := do
  let edgeIt ← i.edgeIt.next
  let i ← seek { i with edgeIt }
  if i.edgeIt.cur.isSome then pure i else findNext i

def ref (i : NodeEdgeIteratorImpl) : Handling EdgeID :=
  match i.edgeIt.cur with
  | some e => pure e
  | none => throw nullIterator

/-- `return_iterator`: all edges if there is no source or it has no node, and the edges
at its first node otherwise. -/
def returnIterator (expr : SearchExpression) (srcNi : Option ℤ) (dir : Direction) :
    Handling Cursor :=
  match srcNi with
  | none => scan (.edges expr.tag (expr.nodePredicates.head?.getD {}))
  | some k => do
      let r ← cachedNode k
      if r.bool then do
        let n ← r.ref
        scan (.nodeEdges n dir expr.tag)
      else scan (.edges expr.tag (expr.nodePredicates.head?.getD {}))

/-- `_dest_nodes`: the destination reference is gone over once. -/
def collectNodes (k : ℤ) : Handling (List NodeID) :=
  forCached k (fun acc n => pure (acc ++ [n])) []

/-- `_dir`: with no source the destination takes its place, and the edges are followed
backwards. -/
def direction (srcNi destNi : Option ℤ) : Direction :=
  if srcNi.isNone ∧ destNi.isSome then .incoming else .outgoing

/-- The iterator as `return_iterator` leaves it. -/
def initial (expr : SearchExpression) (srcNi destNi : Option ℤ) (edgeIt : Cursor) :
    NodeEdgeIteratorImpl where
  expr := expr
  srcNi := srcNi.or destNi
  destNodes := []
  predStart := if srcNi.isNone ∧ destNi.isNone then 1 else 0
  dir := direction srcNi destNi
  checkDest := false
  edgeIt := edgeIt

/-- Collect the destination nodes, if there is a destination left. -/
def addTargets (i : NodeEdgeIteratorImpl) (destNi : Option ℤ) :
    Handling NodeEdgeIteratorImpl :=
  match destNi with
  | none => pure i
  | some k => do
      let destNodes ← collectNodes k
      pure { i with destNodes, checkDest := true }

/-- The constructor. Without an edge to start from, the destination is not looked at. -/
def new (expr : SearchExpression) (srcNi destNi : Option ℤ) :
    Handling NodeEdgeIteratorImpl := do
  let edgeIt ← returnIterator expr (srcNi.or destNi) (direction srcNi destNi)
  let i := initial expr srcNi destNi edgeIt
  match edgeIt.cur with
  | none => pure i
  | some e => do
      let i ← i.addTargets (if srcNi.isNone then none else destNi)
      if ← i.checkPredicates e then pure i else i.next

def iter : Iter Handler PMGDException NodeEdgeIteratorImpl EdgeID where
  bool := bool
  ref := ref
  next := next

end NodeEdgeIteratorImpl

end Vdms
