import Mathlib.Algebra.Group.Int.Defs
import Mathlib.Algebra.Group.Nat.Defs
import Mathlib.Data.Int.Notation
import Mathlib.Data.List.TakeDrop
import Mathlib.Logic.Function.Basic

/-!
# The Property Graph and the Platform

The handler keeps its data in PMGD, a property graph database that is not part of the
repository. This module fixes what the handler can see of it.

A `Graph` is a pair of slot tables: a node or an edge is named by its slot, a slot is
never reused, and an empty slot is a removed element. The operations `addNode`,
`addEdge`, `removeNode`, `removeEdge`, `setProperty` and `removeProperty` are the calls
of the same names.

Everything the handler relies on and cannot look into is a field of the class
`Platform`: the string table, property filters and comparisons, the order in which index
scans yield their matches, the exceptions PMGD may raise at any call, its date
functions, IEEE doubles, and the contents of uninitialised memory. PMGD's iterators are
**lazy cursors** (`Cursor`): each step asks the platform for the next element over the
*current* graph, given what the cursor has yielded so far.

## Main results

* `Platform.Lawful`: over an unchanged graph, a lookup yields exactly the elements that
  match its tag, direction and predicates, each once.
* `Cursor.ahead_start`: a fresh cursor over an unchanged graph has exactly the scan list
  of its lookup ahead.
-/

namespace Vdms

abbrev StringID := ℕ
abbrev NodeID := ℕ
abbrev EdgeID := ℕ

/-- An IEEE double, by its bit pattern. -/
structure Double where
  bits : UInt64
deriving DecidableEq

/-- A PMGD time stamp. -/
structure Time where
  ticks : ℤ
deriving DecidableEq

/-- `PMGD::Property`, a typed property value. -/
inductive Property where
  | boolean (b : Bool)
  | integer (v : ℤ)
  | string (s : String)
  | float (x : Double)
  | time (t : Time)
  | blob (b : String)
deriving DecidableEq

/-- The properties of a node or an edge. -/
abbrev Props := StringID → Option Property

/-- `PMGD::PropertyPredicate::Op`, in the order of its enum. -/
inductive Op where
  | dontCare | eq | ne | gt | ge | lt | le | geLe | geLt | gtLe | gtLt
deriving DecidableEq

/-- `PMGD::PropertyPredicate`; the default value is `PropertyPredicate()`. -/
structure PropertyPredicate where
  id : StringID := 0
  op : Op := .dontCare
  v1 : Option Property := none
  v2 : Option Property := none
deriving DecidableEq

/-- `PMGD::Direction`. -/
inductive Direction where
  | any | outgoing | incoming
deriving DecidableEq

structure Node where
  tag : StringID
  props : Props

structure Edge where
  src : NodeID
  dst : NodeID
  tag : StringID
  props : Props

/-- A node or an edge, named by its slot: what a C++ pointer to it is here. -/
inductive Element where
  | node (n : NodeID)
  | edge (e : EdgeID)
deriving DecidableEq

/-- The graph: two slot tables, in which an empty slot is a removed element. -/
structure Graph where
  nodes : List (Option Node)
  edges : List (Option Edge)

namespace Graph

def node (g : Graph) (n : NodeID) : Option Node := g.nodes[n]?.join

def edge (g : Graph) (e : EdgeID) : Option Edge := g.edges[e]?.join

/-- The properties of an element; a pointer to a removed element sees none. -/
def props (g : Graph) : Element → Props
  | .node n => ((g.node n).map Node.props).getD fun _ => none
  | .edge e => ((g.edge e).map Edge.props).getD fun _ => none

/-- The tag of an element; `0` through a pointer to a removed element. -/
def tag (g : Graph) : Element → StringID
  | .node n => ((g.node n).map Node.tag).getD 0
  | .edge e => ((g.edge e).map Edge.tag).getD 0

def addNode (g : Graph) (tag : StringID) : Graph :=
  { g with nodes := g.nodes ++ [some ⟨tag, fun _ => none⟩] }

def addEdge (g : Graph) (src dst : NodeID) (tag : StringID) : Graph :=
  { g with edges := g.edges ++ [some ⟨src, dst, tag, fun _ => none⟩] }

/-- Removing a node removes the edges at it. -/
def removeNode (g : Graph) (n : NodeID) : Graph where
  nodes := g.nodes.set n none
  edges := g.edges.map fun e => e.filter fun e => e.src ≠ n ∧ e.dst ≠ n

def removeEdge (g : Graph) (e : EdgeID) : Graph :=
  { g with edges := g.edges.set e none }

def remove (g : Graph) : Element → Graph
  | .node n => g.removeNode n
  | .edge e => g.removeEdge e

def modifyProps (g : Graph) (x : Element) (f : Props → Props) : Graph :=
  match x with
  | .node n =>
      { g with nodes := g.nodes.modify n (Option.map fun nd => { nd with props := f nd.props }) }
  | .edge e =>
      { g with edges := g.edges.modify e (Option.map fun ed => { ed with props := f ed.props }) }

def setProperty (g : Graph) (x : Element) (key : StringID) (v : Property) : Graph :=
  g.modifyProps x fun p => Function.update p key (some v)

def removeProperty (g : Graph) (x : Element) (key : StringID) : Graph :=
  g.modifyProps x fun p => Function.update p key none

end Graph

/-- The lookups the handler asks of PMGD. Tag `0` matches every tag. -/
inductive Lookup where
  /-- `Graph::get_nodes(tag, predicate)` -/
  | nodes (tag : StringID) (pp : PropertyPredicate)
  /-- `Graph::get_edges(tag, predicate)` -/
  | edges (tag : StringID) (pp : PropertyPredicate)
  /-- `Node::get_edges(direction, tag)` -/
  | nodeEdges (n : NodeID) (dir : Direction) (tag : StringID)
  /-- `get_neighbors(node, direction, edge tag, edge predicates, unique)` -/
  | neighbors (n : NodeID) (dir : Direction) (tag : StringID)
      (preds : List PropertyPredicate) (unique : Bool)
deriving DecidableEq

/-- Whether a lookup promises to yield no element twice. -/
def Lookup.distinct : Lookup → Bool
  | .neighbors _ _ _ _ unique => unique
  | _ => true

/-- The calls at which PMGD may raise an exception. -/
inductive Call where
  | begin (readonly : Bool)
  | commit
  | addNode (tag : StringID)
  | addEdge (src dst : NodeID) (tag : StringID)
  | remove (x : Element)
  | setProperty (x : Element) (key : StringID) (v : Property)
  | removeProperty (x : Element) (key : StringID)
  | getProperty (x : Element) (key : StringID)
  | scan (q : Lookup)
  | filter (pp : PropertyPredicate) (x : Element)
  | sort (key : StringID)
deriving DecidableEq

/-- `PMGD::Exception`. -/
structure PMGDException where
  name : String
  msg : String
deriving DecidableEq

/-- What the handler runs on and the repository does not define. -/
class Platform where
  /-- PMGD's string table. -/
  stringID : String → StringID
  /-- `PMGD::PropertyFilter`: whether the properties pass the predicate. -/
  passes : PropertyPredicate → Props → Bool
  /-- The next element of a scan over the current graph, given the elements it has
  yielded so far. -/
  advance : Graph → Lookup → List ℕ → Option ℕ
  /-- The exception PMGD raises at a call, if any, given the graph and whether the open
  transaction, if there is one, is read-only. -/
  fails : Graph → Option Bool → Call → Option PMGDException
  /-- The exception of the given name, as PMGD raises it. -/
  exception : String → PMGDException
  /-- `operator<` of `PMGD::Property`. -/
  less : Property → Property → Bool
  /-- `string_to_tm` and the constructor of `PMGD::Time`. -/
  stringToTime : String → Except PMGDException Time
  /-- `time_to_string`. -/
  timeToString : Time → String
  /-- What a pointer to a node holds before it is first assigned. -/
  uninitialised : Option NodeID
  /-- What a time stamp holds before it is first assigned. -/
  uninitialisedTime : ℕ
  doubleOfNat : ℕ → Double
  doubleAdd : Double → Double → Double
  doubleDiv : Double → Double → Double
  /-- jsoncpp's conversions of a real to a string, to an integer and to a truth value. -/
  realToString : Double → String
  realTruncate : Double → ℤ
  realIsZero : Double → Bool

open Platform

/-- Whether an edge leaves (or enters, or touches) node `n` in the direction. -/
def Direction.follows (dir : Direction) (n : NodeID) (e : Edge) : Bool :=
  match dir with
  | .any => e.src = n || e.dst = n
  | .outgoing => e.src = n
  | .incoming => e.dst = n

/-- Whether an edge connects node `n` to node `m` in the direction. -/
def Direction.connects (dir : Direction) (n m : NodeID) (e : Edge) : Bool :=
  match dir with
  | .any => (e.src = n && e.dst = m) || (e.dst = n && e.src = m)
  | .outgoing => e.src = n && e.dst = m
  | .incoming => e.dst = n && e.src = m

/-- Tag `0` asks for nothing. -/
def tagMatches (want tag : StringID) : Bool := want = 0 || tag = want

/-- Whether an element of the graph matches a lookup, for a given property filter. -/
def Lookup.matchesBy (pass : PropertyPredicate → Props → Bool) (g : Graph) (q : Lookup)
    (x : ℕ) : Bool :=
  match q with
  | .nodes tag pp => (g.node x).any fun nd => tagMatches tag nd.tag && pass pp nd.props
  | .edges tag pp => (g.edge x).any fun ed => tagMatches tag ed.tag && pass pp ed.props
  | .nodeEdges n dir tag =>
      (g.edge x).any fun ed => tagMatches tag ed.tag && dir.follows n ed
  | .neighbors n dir tag preds _ =>
      g.edges.any fun e => e.any fun ed =>
        tagMatches tag ed.tag && dir.connects n x ed && preds.all fun pp => pass pp ed.props

/-- Whether an element of the graph matches a lookup. -/
def Lookup.matches [Platform] (g : Graph) (q : Lookup) (x : ℕ) : Bool :=
  q.matchesBy passes g x

/-- The documented behaviour of PMGD that the searches rely on: an unconstrained
predicate passes everything, a predicate reads only the property it names, over an
unchanged graph a lookup yields exactly the elements that match it, each once, and a
scan for nodes does not look at the edges. -/
class Platform.Lawful [Platform] : Prop where
  stringID_injective : Function.Injective stringID
  passes_default (props : Props) : passes {} props = true
  passes_congr (pp : PropertyPredicate) (p q : Props) : p pp.id = q pp.id →
    passes pp p = passes pp q
  scan (g : Graph) (q : Lookup) : ∃ l : List ℕ, (∀ x, x ∈ l ↔ q.matches g x = true) ∧
    (q.distinct = true → l.Nodup) ∧ ∀ k ≤ l.length, advance g q (l.take k) = l[k]?
  scan_nodes (g g' : Graph) (tag : StringID) (pp : PropertyPredicate) (past : List ℕ) :
    g.nodes = g'.nodes → advance g (.nodes tag pp) past = advance g' (.nodes tag pp) past

/-- Whether a call is in order, given whether the open transaction, if there is one, is
read-only: everything needs a transaction, and a write a read-write one. -/
def Call.inOrder (c : Call) (tx : Option Bool) : Bool :=
  match c with
  | .begin _ => tx.isNone
  | .addNode _ | .addEdge _ _ _ | .remove _ | .setProperty _ _ _ | .removeProperty _ _ =>
      tx = some false
  | _ => tx.isSome

/-- PMGD raises no exception at a call that is in order. -/
class Platform.Quiet [Platform] : Prop where
  fails_eq_none (g : Graph) (tx : Option Bool) (c : Call) : c.inOrder tx = true →
    fails g tx c = none

/-! ### Lazy cursors -/

/-- A PMGD iterator: what it looks up, what it has passed, and what it points at. -/
structure Cursor where
  lookup : Lookup
  past : List ℕ
  cur : Option ℕ
deriving DecidableEq

namespace Cursor

variable [Platform]

/-- The iterator a lookup returns. -/
def start (g : Graph) (q : Lookup) : Cursor :=
  ⟨q, [], advance g q []⟩

/-- `next()`: the predicate is evaluated over the graph of the moment. -/
def step (g : Graph) (c : Cursor) : Cursor :=
  match c.cur with
  | none => c
  | some x => ⟨c.lookup, c.past ++ [x], advance g c.lookup (c.past ++ [x])⟩

/-- Over the unchanged graph `g`, the cursor still yields exactly `l`. -/
inductive Ahead (g : Graph) : Cursor → List ℕ → Prop
  | nil {c : Cursor} : c.cur = none → Ahead g c []
  | cons {c : Cursor} {x : ℕ} {l : List ℕ} : c.cur = some x → Ahead g (c.step g) l →
      Ahead g c (x :: l)

variable {g : Graph} {c : Cursor} {x : ℕ} {l : List ℕ}

theorem Ahead.cur_eq (h : Ahead g c l) : c.cur = l.head? := by
  cases h with
  | nil hc => exact hc
  | cons hc _ => exact hc

theorem Ahead.step (h : Ahead g c (x :: l)) : Ahead g (c.step g) l := by
  cases h with
  | cons _ hl => exact hl

@[simp] theorem step_of_none (h : c.cur = none) : c.step g = c := by
  simp [Cursor.step, h]

theorem step_of_some (h : c.cur = some x) :
    c.step g = ⟨c.lookup, c.past ++ [x], advance g c.lookup (c.past ++ [x])⟩ := by
  simp [Cursor.step, h]

end Cursor

section Scan

variable [Platform] [Platform.Lawful]

/-- The elements a lookup yields over the graph, in the order of the index scan. -/
noncomputable def scanList (g : Graph) (q : Lookup) : List ℕ :=
  (Platform.Lawful.scan g q).choose

theorem mem_scanList {g : Graph} {q : Lookup} {x : ℕ} :
    x ∈ scanList g q ↔ q.matches g x = true :=
  (Platform.Lawful.scan g q).choose_spec.1 x

theorem scanList_nodup {g : Graph} {q : Lookup} (h : q.distinct = true) :
    (scanList g q).Nodup :=
  (Platform.Lawful.scan g q).choose_spec.2.1 h

theorem advance_take {g : Graph} {q : Lookup} {k : ℕ} (h : k ≤ (scanList g q).length) :
    advance g q ((scanList g q).take k) = (scanList g q)[k]? :=
  (Platform.Lawful.scan g q).choose_spec.2.2 k h

/-- A cursor that has passed the first `k` elements of the scan has the others ahead.
Induction on how many are left. -/
theorem Cursor.ahead_of_past {g : Graph} {q : Lookup} :
    ∀ (m k : ℕ), k + m = (scanList g q).length →
      Cursor.Ahead g ⟨q, (scanList g q).take k, (scanList g q)[k]?⟩ ((scanList g q).drop k) := by
  intro m
  induction m with
  | zero =>
      intro k hk
      rw [List.drop_eq_nil_of_le (by omega)]
      exact .nil (List.getElem?_eq_none (by omega))
  | succ m ih =>
      intro k hk
      have hlt : k < (scanList g q).length := by omega
      rw [List.drop_eq_getElem_cons hlt]
      refine .cons (List.getElem?_eq_getElem hlt) ?_
      have htake : (scanList g q).take k ++ [(scanList g q)[k]] = (scanList g q).take (k + 1) :=
        List.take_concat_get' _ _ hlt
      rw [Cursor.step_of_some (List.getElem?_eq_getElem hlt)]
      simp only [htake]
      rw [advance_take (by omega)]
      exact ih (k + 1) (by omega)

/-- A fresh cursor over an unchanged graph has exactly the scan list ahead. -/
theorem Cursor.ahead_start (g : Graph) (q : Lookup) :
    Cursor.Ahead g (Cursor.start g q) (scanList g q) := by
  have h := Cursor.ahead_of_past (g := g) (q := q) (scanList g q).length 0 (by omega)
  have h0 := advance_take (g := g) (q := q) (k := 0) (by omega)
  rw [List.take_zero] at h0
  rwa [List.take_zero, List.drop_zero, ← h0] at h

end Scan

end Vdms
