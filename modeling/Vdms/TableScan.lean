import Vdms.Pmgd
import Mathlib.Data.List.Dedup
import Mathlib.Data.List.Nodup

/-!
# A Concrete Platform

`tableScan` is a platform that can be run: strings are interned by an injective
numbering, integers and other values are compared as their types suggest, index scans go
over the slot tables in order, and a call that is not in order raises an exception.

## Main results

* The platform is `Lawful` and `Quiet`, so the assumptions of the development are
  satisfiable.
-/

namespace Vdms

/-- The number of a string: its characters are the digits, from 1 up, to the base
`2 ^ 21`. -/
def internChars : List Char → ℕ
  | [] => 0
  | c :: cs => internChars cs * 2 ^ 21 + c.toNat + 1

theorem charToNat_lt (c : Char) : c.toNat < 2 ^ 21 - 1 := by
  have h := c.valid
  rw [UInt32.isValidChar, Nat.isValidChar] at h
  have hn : c.toNat = c.val.toNat := rfl
  omega

theorem internChars_injective : ∀ {cs ds : List Char}, internChars cs = internChars ds →
    cs = ds := by
  intro cs
  induction cs with
  | nil =>
      intro ds h
      cases ds with
      | nil => rfl
      | cons d ds => simp only [internChars] at h; omega
  | cons c cs ih =>
      intro ds h
      cases ds with
      | nil => simp only [internChars] at h; omega
      | cons d ds =>
          have hc := charToNat_lt c
          have hd := charToNat_lt d
          simp only [internChars] at h
          have hrest : internChars cs = internChars ds := by omega
          have hhead : c.toNat = d.toNat := by omega
          rw [ih hrest, Char.toNat_inj.1 hhead]

/-- `operator<` on values of one type. -/
def tableLess : Property → Property → Bool
  | .integer a, .integer b => a < b
  | .boolean a, .boolean b => !a && b
  | .string a, .string b => a < b
  | .time a, .time b => a.ticks < b.ticks
  | _, _ => false

/-- Whether a value satisfies an operator with its operands. -/
def holdsOp (op : Op) (v v1 v2 : Property) : Bool :=
  let le (a b : Property) : Bool := a = b || tableLess a b
  match op with
  | .dontCare => true
  | .eq => v = v1
  | .ne => v ≠ v1
  | .gt => tableLess v1 v
  | .ge => le v1 v
  | .lt => tableLess v v1
  | .le => le v v1
  | .geLe => le v1 v && le v v2
  | .geLt => le v1 v && tableLess v v2
  | .gtLe => tableLess v1 v && le v v2
  | .gtLt => tableLess v1 v && tableLess v v2

/-- A predicate on the property `0` is no constraint; any other needs the property. -/
def tablePasses (pp : PropertyPredicate) (props : Props) : Bool :=
  pp.id = 0 || (props pp.id).any fun v =>
    holdsOp pp.op v (pp.v1.getD (.integer 0)) (pp.v2.getD (.integer 0))

/-- The slots a scan visits. -/
def visited (g : Graph) : Lookup → List ℕ
  | .nodes _ _ => List.range g.nodes.length
  | .edges _ _ | .nodeEdges _ _ _ => List.range g.edges.length
  | .neighbors _ _ _ _ _ =>
      (g.edges.flatMap fun e => e.elim [] fun ed => [ed.src, ed.dst]).dedup

/-- What a scan yields. -/
def tableList (g : Graph) (q : Lookup) : List ℕ :=
  (visited g q).filter fun x => q.matchesBy tablePasses g x

/-- The exception of a call that is not in order. -/
def notInOrder : PMGDException := ⟨"ReadOnly", "Write to a read-only transaction"⟩

instance tableScan : Platform where
  stringID s := internChars s.toList
  passes := tablePasses
  advance g q past := (tableList g q)[past.length]?
  fails _ tx c := if c.inOrder tx then none else some notInOrder
  exception name := ⟨name, ""⟩
  less := tableLess
  stringToTime _ := .ok ⟨0⟩
  timeToString t := toString t.ticks
  uninitialised := none
  uninitialisedTime := 0
  doubleOfNat n := ⟨UInt64.ofNat n⟩
  doubleAdd x y := ⟨x.bits + y.bits⟩
  doubleDiv x y := ⟨x.bits / y.bits⟩
  realToString _ := ""
  realTruncate _ := 0
  realIsZero x := x.bits = 0

theorem mem_visited {g : Graph} {q : Lookup} {x : ℕ}
    (h : q.matchesBy tablePasses g x = true) : x ∈ visited g q := by
  cases q with
  | nodes tag pp =>
      by_cases hx : x < g.nodes.length
      · simpa [visited] using hx
      · simp [Lookup.matchesBy, Graph.node, List.getElem?_eq_none (Nat.le_of_not_lt hx)] at h
  | edges tag pp =>
      by_cases hx : x < g.edges.length
      · simpa [visited] using hx
      · simp [Lookup.matchesBy, Graph.edge, List.getElem?_eq_none (Nat.le_of_not_lt hx)] at h
  | nodeEdges n dir tag =>
      by_cases hx : x < g.edges.length
      · simpa [visited] using hx
      · simp [Lookup.matchesBy, Graph.edge, List.getElem?_eq_none (Nat.le_of_not_lt hx)] at h
  | neighbors n dir tag preds unique =>
      simp only [Lookup.matchesBy, List.any_eq_true, Option.any_eq_true, Bool.and_eq_true]
        at h
      obtain ⟨e, he, ed, hed, ⟨-, hconn⟩, -⟩ := h
      have hend : x = ed.src ∨ x = ed.dst := by
        cases dir <;> simp [Direction.connects] at hconn <;> grind
      rw [visited, List.mem_dedup, List.mem_flatMap]
      refine ⟨e, he, ?_⟩
      rw [hed]
      simpa using hend

instance : Platform.Lawful where
  stringID_injective s t h := String.toList_injective (internChars_injective h)
  passes_default _ := rfl
  passes_congr pp p q h := by
    simp only [Platform.passes, tablePasses, h]
  scan g q := by
    refine ⟨tableList g q, fun x => ?_, fun _ => ?_, fun k hk => ?_⟩
    · rw [tableList, List.mem_filter]
      exact ⟨fun h => h.2, fun h => ⟨mem_visited h, h⟩⟩
    · refine List.Nodup.filter _ ?_
      cases q with
      | neighbors => exact List.nodup_dedup _
      | _ => exact List.nodup_range
    · simp only [Platform.advance, List.length_take, Nat.min_eq_left hk]
  scan_nodes g g' tag pp past h := by
    simp only [Platform.advance, tableList, visited, Lookup.matchesBy, Graph.node, h]

instance : Platform.Quiet where
  fails_eq_none g tx c h := by
    simp [Platform.fails, h]

end Vdms
