import Vdms.Reusable
import Vdms.Footprints
import Vdms.TableScan

/-!
# Reusable Iterators as Cursors

A reusable iterator is a position in a list. `LazyCursor` says which list: the elements of
the source and the added ones, where an addition goes behind the elements that have been
pulled from the source and before those that have not. The operations of the iterator are
those of the position, in any order.

## Main results

* `ReusableIterator.follows_cursor`: whatever operations are applied to it, a reusable
  iterator is a position in the list, and a pass from `reset` yields the list.
* `LazyCursor.elements_add`: an addition is at the end of the list if the source has
  nothing left.
-/

namespace Vdms

open Imp Imp.Prog Platform Relation

/-! ### Sorting -/

/-- Sorting sorts if the comparison is total and transitive on the members of the list. -/
theorem pairwise_insertionSort_of_mem {α : Type} (R : α → α → Prop) [DecidableRel R]
    {l : List α} (htotal : ∀ a ∈ l, ∀ b ∈ l, R a b ∨ R b a)
    (htrans : ∀ a ∈ l, ∀ b ∈ l, ∀ c ∈ l, R a b → R b c → R a c) :
    (l.insertionSort R).Pairwise R := by
  let R' : { a // a ∈ l } → { a // a ∈ l } → Prop := fun a b => R a b
  have : Std.Total R' := ⟨fun a b => htotal a a.2 b b.2⟩
  have : IsTrans _ R' := ⟨fun a b c => htrans a a.2 b b.2 c c.2⟩
  have hmap : (l.attach.insertionSort R').map Subtype.val = l.insertionSort R := by
    rw [List.map_insertionSort R' R Subtype.val l.attach fun a _ b _ => Iff.rfl,
      List.attach_map_subtype_val]
  rw [← hmap, List.pairwise_map]
  exact List.pairwise_insertionSort R' l.attach

section Keys

variable [Platform] {τ : Type} (g : Graph) (el : τ → Element) (key : StringID)

/-- The values of the key at the elements. -/
def sortKeys (l : List τ) : List Property := l.filterMap fun x => g.props (el x) key

/-- The keys are ordered by `<`: a strict weak order. -/
structure Comparable (l : List τ) : Prop where
  asymm : ∀ v ∈ sortKeys g el key l, ∀ w ∈ sortKeys g el key l, less v w = true →
    less w v = false
  between : ∀ u ∈ sortKeys g el key l, ∀ v ∈ sortKeys g el key l,
    ∀ w ∈ sortKeys g el key l, less u w = true → less u v = true ∨ less v w = true

/-- No element comes before one that its key puts it behind. -/
def SortedBy (descending : Bool) (l : List τ) : Prop :=
  l.Pairwise fun x y => ∀ v w, g.props (el x) key = some v → g.props (el y) key = some w →
    (if descending then less v w else less w v) = false

variable {g el key} {l l' : List τ}

theorem Comparable.perm (h : Comparable g el key l) (hl : l'.Perm l) :
    Comparable g el key l' := by
  have hmem : ∀ v, v ∈ sortKeys g el key l' ↔ v ∈ sortKeys g el key l := fun v =>
    (hl.filterMap _).mem_iff
  constructor
  · simpa only [hmem] using h.asymm
  · simpa only [hmem] using h.between

theorem Comparable.total (h : Comparable g el key l) {v w : Property} (descending : Bool)
    (hv : v ∈ sortKeys g el key l) (hw : w ∈ sortKeys g el key l) (x y : τ) :
    ReusableIterator.sortsBefore descending (x, v) (y, w) = true ∨
      ReusableIterator.sortsBefore descending (y, w) (x, v) = true := by
  have hasymm := h.asymm v hv w hw
  cases descending with
  | false =>
      simp only [ReusableIterator.sortsBefore]
      grind
  | true =>
      simp only [ReusableIterator.sortsBefore]
      grind

theorem Comparable.trans (h : Comparable g el key l) {u v w : Property} {descending : Bool}
    (hu : u ∈ sortKeys g el key l) (hv : v ∈ sortKeys g el key l)
    (hw : w ∈ sortKeys g el key l) {x y z : τ}
    (hxy : ReusableIterator.sortsBefore descending (x, u) (y, v) = true)
    (hyz : ReusableIterator.sortsBefore descending (y, v) (z, w) = true) :
    ReusableIterator.sortsBefore descending (x, u) (z, w) = true := by
  have hup := h.between u hu v hv w hw
  have hdown := h.between w hw v hv u hu
  cases descending with
  | false =>
      simp only [ReusableIterator.sortsBefore] at hxy hyz ⊢
      grind
  | true =>
      simp only [ReusableIterator.sortsBefore] at hxy hyz ⊢
      grind

end Keys

section Sorting

variable [Platform] {τ : Type} {s t : Handler} {el : τ → Element} {key : StringID}
  {descending : Bool} {l : List τ} {keyed : List (τ × Property)}

theorem getProperty_ret {x : Element} {v : Property}
    (h : Runs (getProperty x key) s (.ret v t)) : t = s ∧ s.db.props x key = some v := by
  rw [getProperty] at h
  obtain ⟨_, u, hcall, hread⟩ := h.bind_inv
  obtain rfl := ((call_readOnly _ s).does hcall).eq
  have hread := hread.get_bind_inv
  cases hv : u.db.props x key with
  | none =>
      rw [hv] at hread
      exact absurd (hread.unique (Runs.of_eq fun _ => rfl)) (by simp)
  | some w =>
      rw [hv] at hread
      obtain ⟨rfl, rfl⟩ := hread.pure_inv
      exact ⟨rfl, rfl⟩

/-- The keys are those the graph has. -/
theorem withKeys_ret (h : Runs (ReusableIterator.withKeys el key l) s (.ret keyed t)) :
    t = s ∧ keyed.map Prod.fst = l ∧
      ∀ p ∈ keyed, s.db.props (el p.1) key = some p.2 := by
  induction l generalizing keyed with
  | nil =>
      obtain ⟨rfl, rfl⟩ := h.pure_inv
      exact ⟨rfl, rfl, by simp⟩
  | cons x xs ih =>
      rw [ReusableIterator.withKeys] at h
      obtain ⟨v, u, hv, hbind⟩ := h.bind_inv
      obtain ⟨rfl, hprop⟩ := getProperty_ret hv
      obtain ⟨rest, u', hrest, hpure⟩ := hbind.bind_inv
      obtain ⟨rfl, rfl⟩ := hpure.pure_inv
      obtain ⟨rfl, hfst, hkeys⟩ := ih hrest
      refine ⟨rfl, by rw [List.map_cons, hfst], ?_⟩
      rintro p hp
      rcases List.mem_cons.1 hp with rfl | hp
      · exact hprop
      · exact hkeys p hp

/-- The keys can be read if each of them can be. -/
theorem withKeys_runs (h : ∀ x ∈ l, ∃ v, Runs (getProperty (el x) key) s (.ret v s)) :
    ∃ keyed, Runs (ReusableIterator.withKeys el key l) s (.ret keyed s) := by
  induction l with
  | nil => exact ⟨[], Runs.of_eq fun _ => rfl⟩
  | cons x xs ih =>
      obtain ⟨v, hv⟩ := h x List.mem_cons_self
      obtain ⟨rest, hrest⟩ := ih fun y hy => h y (List.mem_cons_of_mem x hy)
      exact ⟨(x, v) :: rest, hv.bind (hrest.bind (Runs.of_eq fun _ => rfl))⟩

theorem sortedBy_insertionSort (hfst : keyed.map Prod.fst = l)
    (hkeys : ∀ p ∈ keyed, s.db.props (el p.1) key = some p.2)
    (h : Comparable s.db el key l) :
    SortedBy s.db el key descending ((keyed.insertionSort fun a b =>
      ReusableIterator.sortsBefore descending a b = true).map Prod.fst) := by
  have hmem : ∀ p ∈ keyed, p.2 ∈ sortKeys s.db el key l := fun p hp =>
    List.mem_filterMap.2 ⟨p.1, hfst ▸ List.mem_map_of_mem hp, hkeys p hp⟩
  have hsorted := pairwise_insertionSort_of_mem
    (fun a b => ReusableIterator.sortsBefore descending a b = true)
    (fun a ha b hb => h.total descending (hmem a ha) (hmem b hb) a.1 b.1)
    (fun a ha b hb c hc => h.trans (hmem a ha) (hmem b hb) (hmem c hc))
  refine List.pairwise_map.2 (hsorted.imp_of_mem ?_)
  rintro a b ha hb hab v w hv hw
  rw [hkeys a ((List.mem_insertionSort _).1 ha)] at hv
  rw [hkeys b ((List.mem_insertionSort _).1 hb)] at hw
  injection hv with hv
  injection hw with hw
  subst hv hw
  cases descending with
  | false => simpa [ReusableIterator.sortsBefore] using hab
  | true => simpa [ReusableIterator.sortsBefore] using hab

end Sorting

/-! ### The operations -/

/-- The operations of a reusable iterator that change it. -/
inductive CursorOp (τ : Type) where
  | next
  | reset
  | traverseAll
  | sort (key : StringID) (descending : Bool)
  | add (x : τ)

namespace LazyCursor

variable {τ : Type} {c : LazyCursor τ}

@[simp] theorem elements_next : c.next.elements = c.elements := by
  simp only [next, elements, List.append_assoc, List.take_append_drop]

@[simp] theorem elements_reset : c.reset.elements = c.elements := by
  simp [reset, elements]

@[simp] theorem elements_traverseAll : c.traverseAll.elements = c.elements := rfl

theorem elements_add_perm (x : τ) : (c.add x).elements.Perm (c.elements ++ [x]) := by
  cases hleft : c.left with
  | nil => simp [add, elements, hleft]
  | cons y ys =>
      have hperm := (List.perm_append_singleton x (c.left.drop (c.left.length - c.ahead))).symm
      have hsplit : (c.left.take (c.left.length - c.ahead) ++
          (c.left.drop (c.left.length - c.ahead) ++ [x])) = c.left ++ [x] := by
        rw [← List.append_assoc, List.take_append_drop]
      have hadd : (c.add x).elements = c.past ++ (c.left.take (c.left.length - c.ahead) ++
          x :: c.left.drop (c.left.length - c.ahead)) := by
        simp [add, elements, hleft]
      rw [hadd, elements, List.append_assoc, ← hsplit]
      exact (hperm.append_left _).append_left _

variable [Platform]

/-- One operation on a position, over the graph whose keys a `sort` reads. -/
def Moves (el : τ → Element) (g : Graph) : CursorOp τ → LazyCursor τ → LazyCursor τ → Prop
  | .next, c, c' => c' = c.next
  | .reset, c, c' => c' = c.reset
  | .traverseAll, c, c' => c' = c.traverseAll
  | .sort key descending, c, c' => c'.past = [] ∧ c'.ahead = 0 ∧ c'.left.Perm c.elements ∧
      (Comparable g el key c.elements → SortedBy g el key descending c'.left)
  | .add x, c, c' => c' = c.add x

/-- A sequence of operations on a position, each over its graph. -/
inductive Follows (el : τ → Element) :
    List (CursorOp τ × Graph) → LazyCursor τ → LazyCursor τ → Prop
  | nil {c : LazyCursor τ} : Follows el [] c c
  | cons {op : CursorOp τ} {g : Graph} {trace : List (CursorOp τ × Graph)}
      {c c' c'' : LazyCursor τ} : Moves el g op c c' → Follows el trace c' c'' →
      Follows el ((op, g) :: trace) c c''

/-- The elements that the operations add. -/
def added (trace : List (CursorOp τ × Graph)) : List τ :=
  trace.filterMap fun p =>
    match p.1 with
    | .add x => some x
    | _ => none

variable {el : τ → Element} {g : Graph} {op : CursorOp τ} {c' : LazyCursor τ}
  {trace : List (CursorOp τ × Graph)}

theorem Moves.elements_perm (h : Moves el g op c c') :
    c'.elements.Perm (c.elements ++ added [(op, g)]) := by
  cases op with
  | next =>
      obtain rfl := h
      simp [added]
  | reset =>
      obtain rfl := h
      simp [added]
  | traverseAll =>
      obtain rfl := h
      simp [added]
  | sort key descending =>
      obtain ⟨hpast, -, hleft, -⟩ := h
      simpa [added, elements, hpast] using hleft
  | add x =>
      obtain rfl := h
      exact elements_add_perm x

/-- Nothing is lost and nothing comes twice. -/
theorem Follows.elements_perm (h : Follows el trace c c') :
    c'.elements.Perm (c.elements ++ added trace) := by
  induction h with
  | nil => simp [added]
  | @cons op g trace c c' c'' hmove _ ih =>
      have hadded : added ((op, g) :: trace) = added [(op, g)] ++ added trace := by
        rw [added, ← List.singleton_append, List.filterMap_append]
        rfl
      rw [hadded, ← List.append_assoc]
      exact ih.trans (hmove.elements_perm.append_right _)

end LazyCursor

section Operations

variable [Platform] {ι τ : Type} (I : Iter Handler PMGDException ι τ) (el : τ → Element)

/-- An operation of a reusable iterator. -/
def CursorOp.apply : CursorOp τ → ReusableIterator ι τ → Handling (ReusableIterator ι τ)
  | .next, r => r.next I
  | .reset, r => pure r.reset
  | .traverseAll, r => r.traverseAll I
  | .sort key descending, r => r.sort I el key descending
  | .add x, r => pure (r.insert [x])

/-- A sequence of operations that return, each with the graph it leaves behind. -/
inductive Drives : List (CursorOp τ × Graph) → ReusableIterator ι τ → Handler →
    ReusableIterator ι τ → Handler → Prop
  | nil {r : ReusableIterator ι τ} {s : Handler} : Drives [] r s r s
  | cons {op : CursorOp τ} {trace : List (CursorOp τ × Graph)}
      {r r' r'' : ReusableIterator ι τ} {s s' s'' : Handler} :
      Runs (op.apply I el r) s (.ret r' s') → Drives trace r' s' r'' s'' →
      Drives ((op, s'.db) :: trace) r s r'' s''

/-- A reusable iterator after its construction, and the list it stands for. -/
inductive Starts : ReusableIterator ι τ → Handler → LazyCursor τ → Prop
  | source {i j : ι} {l : List τ} {s s' t : Handler} {r : ReusableIterator ι τ} :
      I.Yields i s l j t → Runs (ReusableIterator.new I i) s (.ret r s') →
      Starts r s' ⟨[], l, l.length - 1⟩
  | element (x : τ) (s : Handler) : Starts (.ofElement x) s ⟨[], [x], 0⟩
  | empty (s : Handler) : Starts .empty s ⟨[], [], 0⟩

/-- A reusable iterator is at a position: it tests and dereferences as the position does, a
pass from `reset` yields the list, and its operations return, `sort` if the keys can be
read. -/
structure IsCursor (r : ReusableIterator ι τ) (s : Handler) (c : LazyCursor τ) : Prop where
  bool_eq : r.bool = !c.left.isEmpty
  ref_runs : ∀ x xs, c.left = x :: xs → Runs r.ref s (.ret x s)
  ref_throws : c.left = [] → Runs r.ref s (.throw nullIterator s)
  pass : ∃ r' t, (ReusableIterator.iter I).Yields r.reset s c.elements r' t
  traverseAll_runs : ∃ r' t, Runs (r.traverseAll I) s (.ret r' t) ∧
    ∀ key descending, (∀ x ∈ c.elements, ∃ v, Runs (getProperty (el x) key) t (.ret v t)) →
      ∃ r', Runs (r.sort I el key descending) s (.ret r' t)
  next_runs : ∃ r' t, Runs (r.next I) s (.ret r' t)

variable {I el} {V : ι → Handler → List τ → Prop} {S : Handler → Handler → Prop}
  {r r' : ReusableIterator ι τ} {s s' : Handler} {c : LazyCursor τ}

omit [Platform] in
theorem Shows.traverseAll_runs (hI : I.Tracks V S) (h : Shows V r s c) :
    ∃ r' s', Runs (r.traverseAll I) s (.ret r' s') ∧ Shows V r' s' c.traverseAll := by
  obtain ⟨r', s', hrun, hpast, hrest, hV, -⟩ := h.view.traverseAll_runs hI
  refine ⟨r', s', hrun, hpast, [], hV, ?_, fun _ => rfl, rfl⟩
  rw [List.append_nil, hrest]
  rfl

omit [Platform] in
theorem Shows.reset (h : Shows V r s c) : Shows V r.reset s c.reset := by
  obtain ⟨hpast, m, hV, hleft, hm, hahead⟩ := h
  refine ⟨rfl, m, hV, ?_, fun hnil => ?_, hahead⟩
  · simp [ReusableIterator.reset, ReusableIterator.traversed, LazyCursor.reset,
      LazyCursor.elements, hpast, hleft]
  · have hnil : r.passed = [] ∧ r.rest = [] := by
      simpa [ReusableIterator.reset, ReusableIterator.traversed] using hnil
    exact hm hnil.2

omit [Platform] in
/-- An added element comes before what has not been pulled. -/
theorem Shows.add (h : Shows V r s c) (x : τ) : Shows V (r.insert [x]) s (c.add x) := by
  obtain ⟨past, left, ahead⟩ := c
  obtain ⟨hpast, m, hV, hleft, hm, hahead⟩ := h
  simp only at hpast hleft hahead
  subst hahead
  cases hrest : r.rest with
  | nil =>
      have hnil := hm hrest
      rw [hrest, hnil] at hleft
      subst hleft hnil
      exact ⟨by simp [ReusableIterator.insert, LazyCursor.add, hrest, hpast], [],
        by simpa [ReusableIterator.insert, hrest] using hV,
        by simp [ReusableIterator.insert, LazyCursor.add, hrest], fun _ => rfl,
        by simp [LazyCursor.add]⟩
  | cons y ys =>
      have hlen : left.length - m.length = r.rest.length := by
        rw [hleft, List.length_append]
        omega
      have hne : left ≠ [] := by simp [hleft, hrest]
      refine ⟨by simp [ReusableIterator.insert, LazyCursor.add, hrest, hne, hpast], m,
        by simpa [ReusableIterator.insert, hrest] using hV, ?_, ?_,
        by simp [LazyCursor.add, hne]⟩
      · simp only [LazyCursor.add, hlen, List.isEmpty_iff, hne, if_false]
        rw [hleft, List.take_left, List.drop_left]
        simp [ReusableIterator.insert, hrest]
      · intro hnil
        simp [ReusableIterator.insert, hrest] at hnil

omit [Platform] in
theorem Shows.next_step (hI : I.Tracks V S) (h : Shows V r s c) :
    ∃ r' s', Runs (r.next I) s (.ret r' s') ∧ Shows V r' s' c.next := by
  obtain ⟨past, left, ahead⟩ := c
  cases left with
  | nil =>
      refine ⟨r, s, h.view.next_runs_end hI, ?_⟩
      obtain ⟨hpast, m, hV, hleft, hm, hahead⟩ := h
      have hnil := hm (List.append_eq_nil_iff.1 hleft.symm).1
      refine ⟨by simp [LazyCursor.next, hpast], m, hV, ?_, hm, ?_⟩
      · simpa [LazyCursor.next] using hleft
      · simp [LazyCursor.next, hnil]
  | cons x left =>
      obtain ⟨r', s', hrun, h', -⟩ := h.next_runs hI
      exact ⟨r', s', hrun, h'⟩

omit [Platform] in
theorem Shows.traversed_eq (h : Shows V r s c) (hahead : c.ahead = 0) :
    r.traversed = c.elements := by
  obtain ⟨hpast, m, -, hleft, -, hm⟩ := h
  have hnil : m = [] := List.eq_nil_of_length_eq_zero (hm.symm.trans hahead)
  rw [ReusableIterator.traversed, LazyCursor.elements, hpast, hleft, hnil, List.append_nil]

/-- `sort` traverses the source and reads the keys, unless there is nothing to compare. -/
theorem Shows.sort_runs (hI : I.Tracks V S) (h : Shows V r s c) {key : StringID}
    {descending : Bool} {r₁ : ReusableIterator ι τ} {s₁ : Handler}
    (htraverse : Runs (r.traverseAll I) s (.ret r₁ s₁))
    (hkeys : ∀ x ∈ c.elements, ∃ v, Runs (getProperty (el x) key) s₁ (.ret v s₁)) :
    ∃ r', Runs (r.sort I el key descending) s (.ret r' s₁) := by
  obtain ⟨r₂, s₂, hrun, hshows⟩ := h.traverseAll_runs hI
  have heq := hrun.unique htraverse
  injection heq with hr hs
  subst hr hs
  have htraversed : r₂.traversed = c.elements := hshows.traversed_eq rfl
  by_cases hshort : r₂.traversed.length ≤ 1
  · refine ⟨r₂.reset, htraverse.bind (Runs.of_eq fun n => ?_)⟩
    simp only [hshort, if_true]
    rfl
  · obtain ⟨keyed, hkeyed⟩ := withKeys_runs (htraversed ▸ hkeys)
    have hrest : Runs (if r₂.traversed.length ≤ 1 then pure r₂.reset else do
        let keyed ← ReusableIterator.withKeys el key r₂.traversed
        let sorted := keyed.insertionSort fun a b =>
          ReusableIterator.sortsBefore descending a b = true
        pure { r₂ with passed := [], rest := sorted.map Prod.fst }) s₂ (.ret { r₂ with
          passed := [], rest := (keyed.insertionSort fun a b =>
            ReusableIterator.sortsBefore descending a b = true).map Prod.fst } s₂) := by
      rw [if_neg hshort]
      exact hkeyed.bind (Runs.of_eq fun n => rfl)
    exact ⟨_, htraverse.bind hrest⟩

/-- `sort` leaves the position at the beginning of the sorted list. -/
theorem Shows.sort (hI : I.Tracks V S) (h : Shows V r s c) {key : StringID}
    {descending : Bool} (hrun : Runs (r.sort I el key descending) s (.ret r' s')) :
    ∃ c', c.Moves el s'.db (.sort key descending) c' ∧ Shows V r' s' c' := by
  obtain ⟨r₁, s₁, htraverse, hshows⟩ := h.traverseAll_runs hI
  obtain ⟨r₂, s₂, hrun₂, hrun⟩ := hrun.bind_inv
  have heq := hrun₂.unique htraverse
  injection heq with hr hs
  subst hr hs
  have htraversed : r₂.traversed = c.elements := hshows.traversed_eq rfl
  obtain ⟨hpast, m, hV, hleft, hm, hahead⟩ := hshows
  obtain rfl : m = [] := List.eq_nil_of_length_eq_zero hahead.symm
  by_cases hshort : r₂.traversed.length ≤ 1
  · simp only [hshort, if_true] at hrun
    obtain ⟨rfl, rfl⟩ := hrun.pure_inv
    refine ⟨⟨[], c.elements, 0⟩, ⟨rfl, rfl, .refl _, fun _ => ?_⟩, rfl, [], hV, ?_,
      fun _ => rfl, rfl⟩
    · have hlen : c.elements.length ≤ 1 := htraversed ▸ hshort
      rcases hl : c.elements with - | ⟨x, - | ⟨y, ys⟩⟩
      · exact List.Pairwise.nil
      · exact List.pairwise_singleton _ x
      · rw [hl] at hlen
        simp at hlen
    · simp [ReusableIterator.reset, htraversed]
  · simp only [hshort, if_false] at hrun
    obtain ⟨keyed, u, hkeyed, hpure⟩ := hrun.bind_inv
    obtain ⟨rfl, hfst, hkeys⟩ := withKeys_ret hkeyed
    obtain ⟨rfl, rfl⟩ := hpure.pure_inv
    rw [htraversed] at hfst
    refine ⟨⟨[], _, 0⟩, ⟨rfl, rfl, ?_, sortedBy_insertionSort hfst hkeys⟩, rfl, [], hV, ?_,
      fun _ => rfl, rfl⟩
    · exact hfst ▸ (List.perm_insertionSort _ keyed).map Prod.fst
    · simp

/-- **One operation.** -/
theorem Shows.step (hI : I.Tracks V S) (h : Shows V r s c) {op : CursorOp τ}
    (hrun : Runs (op.apply I el r) s (.ret r' s')) :
    ∃ c', c.Moves el s'.db op c' ∧ Shows V r' s' c' := by
  cases op with
  | next =>
      obtain ⟨r₁, s₁, hnext, h'⟩ := h.next_step hI
      have heq := hnext.unique hrun
      injection heq with hr hs
      subst hr hs
      exact ⟨c.next, rfl, h'⟩
  | reset =>
      obtain ⟨rfl, rfl⟩ := hrun.pure_inv
      exact ⟨c.reset, rfl, h.reset⟩
  | traverseAll =>
      obtain ⟨r₁, s₁, htraverse, h'⟩ := h.traverseAll_runs hI
      have heq := htraverse.unique hrun
      injection heq with hr hs
      subst hr hs
      exact ⟨c.traverseAll, rfl, h'⟩
  | sort key descending => exact h.sort hI hrun
  | add x =>
      obtain ⟨rfl, rfl⟩ := hrun.pure_inv
      exact ⟨c.add x, rfl, h.add x⟩

/-- **Operations in any order.** -/
theorem Shows.drives (hI : I.Tracks V S) {trace : List (CursorOp τ × Graph)}
    (hrun : Drives I el trace r s r' s') (h : Shows V r s c) :
    ∃ c', c.Follows el trace c' ∧ Shows V r' s' c' := by
  induction hrun generalizing c with
  | nil => exact ⟨c, .nil, h⟩
  | cons hop _ ih =>
      obtain ⟨c₁, hmove, h₁⟩ := h.step hI hop
      obtain ⟨c₂, hfollows, h₂⟩ := ih h₁
      exact ⟨c₂, .cons hmove hfollows, h₂⟩

theorem Shows.isCursor (hI : I.Tracks V S) (h : Shows V r s c) : IsCursor I el r s c where
  bool_eq := h.view.bool_eq
  ref_runs := by
    intro x xs hleft
    have hview := h.view
    rw [hleft] at hview
    exact hview.ref_runs s
  ref_throws := by
    intro hleft
    have hview := h.view
    rw [hleft] at hview
    refine Runs.of_eq fun n => ?_
    rw [ReusableIterator.ref, hview.rest_eq_nil]
    rfl
  pass := by
    obtain ⟨r', t, hy, -⟩ :=
      (ReusableIterator.tracks hI c.elements).yields ⟨[], h.view.reset, rfl⟩
    exact ⟨r', t, hy⟩
  traverseAll_runs := by
    obtain ⟨r', t, htraverse, -⟩ := h.traverseAll_runs hI
    exact ⟨r', t, htraverse, fun key descending hkeys => h.sort_runs hI htraverse hkeys⟩
  next_runs := by
    obtain ⟨r', t, hrun, -⟩ := h.next_step hI
    exact ⟨r', t, hrun⟩

omit [Platform] in
theorem Starts.shows (h : Starts I r s c) :
    Shows (fun i s l => ∃ j t, I.Yields i s l j t) r s c := by
  cases h with
  | source hy hnew =>
      obtain ⟨r', s', hrun, hshows, -⟩ := Shows.new_runs I.tracks_yields ⟨_, _, hy⟩
      have heq := hrun.unique hnew
      injection heq with hr hs
      subst hr hs
      exact hshows
  | element x => exact ⟨rfl, [], rfl, rfl, (fun h => (by cases h)), rfl⟩
  | empty => exact ⟨rfl, [], rfl, rfl, fun _ => rfl, rfl⟩

/-- **A reusable iterator is a cursor.** Whatever operations are applied to it, in any
order, it stays a position in a list: the elements of the source and the added ones, in an
order that only `sort` changes, and that a pass from `reset` goes over from end to end. -/
theorem ReusableIterator.follows_cursor {trace : List (CursorOp τ × Graph)}
    (hstart : Starts I r s c) (hrun : Drives I el trace r s r' s') :
    ∃ c', c.Follows el trace c' ∧ c'.elements.Perm (c.elements ++ LazyCursor.added trace) ∧
      IsCursor I el r' s' c' := by
  obtain ⟨c', hfollows, hshows⟩ := hstart.shows.drives I.tracks_yields hrun
  exact ⟨c', hfollows, hfollows.elements_perm, hshows.isCursor I.tracks_yields⟩

end Operations

/-- The iterator over a list. -/
def listIter {τ : Type} : Iter Handler PMGDException (List τ) τ where
  bool l := !l.isEmpty
  ref
    | x :: _ => pure x
    | [] => throw nullIterator
  next l := pure l.tail

theorem listIter_yields {τ : Type} (l : List τ) (s : Handler) :
    listIter.Yields l s l [] s := by
  induction l with
  | nil => exact .nil rfl
  | cons x l ih => exact .cons rfl (Runs.of_eq fun _ => rfl) (Runs.of_eq fun _ => rfl) ih

/-- The edge 7 is added while one of the two edges of the source has been pulled. -/
theorem drives_addition (s : Handler) :
    Drives listIter .edge [(.add 7, s.db), (.reset, s.db)] ⟨some [1], [], [0]⟩ s
      ⟨some [1], [], [0, 7]⟩ s :=
  .cons (Runs.of_eq fun _ => rfl) (.cons (Runs.of_eq fun _ => rfl) .nil)

/-- An edge that is added before the source has been gone over, and a pass from the
beginning. -/
theorem follows_cursor_addition :
    ∃ c', (⟨[], [0, 1], 1⟩ : LazyCursor EdgeID).Follows .edge
        [(.add 7, ⟨[], []⟩), (.reset, ⟨[], []⟩)] c' ∧
      c'.elements.Perm [0, 1, 7] ∧
      IsCursor listIter .edge ⟨some [1], [], [0, 7]⟩ (.inTransaction ⟨[], []⟩) c' :=
  ReusableIterator.follows_cursor
    (.source (listIter_yields [0, 1] _) (Runs.of_eq fun _ => rfl))
    (drives_addition (.inTransaction ⟨[], []⟩))

/-- The added edge does not come at the end of the pass. -/
theorem addition_not_last :
    ∃ (r r' : ReusableIterator (List EdgeID) EdgeID) (s : Handler),
      Starts listIter r s ⟨[], [0, 1], 1⟩ ∧
      Drives listIter .edge [(.add 7, s.db), (.reset, s.db)] r s r' s ∧
      (∃ r'' t, (ReusableIterator.iter listIter).Yields r' s [0, 7, 1] r'' t) ∧
      ¬ ∃ r'' t, (ReusableIterator.iter listIter).Yields r' s [0, 1, 7] r'' t := by
  let s : Handler := .inTransaction ⟨[], []⟩
  have hpass : (ReusableIterator.iter listIter).Yields ⟨some [1], [], [0, 7]⟩ s [0, 7, 1]
      ⟨some [], [0, 7, 1], []⟩ s :=
    .cons rfl (Runs.of_eq fun _ => rfl) (Runs.of_eq fun _ => rfl)
      (.cons rfl (Runs.of_eq fun _ => rfl) (Runs.of_eq fun _ => rfl)
        (.cons rfl (Runs.of_eq fun _ => rfl) (Runs.of_eq fun _ => rfl) (.nil rfl)))
  refine ⟨_, _, s, .source (listIter_yields [0, 1] s) (Runs.of_eq fun _ => rfl),
    drives_addition s, ⟨_, _, hpass⟩, ?_⟩
  rintro ⟨r'', t, hlast⟩
  exact absurd (hpass.unique hlast).1 (by decide)

end Vdms
