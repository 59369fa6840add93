import Mathlib.Data.Nat.Notation
import Mathlib.Data.List.Basic

/-!
# Equal Parts

A list that is put together from parts of the same length: taking and dropping whole parts, and
comparing two such lists part by part.
-/

namespace Imp

variable {α β : Type} {f : α → List β} {n k : ℕ} {xs ys : List α}

theorem length_flatMap_const (h : ∀ x ∈ xs, (f x).length = n) :
    (xs.flatMap f).length = xs.length * n := by
  induction xs with
  | nil => simp
  | cons x xs ih =>
    rw [List.flatMap_cons, List.length_append, h x List.mem_cons_self,
      ih fun y hy => h y (List.mem_cons_of_mem _ hy), List.length_cons, Nat.succ_mul, Nat.add_comm]

theorem drop_flatMap_const (h : ∀ x ∈ xs, (f x).length = n) :
    (xs.flatMap f).drop (k * n) = (xs.drop k).flatMap f := by
  induction xs generalizing k with
  | nil => simp
  | cons x xs ih =>
    cases k with
    | zero => simp
    | succ k =>
      rw [List.flatMap_cons, Nat.succ_mul, Nat.add_comm, ← List.drop_drop,
        ← h x List.mem_cons_self, List.drop_left, List.drop_succ_cons, h x List.mem_cons_self]
      exact ih fun y hy => h y (List.mem_cons_of_mem _ hy)

theorem take_flatMap_const (h : ∀ x ∈ xs, (f x).length = n) :
    (xs.flatMap f).take (k * n) = (xs.take k).flatMap f := by
  induction xs generalizing k with
  | nil => simp
  | cons x xs ih =>
    cases k with
    | zero => simp
    | succ k =>
      have hx := h x List.mem_cons_self
      rw [List.flatMap_cons, Nat.succ_mul, Nat.add_comm, ← hx, List.take_length_add_append, hx,
        List.take_succ_cons, List.flatMap_cons]
      exact congrArg _ (ih fun y hy => h y (List.mem_cons_of_mem _ hy))

theorem flatMap_const_inj (hx : ∀ x ∈ xs, (f x).length = n) (hy : ∀ y ∈ ys, (f y).length = n)
    (hlength : xs.length = ys.length) :
    xs.flatMap f = ys.flatMap f ↔ xs.map f = ys.map f := by
  induction xs generalizing ys with
  | nil =>
    obtain rfl : ys = [] := List.eq_nil_of_length_eq_zero hlength.symm
    simp
  | cons x xs ih =>
    cases ys with
    | nil => simp at hlength
    | cons y ys =>
      have hfirst : (f x).length = (f y).length := by
        rw [hx x List.mem_cons_self, hy y List.mem_cons_self]
      have hrest := ih (fun x' hx' => hx x' (List.mem_cons_of_mem _ hx'))
        (fun y' hy' => hy y' (List.mem_cons_of_mem _ hy')) (by simpa using hlength)
      rw [List.flatMap_cons, List.flatMap_cons, List.map_cons, List.map_cons, List.cons.injEq,
        ← hrest]
      constructor
      · exact fun h => List.append_inj h hfirst
      · rintro ⟨h, h'⟩
        rw [h, h']

/-- A list is put together from its parts. -/
theorem flatMap_parts {l : List β} {m : ℕ} (h : l.length = m * n) :
    ((List.range m).flatMap fun i => (l.drop (i * n)).take n) = l := by
  induction m generalizing l with
  | zero => simp [List.eq_nil_of_length_eq_zero (by omega : l.length = 0)]
  | succ m ih =>
    rw [Nat.succ_mul] at h
    have hrest := ih (l := l.drop n) (by rw [List.length_drop]; omega)
    have hshift : (fun i => (l.drop ((i + 1) * n)).take n) =
        fun i => ((l.drop n).drop (i * n)).take n := by
      funext i
      rw [List.drop_drop, Nat.succ_mul, Nat.add_comm]
    rw [List.range_succ_eq_map, List.flatMap_cons, List.flatMap_map, hshift, hrest, Nat.zero_mul,
      List.drop_zero, List.take_append_drop]

end Imp
