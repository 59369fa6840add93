import Mathlib.Data.Nat.Notation
import Mathlib.Data.List.Basic
import Mathlib.Data.List.Nodup
import Mathlib.Data.List.Range

/-!
# Row-Major Order

The cells of a rectangle, row after row, as a dense array gives them out, and the place that a
cell has among them.

## Main results

* `getElem?_rowMajor`: the cell at column `j` of row `i` stands at `i * width + j`.
* `rowMajor_getElem?_iff`, `nodup_rowMajor`: and nowhere else.
-/

namespace Imp

variable {r c height width i j k a b : ℕ}

/-- The cells of `height` rows from `r` on and `width` columns from `c` on, row after row. -/
def rowMajor (r height c width : ℕ) : List (ℕ × ℕ) :=
  (List.range height).flatMap fun i => (List.range width).map fun j => (r + i, c + j)

theorem rowMajor_succ :
    rowMajor r (height + 1) c width =
      rowMajor r height c width ++ (List.range width).map fun j => (r + height, c + j) := by
  simp [rowMajor, List.range_succ]

@[simp] theorem length_rowMajor : (rowMajor r height c width).length = height * width := by
  induction height with
  | zero => simp [rowMajor]
  | succ height ih => simp [rowMajor_succ, ih, Nat.succ_mul]

theorem place_lt (hi : i < height) (hj : j < width) : i * width + j < height * width := by
  have h := Nat.mul_le_mul_right width hi
  rw [Nat.succ_mul] at h
  omega

theorem getElem?_rowMajor (hi : i < height) (hj : j < width) :
    (rowMajor r height c width)[i * width + j]? = some (r + i, c + j) := by
  induction height with
  | zero => omega
  | succ height ih =>
    rw [rowMajor_succ]
    by_cases h : i < height
    · rw [List.getElem?_append_left (by rw [length_rowMajor]; exact place_lt h hj)]
      exact ih h
    · obtain rfl : i = height := by omega
      rw [List.getElem?_append_right (by rw [length_rowMajor]; omega), length_rowMajor]
      simp [hj]

/-- A place below the number of cells, as a row and a column. -/
theorem place_div_mod (hk : k < height * width) :
    k / width < height ∧ k % width < width ∧ k = k / width * width + k % width := by
  have hw : 0 < width := by
    rcases Nat.eq_zero_or_pos width with rfl | h
    · omega
    · exact h
  refine ⟨(Nat.div_lt_iff_lt_mul hw).2 hk, Nat.mod_lt _ hw, ?_⟩
  rw [Nat.mul_comm]
  exact (Nat.div_add_mod k width).symm

/-- The cells by their places. -/
theorem rowMajor_eq_map :
    rowMajor r height c width =
      (List.range (height * width)).map fun k => (r + k / width, c + k % width) := by
  refine List.ext_getElem? fun k => ?_
  by_cases hk : k < height * width
  · obtain ⟨hrow, hcol, heq⟩ := place_div_mod hk
    have hplace := getElem?_rowMajor (r := r) (c := c) hrow hcol
    rw [← heq] at hplace
    rw [hplace]
    simp [hk]
  · rw [List.getElem?_eq_none (by rw [length_rowMajor]; omega),
      List.getElem?_eq_none (by rw [List.length_map, List.length_range]; omega)]

/-- No cell is there twice. -/
theorem nodup_rowMajor (r height c width : ℕ) : (rowMajor r height c width).Nodup := by
  rw [rowMajor_eq_map]
  refine List.nodup_range.map_on fun k hk k' hk' heq => ?_
  obtain ⟨hrow, hcolumn⟩ := Prod.mk.inj heq
  obtain ⟨-, -, hplace⟩ := place_div_mod (List.mem_range.1 hk)
  obtain ⟨-, -, hplace'⟩ := place_div_mod (List.mem_range.1 hk')
  rw [hplace, hplace', Nat.add_left_cancel hrow, Nat.add_left_cancel hcolumn]

theorem rowMajor_getElem?_iff (hi : i < height) (hj : j < width) :
    (rowMajor r height c width)[k]? = some (r + i, c + j) ↔ k = i * width + j := by
  refine ⟨fun h => ?_, fun h => h ▸ getElem?_rowMajor hi hj⟩
  obtain ⟨hk, -⟩ := List.getElem?_eq_some_iff.1 h
  obtain ⟨hrow, hcol, heq⟩ := place_div_mod (length_rowMajor ▸ hk)
  rw [heq, getElem?_rowMajor hrow hcol, Option.some.injEq, Prod.mk.injEq] at h
  rw [heq, show i = k / width by omega, show j = k % width by omega]

end Imp
