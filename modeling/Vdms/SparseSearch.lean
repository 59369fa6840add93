import Vdms.TDBSets
import Mathlib.Tactic.Linarith

/-!
# Searching a Sparse Array

`TDBSparseDescriptorSet::search` looks for the neighbors of a query in a box around it, of
radius 16 at first, which is doubled until it has `k` points. A point outside of the box may be
nearer than one in a corner of it, and a box with `k` points may come too late. What the search
answers is what `TDBDenseDescriptorSet::search` finds in all the descriptors exactly if neither
happens.

## Main results

* `Sparse.loadNeighbors_spec`: the box that is taken.
* `Dense.search_spec`: the exact scan answers the `k` nearest.
* `sparse_search_iff`: when both answer the same, up to the order of equal distances.
* `corner_point`: a point in the corner of the box that hides a nearer one outside.
-/

namespace Vdms

namespace VCL

open Imp Imp.Prog

/-- The ids and distances of the exact scan, where the first descriptor has the id `id`. -/
def scanFrom (q : Descriptor) : ℕ → List Descriptor → List (Int64 × ℚ)
  | _, [] => []
  | id, x :: xs => (Int64.ofNat id, distance q x) :: scanFrom q (id + 1) xs

def scan (q : Descriptor) (xs : List Descriptor) : List (Int64 × ℚ) := scanFrom q 0 xs

/-- The `k` nearest of the exact scan, in any order of equal distances. -/
def IsNearest (q : Descriptor) (k : ℕ) (xs : List Descriptor) (row : List (Int64 × ℚ)) : Prop :=
  IsPartialSort Prod.snd k (scan q xs) row

/-! ### The exact scan -/

theorem scanFrom_getElem? (q : Descriptor) (xs : List Descriptor) (id i : ℕ) :
    (scanFrom q id xs)[i]? = xs[i]?.map fun x => (Int64.ofNat (id + i), distance q x) := by
  induction xs generalizing id i with
  | nil => simp [scanFrom]
  | cons x xs ih =>
      cases i with
      | zero => simp [scanFrom]
      | succ i =>
          simp only [scanFrom, List.getElem?_cons_succ, ih]
          congr 2
          funext x
          congr 2
          omega

theorem map_range_getD {α : Type} (xs : List α) (d : α) :
    ((List.range xs.length).map fun i => xs.getD i d) = xs := by
  refine List.ext_getElem? fun i => ?_
  by_cases hi : i < xs.length
  · simp [hi]
  · simp [hi]

namespace Dense

variable [StdPartialSort]

/-- The set holds the descriptors in its buffer. -/
structure Holds (s : DenseSet) (xs : List Descriptor) : Prop where
  updated : s.flag_buffer_updated = true
  buffer : s.buffer = xs
  n_total : s.n_total = xs.length

/-- The row of `search` for a query. -/
theorem row_isNearest {s : DenseSet} {xs : List Descriptor} (hs : Holds s xs) {q : Descriptor}
    {k : ℕ} (hk : k ≤ xs.length) :
    IsNearest q k xs ((StdPartialSort.sort (distances s q) k).map fun i =>
      (Int64.ofNat i, (distances s q).getD i 0)) := by
  have hd : distances s q = xs.map (distance q) := by
    simp [distances, hs.buffer, hs.n_total]
  have hlen : (distances s q).length = xs.length := by simp [hd]
  have hscan : ((List.range (distances s q).length).map fun i =>
      (Int64.ofNat i, (distances s q).getD i 0)) = scan q xs := by
    refine List.ext_getElem? fun i => ?_
    rw [scan, scanFrom_getElem?, hlen, hd]
    by_cases hi : i < xs.length
    · simp [hi]
    · simp [hi]
  have hsort := StdPartialSort.isPartialSort (distances s q) k (by omega)
  rw [IsNearest, ← hscan]
  exact hsort.map (g := Prod.snd) fun i _ => rfl

/-- **The exact scan** answers the `k` nearest of each query. -/
theorem search_spec {s : DenseSet} {xs : List Descriptor} (hs : Holds s xs) {q : Descriptor}
    {k : ℕ} (hk : k ≤ xs.length) (n : ℕ) :
    ∃ row, search [q] k n s = .ret [row] s ∧ IsNearest q k xs row := by
  refine ⟨_, ?_, row_isNearest hs hk⟩
  have hle : ¬ s.n_total < k := by
    rw [hs.n_total]
    omega
  simp [search, hs.updated, when, hle]

end Dense

/-! ### The boxes -/

namespace Sparse

/-- The point is in the box of an attempt. -/
def inAttempt (q : Descriptor) (attempt : ℕ) (x : Descriptor) : Bool :=
  inBox (subarray q (2 ^ (4 + attempt))) x

/-- A range of the box of an attempt has no points. -/
def refused (q : Descriptor) (attempt : ℕ) : Bool :=
  (subarray q (2 ^ (4 + attempt))).any fun range => decide (range.2 < range.1)

/-- The attempt whose box is taken: no range without points so far, and it is the first with
`k` points. -/
structure Taken (points : List Descriptor) (q : Descriptor) (k attempt a : ℕ) : Prop where
  le : attempt ≤ a
  lt : a < 10
  accepted : ∀ b, attempt ≤ b → b ≤ a → refused q b = false
  few : ∀ b, attempt ≤ b → b < a → points.countP (inAttempt q b) < k
  enough : k ≤ points.countP (inAttempt q a)

theorem limit_iff {attempt : ℕ} :
    (DIMENSION_UPPER_LIMIT - DIMENSION_LOWER_LIMIT) / 2 ≤ (2 : ℚ) ^ (4 + attempt) ↔
      10 ≤ attempt := by
  constructor
  · intro hlimit
    refine Nat.le_of_not_lt fun hlt => ?_
    have hpow : (2 : ℚ) ^ (4 + attempt) ≤ 2 ^ 13 :=
      pow_le_pow_right₀ (by norm_num) (by omega)
    have hbound := hlimit.trans hpow
    norm_num [DIMENSION_UPPER_LIMIT, DIMENSION_LOWER_LIMIT] at hbound
  · intro hle
    by_contra hlimit
    have := attempt_lt hlimit
    omega

theorem length_filter_coords (cells : List SparseCell) (p : Descriptor → Bool) :
    (cells.filter fun c => p c.coords).length = (cells.map SparseCell.coords).countP p := by
  rw [List.countP_map, List.countP_eq_length_filter]
  rfl

theorem loadNeighbors_of_limit {cells : List SparseCell} {q : Descriptor} {k attempt : ℕ}
    (h : 10 ≤ attempt) : loadNeighbors cells q k attempt = .ok [] := by
  rw [loadNeighbors, if_pos (limit_iff.mpr h)]

theorem loadNeighbors_of_lt {cells : List SparseCell} {q : Descriptor} {k attempt : ℕ}
    (h : attempt < 10) :
    loadNeighbors cells q k attempt =
      if refused q attempt = true then .error .library
      else if (cells.map SparseCell.coords).countP (inAttempt q attempt) < k then
        loadNeighbors cells q k (attempt + 1)
      else .ok (cells.filter fun c => inAttempt q attempt c.coords) := by
  rw [loadNeighbors, if_neg (mt limit_iff.mp (by omega)), ← length_filter_coords]
  rfl

/-- `load_neighbors` answers the cells of the first box that has `k`. -/
theorem loadNeighbors_spec {cells : List SparseCell} {q : Descriptor} {k : ℕ} (hk : 1 ≤ k)
    (attempt : ℕ) (found : List SparseCell) :
    loadNeighbors cells q k attempt = .ok found ∧ k ≤ found.length ↔
      ∃ a, Taken (cells.map SparseCell.coords) q k attempt a ∧
        found = cells.filter fun c => inAttempt q a c.coords := by
  induction hn : 10 - attempt generalizing attempt with
  | zero =>
      rw [loadNeighbors_of_limit (by omega)]
      constructor
      · rintro ⟨h, hlen⟩
        cases h
        exact absurd hlen (by simp; omega)
      · rintro ⟨a, ha, -⟩
        have := ha.le
        have := ha.lt
        omega
  | succ n ih =>
      have hten : attempt < 10 := by omega
      rw [loadNeighbors_of_lt hten]
      split
      · next hrefused =>
        constructor
        · rintro ⟨h, -⟩
          cases h
        · rintro ⟨a, ha, -⟩
          have haccept := ha.accepted attempt le_rfl ha.le
          rw [hrefused] at haccept
          cases haccept
      · next hrefused =>
        have haccept : refused q attempt = false := by simpa using hrefused
        split
        · next hfew =>
          rw [ih (attempt + 1) (by omega)]
          constructor
          · rintro ⟨a, ha, rfl⟩
            have hle := ha.le
            refine ⟨a, ⟨by omega, ha.lt, fun b hb hba => ?_, fun b hb hba => ?_, ha.enough⟩, rfl⟩
            · rcases Nat.eq_or_lt_of_le hb with rfl | hlt
              · exact haccept
              · exact ha.accepted b hlt hba
            · rcases Nat.eq_or_lt_of_le hb with rfl | hlt
              · exact hfew
              · exact ha.few b hlt hba
          · rintro ⟨a, ha, rfl⟩
            have hle := ha.le
            have hne : attempt ≠ a := by
              rintro rfl
              have := ha.enough
              omega
            exact ⟨a, ⟨by omega, ha.lt, fun b hb => ha.accepted b (by omega),
              fun b hb => ha.few b (by omega), ha.enough⟩, rfl⟩
        · next hfew =>
          constructor
          · rintro ⟨h, -⟩
            refine ⟨attempt, ⟨le_rfl, hten, fun b hb hba => ?_, fun b hb hba => ?_,
              Nat.le_of_not_lt hfew⟩, (Except.ok.inj h).symm⟩
            · rwa [Nat.le_antisymm hba hb]
            · omega
          · rintro ⟨a, ha, rfl⟩
            obtain rfl : attempt = a := by
              rcases Nat.eq_or_lt_of_le ha.le with heq | hlt
              · exact heq
              · exact absurd (ha.few attempt le_rfl hlt) hfew
            refine ⟨rfl, ?_⟩
            rw [length_filter_coords]
            exact Nat.le_of_not_lt hfew

/-- The ids and distances of an answer. -/
def pairs (row : List (Int64 × ℚ × Int64)) : List (Int64 × ℚ) := row.map fun p => (p.1, p.2.1)

section

variable [StdPartialSort] {cells : List SparseCell} {q : Descriptor} {k : ℕ}

/-- The answer is a partial sort of the cells in the box. -/
theorem searchOne_of_taken (hk : 1 ≤ k) {a : ℕ}
    (ha : Taken (cells.map SparseCell.coords) q k 0 a) :
    ∃ ys, IsPartialSort (fun c => distance q c.coords) k
        (cells.filter fun c => inAttempt q a c.coords) ys ∧
      searchOne cells k q = .ret (ys.map fun c => (c.id, distance q c.coords, c.label)) () := by
  obtain ⟨hload, hlen⟩ := (loadNeighbors_spec hk 0 _).mpr ⟨a, ha, rfl⟩
  generalize cells.filter (fun c => inAttempt q a c.coords) = found at hload hlen
  let d := found.map fun c => distance q c.coords
  let cell := fun i => found.getD i ⟨[], 0, 0⟩
  have hd (i : ℕ) (hi : i < found.length) : d.getD i 0 = distance q (cell i).coords := by
    simp [d, cell, hi]
  have hsort := StdPartialSort.isPartialSort d k (by simpa [d] using hlen)
  have hcells := hsort.map (f := cell) (g := fun c => distance q c.coords) fun i hi => by
    rw [hd i (by simpa [d] using hi)]
  have hlend : d.length = found.length := by simp [d]
  rw [hlend, map_range_getD] at hcells
  refine ⟨_, hcells, ?_⟩
  have hzero : k ≠ 0 := by omega
  simp only [searchOne, if_neg hzero, hload, if_neg (Nat.not_lt.mpr hlen), List.map_map]
  congr 1
  refine List.map_congr_left fun i hi => ?_
  have hlt : i < found.length := by
    simpa [d] using hsort.subset hi
  have hdi := hd i hlt
  simp only [d] at hdi
  simp only [Function.comp_apply, hdi, cell]

theorem taken_of_searchOne (hk : 1 ≤ k) {row : List (Int64 × ℚ × Int64)}
    (h : searchOne cells k q = .ret row ()) :
    ∃ a, Taken (cells.map SparseCell.coords) q k 0 a := by
  have hzero : k ≠ 0 := by omega
  simp only [searchOne, if_neg hzero] at h
  cases hload : loadNeighbors cells q k 0 with
  | error e => rw [hload] at h; cases h
  | ok found =>
      rw [hload] at h
      simp only at h
      split at h
      · cases h
      · next hlen =>
        obtain ⟨a, ha, -⟩ := (loadNeighbors_spec hk 0 found).mp ⟨hload, Nat.le_of_not_lt hlen⟩
        exact ⟨a, ha⟩

end

/-! ### Both searches -/

theorem map_pair_cellsFrom {q : Descriptor} {xs : List Descriptor} {labels : List Int64}
    (h : labels.length = xs.length) (id : ℕ) :
    ((cellsFrom id xs labels).map fun c => (c.id, distance q c.coords)) = scanFrom q id xs := by
  induction xs generalizing id labels with
  | nil => cases labels <;> rfl
  | cons x xs ih =>
      cases labels with
      | nil => cases h
      | cons label labels => simp [cellsFrom, scanFrom, ih (Nat.succ.inj h)]

/-- The cell with the dimensions and the total is in no box. -/
theorem metadata_outside {q : Descriptor} {dim : ℕ} (hdim : 1 ≤ dim) (hq : q.length = dim)
    (attempt : ℕ) : inAttempt q attempt (metadataCoords dim) = false := by
  obtain ⟨dim, rfl⟩ : ∃ d, dim = d + 1 := ⟨dim - 1, by omega⟩
  cases q with
  | nil => cases hq
  | cons c q =>
      have hupper (u : ℚ) : ¬ DIMENSION_UPPER_LIMIT + 1 ≤
          (if u < DIMENSION_UPPER_LIMIT then u else DIMENSION_UPPER_LIMIT) := by
        intro hle
        split at hle <;> linarith
      have hmeta : metadataCoords (dim + 1) =
          (DIMENSION_UPPER_LIMIT + 1) :: List.replicate dim DIMENSION_UPPER_LIMIT := rfl
      rw [hmeta, inAttempt, subarray, List.map_cons, inBox, List.zip_cons_cons, List.all_cons]
      simp [hupper]

namespace Taken

variable {points points' : List Descriptor} {q : Descriptor} {k attempt a : ℕ}

theorem congr (h : ∀ b, points.countP (inAttempt q b) = points'.countP (inAttempt q b)) :
    Taken points q k attempt a ↔ Taken points' q k attempt a := by
  constructor
  · intro ha
    exact ⟨ha.le, ha.lt, ha.accepted, fun b hb hba => h b ▸ ha.few b hb hba, h a ▸ ha.enough⟩
  · intro ha
    exact ⟨ha.le, ha.lt, ha.accepted, fun b hb hba => h b ▸ ha.few b hb hba, h a ▸ ha.enough⟩

/-- Only one box is taken. -/
theorem unique {a' : ℕ} (ha : Taken points q k attempt a) (ha' : Taken points q k attempt a') :
    a = a' := by
  rcases Nat.lt_trichotomy a a' with hlt | heq | hlt
  · have := ha'.few a ha.le hlt
    have := ha.enough
    omega
  · exact heq
  · have := ha.few a' ha'.le hlt
    have := ha'.enough
    omega

end Taken

/-- A box is taken, and for each descriptor outside of it, `k` descriptors in it are at least
as near. -/
structure Settled (xs : List Descriptor) (q : Descriptor) (k a : ℕ) : Prop where
  taken : Taken xs q k 0 a
  near : ∀ x ∈ xs, inAttempt q a x = false →
    k ≤ (xs.filter (inAttempt q a)).countP fun y => distance q y ≤ distance q x

end Sparse

section

variable [StdPartialSort]

/-- The two searches end, and their answers are the `k` nearest of the same data, with their
distances. -/
def SameSearch (s : DenseSet) (t : SparseSet) (q : Descriptor) (k : ℕ) : Prop :=
  ∃ row row', Dense.search [q] k 0 s = .ret [row] s ∧ Sparse.searchOne t.cells k q = .ret row' () ∧
    IsNearest q k s.buffer row ∧ IsNearest q k s.buffer (Sparse.pairs row')

variable {s : DenseSet} {t : SparseSet} {dim : ℕ} {xs : List Descriptor} {labels : List Int64}
  {q : Descriptor} {k : ℕ}

omit [StdPartialSort] in
/-- The cell of the metadata is in no box. -/
theorem Sparse.Holds.countP_inAttempt (ht : Sparse.Holds t dim xs labels) (hq : q.length = dim)
    (b : ℕ) :
    (t.cells.map SparseCell.coords).countP (Sparse.inAttempt q b) =
      xs.countP (Sparse.inAttempt q b) := by
  obtain ⟨metadata, hmeta, hcells⟩ := ht.cells
  have houtside : Sparse.inAttempt q b metadata.coords = false := by
    rw [hmeta]
    exact Sparse.metadata_outside ht.dim_pos hq b
  rw [(hcells.map SparseCell.coords).countP_eq, List.map_cons,
    Sparse.map_coords_cellsFrom ht.length 0, List.countP_cons, houtside]
  rfl

/-- The search in the boxes answers the `k` nearest exactly if the box that is taken is
settled. -/
theorem Sparse.searchOne_isNearest_iff (ht : Sparse.Holds t dim xs labels) (hq : q.length = dim)
    (hk : 1 ≤ k) :
    (∃ row, Sparse.searchOne t.cells k q = .ret row () ∧ IsNearest q k xs (Sparse.pairs row)) ↔
      ∃ a, Sparse.Settled xs q k a := by
  obtain ⟨metadata, hmeta, hcells⟩ := ht.cells
  have hcoords := Sparse.map_coords_cellsFrom ht.length 0
  have hpairs : _ = scan q xs := Sparse.map_pair_cellsFrom ht.length 0
  generalize Sparse.cellsFrom 0 xs labels = cells at hcells hcoords hpairs
  have houtside (b : ℕ) : Sparse.inAttempt q b metadata.coords = false := by
    rw [hmeta]
    exact Sparse.metadata_outside ht.dim_pos hq b
  have hcount (b : ℕ) := ht.countP_inAttempt hq b
  have hfound (a : ℕ) : (t.cells.filter fun c => Sparse.inAttempt q a c.coords).Perm
      (cells.filter fun c => Sparse.inAttempt q a c.coords) := by
    have hperm := hcells.filter fun c => Sparse.inAttempt q a c.coords
    rwa [List.filter_cons, if_neg (by simp [houtside])] at hperm
  -- the answer of the box of an attempt, compared with the exact scan
  have hexact {a : ℕ} (ha : Sparse.Taken xs q k 0 a) {ys : List SparseCell}
      (hys : IsPartialSort (fun c => distance q c.coords) k
        (t.cells.filter fun c => Sparse.inAttempt q a c.coords) ys) :
      IsNearest q k xs (ys.map fun c => (c.id, distance q c.coords)) ↔ Sparse.Settled xs q k a := by
    have hpart := hys.of_perm (hfound a)
    have hiff := hpart.of_filter_iff (g := Prod.snd)
      (f := fun c : SparseCell => (c.id, distance q c.coords))
      fun c => rfl
    rw [IsNearest, ← hpairs, hiff]
    have hbound (x : Descriptor) :
        (∀ y ∈ ys, distance q y.coords ≤ distance q x) ↔
          k ≤ (xs.filter (Sparse.inAttempt q a)).countP fun y => distance q y ≤ distance q x := by
      rw [hpart.le_iff_countP, ← hcoords, List.filter_map, List.countP_map]
      rfl
    constructor
    · intro h
      refine ⟨ha, fun x hx hout => (hbound x).mp ?_⟩
      rw [← hcoords] at hx
      obtain ⟨c, hc, rfl⟩ := List.mem_map.mp hx
      exact h c hc hout
    · intro h c hc hout
      have hx : c.coords ∈ xs := hcoords ▸ List.mem_map_of_mem hc
      exact (hbound c.coords).mpr (h.near c.coords hx hout)
  constructor
  · rintro ⟨row', hsparse, hnear⟩
    obtain ⟨a, ha⟩ := Sparse.taken_of_searchOne hk hsparse
    obtain ⟨ys, hys, hans⟩ := Sparse.searchOne_of_taken hk ha
    rw [hans] at hsparse
    cases hsparse
    rw [Sparse.pairs, List.map_map] at hnear
    exact ⟨a, (hexact ((Sparse.Taken.congr hcount).mp ha) hys).mp hnear⟩
  · rintro ⟨a, ha⟩
    obtain ⟨ys, hys, hans⟩ :=
      Sparse.searchOne_of_taken hk ((Sparse.Taken.congr hcount).mpr ha.taken)
    refine ⟨_, hans, ?_⟩
    rw [Sparse.pairs, List.map_map]
    exact (hexact ha.taken hys).mpr ha

/-- **Sparse search.** What the search in the boxes answers is what the exact scan answers, up
to the order of equal distances, exactly if the box that is taken has `k` descriptors at least
as near as each one outside. -/
theorem sparse_search_iff (hs : Dense.Holds s xs) (ht : Sparse.Holds t dim xs labels)
    (hq : q.length = dim) (hk : 1 ≤ k) (hn : k ≤ xs.length) :
    SameSearch s t q k ↔ ∃ a, Sparse.Settled xs q k a := by
  constructor
  · rintro ⟨row, row', -, hsparse, -, hnear⟩
    rw [hs.buffer] at hnear
    exact (Sparse.searchOne_isNearest_iff ht hq hk).mp ⟨row', hsparse, hnear⟩
  · intro h
    obtain ⟨row', hsparse, hnear⟩ := (Sparse.searchOne_isNearest_iff ht hq hk).mpr h
    obtain ⟨row, hrow, hexact⟩ := Dense.search_spec hs hn 0 (q := q)
    exact ⟨row, row', hrow, hsparse, by rwa [hs.buffer], by rwa [hs.buffer]⟩

end

/-! ### Two descriptors -/

/-- A dense and a sparse set to which two descriptors have been added. -/
@[reducible] def denseOf (xs : List Descriptor) : DenseSet :=
  Dense.added (Dense.create 2 ⟨[], 0⟩) xs none

@[reducible] def sparseOf (xs : List Descriptor) : SparseSet :=
  Sparse.added (Sparse.create 2) xs none

theorem denseOf_holds (xs : List Descriptor) : Dense.Holds (denseOf xs) xs :=
  ⟨rfl, copyBehind_length _ [] xs, Nat.zero_add _⟩

theorem sparseOf_holds (xs : List Descriptor) (h : Sparse.metadataCoords 2 ∉ xs) :
    Sparse.Holds (sparseOf xs) 2 xs (List.replicate xs.length (-1)) := by
  have hnew : ∀ x ∈ xs, x ∉ ([] : List Descriptor) ∧ x ≠ Sparse.metadataCoords 2 := by
    rintro x hx
    refine ⟨by simp, ?_⟩
    rintro rfl
    exact h hx
  exact (Sparse.Holds.create (by decide)).added rfl rfl (by simp) hnew

/-- The two nearest are in the first box. -/
theorem sparse_search_near :
    let _ := insertionPartialSort
    SameSearch (denseOf [[1, 1], [3, 0], [40, 0]]) (sparseOf [[1, 1], [3, 0], [40, 0]]) [0, 0]
      2 := by
  let _ := insertionPartialSort
  have hsparse := sparseOf_holds [[1, 1], [3, 0], [40, 0]] (by decide +kernel)
  refine (sparse_search_iff (denseOf_holds _) hsparse rfl (by decide) (by decide)).mpr
    ⟨0, ⟨le_rfl, by decide, fun b _ hb => ?_, fun b _ hb => ?_, by decide +kernel⟩, ?_⟩
  · obtain rfl := Nat.le_zero.mp hb
    decide +kernel
  · omega
  · decide +kernel

/-- **A corner of the box.** The nearest of `(16, 16)` and `(17, 0)` to the origin is outside of
the first box, which has a point in its corner. -/
theorem corner_point :
    let _ := insertionPartialSort
    Dense.add "" [[16, 16], [17, 0]] none 0 (Dense.create 2 ⟨[], 0⟩) =
        .ret 0 (denseOf [[16, 16], [17, 0]]) ∧
      Sparse.add [[16, 16], [17, 0]] none 0 (Sparse.create 2) =
        .ret 0 (sparseOf [[16, 16], [17, 0]]) ∧
      ¬ SameSearch (denseOf [[16, 16], [17, 0]]) (sparseOf [[16, 16], [17, 0]]) [0, 0] 1 := by
  let _ := insertionPartialSort
  refine ⟨by rw [Dense.add_apply]; rfl, ?_, ?_⟩
  · rw [Sparse.add_apply, if_pos (by decide +kernel)]
    rfl
  rintro ⟨row, row', -, hsparse, -, hnear⟩
  have hload : Sparse.loadNeighbors (sparseOf [[16, 16], [17, 0]]).cells [0, 0] 1 0 =
      .ok [⟨[16, 16], 0, -1⟩] := by
    rw [Sparse.loadNeighbors_of_lt (by decide), if_neg (by decide +kernel),
      if_neg (by decide +kernel)]
    exact congrArg Except.ok (by decide +kernel)
  have hans : Sparse.searchOne (sparseOf [[16, 16], [17, 0]]).cells 1 [0, 0] =
      .ret [(0, 512, -1)] () := by
    rw [Sparse.searchOne, if_neg (by decide), hload]
    exact congrArg (Outcome.ret · ()) (by decide +kernel)
  rw [hans] at hsparse
  cases hsparse
  have hle := (IsPartialSort.le_iff_countP hnear 289).mpr (by decide +kernel)
  exact absurd (hle (0, 512) (by decide)) (by decide +kernel)

end VCL

end Vdms
