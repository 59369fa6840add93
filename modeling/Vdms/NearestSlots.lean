import Vdms.SparseSearch

/-!
# The Slots of a Search

`search` of a TileDB set has `k` slots for each query in one buffer. A set may have fewer than
`k` descriptors; the slots that are left are documented to be -1. The dense class sorts the
first `k` of its candidates all the same. The sparse one has the loop for the slots that are
left, but sorts the first `k` before it.

## Main results

* `search_fills_iff`: when either class fills the slots as documented.
-/

namespace Vdms

namespace VCL

open Imp Imp.Prog

/-- The slots of a query: the nearest descriptors, as many as there are up to `k`, and -1. -/
def IsTopK (q : Descriptor) (k : ℕ) (xs : List Descriptor) (slots : List (Int64 × ℚ)) : Prop :=
  ∃ near, IsNearest q (min k xs.length) xs near ∧
    slots = near ++ List.replicate (k - xs.length) (-1, -1)

/-- The slots from `i * k` on. -/
def slotsOf {α : Type} (k i : ℕ) (out : List α) : List α := (out.drop (i * k)).take k

/-- The buffer has the slots of all queries, one query after the other. -/
def FillsTopK (query : List Descriptor) (k : ℕ) (xs : List Descriptor)
    (out : List (Int64 × ℚ)) : Prop :=
  out.length = query.length * k ∧
    ∀ i q, query[i]? = some q → IsTopK q k xs (slotsOf k i out)

section Slots

variable {α : Type} {rows : List (List α)} {row : List α} {k i : ℕ}

/-- Rows of the same length have that many slots each in the list of all. -/
theorem length_flatten_rows (h : ∀ row ∈ rows, row.length = k) :
    rows.flatten.length = rows.length * k := by
  induction rows with
  | nil => simp
  | cons row rows ih =>
    rw [List.flatten_cons, List.length_append, h row List.mem_cons_self,
      ih fun r hr => h r (List.mem_cons_of_mem _ hr), List.length_cons, Nat.succ_mul, Nat.add_comm]

/-- The rows lie one after the other. -/
theorem slotsOf_flatten (h : ∀ row ∈ rows, row.length = k) (hi : rows[i]? = some row) :
    slotsOf k i rows.flatten = row := by
  induction rows generalizing i with
  | nil => simp at hi
  | cons first rows ih =>
    have hfirst := h first List.mem_cons_self
    cases i with
    | zero =>
      obtain rfl : first = row := by simpa using hi
      rw [slotsOf, Nat.zero_mul, List.drop_zero, List.flatten_cons, ← hfirst, List.take_left]
    | succ i =>
      have hdrop : (first ++ rows.flatten).drop ((i + 1) * k) = rows.flatten.drop (i * k) := by
        rw [Nat.succ_mul, Nat.add_comm, ← List.drop_drop, ← hfirst, List.drop_left]
      rw [slotsOf, List.flatten_cons, hdrop]
      exact ih (fun r hr => h r (List.mem_cons_of_mem _ hr)) (by simpa using hi)

/-- The slots of rows, one for each query. -/
theorem fillsTopK_iff {query xs : List Descriptor} {rows : List (List (Int64 × ℚ))}
    (h : ∀ row ∈ rows, row.length = k) (hlength : query.length = rows.length) :
    FillsTopK query k xs rows.flatten ↔
      List.Forall₂ (fun q row => IsTopK q k xs row) query rows := by
  rw [List.forall₂_iff_get]
  constructor
  · rintro ⟨-, hslots⟩
    refine ⟨hlength, fun i hi hi' => ?_⟩
    have hslot := hslots i _ (List.getElem?_eq_getElem hi)
    rwa [slotsOf_flatten h (List.getElem?_eq_getElem hi')] at hslot
  · rintro ⟨-, hrows⟩
    refine ⟨by rw [length_flatten_rows h, hlength], fun i q hq => ?_⟩
    obtain ⟨hi, rfl⟩ := List.getElem?_eq_some_iff.1 hq
    rw [slotsOf_flatten h (List.getElem?_eq_getElem (hlength ▸ hi))]
    exact hrows i hi (hlength ▸ hi)

/-- There are rows with two properties exactly if each query has a row with both. -/
theorem exists_rows_iff {β γ : Type} {R S : β → γ → Prop} {query : List β} :
    (∃ rows, List.Forall₂ R query rows ∧ List.Forall₂ S query rows) ↔
      ∀ q ∈ query, ∃ row, R q row ∧ S q row := by
  induction query with
  | nil => exact iff_of_true ⟨[], .nil, .nil⟩ (by simp)
  | cons q query ih =>
    rw [List.forall_mem_cons, ← ih]
    constructor
    · rintro ⟨_, hleft, hright⟩
      cases hleft with
      | cons hrow hrows =>
        cases hright with
        | cons hrow' hrows' => exact ⟨⟨_, hrow, hrow'⟩, _, hrows, hrows'⟩
    · rintro ⟨⟨row, hrow, hrow'⟩, rows, hrows, hrows'⟩
      exact ⟨row :: rows, .cons hrow hrows, .cons hrow' hrows'⟩

/-- If the set has enough descriptors, the slots are those of the nearest. -/
theorem isTopK_of_le {q : Descriptor} {xs : List Descriptor} {slots : List (Int64 × ℚ)}
    (h : k ≤ xs.length) : IsTopK q k xs slots ↔ IsNearest q k xs slots := by
  rw [IsTopK, Nat.min_eq_left h, Nat.sub_eq_zero_of_le h]
  simp

end Slots

section

variable [StdPartialSort]

/-! ### The dense class -/

namespace Dense

/-- The set holds the descriptors, once its buffer has been loaded. -/
def Shows (s : DenseSet) (xs : List Descriptor) : Prop :=
  Holds s xs ∨
    s.flag_buffer_updated = false ∧ ∃ t, loadBuffer 0 s = .ret () t ∧ Holds t xs

/-- `search` ends, and fills the slots. -/
def Fills (s : DenseSet) (query : List Descriptor) (k : ℕ) (xs : List Descriptor) : Prop :=
  ∃ rows t, search query k 0 s = .ret rows t ∧ FillsTopK query k xs rows.flatten

variable {s : DenseSet} {xs query : List Descriptor} {k : ℕ}

/-- The search of a set with its buffer loaded. -/
theorem search_of_holds (hs : Holds s xs) :
    search query k 0 s =
      if query ≠ [] ∧ xs.length < k then .stuck
      else
        .ret (query.map fun q =>
          (StdPartialSort.sort (distances s q) k).map fun i =>
            (Int64.ofNat i, (distances s q).getD i 0)) s := by
  rw [← hs.n_total]
  by_cases h : query ≠ [] ∧ s.n_total < k
  · rw [if_pos h]
    simp [search, when, hs.updated, h]
  · rw [if_neg h]
    rw [ne_eq] at h
    simp [search, when, hs.updated, h]

/-- The dense class fills the slots exactly if nothing is asked or the set has enough. -/
theorem fills_of_holds (hs : Holds s xs) : Fills s query k xs ↔ query = [] ∨ k ≤ xs.length := by
  rw [Fills, search_of_holds hs]
  by_cases hlt : query ≠ [] ∧ xs.length < k
  · rw [if_pos hlt]
    refine iff_of_false ?_ ?_
    · rintro ⟨rows, t, hstuck, -⟩
      cases hstuck
    · rintro (rfl | hle)
      · exact hlt.1 rfl
      · omega
  · rw [if_neg hlt]
    have hcases : query = [] ∨ k ≤ xs.length := by
      by_cases hq : query = []
      · exact .inl hq
      · exact .inr (Nat.not_lt.mp fun h => hlt ⟨hq, h⟩)
    refine iff_of_true ⟨_, s, rfl, ?_⟩ hcases
    rcases hcases with rfl | hle
    · exact ⟨by simp, fun i q hq => by simp at hq⟩
    · have hrow : ∀ q, IsNearest q k xs ((StdPartialSort.sort (distances s q) k).map fun i =>
          (Int64.ofNat i, (distances s q).getD i 0)) := fun q => row_isNearest hs hle
      refine (fillsTopK_iff (fun row hmem => ?_) (by simp)).2 ?_
      · obtain ⟨q, -, rfl⟩ := List.mem_map.1 hmem
        exact (hrow q).length
      · rw [List.forall₂_map_right_iff]
        exact List.forall₂_same.2 fun q _ => (isTopK_of_le hle).2 (hrow q)

/-- Loading the buffer does not change what is asked. -/
theorem fills_iff (hs : Shows s xs) : Fills s query k xs ↔ query = [] ∨ k ≤ xs.length := by
  rcases hs with hs | ⟨hflag, t, hload, ht⟩
  · exact fills_of_holds hs
  · have hsearch : search query k 0 s = search query k 0 t := by
      rw [search]
      simp [when, hflag, ht.updated, hload]
    rw [Fills, hsearch]
    exact fills_of_holds ht

end Dense

/-! ### The sparse class -/

namespace Sparse

/-- `TDBSparseDescriptorSet::search`, query by query. -/
def search (cells : List SparseCell) (k : ℕ) :
    List Descriptor → Outcome Unit SetError (List (List (Int64 × ℚ × Int64)))
  | [] => .ret [] ()
  | q :: query =>
    (searchOne cells k q).andThen fun row _ =>
      (search cells k query).andThen fun rows _ => .ret (row :: rows) ()

/-- `search` ends, and fills the slots. -/
def Fills (t : SparseSet) (query : List Descriptor) (k : ℕ) (xs : List Descriptor) : Prop :=
  ∃ rows, search t.cells k query = .ret rows () ∧ FillsTopK query k xs (rows.map pairs).flatten

variable {cells : List SparseCell} {t : SparseSet} {dim k : ℕ} {xs query : List Descriptor}
  {q : Descriptor} {labels : List Int64} {rows : List (List (Int64 × ℚ × Int64))}
  {row : List (Int64 × ℚ × Int64)}

/-- The sparse search of several queries is the search of each. -/
theorem search_eq_ret :
    search cells k query = .ret rows () ↔
      List.Forall₂ (fun q row => searchOne cells k q = .ret row ()) query rows := by
  induction query generalizing rows with
  | nil => cases rows <;> simp [search]
  | cons q query ih =>
    rw [search]
    cases hone : searchOne cells k q with
    | stuck => cases rows <;> simp [hone]
    | throw e u => cases rows <;> simp [hone]
    | ret row u =>
      rw [Outcome.andThen_ret]
      cases hrest : search cells k query with
      | stuck =>
        cases rows with
        | nil => simp
        | cons row' rows' => simp [hone, ← ih, hrest]
      | throw e u =>
        cases rows with
        | nil => simp
        | cons row' rows' => simp [hone, ← ih, hrest]
      | ret rest u =>
        cases rows with
        | nil => simp
        | cons row' rows' => simp [hone, ← ih, hrest]

/-- A row has all of its slots, and the set as many descriptors. -/
theorem length_row (hk : 1 ≤ k) (h : searchOne cells k q = .ret row ()) : row.length = k := by
  obtain ⟨a, ha⟩ := taken_of_searchOne hk h
  obtain ⟨ys, hys, hans⟩ := searchOne_of_taken hk ha
  rw [hans] at h
  cases h
  rw [List.length_map, hys.length]

omit [StdPartialSort] in
/-- A set with a settled box has enough descriptors. -/
theorem Settled.le_length {a : ℕ} (h : Settled xs q k a) : k ≤ xs.length :=
  h.taken.enough.trans List.countP_le_length

/-- The sparse search answers each query with as many slots as are asked for. -/
theorem length_rows (hk : 1 ≤ k)
    (h : List.Forall₂ (fun q row => searchOne cells k q = .ret row ()) query rows) :
    ∀ slots ∈ rows.map pairs, slots.length = k := by
  induction h with
  | nil => simp
  | cons hrow _ ih =>
    intro slots hslots
    rcases List.mem_cons.1 hslots with rfl | hslots
    · rw [pairs, List.length_map, length_row hk hrow]
    · exact ih slots hslots

/-- The slots of one query. -/
theorem searchOne_isTopK_iff (ht : Holds t dim xs labels) (hq : q.length = dim) (hk : 1 ≤ k) :
    (∃ row, searchOne t.cells k q = .ret row () ∧ IsTopK q k xs (pairs row)) ↔
      ∃ a, Settled xs q k a := by
  rw [← searchOne_isNearest_iff ht hq hk]
  constructor
  · rintro ⟨row, hrow, htop⟩
    obtain ⟨a, ha⟩ := taken_of_searchOne hk hrow
    have hle : k ≤ xs.length :=
      (ha.enough.trans_eq (ht.countP_inAttempt hq a)).trans List.countP_le_length
    exact ⟨row, hrow, (isTopK_of_le hle).1 htop⟩
  · rintro ⟨row, hrow, hnear⟩
    obtain ⟨a, ha⟩ := (searchOne_isNearest_iff ht hq hk).1 ⟨row, hrow, hnear⟩
    exact ⟨row, hrow, (isTopK_of_le ha.le_length).2 hnear⟩

/-- The slots of all queries. -/
theorem fills_iff (ht : Holds t dim xs labels) (hquery : ∀ q ∈ query, q.length = dim)
    (hk : 1 ≤ k) : Fills t query k xs ↔ ∀ q ∈ query, ∃ a, Settled xs q k a := by
  have hrows : Fills t query k xs ↔ ∃ rows,
      List.Forall₂ (fun q row => searchOne t.cells k q = .ret row ()) query rows ∧
        List.Forall₂ (fun q row => IsTopK q k xs (pairs row)) query rows := by
    refine exists_congr fun rows => ?_
    rw [search_eq_ret]
    refine and_congr_right fun hsearch => ?_
    rw [fillsTopK_iff (length_rows hk hsearch) (by rw [List.length_map, hsearch.length_eq]),
      List.forall₂_map_right_iff]
  rw [hrows, exists_rows_iff]
  exact forall₂_congr fun q hq => searchOne_isTopK_iff ht (hquery q hq) hk

end Sparse

end

end VCL

end Vdms
