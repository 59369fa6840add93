import Vdms.ConstraintTranslation
import Vdms.JsonObjects
import Vdms.QueryHandlerNeo4j
import Mathlib.Data.List.Forall2
import Mathlib.Data.List.TakeWhile

/-!
# The Rows of a Statement

`results_to_json` has an array for 32 names of fields and a buffer for strings of 4095 bytes,
but it tells the driver that the buffer has twice the size, and it does not look at the number
of fields. A string ends at its first zero, and values that are neither truth values, numbers,
strings nor null are left out.

## Main results

* `BackendNeo4j.rows_complete_iff`: the results for which nothing is written out of bounds, and
  those that are complete in JSON.
-/

namespace Vdms

namespace BackendNeo4j

/-- The value in JSON. There is none for bytes, and for what `val_check` does not know. -/
def completeJson : Neo4jValue → Option Json
  | .bool b => some (.bool b)
  | .string s => some (.string s)
  | .null => some .null
  | .float x => some (.real x)
  | .int z => some (.int z)
  | .bytes _ | .unknown => none

/-- Every field of the row is a member of the object, with its value. -/
def RowComplete (fields : List (String × Neo4jValue)) (j : Json) : Prop :=
  ∃ ms, j = .object ms ∧ ∀ f ∈ fields, ∃ x, completeJson f.2 = some x ∧ ms.lookup f.1 = some x

/-- The fields of a row, with their names. -/
def named (results : ResultStream) (row : List Neo4jValue) : List (String × Neo4jValue) :=
  results.fieldnames.zip row

/-- There is one JSON row for each row, and each is complete. -/
def Complete (results : ResultStream) : Prop :=
  ∃ js, resultsToJson results = some (.object [("metadata_res", Json.appended js)]) ∧
    List.Forall₂ (fun row j => RowComplete (named results row) j) results.rows js

/-- A string fits into the buffer. -/
def Fits : Neo4jValue → Prop
  | .string s => s.utf8ByteSize < 4096
  | _ => True

/-- A value that JSON has, where a string has no zero. -/
def Whole : Neo4jValue → Prop
  | .string s => ∀ c ∈ s.toList, c.toNat ≠ 0
  | .bytes _ | .unknown => False
  | _ => True

/-- There is room for the fields and for the strings. -/
structure InBounds (results : ResultStream) : Prop where
  fields : results.fieldnames.length ≤ 32
  strings : ∀ row ∈ results.rows, ∀ f ∈ named results row, Fits f.2

/-- Nothing is left out: rows have a field, values are whole, and fields of one name are alike. -/
structure KeepsAll (results : ResultStream) : Prop where
  fields : ∀ row ∈ results.rows, named results row ≠ []
  whole : ∀ row ∈ results.rows, ∀ f ∈ named results row, Whole f.2
  alike : ∀ row ∈ results.rows, ∀ f ∈ named results row, ∀ f' ∈ named results row, f.1 = f'.1 →
    completeJson f.2 = completeJson f'.2

/-! ### A value -/

theorem fieldJson_isSome_iff {v : Neo4jValue} : (fieldJson v).isSome = true ↔ Fits v := by
  cases v with
  | string s =>
      by_cases hs : s.utf8ByteSize < 4096
      · simp [fieldJson, Fits, hs]
      · simp [fieldJson, Fits, hs]
  | _ => simp [fieldJson, Fits]

theorem cString_eq_iff {s : String} : cString s = s ↔ ∀ c ∈ s.toList, c.toNat ≠ 0 := by
  constructor
  · intro h c hc
    have hlist : s.toList.takeWhile (fun c => c.toNat ≠ 0) = s.toList := by
      have htoList := congrArg String.toList h
      rwa [cString, String.toList_ofList] at htoList
    rw [← hlist] at hc
    simpa using List.mem_takeWhile_imp hc
  · intro h
    have hlist : s.toList.takeWhile (fun c => c.toNat ≠ 0) = s.toList :=
      List.takeWhile_eq_self_iff.2 fun c hc => by simpa using h c hc
    rw [cString, hlist, String.ofList_toList]

/-- Of a whole value that fits, the value is set. -/
theorem fieldJson_whole {v : Neo4jValue} (hfits : Fits v) (hwhole : Whole v) :
    ∃ x, completeJson v = some x ∧ fieldJson v = some (some x) := by
  cases v with
  | string s =>
      have hs : s.utf8ByteSize < 4096 := hfits
      exact ⟨_, rfl, by rw [fieldJson, if_pos hs, cString_eq_iff.2 hwhole]⟩
  | bytes bs => cases hwhole
  | unknown => cases hwhole
  | _ => exact ⟨_, rfl, rfl⟩

/-- What is set is the value of a whole field. -/
theorem whole_of_fieldJson {v v' : Neo4jValue} {x : Json} (hv : completeJson v = some x)
    (hv' : fieldJson v' = some (some x)) : Whole v := by
  cases v with
  | string s =>
      cases hv
      cases v' with
      | string s' =>
          rw [fieldJson] at hv'
          split at hv'
          · have hs : cString s' = s := by simpa using hv'
            intro c hc
            rw [← hs, cString, String.toList_ofList] at hc
            simpa using List.mem_takeWhile_imp hc
          · cases hv'
      | _ => simp [fieldJson] at hv'
  | bytes bs => cases hv
  | unknown => cases hv
  | _ => trivial

/-! ### A row -/

/-- The conditions on a row. -/
structure RowKept (fields : List (String × Neo4jValue)) : Prop where
  whole : ∀ f ∈ fields, Whole f.2
  alike : ∀ f ∈ fields, ∀ f' ∈ fields, f.1 = f'.1 → completeJson f.2 = completeJson f'.2

theorem rowJson_isSome_iff {fields : List (String × Neo4jValue)} {ms : List (String × Json)} :
    (rowJson fields ms).isSome = true ↔ ∀ f ∈ fields, Fits f.2 := by
  induction fields generalizing ms with
  | nil => simp [rowJson]
  | cons f rest ih =>
      rw [List.forall_mem_cons, ← fieldJson_isSome_iff]
      rcases hf : fieldJson f.2 with _ | (_ | x)
      · simp [rowJson, hf]
      · simp [rowJson, hf, ih]
      · simp [rowJson, hf, ih]

/-- A member comes from a field of its name. Induction on the fields. -/
theorem rowJson_origin {fields : List (String × Neo4jValue)} {ms ms' : List (String × Json)}
    {k : String} {x : Json} (h : rowJson fields ms = some ms') (hx : ms'.lookup k = some x) :
    ms.lookup k = some x ∨ ∃ f ∈ fields, f.1 = k ∧ fieldJson f.2 = some (some x) := by
  induction fields generalizing ms with
  | nil =>
      cases h
      exact .inl hx
  | cons f rest ih =>
      rcases hf : fieldJson f.2 with _ | (_ | y)
      · simp [rowJson, hf] at h
      · have hrest : rowJson rest ms = some ms' := by simpa [rowJson, hf] using h
        rcases ih hrest with hms | ⟨f', hf', hname, hset⟩
        · exact .inl hms
        · exact .inr ⟨f', List.mem_cons_of_mem _ hf', hname, hset⟩
      · have hrest : rowJson rest (Json.insertMember f.1 y ms) = some ms' := by
          simpa [rowJson, hf] using h
        rcases ih hrest with hms | ⟨f', hf', hname, hset⟩
        · rw [insertMember_lookup] at hms
          split at hms
          · next hk =>
              cases hms
              exact .inr ⟨f, List.mem_cons_self, hk.symm, hf⟩
          · exact .inl hms
        · exact .inr ⟨f', List.mem_cons_of_mem _ hf', hname, hset⟩

/-- A member stays. -/
theorem rowJson_keeps {fields : List (String × Neo4jValue)} {ms ms' : List (String × Json)}
    {k : String} (h : rowJson fields ms = some ms') (hk : (ms.lookup k).isSome = true) :
    (ms'.lookup k).isSome = true := by
  induction fields generalizing ms with
  | nil =>
      cases h
      exact hk
  | cons f rest ih =>
      rcases hf : fieldJson f.2 with _ | (_ | y)
      · simp [rowJson, hf] at h
      · exact ih (by simpa [rowJson, hf] using h) hk
      · have hrest : rowJson rest (Json.insertMember f.1 y ms) = some ms' := by
          simpa [rowJson, hf] using h
        refine ih hrest ?_
        rw [insertMember_lookup]
        split
        · rfl
        · exact hk

/-- A whole field has a member. -/
theorem rowJson_sets {fields : List (String × Neo4jValue)} {ms ms' : List (String × Json)}
    (h : rowJson fields ms = some ms') {f : String × Neo4jValue} (hf : f ∈ fields)
    (hwhole : Whole f.2) : (ms'.lookup f.1).isSome = true := by
  have hfits : Fits f.2 := rowJson_isSome_iff.1 (by rw [h]; rfl) f hf
  induction fields generalizing ms with
  | nil => cases hf
  | cons f' rest ih =>
      rcases List.mem_cons.1 hf with rfl | hrest
      · obtain ⟨x, -, hx⟩ := fieldJson_whole hfits hwhole
        have hafter : rowJson rest (Json.insertMember f.1 x ms) = some ms' := by
          simpa [rowJson, hx] using h
        refine rowJson_keeps hafter ?_
        rw [insertMember_lookup, if_pos rfl]
        rfl
      · rcases hf' : fieldJson f'.2 with _ | (_ | y)
        · simp [rowJson, hf'] at h
        · exact ih (by simpa [rowJson, hf'] using h) hrest
        · exact ih (by simpa [rowJson, hf'] using h) hrest

/-- The members of a row that is whole and alike are the values of its fields. -/
theorem rowComplete_iff {fields : List (String × Neo4jValue)} {ms : List (String × Json)}
    (h : rowJson fields [] = some ms) : RowComplete fields (.object ms) ↔ RowKept fields := by
  have horigin : ∀ {k x}, ms.lookup k = some x →
      ∃ f ∈ fields, f.1 = k ∧ fieldJson f.2 = some (some x) := by
    intro k x hx
    rcases rowJson_origin h hx with hnil | hfield
    · cases hnil
    · exact hfield
  constructor
  · rintro ⟨ms', hobject, hfields⟩
    cases hobject
    refine ⟨fun f hf => ?_, fun f hf f' hf' hname => ?_⟩
    · obtain ⟨x, hx, hlookup⟩ := hfields f hf
      obtain ⟨f', -, -, hset⟩ := horigin hlookup
      exact whole_of_fieldJson hx hset
    · obtain ⟨x, hx, hlookup⟩ := hfields f hf
      obtain ⟨x', hx', hlookup'⟩ := hfields f' hf'
      rw [hx, hx', ← hlookup, ← hlookup', hname]
  · intro hkept
    refine ⟨ms, rfl, fun f hf => ?_⟩
    obtain ⟨x, hx⟩ := Option.isSome_iff_exists.1 (rowJson_sets h hf (hkept.whole f hf))
    obtain ⟨f', hf', hname, hset⟩ := horigin hx
    have hfits : Fits f'.2 := fieldJson_isSome_iff.1 (by rw [hset]; rfl)
    obtain ⟨x', hx', hset'⟩ := fieldJson_whole hfits (hkept.whole f' hf')
    have hsame : x' = x := by simpa [hset] using hset'.symm
    exact ⟨x, by rw [← hkept.alike f' hf' f hf hname, hx', hsame], hx⟩

/-- A row with whole fields has a member. -/
theorem rowJson_ne_nil {fields : List (String × Neo4jValue)} {ms : List (String × Json)}
    (h : rowJson fields [] = some ms) (hfields : fields ≠ []) (hwhole : ∀ f ∈ fields, Whole f.2) :
    ms ≠ [] := by
  obtain ⟨f, hf⟩ := List.exists_mem_of_ne_nil fields hfields
  rintro rfl
  have hset := rowJson_sets h hf (hwhole f hf)
  cases hset

/-! ### The rows -/

/-- If there is a row for each, and none is null, then no row is empty. Induction on the rows. -/
theorem rowsJson_ne_nil {mss : List (List (String × Json))}
    (hlength : (rowsJson mss).length = mss.length) (hobjects : ∀ j ∈ rowsJson mss, j ≠ .null) :
    ∀ ms ∈ mss, ms ≠ [] := by
  induction mss with
  | nil => simp
  | cons ms rest ih =>
      cases ms with
      | nil =>
          cases hrest : rowsJson rest with
          | nil => simp [rowsJson, hrest] at hlength
          | cons r rs => simp [rowsJson, hrest] at hobjects
      | cons m ms =>
          have hcons : rowsJson ((m :: ms) :: rest) = .object (m :: ms) :: rowsJson rest := by
            cases hrest : rowsJson rest <;> simp [rowsJson, hrest]
          rw [hcons] at hlength hobjects
          rw [List.forall_mem_cons] at hobjects ⊢
          exact ⟨List.cons_ne_nil m ms, ih (by simpa using hlength) hobjects.2⟩

theorem rowsJson_eq_map {mss : List (List (String × Json))} (h : ∀ ms ∈ mss, ms ≠ []) :
    rowsJson mss = mss.map .object := by
  induction mss with
  | nil => rfl
  | cons ms rest ih =>
      obtain ⟨hms, hrest⟩ := List.forall_mem_cons.1 h
      cases ms with
      | nil => exact absurd rfl hms
      | cons m ms => simp [rowsJson, ih hrest]

theorem appended_injective {xs ys : List Json} (h : Json.appended xs = Json.appended ys) :
    xs = ys := by
  rw [Json.appended, Json.appended] at h
  split at h
  · next hxs =>
      split at h
      · next hys => rw [hxs, hys]
      · cases h
  · split at h
    · cases h
    · exact Json.array.inj h

/-- A list on which a function answers throughout. Induction on the list. -/
theorem mapM_some_iff {α β : Type} {f : α → Option β} {xs : List α} {ys : List β} :
    xs.mapM f = some ys ↔ List.Forall₂ (fun x y => f x = some y) xs ys := by
  induction xs generalizing ys with
  | nil => cases ys <;> simp
  | cons x xs ih =>
      cases ys with
      | nil => cases hx : f x <;> cases hxs : xs.mapM f <;> simp [hx, hxs]
      | cons y ys =>
          cases hx : f x with
          | none => simp [hx]
          | some z => cases hxs : xs.mapM f <;> simp [hx, hxs, ← ih]

theorem resultsToJson_eq_some_iff {results : ResultStream} {j : Json} :
    resultsToJson results = some j ↔ results.fieldnames.length ≤ 32 ∧
      ∃ mss, List.Forall₂ (fun row ms => rowJson (named results row) [] = some ms)
        results.rows mss ∧ j = .object [("metadata_res", Json.appended (rowsJson mss))] := by
  by_cases hfields : 32 < results.fieldnames.length
  · have hnot : ¬ results.fieldnames.length ≤ 32 := by omega
    simp [resultsToJson, hfields, hnot]
  · have hle : results.fieldnames.length ≤ 32 := by omega
    have hresult : resultsToJson results =
        (results.rows.mapM fun row => rowJson (named results row) []).bind fun rows =>
          some (.object [("metadata_res", Json.appended (rowsJson rows))]) := by
      simp [resultsToJson, hfields, named]
    rw [hresult, Option.bind_eq_some_iff, and_iff_right hle]
    refine exists_congr fun mss => and_congr mapM_some_iff ?_
    rw [Option.some_inj, eq_comm]

theorem resultsToJson_isSome_iff {results : ResultStream} :
    (resultsToJson results).isSome = true ↔ InBounds results := by
  rw [Option.isSome_iff_exists]
  constructor
  · rintro ⟨j, hj⟩
    obtain ⟨hfields, mss, hrows, -⟩ := resultsToJson_eq_some_iff.1 hj
    refine ⟨hfields, fun row hrow => ?_⟩
    obtain ⟨ms, -, hms⟩ := forall₂_mem_left hrows hrow
    exact rowJson_isSome_iff.1 (by rw [hms]; rfl)
  · intro h
    obtain ⟨mss, hrows⟩ : ∃ mss, List.Forall₂
        (fun row ms => rowJson (named results row) [] = some ms) results.rows mss :=
      forall₂_exists_iff.2 fun row hrow =>
        Option.isSome_iff_exists.1 (rowJson_isSome_iff.2 (h.strings row hrow))
    exact ⟨_, resultsToJson_eq_some_iff.2 ⟨h.fields, mss, hrows, rfl⟩⟩

/-- The rows of a complete result. -/
theorem complete_iff {results : ResultStream} (hbounds : InBounds results) :
    Complete results ↔ KeepsAll results := by
  obtain ⟨j, hj⟩ := Option.isSome_iff_exists.1 (resultsToJson_isSome_iff.2 hbounds)
  obtain ⟨-, mss, hrows, rfl⟩ := resultsToJson_eq_some_iff.1 hj
  constructor
  · rintro ⟨js, hjs, hcomplete⟩
    have hsame : rowsJson mss = js := by
      rw [hj] at hjs
      exact appended_injective (by simpa using hjs)
    have hobjects : ∀ j ∈ rowsJson mss, j ≠ .null := by
      rintro j hmem rfl
      rw [hsame] at hmem
      obtain ⟨row, -, ms, hnull, -⟩ := forall₂_mem_left hcomplete.flip hmem
      cases hnull
    have hlength : (rowsJson mss).length = mss.length := by
      rw [hsame, ← hcomplete.length_eq, hrows.length_eq]
    have hne : ∀ ms ∈ mss, ms ≠ [] := rowsJson_ne_nil hlength hobjects
    have hmap : rowsJson mss = mss.map .object := rowsJson_eq_map hne
    rw [← hsame, hmap, List.forall₂_map_right_iff] at hcomplete
    have hkept : ∀ row ∈ results.rows, RowKept (named results row) := by
      intro row hrow
      have hpairs : List.Forall₂ (fun row _ => RowKept (named results row)) results.rows mss :=
        List.Forall₂.mp (fun row ms hms h => (rowComplete_iff hms).1 h) hrows hcomplete
      obtain ⟨-, -, h⟩ := forall₂_mem_left hpairs hrow
      exact h
    refine ⟨fun row hrow hnil => ?_, fun row hrow => (hkept row hrow).whole,
      fun row hrow => (hkept row hrow).alike⟩
    obtain ⟨ms, hms, hjson⟩ := forall₂_mem_left hrows hrow
    rw [hnil] at hjson
    cases hjson
    exact hne [] hms rfl
  · intro hkept
    have hpairs : List.Forall₂ (fun row ms => row ∈ results.rows ∧
        rowJson (named results row) [] = some ms) results.rows mss :=
      (List.forall₂_and_left _ _).2 ⟨fun _ hrow => hrow, hrows⟩
    have hne : ∀ ms ∈ mss, ms ≠ [] := by
      intro ms hms
      obtain ⟨row, -, hrow, hjson⟩ := forall₂_mem_left hpairs.flip hms
      exact rowJson_ne_nil hjson (hkept.fields row hrow) (hkept.whole row hrow)
    have hmap : rowsJson mss = mss.map .object := rowsJson_eq_map hne
    refine ⟨rowsJson mss, hj, ?_⟩
    rw [hmap, List.forall₂_map_right_iff]
    refine hpairs.imp fun row ms h => ?_
    exact (rowComplete_iff h.2).2 ⟨hkept.whole row h.1, hkept.alike row h.1⟩

/-- **The rows in JSON.** Nothing is written out of bounds exactly if there are at most 32 fields
and no string has more than 4095 bytes. All rows are complete then, if each has a field, and its
values are truth values, numbers, null or strings without a zero, one for each name. -/
theorem rows_complete_iff (results : ResultStream) :
    ((resultsToJson results).isSome = true ↔ InBounds results) ∧
      (Complete results ↔ InBounds results ∧ KeepsAll results) := by
  refine ⟨resultsToJson_isSome_iff, fun h => ?_, fun ⟨hbounds, hkept⟩ =>
    (complete_iff hbounds).2 hkept⟩
  have hbounds : InBounds results := by
    obtain ⟨js, hjs, -⟩ := id h
    exact resultsToJson_isSome_iff.1 (by rw [hjs]; rfl)
  exact ⟨hbounds, (complete_iff hbounds).1 h⟩

/-- A result with 33 fields, of which no row is read. -/
def manyFields : ResultStream where
  failure := false
  fieldnames := (List.range 33).map fun i => s!"n{i}"
  rows := []

theorem many_fields_overrun : ¬ ∀ results : ResultStream,
    (resultsToJson results).isSome = true ∧ Complete results := by
  intro h
  have hstream := (h manyFields).1
  rw [resultsToJson, if_pos (by decide)] at hstream
  cases hstream

end BackendNeo4j

end Vdms
