import Mathlib.Data.List.Induction
import Vdms.DescriptorSets
import Vdms.JsonSchema

/-!
# The Columns of a List

A `List` result travels as one column of values for each key, and `parse_response` makes an
entity of the values that stand at the same place in all columns. An element adds a value for
each key that is asked for: a key that is asked for twice has two values for each element, and
its column is no longer in step with the others.

## Main results

* `columns_lookup`: what the columns hold.
* `entities_aligned_iff`: when the entities are those of the elements.
-/

namespace Vdms

open Platform

/-! ### Columns -/

section Columns

variable {key k : String} {p : PMGDProp} {cols : List (String × List PMGDProp)}
  {adds : List (String × PMGDProp)}

theorem lookup_cons_ne {β : Type} {v : β} {l : List (String × β)} (h : k ≠ key) :
    ((key, v) :: l).lookup k = l.lookup k := by
  rw [List.lookup_cons, beq_eq_false_iff_ne.2 h]

theorem addValue_lookup : (addValue key p cols).lookup k =
    if k = key then some ((cols.lookup key).getD [] ++ [p]) else cols.lookup k := by
  induction cols with
  | nil =>
      by_cases hk : k = key
      · simp [addValue, hk]
      · rw [addValue, lookup_cons_ne hk, if_neg hk]
  | cons c cols ih =>
      obtain ⟨k', ps⟩ := c
      rw [addValue]
      by_cases hkey : k' = key
      · subst hkey
        by_cases hk : k = k'
        · simp [hk]
        · simp only [if_true, lookup_cons_ne hk, if_neg hk]
      · rw [if_neg hkey, lookup_cons_ne (Ne.symm hkey)]
        by_cases hk : k = k'
        · subst hk
          simp [hkey]
        · rw [lookup_cons_ne hk, lookup_cons_ne hk, ih]

theorem addValue_keys : (addValue key p cols).map Prod.fst =
    if key ∈ cols.map Prod.fst then cols.map Prod.fst else cols.map Prod.fst ++ [key] := by
  induction cols with
  | nil => simp [addValue]
  | cons c cols ih =>
      obtain ⟨k', ps⟩ := c
      rw [addValue]
      by_cases hkey : k' = key
      · simp [hkey]
      · rw [if_neg hkey, List.map_cons, ih]
        by_cases hmem : key ∈ cols.map Prod.fst
        · simp [hmem]
        · simp [hmem, Ne.symm hkey]

theorem addValue_nodup (h : (cols.map Prod.fst).Nodup) :
    ((addValue key p cols).map Prod.fst).Nodup := by
  rw [addValue_keys]
  split_ifs with hmem
  · exact h
  · exact List.nodup_append.2 ⟨h, List.nodup_singleton _, by
      rintro a ha b hb rfl
      exact hmem (List.mem_singleton.1 hb ▸ ha)⟩

/-- Values that are added one after the other. -/
def addAll (adds : List (String × PMGDProp)) : List (String × List PMGDProp) :=
  adds.foldl (fun cols add => addValue add.1 add.2 cols) []

/-- The values that are added for a key. -/
def valuesOf (key : String) (adds : List (String × PMGDProp)) : List PMGDProp :=
  (adds.filter fun add => add.1 = key).map Prod.snd

theorem valuesOf_append (adds adds' : List (String × PMGDProp)) :
    valuesOf key (adds ++ adds') = valuesOf key adds ++ valuesOf key adds' := by
  simp [valuesOf]

theorem valuesOf_flatMap {α : Type} (f : α → List (String × PMGDProp)) (l : List α) :
    valuesOf key (l.flatMap f) = l.flatMap fun x => valuesOf key (f x) := by
  induction l with
  | nil => rfl
  | cons x l ih => rw [List.flatMap_cons, List.flatMap_cons, valuesOf_append, ih]

theorem valuesOf_map (f : String → PMGDProp) (keys : List String) :
    valuesOf key (keys.map fun key => (key, f key)) =
      List.replicate (keys.count key) (f key) := by
  induction keys with
  | nil => rfl
  | cons k keys ih =>
      rw [List.map_cons, ← List.singleton_append, valuesOf_append, ih, List.count_cons]
      by_cases hkey : k = key
      · subst hkey
        simp [valuesOf, List.replicate_succ]
      · simp [valuesOf, hkey]

/-- **Columns**: a key has the values that were added for it. Induction on the values, from
the last one on. -/
theorem addAll_columns (adds : List (String × PMGDProp)) :
    ((addAll adds).map Prod.fst).Nodup ∧ ∀ key, (addAll adds).lookup key =
      if valuesOf key adds = [] then none else some (valuesOf key adds) := by
  induction adds using List.reverseRecOn with
  | nil => exact ⟨List.nodup_nil, fun key => rfl⟩
  | append_singleton adds add ih =>
      obtain ⟨hnodup, hlookup⟩ := ih
      have hadd : addAll (adds ++ [add]) = addValue add.1 add.2 (addAll adds) := by
        rw [addAll, List.foldl_append]
        rfl
      refine ⟨hadd ▸ addValue_nodup hnodup, fun key => ?_⟩
      rw [hadd, addValue_lookup, hlookup, hlookup, valuesOf_append]
      by_cases hkey : key = add.1
      · subst hkey
        have hlast : valuesOf add.1 [add] = [add.2] := by simp [valuesOf]
        by_cases hnil : valuesOf add.1 adds = [] <;> simp [hlast, hnil]
      · have hlast : valuesOf key [add] = [] := by simp [valuesOf, Ne.symm hkey]
        simp [hlast, hkey]

/-- A column that has the same number of values for each element. -/
theorem getElem?_flatMap_replicate {α β : Type} (f : α → β) (l : List α) {c i : ℕ}
    (hi : i < c * l.length) :
    (l.flatMap fun x => List.replicate c (f x))[i]? = (l[i / c]?).map f := by
  induction l generalizing i with
  | nil => simp at hi
  | cons x l ih =>
      have hc : 0 < c := Nat.pos_of_mul_pos_right (Nat.zero_lt_of_lt hi)
      rw [List.flatMap_cons, List.getElem?_append, List.length_replicate]
      by_cases hlt : i < c
      · simp [hlt, Nat.div_eq_of_lt hlt]
      · have hle : c ≤ i := Nat.le_of_not_lt hlt
        have hdiv : i / c = (i - c) / c + 1 := Nat.div_eq_sub_div hc hle
        have hrest : i - c < c * l.length := by
          rw [List.length_cons, Nat.mul_add, Nat.mul_one] at hi
          omega
        rw [if_neg hlt, ih hrest, hdiv, List.getElem?_cons_succ]

end Columns

section

variable [Platform]

/-! ### Entities -/

/-- The JSON form of a property. A blob has none. -/
def Property.toJson (v : Property) : Option Json :=
  match v with
  | .boolean b => some (.bool b)
  | .integer z => some (.int z)
  | .string s => some (.string s)
  | .float x => some (.real x)
  | .time t => some (.string (timeToString t))
  | .blob _ => none

/-- What an entity is to show of an element under a key. -/
def shownValue (g : Graph) (x : Element) (key : String) : Option Json :=
  match g.props x (stringID key) with
  | some v => v.toJson
  | none => some (.string "Missing property")

/-- An entity has each key with the value that the element has there, and no other key. -/
structure ShowsElement (g : Graph) (keys : List String) (x : Element) (entity : Json) : Prop where
  shows : ∀ key ∈ keys, ∃ v, shownValue g x key = some v ∧ entity.members.lookup key = some v
  only : ∀ key v, entity.members.lookup key = some v → key ∈ keys

/-- What the response has of an element under a key. -/
def cell (g : Graph) (x : Element) (key : String) : PMGDProp :=
  match g.props x (stringID key) with
  | some v => constructProtobufProperty v
  | none => constructMissingProperty

theorem cell_toJson_iff {g : Graph} {x : Element} {key : String} {v : Json} :
    (cell g x key).toJson = .ok v ↔ shownValue g x key = some v := by
  rw [cell, shownValue]
  cases g.props x (stringID key) with
  | none => simp [constructMissingProperty, PMGDProp.toJson]
  | some w =>
      cases w <;> simp [constructProtobufProperty, PMGDProp.toJson, Property.toJson]

/-- The columns of elements. -/
def columns (g : Graph) (keys : List String) (xs : List Element) : List (String × List PMGDProp) :=
  xs.foldl (fun cols x => rowOf g x keys cols) []

section Entities

variable {g : Graph} {keys : List String} {xs : List Element} {key : String}

/-- A key has as many values for each element as there are requests for it. -/
theorem columns_lookup (g : Graph) (keys : List String) (xs : List Element) :
    ((columns g keys xs).map Prod.fst).Nodup ∧ ∀ key, (columns g keys xs).lookup key =
      if key ∈ keys ∧ xs ≠ [] then
        some (xs.flatMap fun x => List.replicate (keys.count key) (cell g x key))
      else none := by
  have hadds : columns g keys xs =
      addAll (xs.flatMap fun x => keys.map fun key => (key, cell g x key)) := by
    rw [addAll, List.foldl_flatMap]
    simp only [List.foldl_map]
    rfl
  obtain ⟨hnodup, hlookup⟩ := addAll_columns
    (xs.flatMap fun x => keys.map fun key => (key, cell g x key))
  rw [hadds]
  refine ⟨hnodup, fun key => ?_⟩
  have hvalues : valuesOf key (xs.flatMap fun x => keys.map fun key => (key, cell g x key)) =
      xs.flatMap fun x => List.replicate (keys.count key) (cell g x key) := by
    rw [valuesOf_flatMap]
    exact congrArg (List.flatMap · xs) (funext fun x => valuesOf_map (cell g x) keys)
  rw [hlookup, hvalues]
  by_cases hkey : key ∈ keys
  · have hcount : keys.count key ≠ 0 := (List.count_pos_iff.2 hkey).ne'
    by_cases hxs : xs = []
    · simp [hxs]
    · have hne : (xs.flatMap fun x => List.replicate (keys.count key) (cell g x key)) ≠ [] := by
        obtain ⟨x, rest, rfl⟩ := List.exists_cons_of_ne_nil hxs
        simp [hcount]
      rw [if_neg hne, if_pos ⟨hkey, hxs⟩]
  · have hnil : (xs.flatMap fun x => List.replicate (keys.count key) (cell g x key)) = [] := by
      simp [List.count_eq_zero.2 hkey]
    rw [if_pos hnil, if_neg fun h => hkey h.1]

/-- The value that the `i`-th entity shows under a key is that of an earlier element, if the
key has several values for each. -/
theorem column_getElem? {i : ℕ} (hi : i < xs.length) (hkey : key ∈ keys) :
    ∃ col x, (key, col) ∈ columns g keys xs ∧ xs[i / keys.count key]? = some x ∧
      col[i]? = some (cell g x key) := by
  have hpos : 0 < keys.count key := List.count_pos_iff.2 hkey
  have hne : xs ≠ [] := by
    rintro rfl
    simp at hi
  have hlookup := (columns_lookup g keys xs).2 key
  rw [if_pos ⟨hkey, hne⟩] at hlookup
  have hlt : i / keys.count key < xs.length := Nat.lt_of_le_of_lt (Nat.div_le_self _ _) hi
  have hwide : i < keys.count key * xs.length :=
    Nat.lt_of_lt_of_le hi (Nat.le_mul_of_pos_left _ hpos)
  refine ⟨_, xs[i / keys.count key], mem_of_lookup hlookup, List.getElem?_eq_getElem hlt, ?_⟩
  rw [getElem?_flatMap_replicate (fun x => cell g x key) xs hwide, List.getElem?_eq_getElem hlt]
  rfl

omit [Platform] in
theorem parseEntity_exists {cols : List (String × List PMGDProp)} {i : ℕ}
    (h : ∀ p ∈ cols, ∃ v, (p.2[i]?.getD {}).toJson = .ok v) :
    ∃ entity, parseEntity cols i = .ok entity := by
  have hperm := List.perm_insertionSort (fun a b : String × List PMGDProp => a.1 ≤ b.1) cols
  have hms : ∃ ms, (cols.insertionSort fun a b => a.1 ≤ b.1).mapM (fun p => do
      let v ← (p.2[i]?.getD {}).toJson
      pure (p.1, v) : _ → Except QueryError (String × Json)) = .ok ms := by
    refine exists_mapM_ok_iff.2 fun p hp => ?_
    obtain ⟨v, hv⟩ := h p (hperm.mem_iff.1 hp)
    exact ⟨(p.1, v), by rw [hv]; rfl⟩
  obtain ⟨ms, hms⟩ := hms
  rw [parseEntity]
  rw [hms]
  exact ⟨_, rfl⟩

omit [Platform] in
/-- What `parse_response` makes of the values at the place `i`. -/
theorem parseEntity_members {cols : List (String × List PMGDProp)} {i : ℕ} {entity : Json}
    (hnodup : (cols.map Prod.fst).Nodup) (h : parseEntity cols i = .ok entity) :
    (∀ key col, (key, col) ∈ cols → ∃ v, (col[i]?.getD {}).toJson = .ok v ∧
      entity.members.lookup key = some v) ∧
    ∀ key v, entity.members.lookup key = some v → key ∈ cols.map Prod.fst := by
  obtain ⟨ms, hms, hentity⟩ := bind_ok_inv h
  have hmembers : entity.members = ms := by
    obtain rfl := Except.ok.inj hentity
    split_ifs with hnil
    · exact hnil.symm
    · rfl
  have hperm := List.perm_insertionSort (fun a b : String × List PMGDProp => a.1 ≤ b.1) cols
  have hall := (mapM_ok_iff.1 hms).imp (S := fun p m => m.1 = p.1 ∧
    (p.2[i]?.getD {}).toJson = .ok m.2) fun p m hm => by
      obtain ⟨v, hv, hm⟩ := bind_ok_inv hm
      obtain rfl := Except.ok.inj hm
      exact ⟨rfl, hv⟩
  have hkeys : ms.map Prod.fst = (cols.insertionSort fun a b => a.1 ≤ b.1).map Prod.fst := by
    rw [← List.forall₂_eq_eq_eq, List.forall₂_map_left_iff, List.forall₂_map_right_iff]
    exact hall.flip.imp fun m p hm => hm.1
  rw [hmembers]
  constructor
  · intro key col hcol
    obtain ⟨m, hm, hkey, hv⟩ := forall₂_mem_left hall (hperm.mem_iff.2 hcol)
    refine ⟨m.2, hv, ?_⟩
    have hnodup' : (ms.map Prod.fst).Nodup := by
      rw [hkeys]
      exact ((hperm.map Prod.fst).nodup_iff).2 hnodup
    rw [← show m.1 = key from hkey]
    exact lookup_of_mem hnodup' hm
  · intro key v hv
    have hmem : key ∈ ms.map Prod.fst := List.mem_map_of_mem (mem_of_lookup hv)
    rw [hkeys] at hmem
    exact (hperm.map Prod.fst).mem_iff.1 hmem

/-- The entities of a list whose columns are those of the elements. -/
def entities (g : Graph) (keys : List String) (xs : List Element) :
    Except QueryError (List Json) :=
  (List.range xs.length).mapM (parseEntity (columns g keys xs))

/-- Every element has a JSON value under each key. -/
def Typed (g : Graph) (keys : List String) (xs : List Element) : Prop :=
  ∀ x ∈ xs, ∀ key ∈ keys, (shownValue g x key).isSome

/-- Under a key that is asked for more than once all elements show the same. -/
def Uniform (g : Graph) (keys : List String) (xs : List Element) : Prop :=
  ∀ key, 2 ≤ keys.count key → ∀ x ∈ xs, ∀ y ∈ xs, shownValue g x key = shownValue g y key

theorem entities_get {es : List Json} (hes : entities g keys xs = .ok es) :
    es.length = xs.length ∧ ∀ i (hi : i < es.length),
      parseEntity (columns g keys xs) i = .ok (es.get ⟨i, hi⟩) := by
  obtain ⟨hlength, hget⟩ := List.forall₂_iff_get.1 (mapM_ok_iff.1 hes)
  rw [List.length_range] at hlength
  refine ⟨hlength.symm, fun i hi => ?_⟩
  have hparse := hget i (by rw [List.length_range]; omega) hi
  simpa using hparse

/-- The `i`-th entity shows the value of the element at the place `i` divided by the number of
requests for the key. -/
theorem entity_at {es : List Json} (hes : entities g keys xs = .ok es) {i : ℕ}
    (hi : i < es.length) (hkey : key ∈ keys) :
    ∃ x v, xs[i / keys.count key]? = some x ∧ shownValue g x key = some v ∧
      (es.get ⟨i, hi⟩).members.lookup key = some v := by
  obtain ⟨hlength, hparse⟩ := entities_get hes
  obtain ⟨col, x, hcol, hx, hcell⟩ := column_getElem? (g := g) (hlength ▸ hi) hkey
  obtain ⟨v, hv, hlookup⟩ :=
    (parseEntity_members (columns_lookup g keys xs).1 (hparse i hi)).1 key col hcol
  rw [hcell] at hv
  exact ⟨x, v, hx, cell_toJson_iff.1 hv, hlookup⟩

theorem mem_keys_of_column {col : List PMGDProp} (h : (key, col) ∈ columns g keys xs) :
    key ∈ keys := by
  obtain ⟨hnodup, hlookup⟩ := columns_lookup g keys xs
  have hcol := (hlookup key).symm.trans (lookup_of_mem hnodup h)
  by_contra hkey
  rw [if_neg fun h => hkey h.1] at hcol
  cases hcol

/-- The values of a key whose entities are aligned: each is that of an earlier element, down to
the first. -/
theorem uniform_of_aligned {es : List Json} (hes : entities g keys xs = .ok es)
    (h : List.Forall₂ (ShowsElement g keys) xs es) (hcount : 2 ≤ keys.count key) :
    ∀ (i : ℕ) (x₀ x : Element), xs[0]? = some x₀ → xs[i]? = some x →
      shownValue g x key = shownValue g x₀ key := by
  have hkey : key ∈ keys := List.count_pos_iff.1 (by omega)
  obtain ⟨hlength, hget⟩ := List.forall₂_iff_get.1 h
  intro i
  induction i using Nat.strong_induction_on with
  | _ i ih =>
      intro x₀ x hx₀ hx
      rcases Nat.eq_zero_or_pos i with rfl | hpos
      · rw [Option.some.inj (hx₀.symm.trans hx)]
      obtain ⟨hi, rfl⟩ := List.getElem?_eq_some_iff.1 hx
      have hi' : i < es.length := by omega
      obtain ⟨v, hv, hown⟩ := (hget i hi hi').shows key hkey
      obtain ⟨y, w, hy, hw, hother⟩ := entity_at hes hi' hkey
      obtain rfl := Option.some.inj (hown.symm.trans hother)
      have hsmall : i / keys.count key < i := Nat.div_lt_self hpos (by omega)
      rw [← ih _ hsmall x₀ y hx₀ hy, hw]
      exact hv

/-- **Entities and elements.** -/
theorem entities_aligned_iff :
    (∃ es, entities g keys xs = .ok es ∧ List.Forall₂ (ShowsElement g keys) xs es) ↔
      Typed g keys xs ∧ Uniform g keys xs := by
  constructor
  · rintro ⟨es, hes, h⟩
    constructor
    · intro x hx key hkey
      obtain ⟨entity, -, hentity⟩ := forall₂_mem_left h hx
      obtain ⟨v, hv, -⟩ := hentity.shows key hkey
      simp [hv]
    · intro key hcount x hx y hy
      obtain ⟨i, hi⟩ := List.mem_iff_getElem?.1 hx
      obtain ⟨j, hj⟩ := List.mem_iff_getElem?.1 hy
      have hpos : 0 < xs.length := List.length_pos_of_mem hx
      have hfirst : xs[0]? = some xs[0] := List.getElem?_eq_getElem hpos
      have huniform := uniform_of_aligned hes h hcount
      rw [huniform i _ x hfirst hi, huniform j _ y hfirst hj]
  · rintro ⟨htyped, huniform⟩
    have hexists : ∃ es, entities g keys xs = .ok es := by
      refine exists_mapM_ok_iff.2 fun i hi => parseEntity_exists ?_
      rintro ⟨key, col⟩ hcol
      have hkey := mem_keys_of_column hcol
      obtain ⟨col', x, hcol', hx, hcell⟩ := column_getElem? (g := g) (List.mem_range.1 hi) hkey
      obtain ⟨hnodup, -⟩ := columns_lookup g keys xs
      have hsame : col = col' :=
        Option.some.inj ((lookup_of_mem hnodup hcol).symm.trans (lookup_of_mem hnodup hcol'))
      subst hsame
      obtain ⟨v, hv⟩ := Option.isSome_iff_exists.1 (htyped x (List.mem_of_getElem? hx) key hkey)
      exact ⟨v, by rw [hcell]; exact cell_toJson_iff.2 hv⟩
    obtain ⟨es, hes⟩ := hexists
    obtain ⟨hlength, hparse⟩ := entities_get hes
    refine ⟨es, hes, List.forall₂_iff_get.2 ⟨hlength.symm, fun i hi hi' => ⟨?_, ?_⟩⟩⟩
    · intro key hkey
      obtain ⟨x, v, hx, hv, hlookup⟩ := entity_at hes hi' hkey
      refine ⟨v, ?_, hlookup⟩
      rcases Nat.lt_or_ge (keys.count key) 2 with hone | htwo
      · have hcount : keys.count key = 1 := by
          have := List.count_pos_iff.2 hkey
          omega
        rw [hcount, Nat.div_one, List.getElem?_eq_getElem hi] at hx
        rw [← hv, ← Option.some.inj hx]
        rfl
      · rw [← hv]
        exact huniform key htwo _ (List.get_mem _ _) _ (List.mem_of_getElem? hx)
    · intro key v hv
      have hmem := (parseEntity_members (columns_lookup g keys xs).1 (hparse i hi')).2 key v hv
      obtain ⟨⟨k, col⟩, hcol, rfl⟩ := List.mem_map.1 hmem
      exact mem_keys_of_column hcol

end Entities

end

end Vdms
