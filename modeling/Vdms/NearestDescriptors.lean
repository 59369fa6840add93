import Vdms.AutomaticPurge
import Vdms.FindDescriptor
import Vdms.JsonObjects

/-!
# Searching with Constraints

`FindDescriptor` asks the index for the nearest descriptors and the graph for those of them
that meet the constraints. Each id is merged into the constraints, so a constraint on the id
itself is lost, and the answers are matched with the ids again, where an answer without an
entity looks like one for the id 0.

## Main definitions

* `Met`: a node meets a constraint, as it is written.
* `NearestSearch`: a search, with the answers of the index and of the transaction.
* `NearestSearch.ListsExactly`: the response lists the right descriptors.

## Main results

* `AsksFor.match_iff`: what the query for an id finds.
* `NearestSearch.lists_exactly_iff`: when the response is right.
* `filtered_zero_is_listed`: a search that lists the id 0 by mistake.
-/

namespace Vdms

open Platform FindDescriptor

/-- The documented behaviour of PMGD on integers that are compared for equality. -/
class Platform.Identifiers [Platform] : Prop where
  passes_equal (key : StringID) (a : ℤ) (props : Props) : key ≠ 0 →
    (passes { id := key, op := .eq, v1 := some (.integer a) } props = true ↔
      props key = some (.integer a))

instance : Platform.Identifiers where
  passes_equal key a props hkey := by
    simp only [passes, tablePasses, hkey, decide_false, Bool.false_or, Option.any_eq_true]
    constructor
    · rintro ⟨v, hv, h⟩
      cases v with
      | integer t =>
          have ht : t = a := by simpa [holdsOp] using h
          rw [hv, ht]
      | _ => simp [holdsOp] at h
    · intro h
      exact ⟨.integer a, h, by simp [holdsOp]⟩

/-! ### Sorted objects -/

section Objects

variable {ms : List (String × Json)} {key name : String} {v : Json} {shown : Bool}

/-- An object whose keys are sorted has each of its members, with its value. -/
theorem hasMember_of_mem (hms : SortedKeys ms) (h : (key, v) ∈ ms) :
    (Json.object ms).hasMember key = .ok true ∧ (Json.object ms).get key = .ok v := by
  have hlookup := hms.lookup_eq.2 h
  simp [Json.hasMember, Json.get, hlookup]

/-- An object whose keys are sorted has no member that is not among them. -/
theorem hasMember_of_not_mem (hms : SortedKeys ms) (h : ∀ v, (key, v) ∉ ms) :
    (Json.object ms).hasMember key = .ok false := by
  have hlookup := hms.lookup_eq_none.2 h
  simp [Json.hasMember, hlookup]

/-- Setting a member of an object keeps the keys sorted and the other members as they are. -/
theorem setMember_object (hms : SortedKeys ms) (key : String) (v : Json) :
    ∃ ms', (Json.object ms).setMember key v = .ok (.object ms') ∧ SortedKeys ms' ∧
      ∀ m, m ∈ ms' ↔ m = (key, v) ∨ m.1 ≠ key ∧ m ∈ ms :=
  ⟨_, rfl, insertMember_ordered hms key v⟩

/-- **A converted member** is found under its new key if it is shown, and the others stay. -/
theorem convertMember_object (hms : SortedKeys ms) (key name : String) (shown : Bool) :
    ∃ ms', convertMember (.object ms) key name shown = .ok (.object ms') ∧ SortedKeys ms' ∧
      ∀ m, m ∈ ms' ↔ m.1 ≠ key ∧ (shown = true ∧ m.1 = name ∧ (key, m.2) ∈ ms ∨
        m ∈ ms ∧ (shown = true → m.1 = name → ∀ v, (key, v) ∉ ms)) := by
  by_cases hex : ∃ v, (key, v) ∈ ms
  · obtain ⟨v, hv⟩ := hex
    obtain ⟨hhas, hget⟩ := hasMember_of_mem hms hv
    cases shown with
    | false =>
        refine ⟨ms.filter fun m => m.1 ≠ key, ?_, hms.filter _, fun m => by simp [and_comm]⟩
        simp [convertMember, hhas, bind, Except.bind, pure, Except.pure, Json.removeMember]
    | true =>
        obtain ⟨ms', hset, hsorted, hmem⟩ := setMember_object hms name v
        refine ⟨ms'.filter fun m => m.1 ≠ key, ?_, hsorted.filter _, fun m => ?_⟩
        · simp [convertMember, hhas, hget, hset, bind, Except.bind, Json.removeMember]
        · rw [List.mem_filter, hmem, and_comm, decide_eq_true_eq]
          refine and_congr_right fun hm => ?_
          constructor
          · rintro (rfl | ⟨hname, hin⟩)
            · exact .inl ⟨rfl, rfl, hv⟩
            · exact .inr ⟨hin, fun _ hsame => absurd hsame hname⟩
          · rintro (⟨-, hname, hin⟩ | ⟨hin, hnot⟩)
            · exact .inl (Prod.ext hname (hms.unique hin hv))
            · exact .inr ⟨fun hname => hnot rfl hname v hv, hin⟩
  · have hnone : ∀ v, (key, v) ∉ ms := fun v hv => hex ⟨v, hv⟩
    refine ⟨ms, ?_, hms, fun m => ?_⟩
    · simp [convertMember, hasMember_of_not_mem hms hnone, bind, Except.bind, pure, Except.pure]
    · constructor
      · exact fun hm => ⟨fun hkey => hnone m.2 (hkey ▸ hm), .inr ⟨hm, fun _ _ => hnone⟩⟩
      · rintro ⟨-, ⟨-, -, hin⟩ | ⟨hm, -⟩⟩
        · exact absurd hin (hnone _)
        · exact hm

end Objects

/-! ### Constraints -/

/-- The name that the graph has for a key. -/
def graphKey (setName key : String) : String :=
  if key = "_label" then "VD:label" else if key = "_id" then descIdProp setName else key

/-- The constraint is part of the query for an id: it is not one on the id, and there is no
other on the label. -/
def Reaches (setName : String) (c : Json) (key : String) : Prop :=
  key ≠ "_id" ∧ key ≠ descIdProp setName ∧
    (key = "VD:label" → ∀ v, ("_label", v) ∉ c.members)

/-- A key that does not begin as the ids of descriptors do is the key of no id. -/
theorem descIdProp_ne {setName key : String} (h : key.toList.take 10 ≠ "VD:descId_".toList) :
    key ≠ descIdProp setName := by
  rintro rfl
  apply h
  rw [descIdProp, String.toList_append, List.take_append_of_le_length (by decide)]
  rfl

/-- The constraints with the names of the graph are those of the command, but for the ones
that are lost. -/
theorem constraints_reach {setName : String} {cmd c c' : Json}
    (hcmd : cmd.get "constraints" = .ok c) (hc : c.Ordered)
    (h : constraints setName cmd = .ok c') : c'.Ordered ∧ ∀ m, m.1 ≠ descIdProp setName →
      (m ∈ c'.members ↔ ∃ m' ∈ c.members, Reaches setName c m'.1 ∧
        m = (graphKey setName m'.1, m'.2)) := by
  rcases hc with rfl | ⟨ms, rfl, hms⟩
  · simp only [constraints, hcmd, convertMember, Json.hasMember, bind, Except.bind, pure,
      Except.pure, Bool.false_eq_true, if_false] at h
    obtain rfl := Except.ok.inj h
    exact ⟨.inl rfl, fun m _ => by simp [Json.members]⟩
  · have hid : "_id" ≠ descIdProp setName := descIdProp_ne (by decide)
    have hlabel : "_label" ≠ descIdProp setName := descIdProp_ne (by decide)
    obtain ⟨ms₁, h₁, hms₁, hmem₁⟩ :=
      convertMember_object hms "_label" "VD:label" true
    obtain ⟨ms₂, h₂, hms₂, hmem₂⟩ :=
      convertMember_object hms₁ "_id" (descIdProp setName) true
    simp only [constraints, hcmd, h₁, h₂, bind, Except.bind] at h
    obtain rfl := Except.ok.inj h
    refine ⟨.inr ⟨_, rfl, hms₂⟩, fun m hm => ?_⟩
    simp only [Json.members, hmem₂, hmem₁, hm, false_and, and_false, false_or, true_and,
      true_imp_iff, false_imp_iff, and_true, ne_eq]
    constructor
    · rintro ⟨hnotid, hnotlabel, ⟨hkey, hin⟩ | ⟨hin, honly⟩⟩
      · refine ⟨("_label", m.2), hin, ⟨by simp, hlabel, by simp⟩, Prod.ext ?_ rfl⟩
        rw [hkey, graphKey, if_pos rfl]
      · refine ⟨m, hin, ⟨hnotid, hm, honly⟩, Prod.ext ?_ rfl⟩
        rw [graphKey, if_neg hnotlabel, if_neg hnotid]
    · rintro ⟨⟨key, v⟩, hin, ⟨hnotid, hnot, honly⟩, rfl⟩
      by_cases hkey : key = "_label"
      · subst hkey
        have hname : graphKey setName "_label" = "VD:label" := if_pos rfl
        rw [hname]
        exact ⟨by simp, by simp, .inl ⟨rfl, hin⟩⟩
      · have hsame : graphKey setName key = key := by
          rw [graphKey, if_neg hkey, if_neg hnotid]
        rw [hsame]
        exact ⟨hnotid, hkey, .inr ⟨hin, honly⟩⟩

section

variable [Platform]

/-- The comparisons of a list of values, which are alternatives. -/
def alternatives : Json → Option (List Written)
  | .array [o, .array vs] => o.asString.toOption.bind fun op => vs.mapM (writtenBy op)
  | _ => none

/-- The properties meet a constraint, as it is written: all of its comparisons, or one of
those of a list. The key `_deletion` asks for a purge and constrains nothing. -/
def Met [Platform.Predicates] (m : String × Json) (props : Props) : Prop :=
  m.1 = "_deletion" ∨ (∃ ws, written m.2 = some ws ∧ ∀ w ∈ ws, w.Holds m.1 props) ∨
    ∃ ws, alternatives m.2 = some ws ∧ ∃ w ∈ ws, w.Holds m.1 props

/-- The API's check of an array: an operator with a value or with a list of values, or two
operators with a value each. -/
def ShapedAs (j : Json) : Prop :=
  (∃ o v, j = .array [o, v]) ∨
    ∃ o1 v1 o2 v2, j = .array [o1, v1, o2, v2] ∧ v1.isArray = false ∧ v2.isArray = false

/-- The constraint has a list of values. -/
def IsListed (m : String × Json) : Prop :=
  m.1 ≠ "_deletion" ∧ ∃ o vs, m.2 = .array [o, .array vs]

/-- What a query asks of the properties for a constraint: one of the alternatives of a list;
else that the property exists, and that it compares as written if the comparisons are in
order. The key 0 asks for nothing. -/
def Asked [Platform.Predicates] (m : String × Json) (props : Props) : Prop :=
  (∃ ws, alternatives m.2 = some ws ∧ ∃ w ∈ ws, stringID m.1 = 0 ∨ w.Holds m.1 props) ∨
    alternatives m.2 = none ∧ (stringID m.1 = 0 ∨ ∃ v, props (stringID m.1) = some v ∧
      ∀ ws, written m.2 = some ws → OpsInOrder ws → ∀ w ∈ ws, Compares w.op v w.value)

/-- What a query asks for all constraints: one of them, if one has a list of values, else all
of them. -/
def Selected [Platform.Predicates] (ms : List (String × Json)) (props : Props) : Prop :=
  (∃ m ∈ ms, IsListed m) ∧ (∃ m ∈ ms, m.1 ≠ "_deletion" ∧ Asked m props) ∨
    (∀ m ∈ ms, ¬ IsListed m) ∧ ∀ m ∈ ms, m.1 ≠ "_deletion" → Asked m props

/-- A list of values with one operator is written as one comparison for each value. -/
theorem mapM_writtenBy {op : String} {c : Comparison} (hc : Comparison.ofString op = some c)
    (vs : List Json) : vs.mapM (writtenBy op) =
      (vs.mapM writtenValue).map fun xs => xs.map fun value => { op, value } := by
  induction vs with
  | nil => rfl
  | cons v vs ih =>
      rw [List.mapM_cons, List.mapM_cons, ih, writtenBy_of_some hc]
      cases writtenValue v with
      | none => rfl
      | some x => cases vs.mapM writtenValue <;> rfl

variable [Platform.Predicates]

/-- A predicate with a comparison asks for the key 0 or for the comparison. -/
theorem passes_comparisonTerm_iff {key op : String} {c : Comparison} {x : Property}
    {props : Props} (hc : Comparison.ofString op = some c) :
    passes (comparisonTerm key c x) props = true ↔
      stringID key = 0 ∨ Written.Holds key ⟨op, x⟩ props := by
  by_cases hkey : stringID key = 0
  · exact iff_of_true (Platform.Predicates.passes_unset _ _ hkey) (.inl hkey)
  · rw [passes_comparisonTerm hkey hc]
    simp [hkey]

/-- The test for a property asks for the key 0 or for the property to be there. -/
theorem passes_present_iff {key : String} {props : Props} :
    passes { id := stringID key } props = true ↔
      stringID key = 0 ∨ ∃ v, props (stringID key) = some v := by
  by_cases hkey : stringID key = 0
  · exact iff_of_true (Platform.Predicates.passes_unset _ _ hkey) (.inl hkey)
  · rw [Platform.Predicates.passes_key _ _ hkey]
    simp [hkey]

/-- The predicates of a list ask for one of its alternatives. -/
theorem asked_listed {key : String} {o : Json} {vs : List Json} {pps : List PropertyPredicate}
    (htrans : MemberTranslates (key, .array [o, .array vs]) pps) (hdel : key ≠ "_deletion")
    (props : Props) :
    (∃ pp ∈ pps, passes pp props = true) ↔ Asked (key, .array [o, .array vs]) props := by
  obtain ⟨hdel', -⟩ | ⟨-, k, hk, hterms⟩ := memberTranslates_iff.1 htrans
  · exact absurd hdel' hdel
  obtain ⟨op, ho, rfl⟩ := Option.map_eq_some_iff.1 hk
  simp only [Constraint.terms, Option.bind_eq_bind, Option.bind_eq_some_iff] at hterms
  obtain ⟨c, hc, xs, hxs, h⟩ := hterms
  cases h
  have hsame : searchValue key = writtenValue := funext fun v => searchValue_eq key
  have hws : alternatives (.array [o, .array vs]) =
      some (xs.map fun value => { op, value }) := by
    rw [alternatives, ho, Option.bind_some, mapM_writtenBy hc, ← hsame, hxs]
    rfl
  simp only [Asked, hws, Option.some.injEq, exists_eq_left', reduceCtorEq, false_and, or_false]
  constructor
  · rintro ⟨pp, hpp, hpass⟩
    obtain ⟨x, hx, rfl⟩ := List.mem_map.1 hpp
    exact ⟨_, List.mem_map_of_mem hx, (passes_comparisonTerm_iff hc).1 hpass⟩
  · rintro ⟨w, hw, hholds⟩
    obtain ⟨x, hx, rfl⟩ := List.mem_map.1 hw
    exact ⟨_, List.mem_map_of_mem hx, (passes_comparisonTerm_iff hc).2 hholds⟩

/-- **One constraint** without a list has one predicate. -/
theorem asked_single {m : String × Json} {pps : List PropertyPredicate}
    (hshape : (∃ o v, m.2 = .array [o, v] ∧ v.isArray = false) ∨
      ∃ o1 v1 o2 v2, m.2 = .array [o1, v1, o2, v2] ∧ v1.isArray = false ∧ v2.isArray = false)
    (htrans : MemberTranslates m pps) (hdel : m.1 ≠ "_deletion") :
    ∃ pp, pps = [pp] ∧ ∀ props, passes pp props = true ↔ Asked m props := by
  obtain ⟨hdel', -⟩ | ⟨-, k, hk, hterms⟩ := memberTranslates_iff.1 htrans
  · exact absurd hdel' hdel
  have hnolist : alternatives m.2 = none := by
    obtain ⟨o, v, hj, hv⟩ | ⟨o1, v1, o2, v2, hj, -⟩ := hshape
    · rw [hj]
      cases v with
      | array vs => cases hv
      | _ => rfl
    · rw [hj, alternatives]
      simp
  simp only [Asked, hnolist, reduceCtorEq, false_and, exists_false, false_or, true_and]
  obtain ⟨op, v, rfl, hwritten⟩ | ⟨op1, v1, op2, v2, rfl, hwritten⟩ := written_of_shape hshape hk
  · cases hc : Comparison.ofString op with
    | none =>
        simp only [Constraint.terms, hc, Option.map_eq_some_iff] at hterms
        obtain ⟨p, -, rfl⟩ := hterms
        refine ⟨_, rfl, fun props => ?_⟩
        rw [passes_present_iff, hwritten, writtenBy_of_none hc]
        simp
    | some c =>
        simp only [Constraint.terms, hc, Option.map_eq_some_iff, searchValue_eq] at hterms
        obtain ⟨x, hx, rfl⟩ := hterms
        refine ⟨_, rfl, fun props => ?_⟩
        rw [passes_comparisonTerm_iff hc, hwritten, writtenBy_of_some hc, hx]
        simp [Written.Holds, OpsInOrder]
  · by_cases hop : rangeOp op1 op2 = .dontCare
    · simp only [Constraint.terms, hop, if_true, Option.bind_eq_bind,
        Option.bind_eq_some_iff] at hterms
      obtain ⟨p1, -, p2, -, h⟩ := hterms
      cases h
      refine ⟨_, rfl, fun props => ?_⟩
      rw [passes_present_iff]
      refine or_congr_right (exists_congr fun v => (and_iff_left ?_).symm)
      intro ws hws hordered
      rw [hwritten] at hws
      obtain ⟨w1, hw1, hw⟩ := Option.bind_eq_some_iff.1 hws
      obtain ⟨w2, hw2, rfl⟩ := Option.map_eq_some_iff.1 hw
      rw [OpsInOrder, writtenBy_op hw1, writtenBy_op hw2] at hordered
      exact absurd hop (rangeOp_ne_dontCare.2 hordered)
    · simp only [Constraint.terms, hop, if_false, Option.bind_eq_bind,
        Option.bind_eq_some_iff, searchValue_eq] at hterms
      obtain ⟨x1, hx1, x2, hx2, h⟩ := hterms
      cases h
      obtain ⟨c1, c2, hc1, hc2, hlower, hupper⟩ := rangeOp_inv hop
      have hordered : OpsInOrder [⟨op1, x1⟩, ⟨op2, x2⟩] := rangeOp_ne_dontCare.1 hop
      refine ⟨_, rfl, fun props => ?_⟩
      rw [Platform.Ranges.passes_range _ _ _ _ _ (rangeOp_isRange hop), hlower, hupper,
        Bool.and_eq_true]
      have h1 : passes (comparisonTerm m.1 c1 x1) props = true ↔ _ :=
        passes_comparisonTerm_iff hc1
      have h2 : passes (comparisonTerm m.1 c2 x2) props = true ↔ _ :=
        passes_comparisonTerm_iff hc2
      simp only [comparisonTerm] at h1 h2
      rw [h1, h2, hwritten, writtenBy_of_some hc1, writtenBy_of_some hc2, hx1, hx2]
      simp only [Written.Holds, Option.map_some, Option.bind_some, Option.some.injEq,
        forall_eq', hordered, true_imp_iff, List.forall_mem_cons, List.not_mem_nil,
        false_imp_iff, forall_true_iff, and_true]
      constructor
      · rintro ⟨hkey | ⟨v, hv, hcmp1⟩, hkey' | ⟨v', hv', hcmp2⟩⟩
        · exact .inl hkey
        · exact .inl hkey
        · exact .inl hkey'
        · obtain rfl := Option.some.inj (hv.symm.trans hv')
          exact .inr ⟨v, hv, hcmp1, hcmp2⟩
      · rintro (hkey | ⟨v, hv, hcmp1, hcmp2⟩)
        · exact ⟨.inl hkey, .inl hkey⟩
        · exact ⟨.inr ⟨v, hv, hcmp1⟩, .inr ⟨v, hv, hcmp2⟩⟩

omit [Platform.Predicates] in
/-- A member with a list is one that `parse_query_constraints` makes a disjunction of. -/
theorem memberIsList_iff {m : String × Json} {pps : List PropertyPredicate}
    (htrans : MemberTranslates m pps) : memberIsList m = true ↔ IsListed m := by
  rw [memberIsList, Bool.and_eq_true, IsListed, decide_eq_true_eq, Option.any_eq_true]
  refine and_congr_right fun hdel => ?_
  obtain ⟨hdel', -⟩ | ⟨-, k, hk, -⟩ := memberTranslates_iff.1 htrans
  · exact absurd hdel' hdel
  obtain ⟨o, vs, op, hj, ho, rfl⟩ | ⟨o, v, op, hj, hv, -, rfl⟩ |
    ⟨o1, v1, o2, v2, rest, op1, op2, hj, -, -, rfl⟩ := Constraint.ofJson_inv hk
  · exact iff_of_true ⟨_, hk, rfl⟩ ⟨o, vs, hj⟩
  · refine iff_of_false ?_ ?_
    · rintro ⟨k, hk', hlist⟩
      cases hk.symm.trans hk'
      cases hlist
    · rintro ⟨o', vs, hj'⟩
      cases hj.symm.trans hj'
      cases hv
  · refine iff_of_false ?_ ?_
    · rintro ⟨k, hk', hlist⟩
      cases hk.symm.trans hk'
      cases hlist
    · rintro ⟨o', vs, hj'⟩
      cases hj.symm.trans hj'

omit [Platform] [Platform.Predicates] in
/-- The shape of a constraint without a list. -/
theorem ShapedAs.single {m : String × Json} (h : ShapedAs m.2) (hdel : m.1 ≠ "_deletion")
    (hno : ¬ IsListed m) : (∃ o v, m.2 = .array [o, v] ∧ v.isArray = false) ∨
      ∃ o1 v1 o2 v2, m.2 = .array [o1, v1, o2, v2] ∧ v1.isArray = false ∧ v2.isArray = false := by
  obtain ⟨o, v, hj⟩ | hpair := h
  · cases v with
    | array vs => exact absurd ⟨hdel, o, vs, hj⟩ hno
    | _ => exact .inl ⟨o, _, hj, rfl⟩
  · exact .inr hpair

/-- **The predicates of an object** ask for what is selected. -/
theorem combined_iff {now : ℕ} {c : Json} {p : Parsed} {pps : List PropertyPredicate}
    (hshape : ∀ m ∈ c.members, ShapedAs m.2) (hp : parseQueryConstraints now c = .ok p)
    (hpps : p.predicates.mapM constructSearchTerm = .ok pps) (props : Props) :
    Combined p.pOp pps props ↔ Selected c.members props := by
  obtain ⟨⟨ppss, hall, rfl⟩, -⟩ := translates_iff.1 ⟨p, hp, hpps⟩
  obtain ⟨-, -, -, -, -, hor⟩ := parseQueryConstraints_inv hp
  have hlisted : (∃ m ∈ c.members, memberIsList m = true) ↔ ∃ m ∈ c.members, IsListed m :=
    exists_congr fun m => and_congr_right fun hm => by
      obtain ⟨pps, -, htrans⟩ := forall₂_mem_left hall hm
      exact memberIsList_iff htrans
  have hexists : ∀ {ms : List (String × Json)} {ppss : List (List PropertyPredicate)},
      (∀ m ∈ ms, m ∈ c.members) → List.Forall₂ MemberTranslates ms ppss →
        ((∃ pp ∈ ppss.flatten, passes pp props = true) ↔
          ∃ m ∈ ms, m.1 ≠ "_deletion" ∧ Asked m props) := by
    intro ms ppss hsub hall
    induction hall with
    | nil => simp
    | @cons m pps ms ppss hhead _ ih =>
        obtain ⟨hm, hrest⟩ := List.forall_mem_cons.1 hsub
        have hone : (∃ pp ∈ pps, passes pp props = true) ↔ m.1 ≠ "_deletion" ∧ Asked m props := by
          by_cases hdel : m.1 = "_deletion"
          · obtain ⟨-, rfl⟩ | ⟨hno, -⟩ := memberTranslates_iff.1 hhead
            · simp [hdel]
            · exact absurd hdel hno
          · by_cases hlist : IsListed m
            · obtain ⟨key, j⟩ := m
              obtain ⟨-, o, vs, rfl⟩ := hlist
              rw [asked_listed hhead hdel props]
              exact (and_iff_right hdel).symm
            · obtain ⟨pp, rfl, hiff⟩ := asked_single ((hshape m hm).single hdel hlist) hhead hdel
              simp [hiff, hdel]
        rw [List.flatten_cons, List.exists_mem_cons_iff, ← ih hrest, ← hone]
        simp only [List.mem_append, or_and_right, exists_or]
  have hforall : ∀ {ms : List (String × Json)} {ppss : List (List PropertyPredicate)},
      (∀ m ∈ ms, m ∈ c.members ∧ ¬ IsListed m) → List.Forall₂ MemberTranslates ms ppss →
        ((∀ pp ∈ ppss.flatten, passes pp props = true) ↔
          ∀ m ∈ ms, m.1 ≠ "_deletion" → Asked m props) := by
    intro ms ppss hsub hall
    induction hall with
    | nil => simp
    | @cons m pps ms ppss hhead _ ih =>
        obtain ⟨⟨hm, hlist⟩, hrest⟩ := List.forall_mem_cons.1 hsub
        have hone : (∀ pp ∈ pps, passes pp props = true) ↔
            (m.1 ≠ "_deletion" → Asked m props) := by
          by_cases hdel : m.1 = "_deletion"
          · obtain ⟨-, rfl⟩ | ⟨hno, -⟩ := memberTranslates_iff.1 hhead
            · simp [hdel]
            · exact absurd hdel hno
          · obtain ⟨pp, rfl, hiff⟩ := asked_single ((hshape m hm).single hdel hlist) hhead hdel
            simp [hiff, hdel]
        rw [List.flatten_cons, List.forall_mem_append, hone, ih hrest, List.forall_mem_cons]
  rw [hlisted] at hor
  rw [Selected]
  by_cases hany : ∃ m ∈ c.members, IsListed m
  · rw [hor.2 hany, Combined, hexists (fun _ h => h) hall]
    have hno : ¬ ∀ m ∈ c.members, ¬ IsListed m := by simpa using hany
    simp only [hany, hno, true_and, false_and, or_false]
  · have hand : p.pOp = .and := by
      cases hop : p.pOp with
      | and => rfl
      | or => exact absurd (hor.1 hop) hany
    have hno : ∀ m ∈ c.members, ¬ IsListed m := fun m hm hlist => hany ⟨m, hm, hlist⟩
    rw [hand, Combined, hforall (fun m hm => ⟨hm, hno m hm⟩) hall]
    simp only [hany, false_and, false_or]
    exact (and_iff_right hno).symm

/-! ### The queries for the ids -/

/-- The node matches the constraints of a query, whose predicates are these. -/
def Constraints.Match (qc : Constraints) (pps : List PropertyPredicate) (g : Graph)
    (n : NodeID) : Prop :=
  ∃ nd, g.node n = some nd ∧ tagMatches qc.tag.resolve nd.tag = true ∧
    Combined qc.pOp pps nd.props

/-- The node is the descriptor of the set with the id. -/
def Graph.IsDescriptor (g : Graph) (setName : String) (d : ℤ) (n : NodeID) : Prop :=
  ∃ nd, g.node n = some nd ∧ nd.tag = stringID "VD:DESC" ∧
    nd.props (stringID (descIdProp setName)) = some (.integer d)

omit [Platform.Predicates] in
/-- A node has one id in a set. -/
theorem isDescriptor_id {g : Graph} {setName : String} {d e : ℤ} {n : NodeID}
    (h : g.IsDescriptor setName d n) (h' : g.IsDescriptor setName e n) : d = e := by
  obtain ⟨nd, hnd, -, hid⟩ := h
  obtain ⟨nd', hnd', -, hid'⟩ := h'
  obtain rfl := Option.some.inj (hnd.symm.trans hnd')
  injection Option.some.inj (hid.symm.trans hid')

/-- The constraint of the query for an id. -/
def idConstraint (setName : String) (d : ℤ) : String × Json :=
  (descIdProp setName, .array [.string "==", .int d])

/-- The command asks for the descriptor with the id. -/
def AsksFor (setName : String) (now : ℕ) (c : Json) (info : ResultInfo) (d : ℤ) (cmd : Command) :
    Prop :=
  ∃ c' p, nodeConstraints setName c d = .ok c' ∧ parseOptional now c' = .ok p ∧
    cmd.queryNode.constraints = PMGDQuery.constraintsOf "VD:DESC" false p ∧
    cmd.queryNode.results = info

omit [Platform.Predicates] in
/-- Induction on the ids. -/
theorem queryIds_inv {setName : String} {c results limited : Json} {info : ResultInfo}
    {ids : List ℤ} {q q' : PMGDQuery} (hlimited : results.setMember "limit" (.int 1) = .ok limited)
    (hinfo : parseQueryResults limited = .ok info)
    (h : queryIds setName c results ids q = .ok q') :
    ∃ cmds, q'.cmds = q.cmds ++ cmds ∧ q'.now = q.now ∧
      List.Forall₂ (AsksFor setName q.now c info) ids cmds := by
  induction ids generalizing q with
  | nil =>
      obtain rfl := Except.ok.inj h
      exact ⟨[], (List.append_nil _).symm, rfl, .nil⟩
  | cons d ids ih =>
      obtain ⟨c', hc', h⟩ := bind_ok_inv h
      obtain ⟨limited', hlimited', h⟩ := bind_ok_inv h
      obtain rfl := Except.ok.inj (hlimited.symm.trans hlimited')
      obtain ⟨q₁, hq₁, h⟩ := bind_ok_inv h
      obtain ⟨link, -, hq₁⟩ := bind_ok_inv hq₁
      obtain ⟨p, hp, hq₁⟩ := bind_ok_inv hq₁
      obtain ⟨info', hinfo', hq₁⟩ := bind_ok_inv hq₁
      obtain rfl := Except.ok.inj (hinfo.symm.trans hinfo')
      obtain rfl := Except.ok.inj hq₁
      obtain ⟨cmds, hcmds, hnow, hall⟩ := ih h
      refine ⟨_ :: cmds, by rw [hcmds]; exact List.append_assoc .., hnow, .cons ?_ hall⟩
      exact ⟨c', p, hc', hp, rfl, rfl⟩

omit [Platform.Predicates] in
/-- An id that has been translated can be read. -/
theorem idConstraint_readable {setName : String} {now : ℕ} {ms : List (String × Json)} {d : ℤ}
    {pps : List PropertyPredicate} (hmem : idConstraint setName d ∈ ms)
    (h : Translates now (.object ms) pps) : (Json.int d).asInt64 = .ok d := by
  obtain ⟨⟨ppss, hall, -⟩, -⟩ := translates_iff.1 h
  obtain ⟨pps', -, htrans⟩ := forall₂_mem_left hall hmem
  obtain ⟨hdel, -⟩ | ⟨-, k, hk, hterms⟩ := memberTranslates_iff.1 htrans
  · exact absurd hdel.symm (descIdProp_ne (by decide))
  · obtain rfl := Option.some.inj hk
    have heq : Comparison.ofString "==" = some .eq := rfl
    simp only [Constraint.terms, heq, Option.map_eq_some_iff] at hterms
    obtain ⟨x, hx, -⟩ := hterms
    obtain ⟨p, hp, -⟩ := searchValue_eq_some.1 hx
    obtain ⟨z, hz, -⟩ := bind_ok_inv hp
    have hzd : z = d := by
      simp only [Json.asInt64, Json.asInteger] at hz
      split at hz
      · exact (Except.ok.inj hz).symm
      · cases hz
    exact hzd ▸ hz

omit [Platform.Predicates] in
/-- Such an id is written as an integer. -/
theorem idConstraint_written (setName : String) {d : ℤ} (h : (Json.int d).asInt64 = .ok d) :
    written (idConstraint setName d).2 = some [⟨"==", .integer d⟩] := by
  have hd : -2 ^ 63 ≤ d ∧ d < 2 ^ 63 := by
    simp only [Json.asInt64, Json.asInteger] at h
    split at h
    next hd => exact ⟨hd.1, by omega⟩
    next => cases h
  have hvalue : writtenValue (.int d) = some (.integer d) := if_pos hd
  have hop : "==" ∈ comparisons := by decide
  simp only [idConstraint, written, Json.asString, Except.toOption, Option.bind_some,
    writtenBy, if_pos hop, hvalue, Option.map_some]

/-- A constraint of the query for an id, under its name in the graph. -/
def Reached (setName : String) (c : Json) (m : String × Json) : Prop :=
  ∃ m' ∈ c.members, Reaches setName c m'.1 ∧ m = (graphKey setName m'.1, m'.2)

/-- One of them has a list of values. -/
def HasList (setName : String) (c : Json) : Prop := ∃ m, Reached setName c m ∧ IsListed m

/-- What the query for an id finds: a descriptor with the id and all that is asked for; or, if
there is a list of values, a descriptor with the id or with any of that. -/
def Finds (g : Graph) (setName : String) (c : Json) (d : ℤ) (n : NodeID) : Prop :=
  ∃ nd, g.node n = some nd ∧ nd.tag = stringID "VD:DESC" ∧
    (HasList setName c ∧ (nd.props (stringID (descIdProp setName)) = some (.integer d) ∨
        ∃ m, Reached setName c m ∧ m.1 ≠ "_deletion" ∧ Asked m nd.props) ∨
      ¬ HasList setName c ∧ nd.props (stringID (descIdProp setName)) = some (.integer d) ∧
        ∀ m, Reached setName c m → m.1 ≠ "_deletion" → Asked m nd.props)

omit [Platform.Predicates] in
/-- The constraints of the query for an id are those of the command and the one on the id. -/
theorem AsksFor.translates {setName : String} {now : ℕ} {c : Json} {info : ResultInfo} {d : ℤ}
    {command : Command} {pps : List PropertyPredicate} (hc : c.Ordered)
    (h : AsksFor setName now c info d command)
    (hpps : command.queryNode.constraints.predicates.mapM constructSearchTerm = .ok pps) :
    ∃ ms p, parseQueryConstraints now (.object ms) = .ok p ∧
      p.predicates.mapM constructSearchTerm = .ok pps ∧
      command.queryNode.constraints = PMGDQuery.constraintsOf "VD:DESC" false p ∧
      ∀ m, m ∈ ms ↔ m = idConstraint setName d ∨ m.1 ≠ descIdProp setName ∧ m ∈ c.members := by
  obtain ⟨c₁, p, hc₁, hp, hqc, -⟩ := h
  obtain ⟨ms, hset, -, hmem⟩ :=
    hc.setMember (descIdProp setName) (.array [.string "==", .int d])
  obtain rfl := Except.ok.inj (hc₁.symm.trans hset)
  rw [hqc] at hpps
  exact ⟨ms, p, hp, hpps, hqc, hmem⟩

omit [Platform.Predicates] in
/-- The id can be read. -/
theorem AsksFor.readable {setName : String} {now : ℕ} {c : Json} {info : ResultInfo} {d : ℤ}
    {command : Command} {pps : List PropertyPredicate} (hc : c.Ordered)
    (h : AsksFor setName now c info d command)
    (hpps : command.queryNode.constraints.predicates.mapM constructSearchTerm = .ok pps) :
    (Json.int d).asInt64 = .ok d := by
  obtain ⟨ms, p, hparse, hpredicates, -, hmem⟩ := h.translates hc hpps
  exact idConstraint_readable ((hmem _).2 (.inl rfl)) ⟨p, hparse, hpredicates⟩

variable [Platform.Integers] [Platform.Identifiers]

/-- The constraint on the id asks for the id. -/
theorem asked_id (setName : String) {d : ℤ} (hd : (Json.int d).asInt64 = .ok d)
    (props : Props) :
    Asked (idConstraint setName d) props ↔
      props (stringID (descIdProp setName)) = some (.integer d) := by
  have hkey : stringID (descIdProp setName) ≠ 0 :=
    Platform.Integers.stringID_ne_zero _ (descIdProp_ne (by decide)).symm
  have hnolist : alternatives (idConstraint setName d).2 = none := rfl
  have hcompares : ∀ v x, Compares "==" v x ↔ Predicates.equals v x := fun v x => by
    simp [Compares]
  rw [← Platform.Identifiers.passes_equal _ _ _ hkey,
    Platform.Predicates.passes_one _ _ _ _ hkey (by decide) rfl, Asked, hnolist,
    idConstraint_written setName hd]
  have hkey' : stringID (idConstraint setName d).1 ≠ 0 := hkey
  simp only [reduceCtorEq, false_and, exists_false, hkey', false_or, true_and,
    Option.some.injEq, forall_eq', OpsInOrder, true_imp_iff, List.forall_mem_singleton, hcompares]
  rfl

/-- **The query for an id** matches the nodes that it should find. -/
theorem AsksFor.match_iff {setName : String} {now : ℕ} {cmd c c' : Json} {info : ResultInfo}
    {d : ℤ} {command : Command} {pps : List PropertyPredicate} {g : Graph} {n : NodeID}
    (hcmd : cmd.get "constraints" = .ok c) (hc : c.Ordered)
    (hshape : ∀ m ∈ c.members, ShapedAs m.2)
    (hc' : constraints setName cmd = .ok c') (h : AsksFor setName now c' info d command)
    (hpps : command.queryNode.constraints.predicates.mapM constructSearchTerm = .ok pps) :
    command.queryNode.constraints.Match pps g n ↔ Finds g setName c d n := by
  obtain ⟨hordered, hreach⟩ := constraints_reach hcmd hc hc'
  obtain ⟨ms, p, hparse, hpredicates, hqc, hmem⟩ := h.translates hordered hpps
  have hmember : ∀ m, m ∈ ms ↔ m = idConstraint setName d ∨ Reached setName c m := by
    intro m
    rw [hmem]
    refine or_congr_right ⟨fun hm => (hreach m hm.1).1 hm.2, ?_⟩
    rintro ⟨m', hm', hreaches, rfl⟩
    have hne : graphKey setName m'.1 ≠ descIdProp setName := by
      rw [graphKey]
      split
      · exact descIdProp_ne (by decide)
      · rw [if_neg hreaches.1]
        exact hreaches.2.1
    exact ⟨hne, (hreach _ hne).2 ⟨m', hm', hreaches, rfl⟩⟩
  have hasked := asked_id setName (h.readable hordered hpps)
  have hid : (idConstraint setName d).1 ≠ "_deletion" := (descIdProp_ne (by decide)).symm
  have hnotlisted : ¬ IsListed (idConstraint setName d) := by
    rintro ⟨-, o, vs, hj⟩
    cases hj
  have hshaped : ∀ m ∈ (Json.object ms).members, ShapedAs m.2 := by
    intro m hm
    obtain rfl | ⟨m', hm', -, rfl⟩ := (hmember m).1 hm
    · exact .inl ⟨_, _, rfl⟩
    · exact hshape m' hm'
  have hlist : (∃ m ∈ ms, IsListed m) ↔ HasList setName c := by
    constructor
    · rintro ⟨m, hm, hlisted⟩
      obtain rfl | hreached := (hmember m).1 hm
      · exact absurd hlisted hnotlisted
      · exact ⟨m, hreached, hlisted⟩
    · rintro ⟨m, hreached, hlisted⟩
      exact ⟨m, (hmember m).2 (.inr hreached), hlisted⟩
  have hselected : ∀ props, Selected ms props ↔
      HasList setName c ∧ (props (stringID (descIdProp setName)) = some (.integer d) ∨
          ∃ m, Reached setName c m ∧ m.1 ≠ "_deletion" ∧ Asked m props) ∨
        ¬ HasList setName c ∧ props (stringID (descIdProp setName)) = some (.integer d) ∧
          ∀ m, Reached setName c m → m.1 ≠ "_deletion" → Asked m props := by
    intro props
    rw [Selected, hlist, ← hlist, not_exists]
    refine or_congr (and_congr_right fun _ => ?_) (and_congr ?_ ?_)
    · constructor
      · rintro ⟨m, hm, hdel, hm'⟩
        obtain rfl | hreached := (hmember m).1 hm
        · exact .inl ((hasked props).1 hm')
        · exact .inr ⟨m, hreached, hdel, hm'⟩
      · rintro (hprop | ⟨m, hreached, hdel, hm⟩)
        · exact ⟨_, (hmember _).2 (.inl rfl), hid, (hasked props).2 hprop⟩
        · exact ⟨m, (hmember m).2 (.inr hreached), hdel, hm⟩
    · simp
    · constructor
      · intro hall
        exact ⟨(hasked props).1 (hall _ ((hmember _).2 (.inl rfl)) hid), fun m hreached =>
          hall m ((hmember m).2 (.inr hreached))⟩
      · rintro ⟨hprop, hall⟩ m hm hdel
        obtain rfl | hreached := (hmember m).1 hm
        · exact (hasked props).2 hprop
        · exact hall m hreached hdel
  have htag : stringID "VD:DESC" ≠ 0 := Platform.Integers.stringID_ne_zero _ (by decide)
  have htagged : ∀ nd : Node, tagMatches (stringID "VD:DESC") nd.tag = true ↔
      nd.tag = stringID "VD:DESC" := fun nd => by simp [tagMatches, htag]
  rw [hqc]
  refine exists_congr fun nd => and_congr_right fun _ => and_congr (htagged nd) ?_
  rw [← hselected]
  exact combined_iff (c := .object ms) hshaped hparse hpredicates nd.props

end

/-! ### What is shown of an entity -/

section Shown

variable {setName : String} {keys : List String} {withBlobs : Bool} {ms : List (String × Json)}

/-- What the response shows of an entity with these members. -/
def ShowsMember (setName : String) (keys : List String) (withBlobs : Bool)
    (ms : List (String × Json)) (m : String × Json) : Prop :=
  "_label" ∈ keys ∧ m.1 = "_label" ∧ ("VD:label", m.2) ∈ ms ∨
  "_id" ∈ keys ∧ m.1 = "_id" ∧ (descIdProp setName, m.2) ∈ ms ∨
  m.1 ≠ "VD:label" ∧ m.1 ≠ descIdProp setName ∧
    (withBlobs = true ∧ m = ("blob", .bool true) ∨ m ∈ ms ∧ (withBlobs = true → m.1 ≠ "blob"))

/-- The entity is shown as an object with these members, and its blob is that of the id. -/
def ShownAs [Platform] (setName : String) (keys : List String) (withBlobs : Bool) (ent : Json)
    (v : ℤ × List (String × Json)) : Prop :=
  ∃ ent', (if withBlobs then markBlob setName ent = .ok (v.1, ent') else ent' = ent) ∧
    convertEntity setName keys ent' = .ok (.object v.2)

/-- **A shown entity.** -/
theorem shown_object [Platform] (hms : SortedKeys ms)
    (hspecial : ∀ m ∈ ms, m.1 ≠ "_label" ∧ m.1 ≠ "_id") {jd : Json} {d : ℤ}
    (hid : (descIdProp setName, jd) ∈ ms) (hd : jd.asInt64 = .ok d) :
    ∃ ms', ShownAs setName keys withBlobs (.object ms) (d, ms') ∧ SortedKeys ms' ∧
      ∀ m, m ∈ ms' ↔ ShowsMember setName keys withBlobs ms m := by
  obtain ⟨marked, hmarked, hsorted, hmem⟩ : ∃ marked, (if withBlobs then
      markBlob setName (.object ms) = .ok (d, .object marked) else
        Json.object marked = .object ms) ∧ SortedKeys marked ∧ ∀ m, m ∈ marked ↔
      withBlobs = true ∧ m = ("blob", .bool true) ∨ m ∈ ms ∧ (withBlobs = true → m.1 ≠ "blob") := by
    cases withBlobs with
    | false => exact ⟨ms, rfl, hms, fun m => by simp⟩
    | true =>
        obtain ⟨hhas, hget⟩ := hasMember_of_mem hms hid
        obtain ⟨ms', hset, hsorted, hmem⟩ := setMember_object hms "blob" (.bool true)
        refine ⟨ms', ?_, hsorted, fun m => by rw [hmem]; simp [and_comm]⟩
        simp [markBlob, Json.touch, hhas, hget, hd, hset, bind, Except.bind, pure, Except.pure]
  have hlabel : "VD:label" ≠ descIdProp setName := descIdProp_ne (by decide)
  have hlabel' : "_label" ≠ descIdProp setName := descIdProp_ne (by decide)
  have hblob : "blob" ≠ descIdProp setName := descIdProp_ne (by decide)
  have hnospecial : ∀ m ∈ marked, m.1 ≠ "_label" ∧ m.1 ≠ "_id" := by
    intro m hm
    rcases (hmem m).1 hm with ⟨-, rfl⟩ | ⟨hm, -⟩
    · exact ⟨by simp, by simp⟩
    · exact hspecial m hm
  have hkept : ∀ {key v}, key ≠ "blob" → ((key, v) ∈ marked ↔ (key, v) ∈ ms) := by
    intro key v hkey
    rw [hmem]
    constructor
    · rintro (⟨-, heq⟩ | ⟨hm, -⟩)
      · exact absurd (Prod.mk.inj heq).1 hkey
      · exact hm
    · exact fun hm => .inr ⟨hm, fun _ => hkey⟩
  obtain ⟨ms₁, h₁, hms₁, hmem₁⟩ :=
    convertMember_object hsorted "VD:label" "_label" ("_label" ∈ keys)
  obtain ⟨ms₂, h₂, hms₂, hmem₂⟩ :=
    convertMember_object hms₁ (descIdProp setName) "_id" ("_id" ∈ keys)
  refine ⟨ms₂, ⟨_, hmarked, ?_⟩, hms₂, fun m => ?_⟩
  · rw [convertEntity, h₁]
    exact h₂
  · have hfirst : ∀ m, m ∈ ms₁ ↔ "_label" ∈ keys ∧ m.1 = "_label" ∧ ("VD:label", m.2) ∈ ms ∨
        m.1 ≠ "VD:label" ∧ m ∈ marked := by
      intro m
      rw [hmem₁, decide_eq_true_eq, hkept (by decide)]
      constructor
      · rintro ⟨hkey, hshown | ⟨hm, -⟩⟩
        · exact .inl hshown
        · exact .inr ⟨hkey, hm⟩
      · rintro (⟨hshown, hkey, hm⟩ | ⟨hkey, hm⟩)
        · exact ⟨by rw [hkey]; decide, .inl ⟨hshown, hkey, hm⟩⟩
        · exact ⟨hkey, .inr ⟨hm, fun _ hsame => absurd hsame (hnospecial m hm).1⟩⟩
    have hids : ∀ v, (descIdProp setName, v) ∈ ms₁ ↔ (descIdProp setName, v) ∈ ms := by
      intro v
      rw [hfirst, hkept hblob.symm]
      constructor
      · rintro (⟨-, hkey, -⟩ | ⟨-, hm⟩)
        · exact absurd hkey.symm hlabel'
        · exact hm
      · exact fun hm => .inr ⟨hlabel.symm, hm⟩
    have hnoid : ∀ m ∈ ms₁, m.1 ≠ "_id" := by
      intro m hm
      rcases (hfirst m).1 hm with ⟨-, hkey, -⟩ | ⟨-, hm⟩
      · rw [hkey]
        decide
      · exact (hnospecial m hm).2
    have hidKey : "_id" ≠ descIdProp setName := descIdProp_ne (by decide)
    rw [hmem₂, decide_eq_true_eq, hids, ShowsMember, ← hmem m]
    constructor
    · rintro ⟨hkey, hshown | ⟨hm, -⟩⟩
      · exact .inr (.inl hshown)
      · rcases (hfirst m).1 hm with hshown | ⟨hkey', hm⟩
        · exact .inl hshown
        · exact .inr (.inr ⟨hkey', hkey, hm⟩)
    · rintro (⟨hshown, hkey, hm⟩ | ⟨hshown, hkey, hm⟩ | ⟨hkey, hkey', hm⟩)
      · have hin := (hfirst m).2 (.inl ⟨hshown, hkey, hm⟩)
        exact ⟨by rw [hkey]; exact hlabel', .inr ⟨hin, fun _ hsame => absurd hsame (hnoid m hin)⟩⟩
      · exact ⟨by rw [hkey]; exact hidKey, .inl ⟨hshown, hkey, hm⟩⟩
      · have hin := (hfirst m).2 (.inr ⟨hkey, hm⟩)
        exact ⟨hkey', .inr ⟨hin, fun _ hsame => absurd hsame (hnoid m hin)⟩⟩

/-- The answer that shows these entities. -/
def shownAnswer (index : DescriptorIndex) (withBlobs : Bool)
    (vs : List (ℤ × List (String × Json))) : Reply where
  blobs := if withBlobs then vs.map fun v => (index.getDescriptor v.1).toOption.getD [] else []
  result := .ok (.object [("FindDescriptor", .object (
    if vs.isEmpty || vs.any fun v => v.2.isEmpty then
      [("returned", .int vs.length), ("status", .int 0)]
    else [("entities", .array (vs.map fun v => .object v.2)), ("returned", .int vs.length),
      ("status", .int 0)]))])

/-- Every entity has its blob. Induction on the entities. -/
theorem populate_shown [Platform] {index : DescriptorIndex} {ents : List Json}
    {vs : List (ℤ × List (String × Json))} (h : List.Forall₂ (ShownAs setName keys true) ents vs)
    (hget : ∀ v ∈ vs, ∃ b, index.getDescriptor v.1 = .ok b) :
    ∃ ents', populate index setName ents =
        (vs.map fun v => (index.getDescriptor v.1).toOption.getD [], ents', none) ∧
      List.Forall₂ (fun ent v => convertEntity setName keys ent = .ok (.object v.2)) ents' vs := by
  induction h with
  | nil => exact ⟨[], rfl, .nil⟩
  | @cons ent v ents vs hhead _ ih =>
      obtain ⟨⟨b, hb⟩, hrest⟩ := List.forall_mem_cons.1 hget
      obtain ⟨ents', hpopulate, hall⟩ := ih hrest
      obtain ⟨ent', hmark, hconvert⟩ := hhead
      rw [if_pos rfl] at hmark
      refine ⟨ent' :: ents', ?_, .cons hconvert hall⟩
      simp only [populate, hmark, hb, hpopulate, List.map_cons]
      rfl

/-- **The answer** depends on what is shown of the entities only. -/
theorem respond_shown [Platform] {handler : String → Except String DescriptorIndex}
    {index : DescriptorIndex} {setPath : String} {results list : Json} {ents : List Json}
    {vs : List (ℤ × List (String × Json))}
    (hblobs : getValue Json.asBool results "blob" false = .ok withBlobs)
    (hkeys : list.elements.mapM Json.asString = .ok keys)
    (hindex : handler setPath = .ok index)
    (hget : ∀ v ∈ vs, ∃ b, index.getDescriptor v.1 = .ok b)
    (h : List.Forall₂ (ShownAs setName keys withBlobs) ents vs) :
    respond handler setPath setName results list ents = shownAnswer index withBlobs vs := by
  have hnames : (vs.map fun v => Json.object v.2).mapM Json.memberNames =
      .ok (vs.map fun v => v.2.map Prod.fst) :=
    mapM_ok_iff.2 (List.forall₂_map_left_iff.2 (List.forall₂_map_right_iff.2
      (List.forall₂_same.2 fun _ _ => rfl)))
  have hpopulated : ∃ ents', populateBlobs handler setPath setName results ents =
      (if withBlobs then vs.map fun v => (index.getDescriptor v.1).toOption.getD [] else [],
        ents', none) ∧
      List.Forall₂ (fun ent v => convertEntity setName keys ent = .ok (.object v.2)) ents' vs := by
    cases withBlobs with
    | false =>
        refine ⟨ents, by simp [populateBlobs, hblobs], h.imp fun ent v hent => ?_⟩
        obtain ⟨ent', hsame, hconvert⟩ := hent
        rw [if_neg Bool.false_ne_true] at hsame
        exact hsame ▸ hconvert
    | true =>
        obtain ⟨ents', hpopulate, hall⟩ := populate_shown h hget
        exact ⟨ents', by simp [populateBlobs, hblobs, hindex, hpopulate], hall⟩
  obtain ⟨ents', hpopulate, hall⟩ := hpopulated
  have hconverted : ents'.mapM (convertEntity setName keys) =
      .ok (vs.map fun v => .object v.2) := mapM_ok_iff.2 (List.forall₂_map_right_iff.2 hall)
  have hempty : [] ∈ vs.map (fun v => v.2.map Prod.fst) ↔
      (vs.any fun v => v.2.isEmpty) = true := by simp
  have hlength := h.length_eq
  cases h with
  | nil => simp [respond, shownAnswer]
  | @cons ent v ents vs hhead hrest =>
      simp only [respond, hpopulate, convertProperties, hkeys, hconverted, finish, hnames, hempty,
        List.cons_ne_nil, if_false, bind, Except.bind, hlength, shownAnswer, List.isEmpty_cons,
        Bool.false_or]
      rfl

/-- The answers tell how many entities there are, and what is shown of them, unless nothing
is shown of one. -/
theorem shownAnswer_inj {index : DescriptorIndex} {vs ws : List (ℤ × List (String × Json))}
    (h : shownAnswer index withBlobs vs = shownAnswer index withBlobs ws) :
    vs.length = ws.length ∧ (vs.map Prod.snd = ws.map Prod.snd ∨ ∃ w ∈ ws, w.2 = []) := by
  have hresult := congrArg Reply.result h
  simp only [shownAnswer, Except.ok.injEq, Json.object.injEq, List.cons.injEq, Prod.mk.injEq,
    true_and, and_true] at hresult
  by_cases hvs : (vs.isEmpty || vs.any fun v => v.2.isEmpty) = true
  · by_cases hws : (ws.isEmpty || ws.any fun w => w.2.isEmpty) = true
    · rw [if_pos hvs, if_pos hws] at hresult
      simp only [List.cons.injEq, Prod.mk.injEq, Json.int.injEq, Int.natCast_inj, true_and,
        and_true] at hresult
      refine ⟨hresult, ?_⟩
      rw [Bool.or_eq_true, List.any_eq_true] at hws
      rcases hws with hnil | ⟨w, hw, hempty⟩
      · rw [List.isEmpty_iff] at hnil
        subst hnil
        rw [List.eq_nil_of_length_eq_zero hresult]
        exact .inl rfl
      · exact .inr ⟨w, hw, List.isEmpty_iff.1 hempty⟩
    · rw [if_pos hvs, if_neg hws] at hresult
      simp at hresult
  · by_cases hws : (ws.isEmpty || ws.any fun w => w.2.isEmpty) = true
    · rw [if_neg hvs, if_pos hws] at hresult
      simp at hresult
    · rw [if_neg hvs, if_neg hws] at hresult
      simp only [List.cons.injEq, Prod.mk.injEq, Json.int.injEq, Json.array.injEq, Int.natCast_inj,
        true_and, and_true] at hresult
      refine ⟨hresult.2, .inl ?_⟩
      have hinj : Function.Injective Json.object := fun _ _ h => Json.object.inj h
      have hmap : (vs.map Prod.snd).map Json.object = (ws.map Prod.snd).map Json.object := by
        simpa [List.map_map, Function.comp_def] using hresult.1
      exact hinj.list_map hmap

variable {rowKeys : List String} {withDistance : Bool} {x : Double}

/-- An entity with its distance. -/
def distanced (withDistance : Bool) (x : Double) (ms : List (String × Json)) :
    List (String × Json) :=
  if withDistance then Json.insertMember "_distance" (.real x) ms else ms

/-- Adding a distance to an entity gives the object with the distance set. -/
theorem addDistance_object [Platform] (ms : List (String × Json)) :
    addDistance withDistance x (.object ms) = .ok (.object (distanced withDistance x ms)) := by
  cases withDistance <;> rfl

/-- The members of the entity with its distance are the distance and the others. -/
theorem mem_distanced (hms : SortedKeys ms) (m : String × Json) :
    m ∈ distanced withDistance x ms ↔ withDistance = true ∧ m = ("_distance", .real x) ∨
      m ∈ ms ∧ (withDistance = true → m.1 ≠ "_distance") := by
  cases withDistance with
  | false => simp [distanced]
  | true =>
      rw [distanced, if_pos rfl, (insertMember_ordered hms _ _).2]
      simp [and_comm]

/-- The keys stay sorted when the distance is set. -/
theorem sorted_distanced (hms : SortedKeys ms) : SortedKeys (distanced withDistance x ms) := by
  cases withDistance with
  | false => exact hms
  | true => exact (insertMember_ordered hms _ _).1

/-- The results ask for no property of a descriptor: all that is in a row is taken out again,
or overwritten. -/
def ShowsNothing (setName : String) (keys rowKeys : List String) (withBlobs : Bool) : Prop :=
  (∀ key ∈ rowKeys, key = "VD:label" ∨ key = descIdProp setName ∨
    withBlobs = true ∧ key = "blob") ∧ "_label" ∉ keys ∧ "_id" ∉ keys

/-- What a row is for the response: it has the keys that are asked for, none of them a
special one, and the id. -/
structure ProperRow (setName : String) (rowKeys : List String) (d : ℤ)
    (ms : List (String × Json)) : Prop where
  sorted : SortedKeys ms
  mem : ∀ m ∈ ms, m.1 ∈ rowKeys
  total : ∀ key ∈ rowKeys, ∃ v, (key, v) ∈ ms
  id : (descIdProp setName, .int d) ∈ ms
  label : "VD:label" ∈ rowKeys
  special : ∀ key ∈ rowKeys, isSpecial key = false

/-- The row of a descriptor has none of the members that the answer adds to it. -/
theorem ProperRow.not_special {d : ℤ} (h : ProperRow setName rowKeys d ms) {m : String × Json}
    (hm : m ∈ ms) : m.1 ≠ "_label" ∧ m.1 ≠ "_id" ∧ m.1 ≠ "_distance" := by
  have hno := h.special m.1 (h.mem m hm)
  simpa [isSpecial, and_assoc] using hno

/-- If nothing of a descriptor is shown, its row and an empty answer look alike. -/
theorem shows_phantom {d : ℤ} (h : ProperRow setName rowKeys d ms)
    (hnothing : ShowsNothing setName keys rowKeys withBlobs) (m : String × Json) :
    ShowsMember setName keys withBlobs (distanced withDistance x ms) m ↔
      ShowsMember setName keys withBlobs
        (distanced withDistance x [(descIdProp setName, .null)]) m := by
  obtain ⟨hkeys, hlabel, hid⟩ := hnothing
  simp only [ShowsMember, hlabel, hid, false_and, false_or]
  refine and_congr_right fun hne => and_congr_right fun hne' => or_congr_right ?_
  refine and_congr_left fun hblob => ?_
  rw [mem_distanced h.sorted, mem_distanced (.single ..)]
  refine or_congr_right (and_congr_left fun _ => ⟨fun hm => ?_, fun hm => ?_⟩)
  · rcases hkeys m.1 (h.mem m hm) with hkey | hkey | ⟨hb, hkey⟩
    · exact absurd hkey hne
    · exact absurd hkey hne'
    · exact absurd hkey (hblob hb)
  · rw [List.mem_singleton.1 hm] at hne'
    exact absurd rfl hne'

/-- Otherwise something of the row is shown, and not of the empty answer. -/
theorem shows_row {d : ℤ} (h : ProperRow setName rowKeys d ms)
    (hsomething : ¬ ShowsNothing setName keys rowKeys withBlobs) :
    ∃ m, ShowsMember setName keys withBlobs (distanced withDistance x ms) m ∧
      ¬ ShowsMember setName keys withBlobs
        (distanced withDistance x [(descIdProp setName, .null)]) m := by
  have hlabelId : "VD:label" ≠ descIdProp setName := descIdProp_ne (by decide)
  have hphantom : ∀ {m : String × Json}, ShowsMember setName keys withBlobs
      (distanced withDistance x [(descIdProp setName, .null)]) m →
        m = ("_id", .null) ∨ withBlobs = true ∧ m.1 = "blob" ∨ m.1 = "_distance" := by
    intro m hm
    have hin : ∀ {m : String × Json}, m ∈ distanced withDistance x [(descIdProp setName, .null)] →
        m.1 = "_distance" ∨ m = (descIdProp setName, .null) := by
      intro m hm
      rcases (mem_distanced (.single ..) m).1 hm with ⟨-, rfl⟩ | ⟨hm, -⟩
      · exact .inl rfl
      · exact .inr (List.mem_singleton.1 hm)
    rcases hm with ⟨-, -, hm⟩ | ⟨-, hkey, hm⟩ | ⟨-, hne, ⟨hb, rfl⟩ | ⟨hm, -⟩⟩
    · rcases hin hm with hkey | heq
      · exact absurd hkey (by simp)
      · exact absurd (Prod.mk.inj heq).1 hlabelId
    · rcases hin hm with hkey' | heq
      · exact absurd hkey'.symm (descIdProp_ne (by decide))
      · exact .inl (Prod.ext hkey (Prod.mk.inj heq).2)
    · exact .inr (.inl ⟨hb, rfl⟩)
    · rcases hin hm with hkey | rfl
      · exact .inr (.inr hkey)
      · exact absurd rfl hne
  have hkeep : ∀ {m}, m ∈ ms → m ∈ distanced withDistance x ms := fun hm =>
    (mem_distanced h.sorted _).2 (.inr ⟨hm, fun _ => (h.not_special hm).2.2⟩)
  by_cases hlabel : "_label" ∈ keys
  · obtain ⟨v, hv⟩ := h.total _ h.label
    refine ⟨("_label", v), .inl ⟨hlabel, rfl, hkeep hv⟩, fun hm => ?_⟩
    rcases hphantom hm with heq | ⟨-, hkey⟩ | hkey <;> simp at *
  by_cases hid : "_id" ∈ keys
  · refine ⟨("_id", .int d), .inr (.inl ⟨hid, rfl, hkeep h.id⟩), fun hm => ?_⟩
    rcases hphantom hm with heq | ⟨-, hkey⟩ | hkey <;> simp at *
  · obtain ⟨key, hkey, hother⟩ : ∃ key ∈ rowKeys, ¬ (key = "VD:label" ∨ key = descIdProp setName ∨
        withBlobs = true ∧ key = "blob") := by
      by_contra hno
      push Not at hno
      exact hsomething ⟨hno, hlabel, hid⟩
    simp only [not_or, not_and] at hother
    obtain ⟨hne, hne', hblob⟩ := hother
    obtain ⟨v, hv⟩ := h.total key hkey
    refine ⟨(key, v), .inr (.inr ⟨hne, hne', .inr ⟨hkeep hv, hblob⟩⟩), fun hm => ?_⟩
    obtain ⟨-, hnotid, hnotdistance⟩ := h.not_special hv
    rcases hphantom hm with heq | ⟨hb, hkey⟩ | hkey
    · exact hnotid (Prod.mk.inj heq).1
    · exact hblob hb hkey
    · exact hnotdistance hkey

/-- An answer tells how many entities it was made of. -/
theorem respond_returned [Platform] {handler : String → Except String DescriptorIndex}
    {setPath : String} {results list : Json} {ents : List Json} {blobs : List Bytes}
    {ms : List (String × Json)} (h : respond handler setPath setName results list ents =
      ⟨blobs, .ok (.object [("FindDescriptor", .object ms)])⟩) :
    ("returned", .int ents.length) ∈ ms := by
  have hresult := congrArg Reply.result h
  rw [respond] at hresult
  by_cases hnil : ents = []
  · rw [if_pos hnil] at hresult
    simp only [Except.ok.injEq, Json.object.injEq, List.cons.injEq, Prod.mk.injEq, true_and,
      and_true] at hresult
    subst hnil
    rw [← hresult]
    exact List.mem_cons_self ..
  · rw [if_neg hnil] at hresult
    dsimp only at hresult
    split at hresult
    · cases hresult
    · simp only [Except.ok.injEq, Json.object.injEq, List.cons.injEq, Prod.mk.injEq, true_and,
        and_true] at hresult
      rw [← hresult]
      simp
    · dsimp only at hresult
      cases hconvert : convertProperties setName list
          (populateBlobs handler setPath setName results ents).2.1 with
      | error e => simp [hconvert, bind, Except.bind, Except.mapError] at hresult
      | ok converted =>
          cases hnames : converted.mapM Json.memberNames with
          | error e =>
              simp [hconvert, finish, hnames, bind, Except.bind, Except.mapError] at hresult
          | ok names =>
              simp only [hconvert, finish, hnames, bind, Except.bind, pure, Except.pure,
                Except.mapError, Except.ok.injEq, Json.object.injEq, List.cons.injEq,
                Prod.mk.injEq, true_and, and_true] at hresult
              rw [← hresult]
              split <;> simp

end Shown

/-! ### Matching the answers with the ids -/

section Matching

variable [Platform] {setName : String} {idsArray : List ℤ} {d : ℤ}
  {Row : ℤ → List (String × Json) → Prop}

/-- The entity of the answer to the query for an id: the row of the descriptor, or null. -/
def EntityOf (Row : ℤ → List (String × Json) → Prop) (d : ℤ) (ent : Json) : Prop :=
  (∃ ms, Row d ms ∧ ent = .object ms) ∨ (∀ ms, ¬ Row d ms) ∧ ent = .null

/-- A row has the id of its descriptor, and there is one row for an id. -/
structure IsRowOf (setName : String) (Row : ℤ → List (String × Json) → Prop) : Prop where
  sorted : ∀ d ms, Row d ms → SortedKeys ms
  id : ∀ d ms, Row d ms → (descIdProp setName, .int d) ∈ ms
  readable : ∀ d ms, Row d ms → (Json.int d).asInt64 = .ok d
  unique : ∀ d ms ms', Row d ms → Row d ms' → ms = ms'

/-- What `operator[]` makes of a null entity. -/
def phantom (setName : String) : Json := .object [(descIdProp setName, .null)]

/-- An answer with a row is the entity of its id. -/
theorem findEntity_cons_row (hRow : IsRowOf setName Row) {x : ℤ} {ms : List (String × Json)}
    (h : Row x ms) (ents : List Json) :
    findEntity setName idsArray d (.object ms :: ents) =
      if x = d ∧ x ∈ idsArray then .ok (some (.object ms))
      else findEntity setName idsArray d ents := by
  obtain ⟨hhas, hget⟩ := hasMember_of_mem (hRow.sorted x ms h) (hRow.id x ms h)
  simp only [findEntity, Json.touch, hhas, hget, hRow.readable x ms h, bind, Except.bind, pure,
    Except.pure, if_true]

/-- An answer without one is the entity of the id 0. -/
theorem findEntity_cons_null (ents : List Json) :
    findEntity setName idsArray d (.null :: ents) =
      if 0 = d ∧ 0 ∈ idsArray then .ok (some (phantom setName))
      else findEntity setName idsArray d ents := by
  have hget : (phantom setName).get (descIdProp setName) = .ok .null := by
    simp [phantom, Json.get]
  simp only [findEntity, Json.touch, Json.hasMember, Json.setMember, bind, Except.bind, pure,
    Except.pure, Bool.false_eq_true, if_false]
  rw [← phantom, hget]
  rfl

/-- The descriptor of the id is found, unless an empty answer comes first. Induction on the
answers before it. -/
theorem findEntity_row (hRow : IsRowOf setName Row) {as bs : List ℤ} {ents : List Json}
    (hents : List.Forall₂ (EntityOf Row) (as ++ d :: bs) ents) (hnot : d ∉ as)
    (hgood : d = 0 → ∀ x ∈ as, ∃ ms, Row x ms) {ms : List (String × Json)} (hrow : Row d ms)
    (hd : d ∈ idsArray) : findEntity setName idsArray d ents = .ok (some (.object ms)) := by
  induction as generalizing ents with
  | nil =>
      cases hents with
      | cons hhead _ =>
          obtain ⟨ms', hrow', rfl⟩ | ⟨hnone, -⟩ := hhead
          · rw [findEntity_cons_row hRow hrow', if_pos ⟨rfl, hd⟩, hRow.unique d ms ms' hrow hrow']
          · exact absurd hrow (hnone ms)
  | cons x as ih =>
      cases hents with
      | cons hhead hrest =>
          obtain ⟨hne, hnot⟩ := not_or.1 (List.mem_cons.not.1 hnot)
          have hfound := ih hrest hnot fun h0 x hx => hgood h0 x (List.mem_cons_of_mem _ hx)
          obtain ⟨ms', hrow', rfl⟩ | ⟨hnone, rfl⟩ := hhead
          · rw [findEntity_cons_row hRow hrow', if_neg fun h => hne h.1.symm, hfound]
          · rw [findEntity_cons_null, if_neg, hfound]
            rintro ⟨h0, -⟩
            obtain ⟨ms', hms'⟩ := hgood h0.symm x (List.mem_cons_self ..)
            exact hnone ms' hms'

/-- **The id 0** is matched with the first empty answer. -/
theorem findEntity_phantom (hRow : IsRowOf setName Row) {as bs : List ℤ} {ents : List Json}
    (hents : List.Forall₂ (EntityOf Row) (as ++ 0 :: bs) ents) (hnot : 0 ∉ as)
    (hbad : ∃ x ∈ as ++ [0], ∀ ms, ¬ Row x ms) (hd : 0 ∈ idsArray) :
    findEntity setName idsArray 0 ents = .ok (some (phantom setName)) := by
  induction as generalizing ents with
  | nil =>
      obtain ⟨x, hx, hnone⟩ := hbad
      obtain rfl := List.mem_singleton.1 hx
      cases hents with
      | cons hhead _ =>
          obtain ⟨ms, hrow, -⟩ | ⟨-, rfl⟩ := hhead
          · exact absurd hrow (hnone ms)
          · rw [findEntity_cons_null, if_pos ⟨rfl, hd⟩]
  | cons x as ih =>
      cases hents with
      | cons hhead hrest =>
          obtain ⟨hne, hnot⟩ := not_or.1 (List.mem_cons.not.1 hnot)
          obtain ⟨ms, hrow, rfl⟩ | ⟨-, rfl⟩ := hhead
          · obtain ⟨y, hy, hnone⟩ := hbad
            have hy : y ∈ as ++ [0] := by
              rcases List.mem_cons.1 hy with rfl | hy
              · exact absurd hrow (hnone ms)
              · exact hy
            rw [findEntity_cons_row hRow hrow, if_neg fun h => hne h.1.symm]
            exact ih hrest hnot ⟨y, hy, hnone⟩
          · rw [findEntity_cons_null, if_pos ⟨rfl, hd⟩]

/-- An id other than 0 whose descriptor is not in the answers has no entity. -/
theorem findEntity_none (hRow : IsRowOf setName Row) {ds : List ℤ} {ents : List Json}
    (hents : List.Forall₂ (EntityOf Row) ds ents) (hd : d ≠ 0) (hnone : ∀ ms, ¬ Row d ms) :
    findEntity setName idsArray d ents = .ok none := by
  induction hents with
  | nil => rfl
  | @cons x ent ds ents hhead _ ih =>
      obtain ⟨ms, hrow, rfl⟩ | ⟨-, rfl⟩ := hhead
      · rw [findEntity_cons_row hRow hrow, if_neg, ih]
        rintro ⟨rfl, -⟩
        exact hnone ms hrow
      · rw [findEntity_cons_null, if_neg fun h => hd h.1.symm, ih]

/-- The entities of the ids that have one. Induction on the ids. -/
theorem matchEntities_eq {computeDistance : Bool} {entities : List Json}
    {listed : ℤ × Double → Prop} [DecidablePred listed] {entityOf : ℤ × Double → Json}
    {ps : List (ℤ × Double)} (hlisted : ∀ p ∈ ps, listed p → ∃ ent,
      findEntity setName idsArray p.1 entities = .ok (some ent) ∧
        addDistance computeDistance p.2 ent = .ok (entityOf p))
    (hother : ∀ p ∈ ps, ¬ listed p → findEntity setName idsArray p.1 entities = .ok none) :
    matchEntities setName idsArray computeDistance entities ps =
      .ok ((ps.filter fun p => listed p).map entityOf) := by
  induction ps with
  | nil => rfl
  | cons p ps ih =>
      obtain ⟨hhead, hlisted⟩ := List.forall_mem_cons.1 hlisted
      obtain ⟨hhead', hother⟩ := List.forall_mem_cons.1 hother
      have hrest := ih hlisted hother
      by_cases hp : listed p
      · obtain ⟨ent, hfind, hadd⟩ := hhead hp
        simp [matchEntities, hfind, hadd, hrest, hp, bind, Except.bind, pure, Except.pure]
      · simp [matchEntities, hhead' hp, hrest, hp, bind, Except.bind, pure, Except.pure]

end Matching

/-! ### What was built -/

section Building

variable [Platform] {handler : String → Except String DescriptorIndex} {setName setPath : String}
  {dimensions : ℤ} {q q' : PMGDQuery} {cmd : Json} {blob : Bytes} {nearest : Nearest}

/-- A search that was built: the blob has the size of one vector, and the queries for the ids
follow the one for the set. -/
theorem constructNearest_inv {c r : Json}
    (h : constructNearest handler setName setPath dimensions c r q cmd blob = .ok (q', nearest)) :
    ∃ q₁ setCmd, q₁.cmds = q.cmds ++ [setCmd] ∧
      DescriptorsCommand.checkBlobSize blob dimensions 1 = true ∧
      queryIds setName c r (nearest.pair.map Prod.fst) q₁ = .ok q' ∧
      nearest.idsArray = nearest.pair.map Prod.fst := by
  obtain ⟨hasRef, -, h⟩ := bind_ok_inv h
  cases hasRef with
  | true => cases h
  | false =>
      obtain ⟨k, -, h⟩ := bind_ok_inv h
      obtain ⟨q₁, hq₁, h⟩ := bind_ok_inv h
      cases hsize : DescriptorsCommand.checkBlobSize blob dimensions 1 with
      | false =>
          simp only [hsize] at h
          cases h
      | true =>
          simp only [hsize] at h
          obtain ⟨index, -, h⟩ := bind_ok_inv h
          obtain ⟨found, -, h⟩ := bind_ok_inv h
          obtain ⟨q₂, hq₂, h⟩ := bind_ok_inv h
          obtain ⟨rfl, rfl⟩ := Prod.mk.inj (Except.ok.inj h)
          obtain ⟨link, -, hq₁⟩ := bind_ok_inv (ofJson_eq hq₁)
          obtain ⟨p, -, hq₁⟩ := bind_ok_inv hq₁
          obtain ⟨info, -, hq₁⟩ := bind_ok_inv hq₁
          obtain rfl := Except.ok.inj hq₁
          exact ⟨_, _, rfl, rfl, ofJson_eq hq₂, rfl⟩

/-- A nearest search is built from the constraints and the results of the command. -/
theorem constructProtobuf_inv (hset : cmd.get "set" = .ok (.string setName))
    (h : constructProtobuf handler setPath dimensions q cmd blob = .ok (q', some nearest)) :
    ∃ c r, constraints setName cmd = .ok c ∧ FindDescriptor.results setName cmd = .ok r ∧
      constructNearest handler setName setPath dimensions c r q cmd blob = .ok (q', nearest) := by
  obtain ⟨jsonName, hname, h⟩ := bind_ok_inv h
  obtain rfl := Except.ok.inj ((ofJson_eq hname).symm.trans hset)
  obtain ⟨name, hname, h⟩ := bind_ok_inv h
  obtain rfl := Except.ok.inj (ofJson_eq hname)
  by_cases hpath : setPath = ""
  · rw [if_pos hpath] at h
    cases h
  · rw [if_neg hpath] at h
    obtain ⟨c, hc, h⟩ := bind_ok_inv h
    obtain ⟨r, hr, h⟩ := bind_ok_inv h
    obtain ⟨linked, -, h⟩ := bind_ok_inv h
    refine ⟨c, r, ofJson_eq hc, ofJson_eq hr, ?_⟩
    cases linked with
    | true =>
        obtain ⟨q₁, -, h⟩ := bind_ok_inv h
        cases h
    | false =>
        obtain ⟨searched, -, h⟩ := bind_ok_inv h
        cases searched with
        | false =>
            obtain ⟨q₁, -, h⟩ := bind_ok_inv h
            cases h
        | true =>
            obtain ⟨⟨q₁, nearest'⟩, hnearest, h⟩ := bind_ok_inv h
            obtain ⟨rfl, heq⟩ := Prod.mk.inj (Except.ok.inj h)
            obtain rfl := Option.some.inj heq
            exact hnearest

/-- The names in the list of a command are appended to the response keys. -/
theorem getResponseType_inv {j : Json} {info info' : ResultInfo}
    (h : getResponseType j info = .ok info') : ∃ keys, j.elements.mapM Json.asString = .ok keys ∧
      info'.responseKeys = info.responseKeys ++ keys := by
  obtain ⟨keys, hkeys, h⟩ := bind_ok_inv h
  obtain rfl := Except.ok.inj h
  exact ⟨keys, hkeys, rfl⟩

/-- The elements of an array of strings are read back as these strings. -/
theorem elements_strings (keys : List String) :
    (Json.array (keys.map .string)).elements.mapM Json.asString = .ok keys := by
  rw [Json.elements_array]
  exact mapM_ok_iff.2 (List.forall₂_map_left_iff.2 (List.forall₂_same.2 fun _ _ => rfl))

/-- One member adds keys at most. -/
theorem parseResult_keys {m : String × Json} {info info' : ResultInfo}
    (h : parseResult info m = .ok info') : ∃ keys,
      info'.responseKeys = info.responseKeys ++ keys ∧
        (m.1 = "list" → m.2.elements.mapM Json.asString = .ok keys) := by
  have hnone : info'.responseKeys = info.responseKeys → m.1 ≠ "list" → ∃ keys,
      info'.responseKeys = info.responseKeys ++ keys ∧
        (m.1 = "list" → m.2.elements.mapM Json.asString = .ok keys) := fun hsame hne =>
    ⟨[], by rw [hsame, List.append_nil], fun heq => absurd heq hne⟩
  have hsome : ∀ {info₁ : ResultInfo}, getResponseType m.2 info₁ = .ok info' →
      info₁.responseKeys = info.responseKeys → ∃ keys,
        info'.responseKeys = info.responseKeys ++ keys ∧
          (m.1 = "list" → m.2.elements.mapM Json.asString = .ok keys) := fun h hsame => by
    obtain ⟨keys, hkeys, happend⟩ := getResponseType_inv h
    exact ⟨keys, by rw [happend, hsame], fun _ => hkeys⟩
  rw [parseResult] at h
  by_cases hlist : m.1 = "list"
  · rw [if_pos hlist] at h
    exact hsome h rfl
  rw [if_neg hlist] at h
  split at h
  · exact hnone (by rw [← Except.ok.inj h]) hlist
  split at h
  · exact hsome h rfl
  split at h
  · split at h
    · obtain ⟨jsonKey, -, h⟩ := bind_ok_inv h
      obtain ⟨sortKey, -, h⟩ := bind_ok_inv h
      split at h
      · obtain ⟨order, -, h⟩ := bind_ok_inv h
        split at h
        all_goals exact hnone (by rw [← Except.ok.inj h]) hlist
      · exact hnone (by rw [← Except.ok.inj h]) hlist
    · obtain ⟨sortKey, -, h⟩ := bind_ok_inv h
      exact hnone (by rw [← Except.ok.inj h]) hlist
  split at h
  · obtain ⟨limit, -, h⟩ := bind_ok_inv h
    exact hnone (by rw [← Except.ok.inj h]) hlist
  split at h
  · exact hsome h rfl
  · exact hnone (by rw [← Except.ok.inj h]) hlist

/-- The keys of a list are among those of the result. Induction on the members. -/
theorem parseResults_list {ms : List (String × Json)} {info info' : ResultInfo} {j : Json}
    (h : ms.foldlM parseResult info = .ok info') (hm : ("list", j) ∈ ms) :
    ∃ keys, j.elements.mapM Json.asString = .ok keys ∧ ∀ key ∈ keys, key ∈ info'.responseKeys := by
  have hgrow : ∀ {ms : List (String × Json)} {info info' : ResultInfo},
      ms.foldlM parseResult info = .ok info' →
        ∀ key ∈ info.responseKeys, key ∈ info'.responseKeys := by
    intro ms info info' h
    induction ms generalizing info with
    | nil =>
        obtain rfl := Except.ok.inj h
        exact fun _ hkey => hkey
    | cons m ms ih =>
        rw [List.foldlM_cons] at h
        obtain ⟨info₁, hfirst, h⟩ := bind_ok_inv h
        obtain ⟨keys, happend, -⟩ := parseResult_keys hfirst
        intro key hkey
        exact ih h key (by rw [happend]; exact List.mem_append_left _ hkey)
  induction ms generalizing info with
  | nil => cases hm
  | cons m ms ih =>
      rw [List.foldlM_cons] at h
      obtain ⟨info₁, hfirst, hrest⟩ := bind_ok_inv h
      rcases List.mem_cons.1 hm with rfl | hm
      · obtain ⟨keys, happend, hkeys⟩ := parseResult_keys hfirst
        refine ⟨keys, hkeys rfl, fun key hkey => hgrow hrest key ?_⟩
        rw [happend]
        exact List.mem_append_right _ hkey
      · exact ih hrest hm

end Building

/-! ### The search -/

section Search

variable [Platform]

/-- What a list shows for a key of a node. -/
def Graph.listed (g : Graph) (n : NodeID) (key : String) : Except QueryError Json :=
  PMGDProp.toJson (match g.props (.node n) (stringID key) with
    | some v => constructProtobufProperty v
    | none => constructMissingProperty)

/-- The members of the entity of a node in a list. -/
structure Graph.IsRow (g : Graph) (keys : List String) (n : NodeID)
    (ms : List (String × Json)) : Prop where
  sorted : SortedKeys ms
  mem : ∀ key v, (key, v) ∈ ms ↔ key ∈ keys ∧ g.listed n key = .ok v
  total : ∀ key ∈ keys, ∃ v, g.listed n key = .ok v

/-- A node has one row for a list of keys. -/
theorem Graph.IsRow.unique {g : Graph} {keys : List String} {n : NodeID}
    {ms ms' : List (String × Json)} (h : g.IsRow keys n ms) (h' : g.IsRow keys n ms') : ms = ms' :=
  h.sorted.ext h'.sorted fun m => (h.mem m.1 m.2).trans (h'.mem m.1 m.2).symm

/-- The answer to a query for one node: a node that matches, with a response that lists its
row, or none if none does. -/
def AnswersNode (g : Graph) (cmd : Command) (answer : Option NodeID × Json) : Prop :=
  ∃ pps entities, cmd.queryNode.constraints.predicates.mapM constructSearchTerm = .ok pps ∧
    answer.2.get "entities" = .ok entities ∧
    ((∃ n ms, answer.1 = some n ∧ cmd.queryNode.constraints.Match pps g n ∧
        g.IsRow cmd.queryNode.results.responseKeys n ms ∧ entities = .array [.object ms]) ∨
      answer.1 = none ∧ (∀ n, ¬ cmd.queryNode.constraints.Match pps g n) ∧
        entities.elements = [])

/-- The transaction answers the queries for the ids, which come after the one for the set. -/
def AnswersIds (g : Graph) (before after : PMGDQuery) (found : List (Option NodeID × Json))
    (responses : Json) : Prop :=
  ∃ setCmd idCmds setResponse, after.cmds = before.cmds ++ setCmd :: idCmds ∧
    responses = .array (setResponse :: found.map Prod.snd) ∧
    List.Forall₂ (AnswersNode g) idCmds found

/-- A search for the nearest descriptors: the command, what the index has returned, the
transaction that was built and its responses. The constraints are those of the API, the index
returns distinct ids, of which it has the descriptors, and no two nodes are descriptors with
one id. -/
structure NearestSearch where
  handler : String → Except String DescriptorIndex
  index : DescriptorIndex
  graph : Graph
  query : PMGDQuery
  cmd : Json
  blob : Bytes
  setName : String
  setPath : String
  dimensions : ℤ
  constraints : Json
  results : Json
  list : Json
  keys : List String
  withBlobs : Bool
  info : ResultInfo
  built : PMGDQuery
  nearest : Nearest
  found : List (Option NodeID × Json)
  responses : Json
  set_eq : cmd.get "set" = .ok (.string setName)
  constraints_eq : cmd.get "constraints" = .ok constraints
  constraints_ordered : constraints.Ordered
  shaped : ∀ m ∈ constraints.members, ShapedAs m.2
  results_eq : cmd.get "results" = .ok results
  results_ordered : results.Ordered
  list_eq : getValue pure results "list" .null = .ok list
  keys_eq : list.elements.mapM Json.asString = .ok keys
  withBlobs_eq : getValue Json.asBool results "blob" false = .ok withBlobs
  info_eq : ∃ asked limited, FindDescriptor.results setName cmd = .ok asked ∧
    asked.setMember "limit" (.int 1) = .ok limited ∧ parseQueryResults limited = .ok info
  special : ∀ key ∈ info.responseKeys, isSpecial key = false
  builds : constructProtobuf handler setPath dimensions query cmd blob =
    .ok (built, some nearest)
  index_eq : handler setPath = .ok index
  stored : ∀ p ∈ nearest.pair, ∃ b, index.getDescriptor p.1 = .ok b
  distinct : (nearest.pair.map Prod.fst).Nodup
  unique : ∀ d n m, graph.IsDescriptor setName d n → graph.IsDescriptor setName d m → n = m
  setInfo_eq : setInfo responses = .ok (setPath, dimensions)
  answers : AnswersIds graph query built found responses

namespace NearestSearch

variable [Platform.Predicates] (S : NearestSearch)

/-- The ids that the index has returned. -/
def ids : List ℤ := S.nearest.pair.map Prod.fst

/-- The node of the descriptor meets the constraints of the command. -/
def Meets (d : ℤ) : Prop :=
  ∃ n, S.graph.IsDescriptor S.setName d n ∧ ∀ m ∈ S.constraints.members,
    Met (graphKey S.setName m.1, m.2) (S.graph.props (.node n))

/-- The query for an id finds the node. -/
def Finds (d : ℤ) (n : NodeID) : Prop := Vdms.Finds S.graph S.setName S.constraints d n

/-- It finds a node. -/
def Found (d : ℤ) : Prop := ∃ n, S.Finds d n

/-- A list of values is part of the queries. -/
def HasList : Prop := Vdms.HasList S.setName S.constraints

/-- The entity of a descriptor, with the properties, the label and the id of its node, and its
distance. -/
def IsEntity (p : ℤ × Double) (ent : Json) : Prop :=
  ∃ n ms, S.graph.IsDescriptor S.setName p.1 n ∧ S.graph.IsRow S.info.responseKeys n ms ∧
    addDistance ("_distance" ∈ S.keys) p.2 (.object ms) = .ok ent

/-- The response lists exactly those of the nearest descriptors that meet the constraints, in
the order of the index. -/
def ListsExactly : Prop :=
  ∃ ps ents, ps.Sublist S.nearest.pair ∧ (∀ p ∈ S.nearest.pair, p ∈ ps ↔ S.Meets p.1) ∧
    List.Forall₂ S.IsEntity ps ents ∧
    nearestResponses S.handler S.cmd S.responses S.nearest S.blob =
      respond S.handler S.setPath S.setName S.results S.list ents

/-! ### What the response is made of -/

omit [Predicates] in
/-- The keys of a row: those of the list, with the label and the id. -/
theorem rowKeys : "VD:label" ∈ S.info.responseKeys ∧
    descIdProp S.setName ∈ S.info.responseKeys := by
  obtain ⟨asked, limited, hasked, hlimited, hinfo⟩ := S.info_eq
  obtain ⟨results, hresults, h⟩ := bind_ok_inv hasked
  obtain rfl := Except.ok.inj (hresults.symm.trans S.results_eq)
  obtain ⟨hasList, -, h⟩ := bind_ok_inv h
  obtain ⟨keys, hkeys⟩ : ∃ keys : List String, S.results.setMember "list" (.array
      ((keys ++ ["VD:label", descIdProp S.setName]).map .string)) = .ok asked := by
    split at h
    all_goals
      obtain ⟨list, -, h⟩ := bind_ok_inv h
      obtain ⟨keys, -, h⟩ := bind_ok_inv h
      exact ⟨keys, h⟩
  obtain ⟨ms, hset, hms, hmem⟩ := S.results_ordered.setMember "list" (.array
    ((keys ++ ["VD:label", descIdProp S.setName]).map .string))
  obtain rfl := Except.ok.inj (hkeys.symm.trans hset)
  obtain ⟨ms', hset', -, hmem'⟩ := hms.setMember "limit" (.int 1)
  obtain rfl := Except.ok.inj (hlimited.symm.trans hset')
  have hlist := (hmem' _).2 (.inr ⟨by simp, (hmem ("list", _)).2 (.inl rfl)⟩)
  obtain ⟨keys', hkeys', hin⟩ := parseResults_list hinfo hlist
  have hall : keys' = keys ++ ["VD:label", descIdProp S.setName] := by
    have hsame := elements_strings (keys ++ ["VD:label", descIdProp S.setName])
    exact Except.ok.inj (hkeys'.symm.trans hsame)
  rw [hall] at hin
  exact ⟨hin _ (by simp), hin _ (by simp)⟩

/-- The row of the descriptor with an id, which the query for the id can be answered with. -/
def Row (d : ℤ) (ms : List (String × Json)) : Prop :=
  d ∈ S.ids ∧ ∃ n, S.graph.IsDescriptor S.setName d n ∧ S.Finds d n ∧
    S.graph.IsRow S.info.responseKeys n ms

/-- The answer to the query for an id. -/
def Answers (d : ℤ) (answer : Option NodeID × Json) : Prop :=
  (Json.int d).asInt64 = .ok d ∧
    ((∃ n, answer.1 = some n ∧ S.Finds d n) ∨ answer.1 = none ∧ ¬ S.Found d)

/-- The entity of an answer: the row of its node, or null. -/
def EntityIs (answer : Option NodeID × Json) (ent : Json) : Prop :=
  (∃ n ms, answer.1 = some n ∧ S.graph.IsRow S.info.responseKeys n ms ∧ ent = .object ms) ∨
    answer.1 = none ∧ ent = .null

section Answers

variable [Platform.Integers] [Platform.Identifiers]

/-- **The answers.** The one for an id is the row of a node that its query finds, if there is
one. -/
theorem answered_found : ∃ ents, answered S.responses = .ok ents ∧
    List.Forall₂ S.Answers S.ids S.found ∧ List.Forall₂ S.EntityIs S.found ents := by
  obtain ⟨c, r, hc, hr, hnearest⟩ := constructProtobuf_inv S.set_eq S.builds
  obtain ⟨q₁, setCmd, hq₁, -, hqueries, -⟩ := constructNearest_inv hnearest
  obtain ⟨asked, limited, hasked, hlimited, hinfo⟩ := S.info_eq
  obtain rfl := Except.ok.inj (hr.symm.trans hasked)
  obtain ⟨cmds, hcmds, -, hasks⟩ := queryIds_inv hlimited hinfo hqueries
  obtain ⟨setCmd', idCmds, setResponse, hbuilt, hresponses, hanswers⟩ := S.answers
  rw [hcmds, hq₁, List.append_assoc, List.append_cancel_left_eq, List.singleton_append,
    List.cons.injEq] at hbuilt
  obtain ⟨-, rfl⟩ := hbuilt
  have hordered := (constraints_reach S.constraints_eq S.constraints_ordered hc).1
  have hone : ∀ {d cmd answer}, AsksFor S.setName q₁.now c S.info d cmd →
      AnswersNode S.graph cmd answer → S.Answers d answer ∧
        ∃ ent, (answer.2.get "entities").map
          (fun entities => entities.elements.getLast?.getD .null) = .ok ent ∧
          S.EntityIs answer ent := by
    rintro d cmd answer hcmd ⟨pps, entities, hpps, hentities, hfound⟩
    have hmatch := fun n => hcmd.match_iff (g := S.graph) (n := n) S.constraints_eq
      S.constraints_ordered S.shaped hc hpps
    have hread := hcmd.readable hordered hpps
    rw [hentities]
    rcases hfound with ⟨n, ms, hnode, hn, hrow, rfl⟩ | ⟨hnode, hnone, helements⟩
    · obtain ⟨-, -, -, -, -, hkeys⟩ := hcmd
      rw [hkeys] at hrow
      refine ⟨⟨hread, .inl ⟨n, hnode, (hmatch n).1 hn⟩⟩, .object ms, by simp [Except.map], ?_⟩
      exact .inl ⟨n, ms, hnode, hrow, rfl⟩
    · refine ⟨⟨hread, .inr ⟨hnode, ?_⟩⟩, .null, by simp [Except.map, helements],
        .inr ⟨hnode, rfl⟩⟩
      rintro ⟨n, hn⟩
      exact hnone n ((hmatch n).2 hn)
  have hall : ∀ {ds : List ℤ} {cmds : List Command} {found : List (Option NodeID × Json)},
      List.Forall₂ (AsksFor S.setName q₁.now c S.info) ds cmds →
      List.Forall₂ (AnswersNode S.graph) cmds found → ∃ ents,
        (found.map Prod.snd).mapM (fun response => (response.get "entities").map
          fun entities => entities.elements.getLast?.getD .null) = .ok ents ∧
        List.Forall₂ S.Answers ds found ∧ List.Forall₂ S.EntityIs found ents := by
    intro ds cmds found hasks hanswers
    induction hasks generalizing found with
    | nil =>
        cases hanswers
        exact ⟨[], rfl, .nil, .nil⟩
    | @cons d cmd ds cmds hcmd _ ih =>
        cases hanswers with
        | cons hanswer hrest =>
            obtain ⟨hhead, ent, hent, hentity⟩ := hone hcmd hanswer
            obtain ⟨ents, hents, hanswers, hentities⟩ := ih hrest
            refine ⟨ent :: ents, ?_, .cons hhead hanswers, .cons hentity hentities⟩
            rw [List.map_cons, List.mapM_cons, hent]
            simp only [bind, Except.bind, hents]
            rfl
  obtain ⟨ents, hents, hrest⟩ := hall hasks hanswers
  refine ⟨ents, ?_, hrest⟩
  rw [answered, hresponses, Json.elements_array]
  exact hents

omit [Platform.Integers] [Platform.Identifiers] in
/-- Without a list of values, a query finds its own descriptor only. -/
theorem isDescriptor_of_finds (hno : ¬ S.HasList) {d : ℤ} {n : NodeID} (h : S.Finds d n) :
    S.graph.IsDescriptor S.setName d n := by
  obtain ⟨nd, hnd, htag, ⟨hlist, -⟩ | ⟨-, hid, -⟩⟩ := h
  · exact absurd hlist hno
  · exact ⟨nd, hnd, htag, hid⟩

/-- Without a list of values, the answer to the query for an id is the row of the descriptor,
if the query finds it. -/
theorem answered_eq (hno : ¬ S.HasList) : ∃ ents, answered S.responses = .ok ents ∧
    List.Forall₂ (fun d ent => ((∃ ms, S.Row d ms ∧ ent = .object ms) ∨
      ¬ S.Found d ∧ ent = .null) ∧ (Json.int d).asInt64 = .ok d) S.ids ents := by
  obtain ⟨ents, hents, hanswers, hentities⟩ := S.answered_found
  refine ⟨ents, hents, ?_⟩
  have hboth := forall₂_comp_iff.2 ⟨S.found, (List.forall₂_and_left _ _).2
    ⟨fun d hd => hd, hanswers⟩, hentities⟩
  refine hboth.imp fun d ent h => ?_
  obtain ⟨answer, ⟨hd, hread, hanswer⟩, hent⟩ := h
  refine ⟨?_, hread⟩
  rcases hanswer with ⟨n, hnode, hn⟩ | ⟨hnode, hnone⟩
  · obtain ⟨n', ms, hnode', hrow, rfl⟩ | ⟨hnode', -⟩ := hent
    · obtain rfl := Option.some.inj (hnode.symm.trans hnode')
      exact .inl ⟨ms, ⟨hd, n, S.isDescriptor_of_finds hno hn, hn, hrow⟩, rfl⟩
    · cases hnode.symm.trans hnode'
  · obtain ⟨n', ms, hnode', -, -⟩ | ⟨-, rfl⟩ := hent
    · cases hnode.symm.trans hnode'
    · exact .inr ⟨hnone, rfl⟩

omit [Platform.Integers] [Platform.Identifiers] in
/-- A row is that of the one descriptor with the id. -/
theorem row_proper {d : ℤ} {ms : List (String × Json)} (h : S.Row d ms) :
    ProperRow S.setName S.info.responseKeys d ms := by
  obtain ⟨-, n, ⟨nd, hnd, -, hid⟩, -, hrow⟩ := h
  refine ⟨hrow.sorted, fun m hm => ((hrow.mem m.1 m.2).1 hm).1, fun key hkey => ?_, ?_,
    S.rowKeys.1, S.special⟩
  · obtain ⟨v, hv⟩ := hrow.total key hkey
    exact ⟨v, (hrow.mem key v).2 ⟨hkey, hv⟩⟩
  · refine (hrow.mem _ _).2 ⟨S.rowKeys.2, ?_⟩
    have hprops : S.graph.props (.node n) = nd.props := by simp [Graph.props, hnd]
    simp [Graph.listed, hprops, hid, constructProtobufProperty, PMGDProp.toJson]

omit [Platform.Integers] [Platform.Identifiers] in
/-- A search has one row for an id. -/
theorem row_unique {d : ℤ} {ms ms' : List (String × Json)} (h : S.Row d ms) (h' : S.Row d ms') :
    ms = ms' := by
  obtain ⟨-, n, hn, -, hrow⟩ := h
  obtain ⟨-, n', hn', -, hrow'⟩ := h'
  obtain rfl := S.unique d n n' hn hn'
  exact hrow.unique hrow'

omit [Predicates] [Platform.Integers] [Platform.Identifiers] in
/-- The response, once the answers are matched. -/
theorem nearestResponses_eq {ents matched : List Json} (hanswered : answered S.responses = .ok ents)
    (hmatched : matchEntities S.setName S.ids ("_distance" ∈ S.keys) ents S.nearest.pair =
      .ok matched) :
    nearestResponses S.handler S.cmd S.responses S.nearest S.blob =
      respond S.handler S.setPath S.setName S.results S.list matched := by
  obtain ⟨c, r, -, -, hnearest⟩ := constructProtobuf_inv S.set_eq S.builds
  obtain ⟨q₁, setCmd, -, hsize, -, hids⟩ := constructNearest_inv hnearest
  obtain ⟨setCmd', idCmds, setResponse, -, hresponses, -⟩ := S.answers
  have hnonempty : S.responses.size ≠ 0 := by
    rw [hresponses]
    simp [Json.size, Json.members]
  have hids : S.nearest.idsArray = S.ids := hids
  have hlist : getValue Except.pure S.results "list" .null = .ok S.list := S.list_eq
  simp only [nearestResponses, S.set_eq, S.results_eq, hlist, S.keys_eq, S.setInfo_eq, hsize,
    hanswered, hids, hmatched, hnonempty, ofJson, Json.asString, Except.mapError, bind, Except.bind,
    if_false, Bool.not_true, Bool.false_eq_true, pure, Except.pure]

end Answers

/-! ### When the response is right -/

/-- Nothing of a descriptor is shown. -/
def ShowsNothing : Prop :=
  Vdms.ShowsNothing S.setName S.keys S.info.responseKeys S.withBlobs

/-- For queries without a list: what is not asked for is met anyway, and no empty answer is
taken for that of the id 0. -/
structure Faithful : Prop where
  found : ∀ d ∈ S.ids, S.Found d → S.Meets d
  zero : ∀ as bs, S.ids = as ++ 0 :: bs → S.Found 0 ∧
    (S.ShowsNothing ∨ ∀ d ∈ as, S.Found d)

/-- The row of the descriptor with the id is among the answers. -/
def Returned (d : ℤ) : Prop :=
  ∃ n r, (some n, r) ∈ S.found ∧ S.graph.IsDescriptor S.setName d n

/-- For queries with a list: the nodes that the transaction returns are descriptors of the
set, among the ids exactly those that meet the constraints, and there is no empty answer to be
taken for that of the id 0. -/
structure AnswersFit : Prop where
  named : ∀ n r, (some n, r) ∈ S.found →
    ∃ d, (Json.int d).asInt64 = .ok d ∧ S.graph.IsDescriptor S.setName d n
  met : ∀ d ∈ S.ids, S.Returned d ↔ S.Meets d
  zero : 0 ∈ S.ids → ∀ answer ∈ S.found, answer.1 ≠ none

/-- A comparison that is met is asked for. -/
theorem asked_of_met {m : String × Json} {props : Props} (hno : ¬ IsListed m)
    (hshape : ShapedAs m.2) (hdel : m.1 ≠ "_deletion") (h : Met m props) : Asked m props := by
  have hnolist : alternatives m.2 = none := by
    obtain ⟨o, v, hj, hv⟩ | ⟨o1, v1, o2, v2, hj, -⟩ := hshape.single hdel hno
    · rw [hj]
      cases v with
      | array vs => cases hv
      | _ => rfl
    · rw [hj, alternatives]
      simp
  obtain hdel' | ⟨ws, hws, hall⟩ | ⟨ws, hws, -⟩ := h
  · exact absurd hdel' hdel
  · refine .inr ⟨hnolist, .inr ?_⟩
    obtain ⟨w, hw⟩ := List.exists_mem_of_ne_nil ws (written_ne_nil hws)
    obtain ⟨v, hv, -⟩ := hall w hw
    refine ⟨v, hv, fun ws' hws' _ w' hw' => ?_⟩
    obtain rfl := Option.some.inj (hws.symm.trans hws')
    obtain ⟨v', hv', hcompares⟩ := hall w' hw'
    obtain rfl := Option.some.inj (hv.symm.trans hv')
    exact hcompares
  · cases hnolist.symm.trans hws

/-- Without a list of values, a descriptor that meets the search is found by the query. -/
theorem found_of_meets (hno : ¬ S.HasList) {d : ℤ} (h : S.Meets d) : S.Found d := by
  obtain ⟨n, ⟨nd, hnd, htag, hid⟩, hmet⟩ := h
  refine ⟨n, nd, hnd, htag, .inr ⟨hno, hid, fun m hreached hdel => ?_⟩⟩
  have hprops : S.graph.props (.node n) = nd.props := by simp [Graph.props, hnd]
  obtain ⟨m', hm', -, rfl⟩ := id hreached
  rw [← hprops]
  exact asked_of_met (fun hlist => hno ⟨_, hreached, hlist⟩) (S.shaped m' hm') hdel (hmet m' hm')

end NearestSearch

omit [Platform] in
/-- A filter that leaves as many elements as a weaker one leaves the same. -/
theorem filter_eq_of_length {α : Type} {l : List α} {p q : α → Bool}
    (hpq : ∀ a ∈ l, p a → q a) (hlength : (l.filter p).length = (l.filter q).length) :
    l.filter p = l.filter q := by
  have hfilter : l.filter p = (l.filter q).filter p := by
    rw [List.filter_filter]
    refine List.filter_congr fun a ha => ?_
    cases hp : p a with
    | false => rfl
    | true => simp [hpq a ha hp]
  have hsublist : (l.filter p).Sublist (l.filter q) := hfilter ▸ List.filter_sublist
  exact hsublist.eq_of_length hlength

omit [Platform] in
/-- A sublist is the filter of its elements, if these are distinct. Induction on the sublist. -/
theorem sublist_eq_filter {α : Type} {l l' : List α} {P : α → Prop} [DecidablePred P]
    (h : l'.Sublist l) (hnodup : l.Nodup) (hmem : ∀ a ∈ l, a ∈ l' ↔ P a) :
    l' = l.filter fun a => P a := by
  induction h with
  | slnil => rfl
  | @cons l' l a hsub ih =>
      obtain ⟨ha, hnodup⟩ := List.nodup_cons.1 hnodup
      obtain ⟨hhead, htail⟩ := List.forall_mem_cons.1 hmem
      have hnot : ¬ P a := fun hP => ha (hsub.subset (hhead.2 hP))
      rw [List.filter_cons_of_neg (by simpa using hnot)]
      exact ih hnodup htail
  | @cons_cons l' l a hsub ih =>
      obtain ⟨ha, hnodup⟩ := List.nodup_cons.1 hnodup
      obtain ⟨hhead, htail⟩ := List.forall_mem_cons.1 hmem
      have hyes : P a := hhead.1 (List.mem_cons_self ..)
      rw [List.filter_cons_of_pos (by simpa using hyes)]
      congr 1
      refine ih hnodup fun b hb => ?_
      rw [← htail b hb, List.mem_cons]
      refine ⟨.inr, fun hor => hor.resolve_left ?_⟩
      rintro rfl
      exact ha hb

namespace NearestSearch

variable [Platform.Predicates] (S : NearestSearch)

/-- What an id is matched with: the row of its descriptor, or an empty answer. -/
def Source (d : ℤ) (ms : List (String × Json)) : Prop :=
  S.Row d ms ∨ d = 0 ∧ ms = [(descIdProp S.setName, .null)]

/-- What the response shows of the entity that an id is matched with. -/
def View (p : ℤ × Double) (ms v : List (String × Json)) : Prop :=
  ShownAs S.setName S.keys S.withBlobs
      (.object (distanced ("_distance" ∈ S.keys) p.2 ms)) (p.1, v) ∧
    SortedKeys v ∧ ∀ m, m ∈ v ↔ ShowsMember S.setName S.keys S.withBlobs
      (distanced ("_distance" ∈ S.keys) p.2 ms) m

/-- An entity with an id that can be read has a view in the answer. -/
theorem exists_view {p : ℤ × Double} {ms : List (String × Json)} (h : S.Source p.1 ms)
    (hread : (Json.int p.1).asInt64 = .ok p.1) : ∃ v, S.View p ms v := by
  obtain ⟨hsorted, hspecial, jd, hjd, hd⟩ : SortedKeys ms ∧
      (∀ m ∈ ms, m.1 ≠ "_label" ∧ m.1 ≠ "_id") ∧
      ∃ jd, (descIdProp S.setName, jd) ∈ ms ∧ jd.asInt64 = .ok p.1 := by
    rcases h with hrow | ⟨hzero, rfl⟩
    · have hproper := S.row_proper hrow
      exact ⟨hproper.sorted, fun m hm => ⟨(hproper.not_special hm).1, (hproper.not_special hm).2.1⟩,
        _, hproper.id, hread⟩
    · refine ⟨.single .., fun m hm => ?_, .null, List.mem_singleton_self _, by rw [hzero]; rfl⟩
      rw [List.mem_singleton.1 hm]
      exact ⟨(descIdProp_ne (by decide)).symm, (descIdProp_ne (by decide)).symm⟩
  have hdistance : "_distance" ≠ descIdProp S.setName := descIdProp_ne (by decide)
  refine shown_object (sorted_distanced hsorted) (fun m hm => ?_)
    ((mem_distanced hsorted _).2 (.inr ⟨hjd, fun _ => hdistance.symm⟩)) hd
  rcases (mem_distanced hsorted m).1 hm with ⟨-, rfl⟩ | ⟨hm, -⟩
  · exact ⟨by simp, by simp⟩
  · exact hspecial m hm

section Main

variable [Platform.Integers] [Platform.Identifiers]

/-- The id 0 comes after an empty answer, or has one. -/
def AfterEmpty (d : ℤ) : Prop :=
  d = 0 ∧ ∃ as bs, S.ids = as ++ 0 :: bs ∧ ∃ x ∈ as ++ [0], ¬ S.Found x

/-- The id is matched with these members: an empty answer, or the row of its descriptor. -/
def Matched (d : ℤ) (ms : List (String × Json)) : Prop :=
  S.AfterEmpty d ∧ ms = [(descIdProp S.setName, .null)] ∨ ¬ S.AfterEmpty d ∧ S.Row d ms

open Classical in
/-- **Matching.** The response lists the id 0, and every other id whose descriptor meets the
constraints that reach its query. -/
theorem matchEntities_matched (hno : ¬ S.HasList) :
    ∃ (ents : List Json) (source : ℤ → List (String × Json)),
      answered S.responses = .ok ents ∧ (∀ d ∈ S.ids, (Json.int d).asInt64 = .ok d) ∧
      (∀ d ∈ S.ids, S.Found d → ∃ ms, S.Row d ms) ∧
      (∀ d ∈ S.ids, d = 0 ∨ S.Found d → S.Matched d (source d)) ∧
      matchEntities S.setName S.ids ("_distance" ∈ S.keys) ents S.nearest.pair =
        .ok ((S.nearest.pair.filter fun p => p.1 = 0 ∨ S.Found p.1).map fun p =>
          .object (distanced ("_distance" ∈ S.keys) p.2 (source p.1))) := by
  obtain ⟨ents, hents, hall⟩ := S.answered_eq hno
  have hread : ∀ d ∈ S.ids, (Json.int d).asInt64 = .ok d := fun d hd => by
    obtain ⟨ent, -, hent⟩ := forall₂_mem_left hall hd
    exact hent.2
  have hexists : ∀ d ∈ S.ids, S.Found d → ∃ ms, S.Row d ms := fun d hd hmeets => by
    obtain ⟨ent, -, ⟨ms, hrow, -⟩ | ⟨hnot, -⟩, -⟩ := forall₂_mem_left hall hd
    · exact ⟨ms, hrow⟩
    · exact absurd hmeets hnot
  have hmeets : ∀ {d ms}, S.Row d ms → S.Found d := fun h => by
    obtain ⟨-, n, -, hn, -⟩ := h
    exact ⟨n, hn⟩
  have hRow : IsRowOf S.setName S.Row :=
    ⟨fun d ms h => (S.row_proper h).sorted, fun d ms h => (S.row_proper h).id,
      fun d ms h => hread d h.1, fun d ms ms' => S.row_unique⟩
  have hentities : List.Forall₂ (EntityOf S.Row) S.ids ents := hall.imp fun d ent h => by
    rcases h.1 with hrow | ⟨hnot, rfl⟩
    · exact .inl hrow
    · exact .inr ⟨fun ms hrow => hnot (hmeets hrow), rfl⟩
  choose! rowOf hrowOf using hexists
  let source : ℤ → List (String × Json) := fun d =>
    if S.AfterEmpty d then [(descIdProp S.setName, .null)] else rowOf d
  have hsource : ∀ d ∈ S.ids, d = 0 ∨ S.Found d → S.Matched d (source d) := by
    intro d hd hlisted
    by_cases hafter : S.AfterEmpty d
    · exact .inl ⟨hafter, if_pos hafter⟩
    · have hsame : source d = rowOf d := if_neg hafter
      refine .inr ⟨hafter, hsame ▸ hrowOf d hd (hlisted.elim (fun hzero => ?_) id)⟩
      subst hzero
      by_contra hnot
      obtain ⟨as, bs, hids⟩ := List.append_of_mem hd
      exact hafter ⟨rfl, as, bs, hids, 0, by simp, hnot⟩
  have hbefore : ∀ {d : ℤ} {as bs : List ℤ}, S.ids = as ++ d :: bs → d ∉ as := by
    intro d as bs hids hmem
    have hnodup : (as ++ d :: bs).Nodup := hids ▸ S.distinct
    exact (List.nodup_append.1 hnodup).2.2 d hmem d (List.mem_cons_self ..) rfl
  refine ⟨ents, source, hents, hread, fun d hd h => ⟨_, hrowOf d hd h⟩, hsource, ?_⟩
  refine matchEntities_eq (fun p hp hlisted => ?_) fun p hp hnot => ?_
  · have hd : p.1 ∈ S.ids := List.mem_map_of_mem hp
    refine ⟨.object (source p.1), ?_, addDistance_object _⟩
    rcases hsource p.1 hd hlisted with ⟨⟨hzero, as, bs, hids, hbad⟩, heq⟩ | ⟨hafter, hrow⟩
    · obtain ⟨x, hx, hnot⟩ := hbad
      rw [hids] at hentities
      rw [heq, hzero]
      refine findEntity_phantom hRow hentities (hbefore hids)
        ⟨x, hx, fun ms hrow => hnot (hmeets hrow)⟩ (hzero ▸ hd)
    · obtain ⟨as, bs, hids⟩ := List.append_of_mem hd
      rw [hids] at hentities
      refine findEntity_row hRow hentities (hbefore hids) (fun hzero x hx => ?_) hrow hd
      by_contra hnone
      rw [hzero] at hids
      have hxids : x ∈ S.ids := hids ▸ List.mem_append_left _ hx
      have hnot : ¬ S.Found x := fun h => hnone ⟨_, hrowOf x hxids h⟩
      exact hafter ⟨hzero, as, bs, hids, x, List.mem_append_left _ hx, hnot⟩
  · have hd : p.1 ∈ S.ids := List.mem_map_of_mem hp
    obtain ⟨hzero, hmeets'⟩ := not_or.1 hnot
    exact findEntity_none hRow hentities hzero fun ms hrow => hmeets' (hmeets hrow)

omit [Predicates] [Integers] [Identifiers] in
/-- The answer to entities that are shown in a known way. -/
theorem respond_view {ps : List (ℤ × Double)} (hps : ∀ p ∈ ps, p ∈ S.nearest.pair)
    {source : ℤ → List (String × Json)} {view : ℤ × Double → List (String × Json)}
    (hview : ∀ p ∈ ps, S.View p (source p.1) (view p)) :
    respond S.handler S.setPath S.setName S.results S.list
        (ps.map fun p => .object (distanced ("_distance" ∈ S.keys) p.2 (source p.1))) =
      shownAnswer S.index S.withBlobs (ps.map fun p => (p.1, view p)) := by
  refine respond_shown S.withBlobs_eq S.keys_eq S.index_eq (fun v hv => ?_) ?_
  · obtain ⟨p, hp, rfl⟩ := List.mem_map.1 hv
    exact S.stored p (hps p hp)
  · refine List.forall₂_map_left_iff.2 (List.forall₂_map_right_iff.2 (List.forall₂_same.2 ?_))
    exact fun p hp => (hview p hp).1

omit [Platform.Integers] [Platform.Identifiers] in
/-- The entity of a descriptor is made of its row. -/
theorem isEntity_iff {p : ℤ × Double} {ms : List (String × Json)} (h : S.Row p.1 ms) (ent : Json) :
    S.IsEntity p ent ↔ ent = .object (distanced ("_distance" ∈ S.keys) p.2 ms) := by
  obtain ⟨-, n, hn, -, hrow⟩ := h
  constructor
  · rintro ⟨n', ms', hn', hrow', hadd⟩
    obtain rfl := S.unique p.1 n n' hn hn'
    obtain rfl := hrow.unique hrow'
    rw [addDistance_object] at hadd
    exact (Except.ok.inj hadd).symm
  · rintro rfl
    exact ⟨n, ms, hn, hrow, addDistance_object _⟩

omit [Integers] [Identifiers] in
/-- The entities of descriptors that have rows are these rows, each with its distance. -/
theorem isEntity_all {rowOf : ℤ → List (String × Json)} {ps : List (ℤ × Double)}
    (hrow : ∀ p ∈ ps, S.Row p.1 (rowOf p.1)) (ents : List Json) :
    List.Forall₂ S.IsEntity ps ents ↔ ents =
      ps.map fun p => .object (distanced ("_distance" ∈ S.keys) p.2 (rowOf p.1)) := by
  induction ps generalizing ents with
  | nil => simp
  | cons p ps ih =>
      obtain ⟨hp, hps⟩ := List.forall_mem_cons.1 hrow
      rw [List.forall₂_cons_left_iff, List.map_cons]
      constructor
      · rintro ⟨ent, rest, hent, hrest, rfl⟩
        rw [(S.isEntity_iff hp ent).1 hent, (ih hps rest).1 hrest]
      · rintro rfl
        exact ⟨_, _, (S.isEntity_iff hp _).2 rfl, (ih hps _).2 rfl, rfl⟩

open Classical in
/-- **Searching with constraints.** If every constraint has a predicate of its own, the
response lists exactly the descriptors that meet the constraints if and only if no constraint
that matters is lost and no empty answer is taken for that of the id 0. -/
theorem listsExactly_iff_faithful (hno : ¬ S.HasList) : S.ListsExactly ↔ S.Faithful := by
  obtain ⟨ents, source, hents, hread, hexists, hmatch, hmatched⟩ := S.matchEntities_matched hno
  have hresponse := S.nearestResponses_eq hents hmatched
  choose! rowOf hrowOf using hexists
  have hsource : ∀ {d ms}, S.Matched d ms → S.Source d ms := fun h =>
    h.elim (fun h => .inr ⟨h.1.1, h.2⟩) fun h => .inl h.2
  have hview : ∀ (p : ℤ × Double) ms, p.1 ∈ S.ids ∧ S.Source p.1 ms → ∃ v, S.View p ms v :=
    fun p ms h => S.exists_view h.2 (hread p.1 h.1)
  choose! view hview using hview
  have hids : ∀ p ∈ S.nearest.pair, p.1 ∈ S.ids := fun p hp => List.mem_map_of_mem hp
  let L := S.nearest.pair.filter fun p => p.1 = 0 ∨ S.Found p.1
  let R := S.nearest.pair.filter fun p => S.Meets p.1
  have hL : ∀ p ∈ L, p ∈ S.nearest.pair ∧ (p.1 = 0 ∨ S.Found p.1) := fun p hp => by
    simpa [L] using hp
  have hR : ∀ p ∈ R, p ∈ S.nearest.pair ∧ S.Meets p.1 := fun p hp => by simpa [R] using hp
  have hRrow : ∀ p ∈ R, S.Row p.1 (rowOf p.1) := fun p hp =>
    hrowOf p.1 (hids p (hR p hp).1) (S.found_of_meets hno (hR p hp).2)
  have hviewL : ∀ p ∈ L, S.View p (source p.1) (view p (source p.1)) := fun p hp =>
    hview p _ ⟨hids p (hL p hp).1, hsource (hmatch p.1 (hids p (hL p hp).1) (hL p hp).2)⟩
  have hviewR : ∀ p ∈ R, S.View p (rowOf p.1) (view p (rowOf p.1)) := fun p hp =>
    hview p _ ⟨hids p (hR p hp).1, .inl (hRrow p hp)⟩
  rw [S.respond_view (fun p hp => (hL p hp).1) hviewL] at hresponse
  have hright := S.respond_view (fun p hp => (hR p hp).1) hviewR
  have hnodup : S.nearest.pair.Nodup := List.Nodup.of_map _ S.distinct
  have hiff : S.ListsExactly ↔ shownAnswer S.index S.withBlobs
      (L.map fun p => (p.1, view p (source p.1))) =
        shownAnswer S.index S.withBlobs (R.map fun p => (p.1, view p (rowOf p.1))) := by
    rw [← hresponse, ← hright]
    constructor
    · rintro ⟨ps, ents', hsub, hps, hall, heq⟩
      obtain rfl : ps = R := sublist_eq_filter hsub hnodup hps
      rw [heq, (S.isEntity_all hRrow ents').1 hall]
    · intro heq
      refine ⟨R, _, List.filter_sublist, fun p hp => by simp [R, hp],
        (S.isEntity_all hRrow _).2 rfl, heq⟩
  rw [hiff]
  have hsub : ∀ p ∈ S.nearest.pair, S.Meets p.1 → p.1 = 0 ∨ S.Found p.1 :=
    fun p _ h => .inr (S.found_of_meets hno h)
  have hproper : ∀ p ∈ R, ProperRow S.setName S.info.responseKeys p.1 (rowOf p.1) := fun p hp =>
    S.row_proper (hRrow p hp)
  constructor
  · intro heq
    obtain ⟨hlength, hshown⟩ := shownAnswer_inj heq
    have hLR : R = L := by
      rw [List.length_map, List.length_map] at hlength
      refine filter_eq_of_length (fun p hp => ?_) hlength.symm
      simpa using hsub p hp
    have hlisted : ∀ d ∈ S.ids, d = 0 ∨ S.Found d → ∃ p ∈ R, p.1 = d := by
      intro d hd hor
      obtain ⟨p, hp, rfl⟩ := List.mem_map.1 hd
      refine ⟨p, ?_, rfl⟩
      rw [hLR]
      simpa [L, hp] using hor
    refine ⟨fun d hd hmeets => ?_, fun as bs hids' => ?_⟩
    · obtain ⟨p, hp, rfl⟩ := hlisted d hd (.inr hmeets)
      exact (hR p hp).2
    · have hzero : 0 ∈ S.ids := hids' ▸ List.mem_append_right _ (List.mem_cons_self ..)
      obtain ⟨p, hp, hp0⟩ := hlisted 0 hzero (.inl rfl)
      refine ⟨hp0 ▸ S.found_of_meets hno (hR p hp).2, ?_⟩
      by_contra hno
      push Not at hno
      obtain ⟨hsomething, x, hx, hbad⟩ := hno
      have hafter : S.AfterEmpty p.1 := ⟨hp0, as, bs, hids', x, List.mem_append_left _ hx, hbad⟩
      have hempty : source p.1 = [(descIdProp S.setName, .null)] := by
        rcases hmatch p.1 (hids p (hR p hp).1) (.inl hp0) with h | h
        · exact h.2
        · exact absurd hafter h.1
      rcases hshown with hsame | ⟨w, hw, hnil⟩
      · rw [List.map_map, List.map_map, ← hLR] at hsame
        have hsame : view p (source p.1) = view p (rowOf p.1) :=
          List.map_inj_left.1 hsame p hp
        obtain ⟨m, hin, hnot⟩ := shows_row (x := p.2) (hproper p hp) hsomething
        have hmem := ((hviewR p hp).2.2 m).2 hin
        rw [← hsame, (hviewL p (hLR ▸ hp)).2.2, hempty] at hmem
        exact hnot hmem
      · obtain ⟨r, hr, rfl⟩ := List.mem_map.1 hw
        obtain ⟨m, hin, -⟩ := shows_row (x := r.2) (hproper r hr) hsomething
        have hmem := ((hviewR r hr).2.2 m).2 hin
        have hnil : view r (rowOf r.1) = [] := hnil
        rw [hnil] at hmem
        cases hmem
  · intro hfaithful
    have hLR : L = R := by
      refine List.filter_congr fun p hp => ?_
      rw [decide_eq_decide]
      refine ⟨fun hor => ?_, hsub p hp⟩
      refine hfaithful.found p.1 (hids p hp) (hor.elim (fun hzero => ?_) id)
      obtain ⟨as, bs, hids'⟩ := List.append_of_mem (hids p hp)
      rw [hzero] at hids' ⊢
      exact (hfaithful.zero as bs hids').1
    rw [hLR]
    congr 1
    refine List.map_congr_left fun p hp => Prod.ext rfl ?_
    have hpL : p ∈ L := hLR ▸ hp
    rcases hmatch p.1 (hids p (hR p hp).1) (hL p hpL).2 with ⟨hafter, hempty⟩ | ⟨-, hrow⟩
    · obtain ⟨hzero, as, bs, hids', x, hx, hbad⟩ := hafter
      obtain ⟨hmeets, hor⟩ := hfaithful.zero as bs hids'
      have hnothing : S.ShowsNothing := by
        refine hor.resolve_right fun hall => hbad ?_
        rcases List.mem_append.1 hx with hx | hx
        · exact hall x hx
        · exact List.mem_singleton.1 hx ▸ hmeets
      refine (hviewL p hpL).2.1.ext (hviewR p hp).2.1 fun m => ?_
      rw [(hviewL p hpL).2.2, (hviewR p hp).2.2, hempty]
      exact (shows_phantom (hproper p hp) hnothing m).symm
    · have hsame := S.row_unique hrow (hRrow p hp)
      change view p (source p.1) = view p (rowOf p.1)
      rw [hsame]

/-! ### With a list of values -/

omit [Integers] [Identifiers] in
/-- With a list, what one query finds is found by the query for its own id too. -/
theorem finds_own (hlist : S.HasList) {x d : ℤ} {n : NodeID} (h : S.Finds x n)
    (hn : S.graph.IsDescriptor S.setName d n) : S.Finds d n := by
  obtain ⟨nd, hnd, htag, ⟨-, hid | hasked⟩ | ⟨hno, -⟩⟩ := h
  · obtain ⟨nd', hnd', -, hid'⟩ := hn
    obtain rfl := Option.some.inj (hnd.symm.trans hnd')
    exact ⟨nd, hnd, htag, .inl ⟨hlist, .inl hid'⟩⟩
  · exact ⟨nd, hnd, htag, .inl ⟨hlist, .inr hasked⟩⟩
  · exact absurd hlist hno

omit [Predicates] [Integers] [Identifiers] in
/-- An id is matched with the row of its descriptor, wherever that has been returned. Induction
on the answers. -/
theorem findEntity_returned {found : List (Option NodeID × Json)} {ents : List Json}
    (hents : List.Forall₂ S.EntityIs found ents)
    (hnamed : ∀ n r, (some n, r) ∈ found →
      ∃ d, (Json.int d).asInt64 = .ok d ∧ S.graph.IsDescriptor S.setName d n)
    {d : ℤ} (hd : d ∈ S.ids) (hzero : d = 0 → ∀ answer ∈ found, answer.1 ≠ none) :
    (∃ n r ms, (some n, r) ∈ found ∧ S.graph.IsDescriptor S.setName d n ∧
        S.graph.IsRow S.info.responseKeys n ms ∧
        findEntity S.setName S.ids d ents = .ok (some (.object ms))) ∨
      (∀ n r, (some n, r) ∈ found → ¬ S.graph.IsDescriptor S.setName d n) ∧
        findEntity S.setName S.ids d ents = .ok none := by
  induction hents with
  | nil => exact .inr ⟨by simp, rfl⟩
  | @cons answer ent found ents hhead _ ih =>
      have hrest := ih (fun n r hmem => hnamed n r (List.mem_cons_of_mem _ hmem))
        fun h0 a ha => hzero h0 a (List.mem_cons_of_mem _ ha)
      obtain ⟨node, r⟩ := answer
      obtain ⟨n, ms, rfl, hrow, rfl⟩ | ⟨rfl, rfl⟩ := hhead
      · obtain ⟨e, hread, hn⟩ := hnamed n r (List.mem_cons_self ..)
        have hid : (descIdProp S.setName, .int e) ∈ ms := by
          obtain ⟨nd, hnd, -, hprop⟩ := id hn
          have hprops : S.graph.props (.node n) = nd.props := by simp [Graph.props, hnd]
          refine (hrow.mem _ _).2 ⟨S.rowKeys.2, ?_⟩
          simp [Graph.listed, hprops, hprop, constructProtobufProperty, PMGDProp.toJson]
        have hRow : IsRowOf S.setName fun e' ms' => e' = e ∧ ms' = ms := by
          refine ⟨fun _ _ h => h.2 ▸ hrow.sorted, fun _ _ h => ?_, fun _ _ h => h.1 ▸ hread,
            fun _ _ _ h h' => h.2.trans h'.2.symm⟩
          rw [h.1, h.2]
          exact hid
        rw [findEntity_cons_row hRow ⟨rfl, rfl⟩]
        by_cases hed : e = d
        · subst hed
          rw [if_pos ⟨rfl, hd⟩]
          exact .inl ⟨n, r, ms, List.mem_cons_self .., hn, hrow, rfl⟩
        · rw [if_neg fun h => hed h.1]
          obtain ⟨n', r', ms', hmem, hrest⟩ | ⟨hnone, hrest⟩ := hrest
          · exact .inl ⟨n', r', ms', List.mem_cons_of_mem _ hmem, hrest⟩
          · refine .inr ⟨fun n' r' hmem hn' => ?_, hrest⟩
            rcases List.mem_cons.1 hmem with heq | hmem
            · obtain ⟨heq, -⟩ := Prod.mk.inj heq
              obtain rfl := Option.some.inj heq
              exact hed (isDescriptor_id hn hn')
            · exact hnone n' r' hmem hn'
      · have hd0 : ¬ (0 = d ∧ 0 ∈ S.ids) := fun h =>
          hzero h.1.symm _ (List.mem_cons_self ..) rfl
        rw [findEntity_cons_null, if_neg hd0]
        obtain ⟨n', r', ms', hmem, hrest⟩ | ⟨hnone, hrest⟩ := hrest
        · exact .inl ⟨n', r', ms', List.mem_cons_of_mem _ hmem, hrest⟩
        · refine .inr ⟨fun n' r' hmem hn' => ?_, hrest⟩
          rcases List.mem_cons.1 hmem with heq | hmem
          · cases (Prod.mk.inj heq).1
          · exact hnone n' r' hmem hn'

open Classical in
/-- **Searching with a list.** The response lists exactly the descriptors that meet the
constraints if these are what the transaction has returned. -/
theorem listsExactly_of_answersFit (hlist : S.HasList) (hfit : S.AnswersFit) :
    S.ListsExactly := by
  obtain ⟨ents, hents, hanswers, hentities⟩ := S.answered_found
  have hids : ∀ p ∈ S.nearest.pair, p.1 ∈ S.ids := fun p hp => List.mem_map_of_mem hp
  have hread : ∀ d ∈ S.ids, (Json.int d).asInt64 = .ok d := fun d hd => by
    obtain ⟨answer, -, hread, -⟩ := forall₂_mem_left hanswers hd
    exact hread
  have hfinds : ∀ n r, (some n, r) ∈ S.found → ∃ x, S.Finds x n := fun n r hmem => by
    obtain ⟨x, -, -, hx⟩ := forall₂_mem_left hanswers.flip hmem
    rcases hx with ⟨n', hn', hx⟩ | ⟨hn', -⟩
    · obtain rfl := Option.some.inj hn'
      exact ⟨x, hx⟩
    · cases hn'
  have hfind : ∀ d ∈ S.ids, S.Meets d → ∃ ms, S.Row d ms ∧
      findEntity S.setName S.ids d ents = .ok (some (.object ms)) := by
    intro d hd hmeets
    rcases S.findEntity_returned hentities hfit.named hd (fun h0 => hfit.zero (h0 ▸ hd)) with
      ⟨n, r, ms, hmem, hn, hrow, hfound⟩ | ⟨hnone, -⟩
    · obtain ⟨x, hx⟩ := hfinds n r hmem
      exact ⟨ms, ⟨hd, n, hn, S.finds_own hlist hx hn, hrow⟩, hfound⟩
    · obtain ⟨n, r, hmem, hn⟩ := (hfit.met d hd).2 hmeets
      exact absurd hn (hnone n r hmem)
  choose! rowOf hrowOf using hfind
  have hmatched : matchEntities S.setName S.ids ("_distance" ∈ S.keys) ents S.nearest.pair =
      .ok ((S.nearest.pair.filter fun p => S.Meets p.1).map fun p =>
        .object (distanced ("_distance" ∈ S.keys) p.2 (rowOf p.1))) := by
    refine matchEntities_eq (fun p hp hmeets => ?_) fun p hp hnot => ?_
    · exact ⟨_, (hrowOf p.1 (hids p hp) hmeets).2, addDistance_object _⟩
    · rcases S.findEntity_returned hentities hfit.named (hids p hp)
        (fun h0 => hfit.zero (h0 ▸ hids p hp)) with ⟨n, r, ms, hmem, hn, -⟩ | ⟨-, hnone⟩
      · exact absurd ((hfit.met p.1 (hids p hp)).1 ⟨n, r, hmem, hn⟩) hnot
      · exact hnone
  refine ⟨S.nearest.pair.filter fun p => S.Meets p.1, _, List.filter_sublist, fun p hp => ?_, ?_,
    S.nearestResponses_eq hents hmatched⟩
  · simp [hp]
  · refine (S.isEntity_all (fun p hp => ?_) _).2 rfl
    obtain ⟨hp, hmeets⟩ := List.mem_filter.1 hp
    exact (hrowOf p.1 (hids p hp) (of_decide_eq_true hmeets)).1

end Main

end NearestSearch

end Search

/-! ### A search for red descriptors -/

/-- A descriptor of the set `s`. -/
def coloredNode (d : ℤ) (color : String) : Node where
  tag := Platform.stringID "VD:DESC"
  props := fun key =>
    if key = Platform.stringID "VD:descId_s" then some (.integer d)
    else if key = Platform.stringID "color" then some (.string color) else none

/-- The descriptor 1 is red, and the descriptors 0 and 2 are blue. -/
def coloredGraph : Graph :=
  ⟨[some (coloredNode 0 "blue"), some (coloredNode 1 "red"), some (coloredNode 2 "blue")], []⟩

/-- The color is this value, or one of a list. -/
def colored (value : Json) : Json := .object [("color", .array [.string "==", value])]

/-- A search for descriptors of a color. -/
def redSearch (value : Json) : Json :=
  .object [("constraints", colored value), ("k_neighbors", .int 2),
    ("results", .object [("list", .array [.string "color"])]),
    ("set", .string "s")]

/-- The index returns these ids. -/
def indexOf (found : List (ℤ × Double)) : DescriptorIndex where
  dimensions := 1
  search _ _ := .ok found
  getDescriptor _ := .ok []

/-- The row of the descriptor 1. -/
def redRow : List (String × Json) :=
  [("VD:descId_s", .int 1), ("VD:label", .string "Missing property"), ("color", .string "red")]

/-- The response of the query for the set. -/
def setResponseOf : Json :=
  .object [("entities", .array [.object [("VD:descSetPath", .string "db/s"),
    ("VD:dimensions", .int 1)]]), ("returned", .int 1), ("status", .int 0)]

def redResponse : Json :=
  .object [("entities", .array [.object redRow]), ("returned", .int 1), ("status", .int 0)]

def emptyResponse : Json :=
  .object [("entities", .array []), ("returned", .int 0), ("status", .int 0)]

/-- The row of the red descriptor in the graph. -/
theorem redRow_isRow : coloredGraph.IsRow ["color", "VD:label", "VD:descId_s"] 1 redRow := by
  have hcolor : coloredGraph.listed 1 "color" = .ok (.string "red") := rfl
  have hlabel : coloredGraph.listed 1 "VD:label" = .ok (.string "Missing property") := rfl
  have hid : coloredGraph.listed 1 "VD:descId_s" = .ok (.int 1) := rfl
  refine ⟨by simp only [SortedKeys]; decide, fun key v => ?_, fun key hkey => ?_⟩
  · constructor
    · intro h
      simp only [redRow, List.mem_cons, Prod.mk.injEq, List.not_mem_nil, or_false] at h
      rcases h with ⟨rfl, rfl⟩ | ⟨rfl, rfl⟩ | ⟨rfl, rfl⟩
      · exact ⟨by simp, hid⟩
      · exact ⟨by simp, hlabel⟩
      · exact ⟨by simp, hcolor⟩
    · rintro ⟨hkey, hv⟩
      simp only [List.mem_cons, List.not_mem_nil, or_false] at hkey
      rcases hkey with rfl | rfl | rfl
      · obtain rfl := Except.ok.inj (hcolor.symm.trans hv)
        simp [redRow]
      · obtain rfl := Except.ok.inj (hlabel.symm.trans hv)
        simp [redRow]
      · obtain rfl := Except.ok.inj (hid.symm.trans hv)
        simp [redRow]
  · simp only [List.mem_cons, List.not_mem_nil, or_false] at hkey
    rcases hkey with rfl | rfl | rfl
    · exact ⟨_, hcolor⟩
    · exact ⟨_, hlabel⟩
    · exact ⟨_, hid⟩

/-- The nodes of the graph that are descriptors with an id. -/
theorem coloredGraph_descriptor {d : ℤ} {n : NodeID} :
    coloredGraph.IsDescriptor "s" d n ↔ d = 0 ∧ n = 0 ∨ d = 1 ∧ n = 1 ∨ d = 2 ∧ n = 2 := by
  have hid : ∀ (e : ℤ) (color : String),
      (coloredNode e color).props (Platform.stringID (descIdProp "s")) = some (.integer e) :=
    fun _ _ => rfl
  constructor
  · rintro ⟨nd, hnd, -, hprop⟩
    rcases n with _ | _ | _ | n
    · obtain rfl : coloredNode 0 "blue" = nd := Option.some.inj hnd
      rw [hid] at hprop
      injection hprop with hprop
      injection hprop with hprop
      exact .inl ⟨hprop.symm, rfl⟩
    · obtain rfl : coloredNode 1 "red" = nd := Option.some.inj hnd
      rw [hid] at hprop
      injection hprop with hprop
      injection hprop with hprop
      exact .inr (.inl ⟨hprop.symm, rfl⟩)
    · obtain rfl : coloredNode 2 "blue" = nd := Option.some.inj hnd
      rw [hid] at hprop
      injection hprop with hprop
      injection hprop with hprop
      exact .inr (.inr ⟨hprop.symm, rfl⟩)
    · cases hnd
  · rintro (⟨rfl, rfl⟩ | ⟨rfl, rfl⟩ | ⟨rfl, rfl⟩)
    · exact ⟨_, rfl, rfl, hid 0 "blue"⟩
    · exact ⟨_, rfl, rfl, hid 1 "red"⟩
    · exact ⟨_, rfl, rfl, hid 2 "blue"⟩

/-- A search whose index returns these ids, with these answers. -/
def redNearest (value : Json) (ids : List (ℤ × Double)) (found : List (Option NodeID × Json))
    (built : PMGDQuery) (nearest : Nearest)
    (hbuilds : constructProtobuf (fun _ => .ok (indexOf ids)) "db/s" 1 (PMGDQuery.new 0 0)
      (redSearch value) [0, 0, 0, 0] = .ok (built, some nearest))
    (hdistinct : (nearest.pair.map Prod.fst).Nodup)
    (hanswers : AnswersIds coloredGraph (PMGDQuery.new 0 0) built found
      (.array (setResponseOf :: found.map Prod.snd))) : NearestSearch where
  handler := fun _ => .ok (indexOf ids)
  index := indexOf ids
  graph := coloredGraph
  query := PMGDQuery.new 0 0
  cmd := redSearch value
  blob := [0, 0, 0, 0]
  setName := "s"
  setPath := "db/s"
  dimensions := 1
  constraints := colored value
  results := .object [("list", .array [.string "color"])]
  list := .array [.string "color"]
  keys := ["color"]
  withBlobs := false
  info := { rType := .list, responseKeys := ["color", "VD:label", "VD:descId_s"], limit := 1 }
  built := built
  nearest := nearest
  found := found
  responses := .array (setResponseOf :: found.map Prod.snd)
  set_eq := rfl
  constraints_eq := rfl
  constraints_ordered := .inr ⟨_, rfl, .single ..⟩
  shaped m hm := by
    obtain rfl := List.mem_singleton.1 hm
    exact .inl ⟨_, _, rfl⟩
  results_eq := rfl
  results_ordered := .inr ⟨_, rfl, .single ..⟩
  list_eq := rfl
  keys_eq := rfl
  withBlobs_eq := rfl
  info_eq := ⟨_, _, rfl, rfl, rfl⟩
  special := by decide
  builds := hbuilds
  index_eq := rfl
  stored := fun _ _ => ⟨_, rfl⟩
  distinct := hdistinct
  unique d n m hn hm := by
    rw [coloredGraph_descriptor] at hn hm
    rcases hn with ⟨rfl, rfl⟩ | ⟨rfl, rfl⟩ | ⟨rfl, rfl⟩ <;>
      rcases hm with ⟨hd, rfl⟩ | ⟨hd, rfl⟩ | ⟨hd, rfl⟩ <;> first | rfl | cases hd
  setInfo_eq := rfl
  answers := hanswers

/-- The predicates of the query for an id. -/
def redPredicates (d : ℤ) : List PropertyPredicate :=
  [{ id := Platform.stringID "VD:descId_s", op := .eq, v1 := some (.integer d) },
    { id := Platform.stringID "color", op := .eq, v1 := some (.string "red") }]

/-- The constraints of the query for an id. -/
def redConstraints (pOp : PredicateOp) (d : ℤ) : Constraints where
  tag := .name "VD:DESC"
  pOp := pOp
  predicates :=
    [{ key := .name "VD:descId_s", op := .eq
       v1 := { type := .integerType, key := "VD:descId_s", intValue := d } },
      { key := .name "color", op := .eq
        v1 := { type := .stringType, key := "color", stringValue := "red" } }]

/-- The nodes that match: the descriptor 1. -/
theorem redConstraints_match {d : ℤ} {n : NodeID} :
    (redConstraints .and d).Match (redPredicates d) coloredGraph n ↔ d = 1 ∧ n = 1 := by
  have hkey : Platform.stringID "VD:descId_s" ≠ 0 := by decide
  have hid : ∀ {e : ℤ} {color : String}, Platform.passes
      { id := Platform.stringID "VD:descId_s", op := .eq, v1 := some (.integer d) }
      (coloredNode e color).props = true ↔ d = e := by
    intro e color
    rw [Platform.Identifiers.passes_equal _ _ _ hkey]
    constructor
    · intro h
      injection h with h
      injection h with h
      exact h.symm
    · rintro rfl
      rfl
  have hblue : ∀ e, ¬ Platform.passes
      { id := Platform.stringID "color", op := .eq, v1 := some (.string "red") }
      (coloredNode e "blue").props = true := fun e h =>
    absurd h (show ¬ Platform.passes
      { id := Platform.stringID "color", op := .eq, v1 := some (.string "red") }
      (coloredNode 0 "blue").props = true by decide)
  constructor
  · rintro ⟨nd, hnd, -, hall⟩
    have hcolor := hall _ (List.mem_cons_of_mem _ (List.mem_singleton_self _))
    rcases n with _ | _ | _ | n
    · obtain rfl : coloredNode 0 "blue" = nd := Option.some.inj hnd
      exact absurd hcolor (hblue 0)
    · obtain rfl : coloredNode 1 "red" = nd := Option.some.inj hnd
      exact ⟨hid.1 (hall _ (List.mem_cons_self ..)), rfl⟩
    · obtain rfl : coloredNode 2 "blue" = nd := Option.some.inj hnd
      exact absurd hcolor (hblue 2)
    · cases hnd
  · rintro ⟨rfl, rfl⟩
    refine ⟨coloredNode 1 "red", rfl, by decide, ?_⟩
    intro pp hpp
    rcases List.mem_cons.1 hpp with rfl | hpp
    · exact hid.2 rfl
    · rw [List.mem_singleton.1 hpp]
      decide

/-- The answers to the query for an id that asks for the id and the color. -/
theorem redAnswers {cmd : Command} {d : ℤ}
    (hcmd : cmd.queryNode.constraints = redConstraints .and d)
    (hkeys : cmd.queryNode.results.responseKeys = ["color", "VD:label", "VD:descId_s"]) :
    (d = 1 → AnswersNode coloredGraph cmd (some 1, redResponse)) ∧
      (d ≠ 1 → AnswersNode coloredGraph cmd (none, emptyResponse)) := by
  constructor
  · rintro rfl
    refine ⟨redPredicates 1, _, by rw [hcmd]; rfl, rfl, .inl ⟨1, redRow, rfl, ?_, ?_, rfl⟩⟩
    · rw [hcmd]
      exact redConstraints_match.2 ⟨rfl, rfl⟩
    · rw [hkeys]
      exact redRow_isRow
  · intro hd
    refine ⟨redPredicates d, _, by rw [hcmd]; rfl, rfl, .inr ⟨rfl, fun n hn => ?_, rfl⟩⟩
    rw [hcmd] at hn
    exact hd (redConstraints_match.1 hn).1

/-- The query that asks for the id or the color can be answered with the red descriptor. -/
theorem redAnswers_or {cmd : Command} {d : ℤ}
    (hcmd : cmd.queryNode.constraints = redConstraints .or d)
    (hkeys : cmd.queryNode.results.responseKeys = ["color", "VD:label", "VD:descId_s"]) :
    AnswersNode coloredGraph cmd (some 1, redResponse) := by
  refine ⟨redPredicates d, _, by rw [hcmd]; rfl, rfl, .inl ⟨1, redRow, rfl, ?_, ?_, rfl⟩⟩
  · rw [hcmd]
    have htag : tagMatches (Platform.stringID "VD:DESC") (Platform.stringID "VD:DESC") = true := by
      decide
    exact ⟨coloredNode 1 "red", rfl, htag, _,
      List.mem_cons_of_mem _ (List.mem_singleton_self _), by decide⟩
  · rw [hkeys]
    exact redRow_isRow

/-- The constraint on the color as a constraint of the queries. -/
theorem reached_color (value : Json) {m : String × Json} :
    Reached "s" (colored value) m ↔ m = ("color", .array [.string "==", value]) := by
  constructor
  · rintro ⟨m', hm', -, rfl⟩
    obtain rfl := List.mem_singleton.1 hm'
    rfl
  · rintro rfl
    have hcolor : "color" ≠ descIdProp "s" := descIdProp_ne (by decide)
    refine ⟨_, List.mem_singleton_self _, ⟨by simp, hcolor, ?_⟩, rfl⟩
    exact fun h => absurd h (by simp)

/-- The color of a node. -/
theorem holds_red {d : ℤ} {color : String} :
    Written.Holds "color" ⟨"==", .string "red"⟩ (coloredNode d color).props ↔
      color = "red" := by
  have hcolor : (coloredNode d color).props (Platform.stringID "color") =
      some (.string color) := rfl
  rw [Written.Holds, hcolor]
  simp [Compares, Platform.Predicates.equals]

end Vdms
