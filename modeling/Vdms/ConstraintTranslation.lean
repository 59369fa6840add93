import Vdms.Constraints
import Vdms.TableScan
import Mathlib.Data.List.Forall2

/-!
# What a Translated Constraint Means

A constraint is *written* as comparisons of a property with values. This module says what
the six operators and the values of the API mean, and compares that with the PMGD
predicates that `parse_query_constraints` and `construct_search_term` make of them. A
single comparison and the four ranges with a lower bound first mean what is written. An
unknown operator and any other pair of operators become `DontCare`, a test that the
property exists.

## Main definitions

* `Compares`, `writtenValue`, `written`: what an operator, a value and an array mean.
* `Platform.Predicates`: PMGD's predicates.
* `Translates`: the predicates an object is translated into.
* `TranslatedOrRejected`: one predicate for each key, which holds exactly when the
  comparisons of the key hold, or an error if there is no such predicate.

## Main results

* `constraints_translated_iff`: when that is the case.
-/

namespace Vdms

open Platform

/-- The operator of a range is the conjunction of these two. -/
def Op.lower : Op → Op
  | .geLe | .geLt => .ge
  | .gtLe | .gtLt => .gt
  | op => op

def Op.upper : Op → Op
  | .geLe | .gtLe => .le
  | .geLt | .gtLt => .lt
  | op => op

/-- What PMGD's predicates with one operand ask of a value, given its equality. -/
def Op.Meets [Platform] (equals : Property → Property → Prop) (op : Op) (v a : Property) :
    Prop :=
  match op with
  | .gt => less a v = true
  | .ge => equals v a ∨ less a v = true
  | .lt => less v a = true
  | .le => equals v a ∨ less v a = true
  | .eq => equals v a
  | .ne => ¬ equals v a
  | _ => False

/-- The documented behaviour of PMGD's predicates: a range holds when both of its bounds
do, and a predicate that holds of a property needs the property to exist. -/
class Platform.Ranges [Platform] : Prop where
  passes_range (key : StringID) (op : Op) (a b : Property) (props : Props) :
    op.isRange = true →
      passes { id := key, op, v1 := some a, v2 := some b } props =
        (passes { id := key, op := op.lower, v1 := some a } props &&
          passes { id := key, op := op.upper, v1 := some b } props)
  passes_present (pp : PropertyPredicate) (props : Props) : passes pp props = true →
    passes { id := pp.id } props = true

instance : Platform.Ranges where
  passes_range key op a b props h := by
    simp only [passes, tablePasses]
    by_cases hkey : key = 0
    · simp [hkey]
    · cases hv : props key with
      | none => simp [hkey]
      | some v => cases op <;> simp_all [Op.isRange, Op.lower, Op.upper, holdsOp]
  passes_present pp props h := by
    simp only [passes, tablePasses, Bool.or_eq_true, decide_eq_true_eq] at h ⊢
    rcases h with h | h
    · exact .inl h
    · obtain ⟨v, hv, -⟩ := (Option.any_eq_true _ _).1 h
      exact .inr (by simp [hv, holdsOp])

/-- More of it: the key 0 asks for nothing, a predicate on any other key needs the property,
`DontCare` needs nothing else, and an operator with one operand compares the value with it. -/
class Platform.Predicates [Platform] extends Platform.Ranges where
  equals : Property → Property → Prop
  passes_unset (pp : PropertyPredicate) (props : Props) : pp.id = 0 → passes pp props = true
  passes_key (key : StringID) (props : Props) : key ≠ 0 →
    (passes { id := key } props = true ↔ ∃ v, props key = some v)
  passes_one (key : StringID) (op : Op) (a : Property) (props : Props) : key ≠ 0 →
    op ≠ .dontCare → op.isRange = false →
      (passes { id := key, op, v1 := some a } props = true ↔
        ∃ v, props key = some v ∧ op.Meets equals v a)

instance : Platform.Predicates where
  equals v a := v = a
  passes_unset pp props h := by simp [passes, tablePasses, h]
  passes_key key props hkey := by
    cases hv : props key <;> simp [passes, tablePasses, hkey, hv, holdsOp]
  passes_one key op a props hkey hop hrange := by
    simp only [passes, tablePasses, hkey, decide_false, Bool.false_or, Option.any_eq_true]
    cases op with
    | ge =>
        simp only [Op.Meets, holdsOp, less, Bool.or_eq_true, decide_eq_true_eq, Option.getD_some]
        exact ⟨fun ⟨v, hv, h⟩ => ⟨v, hv, h.imp_left Eq.symm⟩,
          fun ⟨v, hv, h⟩ => ⟨v, hv, h.imp_left Eq.symm⟩⟩
    | _ => simp_all [Op.isRange, Op.Meets, holdsOp, less]

section

variable [Platform]

/-! ### What is written -/

/-- The operators of the API. -/
def comparisons : List String := [">", ">=", "<", "<=", "==", "!="]

/-- The value `v` of a property compares with the written `x` as the operator says. -/
def Compares [Platform.Predicates] (op : String) (v x : Property) : Prop :=
  if op = ">" then less x v = true
  else if op = ">=" then Predicates.equals v x ∨ less x v = true
  else if op = "<" then less v x = true
  else if op = "<=" then Predicates.equals v x ∨ less v x = true
  else if op = "==" then Predicates.equals v x
  else if op = "!=" then ¬ Predicates.equals v x
  else False

/-- The text an object has under a key, if there is the key. -/
def Json.textAt (j : Json) (key : String) : Option String :=
  if j.isMember key then (j.get key).toOption.bind fun v => v.asString.toOption else none

/-- The value a JSON value stands for: an integer of 64 bits, a truth value, a number, a
text, or an object with a date or else with a text under `_blob`. -/
def writtenValue : Json → Option Property
  | .int z => if -2 ^ 63 ≤ z ∧ z < 2 ^ 63 then some (.integer z) else none
  | .bool b => some (.boolean b)
  | .real x => some (.float x)
  | .string s => some (.string s)
  | .object ms =>
      if (Json.object ms).isMember "_date" then
        ((Json.object ms).textAt "_date").bind fun date =>
          (stringToTime date).toOption.map Property.time
      else ((Json.object ms).textAt "_blob").map Property.string
  | _ => none

/-- A JSON value of one of these forms, whether or not its date is one. -/
def Json.IsValue : Json → Prop
  | .int z => -2 ^ 63 ≤ z ∧ z < 2 ^ 63
  | .bool _ | .real _ | .string _ => True
  | .object ms =>
      if (Json.object ms).isMember "_date" then ((Json.object ms).textAt "_date").isSome
      else ((Json.object ms).textAt "_blob").isSome
  | _ => False

/-- A comparison with a value. -/
structure Written where
  op : String
  value : Property

/-- The property of the key is there and compares as written. -/
def Written.Holds [Platform.Predicates] (key : String) (w : Written) (props : Props) : Prop :=
  ∃ v, props (stringID key) = some v ∧ Compares w.op v w.value

/-- An operator with a value. -/
def writtenBy (op : String) (v : Json) : Option Written :=
  if op ∈ comparisons then (writtenValue v).map fun value => { op, value } else none

/-- The comparisons an array asks for: `[op, value]` or `[op, value, op, value]`. -/
def written : Json → Option (List Written)
  | .array [o, v] => o.asString.toOption.bind fun op => (writtenBy op v).map fun w => [w]
  | .array [o1, v1, o2, v2] =>
      o1.asString.toOption.bind fun op1 => o2.asString.toOption.bind fun op2 =>
        (writtenBy op1 v1).bind fun w1 => (writtenBy op2 v2).map fun w2 => [w1, w2]
  | _ => none

/-- The predicate holds of a node exactly when every comparison of the member does. -/
def Expresses [Platform.Predicates] (m : String × Json) (pp : PropertyPredicate) : Prop :=
  ∃ ws, written m.2 = some ws ∧
    ∀ props, passes pp props = true ↔ ∀ w ∈ ws, w.Holds m.1 props

/-! ### What it is translated into -/

/-- The object is translated into these predicates. -/
def Translates (now : ℕ) (c : Json) (pps : List PropertyPredicate) : Prop :=
  ∃ p, parseQueryConstraints now c = .ok p ∧ p.predicates.mapM constructSearchTerm = .ok pps

/-- A member is translated into these predicates. -/
def MemberTranslates (m : String × Json) (pps : List PropertyPredicate) : Prop :=
  ∃ ps, memberPredicates m = .ok ps ∧ ps.mapM constructSearchTerm = .ok pps

/-- The object is translated into one predicate for each key, which expresses what is
written for the key, or it is rejected, and there is a key with no such predicate. -/
def TranslatedOrRejected [Platform.Predicates] (now : ℕ) (c : Json) : Prop :=
  (∃ pps, Translates now c pps ∧ List.Forall₂ Expresses c.members pps) ∨
    (∀ pps, ¬ Translates now c pps) ∧ ∃ m ∈ c.members, ∀ pp, ¬ Expresses m pp

omit [Platform] in
/-- A loop over the members of several lists succeeds exactly if the loops over each list do. -/
theorem mapM_flatten_ok_iff {α β ε : Type} {f : α → Except ε β} {xss : List (List α)}
    {ys : List β} :
    xss.flatten.mapM f = .ok ys ↔
      ∃ yss, List.Forall₂ (fun xs ys => xs.mapM f = .ok ys) xss yss ∧ ys = yss.flatten := by
  induction xss generalizing ys with
  | nil =>
      constructor
      · intro h
        cases h
        exact ⟨[], .nil, rfl⟩
      · rintro ⟨yss, hall, rfl⟩
        cases hall
        rfl
  | cons xs xss ih =>
      rw [List.flatten_cons, List.mapM_append]
      constructor
      · intro h
        obtain ⟨ys, hys, h⟩ := bind_ok_inv h
        obtain ⟨zs, hzs, h⟩ := bind_ok_inv h
        cases h
        obtain ⟨yss, hall, rfl⟩ := ih.1 hzs
        exact ⟨ys :: yss, .cons hys hall, rfl⟩
      · rintro ⟨yss, hall, rfl⟩
        cases hall with
        | cons hys hall =>
            rw [hys, ih.2 ⟨_, hall, rfl⟩]
            rfl

omit [Platform] in
/-- Two lists are related through a composition exactly if there is a list between them. -/
theorem forall₂_comp_iff {α β γ : Type} {R : α → β → Prop} {S : β → γ → Prop} {xs : List α}
    {zs : List γ} :
    List.Forall₂ (fun x z => ∃ y, R x y ∧ S y z) xs zs ↔
      ∃ ys, List.Forall₂ R xs ys ∧ List.Forall₂ S ys zs := by
  constructor
  · intro h
    induction h with
    | nil => exact ⟨[], .nil, .nil⟩
    | cons hhead _ ih =>
        obtain ⟨y, hr, hs⟩ := hhead
        obtain ⟨ys, hrs, hss⟩ := ih
        exact ⟨y :: ys, .cons hr hrs, .cons hs hss⟩
  · rintro ⟨ys, hrs, hss⟩
    induction hrs generalizing zs with
    | nil =>
        cases hss
        exact .nil
    | cons hr _ ih =>
        cases hss with
        | cons hs hss => exact .cons ⟨_, hr, hs⟩ (ih hss)

omit [Platform] in
/-- Every member of the first of two related lists is related to one of the second. -/
theorem forall₂_mem_left {α β : Type} {R : α → β → Prop} {xs : List α} {ys : List β} {x : α}
    (h : List.Forall₂ R xs ys) (hx : x ∈ xs) : ∃ y ∈ ys, R x y := by
  induction h with
  | nil => cases hx
  | cons hr _ ih =>
      rcases List.mem_cons.1 hx with rfl | hx
      · exact ⟨_, List.mem_cons_self, hr⟩
      · obtain ⟨y, hy, hr⟩ := ih hx
        exact ⟨y, List.mem_cons_of_mem _ hy, hr⟩

omit [Platform] in
/-- A list can be related to another exactly if each of its members can be. -/
theorem forall₂_exists_iff {α β : Type} {R : α → β → Prop} {xs : List α} :
    (∃ ys, List.Forall₂ R xs ys) ↔ ∀ x ∈ xs, ∃ y, R x y := by
  constructor
  · rintro ⟨ys, h⟩ x hx
    obtain ⟨y, -, hy⟩ := forall₂_mem_left h hx
    exact ⟨y, hy⟩
  · intro h
    induction xs with
    | nil => exact ⟨[], .nil⟩
    | cons x xs ih =>
        obtain ⟨⟨y, hy⟩, hrest⟩ := List.forall_mem_cons.1 h
        obtain ⟨ys, hys⟩ := ih hrest
        exact ⟨y :: ys, .cons hy hys⟩

/-- An object is translated member by member. -/
theorem translates_iff {now : ℕ} {c : Json} {pps : List PropertyPredicate} :
    Translates now c pps ↔
      (∃ ppss, List.Forall₂ MemberTranslates c.members ppss ∧ pps = ppss.flatten) ∧
        ∀ m ∈ c.members, ∃ asks, memberAsks now m = .ok asks := by
  constructor
  · rintro ⟨p, hp, hpps⟩
    obtain ⟨pss, hall, hpreds, hasks, -⟩ := parseQueryConstraints_inv hp
    rw [hpreds, mapM_flatten_ok_iff] at hpps
    obtain ⟨ppss, hmap, rfl⟩ := hpps
    exact ⟨⟨ppss, forall₂_comp_iff.2 ⟨pss, hall, hmap⟩, rfl⟩, hasks⟩
  · rintro ⟨⟨ppss, hall, rfl⟩, hasks⟩
    obtain ⟨pss, hpss, hmap⟩ := forall₂_comp_iff.1 hall
    obtain ⟨p, hp⟩ := parseQueryConstraints_total fun m hm => by
      obtain ⟨ps, -, hps⟩ := forall₂_mem_left hpss hm
      exact ⟨⟨ps, hps⟩, hasks m hm⟩
    obtain ⟨pss', hpss', hpreds, -⟩ := parseQueryConstraints_inv hp
    have hsame : pss' = pss := List.right_unique_forall₂'
      (fun m ps ps' h h' => Except.ok.inj (h.symm.trans h')) hpss' hpss
    refine ⟨p, hp, ?_⟩
    rw [hpreds, hsame, mapM_flatten_ok_iff]
    exact ⟨ppss, hmap, rfl⟩

/-! ### One member -/

/-- A property value as the search makes it of JSON. -/
def searchValue (key : String) (v : Json) : Option Property :=
  (jsonProperty key v).toOption.bind fun p => (constructSearchProperty p).toOption

/-- The predicate of a single comparison. -/
def comparisonTerm (key : String) (c : Comparison) (x : Property) : PropertyPredicate :=
  { id := stringID key, op := c.op, v1 := some x }

/-- The PMGD predicates of a constraint, if its values can be read. Those of a constraint
without a predicate of its own are not looked at by `construct_search_term`. -/
def Constraint.terms (key : String) : Constraint → Option (List PropertyPredicate)
  | value op v =>
      match Comparison.ofString op with
      | some c => (searchValue key v).map fun x => [comparisonTerm key c x]
      | none => (jsonProperty key v).toOption.map fun _ => [{ id := stringID key }]
  | values op vs => do
      let c ← Comparison.ofString op
      let xs ← vs.mapM (searchValue key)
      pure (xs.map fun x => comparisonTerm key c x)
  | range op1 v1 op2 v2 =>
      if rangeOp op1 op2 = .dontCare then do
        let _ ← (jsonProperty key v1).toOption
        let _ ← (jsonProperty key v2).toOption
        pure [{ id := stringID key }]
      else do
        let x1 ← searchValue key v1
        let x2 ← searchValue key v2
        pure [{ id := stringID key, op := rangeOp op1 op2, v1 := some x1, v2 := some x2 }]

/-- The value of a search is read by `set_property` and taken by `construct_search_property`. -/
theorem searchValue_eq_some {key : String} {v : Json} {x : Property} :
    searchValue key v = some x ↔
      ∃ p, jsonProperty key v = .ok p ∧ constructSearchProperty p = .ok x := by
  simp only [searchValue, Option.bind_eq_some_iff, Except.toOption_eq_some]

/-- The term of a predicate that asks for nothing keeps only the key. -/
theorem constructSearchTerm_dontCare (key : String) (v1 v2 : PMGDProp) :
    constructSearchTerm { key := .name key, op := .dontCare, v1, v2 } =
      .ok { id := stringID key } := rfl

omit [Platform] in
/-- A comparison is translated to an operator that asks for something. -/
theorem Comparison.op_ne_dontCare (c : Comparison) : c.op ≠ .dontCare := by
  cases c <;> simp [Comparison.op]

omit [Platform] in
/-- A comparison with one value is not translated to a range. -/
theorem Comparison.op_isRange (c : Comparison) : c.op.isRange = false := by
  cases c <;> rfl

/-- A comparison is translated into itself. -/
theorem constructSearchTerm_comparison {key : String} {c : Comparison} {v1 : PMGDProp} :
    constructSearchTerm { key := .name key, op := c.op, v1 } =
      (constructSearchProperty v1).map fun x => comparisonTerm key c x := by
  cases h : constructSearchProperty v1 with
  | error e =>
      simp [constructSearchTerm, c.op_ne_dontCare, h, bind, Except.bind, Except.map]
  | ok x =>
      simp [constructSearchTerm, c.op_ne_dontCare, c.op_isRange, h, comparisonTerm,
        StringOrID.resolve, bind, Except.bind, pure, Except.pure, Except.map]

omit [Platform] in
/-- Two comparisons in the order of a range are translated to the operator of a range. -/
theorem rangeOp_isRange {op1 op2 : String} (h : rangeOp op1 op2 ≠ .dontCare) :
    (rangeOp op1 op2).isRange = true := by
  rw [rangeOp] at h ⊢
  split_ifs at h ⊢ <;> first | rfl | exact absurd rfl h

/-- A list of alternatives is translated one by one. -/
theorem values_translate {key : String} {c : Comparison} {vs : List Json}
    {pps : List PropertyPredicate} :
    (∃ ps, vs.mapM (fun v => jsonProperty key v) = .ok ps ∧
      (ps.map fun v1 => ({ key := .name key, op := c.op, v1 } : PMGDPropPred)).mapM
        constructSearchTerm = .ok pps) ↔
      ∃ xs, vs.mapM (searchValue key) = some xs ∧
        xs.map (fun x => comparisonTerm key c x) = pps := by
  induction vs generalizing pps with
  | nil =>
      constructor
      · rintro ⟨ps, hps, h⟩
        cases hps
        cases h
        exact ⟨[], rfl, rfl⟩
      · rintro ⟨xs, hxs, rfl⟩
        cases hxs
        exact ⟨[], rfl, rfl⟩
  | cons v vs ih =>
      constructor
      · rintro ⟨ps, hps, h⟩
        rw [List.mapM_cons] at hps
        obtain ⟨p, hp, hrest⟩ := bind_ok_inv hps
        obtain ⟨ps', hps', hcons⟩ := bind_ok_inv hrest
        cases hcons
        rw [List.map_cons, List.mapM_cons, constructSearchTerm_comparison] at h
        obtain ⟨pp, hpp, hrest'⟩ := bind_ok_inv h
        obtain ⟨pps', hpps, hcons⟩ := bind_ok_inv hrest'
        cases hcons
        cases hx : constructSearchProperty p with
        | error e =>
            rw [hx] at hpp
            cases hpp
        | ok x =>
            rw [hx] at hpp
            cases hpp
            obtain ⟨xs, hxs, rfl⟩ := ih.1 ⟨ps', hps', hpps⟩
            refine ⟨x :: xs, ?_, rfl⟩
            rw [List.mapM_cons, searchValue_eq_some.2 ⟨p, hp, hx⟩, hxs]
            rfl
      · rintro ⟨xs, hxs, rfl⟩
        rw [List.mapM_cons] at hxs
        obtain ⟨x, hx, hxs⟩ := Option.bind_eq_some_iff.1 hxs
        obtain ⟨xs, hrest, hcons⟩ := Option.bind_eq_some_iff.1 hxs
        cases hcons
        obtain ⟨p, hp, hx⟩ := searchValue_eq_some.1 hx
        obtain ⟨ps, hps, h⟩ := ih.2 ⟨xs, hrest, rfl⟩
        refine ⟨p :: ps, ?_, ?_⟩
        · rw [List.mapM_cons, hp, hps]
          rfl
        · rw [List.map_cons, List.mapM_cons, constructSearchTerm_comparison, hx, h]
          rfl

/-- **One constraint.** The predicates of a constraint are translated into its terms. -/
theorem Constraint.predicates_translate {key : String} {k : Constraint}
    {pps : List PropertyPredicate} :
    (∃ ps, k.predicates key = .ok ps ∧ ps.mapM constructSearchTerm = .ok pps) ↔
      k.terms key = some pps := by
  cases k with
  | value op v =>
      cases hc : Comparison.ofString op with
      | none =>
          cases hp : jsonProperty key v with
          | error e => simp [predicates, terms, hp, hc, bind, Except.bind, Except.toOption]
          | ok p =>
              simp [predicates, terms, hp, hc, constructSearchTerm_dontCare, bind, Except.bind,
                pure, Except.pure, Except.toOption]
      | some c =>
          cases hp : jsonProperty key v with
          | error e =>
              simp [predicates, terms, searchValue, hp, hc, bind, Except.bind, Except.toOption]
          | ok p =>
              cases hx : constructSearchProperty p with
              | error e =>
                  simp [predicates, terms, searchValue, hp, hc, hx,
                    constructSearchTerm_comparison, bind, Except.bind, pure, Except.pure,
                    Except.toOption, Except.map]
              | ok x =>
                  simp [predicates, terms, searchValue, hp, hc, hx,
                    constructSearchTerm_comparison, bind, Except.bind, pure, Except.pure,
                    Except.toOption, Except.map]
  | values op vs =>
      cases hc : Comparison.ofString op with
      | none => simp [predicates, terms, hc]
      | some c =>
          have hterms : (values op vs).terms key = some pps ↔
              ∃ xs, vs.mapM (searchValue key) = some xs ∧
                xs.map (fun x => comparisonTerm key c x) = pps := by
            simp [terms, hc, Option.bind_eq_some_iff]
          rw [hterms, ← values_translate]
          cases hps : vs.mapM fun v => jsonProperty key v with
          | error e => simp [predicates, hc, hps, bind, Except.bind]
          | ok ps => simp [predicates, hc, hps, bind, Except.bind, pure, Except.pure]
  | range op1 v1 op2 v2 =>
      cases hp1 : jsonProperty key v1 with
      | error e =>
          simp [predicates, terms, searchValue, hp1, bind, Except.bind, Except.toOption]
      | ok p1 =>
          cases hp2 : jsonProperty key v2 with
          | error e =>
              simp [predicates, terms, searchValue, hp1, hp2, bind, Except.bind,
                Except.toOption]
          | ok p2 =>
              by_cases hop : rangeOp op1 op2 = .dontCare
              · simp [predicates, terms, hp1, hp2, hop, constructSearchTerm_dontCare, bind,
                  Except.bind, pure, Except.pure, Except.toOption]
              · have hrange := rangeOp_isRange hop
                cases hx1 : constructSearchProperty p1 with
                | error e =>
                    simp [predicates, terms, searchValue, constructSearchTerm, hp1, hp2, hop,
                      hx1, bind, Except.bind, pure, Except.pure, Except.toOption]
                | ok x1 =>
                    cases hx2 : constructSearchProperty p2 with
                    | error e =>
                        simp [predicates, terms, searchValue, constructSearchTerm, hp1, hp2,
                          hop, hrange, hx1, hx2, bind, Except.bind, pure, Except.pure,
                          Except.toOption]
                    | ok x2 =>
                        simp [predicates, terms, searchValue, constructSearchTerm, hp1, hp2,
                          hop, hrange, hx1, hx2, StringOrID.resolve, bind, Except.bind, pure,
                          Except.pure, Except.toOption]

/-- The members that are translated. -/
theorem memberTranslates_iff {m : String × Json} {pps : List PropertyPredicate} :
    MemberTranslates m pps ↔ (m.1 = "_deletion" ∧ pps = []) ∨
      m.1 ≠ "_deletion" ∧ ∃ k, Constraint.ofJson m.2 = some k ∧ k.terms m.1 = some pps := by
  obtain ⟨key, j⟩ := m
  rw [MemberTranslates, memberPredicates]
  by_cases hkey : key = "_deletion"
  · simp only [hkey, if_true, ne_eq, not_true_eq_false, false_and, or_false, true_and]
    constructor
    · rintro ⟨ps, hps, h⟩
      cases hps
      cases h
      rfl
    · rintro rfl
      exact ⟨[], rfl, rfl⟩
  · simp only [hkey, if_false, false_and, ne_eq, not_false_eq_true, true_and, false_or]
    cases hk : Constraint.ofJson j with
    | none => simp
    | some k => simp [← Constraint.predicates_translate]

/-! ### Which constraints are translated faithfully -/

/-- The API's checks, for an object without lists of values: every key has an array of two
or of four elements. -/
structure Accepted (c : Json) : Prop where
  isObject : c.isObject = true
  shape : ∀ m ∈ c.members, (∃ o v, m.2 = .array [o, v] ∧ v.isArray = false) ∨
    ∃ o1 v1 o2 v2, m.2 = .array [o1, v1, o2, v2] ∧ v1.isArray = false ∧ v2.isArray = false

/-- A lower bound followed by an upper bound. -/
def InOrder (op1 op2 : String) : Prop :=
  (op1 = ">" ∨ op1 = ">=") ∧ (op2 = "<" ∨ op2 = "<=")

/-- The values that are looked at have a property value; those beside an unknown operator,
or of a pair that is not in order, only need the form of one. A list needs a known
operator. -/
def Constraint.Readable : Constraint → Prop
  | value op v => (op ∈ comparisons → ∃ x, writtenValue v = some x) ∧ v.IsValue
  | values op vs => op ∈ comparisons ∧ ∀ v ∈ vs, ∃ x, writtenValue v = some x
  | range op1 v1 op2 v2 =>
      (InOrder op1 op2 → (∃ x, writtenValue v1 = some x) ∧ ∃ x, writtenValue v2 = some x) ∧
        v1.IsValue ∧ v2.IsValue

/-- A single bound from above can be read as a time stamp. -/
def Constraint.Stamped : Constraint → Prop
  | value op v => (op = ">" ∨ op = ">=" ∨ op = "!=") ∨ ∃ bound, v.asUInt64 = .ok bound
  | _ => True

/-- The values of a member can be read, and a single bound on the expiration as a time
stamp. -/
def MemberReadable (m : String × Json) : Prop :=
  m.1 = "_deletion" ∨ ∃ k, Constraint.ofJson m.2 = some k ∧ k.Readable ∧
    (m.1 = "_expiration" → k.Stamped)

/-- A single comparison, or a lower bound followed by an upper bound. -/
def OpsInOrder : List Written → Prop
  | [_] => True
  | [w1, w2] => InOrder w1.op w2.op
  | _ => False

/-- The key names a property, and the comparisons are in order or hold of every value. -/
def MemberKept [Platform.Predicates] (m : String × Json) : Prop :=
  stringID m.1 ≠ 0 ∧ ∃ ws, written m.2 = some ws ∧
    (OpsInOrder ws ∨ ∀ v, ∀ w ∈ ws, Compares w.op v w.value)

/-- The values that are read as a property message. -/
theorem jsonProperty_iff {key : String} {v : Json} :
    (∃ p, jsonProperty key v = .ok p) ↔ v.IsValue := by
  cases v with
  | int z =>
      by_cases hz : -2 ^ 63 ≤ z ∧ z ≤ 2 ^ 63 - 1
      · simp only [jsonProperty, Json.asInt64, Json.asInteger, if_pos hz, Json.IsValue]
        exact iff_of_true ⟨_, rfl⟩ (by omega)
      · simp only [jsonProperty, Json.asInt64, Json.asInteger, if_neg hz, Json.IsValue]
        refine iff_of_false ?_ (by omega)
        rintro ⟨p, hp⟩
        cases hp
  | bool b => exact iff_of_true ⟨_, rfl⟩ trivial
  | real x => exact iff_of_true ⟨_, rfl⟩ trivial
  | string s => exact iff_of_true ⟨_, rfl⟩ trivial
  | object ms =>
      by_cases hdate : (Json.object ms).isMember "_date" = true
      · simp only [jsonProperty, Json.IsValue, Json.textAt, Json.get, if_pos hdate, bind,
          Except.bind, Except.toOption, Option.bind_some]
        cases ((ms.lookup "_date").getD Json.null).asString <;> simp [pure, Except.pure]
      · simp only [jsonProperty, Json.IsValue, Json.textAt, Json.get, if_neg hdate, bind,
          Except.bind, Except.toOption, Option.bind_some]
        by_cases hblob : (Json.object ms).isMember "_blob" = true
        · simp only [if_pos hblob]
          cases ((ms.lookup "_blob").getD Json.null).asString <;> simp [pure, Except.pure]
        · simp [if_neg hblob]
  | null => simp [jsonProperty, Json.IsValue]
  | array vs => simp [jsonProperty, Json.IsValue]

/-- The search makes of a value what it stands for. -/
theorem searchValue_eq (key : String) {v : Json} : searchValue key v = writtenValue v := by
  cases v with
  | int z =>
      by_cases hz : -2 ^ 63 ≤ z ∧ z ≤ 2 ^ 63 - 1
      · have hz' : -2 ^ 63 ≤ z ∧ z < 2 ^ 63 := by omega
        simp only [searchValue, jsonProperty, Json.asInt64, Json.asInteger, if_pos hz,
          writtenValue, if_pos hz']
        rfl
      · have hz' : ¬ (-2 ^ 63 ≤ z ∧ z < 2 ^ 63) := by omega
        simp only [searchValue, jsonProperty, Json.asInt64, Json.asInteger, if_neg hz,
          writtenValue, if_neg hz']
        rfl
  | object ms =>
      by_cases hdate : (Json.object ms).isMember "_date" = true
      · simp only [searchValue, jsonProperty, writtenValue, Json.textAt, Json.get,
          if_pos hdate, bind, Except.bind, Except.toOption, Option.bind_some]
        cases ((ms.lookup "_date").getD Json.null).asString with
        | error e => rfl
        | ok date =>
            simp only [pure, Except.pure, Option.bind_some, constructSearchProperty,
              PMGDProp.value]
            cases stringToTime date <;> rfl
      · simp only [searchValue, jsonProperty, writtenValue, Json.textAt, Json.get,
          if_neg hdate, bind, Except.bind, Except.toOption, Option.bind_some]
        by_cases hblob : (Json.object ms).isMember "_blob" = true
        · simp only [if_pos hblob]
          cases ((ms.lookup "_blob").getD Json.null).asString <;> rfl
        · simp only [if_neg hblob]
          rfl
  | _ => rfl

omit [Platform] in
/-- The texts that are comparisons are those that the translation has a case for. -/
theorem mem_comparisons {op : String} :
    op ∈ comparisons ↔ ∃ c, Comparison.ofString op = some c := by
  simp only [comparisons, List.mem_cons, List.not_mem_nil, or_false, Comparison.ofString]
  split_ifs <;> simp_all

/-- The six operators are translated into predicates with their meaning. -/
theorem compares_iff [Platform.Predicates] {op : String} {c : Comparison}
    (hc : Comparison.ofString op = some c) {v x : Property} :
    Compares op v x ↔ c.op.Meets Predicates.equals v x := by
  rw [Comparison.ofString] at hc
  rw [Compares]
  split_ifs at hc ⊢ <;> cases hc <;> rfl


omit [Platform] in
/-- The pairs in order are those that have a predicate. -/
theorem rangeOp_ne_dontCare {op1 op2 : String} :
    rangeOp op1 op2 ≠ .dontCare ↔ InOrder op1 op2 := by
  rw [rangeOp, InOrder]
  split_ifs <;> simp_all
  rintro (rfl | rfl) <;> simp_all

/-- A value that the search reads is one that can be written as a value of a property. -/
theorem isValue_of_searchValue {key : String} {v : Json} :
    (∃ x, searchValue key v = some x) → v.IsValue := by
  rintro ⟨x, hx⟩
  obtain ⟨p, hp, -⟩ := searchValue_eq_some.1 hx
  exact jsonProperty_iff.1 ⟨p, hp⟩

/-- `set_property` reads exactly the values that can be written as values of properties. -/
theorem jsonProperty_toOption_iff (key : String) {v : Json} :
    (∃ p, (jsonProperty key v).toOption = some p) ↔ v.IsValue := by
  simp only [Except.toOption_eq_some, jsonProperty_iff]

omit [Platform] in
/-- A loop over a list has a result exactly if each of its members has one. -/
theorem mapM_option_exists_iff {α β : Type} {f : α → Option β} {xs : List α} :
    (∃ ys, xs.mapM f = some ys) ↔ ∀ x ∈ xs, ∃ y, f x = some y := by
  induction xs with
  | nil => simp
  | cons x xs ih =>
      rw [List.forall_mem_cons, ← ih]
      constructor
      · rintro ⟨ys, h⟩
        rw [List.mapM_cons] at h
        obtain ⟨y, hy, h⟩ := Option.bind_eq_some_iff.1 h
        obtain ⟨ys, hys, -⟩ := Option.bind_eq_some_iff.1 h
        exact ⟨⟨y, hy⟩, ys, hys⟩
      · rintro ⟨⟨y, hy⟩, ys, hys⟩
        exact ⟨y :: ys, by rw [List.mapM_cons, hy, hys]; rfl⟩

/-- **Reading.** A constraint has predicates if its values can be read. -/
theorem Constraint.terms_exists_iff (key : String) {k : Constraint} :
    (∃ pps, k.terms key = some pps) ↔ k.Readable := by
  cases k with
  | value op v =>
      cases hc : Comparison.ofString op with
      | none =>
          have hop : op ∉ comparisons := fun h => by
            obtain ⟨c, hc'⟩ := mem_comparisons.1 h
            cases hc.symm.trans hc'
          simp only [terms, hc, Option.map_eq_some_iff, Readable, hop, false_imp_iff,
            true_and]
          rw [← jsonProperty_toOption_iff key]
          exact ⟨fun ⟨_, p, hp, _⟩ => ⟨p, hp⟩, fun ⟨p, hp⟩ => ⟨_, p, hp, rfl⟩⟩
      | some c =>
          have hop : op ∈ comparisons := mem_comparisons.2 ⟨c, hc⟩
          simp only [terms, hc, Option.map_eq_some_iff, Readable, hop, true_imp_iff,
            ← searchValue_eq key]
          constructor
          · rintro ⟨pps, x, hx, -⟩
            exact ⟨⟨x, hx⟩, isValue_of_searchValue ⟨x, hx⟩⟩
          · rintro ⟨⟨x, hx⟩, -⟩
            exact ⟨_, x, hx, rfl⟩
  | values op vs =>
      simp only [terms, Readable, mem_comparisons, ← searchValue_eq key,
        ← mapM_option_exists_iff, Option.bind_eq_bind, Option.bind_eq_some_iff]
      constructor
      · rintro ⟨pps, c, hc, xs, hxs, -⟩
        exact ⟨⟨c, hc⟩, xs, hxs⟩
      · rintro ⟨⟨c, hc⟩, xs, hxs⟩
        exact ⟨_, c, hc, xs, hxs, rfl⟩
  | range op1 v1 op2 v2 =>
      by_cases hop : rangeOp op1 op2 = .dontCare
      · have horder : ¬ InOrder op1 op2 := fun h => rangeOp_ne_dontCare.2 h hop
        simp only [terms, hop, if_true, Readable, horder, false_imp_iff, true_and,
          Option.bind_eq_bind, Option.bind_eq_some_iff,
          ← jsonProperty_toOption_iff key]
        constructor
        · rintro ⟨pps, p1, hp1, p2, hp2, -⟩
          exact ⟨⟨p1, hp1⟩, p2, hp2⟩
        · rintro ⟨⟨p1, hp1⟩, p2, hp2⟩
          exact ⟨_, p1, hp1, p2, hp2, rfl⟩
      · simp only [terms, hop, if_false, Readable, rangeOp_ne_dontCare.1 hop, true_imp_iff,
          Option.bind_eq_bind, Option.bind_eq_some_iff, ← searchValue_eq key]
        constructor
        · rintro ⟨pps, x1, hx1, x2, hx2, -⟩
          exact ⟨⟨⟨x1, hx1⟩, x2, hx2⟩, isValue_of_searchValue ⟨x1, hx1⟩,
            isValue_of_searchValue ⟨x2, hx2⟩⟩
        · rintro ⟨⟨⟨x1, hx1⟩, x2, hx2⟩, -⟩
          exact ⟨_, x1, hx1, x2, hx2, rfl⟩

/-- What is compared with the clock is a time stamp. -/
theorem Constraint.expires_exists_iff (now : ℕ) {k : Constraint} :
    (∃ asks, k.expires now = .ok asks) ↔ k.Stamped := by
  cases k with
  | value op v =>
      have hub : (Constraint.value op v).unbounded = true ↔
          op = ">" ∨ op = ">=" ∨ op = "!=" := by
        simp only [unbounded, Comparison.ofString]
        split_ifs <;> simp_all [Comparison.unbounded]
      simp only [expires, Stamped, ← hub]
      by_cases h : (Constraint.value op v).unbounded = true
      · simp [h]
      · simp only [h, if_false, false_or, Bool.false_eq_true]
        cases v.asUInt64 <;> simp [Except.map]
  | values op vs => simp [expires, Stamped]
  | range op1 v1 op2 v2 => simp [expires, Stamped]

/-- A member is readable exactly if it is translated and its question to the clock has an answer.
-/
theorem memberReadable_iff (now : ℕ) {m : String × Json} :
    MemberReadable m ↔
      (∃ pps, MemberTranslates m pps) ∧ ∃ asks, memberAsks now m = .ok asks := by
  simp only [MemberReadable, memberTranslates_iff, memberAsks,
    ← Constraint.terms_exists_iff m.1, ← Constraint.expires_exists_iff now]
  by_cases hdel : m.1 = "_deletion"
  · simp [hdel]
  · cases hk : Constraint.ofJson m.2 with
    | none => simp [hdel]
    | some k =>
        by_cases hexp : m.1 = "_expiration"
        · simp [hexp]
        · simp [hdel, hexp]

/-- An object is translated unless one of its members has values that cannot be read. -/
theorem translates_exists_iff {now : ℕ} {c : Json} :
    (∃ pps, Translates now c pps) ↔ ∀ m ∈ c.members, MemberReadable m := by
  simp only [translates_iff, memberReadable_iff now]
  constructor
  · rintro ⟨pps, ⟨ppss, hall, -⟩, hasks⟩ m hm
    exact ⟨forall₂_exists_iff.1 ⟨ppss, hall⟩ m hm, hasks m hm⟩
  · intro h
    obtain ⟨ppss, hall⟩ := forall₂_exists_iff.2 fun m hm => (h m hm).1
    exact ⟨_, ⟨ppss, hall, rfl⟩, fun m hm => (h m hm).2⟩

omit [Platform] in
/-- A pair of operators that has a predicate. -/
theorem rangeOp_inv {op1 op2 : String} (h : rangeOp op1 op2 ≠ .dontCare) :
    ∃ c1 c2, Comparison.ofString op1 = some c1 ∧ Comparison.ofString op2 = some c2 ∧
      (rangeOp op1 op2).lower = c1.op ∧ (rangeOp op1 op2).upper = c2.op := by
  rw [rangeOp] at h ⊢
  split_ifs at h ⊢ with h1 h2 h3 h4
  · exact ⟨.gt, .lt, by simp [h1.1, Comparison.ofString], by simp [h1.2, Comparison.ofString],
      rfl, rfl⟩
  · exact ⟨.ge, .lt, by simp [h2.1, Comparison.ofString], by simp [h2.2, Comparison.ofString],
      rfl, rfl⟩
  · exact ⟨.gt, .le, by simp [h3.1, Comparison.ofString], by simp [h3.2, Comparison.ofString],
      rfl, rfl⟩
  · exact ⟨.ge, .le, by simp [h4.1, Comparison.ofString], by simp [h4.2, Comparison.ofString],
      rfl, rfl⟩
  · exact absurd rfl h

/-! ### One key -/

/-- A member that is written as comparisons has at least one of them. -/
theorem written_ne_nil {j : Json} {ws : List Written} (h : written j = some ws) : ws ≠ [] := by
  unfold written at h
  split at h
  · obtain ⟨op, -, h⟩ := Option.bind_eq_some_iff.1 h
    obtain ⟨w, -, rfl⟩ := Option.map_eq_some_iff.1 h
    exact List.cons_ne_nil _ _
  · obtain ⟨op1, -, h⟩ := Option.bind_eq_some_iff.1 h
    obtain ⟨op2, -, h⟩ := Option.bind_eq_some_iff.1 h
    obtain ⟨w1, -, h⟩ := Option.bind_eq_some_iff.1 h
    obtain ⟨w2, -, rfl⟩ := Option.map_eq_some_iff.1 h
    exact List.cons_ne_nil _ _
  · cases h

/-- With an operator that is a comparison, what is written is the operator and the value. -/
theorem writtenBy_of_some {op : String} {c : Comparison} {v : Json}
    (hc : Comparison.ofString op = some c) :
    writtenBy op v = (writtenValue v).map fun value => { op, value } :=
  if_pos (mem_comparisons.2 ⟨c, hc⟩)

/-- With any other operator nothing is written. -/
theorem writtenBy_of_none {op : String} {v : Json} (hc : Comparison.ofString op = none) :
    writtenBy op v = none := by
  refine if_neg fun h => ?_
  obtain ⟨c, hc'⟩ := mem_comparisons.1 h
  cases hc.symm.trans hc'

/-- What is written keeps the operator. -/
theorem writtenBy_op {op : String} {v : Json} {w : Written} (h : writtenBy op v = some w) :
    w.op = op := by
  rw [writtenBy] at h
  split at h
  · obtain ⟨x, -, rfl⟩ := Option.map_eq_some_iff.1 h
    rfl
  · cases h

/-- A constraint without a list is a single comparison or a pair. -/
theorem written_of_shape {j : Json} (hshape : (∃ o v, j = .array [o, v] ∧ v.isArray = false) ∨
    ∃ o1 v1 o2 v2, j = .array [o1, v1, o2, v2] ∧ v1.isArray = false ∧ v2.isArray = false)
    {k : Constraint} (hk : Constraint.ofJson j = some k) :
    (∃ op v, k = .value op v ∧ written j = (writtenBy op v).map fun w => [w]) ∨
    ∃ op1 v1 op2 v2, k = .range op1 v1 op2 v2 ∧ written j =
      (writtenBy op1 v1).bind fun w1 => (writtenBy op2 v2).map fun w2 => [w1, w2] := by
  obtain ⟨o, vs, op, hj, -⟩ | ⟨o, v, op, hj, -, ho, rfl⟩ |
    ⟨o1, v1, o2, v2, rest, op1, op2, hj, ho1, ho2, rfl⟩ := Constraint.ofJson_inv hk
  · obtain ⟨o', v, hj', hv⟩ | ⟨o1, v1, o2, v2, hj', -⟩ := hshape
    · cases hj.symm.trans hj'
      cases hv
    · cases hj.symm.trans hj'
  · refine .inl ⟨op, v, rfl, ?_⟩
    rw [hj, written, ho]
    rfl
  · obtain ⟨o', v, hj', -⟩ | ⟨o1', v1', o2', v2', hj', -⟩ := hshape
    · cases hj.symm.trans hj'
    · cases hj.symm.trans hj'
      refine .inr ⟨op1, v1, op2, v2, rfl, ?_⟩
      rw [hj, written, ho1, ho2]
      rfl

section Predicates

variable [Platform.Predicates]

/-- A predicate on the key of a member expresses it only if the key names a property:
anything passes a predicate on the key 0, and the comparisons need the property. -/
theorem Expresses.stringID_ne_zero {m : String × Json} {pp : PropertyPredicate}
    (h : Expresses m pp) (hid : pp.id = stringID m.1) : stringID m.1 ≠ 0 := by
  intro hzero
  obtain ⟨ws, hws, hiff⟩ := h
  have hpass := Platform.Predicates.passes_unset pp (fun _ => none) (hid.trans hzero)
  obtain ⟨w, hw⟩ := List.exists_mem_of_ne_nil ws (written_ne_nil hws)
  obtain ⟨v, hv, -⟩ := (hiff _).1 hpass w hw
  cases hv

/-- The predicate of a known operator holds when the comparison does. -/
theorem passes_comparisonTerm {key op : String} {c : Comparison} {x : Property} {props : Props}
    (hkey : stringID key ≠ 0) (hc : Comparison.ofString op = some c) :
    passes (comparisonTerm key c x) props = true ↔ Written.Holds key ⟨op, x⟩ props := by
  rw [comparisonTerm, Platform.Predicates.passes_one _ _ _ _ hkey c.op_ne_dontCare c.op_isRange]
  simp only [Written.Holds, compares_iff hc]

/-- The test for existence expresses what every value satisfies. -/
theorem present_expresses {key : String} {ws : List Written} (hkey : stringID key ≠ 0)
    (hws : ws ≠ []) :
    (∀ props, passes { id := stringID key } props = true ↔ ∀ w ∈ ws, w.Holds key props) ↔
      ∀ v, ∀ w ∈ ws, Compares w.op v w.value := by
  constructor
  · intro h v w hw
    have hpass : passes { id := stringID key } (fun _ => some v) = true :=
      (Platform.Predicates.passes_key _ _ hkey).2 ⟨v, rfl⟩
    obtain ⟨v', hv', hcompares⟩ := (h _).1 hpass w hw
    cases hv'
    exact hcompares
  · intro h props
    rw [Platform.Predicates.passes_key _ _ hkey]
    constructor
    · rintro ⟨v, hv⟩ w hw
      exact ⟨v, hv, h v w hw⟩
    · intro hall
      obtain ⟨w, hw⟩ := List.exists_mem_of_ne_nil ws hws
      obtain ⟨v, hv, -⟩ := hall w hw
      exact ⟨v, hv⟩

/-- A single comparison has one predicate, which expresses it if its operator is known and
its key names a property. -/
theorem value_expresses {m : String × Json} {op : String} {v : Json}
    {pps : List PropertyPredicate}
    (hwritten : written m.2 = (writtenBy op v).map fun w => [w])
    (h : (Constraint.value op v).terms m.1 = some pps) :
    ∃ pp, pps = [pp] ∧ (Expresses m pp ↔ MemberKept m) := by
  cases hc : Comparison.ofString op with
  | none =>
      simp only [Constraint.terms, hc, Option.map_eq_some_iff] at h
      obtain ⟨p, -, rfl⟩ := h
      have hnone : written m.2 = none := by
        rw [hwritten, writtenBy_of_none hc]
        rfl
      exact ⟨_, rfl, by simp [Expresses, MemberKept, hnone]⟩
  | some c =>
      simp only [Constraint.terms, hc, Option.map_eq_some_iff, searchValue_eq] at h
      obtain ⟨x, hx, rfl⟩ := h
      have hws : written m.2 = some [⟨op, x⟩] := by
        rw [hwritten, writtenBy_of_some hc, hx]
        rfl
      refine ⟨_, rfl, fun hexpr => ⟨hexpr.stringID_ne_zero rfl, _, hws, .inl trivial⟩, ?_⟩
      rintro ⟨hkey, -⟩
      refine ⟨_, hws, fun props => ?_⟩
      rw [List.forall_mem_singleton]
      exact passes_comparisonTerm hkey hc

/-- A pair of comparisons has one predicate, which expresses it if its key names a property
and the pair is in order or holds of every value. -/
theorem range_expresses {m : String × Json} {op1 op2 : String} {v1 v2 : Json}
    {pps : List PropertyPredicate}
    (hwritten : written m.2 = (writtenBy op1 v1).bind fun w1 =>
      (writtenBy op2 v2).map fun w2 => [w1, w2])
    (h : (Constraint.range op1 v1 op2 v2).terms m.1 = some pps) :
    ∃ pp, pps = [pp] ∧ (Expresses m pp ↔ MemberKept m) := by
  by_cases hop : rangeOp op1 op2 = .dontCare
  · simp only [Constraint.terms, hop, if_true, Option.bind_eq_bind,
      Option.bind_eq_some_iff] at h
    obtain ⟨p1, -, p2, -, h⟩ := h
    cases h
    refine ⟨_, rfl, fun hexpr => ?_, ?_⟩
    · have hkey := hexpr.stringID_ne_zero rfl
      obtain ⟨ws, hws, hiff⟩ := hexpr
      exact ⟨hkey, ws, hws, .inr ((present_expresses hkey (written_ne_nil hws)).1 hiff)⟩
    · rintro ⟨hkey, ws, hws, hordered | hall⟩
      · rw [hws] at hwritten
        obtain ⟨w1, hw1, hw⟩ := Option.bind_eq_some_iff.1 hwritten.symm
        obtain ⟨w2, hw2, rfl⟩ := Option.map_eq_some_iff.1 hw
        rw [OpsInOrder, writtenBy_op hw1, writtenBy_op hw2] at hordered
        exact absurd hop (rangeOp_ne_dontCare.2 hordered)
      · exact ⟨ws, hws, (present_expresses hkey (written_ne_nil hws)).2 hall⟩
  · simp only [Constraint.terms, hop, if_false, Option.bind_eq_bind, Option.bind_eq_some_iff,
      searchValue_eq] at h
    obtain ⟨x1, hx1, x2, hx2, h⟩ := h
    cases h
    obtain ⟨c1, c2, hc1, hc2, hlower, hupper⟩ := rangeOp_inv hop
    have hws : written m.2 = some [⟨op1, x1⟩, ⟨op2, x2⟩] := by
      rw [hwritten, writtenBy_of_some hc1, writtenBy_of_some hc2, hx1, hx2]
      rfl
    refine ⟨_, rfl, fun hexpr => ?_, ?_⟩
    · exact ⟨hexpr.stringID_ne_zero rfl, _, hws, .inl (rangeOp_ne_dontCare.1 hop)⟩
    · rintro ⟨hkey, -⟩
      refine ⟨_, hws, fun props => ?_⟩
      rw [Platform.Ranges.passes_range _ _ _ _ _ (rangeOp_isRange hop), hlower, hupper,
        Bool.and_eq_true, List.forall_mem_cons, List.forall_mem_singleton]
      exact and_congr (passes_comparisonTerm hkey hc1) (passes_comparisonTerm hkey hc2)

/-- A member of an accepted object has at most one predicate, and this expresses the member
exactly if the member is kept. -/
theorem Accepted.member {c : Json} (h : Accepted c) {m : String × Json} (hm : m ∈ c.members)
    {pps : List PropertyPredicate} (hpps : MemberTranslates m pps) :
    (m.1 = "_deletion" ∧ pps = []) ∨
      m.1 ≠ "_deletion" ∧ ∃ pp, pps = [pp] ∧ (Expresses m pp ↔ MemberKept m) := by
  rcases memberTranslates_iff.1 hpps with hdel | ⟨hdel, k, hk, hterms⟩
  · exact .inl hdel
  · right
    refine ⟨hdel, ?_⟩
    obtain ⟨op, v, rfl, hwritten⟩ | ⟨op1, v1, op2, v2, rfl, hwritten⟩ :=
      written_of_shape (h.shape m hm) hk
    · exact value_expresses hwritten hterms
    · exact range_expresses hwritten hterms

omit [Platform] [Platform.Predicates] in
/-- Lists of at most one element each that make up a list of full length are lists of one
element. -/
theorem forall₂_flatten_inv {α β : Type} {R : α → β → Prop} {S : α → List β → Prop}
    {xs : List α} {yss : List (List β)}
    (h : List.Forall₂ (fun x ys => S x ys ∧ ys.length ≤ 1) xs yss)
    (hflat : List.Forall₂ R xs yss.flatten) :
    ∀ x ∈ xs, ∃ y, S x [y] ∧ R x y := by
  have hlength : ∀ {xs : List α} {yss : List (List β)},
      List.Forall₂ (fun x ys => S x ys ∧ ys.length ≤ 1) xs yss →
      yss.flatten.length ≤ xs.length := by
    intro xs yss h
    induction h with
    | nil => simp
    | cons hhead _ ih =>
        rw [List.flatten_cons, List.length_append, List.length_cons]
        omega
  induction h with
  | nil => simp
  | @cons x ys xs yss hhead htail ih =>
      match ys, hhead with
      | [], _ =>
          have := hflat.length_eq
          have := hlength htail
          simp only [List.flatten_cons, List.nil_append, List.length_cons] at *
          omega
      | [y], hhead =>
          cases hflat with
          | cons hr hrest => exact List.forall_mem_cons.2 ⟨⟨y, hhead.1, hr⟩, ih hrest⟩

/-- **Translation of constraints.** An object is translated into predicates that express
what is written, or is rejected, exactly if every constraint is kept, or one has values
that cannot be read and one has no predicate. -/
theorem constraints_translated_iff {now : ℕ} {c : Json} (hc : Accepted c) :
    TranslatedOrRejected now c ↔
      (∀ m ∈ c.members, m.1 ≠ "_deletion" ∧ MemberReadable m ∧ MemberKept m) ∨
      (∃ m ∈ c.members, ¬ MemberReadable m) ∧ ∃ m ∈ c.members, ∀ pp, ¬ Expresses m pp := by
  constructor
  · rintro (⟨pps, hpps, hall⟩ | ⟨hnone, hm⟩)
    · refine .inl fun m hm => ?_
      obtain ⟨⟨ppss, hppss, rfl⟩, -⟩ := translates_iff.1 hpps
      have hshort : List.Forall₂ (fun m pps => (m ∈ c.members ∧ MemberTranslates m pps) ∧
          pps.length ≤ 1) c.members ppss := by
        refine List.Forall₂.imp (fun m pps h => ⟨h, ?_⟩)
          ((List.forall₂_and_left _ _).2 ⟨fun m hm => hm, hppss⟩)
        obtain ⟨-, rfl⟩ | ⟨-, pp, rfl, -⟩ := hc.member h.1 h.2
        · exact Nat.zero_le 1
        · exact Nat.le_refl 1
      obtain ⟨pp, ⟨-, htrans⟩, hexpr⟩ := forall₂_flatten_inv hshort hall m hm
      obtain ⟨-, hnil⟩ | ⟨hdel, pp', hpp, hkept⟩ := hc.member hm htrans
      · cases hnil
      · cases hpp
        exact ⟨hdel, translates_exists_iff.1 ⟨_, hpps⟩ m hm, hkept.1 hexpr⟩
    · refine .inr ⟨?_, hm⟩
      by_contra hno
      push Not at hno
      obtain ⟨pps, hpps⟩ := translates_exists_iff.2 hno
      exact hnone pps hpps
  · rintro (hall | ⟨⟨m, hm, hread⟩, hinexpressible⟩)
    · left
      have hone : ∀ m ∈ c.members, ∃ pp, MemberTranslates m [pp] ∧ Expresses m pp := by
        intro m hm
        obtain ⟨hdel, hread, hkept⟩ := hall m hm
        obtain ⟨⟨pps, hpps⟩, -⟩ := (memberReadable_iff now).1 hread
        obtain ⟨hdel', -⟩ | ⟨-, pp, rfl, hexpr⟩ := hc.member hm hpps
        · exact absurd hdel' hdel
        · exact ⟨pp, hpps, hexpr.2 hkept⟩
      obtain ⟨pps, hpps⟩ := forall₂_exists_iff.2 hone
      have hflat : (pps.map fun pp => [pp]).flatten = pps := by
        rw [← List.flatMap_def, List.flatMap_singleton']
      refine ⟨pps, translates_iff.2 ⟨⟨pps.map fun pp => [pp], ?_, hflat.symm⟩, fun m hm => ?_⟩,
        hpps.imp fun _ _ h => h.2⟩
      · exact List.forall₂_map_right_iff.2 (hpps.imp fun _ _ h => h.1)
      · exact ((memberReadable_iff now).1 (hall m hm).2.1).2
    · exact .inr ⟨fun pps hpps => hread (translates_exists_iff.1 ⟨pps, hpps⟩ m hm),
        hinexpressible⟩

end Predicates

end

/-- One range on one key. -/
def rangeOn (key op1 : String) (v1 : ℤ) (op2 : String) (v2 : ℤ) : Json :=
  .object [(key, .array [.string op1, .int v1, .string op2, .int v2])]

/-- The schema accepts a constraint of one key with two bounds. -/
theorem rangeOn_accepted (key op1 : String) (v1 : ℤ) (op2 : String) (v2 : ℤ) :
    Accepted (rangeOn key op1 v1 op2 v2) where
  isObject := rfl
  shape m hm := by
    obtain rfl := List.mem_singleton.1 hm
    exact .inr ⟨_, _, _, _, rfl, rfl, rfl⟩

/-- A range with the lower bound first on one key, and a single comparison on another. -/
theorem constraints_translated_iff_range : TranslatedOrRejected 0 (.object
    [("a", .array [.string ">", .int 3, .string "<", .int 5]),
      ("b", .array [.string "!=", .string "x"])]) := by
  refine (constraints_translated_iff ⟨rfl, ?_⟩).2 (.inl fun m hm => ?_)
  · intro m hm
    obtain rfl | rfl := List.mem_pair.1 hm
    · exact .inr ⟨_, _, _, _, rfl, rfl, rfl⟩
    · exact .inl ⟨_, _, rfl, rfl⟩
  · obtain rfl | rfl := List.mem_pair.1 hm
    · have hvalues : (Json.int 3).IsValue ∧ (Json.int 5).IsValue := by
        constructor <;> exact ⟨by decide, by decide⟩
      exact ⟨by decide, .inr ⟨_, rfl, ⟨fun _ => ⟨⟨_, rfl⟩, _, rfl⟩, hvalues⟩,
        fun h => absurd h (by decide)⟩, by decide, _, rfl, .inl ⟨.inl rfl, .inl rfl⟩⟩
    · exact ⟨by decide, .inr ⟨_, rfl, ⟨fun _ => ⟨_, rfl⟩, trivial⟩,
        fun h => absurd h (by decide)⟩, by decide, _, rfl, .inl trivial⟩

/-- **A range with the upper bound first** becomes the test that the property exists. -/
theorem reversed_range_widens :
    Translates 0 (rangeOn "a" "<" 5 ">" 3) [{ id := Platform.stringID "a" }] ∧
      ¬ TranslatedOrRejected 0 (rangeOn "a" "<" 5 ">" 3) := by
  have htrans : Translates 0 (rangeOn "a" "<" 5 ">" 3) [{ id := Platform.stringID "a" }] :=
    ⟨_, rfl, rfl⟩
  refine ⟨htrans, ?_⟩
  rintro (⟨pps, ⟨p, hp, hpps⟩, hall⟩ | ⟨hnone, -⟩)
  · obtain ⟨p', hp', hpps'⟩ := htrans
    cases hp.symm.trans hp'
    cases hpps.symm.trans hpps'
    obtain ⟨hexpr, -⟩ := List.forall₂_cons.1 hall
    obtain ⟨ws, hws, hiff⟩ := hexpr
    cases hws
    -- A node whose property is 9 passes, but 9 is not below 5.
    obtain ⟨v, hv, hbelow⟩ := (hiff fun _ => some (.integer 9)).1 (by decide)
      ⟨"<", .integer 5⟩ (by simp)
    cases hv
    exact absurd hbelow (by simp [Compares, Platform.less, tableLess])
  · exact hnone _ htrans

end Vdms
