import Vdms.Building

/-!
# Constraints, Member by Member

`parse_query_constraints` goes over the members of a constraints object with flags that
stick. This module says what one member contributes by itself, and that the result for the
object is put together from the members: the predicates are those of the members in order,
a list of values anywhere makes the whole query a disjunction, and the query asks for a
purge as soon as one member asks for it.

## Main results

* `parseMember_eq`: one pass of the loop.
* `parseQueryConstraints_inv`, `parseQueryConstraints_total`: the whole loop.
* `Constraint.terms_inv`: the PMGD predicates a constraint turns into.
-/

namespace Vdms

open Platform

variable [Platform]

/-! ### The constraint of one key -/

/-- The constraint of a key as the API writes it: a comparison with a value, with a list
of alternatives, or two comparisons. The operators are still strings. -/
inductive Constraint where
  | value (op : String) (v : Json)
  | values (op : String) (vs : List Json)
  | range (op1 : String) (v1 : Json) (op2 : String) (v2 : Json)

namespace Constraint

/-- Read a constraint off its array. -/
def ofJson : Json → Option Constraint
  | .array [o, .array vs] => o.asString.toOption.map fun op => values op vs
  | .array [o, v] => o.asString.toOption.map fun op => value op v
  | .array (o1 :: v1 :: o2 :: v2 :: _) =>
      o1.asString.toOption.bind fun op1 => o2.asString.toOption.map fun op2 =>
        range op1 v1 op2 v2
  | _ => none

/-- The predicates of a constraint. -/
def predicates (key : String) : Constraint → Except QueryError (List PMGDPropPred)
  | value op v => do
      let v1 ← jsonProperty key v
      pure [{ key := .name key, op := ((Comparison.ofString op).map Comparison.op).getD .dontCare
              v1 }]
  | values op vs =>
      match Comparison.ofString op with
      | none => .error (.exceptionCommand "Invalid comparsion predicate")
      | some c => do
          let props ← vs.mapM fun v => jsonProperty key v
          pure (props.map fun v1 => { key := .name key, op := c.op, v1 })
  | range op1 v1 op2 v2 => do
      let v1 ← jsonProperty key v1
      let v2 ← jsonProperty key v2
      pure [{ key := .name key, op := rangeOp op1 op2, v1, v2 }]

/-- The constraint makes the query a disjunction. -/
def isList : Constraint → Bool
  | values _ _ => true
  | _ => false

/-- The operator has no upper bound. -/
def unbounded : Constraint → Bool
  | value op _ | values op _ => (Comparison.ofString op).any Comparison.unbounded
  | range _ _ _ _ => false

/-- Whether the constraint, written for the expiration, asks for a purge. Only a single
value is compared with the clock. -/
def expires (now : ℕ) (k : Constraint) : Except QueryError Bool :=
  match k with
  | value _ v =>
      if k.unbounded then .ok false
      else v.asUInt64.map fun bound => decide (bound < 1 + now)
  | _ => .ok !k.unbounded

/-- `expiration_query_match` after the constraint of a key. -/
def matched (now : ℕ) (key : String) (before : Bool) (k : Constraint) :
    Except QueryError Bool :=
  if key = "_expiration" then k.expires now else .ok (before && !k.unbounded)

end Constraint

/-! ### One pass of the loop -/

/-- What a pass of the loop makes of its state. -/
def Parsed.extend (p : Parsed) (k : Constraint) (predicates : List PMGDPropPred)
    (expirationMatch : Bool) : Parsed where
  predicates := p.predicates ++ predicates
  pOp := if k.isList then .or else p.pOp
  expirationMatch := expirationMatch
  deletionMatch := p.deletionMatch
  finalPurge := p.finalPurge || expirationMatch || p.deletionMatch

theorem parseMember_deletion (now : ℕ) (p : Parsed) (j : Json) :
    parseMember now p ("_deletion", j) =
      .ok { p with deletionMatch := true, finalPurge := true } := by
  simp [parseMember, parseKey, bind, Except.bind, pure, Except.pure]

omit [Platform] in
@[simp] theorem Json.elements_array (xs : List Json) : (Json.array xs).elements = xs := by
  simp [Json.elements, Json.members, Function.comp_def]

omit [Platform] in
@[simp] theorem Json.size_array (xs : List Json) : (Json.array xs).size = xs.length := by
  simp [Json.size, Json.members]

omit [Platform] in
theorem Except.toOption_eq_some {ε α : Type} {x : Except ε α} {a : α} :
    x.toOption = some a ↔ x = .ok a := by
  cases x <;> simp [Except.toOption]

theorem Constraint.ofJson_value {o v : Json} {op : String} (hv : v.isArray = false)
    (ho : o.asString = .ok op) : Constraint.ofJson (.array [o, v]) = some (.value op v) := by
  cases v with
  | array vs => cases hv
  | _ => simp [Constraint.ofJson, ho, Except.toOption]

theorem Constraint.ofJson_values {o : Json} {vs : List Json} {op : String}
    (ho : o.asString = .ok op) :
    Constraint.ofJson (.array [o, .array vs]) = some (.values op vs) := by
  simp [Constraint.ofJson, ho, Except.toOption]

theorem Constraint.ofJson_range {o1 v1 o2 v2 : Json} {rest : List Json} {op1 op2 : String}
    (ho1 : o1.asString = .ok op1) (ho2 : o2.asString = .ok op2) :
    Constraint.ofJson (.array (o1 :: v1 :: o2 :: v2 :: rest)) = some (.range op1 v1 op2 v2) := by
  simp [Constraint.ofJson, ho1, ho2, Except.toOption]

/-- The shapes of arrays that are read as constraints. -/
theorem Constraint.ofJson_inv {j : Json} {k : Constraint} (h : Constraint.ofJson j = some k) :
    (∃ o vs op, j = .array [o, .array vs] ∧ o.asString = .ok op ∧ k = .values op vs) ∨
    (∃ o v op, j = .array [o, v] ∧ v.isArray = false ∧ o.asString = .ok op ∧
      k = .value op v) ∨
    ∃ o1 v1 o2 v2 rest op1 op2, j = .array (o1 :: v1 :: o2 :: v2 :: rest) ∧
      o1.asString = .ok op1 ∧ o2.asString = .ok op2 ∧ k = .range op1 v1 op2 v2 := by
  unfold Constraint.ofJson at h
  split at h
  next o vs =>
    obtain ⟨op, hop, rfl⟩ := Option.map_eq_some_iff.1 h
    exact .inl ⟨o, vs, op, rfl, Except.toOption_eq_some.1 hop, rfl⟩
  next o v hv =>
    obtain ⟨op, hop, rfl⟩ := Option.map_eq_some_iff.1 h
    refine .inr (.inl ⟨o, v, op, rfl, ?_, Except.toOption_eq_some.1 hop, rfl⟩)
    cases v with
    | array vs => exact absurd rfl (hv vs)
    | _ => rfl
  next o1 v1 o2 v2 rest =>
    obtain ⟨op1, hop1, h⟩ := Option.bind_eq_some_iff.1 h
    obtain ⟨op2, hop2, rfl⟩ := Option.map_eq_some_iff.1 h
    exact .inr (.inr ⟨o1, v1, o2, v2, rest, op1, op2, rfl, Except.toOption_eq_some.1 hop1,
      Except.toOption_eq_some.1 hop2, rfl⟩)
  next => cases h

namespace Constraint

variable {now : ℕ} {key : String} {before : Bool}

/-- A list of alternatives and a range are not compared with the clock. -/
theorem matched_of_not_value {k : Constraint} (hk : ∀ op v, k ≠ value op v)
    (hbefore : key = "_expiration" → before = true) :
    k.matched now key before = .ok (before && !k.unbounded) := by
  rw [matched]
  split
  next hkey =>
    rw [hbefore hkey, Bool.true_and]
    cases k with
    | value op v => exact absurd rfl (hk op v)
    | values op vs => rfl
    | range op1 v1 op2 v2 => rfl
  next => rfl

theorem matched_value {op : String} {v : Json}
    (hbefore : key = "_expiration" → before = true) :
    (value op v).matched now key before =
      stillMatches now key v (before && !((Comparison.ofString op).any Comparison.unbounded)) := by
  rw [matched, stillMatches]
  by_cases hkey : key = "_expiration"
  · rw [hbefore hkey]
    cases hub : (Comparison.ofString op).any Comparison.unbounded with
    | true => simp [hkey, expires, unbounded, hub, pure, Except.pure]
    | false =>
        cases hv : v.asUInt64 with
        | error e => simp [hkey, expires, unbounded, hub, hv, Except.map, bind, Except.bind]
        | ok bound =>
            simp [hkey, expires, unbounded, hub, hv, Except.map, bind, Except.bind, pure,
              Except.pure]
  · simp [hkey, unbounded, pure, Except.pure]

end Constraint

/-- The part of a pass that reads the constraint. -/
theorem parseConstraint_eq {now : ℕ} {key : String} {j : Json} {k : Constraint} {p : Parsed}
    (hj : Constraint.ofJson j = some k)
    (hp : key = "_expiration" → p.expirationMatch = true) :
    parseConstraint now key j p = (do
      let ps ← k.predicates key
      let b ← k.matched now key p.expirationMatch
      pure { p with
        predicates := p.predicates ++ ps
        pOp := if k.isList then .or else p.pOp
        expirationMatch := b }) := by
  obtain ⟨o, vs, op, rfl, hop, rfl⟩ | ⟨o, v, op, rfl, hv, hop, rfl⟩ |
    ⟨o1, v1, o2, v2, rest, op1, op2, rfl, hop1, hop2, rfl⟩ := Constraint.ofJson_inv hj
  · rw [Constraint.matched_of_not_value (by simp) hp]
    cases hc : Comparison.ofString op with
    | none =>
        simp [parseConstraint, parseValueList, Json.index, Json.isArray, Constraint.predicates,
          hop, hc, bind, Except.bind]
    | some c =>
        cases hps : vs.mapM fun v => jsonProperty key v with
        | error e =>
            simp [parseConstraint, parseValueList, Json.index, Json.isArray,
              Constraint.predicates, hop, hc, hps, bind, Except.bind]
        | ok ps =>
            simp [parseConstraint, parseValueList, Json.index, Json.isArray,
              Constraint.predicates, Constraint.unbounded, Constraint.isList, hop, hc, hps,
              bind, Except.bind, pure, Except.pure]
  · rw [Constraint.matched_value hp]
    cases hps : jsonProperty key v with
    | error e =>
        simp [parseConstraint, parseValue, Json.index, hv, Constraint.predicates, hps, bind,
          Except.bind]
    | ok v1 =>
        simp [parseConstraint, parseValue, Json.index, hv, Constraint.predicates,
          Constraint.isList, hps, hop, bind, Except.bind, pure, Except.pure]
  · rw [Constraint.matched_of_not_value (by simp) hp]
    cases hv1 : jsonProperty key v1 with
    | error e =>
        simp [parseConstraint, parseRange, Json.index, Constraint.predicates, hv1, bind,
          Except.bind]
    | ok p1 =>
        cases hv2 : jsonProperty key v2 with
        | error e =>
            simp [parseConstraint, parseRange, Json.index, Constraint.predicates, hv1, hv2,
              hop1, bind, Except.bind]
        | ok p2 =>
            simp [parseConstraint, parseRange, Json.index, Constraint.predicates,
              Constraint.unbounded, Constraint.isList, hop1, hop2, hv1, hv2, bind, Except.bind,
              pure, Except.pure]

/-- **One pass.** The pass for a key with a constraint. -/
theorem parseMember_eq {now : ℕ} {key : String} {j : Json} {k : Constraint}
    (hkey : key ≠ "_deletion") (hj : Constraint.ofJson j = some k) (p : Parsed) :
    parseMember now p (key, j) = (do
      let ps ← k.predicates key
      let b ← k.matched now key p.expirationMatch
      pure (p.extend k ps b)) := by
  have hpass : parseKey now p key j = (do
      let ps ← k.predicates key
      let b ← k.matched now key p.expirationMatch
      pure { p with
        predicates := p.predicates ++ ps
        pOp := if k.isList then .or else p.pOp
        expirationMatch := b }) := by
    by_cases hexp : key = "_expiration"
    · have hmatched : k.matched now key true = k.matched now key p.expirationMatch := by
        simp [Constraint.matched, hexp]
      simp only [parseKey, if_neg hkey, if_pos hexp]
      rw [parseConstraint_eq hj fun _ => rfl, hmatched]
    · simp only [parseKey, if_neg hkey, if_neg hexp]
      exact parseConstraint_eq hj fun h => absurd h hexp
  simp only [parseMember, hpass]
  cases k.predicates key with
  | error e => rfl
  | ok ps =>
      cases k.matched now key p.expirationMatch with
      | error e => rfl
      | ok b => rfl

/-- What is read as a property is not null, so it does not lie behind the end of an
array. -/
theorem jsonProperty_index {key : String} {j v : Json} {i : ℕ} {p : PMGDProp}
    (hindex : j.index i = .ok v) (h : jsonProperty key v = .ok p) :
    ∃ xs, j = .array xs ∧ xs[i]? = some v := by
  cases j with
  | array xs =>
      refine ⟨xs, rfl, ?_⟩
      cases hi : xs[i]? with
      | some x =>
          simp only [Json.index, hi, Option.getD_some, Except.ok.injEq] at hindex
          rw [hindex]
      | none =>
          simp only [Json.index, hi, Option.getD_none, Except.ok.injEq] at hindex
          subst hindex
          cases h
  | null =>
      cases hindex
      cases h
  | _ => cases hindex

/-- A pass that succeeds has read a constraint. -/
theorem parseMember_constraint {now : ℕ} {p q : Parsed} {key : String} {j : Json}
    (h : parseMember now p (key, j) = .ok q) (hkey : key ≠ "_deletion") :
    ∃ k, Constraint.ofJson j = some k := by
  obtain ⟨p', h, -⟩ := bind_ok_inv h
  have hparse : ∃ p₀ : Parsed, parseConstraint now key j p₀ = .ok p' := by
    simp only [parseKey, if_neg hkey] at h
    split at h
    · exact ⟨_, h⟩
    · exact ⟨_, h⟩
  obtain ⟨p₀, h⟩ := hparse
  rw [parseConstraint] at h
  split at h
  next hsize =>
    obtain ⟨v, hv, h⟩ := bind_ok_inv h
    obtain ⟨o, ho, h⟩ := bind_ok_inv h
    have harray : ∃ xs, j = .array xs := by
      cases j with
      | array xs => exact ⟨xs, rfl⟩
      | null => cases hsize
      | _ => cases hv
    obtain ⟨xs, rfl⟩ := harray
    rw [Json.size_array] at hsize
    obtain ⟨a, b, rfl⟩ := List.length_eq_two.1 hsize
    cases hv
    cases ho
    split at h
    next hlist =>
      cases b with
      | array vs =>
          obtain ⟨op, hop, -⟩ := bind_ok_inv h
          exact ⟨.values op vs, Constraint.ofJson_values hop⟩
      | _ => cases hlist
    next hlist =>
      obtain ⟨v1, -, h⟩ := bind_ok_inv h
      obtain ⟨op, hop, -⟩ := bind_ok_inv h
      exact ⟨.value op b, Constraint.ofJson_value (by simpa using hlist) hop⟩
  next hsize =>
    obtain ⟨v1, hv1, h⟩ := bind_ok_inv h
    obtain ⟨p1, hp1, h⟩ := bind_ok_inv h
    obtain ⟨o1, ho1, h⟩ := bind_ok_inv h
    obtain ⟨op1, hop1, h⟩ := bind_ok_inv h
    obtain ⟨v2, hv2, h⟩ := bind_ok_inv h
    obtain ⟨p2, hp2, h⟩ := bind_ok_inv h
    obtain ⟨o2, ho2, h⟩ := bind_ok_inv h
    obtain ⟨op2, hop2, -⟩ := bind_ok_inv h
    obtain ⟨xs, rfl, h3⟩ := jsonProperty_index hv2 hp2
    rw [Json.size_array] at hsize
    match xs, h3 with
    | a :: b :: c :: d :: rest, h3 =>
        cases ho1
        cases ho2
        exact ⟨.range op1 b op2 d, Constraint.ofJson_range hop1 hop2⟩

/-! ### The members -/

/-- The predicates of a member. The key `_deletion` asks for a purge and has none. -/
def memberPredicates (m : String × Json) : Except QueryError (List PMGDPropPred) :=
  if m.1 = "_deletion" then .ok []
  else match Constraint.ofJson m.2 with
    | none => .error .logicError
    | some k => k.predicates m.1

/-- Whether a member asks for a purge. -/
def memberAsks (now : ℕ) (m : String × Json) : Except QueryError Bool :=
  if m.1 = "_deletion" then .ok true
  else if m.1 = "_expiration" then
    match Constraint.ofJson m.2 with
    | none => .error .logicError
    | some k => k.expires now
  else .ok false

/-- Whether a member makes the query a disjunction. -/
def memberIsList (m : String × Json) : Bool :=
  m.1 ≠ "_deletion" && (Constraint.ofJson m.2).any Constraint.isList

/-- A flag that is up has already led to the decision to purge. -/
def Parsed.Sticky (p : Parsed) : Prop :=
  (p.expirationMatch || p.deletionMatch) = true → p.finalPurge = true

variable {now : ℕ} {m : String × Json} {p r : Parsed}

theorem Constraint.matched_eq {key : String} {before b : Bool} {k : Constraint}
    (h : k.matched now key before = .ok b) :
    ∃ asks, (if key = "_expiration" then k.expires now else .ok false) = .ok asks ∧
      (asks = true → b = true) ∧ (b = true → asks = true ∨ before = true) := by
  rw [matched] at h
  split at h
  next hkey => exact ⟨b, by rw [if_pos hkey, h], fun h => h, .inl⟩
  next hkey =>
    refine ⟨false, if_neg hkey, fun h => Bool.noConfusion h, fun hb => .inr ?_⟩
    injection h with h
    rw [hb, Bool.and_eq_true] at h
    exact h.1

/-- **What a pass adds.** -/
theorem parseMember_inv (hp : p.Sticky) (h : parseMember now p m = .ok r) :
    ∃ ps asks, memberPredicates m = .ok ps ∧ memberAsks now m = .ok asks ∧
      r.predicates = p.predicates ++ ps ∧ r.pOp = (if memberIsList m then .or else p.pOp) ∧
      r.finalPurge = (p.finalPurge || asks) ∧ r.Sticky := by
  obtain ⟨key, j⟩ := m
  by_cases hkey : key = "_deletion"
  · subst hkey
    rw [parseMember_deletion] at h
    injection h with h
    subst h
    refine ⟨[], true, if_pos rfl, if_pos rfl, by simp, ?_, by simp, fun _ => rfl⟩
    simp [memberIsList]
  · obtain ⟨k, hk⟩ := parseMember_constraint h hkey
    rw [parseMember_eq hkey hk] at h
    obtain ⟨ps, hps, h⟩ := bind_ok_inv h
    obtain ⟨b, hb, h⟩ := bind_ok_inv h
    injection h with h
    subst h
    obtain ⟨asks, hasks, hle, hge⟩ := Constraint.matched_eq hb
    refine ⟨ps, asks, by simp [memberPredicates, hkey, hk, hps], ?_, rfl, ?_, ?_, ?_⟩
    · simpa [memberAsks, hkey, hk] using hasks
    · simp [Parsed.extend, memberIsList, hkey, hk]
    · show (p.finalPurge || b || p.deletionMatch) = (p.finalPurge || asks)
      cases hfinal : p.finalPurge with
      | true => simp
      | false =>
          have hdown : (p.expirationMatch || p.deletionMatch) = false := by
            cases hup : p.expirationMatch || p.deletionMatch with
            | true => rw [hp hup] at hfinal; cases hfinal
            | false => rfl
          rw [Bool.or_eq_false_iff] at hdown
          have hsame : b = true ↔ asks = true :=
            ⟨fun h => (hge h).resolve_right (by simp [hdown.1]), hle⟩
          simpa [hdown.2] using Bool.eq_iff_iff.2 hsame
    · intro hflag
      have hflag : (b || p.deletionMatch) = true := hflag
      show (p.finalPurge || b || p.deletionMatch) = true
      rw [Bool.or_assoc, hflag, Bool.or_true]

theorem parseMember_total {ps : List PMGDPropPred} {asks : Bool}
    (hps : memberPredicates m = .ok ps) (hasks : memberAsks now m = .ok asks) (p : Parsed) :
    ∃ r, parseMember now p m = .ok r := by
  obtain ⟨key, j⟩ := m
  by_cases hkey : key = "_deletion"
  · subst hkey
    exact ⟨_, parseMember_deletion now p j⟩
  · cases hk : Constraint.ofJson j with
    | none => simp [memberPredicates, hkey, hk] at hps
    | some k =>
        simp only [memberPredicates, if_neg hkey, hk] at hps
        have hb : ∃ b, k.matched now key p.expirationMatch = .ok b := by
          rw [Constraint.matched]
          by_cases hexp : key = "_expiration"
          · simp only [memberAsks, if_neg hkey, if_pos hexp, hk] at hasks
            exact ⟨asks, by rw [if_pos hexp, hasks]⟩
          · exact ⟨_, if_neg hexp⟩
        obtain ⟨b, hb⟩ := hb
        refine ⟨p.extend k ps b, ?_⟩
        rw [parseMember_eq hkey hk, hps, hb]
        rfl

/-! ### The whole loop -/

theorem parseMembers_inv {ms : List (String × Json)} (hp : p.Sticky)
    (h : ms.foldlM (parseMember now) p = .ok r) :
    ∃ pss, List.Forall₂ (fun m ps => memberPredicates m = .ok ps) ms pss ∧
      r.predicates = p.predicates ++ pss.flatten ∧
      (∀ m ∈ ms, ∃ asks, memberAsks now m = .ok asks) ∧
      (r.finalPurge = true ↔ p.finalPurge = true ∨ ∃ m ∈ ms, memberAsks now m = .ok true) ∧
      (r.pOp = .or ↔ p.pOp = .or ∨ ∃ m ∈ ms, memberIsList m = true) := by
  induction ms generalizing p with
  | nil =>
      cases h
      exact ⟨[], .nil, by simp, by simp, by simp, by simp⟩
  | cons m ms ih =>
      rw [List.foldlM_cons] at h
      obtain ⟨q, hq, h⟩ := bind_ok_inv h
      obtain ⟨ps, asks, hps, hasks, hpreds, hop, hfinal, hsticky⟩ := parseMember_inv hp hq
      obtain ⟨pss, hall, hrest, htotal, hpurge, hor⟩ := ih hsticky h
      refine ⟨ps :: pss, .cons hps hall, ?_, List.forall_mem_cons.2 ⟨⟨asks, hasks⟩, htotal⟩,
        ?_, ?_⟩
      · rw [hrest, hpreds, List.flatten_cons, List.append_assoc]
      · rw [hpurge, hfinal, List.exists_mem_cons_iff, hasks]
        cases asks <;> simp
      · rw [hor, hop, List.exists_mem_cons_iff]
        cases hlist : memberIsList m <;> simp

/-- **The whole object.** What a translation that succeeds has collected. -/
theorem parseQueryConstraints_inv {c : Json} (h : parseQueryConstraints now c = .ok p) :
    ∃ pss, List.Forall₂ (fun m ps => memberPredicates m = .ok ps) c.members pss ∧
      p.predicates = pss.flatten ∧
      (∀ m ∈ c.members, ∃ asks, memberAsks now m = .ok asks) ∧
      (p.finalPurge = true ↔ ∃ m ∈ c.members, memberAsks now m = .ok true) ∧
      (p.pOp = .or ↔ ∃ m ∈ c.members, memberIsList m = true) := by
  obtain ⟨pss, hall, hpreds, htotal, hpurge, hor⟩ :=
    parseMembers_inv (p := {}) (fun h => absurd h (by decide)) h
  exact ⟨pss, hall, by simpa using hpreds, htotal, by simpa using hpurge, by simpa using hor⟩

/-- The object is translated if every member is. -/
theorem parseQueryConstraints_total {c : Json}
    (h : ∀ m ∈ c.members, (∃ ps, memberPredicates m = .ok ps) ∧
      ∃ asks, memberAsks now m = .ok asks) :
    ∃ p, parseQueryConstraints now c = .ok p := by
  have hloop : ∀ (ms : List (String × Json)) (p : Parsed),
      (∀ m ∈ ms, (∃ ps, memberPredicates m = .ok ps) ∧ ∃ asks, memberAsks now m = .ok asks) →
      ∃ r, ms.foldlM (parseMember now) p = .ok r := by
    intro ms
    induction ms with
    | nil => exact fun p _ => ⟨p, rfl⟩
    | cons m ms ih =>
        intro p hms
        obtain ⟨⟨⟨ps, hps⟩, asks, hasks⟩, hrest⟩ := List.forall_mem_cons.1 hms
        obtain ⟨q, hq⟩ := parseMember_total hps hasks p
        obtain ⟨r, hr⟩ := ih q hrest
        refine ⟨r, ?_⟩
        rw [List.foldlM_cons, hq]
        exact hr
  exact hloop c.members {} h

end Vdms
