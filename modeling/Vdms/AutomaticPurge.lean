import Vdms.ConstraintTranslation

/-!
# The Purge a Query Asks for by its Constraints

A query whose constraints bound the expiration from above deletes what it finds. The
decision is taken key by key, while the nodes found are decided by all predicates
together, as a conjunction or, if a list of values occurs anywhere, as a disjunction. This
module says when the two fit: when every node that is found has expired.

## Main definitions

* `Expired`: the expiration of a node is not later than the clock.
* `PurgesOnlyExpired`: a query that is turned into a purge finds expired nodes only.

## Main results

* `purges_only_expired_iff`: when that is the case.
* `onlyExpired_of_bound`, `onlyExpired_of_values`, `onlyExpired_of_range`: a single bound that
  asks for a purge, a list of bounds that have passed, and a range up to one admit expired nodes
  only.
-/

namespace Vdms

open Platform

/-- The documented behaviour of PMGD on integers: a property that is below an integer is an
integer, and not larger. Named properties have identifiers other than 0. -/
class Platform.Integers [Platform] : Prop where
  stringID_ne_zero (s : String) : s ≠ "" → stringID s ≠ 0
  passes_integer (key : StringID) (op : Op) (a : ℤ) (props : Props) : key ≠ 0 →
    op = .lt ∨ op = .le ∨ op = .eq →
      passes { id := key, op, v1 := some (.integer a) } props = true →
        ∃ t : ℤ, props key = some (.integer t) ∧ t ≤ a

instance : Platform.Integers where
  stringID_ne_zero s hs := by
    have hne : s.toList ≠ [] := fun h => hs (String.toList_injective h)
    obtain ⟨x, cs, hcs⟩ := List.exists_cons_of_ne_nil hne
    simp [stringID, hcs, internChars]
  passes_integer key op a props hkey hop h := by
    simp only [passes, tablePasses, hkey, decide_false, Bool.false_or, Option.any_eq_true] at h
    obtain ⟨v, hv, h⟩ := h
    rw [hv]
    cases v with
    | integer t =>
        refine ⟨t, rfl, ?_⟩
        rcases hop with rfl | rfl | rfl <;> simp [holdsOp, tableLess] at h <;> omega
    | _ => rcases hop with rfl | rfl | rfl <;> simp [holdsOp, tableLess] at h

section

variable [Platform]

/-- The expiration is not later than the clock. -/
def Expired (now : ℕ) (props : Props) : Prop :=
  ∃ t : ℤ, props (stringID "_expiration") = some (.integer t) ∧ t ≤ now

/-- The properties satisfy the predicates, combined as the query says. -/
def Combined (pOp : PredicateOp) (pps : List PropertyPredicate) (props : Props) : Prop :=
  match pOp with
  | .and => ∀ pp ∈ pps, passes pp props = true
  | .or => ∃ pp ∈ pps, passes pp props = true

/-- If the constraints ask for a purge, every node that satisfies them has expired. -/
def PurgesOnlyExpired (now : ℕ) (c : Json) : Prop :=
  ∀ p pps, parseQueryConstraints now c = .ok p → p.finalPurge = true →
    p.predicates.mapM constructSearchTerm = .ok pps →
    ∀ (g : Graph) (n : NodeID) (nd : Node), g.node n = some nd →
      Combined p.pOp pps nd.props → Expired now nd.props

/-- An object, in which a key occurs once, without the key that asks for a deletion. -/
structure WithoutDeletion (c : Json) : Prop where
  isObject : c.isObject = true
  nodup : (c.members.map Prod.fst).Nodup
  noDeletion : ∀ m ∈ c.members, m.1 ≠ "_deletion"

/-- The constraint of a key admits the properties: one of its predicates passes them. -/
def Admits (m : String × Json) (props : Props) : Prop :=
  ∃ pps, MemberTranslates m pps ∧ ∃ pp ∈ pps, passes pp props = true

/-- Whatever the constraint of a key admits has expired. -/
def OnlyExpired (now : ℕ) (m : String × Json) : Prop :=
  ∀ props, Admits m props → Expired now props

/-- The constraints can be read and ask for a purge. -/
def AsksForPurge (now : ℕ) (c : Json) : Prop :=
  (∀ m ∈ c.members, MemberReadable m) ∧ ∃ m ∈ c.members, memberAsks now m = .ok true

theorem MemberTranslates.unique {m : String × Json} {pps pps' : List PropertyPredicate}
    (h : MemberTranslates m pps) (h' : MemberTranslates m pps') : pps = pps' := by
  obtain ⟨ps, hps, hpps⟩ := h
  obtain ⟨ps', hps', hpps'⟩ := h'
  cases hps.symm.trans hps'
  exact Except.ok.inj (hpps.symm.trans hpps')

/-- The predicates of a constraint read the property of its key, and without a list there
is one. -/
theorem Constraint.terms_inv {key : String} {k : Constraint} {pps : List PropertyPredicate}
    (h : k.terms key = some pps) :
    (∀ pp ∈ pps, pp.id = stringID key) ∧ (k.isList = false → ∃ pp, pps = [pp]) := by
  cases k with
  | value op v =>
      cases hc : Comparison.ofString op with
      | none =>
          simp only [terms, hc, Option.map_eq_some_iff] at h
          obtain ⟨p, -, rfl⟩ := h
          exact ⟨by simp, fun _ => ⟨_, rfl⟩⟩
      | some c =>
          simp only [terms, hc, Option.map_eq_some_iff] at h
          obtain ⟨x, -, rfl⟩ := h
          exact ⟨by simp [comparisonTerm], fun _ => ⟨_, rfl⟩⟩
  | values op vs =>
      simp only [terms, Option.bind_eq_bind, Option.bind_eq_some_iff] at h
      obtain ⟨c, -, xs, -, h⟩ := h
      cases h
      refine ⟨fun pp hpp => ?_, fun h => Bool.noConfusion h⟩
      obtain ⟨x, -, rfl⟩ := List.mem_map.1 hpp
      rfl
  | range op1 v1 op2 v2 =>
      by_cases hop : rangeOp op1 op2 = .dontCare
      · simp only [terms, hop, if_true, Option.bind_eq_bind, Option.bind_eq_some_iff] at h
        obtain ⟨p1, -, p2, -, h⟩ := h
        cases h
        exact ⟨by simp, fun _ => ⟨_, rfl⟩⟩
      · simp only [terms, hop, if_false, Option.bind_eq_bind, Option.bind_eq_some_iff] at h
        obtain ⟨x1, -, x2, -, h⟩ := h
        cases h
        exact ⟨by simp, fun _ => ⟨_, rfl⟩⟩

theorem MemberTranslates.inv {m : String × Json} {pps : List PropertyPredicate}
    (h : MemberTranslates m pps) :
    (∀ pp ∈ pps, pp.id = stringID m.1) ∧
      (m.1 ≠ "_deletion" → memberIsList m = false → ∃ pp, pps = [pp]) := by
  obtain ⟨hdel, rfl⟩ | ⟨hdel, k, hk, hterms⟩ := memberTranslates_iff.1 h
  · exact ⟨by simp, fun h => absurd hdel h⟩
  · obtain ⟨hid, hone⟩ := Constraint.terms_inv hterms
    refine ⟨hid, fun _ hlist => hone ?_⟩
    simpa [memberIsList, hdel, hk] using hlist

omit [Platform] in
/-- Nodes can have any properties. -/
theorem forall_node_iff {P : Props → Prop} :
    (∀ (g : Graph) (n : NodeID) (nd : Node), g.node n = some nd → P nd.props) ↔
      ∀ props, P props :=
  ⟨fun h props => h ⟨[some ⟨0, props⟩], []⟩ 0 ⟨0, props⟩ rfl, fun h _ _ nd _ => h nd.props⟩

theorem admits_iff {m : String × Json} {pps : List PropertyPredicate}
    (h : MemberTranslates m pps) {props : Props} :
    Admits m props ↔ ∃ pp ∈ pps, passes pp props = true := by
  constructor
  · rintro ⟨pps', h', hpass⟩
    rwa [h'.unique h] at hpass
  · exact fun hpass => ⟨pps, h, hpass⟩

/-- A node satisfies a disjunction if one member admits it. -/
theorem combined_or_iff {ms : List (String × Json)} {ppss : List (List PropertyPredicate)}
    (h : List.Forall₂ MemberTranslates ms ppss) {props : Props} :
    Combined .or ppss.flatten props ↔ ∃ m ∈ ms, Admits m props := by
  induction h with
  | nil => simp [Combined]
  | cons hm _ ih =>
      simp only [Combined] at ih
      simp only [Combined, List.flatten_cons, List.mem_append, or_and_right, exists_or, ih,
        List.exists_mem_cons_iff, admits_iff hm]

/-- A node satisfies a conjunction without lists if every member admits it. -/
theorem combined_and_iff {ms : List (String × Json)} {ppss : List (List PropertyPredicate)}
    (h : List.Forall₂ MemberTranslates ms ppss)
    (hms : ∀ m ∈ ms, m.1 ≠ "_deletion" ∧ memberIsList m = false) {props : Props} :
    Combined .and ppss.flatten props ↔ ∀ m ∈ ms, Admits m props := by
  induction h with
  | nil => simp [Combined]
  | cons hm _ ih =>
      obtain ⟨hhead, htail⟩ := List.forall_mem_cons.1 hms
      obtain ⟨pp, rfl⟩ := hm.inv.2 hhead.1 hhead.2
      have ih := ih htail
      simp only [Combined] at ih
      simp only [Combined, List.flatten_cons, List.singleton_append, List.forall_mem_cons, ih,
        admits_iff hm]
      simp

variable [Platform.Lawful]

/-- What a member admits depends on the property of its key only. -/
theorem Admits.congr {m : String × Json} {props props' : Props} (h : Admits m props)
    (heq : props (stringID m.1) = props' (stringID m.1)) : Admits m props' := by
  obtain ⟨pps, htrans, pp, hpp, hpass⟩ := h
  refine ⟨pps, htrans, pp, hpp, ?_⟩
  rw [← hpass]
  apply Platform.Lawful.passes_congr
  rw [htrans.inv.1 pp hpp, heq]

/-- The keys of an object are independent of each other: if every member admits some
properties, there are properties that agree with all of them. -/
theorem exists_agreeing {ms : List (String × Json)} (hnodup : (ms.map Prod.fst).Nodup)
    (choice : String × Json → Props) :
    ∃ props : Props, ∀ m ∈ ms, props (stringID m.1) = choice m (stringID m.1) := by
  induction ms with
  | nil => exact ⟨fun _ => none, by simp⟩
  | cons m ms ih =>
      rw [List.map_cons, List.nodup_cons] at hnodup
      obtain ⟨props, hprops⟩ := ih hnodup.2
      refine ⟨Function.update props (stringID m.1) (choice m (stringID m.1)),
        List.forall_mem_cons.2 ⟨by simp, fun m' hm' => ?_⟩⟩
      have hne : stringID m'.1 ≠ stringID m.1 := by
        intro heq
        have hkey := Platform.Lawful.stringID_injective heq
        exact hnodup.1 (hkey ▸ List.mem_map_of_mem hm')
      rw [Function.update_of_ne hne, hprops m' hm']

/-- What a query finds: what one member admits, or what all of them do. -/
def Matched (c : Json) (props : Props) : Prop :=
  if ∃ m ∈ c.members, memberIsList m = true then ∃ m ∈ c.members, Admits m props
  else ∀ m ∈ c.members, Admits m props

omit [Platform.Lawful] in
theorem combined_iff_matched {now : ℕ} {c : Json} {p : Parsed} {pps : List PropertyPredicate}
    (hc : ∀ m ∈ c.members, m.1 ≠ "_deletion") (hp : parseQueryConstraints now c = .ok p)
    (hpps : p.predicates.mapM constructSearchTerm = .ok pps) {props : Props} :
    Combined p.pOp pps props ↔ Matched c props := by
  obtain ⟨⟨ppss, hall, rfl⟩, -⟩ := translates_iff.1 ⟨p, hp, hpps⟩
  obtain ⟨-, -, -, -, -, hor⟩ := parseQueryConstraints_inv hp
  rw [Matched]
  split
  next hlist => rw [hor.2 hlist, combined_or_iff hall]
  next hlist =>
    have hand : p.pOp = .and := by
      cases hop : p.pOp with
      | and => rfl
      | or => exact absurd (hor.1 hop) hlist
    rw [hand, combined_and_iff hall fun m hm => ⟨hc m hm, ?_⟩]
    exact Bool.eq_false_iff.2 fun h => hlist ⟨m, hm, h⟩

omit [Platform.Lawful] in
theorem purgesOnlyExpired_iff_matched {now : ℕ} {c : Json}
    (hc : ∀ m ∈ c.members, m.1 ≠ "_deletion") :
    PurgesOnlyExpired now c ↔
      (AsksForPurge now c → ∀ props, Matched c props → Expired now props) := by
  constructor
  · rintro h ⟨hread, hasks⟩ props hmatched
    obtain ⟨pps, p, hp, hpps⟩ := translates_exists_iff.2 hread
    obtain ⟨-, -, -, -, hpurge, -⟩ := parseQueryConstraints_inv hp
    refine (forall_node_iff (P := fun props => Combined p.pOp pps props → Expired now props)).1
      (h p pps hp (hpurge.2 hasks) hpps) props ?_
    exact (combined_iff_matched hc hp hpps).2 hmatched
  · intro h p pps hp hfinal hpps g n nd _ hcomb
    obtain ⟨-, -, -, -, hpurge, -⟩ := parseQueryConstraints_inv hp
    exact h ⟨translates_exists_iff.1 ⟨pps, p, hp, hpps⟩, hpurge.1 hfinal⟩ nd.props
      ((combined_iff_matched hc hp hpps).1 hcomb)

/-- **Automatic purge.** A query that its constraints turn into a purge finds expired nodes
only, exactly if one of its constraints admits expired nodes only, or, where a list of
values makes it a disjunction, all of them do. -/
theorem purges_only_expired_iff {now : ℕ} {c : Json} (hc : WithoutDeletion c) :
    PurgesOnlyExpired now c ↔ ¬ AsksForPurge now c ∨
      if ∃ m ∈ c.members, memberIsList m = true then ∀ m ∈ c.members, OnlyExpired now m
      else ∃ m ∈ c.members, OnlyExpired now m := by
  rw [purgesOnlyExpired_iff_matched hc.noDeletion, imp_iff_not_or]
  by_cases hasks : AsksForPurge now c
  · simp only [hasks, not_true_eq_false, false_or, Matched]
    split
    next hlist =>
      exact ⟨fun h m hm props hadm => h props ⟨m, hm, hadm⟩,
        fun h props ⟨m, hm, hadm⟩ => h m hm props hadm⟩
    next hlist =>
      constructor
      · intro h
        by_contra hno
        push Not at hno
        -- Every member admits a node that has not expired.
        have hchoice : ∀ m, ∃ props, m ∈ c.members → Admits m props ∧ ¬ Expired now props := by
          intro m
          by_cases hm : m ∈ c.members
          · have := hno m hm
            simp only [OnlyExpired, not_forall] at this
            obtain ⟨props, hadm, hexp⟩ := this
            exact ⟨props, fun _ => ⟨hadm, hexp⟩⟩
          · exact ⟨fun _ => none, fun h => absurd h hm⟩
        choose choice hchoice using hchoice
        obtain ⟨props, hprops⟩ := exists_agreeing hc.nodup choice
        have hexp : Expired now props :=
          h props fun m hm => (hchoice m hm).1.congr (hprops m hm).symm
        obtain ⟨m, hm, hmasks⟩ := hasks.2
        have hkey : m.1 = "_expiration" := by
          by_contra hne
          simp [memberAsks, hc.noDeletion m hm, hne] at hmasks
        refine (hchoice m hm).2 ?_
        obtain ⟨t, ht, hle⟩ := hexp
        have hsame := hprops m hm
        rw [hkey] at hsame
        exact ⟨t, hsame ▸ ht, hle⟩
      · rintro ⟨m, hm, honly⟩ props hall
        exact honly props (hall m hm)
  · simp [hasks]

omit [Platform.Lawful] in
/-- The value of a search that is written as an integer. -/
theorem searchValue_int {key : String} {z : ℤ} {x : Property}
    (h : searchValue key (.int z) = some x) : x = .integer z := by
  rw [searchValue_eq, writtenValue] at h
  split_ifs at h
  exact (Option.some.inj h).symm

omit [Platform.Lawful] in
/-- A list of values that are written as integers. -/
theorem mapM_searchValue_int {key : String} {zs : List ℤ} {xs : List Property}
    (h : (zs.map Json.int).mapM (searchValue key) = some xs) : xs = zs.map .integer := by
  induction zs generalizing xs with
  | nil => exact (Option.some.inj h).symm
  | cons z zs ih =>
      rw [List.map_cons, List.mapM_cons, Option.bind_eq_bind, Option.bind_eq_some_iff] at h
      obtain ⟨x, hx, h⟩ := h
      obtain ⟨ys, hys, h⟩ := Option.bind_eq_some_iff.1 h
      rw [← Option.some.inj h, searchValue_int hx, ih hys, List.map_cons]

omit [Platform.Lawful] in
/-- What is bounded by a time that has passed has expired. -/
theorem expired_of_bounded [Platform.Integers] {now : ℕ} {op : Op} {z : ℤ} {props : Props}
    (hop : op = .lt ∨ op = .le ∨ op = .eq) (hz : z ≤ now)
    (h : passes { id := stringID "_expiration", op, v1 := some (.integer z) } props = true) :
    Expired now props := by
  obtain ⟨t, ht, hle⟩ := Platform.Integers.passes_integer _ _ _ _
    (Platform.Integers.stringID_ne_zero _ (by decide)) hop h
  exact ⟨t, ht, by omega⟩

omit [Platform.Lawful] in
/-- The terms of a constraint on the expiration are those of what is written. -/
theorem Admits.terms {j : Json} {k : Constraint} {props : Props}
    (hj : Constraint.ofJson j = some k) (h : Admits ("_expiration", j) props) :
    ∃ pps, k.terms "_expiration" = some pps ∧ ∃ pp ∈ pps, passes pp props = true := by
  obtain ⟨pps, htrans, hpass⟩ := h
  obtain ⟨hdel, -⟩ | ⟨-, k', hk, hterms⟩ := memberTranslates_iff.1 htrans
  · exact absurd hdel (show "_expiration" ≠ "_deletion" by decide)
  · cases hj.symm.trans hk
    exact ⟨pps, hterms, hpass⟩

omit [Platform.Lawful] in
/-- **The safe case.** A single integer bound that asks for a purge admits expired nodes
only. -/
theorem onlyExpired_of_bound [Platform.Integers] {now : ℕ} {j : Json} {op : String}
    {c : Comparison} {z : ℤ} (hj : Constraint.ofJson j = some (.value op (.int z)))
    (hop : Comparison.ofString op = some c)
    (hasks : memberAsks now ("_expiration", j) = .ok true) :
    OnlyExpired now ("_expiration", j) := by
  have hexpires : (Constraint.value op (.int z)).expires now = .ok true := by
    simpa [memberAsks, hj] using hasks
  have hub : (Constraint.value op (.int z)).unbounded = false := by
    cases hub : (Constraint.value op (.int z)).unbounded with
    | false => rfl
    | true => simp [Constraint.expires, hub] at hexpires
  have hbound : z ≤ now := by
    simp only [Constraint.expires, hub, Bool.false_eq_true, if_false, Json.asUInt64,
      Json.asInteger] at hexpires
    split at hexpires
    next hz =>
      simp only [Except.map, Except.ok.injEq, decide_eq_true_eq] at hexpires
      omega
    next => cases hexpires
  have hbounded : c.op = .lt ∨ c.op = .le ∨ c.op = .eq := by
    simp only [Constraint.unbounded, hop, Option.any_some] at hub
    cases c <;> simp_all [Comparison.unbounded, Comparison.op]
  intro props hadmits
  obtain ⟨pps, hterms, pp, hpp, hpass⟩ := hadmits.terms hj
  simp only [Constraint.terms, hop, Option.map_eq_some_iff] at hterms
  obtain ⟨x, hx, rfl⟩ := hterms
  obtain rfl := List.mem_singleton.1 hpp
  obtain rfl := searchValue_int hx
  exact expired_of_bounded hbounded hbound hpass

omit [Platform.Lawful] in
/-- A list of integers that have passed, each of them a bound, admits expired nodes only. -/
theorem onlyExpired_of_values [Platform.Integers] {now : ℕ} {j : Json} {op : String}
    {c : Comparison} {zs : List ℤ}
    (hj : Constraint.ofJson j = some (.values op (zs.map Json.int)))
    (hop : Comparison.ofString op = some c) (hbounded : c.op = .lt ∨ c.op = .le ∨ c.op = .eq)
    (hzs : ∀ z ∈ zs, z ≤ now) : OnlyExpired now ("_expiration", j) := by
  intro props hadmits
  obtain ⟨pps, hterms, pp, hpp, hpass⟩ := hadmits.terms hj
  rw [Constraint.terms, hop, Option.bind_eq_bind, Option.bind_some, Option.bind_eq_bind,
    Option.bind_eq_some_iff] at hterms
  obtain ⟨xs, hxs, hpps⟩ := hterms
  obtain rfl := mapM_searchValue_int hxs
  obtain rfl := Option.some.inj hpps
  obtain ⟨x, hx, rfl⟩ := List.mem_map.1 hpp
  obtain ⟨z, hz, rfl⟩ := List.mem_map.1 hx
  exact expired_of_bounded hbounded (hzs z hz) hpass

omit [Platform.Lawful] in
/-- A range up to an integer that has passed admits expired nodes only. -/
theorem onlyExpired_of_range [Platform.Ranges] [Platform.Integers] {now : ℕ} {j v : Json}
    {op1 op2 : String} {z : ℤ} (hj : Constraint.ofJson j = some (.range op1 v op2 (.int z)))
    (horder : InOrder op1 op2) (hz : z ≤ now) : OnlyExpired now ("_expiration", j) := by
  have hne := rangeOp_ne_dontCare.2 horder
  have hupper : (rangeOp op1 op2).upper = .lt ∨ (rangeOp op1 op2).upper = .le := by
    rcases horder with ⟨rfl | rfl, rfl | rfl⟩ <;> simp [rangeOp, Op.upper]
  intro props hadmits
  obtain ⟨pps, hterms, pp, hpp, hpass⟩ := hadmits.terms hj
  rw [Constraint.terms, if_neg hne, Option.bind_eq_bind, Option.bind_eq_some_iff] at hterms
  obtain ⟨x1, -, hterms⟩ := hterms
  obtain ⟨x2, hx2, hterms⟩ := Option.bind_eq_some_iff.1 hterms
  obtain rfl := Option.some.inj hterms
  obtain rfl := List.mem_singleton.1 hpp
  obtain rfl := searchValue_int hx2
  rw [Platform.Ranges.passes_range _ _ _ _ _ (rangeOp_isRange hne), Bool.and_eq_true] at hpass
  exact expired_of_bounded (hupper.imp_right .inl) hz hpass.2

end

/-- A single bound on the expiration. -/
def expiresBy (op : String) (v : ℤ) : Json :=
  .object [("_expiration", .array [.string op, .int v])]

/-- What expires by 5 has expired at 10. -/
theorem purges_only_expired_iff_bound : PurgesOnlyExpired 10 (expiresBy "<=" 5) := by
  refine (purges_only_expired_iff ⟨rfl, by decide, by decide⟩).2 (.inr ?_)
  rw [if_neg (by decide)]
  have hop : Comparison.ofString "<=" = some .le := rfl
  exact ⟨_, List.mem_singleton_self _, onlyExpired_of_bound rfl hop rfl⟩

/-- **A range is not compared with the clock.** A query for what expires between 0 and 1000
is a purge at 10, and deletes a node that expires at 500. -/
theorem range_purges_live_nodes : ∃ p pps,
    parseQueryConstraints 10 (rangeOn "_expiration" ">" 0 "<" 1000) = .ok p ∧
    p.finalPurge = true ∧ p.predicates.mapM constructSearchTerm = .ok pps ∧
    Combined p.pOp pps (fun _ => some (.integer 500)) ∧
    ¬ PurgesOnlyExpired 10 (rangeOn "_expiration" ">" 0 "<" 1000) := by
  obtain ⟨p, pps, hp, hfinal, hpps, hop, hpass⟩ : ∃ p pps,
      parseQueryConstraints 10 (rangeOn "_expiration" ">" 0 "<" 1000) = .ok p ∧
      p.finalPurge = true ∧ p.predicates.mapM constructSearchTerm = .ok pps ∧
      p.pOp = .and ∧ pps.all fun pp => Platform.passes pp fun _ => some (.integer 500) :=
    ⟨_, _, rfl, rfl, rfl, rfl, by decide⟩
  have hcomb : Combined p.pOp pps (fun _ => some (.integer 500)) := by
    rw [hop]
    exact List.all_eq_true.1 hpass
  refine ⟨p, pps, hp, hfinal, hpps, hcomb, fun h => ?_⟩
  obtain ⟨t, ht, hle⟩ := h p pps hp hfinal hpps ⟨[some ⟨0, fun _ => some (.integer 500)⟩], []⟩ 0
    ⟨0, fun _ => some (.integer 500)⟩ rfl hcomb
  cases ht
  omega

end Vdms
