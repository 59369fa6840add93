import Vdms.AutomaticPurge
import Vdms.LinkedSearch

/-!
# Constraints on Links

The constraints of a link are translated by the same function as those of a query for
nodes, so a list of values turns them into a disjunction. The link carries this decision
to the handler, but the search among neighbours hands the predicates to PMGD, which asks
an edge to satisfy all of them.

## Main definitions

* `LinkMeansFind`: a link reaches its neighbours over the edges that satisfy its
  constraints as a node would have to.

## Main results

* `link_search_runs`: what a link reaches.
* `link_constraints_iff`: when that is what its constraints mean.
-/

namespace Vdms

open Imp Imp.Prog Platform

section

variable [Platform]

/-- The link that is built carries what its constraints are translated into. -/
theorem addLink_constraints {now : ℕ} {link c : Json} {info : LinkInfo}
    (h : addLink now link = .ok info) (hmember : link.isMember "constraints" = true)
    (hc : link.get "constraints" = .ok c) :
    ∃ p, parseQueryConstraints now c = .ok p ∧ info.pOp = p.pOp ∧
      info.predicates = p.predicates := by
  obtain ⟨ref, -, h⟩ := bind_ok_inv h
  obtain ⟨start, -, h⟩ := bind_ok_inv h
  let build (dir : Direction) (unique : Bool) (tag : StringOrID) :
      Except QueryError LinkInfo := do
    let c ← link.get "constraints"
    let p ← parseQueryConstraints now c
    pure { startIdentifier := start, edgeTag := tag, dir, nbUnique := unique, pOp := p.pOp
           predicates := p.predicates }
  -- The parts before the constraints are optional: each has a value either way.
  have htag : ∀ dir unique, (if link.isMember "class" then do
      let t ← link.get "class"
      let t ← t.asString
      let tag ← pure (StringOrID.name t)
      build dir unique tag
    else do
      let tag ← pure StringOrID.unset
      build dir unique tag) = .ok info → ∃ dir unique tag, build dir unique tag = .ok info := by
    intro dir unique h
    split at h
    · obtain ⟨t, -, h⟩ := bind_ok_inv h
      obtain ⟨t, -, h⟩ := bind_ok_inv h
      exact ⟨dir, unique, _, h⟩
    · exact ⟨dir, unique, _, h⟩
  have hunique : ∀ dir, (if link.isMember "unique" then do
      let u ← link.get "unique"
      let unique ← u.asBool
      if link.isMember "class" then do
        let t ← link.get "class"
        let t ← t.asString
        let tag ← pure (StringOrID.name t)
        build dir unique tag
      else do
        let tag ← pure StringOrID.unset
        build dir unique tag
    else do
      let unique ← pure false
      if link.isMember "class" then do
        let t ← link.get "class"
        let t ← t.asString
        let tag ← pure (StringOrID.name t)
        build dir unique tag
      else do
        let tag ← pure StringOrID.unset
        build dir unique tag) = .ok info → ∃ dir unique tag, build dir unique tag = .ok info := by
    intro dir h
    split at h
    · obtain ⟨u, -, h⟩ := bind_ok_inv h
      obtain ⟨unique, -, h⟩ := bind_ok_inv h
      exact htag dir unique h
    · exact htag dir false h
  have hdir : ∃ dir unique tag, build dir unique tag = .ok info := by
    simp only [hmember, if_true] at h
    split at h
    · obtain ⟨d, -, h⟩ := bind_ok_inv h
      obtain ⟨d, -, h⟩ := bind_ok_inv h
      split at h
      · exact hunique _ h
      · split at h
        · exact hunique _ h
        · exact hunique _ h
    · exact hunique _ h
  obtain ⟨dir, unique, tag, h⟩ := hdir
  obtain ⟨c', hc', h⟩ := bind_ok_inv h
  cases hc.symm.trans hc'
  obtain ⟨p, hp, h⟩ := bind_ok_inv h
  cases h
  exact ⟨p, hp, rfl, rfl⟩

/-- A node is reached from a list over an edge with the tag and the direction of the link,
whose properties are as wanted. -/
def LinkInfo.Reaches (info : LinkInfo) (wanted : Props → Prop) (g : Graph) (l₀ : List NodeID)
    (x : NodeID) : Prop :=
  ∃ n ∈ l₀, ∃ y ed, g.edge y = some ed ∧ tagMatches info.edgeTag.resolve ed.tag = true ∧
    info.dir.connects n x ed = true ∧ wanted ed.props

/-- **What the constraints of a link mean.** The search along the link enumerates the
neighbours, in the class of the query, over the edges that satisfy the constraints as a
query for nodes combines them. -/
def LinkMeansFind (now : ℕ) (info : LinkInfo) (c : Json) : Prop :=
  ∀ p pps, parseQueryConstraints now c = .ok p →
    p.predicates.mapM constructSearchTerm = .ok pps →
    ∀ (qn : QueryNode) (e : SearchExpression) (s : Handler) (k : ℤ) (l₀ : List NodeID),
      qn.constraints.search = .ok e → e.isOr = false → Denotes k l₀ s →
      ∃ i t i' u l, Runs (queryNodeSearch qn (some (info, k))) s (.ret i t) ∧
        Iter.Yields NodeIterator.iter i t l i' u ∧
        ∀ x, x ∈ l ↔ e.acceptsNeighbor s.db x = true ∧
          info.Reaches (Combined p.pOp pps) s.db l₀ x

/-- All predicates of the object pass the same properties, and there is one. -/
def Alike (c : Json) : Prop :=
  ∃ ppss, List.Forall₂ MemberTranslates c.members ppss ∧ ppss.flatten ≠ [] ∧
    ∀ pp ∈ ppss.flatten, ∀ qq ∈ ppss.flatten, ∀ props, passes pp props = passes qq props

/-- The iterator of a linked query is the iterator over the neighbours. -/
theorem NodeIterator.yields_multi {m m' : MultiNeighborIteratorImpl} {s t : Handler}
    {l : List NodeID} (h : Iter.Yields MultiNeighborIteratorImpl.iter m s l m' t) :
    Iter.Yields NodeIterator.iter (.multi m) s l (.multi m') t := by
  induction h with
  | nil hb => exact .nil hb
  | cons hb hr hn _ ih => exact .cons hb hr (hn.bind (Runs.of_eq fun _ => rfl)) ih

/-- Conjunction and disjunction agree on predicates that are alike. -/
theorem forall_iff_exists_alike {pps : List PropertyPredicate} :
    (∀ props, (∀ pp ∈ pps, passes pp props = true) ↔ ∃ pp ∈ pps, passes pp props = true) ↔
      pps ≠ [] ∧ ∀ pp ∈ pps, ∀ qq ∈ pps, ∀ props, passes pp props = passes qq props := by
  constructor
  · intro h
    refine ⟨?_, fun pp hpp qq hqq props => ?_⟩
    · rintro rfl
      have := (h fun _ => none).1 (by simp)
      simp at this
    · rw [Bool.eq_iff_iff]
      exact ⟨fun hpass => (h props).2 ⟨pp, hpp, hpass⟩ qq hqq,
        fun hpass => (h props).2 ⟨qq, hqq, hpass⟩ pp hpp⟩
  · rintro ⟨hne, halike⟩ props
    constructor
    · intro hall
      obtain ⟨pp, hpp⟩ := List.exists_mem_of_ne_nil pps hne
      exact ⟨pp, hpp, hall pp hpp⟩
    · rintro ⟨pp, hpp, hpass⟩ qq hqq
      rw [halike qq hqq pp hpp, hpass]

variable [Platform.Lawful] [Platform.Quiet]

omit [Platform.Quiet] in
/-- The neighbours over the edges that satisfy every predicate are those that a link reaches. -/
theorem mem_neighborLists {info : LinkInfo} {e : SearchExpression} {pps : List PropertyPredicate}
    {g : Graph} {l₀ : List NodeID} {x : NodeID} :
    x ∈ l₀.flatMap
        ({ e with edgePredicates := pps }.neighborList g info.dir info.edgeTag.resolve) ↔
      e.acceptsNeighbor g x = true ∧ info.Reaches (Combined .and pps) g l₀ x := by
  simp only [List.mem_flatMap, SearchExpression.mem_neighborList]
  constructor
  · rintro ⟨n, hn, ⟨y, ed, hy, htag, hconn, hall⟩, hacc⟩
    exact ⟨hacc, n, hn, y, ed, hy, htag, hconn, hall⟩
  · rintro ⟨hacc, n, hn, y, ed, hy, htag, hconn, hall⟩
    exact ⟨n, hn, ⟨y, ed, hy, htag, hconn, hall⟩, hacc⟩

/-- **What a link reaches**: the neighbours over the edges that satisfy every predicate. -/
theorem link_search_runs {info : LinkInfo} {qn : QueryNode} {e : SearchExpression}
    {pps : List PropertyPredicate} {s : Handler} {k : ℤ} {l₀ : List NodeID}
    (hpps : info.predicates.mapM constructSearchTerm = .ok pps)
    (he : qn.constraints.search = .ok e) (hor : e.isOr = false) (hk : Denotes k l₀ s) :
    ∃ i t i' u l, Runs (queryNodeSearch qn (some (info, k))) s (.ret i t) ∧
      Iter.Yields NodeIterator.iter i t l i' u ∧
      ∀ x, x ∈ l ↔ e.acceptsNeighbor s.db x = true ∧
        info.Reaches (Combined .and pps) s.db l₀ x := by
  let e' : SearchExpression := { e with edgePredicates := pps }
  obtain ⟨m, t, hnew, -, hview⟩ : ∃ m t,
      Runs (MultiNeighborIteratorImpl.new k e' info.dir info.edgeTag.resolve) s (.ret m t) ∧
      OnlyMoved k s t ∧ MultiView k l₀ m t
        (l₀.flatMap (e'.neighborList s.db info.dir info.edgeTag.resolve)) :=
    MultiNeighborIteratorImpl.new_runs hor hk
  obtain ⟨m', u, hyields, -⟩ := (MultiNeighborIteratorImpl.tracks l₀).yields hview
  refine ⟨.multi m, t, .multi m', u, _, ?_, NodeIterator.yields_multi hyields,
    fun x => mem_neighborLists⟩
  rw [queryNodeSearch]
  rw [he]
  refine Runs.bind (Runs.of_eq fun _ => rfl) ?_
  simp only [hpps]
  refine Runs.bind (Runs.of_eq fun _ => rfl) ?_
  exact hnew.bind (Runs.of_eq fun _ => rfl)

/-- A node with an edge to itself. -/
def selfLoop (tag : StringID) (props : Props) : Graph where
  nodes := [some ⟨0, fun _ => none⟩]
  edges := [some ⟨0, 0, tag, props⟩]

omit [Platform.Lawful] [Platform.Quiet] in
/-- In a graph with one edge, a node is reached if the edge is wanted. -/
theorem reaches_selfLoop {info : LinkInfo} {wanted : Props → Prop} {props : Props} :
    info.Reaches wanted (selfLoop info.edgeTag.resolve props) [0] 0 ↔ wanted props := by
  constructor
  · rintro ⟨n, -, y, ed, hy, -, -, hwanted⟩
    cases y with
    | zero =>
        cases hy
        exact hwanted
    | succ y => cases hy
  · intro hwanted
    refine ⟨0, List.mem_singleton_self 0, 0, _, rfl, ?_, ?_, hwanted⟩
    · simp [tagMatches]
    · cases info.dir <;> rfl

/-- What a link means is decided by how its predicates combine. -/
theorem linkMeansFind_iff {now : ℕ} {info : LinkInfo} {c : Json} {p : Parsed}
    {pps : List PropertyPredicate} (hp : parseQueryConstraints now c = .ok p)
    (hinfo : info.predicates = p.predicates)
    (hpps : p.predicates.mapM constructSearchTerm = .ok pps) :
    LinkMeansFind now info c ↔
      ∀ props, Combined .and pps props ↔ Combined p.pOp pps props := by
  have hpps' : info.predicates.mapM constructSearchTerm = .ok pps := by rw [hinfo, hpps]
  constructor
  · intro h props
    let s := (Handler.inTransaction (selfLoop info.edgeTag.resolve props)).cacheNode 0
      (.ofElement 0)
    let qn : QueryNode := { constraints := { tag := .id 0 } }
    have hk : Denotes 0 [0] s :=
      ⟨rfl, _, Handler.cacheNode_same _ _ _, NodeView.ofElement _ 0⟩
    have he : qn.constraints.search = .ok ⟨0, false, [], []⟩ := rfl
    obtain ⟨i, t, j, u, l, hrun, hyields, hmem⟩ := h p pps hp hpps qn _ s 0 [0] he rfl hk
    obtain ⟨i', t', j', u', l', hrun', hyields', hmem'⟩ := link_search_runs hpps' he rfl hk
    cases hrun.unique hrun'
    obtain ⟨rfl, -, -⟩ := hyields.unique hyields'
    have hiff := (hmem' 0).symm.trans (hmem 0)
    have hacc : SearchExpression.acceptsNeighbor ⟨0, false, [], []⟩ s.db 0 = true := rfl
    simp only [hacc, true_and] at hiff
    exact reaches_selfLoop.symm.trans (hiff.trans reaches_selfLoop)
  · intro h p' pps' hp' hpps'' qn e s k l₀ he hor hk
    cases hp.symm.trans hp'
    cases hpps.symm.trans hpps''
    obtain ⟨i, t, j, u, l, hrun, hyields, hmem⟩ := link_search_runs hpps' he hor hk
    refine ⟨i, t, j, u, l, hrun, hyields, fun x => ?_⟩
    rw [hmem, LinkInfo.Reaches, LinkInfo.Reaches]
    simp only [h]

/-- **Constraints on links.** They mean what constraints on nodes mean exactly if they
cannot be read, or have no list of values, or all their predicates are alike. -/
theorem link_constraints_iff {now : ℕ} {link c : Json} {info : LinkInfo}
    (h : addLink now link = .ok info) (hmember : link.isMember "constraints" = true)
    (hc : link.get "constraints" = .ok c) :
    LinkMeansFind now info c ↔ (∃ m ∈ c.members, ¬ MemberReadable m) ∨
      (∀ m ∈ c.members, memberIsList m = false) ∨ Alike c := by
  obtain ⟨p, hp, -, hpreds⟩ := addLink_constraints h hmember hc
  by_cases hread : ∀ m ∈ c.members, MemberReadable m
  · obtain ⟨pps, p', hp', hpps⟩ := translates_exists_iff.2 hread
    cases hp.symm.trans hp'
    obtain ⟨⟨ppss, hall, rfl⟩, -⟩ := translates_iff.1 ⟨p, hp, hpps⟩
    obtain ⟨-, -, -, -, -, hor⟩ := parseQueryConstraints_inv hp
    have hno : ¬ ∃ m ∈ c.members, ¬ MemberReadable m := by
      rintro ⟨m, hm, hunread⟩
      exact hunread (hread m hm)
    have halike : Alike c ↔ ppss.flatten ≠ [] ∧ ∀ pp ∈ ppss.flatten, ∀ qq ∈ ppss.flatten,
        ∀ props, passes pp props = passes qq props := by
      constructor
      · rintro ⟨ppss', hall', halike⟩
        have hsame : ppss' = ppss :=
          List.right_unique_forall₂' (fun _ _ _ hm hm' => hm.unique hm') hall' hall
        rwa [hsame] at halike
      · exact fun halike => ⟨ppss, hall, halike⟩
    rw [linkMeansFind_iff hp hpreds hpps, halike, ← forall_iff_exists_alike]
    simp only [hno, false_or]
    cases hop : p.pOp with
    | and =>
        have hnolist : ∀ m ∈ c.members, memberIsList m = false := fun m hm =>
          Bool.eq_false_iff.2 fun hlist => by simpa [hop] using hor.2 ⟨m, hm, hlist⟩
        exact iff_of_true (fun _ => Iff.rfl) (.inl hnolist)
    | or =>
        obtain ⟨m, hm, hlist⟩ := hor.1 hop
        have hsome : ¬ ∀ m ∈ c.members, memberIsList m = false := by
          intro hnone
          rw [hnone m hm] at hlist
          cases hlist
        simp only [hsome, false_or]
        exact Iff.rfl
  · have hno : ∃ m ∈ c.members, ¬ MemberReadable m := by
      push Not at hread
      exact hread
    refine iff_of_true (fun p pps hp hpps => ?_) (.inl hno)
    exact absurd (translates_exists_iff.1 ⟨pps, p, hp, hpps⟩) hread

end

/-- A link with one constraint. -/
def linkWhere (key : String) (constraint : Json) : Json :=
  .object [("ref", .int 7), ("constraints", .object [(key, constraint)])]

/-- A single comparison. -/
theorem link_constraints_iff_value : ∃ info,
    addLink 0 (linkWhere "a" (.array [.string "==", .int 5])) = .ok info ∧
    LinkMeansFind 0 info (.object [("a", .array [.string "==", .int 5])]) := by
  obtain ⟨info, hinfo⟩ : ∃ info,
      addLink 0 (linkWhere "a" (.array [.string "==", .int 5])) = .ok info := ⟨_, rfl⟩
  refine ⟨info, hinfo, (link_constraints_iff hinfo rfl rfl).2 (.inr (.inl fun m hm => ?_))⟩
  obtain rfl := List.mem_singleton.1 hm
  rfl

/-- **A list of two values** on a link asks an edge to have both. -/
theorem link_list_asks_for_all : ∃ info,
    addLink 0 (linkWhere "a" (.array [.string "==", .array [.int 5, .int 6]])) = .ok info ∧
    info.pOp = .or ∧
    ¬ LinkMeansFind 0 info
      (.object [("a", .array [.string "==", .array [.int 5, .int 6]])]) := by
  refine ⟨_, rfl, rfl, fun h => ?_⟩
  -- An edge with the value 5 satisfies the disjunction only.
  have hiff := (linkMeansFind_iff (p := ⟨_, _, _, _, _⟩) rfl rfl rfl).1 h
    fun _ => some (.integer 5)
  have hall := hiff.2 ⟨_, List.mem_cons_self, by decide⟩
  exact absurd (hall _ (List.mem_cons_of_mem _ List.mem_cons_self)) (by decide)

end Vdms
