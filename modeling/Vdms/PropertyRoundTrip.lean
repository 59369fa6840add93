import Vdms.ListAnswers
import Vdms.QueryHandlerPMGD
import Vdms.ResponseRouting
import Vdms.SetCoherence

/-!
# Property Values, There and Back

A property goes through four translations: `PMGDQuery::set_property` makes a message of its
JSON value, `PMGDQueryHandler::set_property` a property of the graph of that,
`construct_protobuf_property` a message again, and `PMGDQuery::set_value` a JSON value.

## Main results

* `jsonProperty_scalar`: a scalar comes back as it was.
* `addNode_stores`: a node that is added has the properties of its message.
* `property_round_trip`: what a node is added with is what a list query answers; a value that is
  no scalar is refused while the request is built, and nothing is stored.
-/

namespace Vdms

open Imp Imp.Prog Platform

section

variable [Platform]

/-! ### Values -/

/-- The values of properties: booleans, signed 64-bit integers, doubles and strings. -/
def Json.Scalar : Json → Prop
  | .bool _ | .real _ | .string _ => True
  | .int z => -2 ^ 63 ≤ z ∧ z ≤ 2 ^ 63 - 1
  | .null | .array _ | .object _ => False

/-- The objects that stand for a time or for a string. -/
def Json.StandsForValue (j : Json) : Prop := j.isMember "_date" = true ∨ j.isMember "_blob" = true

/-- The four translations of a scalar. -/
theorem jsonProperty_scalar (key : String) {val : Json} (h : val.Scalar) :
    ∃ p v, jsonProperty key val = .ok p ∧ p.key = key ∧ p.value = .ok (some v) ∧
      v.toJson = some val := by
  cases val with
  | bool b => exact ⟨_, .boolean b, rfl, rfl, rfl, rfl⟩
  | real x => exact ⟨_, .float x, rfl, rfl, rfl, rfl⟩
  | string s => exact ⟨_, .string s, rfl, rfl, rfl, rfl⟩
  | int z =>
      have hz : (Json.int z).asInt64 = .ok z := if_pos h
      refine ⟨{ type := .integerType, key, intValue := z }, .integer z, ?_, rfl, rfl, rfl⟩
      simp only [jsonProperty, hz]
      rfl
  | null => exact h.elim
  | array xs => exact h.elim
  | object ms => exact h.elim

/-- A value of another shape. -/
theorem jsonProperty_error (key : String) {val : Json} (h : ¬ val.Scalar)
    (hobject : ¬ val.StandsForValue) : ∃ e, jsonProperty key val = .error e := by
  cases val with
  | bool b => exact absurd trivial h
  | real x => exact absurd trivial h
  | string s => exact absurd trivial h
  | int z =>
      have hz : (Json.int z).asInt64 = .error .logicError := if_neg h
      refine ⟨.logicError, ?_⟩
      simp only [jsonProperty, hz]
      rfl
  | null => exact ⟨_, rfl⟩
  | array xs => exact ⟨_, rfl⟩
  | object ms =>
      refine ⟨objectTypeError, ?_⟩
      rw [jsonProperty, if_neg fun hdate => hobject (.inl hdate),
        if_neg fun hblob => hobject (.inr hblob)]

/-! ### Additions -/

section Build

variable {q : PMGDQuery} {ref : ℤ} {tag : String} {constraints : Json}
  {ms : List (String × Json)}

/-- Without the reserved key the members are translated one by one. Induction on the
members. -/
theorem nodeProperties_eq_mapM (now : ℕ) (hreserved : "_expiration" ∉ ms.map Prod.fst) :
    PMGDQuery.nodeProperties now ms = ms.mapM fun m => jsonProperty m.1 m.2 := by
  induction ms with
  | nil => rfl
  | cons m ms ih =>
      obtain ⟨key, val⟩ := m
      rw [List.map_cons, List.mem_cons, not_or] at hreserved
      obtain ⟨hkey, hrest⟩ := hreserved
      rw [PMGDQuery.nodeProperties, if_neg (Ne.symm hkey), ih hrest, List.mapM_cons]
      cases jsonProperty key val with
      | error e => rfl
      | ok p => cases ms.mapM fun m => jsonProperty m.1 m.2 <;> rfl

/-- The times of a node that expires by default can be held by a property. -/
def ExpirationFits (q : PMGDQuery) : Prop :=
  (q.now : ℤ) ≤ 2 ^ 63 - 1 ∧ (toUInt64 (q.now + q.expirationLimit) : ℤ) ≤ 2 ^ 63 - 1

/-- The constraints are absent, or can be parsed. -/
def ConstraintsParse (q : PMGDQuery) (constraints : Json) : Prop :=
  constraints.isNull = true ∨ ∃ p, parseQueryConstraints q.now constraints = .ok p

/-- The time stamps of a node. -/
theorem expirationProperties_ok {creation expiration : ℕ} (hc : (creation : ℤ) ≤ 2 ^ 63 - 1)
    (he : (expiration : ℤ) ≤ 2 ^ 63 - 1) :
    ∃ extra, PMGDQuery.expirationProperties creation expiration = .ok extra ∧ Readable extra ∧
      ∀ p ∈ extra, p.key = "_creation" ∨ p.key = "_expiration" := by
  have hscalar : ∀ n : ℕ, (n : ℤ) ≤ 2 ^ 63 - 1 → (Json.int n).Scalar := fun n hn =>
    ⟨by omega, hn⟩
  obtain ⟨c, v, hcreation, hckey, hcv, -⟩ :=
    jsonProperty_scalar "_creation" (hscalar _ hc)
  obtain ⟨e, w, hexpiration, hekey, hew, -⟩ :=
    jsonProperty_scalar "_expiration" (hscalar _ he)
  refine ⟨[c, e], ?_, ?_, ?_⟩
  · rw [PMGDQuery.expirationProperties, hcreation]
    simp only [bind, Except.bind, hexpiration]
    rfl
  · intro p hp
    rcases List.mem_pair.1 hp with rfl | rfl
    · exact ⟨some v, hcv⟩
    · exact ⟨some w, hew⟩
  · intro p hp
    rcases List.mem_pair.1 hp with rfl | rfl
    · exact .inl hckey
    · exact .inr hekey

/-- The message of a node has a property for each member, and others only under other keys. -/
structure AddNode.Carries (cn : AddNode) (ms : List (String × Json)) : Prop where
  properties : ∃ ps extra, cn.node.properties = ps ++ extra ∧
    List.Forall₂ (fun m p => jsonProperty m.1 m.2 = .ok p) ms ps ∧
    ∀ p ∈ extra, p.key ∉ ms.map Prod.fst
  readable : Readable cn.node.properties

/-- The command that adds a node with the members. -/
structure Command.AddsNode (cmd : Command) (ref : ℤ) (constraints : Json)
    (ms : List (String × Json)) : Prop where
  cmdId : cmd.cmdId = .addNode
  identifier : cmd.addNode.identifier = ref
  unconditional : constraints.isNull = true → cmd.addNode.queryNode = none
  conditional : ∀ qn, cmd.addNode.queryNode = some qn → qn.results.rType = .nodeID
  carries : cmd.addNode.Carries ms

/-- A node whose members are scalars. -/
theorem addNode_ok (ref : ℤ) (tag : String) (hreserved : "_expiration" ∉ ms.map Prod.fst)
    (hlimit : q.expirationLimit ≠ defaultNodeExpiration →
      "_creation" ∉ ms.map Prod.fst ∧ ExpirationFits q)
    (hscalar : ∀ m ∈ ms, m.2.Scalar) (hconstraints : ConstraintsParse q constraints) :
    ∃ q' cmd, q.addNode ref tag (.object ms) constraints = .ok q' ∧ q'.cmds = q.cmds ++ [cmd] ∧
      cmd.AddsNode ref constraints ms := by
  obtain ⟨ps, hps⟩ : ∃ ps, ms.mapM (fun m => jsonProperty m.1 m.2) = .ok ps :=
    exists_mapM_ok_iff.2 fun m hm => by
      obtain ⟨p, -, hp, -⟩ := jsonProperty_scalar m.1 (hscalar m hm)
      exact ⟨p, hp⟩
  have hall := mapM_ok_iff.1 hps
  have hreadable : Readable ps := by
    intro p hp
    obtain ⟨m, hm, hmp⟩ := forall₂_mem_left hall.flip hp
    obtain ⟨p', v, hp', -, hv, -⟩ := jsonProperty_scalar m.1 (hscalar m hm)
    obtain rfl := Except.ok.inj (hmp.symm.trans hp')
    exact ⟨some v, hv⟩
  have hflag : (ms.any fun m => decide (m.1 = "_expiration")) = false := by
    rw [List.any_eq_false]
    rintro m hm heq
    exact hreserved (List.mem_map.2 ⟨m, hm, of_decide_eq_true heq⟩)
  have hprops := (nodeProperties_eq_mapM q.now hreserved).trans hps
  obtain ⟨extra, hextra, hextraReadable, hother⟩ : ∃ extra,
      (if q.expirationLimit ≠ defaultNodeExpiration then
          PMGDQuery.expirationProperties q.now (toUInt64 (q.now + q.expirationLimit))
        else pure []) = Except.ok extra ∧ Readable extra ∧
      ∀ p ∈ extra, p.key ∉ ms.map Prod.fst := by
    by_cases hdefault : q.expirationLimit ≠ defaultNodeExpiration
    · obtain ⟨hcreation, hnow, hlater⟩ := hlimit hdefault
      obtain ⟨extra, hok, hread, hkeys⟩ := expirationProperties_ok hnow hlater
      refine ⟨extra, by rw [if_pos hdefault, hok], hread, fun p hp hin => ?_⟩
      rcases hkeys p hp with hkey | hkey
      · exact hcreation (hkey ▸ hin)
      · exact hreserved (hkey ▸ hin)
    · exact ⟨[], if_neg hdefault, fun p hp => (by cases hp), fun p hp => (by cases hp)⟩
  have hcarries : ∀ cn : AddNode, cn.node.properties = ps ++ extra → cn.Carries ms := by
    intro cn hcn
    refine ⟨⟨ps, extra, hcn, hall, hother⟩, fun p hp => ?_⟩
    rw [hcn] at hp
    exact (List.mem_append.1 hp).elim (hreadable p) (hextraReadable p)
  let configured := !false && decide (q.expirationLimit ≠ defaultNodeExpiration)
  let command : Option QueryNode → Command := fun query =>
    { cmdId := .addNode
      cmdGrpId := q.currentGroupId
      addNode :=
        { identifier := ref
          node := { tag, properties := ps ++ extra }
          queryNode := query
          expirationFlag := false || configured } }
  obtain ⟨query, hnone, hsome, hbuilt⟩ : ∃ query, (constraints.isNull = true → query = none) ∧
      (∀ qn, query = some qn → qn.results.rType = .nodeID) ∧
      q.addNode ref tag (.object ms) constraints =
        .ok ({ q with readonly := false }.push (command query)) := by
    simp only [PMGDQuery.addNode, Json.members, hprops, hflag, bind, Except.bind]
    have hextra' : (if configured = true then
        PMGDQuery.expirationProperties q.now (toUInt64 (q.now + q.expirationLimit))
      else pure []) = Except.ok extra := by
      rw [← hextra]
      by_cases hdefault : q.expirationLimit ≠ defaultNodeExpiration <;> simp [configured, hdefault]
    by_cases hnull : constraints.isNull = true
    · refine ⟨none, fun _ => rfl, fun qn hqn => (by cases hqn), ?_⟩
      by_cases hconfigured : configured = true
      · rw [if_pos hconfigured] at hextra'
        rw [if_pos hconfigured, hextra']
        exact if_pos hnull
      · rw [if_neg hconfigured] at hextra' ⊢
        obtain rfl := Except.ok.inj hextra'
        exact if_pos hnull
    · obtain ⟨p, hp⟩ := hconstraints.resolve_left hnull
      refine ⟨some { identifier := ref, constraints := PMGDQuery.constraintsOf tag true p
                     results := { rType := .nodeID } }, fun h => absurd h hnull,
        fun qn hqn => (Option.some.inj hqn) ▸ rfl, ?_⟩
      by_cases hconfigured : configured = true
      · rw [if_pos hconfigured] at hextra'
        rw [if_pos hconfigured, hextra', hp]
        exact if_neg hnull
      · rw [if_neg hconfigured] at hextra' ⊢
        obtain rfl := Except.ok.inj hextra'
        rw [hp]
        exact if_neg hnull
  exact ⟨_, command query, hbuilt, rfl, rfl, rfl, hnone, hsome, hcarries _ rfl⟩

end Build

section Stored

variable {cn : AddNode} {ms : List (String × Json)} {key : String} {val : Json}

/-- A node that is added has the properties of its message. -/
theorem addNode_stores {s : Handler}
    (hquery : ∀ qn, cn.queryNode = some qn → qn.results.rType = .nodeID) :
    Ensures (addNode cn) s fun v t => 0 ≤ v → t.response.errorCode = .success →
      t.db = s.db.withNode (stringID cn.node.tag) cn.props := by
  refine Sat.get_bind (Sat.ite (fun _ => ?_) fun _ => ?_)
  · exact Sat.modify_bind (Sat.pure fun hv => absurd hv (by decide))
  cases hqn : cn.queryNode with
  | none => exact Ensures.mono addNewNode_ensures fun _ _ ht _ _ => ht
  | some qn =>
      have hsame : Indifferent fun t => t.db = s.db :=
        ⟨fun _ _ h => h, fun _ _ _ h => h, fun _ _ _ h => h⟩
      have hkept : Ensures (queryNode qn) s fun _ t => t.db = s.db :=
        queryNode_invariant hsame (fun hlist => by rw [hquery qn hqn] at hlist; cases hlist) rfl
      refine Sat.bind hkept fun _ t ht => Sat.get_bind (Sat.ite (fun _ => ?_) fun _ => ?_)
      · exact Sat.modify_bind (Sat.pure fun _ hcode => (by cases hcode))
      · refine Sat.ite (fun _ => Sat.pure fun hv => absurd hv (by decide)) fun _ => ?_
        exact Ensures.mono addNewNode_ensures fun _ _ hu _ _ => by rw [hu, ht]

variable [Platform.Lawful]

/-- The node has the values of the members. -/
theorem AddNode.Carries.shows (h : cn.Carries ms) (hms : SortedKeys ms)
    (hmem : (key, val) ∈ ms) (hval : val.Scalar) :
    ∃ v, cn.props (stringID key) = some v ∧ v.toJson = some val := by
  obtain ⟨ps, extra, hproperties, hall, hextra⟩ := h.properties
  obtain ⟨p, hp, hparse⟩ := forall₂_mem_left hall hmem
  obtain ⟨p', v, hp', hkey, hv, hjson⟩ := jsonProperty_scalar key hval
  obtain rfl := Except.ok.inj (hparse.symm.trans hp')
  refine ⟨v, ?_, hjson⟩
  -- The keys of the properties are those of the members, so no other has this one.
  have hkeys : ps.map PMGDProp.key = ms.map Prod.fst := by
    refine (List.forall₂_eq_eq_eq ▸ List.forall₂_map_right_iff.2
      (List.forall₂_map_left_iff.2 (hall.imp fun m p h => (jsonProperty_key h).symm)) :
        ms.map Prod.fst = ps.map PMGDProp.key).symm
  have hnodup : (ps.map PMGDProp.key).Nodup := by
    rw [hkeys]
    exact hms.imp fun hlt heq => by
      rw [heq] at hlt
      exact String.lt_irrefl _ hlt
  obtain ⟨as, bs, rfl⟩ := List.append_of_mem hp
  rw [List.map_append, List.map_cons, List.nodup_append, List.nodup_cons] at hnodup
  have hlater : ∀ p' ∈ bs ++ extra, p'.key ≠ p.key := by
    intro p' hp' hsame
    rcases List.mem_append.1 hp' with hp' | hp'
    · exact hnodup.2.1.1 (hsame ▸ List.mem_map_of_mem hp')
    · refine hextra p' hp' ?_
      rw [hsame, hkey]
      exact List.mem_map_of_mem hmem
  rw [AddNode.props, hproperties, List.append_assoc, List.cons_append, ← hkey]
  exact foldl_apply_of_mem hv hlater _

end Stored

/-! ### Lists -/

section Lists

variable {ι : Type} {I : Iter Handler PMGDException ι NodeID} {V : ι → Handler → List NodeID → Prop}
  {S : Handler → Handler → Prop} {ni : ι} {qn : ResultInfo} {l : List NodeID} {u : Handler}

/-- The nodes of an answer. -/
def shownNodes (u : Handler) (qn : ResultInfo) (l : List NodeID) : List NodeID :=
  qn.cut (resultOrder u.db Element.node qn l)

/-- A list query that has found the nodes `l` and goes over them: nothing stands in the way of
an answer. -/
structure ListQuery (I : Iter Handler PMGDException ι NodeID) (V : ι → Handler → List NodeID → Prop)
    (S : Handler → Handler → Prop) (ni : ι) (qn : ResultInfo) (l : List NodeID) (u : Handler) :
    Prop where
  tracks : I.Tracks V S
  steady : Steady V S
  sees : SeesGraph V
  deletable : u.resultdeletion = true → Deletable V Element.node l u
  isOpen : u.Open
  fresh : u.response.propValues = []
  list : qn.rType = .list
  view : V ni u l
  sortable : Sortable u.db Element.node qn l
  listable : ∀ n ∈ shownNodes u qn l, Listable u (.node n)

/-- Where the node is in the answer to a list query over these keys, its entity has the members
and no others. -/
def ListsMembers (ms : List (String × Json)) (n : NodeID) (u : Handler) : Prop :=
  ∀ (ι : Type) (I : Iter Handler PMGDException ι NodeID) (V : ι → Handler → List NodeID → Prop)
    (S : Handler → Handler → Prop) (ni : ι) (qn : ResultInfo) (l : List NodeID),
    ListQuery I V S ni qn l u → qn.responseKeys.Perm (ms.map Prod.fst) →
    (∀ m ∈ shownNodes u qn l, m ≠ n → ∀ key ∈ qn.responseKeys,
      (shownValue u.db (.node m) key).isSome) →
    ∀ reusable, ∃ r t es, Runs (listOf I Element.node reusable ni qn) u (.ret r t) ∧
      parseResponse t.response = .ok (listAnswer u.response.nodeEdge es) ∧
      List.Forall₂ (fun m entity => m = n →
        ∀ key val, entity.members.lookup key = some val ↔ (key, val) ∈ ms) (shownNodes u qn l) es

variable [Platform.Quiet]

/-- What a node shows is what a list answers. -/
theorem listsMembers {ms : List (String × Json)} {n : NodeID} (hms : SortedKeys ms)
    (hshows : ∀ key val, (key, val) ∈ ms → shownValue u.db (.node n) key = some val) :
    ListsMembers ms n u := by
  intro ι I V S ni qn l h hkeys hothers reusable
  have hnodup : (ms.map Prod.fst).Nodup := hms.imp fun hlt heq => by
    rw [heq] at hlt
    exact String.lt_irrefl _ hlt
  have hvalue : ∀ key ∈ qn.responseKeys, ∃ val, (key, val) ∈ ms := by
    intro key hkey
    obtain ⟨m, hm, rfl⟩ := List.mem_map.1 (hkeys.mem_iff.1 hkey)
    exact ⟨m.2, hm⟩
  have htyped : Typed u.db qn.responseKeys ((shownNodes u qn l).map Element.node) := by
    intro x hx key hkey
    obtain ⟨m, hm, rfl⟩ := List.mem_map.1 hx
    by_cases hn : m = n
    · obtain ⟨val, hval⟩ := hvalue key hkey
      rw [hn, hshows key val hval]
      rfl
    · exact hothers m hm hn key hkey
  have huniform : Uniform u.db qn.responseKeys ((shownNodes u qn l).map Element.node) := by
    intro key hcount
    have hone := (List.nodup_iff_count_le_one.1 (hkeys.nodup_iff.2 hnodup)) key
    omega
  obtain ⟨es, hes, haligned⟩ := entities_aligned_iff.2 ⟨htyped, huniform⟩
  have htotal := listOf_total h.tracks h.steady h.sees node_apart h.deletable h.isOpen h.fresh
    h.list h.view reusable
  cases htotal with
  | throw _ hbad => exact absurd ⟨h.sortable, h.listable⟩ hbad
  | ret hret hresult =>
      obtain ⟨-, -, hresponse⟩ := hresult
      refine ⟨_, _, es, hret, ?_, ?_⟩
      · rw [hresponse, parseResponse_list]
        exact ⟨es, hes, rfl⟩
      · refine (List.forall₂_map_left_iff.1 haligned).imp ?_
        rintro m entity hentity rfl key val
        constructor
        · intro hlookup
          obtain ⟨val', hval'⟩ := hvalue key (hentity.only key val hlookup)
          obtain ⟨w, hw, hlookup'⟩ := hentity.shows key (hentity.only key val hlookup)
          rw [hshows key val' hval'] at hw
          rw [hlookup] at hlookup'
          rwa [Option.some.inj hlookup', ← Option.some.inj hw]
        · intro hmem
          have hkey : key ∈ qn.responseKeys := hkeys.mem_iff.2 (List.mem_map_of_mem hmem)
          obtain ⟨w, hw, hlookup⟩ := hentity.shows key hkey
          rw [hshows key val hmem] at hw
          rw [hlookup, ← Option.some.inj hw]

end Lists

end

/-! ### Requests -/

namespace QueryHandlerPMGD

section Rejection

variable [Platform] {σ : Type} {M : Methods σ} {graph : σ → Graph} {props : Json}

/-- The graph of the server stays as it is. -/
def SameGraph (graph : σ → Graph) (s t : QueryState σ) : Prop := graph t.server = graph s.server

omit [Platform] in
theorem SameGraph.of_steps {s t : QueryState σ}
    (h : Relation.ReflTransGen (SameGraph graph) s t) : SameGraph graph s t := by
  induction h with
  | refl => rfl
  | tail _ hstep ih => exact hstep.trans ih

/-- Only `run` touches the graph: a command is built, and the files of a failed request are
removed, without it. -/
structure Methods.LeaveGraph (M : Methods σ) (graph : σ → Graph) : Prop where
  construct : ∀ c query blob group result,
    Within (SameGraph graph) (M.constructProtobuf c query blob group result)
  cleanup : ∀ images videos, Within (SameGraph graph) (M.cleanupQuery images videos)

omit [Platform] in
theorem ofQuery_within {α : Type} (x : Except QueryError α) :
    Within (SameGraph graph) (ofQuery x : Querying σ α) := by
  cases x with
  | ok a => exact Within.pure a
  | error e => exact Within.throw _

omit [Platform] in
/-- A step that leaves the server. -/
theorem modify_within {f : QueryState σ → QueryState σ} (hf : ∀ s, (f s).server = s.server) :
    Within (SameGraph graph) (modify f : Querying σ Unit) :=
  Within.modify fun s => congrArg graph (hf s)

omit [Platform] in
theorem error_within (hM : M.LeaveGraph graph) (res failed : Json) :
    Within (SameGraph graph) (error M res failed) := by
  refine Within.get_bind fun s => ?_
  have hclean := hM.cleanup s.imagesLog s.videosLog
  exact (hclean.bind fun _ => (ofQuery_within _).bind fun _ => modify_within (by intro s; rfl)) s

theorem logAdded_within (cmdResult : Json) :
    Within (SameGraph graph) (logAdded cmdResult : Querying σ Unit) := by
  have hvideo : Within (SameGraph graph) (do
      if ← ofQuery (cmdResult.hasMember "video_added") then
        let path ← ofQuery (cmdResult.get "video_added")
        let path ← ofQuery path.asString
        modify fun s => { s with videosLog := s.videosLog ++ [path] } : Querying σ Unit) := by
    refine (ofQuery_within _).bind fun b => Within.ite (fun _ => ?_) fun _ => Within.pure _
    exact (ofQuery_within _).bind fun _ => (ofQuery_within _).bind fun _ =>
      modify_within (by intro s; rfl)
  refine (ofQuery_within _).bind fun b => Within.ite (fun _ => ?_) fun _ => hvideo
  exact (ofQuery_within _).bind fun _ => (ofQuery_within _).bind fun _ =>
    (modify_within (by intro s; rfl)).bind fun _ => hvideo

theorem constructCommand_within (hM : M.LeaveGraph graph) (c : RSCommand) (query : Json)
    (blob : Bytes) (group : ℕ) (cmdResult : Json) :
    Within (SameGraph graph) (constructCommand M c query blob group cmdResult) := by
  have hbuild := hM.construct c query blob group cmdResult
  refine hbuild.bind fun built => (logAdded_within built.2).bind fun _ => ?_
  refine Within.ite (fun _ => ?_) fun _ => Within.pure _
  exact (error_within hM built.2 query).bind fun _ => Within.pure _

/-- Building the commands leaves the graph. Induction on the commands. -/
theorem constructLoop_within (hM : M.LeaveGraph graph) (blobs : List Bytes) (queries : List Json)
    (k : ℕ) (cmdResult : Json) (results : List Json) :
    Within (SameGraph graph) (constructLoop M blobs queries k cmdResult results) := by
  induction queries generalizing k cmdResult results with
  | nil => exact Within.pure _
  | cons query rest ih =>
      have hfirst : Within (SameGraph graph) (firstMember query : Querying σ String) :=
        (ofQuery_within _).bind fun names => by
          cases names with
          | nil => exact Within.stuck
          | cons cmd names => exact Within.pure _
      have hgroup : Within (SameGraph graph) (addGroup : Querying σ ℕ) :=
        (modify_within (by intro s; rfl)).bind fun _ => Within.get_bind fun _ => Sat.pure .refl
      have hregistered : ∀ cmd, Within (SameGraph graph) (registered cmd : Querying σ RSCommand) :=
        fun cmd => by
          rw [registered]
          cases RSCommand.ofName cmd with
          | none => exact Within.stuck
          | some c => exact Within.pure _
      have htake : ∀ c, Within (SameGraph graph)
          (takeBlob blobs c query k : Querying σ (Bytes × ℕ)) := fun c => by
        refine (ofQuery_within _).bind fun b => Within.ite (fun _ => ?_) fun _ => Within.pure _
        cases blobs[k]? with
        | none => exact Within.stuck
        | some blob => exact Within.pure _
      have hbuild := constructCommand_within hM
      refine hfirst.bind fun cmd => hgroup.bind fun group => (hregistered cmd).bind fun c =>
        (htake c).bind fun taken => ?_
      refine (hbuild c query taken.1 group cmdResult).bind fun result => ?_
      cases result with
      | none => exact Within.pure _
      | some result => exact ih _ _ _

/-- The command calls `AddNode` with the properties, and is built only if that returns. -/
def Methods.AddsNode (M : Methods σ) (query props : Json) : Prop :=
  ∀ c blob group result s, Sat (M.constructProtobuf c query blob group result) s
    (fun _ _ => ∃ q ref tag constraints q', PMGDQuery.addNode q ref tag props constraints = .ok q')
    fun _ _ => True

/-- A request with a node that cannot be built is not built. Induction on the commands. -/
theorem constructLoop_rejects
    (hprops : ∀ q ref tag constraints, ∃ e,
      PMGDQuery.addNode q ref tag props constraints = .error e)
    (blobs : List Bytes) {queries : List Json} (hadds : ∃ query ∈ queries, M.AddsNode query props)
    (k : ℕ) (cmdResult : Json) (results : List Json) (s : QueryState σ) :
    Sat (constructLoop M blobs queries k cmdResult results) s (fun r _ => r = none)
      fun _ _ => True := by
  induction queries generalizing k cmdResult results s with
  | nil =>
      obtain ⟨query, hquery, -⟩ := hadds
      cases hquery
  | cons query rest ih =>
      refine Sat.seq fun cmd s => Sat.seq fun group s => Sat.seq fun c s =>
        Sat.seq fun taken s => ?_
      obtain ⟨bad, hbad, hadd⟩ := hadds
      rcases List.mem_cons.1 hbad with rfl | hrest
      · refine Sat.bind (P := fun r _ => r = none) ?_ fun r t hr => by
          subst hr
          exact Sat.pure rfl
        refine Sat.bind (hadd c taken.1 group cmdResult s) fun _ t hbuilt => ?_
        obtain ⟨q, ref, tag, constraints, q', hq'⟩ := hbuilt
        obtain ⟨e, he⟩ := hprops q ref tag constraints
        rw [he] at hq'
        cases hq'
      · refine Sat.seq fun r t => ?_
        cases r with
        | none => exact Sat.pure rfl
        | some result => exact ih ⟨bad, hrest, hadd⟩ _ _ _ _

/-- **Rejection.** A request with a node that cannot be built leaves the graph. -/
theorem processAccepted_rejects (hM : M.LeaveGraph graph)
    (hprops : ∀ q ref tag constraints, ∃ e,
      PMGDQuery.addNode q ref tag props constraints = .error e)
    (blobs : List Bytes) {queries : List Json} (hadds : ∃ query ∈ queries, M.AddsNode query props)
    (s : QueryState σ) : Sat (processAccepted M queries blobs) s
      (fun _ t => graph t.server = graph s.server) fun _ t => graph t.server = graph s.server := by
  have hbuild := Sat.and (constructLoop_within hM blobs queries 0 .null [] s)
    (constructLoop_rejects hprops blobs hadds 0 .null [] s)
  refine Sat.bind (Sat.mono hbuild (fun _ _ h => h) fun _ _ h => SameGraph.of_steps h.1) ?_
  rintro r t ⟨hsteps, rfl⟩
  exact Sat.pure (SameGraph.of_steps hsteps)

end Rejection

end QueryHandlerPMGD

/-! ### The round trip -/

section

variable [Platform]

/-- `AddNode` takes the members. Wherever its command adds a node, a later list query that finds
the node as it was added answers the members; and without constraints it does add one. -/
def StoresMembers (q : PMGDQuery) (ref : ℤ) (tag : String) (constraints : Json)
    (ms : List (String × Json)) : Prop :=
  ∃ q' cmd, q.addNode ref tag (.object ms) constraints = .ok q' ∧ q'.cmds = q.cmds ++ [cmd] ∧
    (∀ s v t, Runs (processQuery cmd) s (.ret v t) → 0 ≤ v → t.response.errorCode = .success →
      ∀ u : Handler, (∀ key ∈ ms.map Prod.fst, u.db.props (.node s.db.nodes.length) (stringID key) =
        t.db.props (.node s.db.nodes.length) (stringID key)) →
          ListsMembers ms s.db.nodes.length u) ∧
    (constraints.isNull = true → ∀ s : Handler, s.Writable →
      (0 ≤ ref → s.cachedNodes (toInt ref) = none) →
        ∃ t, Runs (processQuery cmd) s (.ret 0 t) ∧ t.response.errorCode = .success)

/-- `AddNode` throws, and a request that needs it leaves the graph. -/
def RefusesMembers (ms : List (String × Json)) : Prop :=
  (∀ q ref tag constraints, ∃ e,
    PMGDQuery.addNode q ref tag (.object ms) constraints = .error e) ∧
  ∀ (σ : Type) (M : QueryHandlerPMGD.Methods σ) (graph : σ → Graph), M.LeaveGraph graph →
    ∀ blobs queries, (∃ query ∈ queries, M.AddsNode query (.object ms)) → ∀ s,
      Sat (QueryHandlerPMGD.processAccepted M queries blobs) s
        (fun _ t => graph t.server = graph s.server) fun _ t => graph t.server = graph s.server

theorem refusesMembers {ms : List (String × Json)} (hreserved : "_expiration" ∉ ms.map Prod.fst)
    (hbad : ∃ m ∈ ms, ¬ m.2.Scalar ∧ ¬ m.2.StandsForValue) : RefusesMembers ms := by
  have hrefused : ∀ q ref tag constraints, ∃ e,
      PMGDQuery.addNode q ref tag (.object ms) constraints = .error e := by
    intro q ref tag constraints
    cases hadd : q.addNode ref tag (.object ms) constraints with
    | error e => exact ⟨e, rfl⟩
    | ok q' =>
        obtain ⟨ps, hps, -⟩ := bind_ok_inv hadd
        rw [Json.members, nodeProperties_eq_mapM _ hreserved] at hps
        obtain ⟨m, hm, hscalar, hobject⟩ := hbad
        obtain ⟨p, -, hp⟩ := forall₂_mem_left (mapM_ok_iff.1 hps) hm
        obtain ⟨e, he⟩ := jsonProperty_error m.1 hscalar hobject
        rw [he] at hp
        cases hp
  exact ⟨hrefused, fun σ M graph hM blobs queries hadds s =>
    QueryHandlerPMGD.processAccepted_rejects hM hrefused blobs hadds s⟩

variable [Platform.Lawful] [Platform.Quiet]

theorem storesMembers {q : PMGDQuery} {ref : ℤ} {tag : String} {constraints : Json}
    {ms : List (String × Json)} (hms : SortedKeys ms) (hreserved : "_expiration" ∉ ms.map Prod.fst)
    (hlimit : q.expirationLimit ≠ defaultNodeExpiration →
      "_creation" ∉ ms.map Prod.fst ∧ ExpirationFits q)
    (hscalar : ∀ m ∈ ms, m.2.Scalar) (hconstraints : ConstraintsParse q constraints) :
    StoresMembers q ref tag constraints ms := by
  obtain ⟨q', cmd, hadd, hcmds, hcmd⟩ := addNode_ok ref tag hreserved hlimit hscalar
    hconstraints
  refine ⟨q', cmd, hadd, hcmds, fun s v t hrun hv hcode u hu => ?_, fun hnull s hs hfree => ?_⟩
  · have hdispatch : Runs (addNode cmd.addNode) (s.begin cmd) (.ret v t) := by
      rcases processQuery_inv hrun with h | ⟨rfl, -⟩
      · simpa only [dispatch, hcmd.cmdId] using h
      · exact absurd hv (by decide)
    have hdb : t.db = s.db.withNode (stringID cmd.addNode.node.tag) cmd.addNode.props :=
      (addNode_stores (s := s.begin cmd) hcmd.conditional).ret hdispatch hv hcode
    refine listsMembers hms fun key val hmem => ?_
    obtain ⟨w, hw, hjson⟩ := hcmd.carries.shows hms hmem (hscalar _ hmem)
    have hprops : u.db.props (.node s.db.nodes.length) (stringID key) = some w := by
      rw [hu key (List.mem_map_of_mem hmem), hdb, ← hw]
      simp [Graph.props, Graph.node, Graph.withNode]
    rw [shownValue, hprops]
    exact hjson
  · obtain ⟨t, hnew, hcode, -⟩ := addNewNode_runs (s := s.begin cmd) hs hcmd.carries.readable
    refine ⟨t, processQuery_of_dispatch ?_, hcode⟩
    have hreuse : ¬ (0 ≤ cmd.addNode.identifier ∧
        ((s.begin cmd).cachedNodes (toInt cmd.addNode.identifier)).isSome) := by
      rintro ⟨hid, hsome⟩
      rw [hcmd.identifier] at hid hsome
      rw [Handler.begin, hfree hid] at hsome
      cases hsome
    refine (Runs.congr (N := 0) (fun n _ => ?_) _).2 hnew
    simp only [dispatch, hcmd.cmdId, addNode, bind_apply, get_apply, Outcome.andThen_ret,
      if_neg hreuse, hcmd.unconditional hnull]

/-- **Property values, there and back.** Scalars are stored and come back as they were; with a
value that is neither a scalar nor an object that stands for one nothing is stored. -/
theorem property_round_trip {ms : List (String × Json)} (hms : SortedKeys ms)
    (hreserved : "_expiration" ∉ ms.map Prod.fst) :
    ((∀ m ∈ ms, m.2.Scalar) → ∀ (q : PMGDQuery) ref tag constraints,
      (q.expirationLimit ≠ defaultNodeExpiration →
        "_creation" ∉ ms.map Prod.fst ∧ ExpirationFits q) →
      ConstraintsParse q constraints → StoresMembers q ref tag constraints ms) ∧
    ((∃ m ∈ ms, ¬ m.2.Scalar ∧ ¬ m.2.StandsForValue) → RefusesMembers ms) :=
  ⟨fun hscalar _ _ _ _ hlimit hconstraints =>
    storesMembers hms hreserved hlimit hscalar hconstraints, refusesMembers hreserved⟩

end

/-- A person. -/
def annMembers : List (String × Json) := [("age", .int 36), ("name", .string "Ann")]

theorem property_round_trip_ann :
    StoresMembers (PMGDQuery.new defaultNodeExpiration 0) (-1) "Person" .null annMembers := by
  have hsorted : SortedKeys annMembers := by
    rw [SortedKeys]
    decide
  refine (property_round_trip hsorted (by decide)).1 ?_ _ _ _ _ (fun h => absurd rfl h)
    (.inl rfl)
  intro m hm
  rcases List.mem_pair.1 hm with rfl | rfl
  · exact ⟨by decide, by decide⟩
  · trivial

/-- The values that do not come back as they were given, or are not refused: an object that
stands for a string, `_creation` where nodes expire by default, and anything where the default
is a time before the epoch. -/
theorem values_not_kept :
    (∃ q', (PMGDQuery.new defaultNodeExpiration 0).addNode (-1) "T"
      (.object [("k", .object [("_blob", .string "x")])]) .null = .ok q') ∧
    (∃ q' cmd, (PMGDQuery.new 5 7).addNode (-1) "T" (.object [("_creation", .int 3)]) .null =
      .ok q' ∧ q'.cmds.getLast? = some cmd ∧
        cmd.addNode.props (stringID "_creation") = some (.integer 7)) ∧
    (PMGDQuery.new (-1) 0).addNode (-1) "T" (.object [("k", .int 3)]) .null =
      .error .logicError := by
  refine ⟨⟨_, rfl⟩, ⟨_, _, rfl, rfl, ?_⟩, ?_⟩
  · decide +kernel
  · rfl

end Vdms
