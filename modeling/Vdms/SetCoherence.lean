import Vdms.DescriptorSets
import Vdms.JsonObjects

/-!
# The Tables of Descriptor Sets

`get_set_path` remembers where a set is and never looks at the graph again. This agrees with
the graph as long as no set that has been looked up goes away or changes. Commands leave the
sets alone, or add one under a name that is free, with three exceptions: an update may write
the properties of a set, an addition may make one that is no proper set, and `DeleteExpired`
removes a set that has an expiration.

## Main definitions

* `SetsHold`: the sets of the graph are proper ones, and those in the tables are among them.
* `Command.KeepsSets`: the command is not one of the exceptions.
* `SetRun`: requests and lookups, of any number of clients and in any order.

## Main results

* `dispatch_setsHold`: what one command keeps.
* `AddDescriptorSet.request_keepsSets`: the transaction that adds a set keeps the sets.
* `set_paths_coherent`: in every run of such requests, looking a set up tells what the graph
  holds.
* `expired_set_is_remembered`: a run after which it does not.
-/

namespace Vdms

open Imp Imp.Prog Platform Relation
open Std (TreeMap)

/-- The path and the dimensions of the sets that have been looked up, by name. -/
abbrev SetTables := TreeMap String (String × ℤ)

/-- The dimensions are an `int`. -/
def IsDimension (dim : ℤ) : Prop := -2 ^ 31 ≤ dim ∧ dim ≤ 2 ^ 31 - 1

section

variable [Platform]

/-! ### Graphs -/

/-- Every set of the graph is a proper one, no two sets have one name, and what has been
looked up is in the graph. -/
structure SetsHold (sets : SetTables) (g : Graph) : Prop where
  formed : ∀ n props, g.descSet n = some props →
    ∃ name path dim, IsSet props name path dim ∧ path ≠ "" ∧ IsDimension dim
  once : ∀ n m name, g.Named n name → g.Named m name → n = m
  known : ∀ name path dim, sets[name]? = some (path, dim) →
    ∃ n props, g.descSet n = some props ∧ IsSet props name path dim

/-- The properties are those of the same set. -/
def SameSet (p q : Props) : Prop :=
  ∀ key ∈ ["VD:name", "VD:descSetPath", "VD:dimensions", "VD:engine"],
    q (stringID key) = p (stringID key)

theorem SameSet.refl (p : Props) : SameSet p p := fun _ _ => rfl

theorem SameSet.symm {p q : Props} (h : SameSet p q) : SameSet q p :=
  fun key hkey => (h key hkey).symm

theorem SameSet.isSet {p q : Props} {name path : String} {dim : ℤ} (h : SameSet p q)
    (hset : IsSet p name path dim) : IsSet q name path dim := by
  obtain ⟨engine, hengine⟩ := hset.engine
  refine ⟨?_, ?_, ?_, engine, ?_⟩
  · exact (h _ (by simp)).trans hset.name
  · exact (h _ (by simp)).trans hset.path
  · exact (h _ (by simp)).trans hset.dim
  · exact (h _ (by simp)).trans hengine

namespace SetsHold

variable {sets : SetTables} {g g' : Graph}

/-- **What keeps the sets.** Every set comes from one that was there, and those that have
been looked up stay. -/
theorem of_same (h : SetsHold sets g)
    (hold : ∀ n q, g'.descSet n = some q → ∃ p, g.descSet n = some p ∧ SameSet p q)
    (hstay : ∀ n p name, g.descSet n = some p → p (stringID "VD:name") = some (.string name) →
      name ∈ sets → ∃ q, g'.descSet n = some q ∧ SameSet p q) : SetsHold sets g' := by
  refine ⟨fun n q hq => ?_, fun n m name hn hm => ?_, fun name path dim hknown => ?_⟩
  · obtain ⟨p, hp, hsame⟩ := hold n q hq
    obtain ⟨name, path, dim, hset, hpath, hdim⟩ := h.formed n p hp
    exact ⟨name, path, dim, hsame.isSet hset, hpath, hdim⟩
  · have hnamed : ∀ {k}, g'.Named k name → g.Named k name := fun {k} ⟨q, hq, hname⟩ => by
      obtain ⟨p, hp, hsame⟩ := hold k q hq
      exact ⟨p, hp, (hsame _ (by simp)).symm.trans hname⟩
    exact h.once n m name (hnamed hn) (hnamed hm)
  · obtain ⟨n, p, hp, hset⟩ := h.known name path dim hknown
    have hmem : name ∈ sets := TreeMap.mem_iff_isSome_getElem?.2 (by rw [hknown]; rfl)
    obtain ⟨q, hq, hsame⟩ := hstay n p name hp hset.name hmem
    exact ⟨n, q, hq, hsame.isSet hset⟩

/-- The sets are the same. -/
theorem congr (h : SetsHold sets g) (hsame : ∀ n, g'.descSet n = g.descSet n) :
    SetsHold sets g' :=
  h.of_same (fun n q hq => ⟨q, (hsame n).symm.trans hq, .refl q⟩)
    fun n p _ hp _ _ => ⟨p, (hsame n).trans hp, .refl p⟩

end SetsHold

/-- The properties of an added set. -/
theorem descSet_withNode {g : Graph} {tag : StringID} {props : Props} {n : NodeID} :
    (g.withNode tag props).descSet n =
      if n = g.nodes.length then (if tag = descSetTag then some props else none)
      else g.descSet n := by
  unfold Graph.descSet Graph.node Graph.withNode
  rcases Nat.lt_trichotomy n g.nodes.length with hlt | rfl | hgt
  · rw [if_neg (Nat.ne_of_lt hlt), List.getElem?_append_left hlt]
  · by_cases htag : tag = descSetTag <;> simp [htag, Option.filter]
  · rw [if_neg (Nat.ne_of_gt hgt), List.getElem?_eq_none (by simpa using Nat.succ_le_of_lt hgt),
      List.getElem?_eq_none (Nat.le_of_lt hgt)]

theorem descSet_new (g : Graph) : g.descSet g.nodes.length = none := by
  simp [Graph.descSet, Graph.node]

theorem descSet_remove {g : Graph} {x : Element} {n : NodeID} :
    (g.remove x).descSet n = if .node n = x then none else g.descSet n := by
  cases x with
  | edge e => rfl
  | node m =>
      rw [Graph.descSet]
      rw [Graph.remove, Graph.node_removeNode]
      simp only [Element.node.injEq]
      split <;> rfl

theorem descSet_modifyProps {g : Graph} {m n : NodeID} {f : Props → Props} :
    (g.modifyProps (.node m) f).descSet n =
      if n = m then (g.descSet n).map f else g.descSet n := by
  unfold Graph.descSet
  rw [Graph.node_modifyProps]
  split
  · cases g.node n with
    | none => rfl
    | some nd => by_cases htag : nd.tag = descSetTag <;> simp [htag, Option.filter]
  · rfl

namespace SetsHold

variable {sets : SetTables} {g : Graph}

/-- A node that is not a set. -/
theorem withNode (h : SetsHold sets g) {tag : StringID} (htag : tag ≠ descSetTag) (props : Props) :
    SetsHold sets (g.withNode tag props) := by
  refine h.congr fun n => ?_
  rw [descSet_withNode, if_neg htag]
  split
  next hn => rw [hn, descSet_new]
  next => rfl

/-- A set under a name that is free. -/
theorem withSet (h : SetsHold sets g) {props : Props} {name path : String} {dim : ℤ}
    (hset : IsSet props name path dim) (hpath : path ≠ "") (hdim : IsDimension dim)
    (hfree : ∀ n, ¬ g.Named n name) : SetsHold sets (g.withNode descSetTag props) := by
  have hold : ∀ {n p}, g.descSet n = some p → (g.withNode descSetTag props).descSet n = some p := by
    intro n p hp
    rw [descSet_withNode, if_neg, hp]
    rintro rfl
    rw [descSet_new] at hp
    cases hp
  have hnew : ∀ {n p}, (g.withNode descSetTag props).descSet n = some p →
      n = g.nodes.length ∧ p = props ∨ g.descSet n = some p := by
    intro n p hp
    rw [descSet_withNode] at hp
    split at hp
    next hn =>
      rw [if_pos rfl] at hp
      exact .inl ⟨hn, (Option.some.inj hp).symm⟩
    next => exact .inr hp
  refine ⟨fun n p hp => ?_, fun n m name' hn hm => ?_, fun name' path' dim' hknown => ?_⟩
  · rcases hnew hp with ⟨-, rfl⟩ | hp
    · exact ⟨name, path, dim, hset, hpath, hdim⟩
    · exact h.formed n p hp
  · have hcases : ∀ {k}, (g.withNode descSetTag props).Named k name' →
        k = g.nodes.length ∧ name' = name ∨ g.Named k name' := by
      rintro k ⟨p, hp, hname⟩
      rcases hnew hp with ⟨hk, rfl⟩ | hp
      · rw [hset.name] at hname
        injection hname with hname
        injection hname with hname
        exact .inl ⟨hk, hname.symm⟩
      · exact .inr ⟨p, hp, hname⟩
    rcases hcases hn with ⟨hn, hname⟩ | hn <;> rcases hcases hm with ⟨hm, hname'⟩ | hm
    · rw [hn, hm]
    · exact absurd hm (hname ▸ hfree m)
    · exact absurd hn (hname' ▸ hfree n)
    · exact h.once n m name' hn hm
  · obtain ⟨n, p, hp, hset'⟩ := h.known name' path' dim' hknown
    exact ⟨n, p, hold hp, hset'⟩

/-- An element is removed that is no set, or one that has not been looked up. -/
theorem remove (h : SetsHold sets g) {x : Element}
    (hx : ∀ n name, x = .node n → g.Named n name → name ∉ sets) :
    SetsHold sets (g.remove x) := by
  refine h.of_same (fun n q hq => ⟨q, ?_, .refl q⟩) fun n p name hp hname hmem => ⟨p, ?_, .refl p⟩
  · rw [descSet_remove] at hq
    split at hq
    · cases hq
    · exact hq
  · rw [descSet_remove, if_neg, hp]
    intro hsame
    exact hx n name hsame.symm ⟨p, hp, hname⟩ hmem

/-- An update of a node that leaves what makes a set. -/
theorem modifyProps (h : SetsHold sets g) {m : NodeID} {f : Props → Props}
    (hf : ∀ p, SameSet p (f p)) : SetsHold sets (g.modifyProps (.node m) f) := by
  refine h.of_same (fun n q hq => ?_) fun n p _ hp _ _ => ?_
  · rw [descSet_modifyProps] at hq
    split at hq
    · obtain ⟨p, hp, rfl⟩ := Option.map_eq_some_iff.1 hq
      exact ⟨p, hp, hf p⟩
    · exact ⟨q, hq, .refl q⟩
  · rw [descSet_modifyProps]
    split
    · exact ⟨f p, by rw [hp]; rfl, hf p⟩
    · exact ⟨p, hp, .refl p⟩

end SetsHold

/-! ### Commands -/

/-- The addition makes a set, under a name that is free. -/
structure AddNode.AddsSet (cn : AddNode) (name path : String) (dim : ℤ) : Prop where
  tag : cn.node.tag = "VD:DESCSET"
  set : IsSet cn.props name path dim
  path : path ≠ ""
  dim : IsDimension dim
  query : ∃ qn, cn.queryNode = some qn ∧ qn.identifier = cn.identifier ∧ qn.Conditional ∧
    qn.constraints.search = .ok (setExpr name)

/-- The update writes none of the properties that make a set. -/
def UpdateNode.SparesSets (un : UpdateNode) : Prop :=
  ∀ key ∈ ["VD:name", "VD:descSetPath", "VD:dimensions", "VD:engine"],
    (∀ p ∈ un.properties, p.key ≠ key) ∧ key ∉ un.removeProps

/-- The command adds proper sets only, writes no property of a set, and removes no set that
has been looked up. -/
def Command.KeepsSets (cmd : Command) (sets : SetTables) (u : Handler) : Prop :=
  match cmd.cmdId with
  | .addNode => cmd.addNode.node.tag ≠ "VD:DESCSET" ∨
      ∃ name path dim, cmd.addNode.AddsSet name path dim
  | .updateNode => cmd.updateNode.SparesSets
  | .deleteExpired => ∀ a ∈ u.expirationQueue, a.timestamp < u.now →
      ∀ n name, a.node = .node n → u.db.Named n name → name ∉ sets
  | _ => True

/-! ### The builder -/

/-- The properties that the node of a set is given. -/
theorem AddDescriptorSet.props_inv {storageSets : String} {cmd p user : Json}
    (h : AddDescriptorSet.props storageSets cmd = .ok p) (huser : cmd.get "properties" = .ok user)
    (hordered : user.Ordered) : ∃ name dim engine ms, p = .object ms ∧ p.Ordered ∧
      (cmd.get "name").bind Json.asString = .ok name ∧
      (cmd.get "dimensions").bind Json.asInt = .ok dim ∧
      ("VD:name", .string name) ∈ ms ∧ ("VD:dimensions", .int dim) ∈ ms ∧
      ("VD:descSetPath", .string (storageSets ++ "/" ++ name)) ∈ ms ∧
      ("VD:engine", .string engine) ∈ ms := by
  obtain ⟨jname, hjname, h⟩ := bind_ok_inv h
  obtain ⟨name, hname, h⟩ := bind_ok_inv h
  obtain ⟨jdim, hjdim, h⟩ := bind_ok_inv h
  obtain ⟨dim, hdim, h⟩ := bind_ok_inv h
  obtain ⟨jengine, -, h⟩ := bind_ok_inv h
  obtain ⟨engine, -, h⟩ := bind_ok_inv h
  obtain ⟨user', huser', h⟩ := bind_ok_inv h
  rw [huser] at huser'
  obtain rfl := Except.ok.inj huser'
  obtain ⟨p₁, hp₁, h⟩ := bind_ok_inv h
  obtain ⟨p₂, hp₂, h⟩ := bind_ok_inv h
  obtain ⟨p₃, hp₃, h⟩ := bind_ok_inv h
  obtain ⟨ms₁, hms₁, ho₁, hmem₁⟩ := hordered.setMember "VD:name" (.string name)
  obtain rfl := Except.ok.inj (hp₁.symm.trans hms₁)
  obtain ⟨ms₂, hms₂, ho₂, hmem₂⟩ := ho₁.setMember "VD:dimensions" (.int dim)
  obtain rfl := Except.ok.inj (hp₂.symm.trans hms₂)
  obtain ⟨ms₃, hms₃, ho₃, hmem₃⟩ :=
    ho₂.setMember "VD:descSetPath" (.string (storageSets ++ "/" ++ name))
  obtain rfl := Except.ok.inj (hp₃.symm.trans hms₃)
  obtain ⟨ms₄, hms₄, ho₄, hmem₄⟩ := ho₃.setMember "VD:engine" (.string engine)
  obtain rfl := Except.ok.inj (h.symm.trans hms₄)
  refine ⟨name, dim, engine, ms₄, rfl, ho₄, ?_, ?_, ?_, ?_, ?_, (hmem₄ _).2 (.inl rfl)⟩
  · rw [hjname]
    exact hname
  · rw [hjdim]
    exact hdim
  · have h₁ := (hmem₁ ("VD:name", .string name)).2 (.inl rfl)
    have h₂ := (hmem₂ _).2 (.inr ⟨by simp, h₁⟩)
    have h₃ := (hmem₃ _).2 (.inr ⟨by simp, h₂⟩)
    exact (hmem₄ _).2 (.inr ⟨by simp, h₃⟩)
  · have h₂ := (hmem₂ ("VD:dimensions", .int dim)).2 (.inl rfl)
    have h₃ := (hmem₃ _).2 (.inr ⟨by simp, h₂⟩)
    exact (hmem₄ _).2 (.inr ⟨by simp, h₃⟩)
  · have h₃ := (hmem₃ ("VD:descSetPath", .string (storageSets ++ "/" ++ name))).2 (.inl rfl)
    exact (hmem₄ _).2 (.inr ⟨by simp, h₃⟩)

/-- The properties of the first member, and those of the others. -/
theorem nodeProperties_cons_inv {now : ℕ} {m : String × Json} {ms : List (String × Json)}
    {ps : List PMGDProp} (h : PMGDQuery.nodeProperties now (m :: ms) = .ok ps) :
    ∃ first rest, ps = first ++ rest ∧ PMGDQuery.nodeProperties now ms = .ok rest ∧
      (∀ p ∈ first, p.key = m.1 ∨ p.key = "_creation") ∧
      (m.1 ≠ "_expiration" → (jsonProperty m.1 m.2).map (fun p => [p]) = .ok first) := by
  obtain ⟨key, val⟩ := m
  rw [PMGDQuery.nodeProperties] at h
  by_cases hkey : key = "_expiration"
  · rw [if_pos hkey] at h
    obtain ⟨d, -, h⟩ := bind_ok_inv h
    obtain ⟨first, hfirst, h⟩ := bind_ok_inv h
    obtain ⟨rest, hrest, h⟩ := bind_ok_inv h
    refine ⟨first, rest, (Except.ok.inj h).symm, hrest, fun p hp => ?_, fun hne => absurd hkey hne⟩
    obtain ⟨c, hc, hfirst⟩ := bind_ok_inv hfirst
    obtain ⟨e, he, hfirst⟩ := bind_ok_inv hfirst
    obtain rfl := Except.ok.inj hfirst
    rcases List.mem_cons.1 hp with rfl | hp
    · exact .inr (jsonProperty_key hc)
    · obtain rfl := List.mem_singleton.1 hp
      exact .inl ((jsonProperty_key he).trans hkey.symm)
  · rw [if_neg hkey] at h
    obtain ⟨p, hp, h⟩ := bind_ok_inv h
    obtain ⟨first, hfirst, h⟩ := bind_ok_inv h
    obtain rfl := Except.ok.inj hfirst
    obtain ⟨rest, hrest, h⟩ := bind_ok_inv h
    refine ⟨[p], rest, (Except.ok.inj h).symm, hrest, fun p' hp' => ?_, fun _ => ?_⟩
    · obtain rfl := List.mem_singleton.1 hp'
      exact .inl (jsonProperty_key hp)
    · rw [hp]
      rfl

/-- The dimensions that a builder accepts. -/
theorem Json.asInt_dimension {j : Json} {dim : ℤ} (h : j.asInt = .ok dim) : IsDimension dim := by
  rw [IsDimension]
  unfold Json.asInt Json.asInteger at h
  split at h
  · obtain rfl := Except.ok.inj h
    omega
  · split at h
    · obtain rfl := Except.ok.inj h
      assumption
    · cases h
  · dsimp only at h
    split at h
    · obtain rfl := Except.ok.inj h
      assumption
    · cases h
  · obtain rfl := Except.ok.inj h
    split <;> omega
  · cases h

/-- The commands of a query are those of another, and some more that have a property. -/
def PMGDQuery.Extends (q q' : PMGDQuery) (P : Command → Prop) : Prop :=
  ∃ cmds, q'.cmds = q.cmds ++ cmds ∧ ∀ cmd ∈ cmds, P cmd

omit [Platform] in
theorem PMGDQuery.Extends.trans {q₁ q₂ q₃ : PMGDQuery} {P : Command → Prop}
    (h : q₁.Extends q₂ P) (h' : q₂.Extends q₃ P) : q₁.Extends q₃ P := by
  obtain ⟨cmds, heq, hcmds⟩ := h
  obtain ⟨cmds', heq', hcmds'⟩ := h'
  refine ⟨cmds ++ cmds', by rw [heq', heq, List.append_assoc], fun cmd hcmd => ?_⟩
  exact (List.mem_append.1 hcmd).elim (hcmds cmd) (hcmds' cmd)

/-- The link adds an edge at most. -/
theorem RSCommand.addLinkOf_extends {q q' : PMGDQuery} {cmd : Json} {ref : ℤ} {tag : String}
    (h : RSCommand.addLinkOf q cmd ref tag = .ok q') :
    q.Extends q' fun cmd => cmd.cmdId = .addEdge := by
  obtain ⟨linked, -, h⟩ := bind_ok_inv h
  split at h
  · obtain ⟨link, -, h⟩ := bind_ok_inv h
    obtain ⟨ref', -, h⟩ := bind_ok_inv h
    obtain ⟨directed, -, h⟩ := bind_ok_inv h
    have hedge : ∀ {src dst : ℤ}, ((getValue Json.asString link "class" tag) >>= fun edgeTag =>
        link.get "properties" >>= fun props => q.addEdge (-1) src dst edgeTag props) = .ok q' →
        q.Extends q' fun cmd => cmd.cmdId = .addEdge := by
      intro src dst h
      obtain ⟨edgeTag, -, h⟩ := bind_ok_inv h
      obtain ⟨props, -, h⟩ := bind_ok_inv h
      obtain ⟨properties, -, h⟩ := bind_ok_inv h
      obtain rfl := Except.ok.inj h
      exact ⟨[_], rfl, fun cmd hcmd => by rw [List.mem_singleton.1 hcmd]⟩
    split at h
    · obtain ⟨direction, -, h⟩ := bind_ok_inv h
      split at h <;> exact hedge h
    · exact hedge h
  · obtain rfl := Except.ok.inj h
    exact ⟨[], (List.append_nil _).symm, fun cmd hcmd => (by cases hcmd)⟩

section Properties

variable [Platform.Lawful]

/-- A property leaves the others. -/
theorem PMGDProp.apply_other (p : PMGDProp) {key : String} (hkey : p.key ≠ key) (props : Props) :
    p.apply props (stringID key) = props (stringID key) := by
  have hother : stringID key ≠ stringID p.key := fun hsame =>
    hkey (Platform.Lawful.stringID_injective hsame).symm
  rw [PMGDProp.apply]
  cases p.value with
  | error e => rfl
  | ok v =>
      cases v with
      | none => rfl
      | some v => exact Function.update_of_ne hother ..

/-- A property that is set, and not set again. -/
theorem foldl_apply_of_mem {as bs : List PMGDProp} {p : PMGDProp} {v : Property}
    (hv : p.value = .ok (some v)) (hbs : ∀ p' ∈ bs, p'.key ≠ p.key) (props : Props) :
    (as ++ p :: bs).foldl (fun props p => p.apply props) props (stringID p.key) = some v := by
  rw [List.foldl_append, List.foldl_cons]
  generalize hq : p.apply (as.foldl (fun props p => p.apply props) props) = q
  have hset : q (stringID p.key) = some v := by
    rw [← hq]
    simp only [PMGDProp.apply, hv]
    exact Function.update_self ..
  clear hq
  induction bs generalizing q with
  | nil => exact hset
  | cons b bs ih =>
      have hsame : b.apply q (stringID p.key) = some v :=
        (b.apply_other (hbs b (List.mem_cons_self ..)) q).trans hset
      exact ih (fun p' hp' => hbs p' (List.mem_cons_of_mem _ hp')) _ hsame

/-- **The properties of a new node** have the values of the members. Induction on the
members. -/
theorem nodeProperties_get {now : ℕ} {ms : List (String × Json)} {ps extra : List PMGDProp}
    {key : String} {val : Json} {p : PMGDProp} {v : Property}
    (h : PMGDQuery.nodeProperties now ms = .ok ps) (hms : (ms.map Prod.fst).Pairwise (· < ·))
    (hmem : (key, val) ∈ ms) (hkey : key ≠ "_expiration" ∧ key ≠ "_creation")
    (hp : jsonProperty key val = .ok p) (hv : p.value = .ok (some v))
    (hextra : ∀ p ∈ extra, p.key ≠ key) (props : Props) :
    (ps ++ extra).foldl (fun props p => p.apply props) props (stringID key) = some v := by
  have hpkey := jsonProperty_key hp
  suffices hsplit : ∃ as bs, ps = as ++ p :: bs ∧ ∀ p' ∈ bs, p'.key ≠ key by
    obtain ⟨as, bs, rfl, hbs⟩ := hsplit
    rw [List.append_assoc, List.cons_append, ← hpkey]
    refine foldl_apply_of_mem hv (fun p' hp' => ?_) props
    rw [hpkey]
    exact (List.mem_append.1 hp').elim (hbs p') (hextra p')
  clear hextra
  induction ms generalizing ps with
  | nil => cases hmem
  | cons m ms ih =>
      obtain ⟨first, rest, rfl, hrest, hfirst, hsingle⟩ := nodeProperties_cons_inv h
      rw [List.map_cons, List.pairwise_cons] at hms
      rcases List.mem_cons.1 hmem with rfl | hin
      · have hfirst := hsingle hkey.1
        rw [hp] at hfirst
        obtain rfl := Except.ok.inj hfirst
        refine ⟨[], rest, rfl, fun p' hp' hsame => ?_⟩
        -- The keys of the other members come later.
        have hother : ∀ {ms ps}, PMGDQuery.nodeProperties now ms = .ok ps →
            (∀ k ∈ ms.map Prod.fst, key < k) → ∀ p' ∈ ps, p'.key ≠ key := by
          intro ms ps h hlater
          induction ms generalizing ps with
          | nil =>
              obtain rfl := Except.ok.inj h
              exact fun p' hp' => (by cases hp')
          | cons m ms ih =>
              obtain ⟨first, rest, rfl, hrest, hfirst, -⟩ := nodeProperties_cons_inv h
              intro p' hp' hsame
              rcases List.mem_append.1 hp' with hp' | hp'
              · rcases hfirst p' hp' with heq | heq
                · have hlt := hlater m.1 (by simp)
                  rw [← heq, hsame] at hlt
                  exact String.lt_irrefl key hlt
                · exact hkey.2 (hsame.symm.trans heq)
              · exact ih hrest (fun k hk => hlater k (List.mem_cons_of_mem _ hk)) p' hp' hsame
        exact hother hrest hms.1 p' hp' hsame
      · obtain ⟨as, bs, rfl, hbs⟩ := ih hrest hms.2 hin
        exact ⟨first ++ as, bs, by simp, hbs⟩

/-- The addition of `AddDescriptorSet` makes a set. -/
theorem addNode_makesSet {q q' : PMGDQuery} {ref : ℤ} {storageSets name engine : String} {dim : ℤ}
    {ms : List (String × Json)} (h : q.addNode ref "VD:DESCSET" (.object ms)
      (DescriptorsCommand.nameConstraint name) = .ok q')
    (hms : (ms.map Prod.fst).Pairwise (· < ·)) (hdim : IsDimension dim)
    (hname : ("VD:name", Json.string name) ∈ ms) (hdimension : ("VD:dimensions", Json.int dim) ∈ ms)
    (hpath : ("VD:descSetPath", Json.string (storageSets ++ "/" ++ name)) ∈ ms)
    (hengine : ("VD:engine", Json.string engine) ∈ ms) :
    ∃ cmd, q'.cmds = q.cmds ++ [cmd] ∧ cmd.cmdId = .addNode ∧
      cmd.addNode.AddsSet name (storageSets ++ "/" ++ name) dim := by
  obtain ⟨ps, hps, h⟩ := bind_ok_inv h
  obtain ⟨extra, flag, hlater, h⟩ : ∃ (extra : List PMGDProp) (flag : Bool),
      (∀ p ∈ extra, p.key = "_creation" ∨ p.key = "_expiration") ∧
        (parseQueryConstraints q.now (DescriptorsCommand.nameConstraint name) >>= fun p =>
          Except.ok ({ q with readonly := false }.push
            { cmdId := .addNode
              addNode := { identifier := ref
                           node := { tag := "VD:DESCSET", properties := ps ++ extra }
                           queryNode := some { identifier := ref, constraints :=
                             PMGDQuery.constraintsOf "VD:DESCSET" true p
                                               results := { rType := .nodeID } }
                           expirationFlag := flag } })) = .ok q' := by
    dsimp only at h
    split at h
    · obtain ⟨extra, hextra, h⟩ := bind_ok_inv h
      refine ⟨extra, _, fun p hp => ?_, h⟩
      obtain ⟨c, hc, hextra⟩ := bind_ok_inv hextra
      obtain ⟨e, he, hextra⟩ := bind_ok_inv hextra
      obtain rfl := Except.ok.inj hextra
      rcases List.mem_cons.1 hp with rfl | hp
      · exact .inl (jsonProperty_key hc)
      · obtain rfl := List.mem_singleton.1 hp
        exact .inr (jsonProperty_key he)
    · exact ⟨[], _, fun p hp => (by cases hp), h⟩
  have hget : ∀ {key : String} {val : Json} {p : PMGDProp} {v : Property}, (key, val) ∈ ms →
      key ≠ "_expiration" ∧ key ≠ "_creation" → jsonProperty key val = .ok p →
      p.value = .ok (some v) → (ps ++ extra).foldl (fun props p => p.apply props) (fun _ => none)
        (stringID key) = some v := by
    intro key val p v hmem hkey hp hv
    refine nodeProperties_get hps hms hmem hkey hp hv (fun p' hp' hsame => ?_) _
    rcases hlater p' hp' with heq | heq
    · exact hkey.2 (hsame.symm.trans heq)
    · exact hkey.1 (hsame.symm.trans heq)
  have hint : jsonProperty "VD:dimensions" (.int dim) =
      .ok { type := .integerType, key := "VD:dimensions", intValue := dim } := by
    have hrange : -2 ^ 63 ≤ dim ∧ dim ≤ 2 ^ 63 - 1 := by
      rw [IsDimension] at hdim
      omega
    simp only [jsonProperty, Json.asInt64, Json.asInteger, if_pos hrange]
    rfl
  have hset : IsSet ((ps ++ extra).foldl (fun props p => p.apply props) fun _ => none) name
      (storageSets ++ "/" ++ name) dim :=
    ⟨hget hname (by decide) rfl rfl, hget hpath (by decide) rfl rfl,
      hget hdimension (by decide) hint rfl, engine, hget hengine (by decide) rfl rfl⟩
  have hne : storageSets ++ "/" ++ name ≠ "" := by
    intro hnil
    have hlength := congrArg String.length hnil
    simp only [String.length_append] at hlength
    have hslash : "/".length = 1 := rfl
    rw [hslash, String.length_empty] at hlength
    omega
  obtain ⟨p, hp, h⟩ := bind_ok_inv h
  obtain rfl := Except.ok.inj h
  obtain rfl := Except.ok.inj hp
  exact ⟨_, rfl, rfl, ⟨rfl, hset, hne, hdim, _, rfl, rfl, ⟨rfl, rfl, rfl⟩, rfl⟩⟩

/-- **The commands of `AddDescriptorSet`** keep the sets. -/
theorem AddDescriptorSet.addSet_keepsSets {q q' : PMGDQuery} {storageSets : String}
    {cmd user : Json} (h : AddDescriptorSet.addSet storageSets q cmd = .ok q')
    (huser : cmd.get "properties" = .ok user) (hordered : user.Ordered) (sets : SetTables)
    (u : Handler) :
    q.Extends q' fun cmd => cmd.cmdId.isTx = false ∧ cmd.KeepsSets sets u := by
  obtain ⟨ref, -, h⟩ := bind_ok_inv h
  obtain ⟨jname, hjname, h⟩ := bind_ok_inv h
  obtain ⟨name, hname, h⟩ := bind_ok_inv h
  obtain ⟨props, hprops, h⟩ := bind_ok_inv h
  obtain ⟨q₁, hadd, h⟩ := bind_ok_inv h
  obtain ⟨cmds, hlink, hcmds⟩ := RSCommand.addLinkOf_extends h
  obtain ⟨name', dim, engine, ms, rfl, hms, hname', hdim, hn, hd, hp, he⟩ :=
    AddDescriptorSet.props_inv hprops huser hordered
  have hsame : name = name' := by
    rw [hjname] at hname'
    exact Except.ok.inj (hname.symm.trans hname')
  subst hsame
  obtain ⟨jdim, -, hdim⟩ := bind_ok_inv hdim
  have hms : (ms.map Prod.fst).Pairwise (· < ·) := by
    rcases hms with hnull | ⟨ms', heq, hms⟩
    · cases hnull
    · injection heq with heq
      exact heq ▸ hms
  obtain ⟨cn, heq, hid, hadds⟩ :=
    addNode_makesSet hadd hms (Json.asInt_dimension hdim) hn hd hp he
  have hfirst : q.Extends q₁ fun cmd => cmd.cmdId.isTx = false ∧ cmd.KeepsSets sets u := by
    refine ⟨[cn], heq, fun cmd hcmd => ?_⟩
    obtain rfl := List.mem_singleton.1 hcmd
    refine ⟨by rw [hid]; rfl, ?_⟩
    rw [Command.KeepsSets]
    rw [hid]
    exact .inr ⟨name, _, dim, hadds⟩
  refine hfirst.trans ⟨cmds, hlink, fun cmd hcmd => ?_⟩
  refine ⟨by rw [hcmds cmd hcmd]; rfl, ?_⟩
  rw [Command.KeepsSets]
  rw [hcmds cmd hcmd]
  trivial

end Properties

section Additions

variable {cn : AddNode} {s : Handler}

/-- Induction on the properties. -/
theorem setNodeProperties_ensures {x : Element} (flag : Bool) (time : ℕ) (ps : List PMGDProp) :
    Ensures (setNodeProperties x flag time ps) s fun _ t =>
      t.db = s.db.modifyProps x fun props => ps.foldl (fun props p => p.apply props) props := by
  induction ps generalizing s time with
  | nil => exact Sat.pure (Graph.modifyProps_id s.db x).symm
  | cons p ps ih =>
      refine Sat.bind (setProperty_sets p) fun _ t ht => ?_
      obtain ⟨v, hv, rfl⟩ := ht
      have hfirst : v.elim s.db (fun v => s.db.setProperty x (stringID p.key) v) =
          s.db.modifyProps x p.apply := by
        cases v with
        | none =>
            have happly : p.apply = fun props => props := funext fun props => by
              rw [PMGDProp.apply, hv]
            rw [happly]
            exact (Graph.modifyProps_id s.db x).symm
        | some v =>
            have happly : p.apply = fun props => Function.update props (stringID p.key) (some v) :=
              funext fun props => by rw [PMGDProp.apply, hv]
            rw [happly]
            rfl
      rw [hfirst]
      refine Ensures.mono (ih _) fun _ u hu => ?_
      rw [hu, Handler.setDb_db, Graph.modifyProps_modifyProps]
      rfl

/-- **An added node.** -/
theorem addNewNode_ensures : Ensures (addNewNode cn) s fun _ t =>
    t.db = s.db.withNode (stringID cn.node.tag) cn.props := by
  refine Sat.bind (P := fun n t => n = s.db.nodes.length ∧
    t.db = s.db.addNode (stringID cn.node.tag)) ?_ fun n t ht => ?_
  · exact Reads.bind (call_reads _) fun _ _ =>
      Sat.get_bind (Sat.modify_bind (Sat.pure ⟨rfl, rfl⟩))
  obtain ⟨rfl, hdb⟩ := ht
  refine Sat.bind (P := fun _ u => u.db = t.db) ?_ fun _ u hu => ?_
  · exact Sat.ite (fun _ => Sat.modify rfl) fun _ => Sat.pure rfl
  refine Sat.bind (setNodeProperties_ensures _ _ _) fun time v hv => ?_
  rw [hu, hdb, Graph.addNode_modifyProps] at hv
  refine Sat.bind (P := fun _ w => w.db = v.db) ?_ fun _ w hw => ?_
  · exact Sat.ite (fun _ => Sat.modify rfl) fun _ => Sat.pure rfl
  exact Sat.modify_bind (Sat.modify_bind (Sat.pure (hw.trans hv)))

variable [Platform.Lawful] [Platform.Quiet]

/-- The query of a conditional addition reports `Empty` only if there is nothing to find. -/
theorem queryNodeFrom_conditional {qn : QueryNode} {e : SearchExpression} (hqn : qn.Conditional)
    (he : qn.constraints.search = .ok e) (hand : e.isOr = false) (hs : s.Open) :
    ∃ v t, Runs (queryNodeFrom qn none) s (.ret v t) ∧ t.db = s.db ∧
      (t.response.errorCode = .empty → ∀ n, n ∉ e.matchList s.db) := by
  obtain ⟨ni, hsearch, hview⟩ := queryNodeSearch_and hs he hand
  match hl : e.matchList s.db with
  | [] =>
      rw [hl] at hview
      have hbool := searchView_tracks.bool_eq hview
      by_cases hid : 0 ≤ qn.identifier
      · exact ⟨_, _, queryNodeFrom_null hsearch hbool hid, rfl, fun _ => by simp⟩
      · exact ⟨_, _, queryNodeFrom_unnamed hqn hsearch hbool hid, rfl, fun _ => by simp⟩
  | [n] =>
      rw [hl] at hview
      obtain ⟨t, hrun, hdb, -, hcode, -⟩ := queryNodeFrom_single hqn hs hsearch hview
      exact ⟨_, t, hrun, hdb, fun hempty => by rw [hcode] at hempty; cases hempty⟩
  | n :: m :: l =>
      rw [hl] at hview
      have hfound : SearchView ni s.found (n :: m :: l) := hview
      exact ⟨_, _, queryNodeFrom_twice hqn hsearch (SearchView.pullsTwice hfound), rfl,
        fun hempty => (by cases hempty)⟩

variable [Platform.Integers] [Platform.Strings] {name path : String} {dim : ℤ}

/-- **An added set.** -/
theorem addNode_addsSet (hcn : cn.AddsSet name path dim) (hs : s.Open) :
    Ensures (addNode cn) s fun _ t => t.db = s.db ∨
      (∀ n, ¬ s.db.Named n name) ∧ t.db = s.db.withNode descSetTag cn.props := by
  obtain ⟨qn, hquery, hid, hqn, he⟩ := hcn.query
  have hsame : Indifferent fun t => t.db = s.db ∨
      (∀ n, ¬ s.db.Named n name) ∧ t.db = s.db.withNode descSetTag cn.props :=
    ⟨fun _ _ h => h, fun _ _ _ h => h, fun _ _ _ h => h⟩
  refine Sat.get_bind (Sat.ite (fun _ => fail_keeps _ _ hsame (.inl rfl)) fun hreuse => ?_)
  rw [hquery]
  obtain ⟨v, t, hrun, hdb, hempty⟩ := queryNodeFrom_conditional hqn he rfl hs
  have hown : ∀ n, queryNode qn n s = queryNodeFrom qn none n s := fun n => by
    simp only [queryNode, bind_apply, get_apply, Outcome.andThen_ret, hid, if_neg hreuse, hqn.link]
  have hquery : Ensures (queryNodeFrom qn none) s fun _ t => t.db = s.db ∧
      (t.response.errorCode = .empty → ∀ n, ¬ s.db.Named n name) :=
    Sat.of_runs hrun ⟨hdb, fun hcode n hn => hempty hcode n (mem_setExpr.2 hn)⟩
  refine Sat.bind (P := fun _ t => t.db = s.db ∧
    (t.response.errorCode = .empty → ∀ n, ¬ s.db.Named n name)) (fun n => ?_) fun _ t ht => ?_
  · rw [hown n]
    exact hquery n
  · refine Sat.get_bind (Sat.ite (fun _ => Sat.modify_bind (Sat.pure (.inl ht.1))) fun _ => ?_)
    refine Sat.ite (fun _ => Sat.pure (.inl ht.1)) fun hcode => ?_
    refine Ensures.mono addNewNode_ensures fun _ u hu => .inr ⟨ht.2 (not_not.1 hcode), ?_⟩
    rw [hu, ht.1, hcn.tag]
    rfl

end Additions

section Dispatch

variable {sets : SetTables} {s : Handler} {cmd : Command}

/-- The sets of the graph of the handler. -/
def Handler.SetsHold (sets : SetTables) (s : Handler) : Prop := Vdms.SetsHold sets s.db

theorem setsHold_indifferent : Indifferent (Handler.SetsHold sets) :=
  ⟨fun _ _ h => h, fun _ _ _ h => h, fun _ _ _ h => h⟩

theorem setsHold_ignoresEdges : IgnoresEdges (Handler.SetsHold sets) where
  add _ _ _ _ h := SetsHold.congr h fun _ => rfl
  modify _ _ _ h := SetsHold.congr h fun _ => rfl

/-- A listed element: a list deletes no set. -/
theorem listElement_setsHold (x : Element) : ListKeeps (Handler.SetsHold sets) x := by
  intro keys s hs
  refine Ensures.mono (listElement_ensures x keys) fun _ t ht => ?_
  obtain ⟨-, -, ⟨-, hdb⟩ | ⟨hpurge, hdb⟩⟩ := ht.data
  · rw [Handler.SetsHold]
    rw [hdb]
    exact hs
  · rw [Handler.SetsHold]
    rw [hdb]
    refine SetsHold.remove hs fun n name hx hn => ?_
    obtain ⟨props, hset, -⟩ := hn
    obtain ⟨nd, hnd, htag, -⟩ := descSet_eq_some.1 hset
    refine absurd ?_ hpurge.2
    rw [hx, Graph.tag, hnd]
    exact htag

/-- **Expiry.** Induction on the queue. The sets that are left are among those that were
there. -/
theorem deleteExpiredFrom_setsHold (now : ℕ) {g : Graph} {queue : List AutoDeleteNode}
    (hqueue : ∀ a ∈ queue, a.timestamp < now → ∀ n name, a.node = .node n → g.Named n name →
      name ∉ sets)
    (hs : s.SetsHold sets) (hsub : ∀ n name, s.db.Named n name → g.Named n name) :
    Ensures (deleteExpiredFrom now queue) s fun _ t => t.SetsHold sets := by
  induction queue generalizing s with
  | nil => exact Sat.pure hs
  | cons a as ih =>
      refine Sat.ite (fun hpast => ?_) fun _ => Sat.pure hs
      let Same (t : Handler) : Prop := t.db = s.db
      refine Sat.bind (P := fun _ t => Same t) ?_ fun _ t ht => ?_
      · refine Sat.forEach (I := fun t => Same t) (fun key _ t ht => ?_) rfl
        exact deleteFile_keeps (fun _ _ hu => hu) _ key ht
      · refine Reads.bind (call_reads _) fun _ _ => Sat.modify_bind (ih ?_ ?_ ?_)
        · exact fun b hb => hqueue b (List.mem_cons_of_mem _ hb)
        · refine SetsHold.remove (x := a.node) ?_ fun n name hx hn => ?_
          · rw [ht]
            exact hs
          · rw [ht] at hn
            exact hqueue a (List.mem_cons_self ..) hpast n name hx (hsub n name hn)
        · rintro n name ⟨props, hset, hname⟩
          have hset : (t.db.remove a.node).descSet n = some props := hset
          rw [descSet_remove, ht] at hset
          split at hset
          · cases hset
          · exact hsub n name ⟨props, hset, hname⟩

variable [Platform.Lawful]

/-- An update of a node that writes none of the properties of a set. -/
theorem updateElement_setsHold {un : UpdateNode} (hun : un.SparesSets) (n : NodeID)
    (hs : s.SetsHold sets) :
    Ensures (updateElement (.node n) un.properties un.removeProps) s fun _ t =>
      t.SetsHold sets := by
  have hother : ∀ {key : String} (v : Option Property),
      key ∉ ["VD:name", "VD:descSetPath", "VD:dimensions", "VD:engine"] →
        ∀ p, SameSet p (Function.update p (stringID key) v) := by
    intro key v hkey p key' hkey'
    refine Function.update_of_ne (fun hsame => hkey ?_) _ _
    exact Platform.Lawful.stringID_injective hsame ▸ hkey'
  refine Sat.bind (Sat.forEach (I := Handler.SetsHold sets) (fun p hp t ht => ?_) hs)
    fun _ t ht => ?_
  · refine Ensures.mono (setProperty_sets p) fun _ u hu => ?_
    obtain ⟨v, -, rfl⟩ := hu
    cases v with
    | none => exact ht
    | some v => exact SetsHold.modifyProps ht (hother _ fun hkey => (hun p.key hkey).1 p hp rfl)
  · refine Sat.forEach (I := Handler.SetsHold sets) (fun key hkey u hu => ?_) ht
    refine Reads.bind (call_reads _) fun _ _ => Sat.modify ?_
    exact SetsHold.modifyProps hu (hother _ fun hset => (hun key hset).2 hkey)

variable [Platform.Quiet] [Platform.Integers] [Platform.Strings]

/-- **Commands.** -/
theorem dispatch_setsHold (htx : cmd.cmdId.isTx = false) (hcmd : cmd.KeepsSets sets s)
    (hopen : s.Open) (hs : s.SetsHold sets) :
    Ensures (dispatch cmd) (s.begin cmd) fun _ t => t.SetsHold sets := by
  have hbegin : (s.begin cmd).SetsHold sets := hs
  have hlistNode : ∀ n, ListKeeps (Handler.SetsHold sets) (.node n) := fun n =>
    listElement_setsHold _
  have hlistEdge : ∀ e, ListKeeps (Handler.SetsHold sets) (.edge e) := fun e =>
    listElement_setsHold _
  rw [Command.KeepsSets] at hcmd
  rw [dispatch]
  cases hid : cmd.cmdId
  all_goals rw [hid] at hcmd htx
  case txBegin | txCommit | txAbort => cases htx
  case queryNode =>
    exact queryNode_invariant setsHold_indifferent (fun _ => hlistNode) hbegin
  case queryEdge =>
    exact queryEdge_invariant setsHold_indifferent (fun _ => hlistEdge) hbegin
  case addEdge =>
    exact addEdge_invariant _ setsHold_indifferent setsHold_ignoresEdges hbegin
  case updateEdge =>
    exact Sat.bind (updateEdge_invariant setsHold_indifferent setsHold_ignoresEdges
      (fun _ _ _ => hlistEdge) hbegin) fun _ _ ht => Sat.pure ht
  case addNode =>
    rcases hcmd with htag | ⟨name, path, dim, hadds⟩
    · refine addNode_invariant setsHold_indifferent (fun _ _ _ => hlistNode) (fun t ht => ?_) hbegin
      refine Ensures.mono addNewNode_ensures fun _ u hu => ?_
      rw [Handler.SetsHold]
      rw [hu]
      exact SetsHold.withNode ht (fun hsame => htag (Platform.Lawful.stringID_injective hsame)) _
    · have hopen : (s.begin cmd).Open := hopen
      refine Ensures.mono (addNode_addsSet hadds hopen) fun _ t ht => ?_
      rw [Handler.SetsHold]
      rcases ht with hdb | ⟨hfree, hdb⟩
      · rw [hdb]
        exact hs
      · rw [hdb]
        exact SetsHold.withSet hs hadds.set hadds.path hadds.dim hfree
  case updateNode =>
    exact Sat.bind (updateNode_invariant setsHold_indifferent (fun _ _ _ => hlistNode)
      (fun n _ ht => updateElement_setsHold hcmd n ht) hbegin) fun _ _ ht => Sat.pure ht
  case deleteExpired =>
    exact Sat.get_bind (Sat.bind (deleteExpiredFrom_setsHold _ hcmd hbegin fun _ _ hn => hn)
      fun _ _ ht => Sat.pure ht)

/-- The request is a transaction of the server in operation, and its commands keep the
sets. -/
structure Request.KeepsSets (r : Request) (sets : SetTables) (s : Handler) : Prop where
  transaction : IsTransaction r.cmds
  commands : EachCommand (fun cmd u => cmd.KeepsSets sets u) r.cmds (r.opens s)

omit [Platform.Lawful] [Platform.Quiet] [Platform.Integers] [Platform.Strings] in
/-- A command between the first and the last of a transaction finds the transaction open. -/
theorem IsTransaction.opened {cmds : List Command} (hcmds : IsTransaction cmds) :
    EachCommand (fun cmd u => cmd.cmdId.isTx = false → u.Open) cmds s := by
  intro cmd rest u hreach htx
  generalize hp : (⟨cmd :: rest, u⟩ : Progress) = p at hreach
  have hstage := hcmds.stage hreach
  subst hp
  generalize hp : (⟨cmd :: rest, u⟩ : Progress) = p at hstage
  cases hstage with
  | start =>
      obtain ⟨first, body, last, rfl, hfirst, -⟩ := hcmds
      injection hp with hp _
      injection hp with hhead _
      rw [hhead, hfirst] at htx
      cases htx
  | opened _ _ hu =>
      injection hp with _ hsame
      subst hsame
      rw [Handler.Open, Handler.txMode, hu]
      rfl
  | committed _ => cases hp

omit [Platform.Quiet] [Platform.Integers] [Platform.Strings] in
/-- **The transaction of `AddDescriptorSet`** keeps the sets, whatever has been looked up. -/
theorem AddDescriptorSet.request_keepsSets {q : PMGDQuery} {storageSets : String} {user : Json}
    {command : Json} {limit : ℤ} {now : ℕ}
    (h : AddDescriptorSet.addSet storageSets (PMGDQuery.new limit now).addGroup command = .ok q)
    (huser : command.get "properties" = .ok user) (hordered : user.Ordered) :
    (q.request false).KeepsSets sets s := by
  have hkeeps := fun u => AddDescriptorSet.addSet_keepsSets h huser hordered sets u
  obtain ⟨cmds, heq, hcmds⟩ := hkeeps s
  have hclosed : (q.request false).cmds = { cmdId := .txBegin } :: (cmds ++
      [{ cmdId := .txCommit, cmdGrpId := q.currentGroupId + 1 }]) := by
    show q.cmds ++ _ = _
    rw [heq]
    rfl
  refine ⟨⟨_, cmds, _, hclosed, rfl, fun cmd hcmd => (hcmds cmd hcmd).1, rfl⟩, ?_⟩
  refine eachCommand_of_forall fun cmd hcmd u => ?_
  rw [hclosed, List.mem_cons, List.mem_append, List.mem_singleton] at hcmd
  rcases hcmd with rfl | hcmd | rfl
  · trivial
  · obtain ⟨cmds', heq', hcmds'⟩ := hkeeps u
    obtain rfl := List.append_cancel_left (heq.symm.trans heq')
    exact (hcmds' cmd hcmd).2
  · trivial

/-- **One request**, committed or rolled back. -/
theorem process_setsHold {r : Request} {rs : Responses} {t : Handler} (hr : r.KeepsSets sets s)
    (hs : s.SetsHold sets) (hrun : Runs r.process s (.ret rs t)) : t.SetsHold sets := by
  rcases process_outcome hr.transaction hrun with ⟨u, hcommit⟩ | ⟨w, hback⟩
  · have hu : u.SetsHold sets := by
      refine hcommit.invariant
        (P := fun cmd v => cmd.KeepsSets sets v ∧ (cmd.cmdId.isTx = false → v.Open))
        (fun _ _ _ _ hv => hv) (fun cmd v htx hcmd hv => ?_) (fun cmd rest v hreach => ?_) hs
      · exact dispatch_setsHold htx hcmd.1 (hcmd.2 htx) hv
      · exact ⟨hr.commands cmd rest v hreach, hr.transaction.opened cmd rest v hreach⟩
    rw [Handler.SetsHold]
    rw [hcommit.db]
    exact hu
  · rw [Handler.SetsHold]
    rw [hback.db]
    exact hs

end Dispatch

/-! ### Runs -/

/-- Another handler, or the same one later: the graph is the same, and no transaction is
open. -/
def Handler.SharesGraph (s t : Handler) : Prop := t.db = s.db ∧ t.tx = none

/-- Requests and lookups, from a server that has looked up nothing yet. Every request meets
the condition in the state in which it starts. -/
inductive SetRun (allowed : SetTables → Request → Handler → Prop) :
    DescriptorState Handler → Prop
  | start {s : Handler} : s.tx = none → SetsHold ∅ s.db → SetRun allowed ⟨s, ∅⟩
  | request {d : DescriptorState Handler} {h t : Handler} {r : Request} {rs : Responses} :
      SetRun allowed d → d.store.SharesGraph h → allowed d.sets r h →
      Runs r.process h (.ret rs t) → SetRun allowed { d with store := t }
  | lookUp {d d' : DescriptorState Handler} {h : Handler} {query : PMGDQuery} {name : String}
      {a : String × Option ℤ} : SetRun allowed d → d.store.SharesGraph h →
      Runs (lookUp query name) { d with store := h } (.ret a d') → SetRun allowed d'
  | lookUpFails {d d' : DescriptorState Handler} {h : Handler} {query : PMGDQuery}
      {name : String} {e : RequestError} : SetRun allowed d → d.store.SharesGraph h →
      Runs (lookUp query name) { d with store := h } (.throw e d') → SetRun allowed d'

/-- The graph holds a set with the name and the dimensions. -/
def Graph.HoldsSet (g : Graph) (name : String) (dim : ℤ) : Prop :=
  ∃ n props, g.descSet n = some props ∧ props (stringID "VD:name") = some (.string name) ∧
    props (stringID "VD:dimensions") = some (.integer dim)

/-- Looking a set up yields a path and its dimensions exactly if the graph holds it. -/
def DescriptorState.Coherent (d : DescriptorState Handler) : Prop :=
  ∀ query name dim, (∃ path d', path ≠ "" ∧
    Runs (lookUp query name) d (.ret (path, some dim) d')) ↔ d.store.db.HoldsSet name dim

/-- What holds between requests: the tables fit the graph, and no transaction is open. -/
structure DescriptorState.Sound (d : DescriptorState Handler) : Prop where
  holds : SetsHold d.sets d.store.db
  tx : d.store.tx = none

section Runs

variable [Platform.Lawful] [Platform.Quiet] [Platform.Integers] [Platform.Strings]
  {d : DescriptorState Handler} {query : PMGDQuery} {name : String}

omit [Platform.Lawful] [Platform.Quiet] [Platform.Integers] [Platform.Strings] in
/-- What has been looked up is the set with the name. -/
theorem SetsHold.known_of_named {sets : SetTables} {g : Graph} (h : SetsHold sets g) {n : NodeID}
    {path : String} {dim : ℤ} (hknown : sets[name]? = some (path, dim)) (hn : g.Named n name) :
    ∃ props, g.descSet n = some props ∧ IsSet props name path dim := by
  obtain ⟨m, props, hm, hset⟩ := h.known name path dim hknown
  obtain rfl := h.once m n name ⟨props, hm, hset.name⟩ hn
  exact ⟨props, hm, hset⟩

omit [Platform.Lawful] [Platform.Quiet] [Platform.Integers] [Platform.Strings] in
/-- The properties of the set with the name. -/
theorem SetsHold.formed_of_named {sets : SetTables} {g : Graph} (h : SetsHold sets g) {n : NodeID}
    (hn : g.Named n name) : ∃ props path dim, g.descSet n = some props ∧
      IsSet props name path dim ∧ path ≠ "" ∧ IsDimension dim := by
  obtain ⟨props, hset, hname⟩ := hn
  obtain ⟨name', path, dim, hproper, hpath, hdim⟩ := h.formed n props hset
  have hsame := hproper.name
  rw [hname] at hsame
  injection hsame with hsame
  injection hsame with hsame
  subst hsame
  exact ⟨props, path, dim, hset, hproper, hpath, hdim⟩

/-- **A lookup.** It finds the set with the name, if there is one, and remembers it. -/
theorem DescriptorState.Sound.lookUp (h : d.Sound) (query : PMGDQuery) (name : String) :
    ∃ a d', Runs (lookUp query name) d (.ret a d') ∧ d'.Sound ∧ d'.store.db = d.store.db ∧
      ((∀ n, ¬ d.store.db.Named n name) → a = ("", none)) ∧
      ∀ n props path dim, d.store.db.descSet n = some props → IsSet props name path dim →
        a = (path, some dim) := by
  have huniq : ∀ {n m props props' path path' dim dim'}, d.store.db.descSet n = some props →
      IsSet props name path dim → d.store.db.descSet m = some props' →
      IsSet props' name path' dim' → path' = path ∧ dim' = dim := by
    intro n m props props' path path' dim dim' hn hset hm hset'
    obtain rfl := h.holds.once n m name ⟨props, hn, hset.name⟩ ⟨props', hm, hset'.name⟩
    rw [hn] at hm
    obtain rfl := Option.some.inj hm
    have hpath := hset'.path.symm.trans hset.path
    have hdim := hset'.dim.symm.trans hset.dim
    injection hpath with hpath
    injection hpath with hpath
    injection hdim with hdim
    injection hdim with hdim
    exact ⟨hpath, hdim⟩
  cases hnew : d.sets[name]? with
  | some p =>
      obtain ⟨path, dim⟩ := p
      obtain ⟨m, props, hm, hset⟩ := h.holds.known name path dim hnew
      refine ⟨_, d, lookUp_remembered hnew, h, rfl, fun hnone => ?_, ?_⟩
      · exact absurd ⟨props, hm, hset.name⟩ (hnone m)
      · intro n props' path' dim' hn hset'
        obtain ⟨rfl, rfl⟩ := huniq hm hset hn hset'
        rfl
  | none =>
      by_cases hex : ∃ n, d.store.db.Named n name
      · obtain ⟨n, hn⟩ := hex
        obtain ⟨props, path, dim, hset, hproper, hpath, hdim⟩ := h.holds.formed_of_named hn
        have hone : ∀ m, d.store.db.Named m name ↔ m = n := fun m =>
          ⟨fun hm => h.holds.once m n name hm hn, fun hm => hm ▸ hn⟩
        obtain ⟨t, hrun, hdb, htx⟩ :=
          lookUp_found query hnew h.tx hone hset hproper hdim
        refine ⟨_, _, hrun, ⟨⟨?_, ?_, ?_⟩, htx⟩, hdb, fun hnone => absurd hn (hnone n), ?_⟩
        · rw [hdb]
          exact h.holds.formed
        · rw [hdb]
          exact h.holds.once
        · intro name' path' dim' hknown
          rw [hdb]
          by_cases hname : name = name'
          · subst hname
            rw [TreeMap.getElem?_insert_self] at hknown
            injection hknown with hknown
            injection hknown with hpath hdim
            subst hpath hdim
            exact ⟨n, props, hset, hproper⟩
          · rw [TreeMap.getElem?_insert, if_neg (by simpa using hname)] at hknown
            exact h.holds.known name' path' dim' hknown
        · intro m props' path' dim' hm hset'
          obtain ⟨rfl, rfl⟩ := huniq hset hproper hm hset'
          rfl
      · have hnone : ∀ n, ¬ d.store.db.Named n name := fun n hn => hex ⟨n, hn⟩
        obtain ⟨t, hrun, hdb, htx⟩ := lookUp_absent query hnew h.tx hnone
        refine ⟨_, _, hrun, ⟨?_, htx⟩, hdb, fun _ => rfl, fun n props path dim hn hset => ?_⟩
        · change SetsHold d.sets t.db
          rw [hdb]
          exact h.holds
        · exact absurd ⟨props, hn, hset.name⟩ (hnone n)

/-- A sound state is coherent. -/
theorem DescriptorState.Sound.coherent (h : d.Sound) : d.Coherent := by
  intro query name dim
  obtain ⟨a, d', hrun, -, -, habsent, hfound⟩ := h.lookUp query name
  constructor
  · rintro ⟨path, d'', hpath, hrun'⟩
    have hsame := hrun.unique hrun'
    injection hsame with ha
    by_cases hex : ∃ n, d.store.db.Named n name
    · obtain ⟨n, hn⟩ := hex
      obtain ⟨props, path', dim', hset, hproper, -, -⟩ := h.holds.formed_of_named hn
      rw [hfound n props path' dim' hset hproper] at ha
      injection ha with _ hdim
      injection hdim with hdim
      subst hdim
      exact ⟨n, props, hset, hproper.name, hproper.dim⟩
    · rw [habsent fun n hn => hex ⟨n, hn⟩] at ha
      injection ha with ha
      exact absurd ha.symm hpath
  · rintro ⟨n, props, hset, hname, hdim⟩
    obtain ⟨props', path, dim', hset', hproper, hpath, -⟩ :=
      h.holds.formed_of_named ⟨props, hset, hname⟩
    rw [hset] at hset'
    obtain rfl := Option.some.inj hset'
    have hsame := hproper.dim
    rw [hdim] at hsame
    injection hsame with hsame
    injection hsame with hsame
    subst hsame
    exact ⟨path, d', hpath, hfound n props path dim hset hproper ▸ hrun⟩

/-- **The tables and the graph.** In every run whose requests keep the sets, looking a set up
tells what the graph holds. -/
theorem set_paths_coherent (h : SetRun (fun sets r s => r.KeepsSets sets s) d) : d.Coherent := by
  have hshare : ∀ {d : DescriptorState Handler} {t : Handler}, d.Sound →
      d.store.SharesGraph t → ({ d with store := t } : DescriptorState Handler).Sound :=
    fun {d t} hd ht => ⟨by rw [ht.1]; exact hd.holds, ht.2⟩
  suffices hsound : d.Sound from hsound.coherent
  induction h with
  | start htx hholds => exact ⟨hholds, htx⟩
  | request _ hshares hr hrun ih =>
      have hd := hshare ih hshares
      obtain ⟨-, u, rfl, -⟩ := processQueries_inv hrun
      exact ⟨process_setsHold hr hd.holds hrun, Handler.closed_tx u⟩
  | lookUp _ hshares hrun ih =>
      obtain ⟨a, d', hrun', hsound, -⟩ := (hshare ih hshares).lookUp _ _
      have hsame := hrun.unique hrun'
      injection hsame with _ hsame
      exact hsame ▸ hsound
  | lookUpFails _ hshares hrun ih =>
      obtain ⟨a, d', hrun', -⟩ := (hshare ih hshares).lookUp _ _
      have hsame := hrun.unique hrun'
      cases hsame

end Runs

end

/-! ### A set that expires -/

/-- A command that adds a set, with the given properties. -/
def addSetJson (props : Json) : Json :=
  .object [("dimensions", .int 4), ("engine", .string "FaissFlat"), ("name", .string "s"),
    ("properties", props)]

/-- The transaction of the command. -/
def addSetQuery (props : Json) : Except QueryError PMGDQuery :=
  AddDescriptorSet.addSet "db" (PMGDQuery.new 0 0).addGroup (addSetJson props)

/-- The transaction that `DeleteExpired` makes. -/
def expireRequest : Request := (PMGDQuery.new 0 0).addGroup.deleteExpired.request false

/-- A server that holds no set. -/
theorem setsHold_empty : SetsHold ∅ (⟨[], []⟩ : Graph) := by
  refine ⟨fun n p hn => (by cases hn), fun n m name hn _ => ?_, fun name path dim hknown => ?_⟩
  · obtain ⟨p, hp, -⟩ := hn
    cases hp
  · simp at hknown

/-- A set is added and looked up. -/
theorem set_paths_coherent_addition : ∃ d : DescriptorState Handler,
    d.sets["s"]? = some ("db/s", 4) ∧ d.Coherent := by
  obtain ⟨q, rs, t, t', hq, hadd, ht, hrun⟩ : ∃ q rs t t', addSetQuery .null = .ok q ∧
      Runs (q.request false).process { db := ⟨[], []⟩ } (.ret rs t) ∧ t.tx = none ∧
      Runs (lookUp (PMGDQuery.new 0 0) "s") ⟨t, ∅⟩
        (.ret ("db/s", some 4) ⟨t', (∅ : SetTables).insert "s" ("db/s", 4)⟩) :=
    ⟨_, _, _, _, rfl, Runs.of_ret (n := 2) rfl, rfl, Runs.of_ret (n := 12) rfl⟩
  have hadded : (q.request false).KeepsSets ∅ { db := ⟨[], []⟩ } :=
    AddDescriptorSet.request_keepsSets hq rfl (.inl rfl)
  have hknown : ((∅ : SetTables).insert "s" ("db/s", 4))["s"]? = some ("db/s", 4) :=
    TreeMap.getElem?_insert_self
  exact ⟨_, hknown, set_paths_coherent
    (.lookUp (.request (.start rfl setsHold_empty) ⟨rfl, rfl⟩ hadded hadd) ⟨rfl, ht⟩ hrun)⟩

/-- **A set that has expired** is still looked up. -/
theorem expired_set_is_remembered :
    ¬ ∀ d : DescriptorState Handler, SetRun (fun _ r _ => IsTransaction r.cmds) d → d.Coherent := by
  intro h
  obtain ⟨q, rs, t, t', hq, hadd, ht, hrun, ht', rs', u, hexpire, hu⟩ : ∃ q rs t t',
      addSetQuery (.object [("_expiration", .int 10)]) = .ok q ∧
      Runs (q.request false).process { db := ⟨[], []⟩ } (.ret rs t) ∧ t.tx = none ∧
      Runs (lookUp (PMGDQuery.new 0 0) "s") ⟨t, ∅⟩
        (.ret ("db/s", some 4) ⟨t', (∅ : SetTables).insert "s" ("db/s", 4)⟩) ∧
      t'.tx = none ∧ ∃ rs' u,
      Runs expireRequest.process { t' with now := 20 } (.ret rs' u) ∧ u.db = ⟨[none], []⟩ :=
    ⟨_, _, _, _, rfl, Runs.of_ret (n := 2) rfl, rfl, Runs.of_ret (n := 12) rfl, rfl, _, _,
      Runs.of_ret (n := 12) rfl, rfl⟩
  have hadded : (q.request false).KeepsSets ∅ { db := ⟨[], []⟩ } :=
    AddDescriptorSet.request_keepsSets hq rfl (.inr ⟨_, rfl, .single ..⟩)
  have hexpires : IsTransaction expireRequest.cmds :=
    ⟨_, [{ cmdId := .deleteExpired, cmdGrpId := 1 }], _, rfl, rfl, by decide, rfl⟩
  have hlookedUp : SetRun (fun _ r _ => IsTransaction r.cmds)
      ⟨t', (∅ : SetTables).insert "s" ("db/s", 4)⟩ :=
    .lookUp (.request (.start rfl setsHold_empty) ⟨rfl, rfl⟩ hadded.transaction hadd) ⟨rfl, ht⟩ hrun
  have hcoherent := h _
    (.request (h := { t' with now := 20 }) hlookedUp ⟨rfl, ht'⟩ hexpires hexpire)
  have hknown : ((∅ : SetTables).insert "s" ("db/s", 4))["s"]? = some ("db/s", 4) :=
    TreeMap.getElem?_insert_self
  obtain ⟨n, props, hset, -⟩ := (hcoherent (PMGDQuery.new 0 0) "s" 4).1
    ⟨"db/s", _, by decide, lookUp_remembered hknown⟩
  change u.db.descSet n = some props at hset
  rw [hu] at hset
  rcases n with _ | n <;> cases hset

end Vdms
