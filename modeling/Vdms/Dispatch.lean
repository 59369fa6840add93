import Vdms.BlobDistribution

/-!
# Dispatching Requests

The handler looks up a command by the name of the first member of its element and calls
the object it finds. That there is such a member, and that it is the name of a registered
command, is checked only for documents that the schema rejects. The schema accepts the
element without members, and the commands of the Neo4j backend.

## Main results

* `QueryHandlerPMGD.dispatches_iff`: the documents whose elements can all be dispatched if
  they are accepted.
-/

namespace Vdms

open Imp Imp.Prog

namespace QueryHandlerPMGD

/-! ### Constraints -/

/-- The parameters of a command whose constraints the checker accepts. -/
def WellFormed (cmd : Json) : Prop :=
  cmd = .null ∨ ∃ ms, cmd = .object ms ∧ ∀ c, ms.lookup "constraints" = some c →
    c = .null ∨ ∃ cs, c = .object cs ∧ ∀ m ∈ cs, ∃ xs, m.2 = .array xs ∧
      (xs.length = 2 ∨ xs.length = 4)

theorem size_array (xs : List Json) : (Json.array xs).size = xs.length := by
  simp [Json.size, Json.members]

theorem constraintError_iff {constraints : Json} {names : List String} :
    constraintError constraints names = .ok none ↔ ∀ name ∈ names, ∃ xs,
      constraints.get name = .ok (.array xs) ∧ (xs.length = 2 ∨ xs.length = 4) := by
  induction names with
  | nil => simp [constraintError, pure, Except.pure]
  | cons name names ih =>
      rw [constraintError, List.forall_mem_cons]
      cases hget : constraints.get name with
      | error e => simp [bind, Except.bind]
      | ok c =>
          cases c with
          | array xs =>
              by_cases hsize : xs.length = 2 ∨ xs.length = 4
              · have hnot : ¬ (xs.length ≠ 2 ∧ xs.length ≠ 4) := by omega
                simp [bind, Except.bind, Json.isArray, size_array, hnot, hsize, ih]
              · have hboth : xs.length ≠ 2 ∧ xs.length ≠ 4 := by omega
                simp [bind, Except.bind, Json.isArray, size_array, hboth, pure, Except.pure]
          | _ => simp [bind, Except.bind, Json.isArray, pure, Except.pure]

theorem commandError_iff {cmd : Json} (hcmd : cmd.DistinctKeys) :
    commandError cmd = .ok none ↔ WellFormed cmd := by
  cases hcmd with
  | null => simp [commandError, Json.hasMember, WellFormed, bind, Except.bind, pure, Except.pure]
  | @object ms hms hvalues =>
      cases hlookup : ms.lookup "constraints" with
      | none =>
          simp [commandError, Json.hasMember, WellFormed, hlookup, bind, Except.bind, pure,
            Except.pure]
      | some c =>
          have hc : c.DistinctKeys := hvalues _ (mem_of_lookup hlookup)
          have hwell : WellFormed (.object ms) ↔ c = .null ∨ ∃ cs, c = .object cs ∧
              ∀ m ∈ cs, ∃ xs, m.2 = .array xs ∧ (xs.length = 2 ∨ xs.length = 4) := by
            simp [WellFormed, hlookup]
          rw [hwell]
          have herror : commandError (.object ms) = (do
              let names ← c.memberNames
              constraintError c names) := by
            simp [commandError, Json.hasMember, Json.get, hlookup, bind, Except.bind]
          rw [herror]
          cases hc with
          | null =>
              simp [Json.memberNames, constraintError, bind, Except.bind, pure, Except.pure]
          | @object cs hcs _ =>
              have hnames : (Json.object cs).memberNames = .ok (cs.map Prod.fst) := rfl
              simp only [hnames, bind, Except.bind, constraintError_iff, List.forall_mem_map,
                reduceCtorEq, false_or, Json.object.injEq, exists_eq_left']
              refine forall₂_congr fun m hm => ?_
              simp [Json.get, lookup_of_mem hcs hm]
          | _ => simp [Json.memberNames, bind, Except.bind]
  | _ => simp [commandError, Json.hasMember, WellFormed, bind, Except.bind]

/-! ### The walk over the commands -/

/-- An element that the handler can dispatch. -/
def Dispatchable (query : Json) : Prop :=
  ∃ cmd v c, query = .object [(cmd, v)] ∧ RSCommand.ofName cmd = some c

/-- Every element is a command with its parameters, or the object without members. -/
def Shaped (queries : List Json) : Prop :=
  ∀ q ∈ queries, q = .object [] ∨ ∃ cmd v, q = .object [(cmd, v)]

/-- The checker rejects the constraints of a command before it comes to an element without
members. -/
def RejectsFirst (queries : List Json) : Prop :=
  ∃ front cmd v back, queries = front ++ .object [(cmd, v)] :: back ∧
    Json.object [] ∉ front ∧ ¬ WellFormed v

/-- No element is without members, and none is a command of the Neo4j backend. -/
def OnlyPmgd (queries : List Json) : Prop :=
  ∀ q ∈ queries, q ≠ .object [] ∧ ∀ v, q ≠ .object [("NeoAdd", v)] ∧ q ≠ .object [("NeoFind", v)]

section Walk

variable {σ : Type} {queries : List Json} {s : QueryState σ} {n : ℕ}

theorem checkCommands_cons {cmd : String} {v : Json} :
    checkCommands (.object [(cmd, v)] :: queries) n s =
      (ofQuery (commandError v) n s).andThen fun info s' =>
        (match info with
        | some info => pure (some info)
        | none => checkCommands queries : Querying σ (Option String)) n s' := by
  generalize hrun : checkCommands (.object [(cmd, v)] :: queries) n s = o
  simp only [checkCommands, firstMember, Json.memberNames, Json.get, ofQuery, bind_apply,
    pure_apply, Outcome.andThen_ret, List.map_cons, List.map_nil, List.lookup_cons_self,
    Option.getD_some] at hrun
  subst hrun
  rfl

/-- An element without members has no name to take. -/
theorem checkCommands_empty : checkCommands (.object [] :: queries) n s = .stuck := by
  simp only [checkCommands, firstMember, Json.memberNames, ofQuery, bind_apply, pure_apply,
    Outcome.andThen_ret, List.map_nil, stuck_apply, Outcome.andThen_stuck]

/-- With a command to reject before any element without members, the check rejects. -/
theorem checkCommands_rejects (hshaped : Shaped queries)
    (hkeys : ∀ q ∈ queries, q.DistinctKeys) (h : RejectsFirst queries) :
    (∃ info, ∀ n, checkCommands queries n s = .ret (some info) s) ∨
      ∃ e, ∀ n, checkCommands queries n s = .throw e s := by
  obtain ⟨front, cmd, v, back, rfl, hfront, hv⟩ := h
  induction front with
  | nil =>
      have hkeys' : v.DistinctKeys :=
        (hkeys _ List.mem_cons_self).value List.mem_cons_self
      simp only [List.nil_append, checkCommands_cons]
      cases herror : commandError v with
      | error e => exact .inr ⟨e.toRequestError, fun n => rfl⟩
      | ok info =>
          cases info with
          | none => exact absurd ((commandError_iff hkeys').1 herror) hv
          | some info => exact .inl ⟨info, fun n => rfl⟩
  | cons q front ih =>
      rw [List.cons_append] at hshaped hkeys ⊢
      have hrest := ih (fun p hp => hshaped p (List.mem_cons_of_mem q hp))
        (fun p hp => hkeys p (List.mem_cons_of_mem q hp))
        (fun hmem => hfront (List.mem_cons_of_mem q hmem))
      rcases hshaped q List.mem_cons_self with rfl | ⟨cmd', w, rfl⟩
      · exact absurd List.mem_cons_self hfront
      · simp only [checkCommands_cons]
        cases herror : commandError w with
        | error e => exact .inr ⟨e.toRequestError, fun n => rfl⟩
        | ok info =>
            cases info with
            | none => exact hrest
            | some info => exact .inl ⟨info, fun n => rfl⟩

/-- With nothing to reject and no element without members, the check passes. -/
theorem checkCommands_passes (hshaped : Shaped queries)
    (hkeys : ∀ q ∈ queries, q.DistinctKeys) (hempty : Json.object [] ∉ queries)
    (h : ¬ RejectsFirst queries) : checkCommands queries n s = .ret none s := by
  induction queries with
  | nil => rfl
  | cons q queries ih =>
      rcases hshaped q List.mem_cons_self with rfl | ⟨cmd, v, rfl⟩
      · exact absurd List.mem_cons_self hempty
      · have hv : WellFormed v := by
          by_contra hv
          exact h ⟨[], cmd, v, queries, rfl, List.not_mem_nil, hv⟩
        have hkeys' : v.DistinctKeys :=
          (hkeys _ List.mem_cons_self).value List.mem_cons_self
        have hrest := ih (fun p hp => hshaped p (List.mem_cons_of_mem _ hp))
          (fun p hp => hkeys p (List.mem_cons_of_mem _ hp))
          (fun hmem => hempty (List.mem_cons_of_mem _ hmem))
          (fun ⟨front, cmd', w, back, heq, hfront, hw⟩ => h ⟨_ :: front, cmd', w, back,
            by rw [heq, List.cons_append], by simpa using hfront, hw⟩)
        rw [checkCommands_cons, (commandError_iff hkeys').2 hv]
        exact hrest

/-- With nothing to reject before it, an element without members is reached. -/
theorem checkCommands_stuck (hshaped : Shaped queries)
    (hkeys : ∀ q ∈ queries, q.DistinctKeys) (hempty : Json.object [] ∈ queries)
    (h : ¬ RejectsFirst queries) : checkCommands queries n s = .stuck := by
  induction queries with
  | nil => cases hempty
  | cons q queries ih =>
      rcases hshaped q List.mem_cons_self with rfl | ⟨cmd, v, rfl⟩
      · exact checkCommands_empty
      · have hv : WellFormed v := by
          by_contra hv
          exact h ⟨[], cmd, v, queries, rfl, List.not_mem_nil, hv⟩
        have hkeys' : v.DistinctKeys :=
          (hkeys _ List.mem_cons_self).value List.mem_cons_self
        have hrest := ih (fun p hp => hshaped p (List.mem_cons_of_mem _ hp))
          (fun p hp => hkeys p (List.mem_cons_of_mem _ hp)) (by simpa using hempty)
          (fun ⟨front, cmd', w, back, heq, hfront, hw⟩ => h ⟨_ :: front, cmd', w, back,
            by rw [heq, List.cons_append], by simpa using hfront, hw⟩)
        rw [checkCommands_cons, (commandError_iff hkeys').2 hv]
        exact hrest

end Walk

/-! ### Documents -/

section Documents

variable [Platform] {σ : Type} (M : Methods σ)

/-- The claim on a document: accepted, it is an array of commands that can be dispatched,
and the parsing itself neither takes the name of an object without members nor calls a
command that is not there. -/
def DispatchesIfAccepted (doc : Document) (s : QueryState σ) : Prop :=
  (Runs (syntaxChecker M doc.root) s (.ret none s) →
    ∃ queries, doc.root = .array queries ∧ ∀ q ∈ queries, Dispatchable q) ∧
  ∀ blobs n, parseCommands M ⟨.ok doc, blobs⟩ n s ≠ .stuck

variable {queries : List Json} {blobs : List Bytes} {s : QueryState σ} {n : ℕ}

omit [Platform] in
theorem ofQuery_ne_stuck {α : Type} (x : Except QueryError α) :
    (ofQuery x : Querying σ α) n s ≠ .stuck := by
  cases x <;> simp [ofQuery]

omit [Platform] in
theorem elements_array (xs : List Json) : (Json.array xs).elements = xs := by
  simp [Json.elements, Json.members, Function.comp_def]

omit [Platform] in
theorem indexed_array (xs : List Json) : indexed (.array xs) = .ok xs := by
  have hmap : ∀ is : List ℕ, is.mapM (Json.array xs).index =
      .ok (is.map fun i => xs[i]?.getD .null) := by
    intro is
    induction is with
    | nil => rfl
    | cons i is ih =>
        rw [List.mapM_cons, ih]
        rfl
  rw [indexed, hmap, size_array]
  congr 1
  refine List.ext_getElem (by simp) fun i h h' => ?_
  simp [List.getElem?_eq_getElem h']

/-- What the schema accepts as elements. -/
theorem shaped_of_entries (h : ∀ q ∈ queries, ApiSchema.Entry q) : Shaped queries := by
  intro q hq
  rcases h q hq with rfl | ⟨c, -, v, rfl, -⟩
  · exact .inl rfl
  · exact .inr ⟨c.1, v, rfl⟩

/-- The commands of the schema are registered, those of the Neo4j backend apart. -/
theorem registered_of_mem : ∀ c ∈ ApiSchema.pmgdCommands, (RSCommand.ofName c.1).isSome := by
  simp [ApiSchema.pmgdCommands, RSCommand.ofName, RSCommand.registry, List.lookup_cons]

theorem dispatchable_of_entries (h : ∀ q ∈ queries, ApiSchema.Entry q)
    (hpmgd : OnlyPmgd queries) : ∀ q ∈ queries, Dispatchable q := by
  intro q hq
  obtain ⟨hne, hneo⟩ := hpmgd q hq
  rcases h q hq with rfl | ⟨c, hc, v, rfl, -⟩
  · exact absurd rfl hne
  · rcases List.mem_append.1 hc with hc | hc
    · obtain ⟨rs, hrs⟩ := Option.isSome_iff_exists.1 (registered_of_mem c hc)
      exact ⟨c.1, v, rs, rfl, hrs⟩
    · have hname : c.1 = "NeoAdd" ∨ c.1 = "NeoFind" := by
        rcases List.mem_cons.1 hc with rfl | hc
        · exact .inl rfl
        · obtain rfl := List.mem_singleton.1 hc
          exact .inr rfl
      rcases hname with hname | hname
      · exact absurd (by rw [hname]) (hneo v).1
      · exact absurd (by rw [hname]) (hneo v).2

theorem countBlobs_ne_stuck (h : ∀ q ∈ queries, Dispatchable q) (s : QueryState σ) :
    (countBlobs queries : Querying σ ℕ) n s ≠ .stuck := by
  induction queries generalizing s with
  | nil => simp [countBlobs]
  | cons q queries ih =>
      obtain ⟨cmd, v, c, rfl, hname⟩ := h q List.mem_cons_self
      have hrest := fun s => ih (fun p hp => h p (List.mem_cons_of_mem _ hp)) s
      have hnames : (Json.object [(cmd, v)]).memberNames = .ok [cmd] := rfl
      simp only [countBlobs, bind_apply, firstMember_apply hnames, registered_apply hname,
        Outcome.andThen_ret]
      refine Outcome.andThen_ne_stuck (ofQuery_ne_stuck _) fun needs s' => ?_
      exact Outcome.andThen_ne_stuck (hrest s') fun m s'' => by simp

/-- The errors of `parse_commands` are answers. -/
theorem parseCommands_ne_stuck {doc : Document}
    (h : checkDocument M doc.root blobs n s ≠ .stuck) :
    parseCommands M ⟨.ok doc, blobs⟩ n s ≠ .stuck := by
  simp only [parseCommands, Prog.tryCatch]
  cases hrun : checkDocument M doc.root blobs n s with
  | ret r t => simp
  | throw e t =>
      cases e with
      | json =>
          simp only [bind_apply]
          exact Outcome.andThen_ne_stuck (ofQuery_ne_stuck _) fun error s' => by simp
      | _ => simp
  | stuck => exact absurd hrun h

/-- A document that the checker rejects. -/
theorem checkDocument_rejects {root : Json} {info : String}
    (h : syntaxChecker M root n s = .ret (some info) s) :
    checkDocument M root blobs n s ≠ .stuck := by
  rw [checkDocument, bind_apply, h, Outcome.andThen_ret, bind_apply]
  exact Outcome.andThen_ne_stuck (ofQuery_ne_stuck _) fun error s' => by simp

theorem checkDocument_throws {root : Json} {e : RequestError}
    (h : syntaxChecker M root n s = .throw e s) : checkDocument M root blobs n s ≠ .stuck := by
  rw [checkDocument, bind_apply, h]
  simp

/-- A document that the checker passes, and whose elements can be dispatched. -/
theorem checkDocument_passes (hdispatch : ∀ q ∈ queries, Dispatchable q)
    (h : syntaxChecker M (.array queries) n s = .ret none s) :
    checkDocument M (.array queries) blobs n s ≠ .stuck := by
  rw [checkDocument, bind_apply, h, Outcome.andThen_ret, indexed_array]
  have hok : (ofQuery (.ok queries) : Querying σ (List Json)) n s = .ret queries s := rfl
  simp only [bind_apply, hok, Outcome.andThen_ret]
  refine Outcome.andThen_ne_stuck (countBlobs_ne_stuck hdispatch s) fun m s' => ?_
  split
  · rw [bind_apply]
    exact Outcome.andThen_ne_stuck (ofQuery_ne_stuck _) fun error s'' => by simp
  · simp

/-- What the schema rejects is reported. -/
theorem syntaxChecker_rejects {root : Json} (h : ApiSchema.request root = false) :
    (∃ info, ∀ n, syntaxChecker M root n s = .ret (some info) s) ∨
      ∃ e, ∀ n, syntaxChecker M root n s = .throw e s := by
  rw [syntaxChecker, if_neg (by simp [h])]
  cases hindexed : indexed root with
  | error e => exact .inr ⟨e.toRequestError, fun n => rfl⟩
  | ok queries =>
      cases hsimple : simpleError queries with
      | error e =>
          refine .inr ⟨e.toRequestError, fun n => ?_⟩
          simp [ofQuery, hsimple]
      | ok info =>
          cases info with
          | some info => exact .inl ⟨info, fun n => by simp [ofQuery, hsimple]⟩
          | none => exact .inl ⟨M.report root, fun n => by simp [ofQuery, hsimple]⟩

/-- What the checker rejects is not accepted, and its rejection is an answer. -/
theorem dispatches_of_rejects {doc : Document}
    (h : (∃ info, ∀ n, syntaxChecker M doc.root n s = .ret (some info) s) ∨
      ∃ e, ∀ n, syntaxChecker M doc.root n s = .throw e s) :
    DispatchesIfAccepted M doc s := by
  rcases h with ⟨info, h⟩ | ⟨e, h⟩
  · refine ⟨fun hrun => absurd (hrun.unique (Runs.of_eq h)) (by simp), fun blobs n => ?_⟩
    exact parseCommands_ne_stuck M (checkDocument_rejects M (h n))
  · refine ⟨fun hrun => absurd (hrun.unique (Runs.of_eq h)) (by simp), fun blobs n => ?_⟩
    exact parseCommands_ne_stuck M (checkDocument_throws M (h n))

/-- **Dispatch.** Exactly if the schema rejects a document, or the constraints of a command
before any element without members are not in order, or the document has no element without
members and no command of the Neo4j backend, all of its elements can be dispatched if it is
accepted. -/
theorem dispatches_iff (doc : Document) (s : QueryState σ) :
    DispatchesIfAccepted M doc s ↔ (ApiSchema.request doc.root = true →
      RejectsFirst doc.root.elements ∨ OnlyPmgd doc.root.elements) := by
  by_cases hrequest : ApiSchema.request doc.root = true
  · obtain ⟨queries, hroot, -, hentries⟩ := (ApiSchema.request_iff doc.distinctKeys).1 hrequest
    have hshaped := shaped_of_entries hentries
    have hkeys : ∀ q ∈ queries, q.DistinctKeys := fun q hq =>
      (hroot ▸ doc.distinctKeys).element hq
    have hchecker : syntaxChecker M doc.root = checkCommands queries := by
      rw [syntaxChecker, if_pos hrequest, hroot, elements_array]
    rw [hroot, elements_array]
    by_cases hrejects : RejectsFirst queries
    · have hcheck := checkCommands_rejects (s := s) hshaped hkeys hrejects
      rw [← hchecker] at hcheck
      exact iff_of_true (dispatches_of_rejects M hcheck) fun _ => .inl hrejects
    · constructor
      · rintro ⟨haccepts, hparse⟩ -
        right
        by_cases hempty : Json.object [] ∈ queries
        · -- the checker itself takes the name of the object without members
          refine absurd ?_ (hparse [] 0)
          have hstuck : syntaxChecker M doc.root 0 s = .stuck := by
            rw [hchecker]
            exact checkCommands_stuck hshaped hkeys hempty hrejects
          simp [parseCommands, Prog.tryCatch, checkDocument, hstuck]
        · have hpass : Runs (syntaxChecker M doc.root) s (.ret none s) := by
            rw [hchecker]
            exact Runs.of_eq fun n => checkCommands_passes hshaped hkeys hempty hrejects
          obtain ⟨queries', heq, hdispatch⟩ := haccepts hpass
          rw [hroot] at heq
          injection heq with heq
          subst heq
          intro q hq
          refine ⟨fun hq' => hempty (hq' ▸ hq), fun v => ⟨?_, ?_⟩⟩
          · rintro rfl
            obtain ⟨cmd, w, c, hobject, hname⟩ := hdispatch _ hq
            simp only [Json.object.injEq, List.cons.injEq, Prod.mk.injEq, and_true] at hobject
            rw [← hobject.1] at hname
            cases hname
          · rintro rfl
            obtain ⟨cmd, w, c, hobject, hname⟩ := hdispatch _ hq
            simp only [Json.object.injEq, List.cons.injEq, Prod.mk.injEq, and_true] at hobject
            rw [← hobject.1] at hname
            cases hname
      · intro h
        have hpmgd : OnlyPmgd queries := (h (hroot ▸ hrequest)).resolve_left hrejects
        have hempty : Json.object [] ∉ queries := fun hmem => (hpmgd _ hmem).1 rfl
        have hdispatch := dispatchable_of_entries hentries hpmgd
        refine ⟨fun _ => ⟨queries, hroot, hdispatch⟩, fun blobs n => ?_⟩
        refine parseCommands_ne_stuck M ?_
        rw [hroot]
        refine checkDocument_passes M hdispatch ?_
        rw [← hroot, hchecker]
        exact checkCommands_passes hshaped hkeys hempty hrejects
  · refine iff_of_true (dispatches_of_rejects M ?_) fun h => absurd h hrequest
    exact syntaxChecker_rejects M (Bool.eq_false_iff.2 hrequest)

end Documents

/-- A request with a command of the Neo4j backend. -/
def neoRequest : Document where
  root := .array [.object [("NeoAdd", .object [("cypher", .string "x")])]]
  distinctKeys := by
    refine .array fun x hx => ?_
    obtain rfl := List.mem_singleton.1 hx
    exact .object (by decide) fun m hm => by
      obtain rfl := List.mem_singleton.1 hm
      exact .object (by decide) fun m hm => by
        obtain rfl := List.mem_singleton.1 hm
        exact .string _

/-- A request with an element without members. -/
def emptyRequest : Document where
  root := .array [.object []]
  distinctKeys := by
    refine .array fun x hx => ?_
    obtain rfl := List.mem_singleton.1 hx
    exact .object (by decide) fun m hm => by cases hm

/-- The command of the Neo4j backend is accepted and not registered, and the element without
members has no name to take. -/
theorem neo_not_dispatched :
    ¬ DispatchesIfAccepted silent neoRequest { server := (), query := .new 0 0 } ∧
      ¬ DispatchesIfAccepted silent emptyRequest { server := (), query := .new 0 0 } := by
  constructor
  · rintro ⟨haccepts, -⟩
    obtain ⟨queries, hroot, hdispatch⟩ := haccepts (Runs.of_eq fun _ => rfl)
    injection hroot with hroot
    subst hroot
    obtain ⟨cmd, v, c, hobject, hname⟩ := hdispatch _ List.mem_cons_self
    simp only [Json.object.injEq, List.cons.injEq, Prod.mk.injEq, and_true] at hobject
    rw [← hobject.1] at hname
    cases hname
  · rintro ⟨-, hparse⟩
    exact hparse [] 0 rfl

end QueryHandlerPMGD

end Vdms
