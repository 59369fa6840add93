import Vdms.Dispatch
import Vdms.Imp.Brackets
import Vdms.QueryHandlerNeo4j

/-!
# The Protocol of a Request to Neo4j

A request takes one connection and opens one transaction. What `parse_commands` returns is
overwritten before anything looks at it; that no command of a rejected request is run is owed
to its root, an object by then, whose element 0 raises an exception. And what leaves the loop
over the commands, an exception or the return code of `data_processing`, leaves the
transaction open.

## Main results

* `request_protocol_iff`: the requests that keep the protocol are those that are accepted and
  whose commands all succeed.
* `rejected_runs_nothing`: a rejected request runs no command, but it ends in an exception.
* `malformed_request_leaves`: two requests that do not keep it.
-/

namespace Vdms

open Imp Imp.Prog

namespace NeoEvent

variable {κ τ : Type}

def connection : NeoEvent κ τ → Bracket κ
  | getConn conn => .takes conn
  | putConn conn => .gives conn
  | _ => .neither

def transaction : NeoEvent κ τ → Bracket τ
  | openTx tx => .takes tx
  | commitTx tx | rollbackTx tx => .gives tx
  | _ => .neither

/-- A step of the loop over the commands. -/
def isStep : NeoEvent κ τ → Bool
  | dataProcessing | runInTx _ | constructResponses | succeeded => true
  | _ => false

end NeoEvent

namespace QueryHandlerNeo4j

open QueryHandlerPMGD (indexed commandError rejection indexed_array elements_array)

section Parsing

variable [Platform]

/-! ### Accepted requests -/

/-- An element of a request that `parse_commands` has nothing against: the command, and
whether it needs a blob. -/
def Understood (query : Json) (c : Neo4jCommand) (needs : Bool) : Prop :=
  ∃ cmd v rest, query = .object ((cmd, v) :: rest) ∧ commandError v = .ok none ∧
    Neo4jCommand.ofName cmd = some c ∧ c.needBlob query = .ok needs

/-- Whether a command needs a blob. -/
def needsBlob (query : Json) : Bool :=
  match query with
  | .object ((cmd, _) :: _) =>
      match Neo4jCommand.ofName cmd with
      | some c => (c.needBlob query).toOption.getD false
      | none => false
  | _ => false

/-- The request can be read, and it has these commands, and a blob for each that needs one
unless none does. -/
structure Accepted (msg : QueryMessage) (queries : List Json) : Prop where
  read : ∃ doc, msg.json = .ok doc ∧ doc.root = .array queries
  schema : ApiSchema.request (.array queries) = true
  understood : ∀ q ∈ queries, ∃ c needs, Understood q c needs
  blobs : queries.countP needsBlob = 0 ∨ queries.countP needsBlob = msg.blobs.length

theorem Understood.needsBlob_eq {q : Json} {c : Neo4jCommand} {needs : Bool}
    (h : Understood q c needs) : needsBlob q = needs := by
  obtain ⟨cmd, v, rest, rfl, -, hname, hneeds⟩ := h
  simp [needsBlob, hname, hneeds, Except.toOption]

/-! ### The runs of `parse_commands` -/

section Runs

variable {n : ℕ} {s : Unit} {query root : Json} {queries : List Json} {blobs : List Bytes}
  {report : Json → String} {msg : QueryMessage}

omit [Platform] in
theorem ofQuery_eq {α : Type} {x : Except QueryError α} {a : α} :
    (ofQuery x : Checking α) n s = .ret a () ↔ x = .ok a := by
  cases x <;> simp [ofQuery]

omit [Platform] in
theorem bind_eq_ret {α β : Type} {m : Checking α} {f : α → Checking β} {b : β} :
    (m >>= f) n s = .ret b () ↔ ∃ a, m n s = .ret a () ∧ f a n () = .ret b () := by
  constructor
  · intro h
    obtain ⟨a, u, hm, hf⟩ := bind_ret_inv h
    exact ⟨a, hm, hf⟩
  · rintro ⟨a, hm, hf⟩
    rw [bind_apply, hm]
    exact hf

omit [Platform] in
theorem firstMember_eq {cmd : String} : firstMember query n s = .ret cmd () ↔
    ∃ v rest, query = .object ((cmd, v) :: rest) := by
  cases query with
  | object ms =>
      cases ms with
      | nil => simp [firstMember, Json.memberNames, ofQuery]
      | cons m ms =>
          obtain ⟨k, v⟩ := m
          simp [firstMember, Json.memberNames, ofQuery]
  | null => simp [firstMember, Json.memberNames, ofQuery]
  | _ => simp [firstMember, Json.memberNames, ofQuery]

omit [Platform] in
theorem registered_eq {cmd : String} {c : Neo4jCommand} :
    registered cmd n s = .ret c () ↔ Neo4jCommand.ofName cmd = some c := by
  rw [registered]
  cases Neo4jCommand.ofName cmd <;> simp

omit [Platform] in
theorem get_first (cmd : String) (v : Json) (rest : List (String × Json)) :
    (Json.object ((cmd, v) :: rest)).get cmd = .ok v := by
  simp [Json.get]

omit [Platform] in
theorem checkCommands_eq : checkCommands queries n s = .ret none () ↔
    ∀ q ∈ queries, ∃ cmd v rest, q = .object ((cmd, v) :: rest) ∧
      commandError v = .ok none := by
  induction queries with
  | nil => simp [checkCommands]
  | cons q queries ih =>
      simp only [checkCommands, bind_eq_ret, firstMember_eq, ofQuery_eq, List.forall_mem_cons]
      constructor
      · rintro ⟨cmd, ⟨v, rest, rfl⟩, v', hv', info, hinfo, hrest⟩
        rw [get_first] at hv'
        obtain rfl : v = v' := by simpa using hv'
        cases info with
        | some info => simp at hrest
        | none => exact ⟨⟨cmd, v, rest, rfl, hinfo⟩, ih.1 hrest⟩
      · rintro ⟨⟨cmd, v, rest, rfl, hv⟩, hrest⟩
        exact ⟨cmd, ⟨v, rest, rfl⟩, v, get_first cmd v rest, none, hv, ih.2 hrest⟩

theorem countBlobs_eq {k : ℕ} : countBlobs queries n s = .ret k () ↔
    (∀ q ∈ queries, ∃ cmd v rest c needs, q = .object ((cmd, v) :: rest) ∧
      Neo4jCommand.ofName cmd = some c ∧ c.needBlob q = .ok needs) ∧
      queries.countP needsBlob = k := by
  induction queries generalizing k with
  | nil => simp [countBlobs]
  | cons q queries ih =>
      simp only [countBlobs, bind_eq_ret, firstMember_eq, registered_eq, ofQuery_eq, ih,
        List.forall_mem_cons, List.countP_cons]
      constructor
      · rintro ⟨cmd, ⟨v, rest, rfl⟩, c, hc, needs, hneeds, m, ⟨hall, rfl⟩, hk⟩
        refine ⟨⟨⟨cmd, v, rest, c, needs, rfl, hc, hneeds⟩, hall⟩, ?_⟩
        have hneed : needsBlob (.object ((cmd, v) :: rest)) = needs := by
          simp [needsBlob, hc, hneeds, Except.toOption]
        rw [hneed]
        cases needs <;> simpa using hk
      · rintro ⟨⟨⟨cmd, v, rest, c, needs, rfl, hc, hneeds⟩, hall⟩, rfl⟩
        refine ⟨cmd, ⟨v, rest, rfl⟩, c, hc, needs, hneeds, _, ⟨hall, rfl⟩, ?_⟩
        have hneed : needsBlob (.object ((cmd, v) :: rest)) = needs := by
          simp [needsBlob, hc, hneeds, Except.toOption]
        rw [hneed]
        cases needs <;> simp

/-! What `root[key] = value` leaves is an object with members. -/

omit [Platform] in
theorem insertMember_ne_nil (key : String) (v : Json) (ms : List (String × Json)) :
    Json.insertMember key v ms ≠ [] := by
  cases ms with
  | nil => simp [Json.insertMember]
  | cons m ms =>
      obtain ⟨k, w⟩ := m
      rw [Json.insertMember]
      split
      · simp
      · split <;> simp

omit [Platform] in
theorem setMember_ok {j v r : Json} {key : String} (h : j.setMember key v = .ok r) :
    ∃ ms, r = .object ms ∧ ms ≠ [] := by
  cases j with
  | null =>
      obtain rfl : _ = r := by simpa [Json.setMember] using h
      exact ⟨_, rfl, by simp⟩
  | object ms =>
      obtain rfl : _ = r := by simpa [Json.setMember] using h
      exact ⟨_, rfl, insertMember_ne_nil key v ms⟩
  | _ => simp [Json.setMember] at h

omit [Platform] in
theorem rejection_ok {info : String} {r : Json} (h : rejection root info = .ok r) :
    ∃ ms, r = .object ms ∧ ms ≠ [] := by
  rw [rejection] at h
  cases hset : root.setMember "info" (.string info) with
  | error e =>
      rw [hset] at h
      exact absurd h (by simp [bind, Except.bind])
  | ok root' =>
      rw [hset] at h
      exact setMember_ok h

omit [Platform] in
/-- The rejection of a request, with what its root is then. -/
theorem rejected_eq {info : String} {rc : ℤ} {r : Json}
    (h : (do
      let root ← ofQuery (rejection root info)
      pure (-1, root) : Checking (ℤ × Json)) n s = .ret (rc, r) ()) :
    rc ≠ 0 ∧ ∃ ms, r = .object ms ∧ ms ≠ [] := by
  rw [bind_eq_ret] at h
  obtain ⟨root', hroot, hret⟩ := h
  obtain ⟨rfl, rfl⟩ : -1 = rc ∧ root' = r := by simpa using hret
  exact ⟨by omega, rejection_ok (ofQuery_eq.1 hroot)⟩

theorem syntaxChecker_eq : syntaxChecker report root n s = .ret none () ↔
    ApiSchema.request root = true ∧ checkCommands root.elements n s = .ret none () := by
  rw [syntaxChecker]
  by_cases hschema : ApiSchema.request root = true
  · rw [if_pos hschema]
    simp [hschema]
  · rw [if_neg hschema]
    rw [Bool.not_eq_true] at hschema
    simp only [bind_eq_ret, ofQuery_eq, hschema, Bool.false_eq_true, false_and, iff_false,
      not_exists, not_and]
    rintro queries - info - hret
    cases info <;> simp at hret

/-- What the schema accepts is an array. -/
theorem array_of_request (h : ApiSchema.request root = true) :
    ∃ queries, root = .array queries := by
  cases root with
  | array queries => exact ⟨queries, rfl⟩
  | _ => simp [ApiSchema.request, Schema.all, Schema.array, Json.isArray] at h

/-- What `parse_commands` returns: the root of a request that it rejects is an object. -/
def Parsed (msg : QueryMessage) (rc : ℤ) (r : Json) : Prop :=
  (rc ≠ 0 ∧ ∃ ms, r = .object ms ∧ ms ≠ []) ∨
    rc = 0 ∧ ∃ queries, r = .array queries ∧ Accepted msg queries

theorem checkDocument_eq {doc : Document} {rc : ℤ} {r : Json} (hjson : msg.json = .ok doc)
    (h : checkDocument report doc.root msg.blobs n s = .ret (rc, r) ()) : Parsed msg rc r := by
  rw [checkDocument, bind_eq_ret] at h
  obtain ⟨info, hchecked, h⟩ := h
  cases info with
  | some info => exact .inl (rejected_eq h)
  | none =>
      obtain ⟨hschema, hcommands⟩ := syntaxChecker_eq.1 hchecked
      obtain ⟨queries, hroot⟩ := array_of_request hschema
      rw [hroot] at hschema
      rw [hroot, elements_array, checkCommands_eq] at hcommands
      simp only [bind_eq_ret, hroot, indexed_array, ofQuery_eq, Except.ok.injEq,
        exists_eq_left', countBlobs_eq] at h
      obtain ⟨k, ⟨hcount, rfl⟩, h⟩ := h
      split at h
      · exact .inl (rejected_eq h)
      · rename_i hblobs
        obtain ⟨rfl, rfl⟩ : 0 = rc ∧ Json.array queries = r := by simpa using h
        refine .inr ⟨rfl, queries, rfl, ⟨doc, hjson, hroot⟩, hschema, fun q hq => ?_, by omega⟩
        obtain ⟨cmd, v, rest, rfl, hv⟩ := hcommands q hq
        obtain ⟨cmd', v', rest', c, needs, heq, hc, hneeds⟩ := hcount _ hq
        obtain ⟨⟨rfl, rfl⟩, rfl⟩ : (cmd = cmd' ∧ v = v') ∧ rest = rest' := by simpa using heq
        exact ⟨c, needs, cmd, v, rest, rfl, hv, hc, hneeds⟩

theorem parseCommands_eq {rc : ℤ} {r : Json}
    (h : parseCommands report msg n s = .ret (rc, r) ()) : Parsed msg rc r := by
  rw [parseCommands] at h
  rcases tryCatch_ret_inv h with h | ⟨e, u, -, h⟩
  · cases hjson : msg.json with
    | error left =>
        rw [hjson] at h
        exact .inl (rejected_eq h)
    | ok doc =>
        rw [hjson] at h
        exact checkDocument_eq hjson h
  · cases e with
    | logicError => exact .inl (rejected_eq h)
    | exceptionCommand info => simp at h

theorem parseCommands_accepted (h : Accepted msg queries) :
    parseCommands report msg n s = .ret (0, .array queries) () := by
  obtain ⟨⟨doc, hjson, hroot⟩, hschema, hall, hblobs⟩ := h
  have hchecked : syntaxChecker report (.array queries) n s = .ret none () := by
    rw [syntaxChecker_eq, elements_array, checkCommands_eq]
    refine ⟨hschema, fun q hq => ?_⟩
    obtain ⟨c, needs, cmd, v, rest, rfl, hv, -, -⟩ := hall q hq
    exact ⟨cmd, v, rest, rfl, hv⟩
  have hcount : countBlobs queries n s = .ret (queries.countP needsBlob) () := by
    rw [countBlobs_eq]
    refine ⟨fun q hq => ?_, rfl⟩
    obtain ⟨c, needs, cmd, v, rest, rfl, -, hc, hneeds⟩ := hall q hq
    exact ⟨cmd, v, rest, c, needs, rfl, hc, hneeds⟩
  have hdocument : checkDocument report (.array queries) msg.blobs n s =
      .ret (0, .array queries) () := by
    rw [checkDocument, bind_eq_ret]
    refine ⟨none, hchecked, ?_⟩
    simp only [bind_eq_ret, indexed_array, ofQuery_eq, Except.ok.injEq, exists_eq_left']
    refine ⟨_, hcount, ?_⟩
    rw [if_neg (by omega)]
    rfl
  simp only [parseCommands, Prog.tryCatch, hjson, hroot, hdocument]

end Runs

end Parsing

/-! ### The commands -/

section Commands

variable {σ κ τ ι : Type} [Platform]

/-- The command of a query and its statement. -/
def IsStatement (query : Json) (c : Neo4jCommand) (cypher : String) : Prop :=
  ∃ cmd v rest, query = .object ((cmd, v) :: rest) ∧ Neo4jCommand.ofName cmd = some c ∧
    ∃ j, v.get "cypher" = .ok j ∧ j.asString = .ok cypher

/-- The blob of a command, the `k`-th if it needs one, and the number of the next. -/
def HasBlob (blobs : List Bytes) (c : Neo4jCommand) (query : Json) (k : ℕ) (blob : Bytes)
    (k' : ℕ) : Prop :=
  (c.needBlob query = .ok true ∧ blobs[k]? = some blob ∧ k' = k + 1) ∨
    (c.needBlob query = .ok false ∧ blob = [] ∧ k' = k)

section

variable (L : Neo4jLibrary σ κ τ ι) (blobs : List Bytes) (tx : τ)

/-- A command with its statement and blob succeeds: `data_processing` returns 0, the statement
does not fail, its results can be read, and the response is not that of an error. From `r` and
`w` it goes to `r'` and `w'`. -/
def Answers (query : Json) (c : Neo4jCommand) (cypher : String) (blob : Bytes) (r r' : Json)
    (w w' : NeoWorld σ) : Prop :=
  ∃ cypher' w₁, Runs (c.dataProcessing L cypher query blob r) w (.ret (0, cypher', r') w₁) ∧
    (L.runInTx tx cypher' w₁.server).1.failure = false ∧
    ∃ neo4jResp, BackendNeo4j.resultsToJson (L.runInTx tx cypher' w₁.server).1 = some neo4jResp ∧
    ∃ response, Runs (c.constructResponses L neo4jResp query)
      { w₁ with server := (L.runInTx tx cypher' w₁.server).2 } (.ret response w') ∧
      c.isError response = false

/-- The command of a query succeeds. -/
def Succeeds (query : Json) (k k' : ℕ) (r r' : Json) (w w' : NeoWorld σ) : Prop :=
  ∃ c cypher blob, IsStatement query c cypher ∧ HasBlob blobs c query k blob k' ∧
    Answers L tx query c cypher blob r r' w w'

/-- The commands succeed, one after the other. -/
inductive EachSucceeds : List Json → ℕ → Json → NeoWorld σ → Prop where
  | nil {k r w} : EachSucceeds [] k r w
  | cons {query queries k k' r r' w w'} : Succeeds L blobs tx query k k' r r' w w' →
      EachSucceeds queries k' r' w' → EachSucceeds (query :: queries) k r w

end

variable {L : Neo4jLibrary σ κ τ ι} {blobs : List Bytes} {tx : τ} {query : Json}
  {s : NeoState σ κ τ}

theorem IsStatement.unique {c c' : Neo4jCommand} {cypher cypher' : String}
    (h : IsStatement query c cypher) (h' : IsStatement query c' cypher') :
    c = c' ∧ cypher = cypher' := by
  obtain ⟨cmd, v, rest, rfl, hc, j, hj, hcypher⟩ := h
  obtain ⟨cmd', v', rest', heq, hc', j', hj', hcypher'⟩ := h'
  obtain ⟨⟨rfl, rfl⟩, rfl⟩ : (cmd = cmd' ∧ v = v') ∧ rest = rest' := by simpa using heq
  obtain rfl : c = c' := Option.some.inj (hc.symm.trans hc')
  obtain rfl : j = j' := Except.ok.inj (hj.symm.trans hj')
  exact ⟨rfl, Except.ok.inj (hcypher.symm.trans hcypher')⟩

theorem HasBlob.unique {c : Neo4jCommand} {k k₁ k₂ : ℕ} {blob blob' : Bytes}
    (h : HasBlob blobs c query k blob k₁) (h' : HasBlob blobs c query k blob' k₂) :
    blob = blob' ∧ k₁ = k₂ := by
  rcases h with ⟨hneeds, hblob, rfl⟩ | ⟨hneeds, rfl, rfl⟩ <;>
    rcases h' with ⟨hneeds', hblob', rfl⟩ | ⟨hneeds', rfl, rfl⟩
  · exact ⟨Option.some.inj (hblob.symm.trans hblob'), rfl⟩
  · rw [hneeds] at hneeds'
    simp at hneeds'
  · rw [hneeds] at hneeds'
    simp at hneeds'
  · exact ⟨rfl, rfl⟩

theorem Answers.unique {c : Neo4jCommand} {cypher : String} {blob : Bytes} {r r₁ r₂ : Json}
    {w w₁ w₂ : NeoWorld σ} (h : Answers L tx query c cypher blob r r₁ w w₁)
    (h' : Answers L tx query c cypher blob r r₂ w w₂) : r₁ = r₂ ∧ w₁ = w₂ := by
  obtain ⟨cypher₁, u, hprocessed, -, resp, hresp, response, hresponse, -⟩ := h
  obtain ⟨cypher₂, u', hprocessed', -, resp', hresp', response', hresponse', -⟩ := h'
  have hu := hprocessed.unique hprocessed'
  simp only [Outcome.ret.injEq, Prod.mk.injEq, true_and] at hu
  obtain ⟨⟨rfl, rfl⟩, rfl⟩ := hu
  obtain rfl : resp = resp' := Option.some.inj (hresp.symm.trans hresp')
  have hw := hresponse.unique hresponse'
  simp only [Outcome.ret.injEq] at hw
  exact ⟨rfl, hw.2⟩

/-- A command can succeed in one way only. -/
theorem Succeeds.unique {k k₁ k₂ : ℕ} {r r₁ r₂ : Json} {w w₁ w₂ : NeoWorld σ}
    (h : Succeeds L blobs tx query k k₁ r r₁ w w₁)
    (h' : Succeeds L blobs tx query k k₂ r r₂ w w₂) : k₁ = k₂ ∧ r₁ = r₂ ∧ w₁ = w₂ := by
  obtain ⟨c, cypher, blob, hstatement, hblob, hanswers⟩ := h
  obtain ⟨c', cypher', blob', hstatement', hblob', hanswers'⟩ := h'
  obtain ⟨rfl, rfl⟩ := hstatement.unique hstatement'
  obtain ⟨rfl, rfl⟩ := hblob.unique hblob'
  exact ⟨rfl, hanswers.unique hanswers'⟩

/-! ### The runs of the loop -/

omit [Platform] in
theorem sat_checking {α : Type} (m : Checking α) (s : NeoState σ κ τ) :
    Sat (checking m) s (fun a t => t = s ∧ ∃ n, m n () = .ret a ())
      (fun _ t => t = s ∧ ∀ a n, m n () ≠ .ret a ()) := by
  intro n
  rw [checking]
  simp only [focus]
  cases hm : m n () with
  | ret a u => exact ⟨rfl, n, hm⟩
  | throw e u =>
      refine ⟨rfl, fun a k hk => ?_⟩
      exact absurd ((Runs.of_run hm (by simp)).unique (Runs.of_ret hk)) (by simp)
  | stuck => trivial

/-- From `s` to `t` the loop has made these steps. -/
structure Stepped (s t : NeoState σ κ τ) (cs : List (NeoEvent κ τ)) : Prop where
  events : t.events = s.events ++ cs
  connPool : t.connPool = s.connPool
  steps : ∀ e ∈ cs, e.isStep = true

omit [Platform] in
theorem Stepped.refl (s : NeoState σ κ τ) : Stepped s s [] where
  events := (List.append_nil _).symm
  connPool := rfl
  steps := by simp

omit [Platform] in
theorem Stepped.trans {s t u : NeoState σ κ τ} {cs cs' : List (NeoEvent κ τ)}
    (h : Stepped s t cs) (h' : Stepped t u cs') : Stepped s u (cs ++ cs') where
  events := by rw [h'.events, h.events, List.append_assoc]
  connPool := h'.connPool.trans h.connPool
  steps := List.forall_mem_append.2 ⟨h.steps, h'.steps⟩

omit [Platform] in
theorem sat_note {e : NeoEvent κ τ} (he : e.isStep = true) (s : NeoState σ κ τ) : Sat (note e) s
    (fun _ t => Stepped s t [e] ∧ t.toNeoWorld = s.toNeoWorld) (fun _ _ => False) :=
  fun _ => ⟨⟨rfl, rfl, by simpa using he⟩, rfl⟩

omit [Platform] in
theorem sat_processing {α : Type} (m : Neo4jCommand.Processing σ α) (s : NeoState σ κ τ) :
    Sat (processing m) s
      (fun a t => Stepped s t [] ∧ Runs m s.toNeoWorld (.ret a t.toNeoWorld))
      (fun _ t => Stepped s t [] ∧ ∀ a w, ¬ Runs m s.toNeoWorld (.ret a w)) := by
  intro n
  rw [processing]
  simp only [focus]
  have hstepped : ∀ w, Stepped s { s with toNeoWorld := w } [] := fun w =>
    ⟨(List.append_nil _).symm, rfl, by simp⟩
  cases hm : m n s.toNeoWorld with
  | ret a w => exact ⟨hstepped w, Runs.of_ret hm⟩
  | throw e w =>
      refine ⟨hstepped w, fun a w' h => ?_⟩
      exact absurd ((Runs.of_run hm (by simp)).unique h) (by simp)
  | stuck => trivial

theorem commandOf_eq {c : Neo4jCommand} {cypher : String} {n : ℕ} :
    commandOf query n () = .ret (c, cypher) () ↔ IsStatement query c cypher := by
  simp only [commandOf, bind_eq_ret, firstMember_eq, ofQuery_eq, registered_eq]
  constructor
  · rintro ⟨cmd, ⟨v, rest, rfl⟩, v', hv', j, hj, cypher', hcypher, c', hc, hret⟩
    rw [get_first] at hv'
    obtain rfl : v = v' := by simpa using hv'
    obtain ⟨rfl, rfl⟩ : c' = c ∧ cypher' = cypher := by simpa using hret
    exact ⟨cmd, v, rest, rfl, hc, j, hj, hcypher⟩
  · rintro ⟨cmd, v, rest, rfl, hc, j, hj, hcypher⟩
    exact ⟨cmd, ⟨v, rest, rfl⟩, v, get_first cmd v rest, j, hj, cypher, hcypher, c, hc, rfl⟩

theorem takeBlob_eq {c : Neo4jCommand} {k k' n : ℕ} {blob : Bytes} :
    takeBlob blobs c query k n () = .ret (blob, k') () ↔ HasBlob blobs c query k blob k' := by
  rw [takeBlob, bind_eq_ret]
  simp only [ofQuery_eq, HasBlob]
  constructor
  · rintro ⟨needs, hneeds, h⟩
    cases needs with
    | true =>
        rw [if_pos rfl] at h
        cases hblob : blobs[k]? with
        | none =>
            rw [hblob] at h
            simp at h
        | some b =>
            rw [hblob] at h
            obtain ⟨rfl, rfl⟩ : b = blob ∧ k + 1 = k' := by simpa using h
            exact .inl ⟨hneeds, rfl, rfl⟩
    | false =>
        obtain ⟨rfl, rfl⟩ : [] = blob ∧ k = k' := by simpa using h
        exact .inr ⟨hneeds, rfl, rfl⟩
  · rintro (⟨hneeds, hblob, rfl⟩ | ⟨hneeds, rfl, rfl⟩)
    · refine ⟨true, hneeds, ?_⟩
      rw [if_pos rfl, hblob]
      rfl
    · exact ⟨false, hneeds, rfl⟩

/-- `hello_res`: nothing yet, or an object. -/
def IsRecord (j : Json) : Prop := j = .null ∨ ∃ ms, j = .object ms

omit [Platform] in
/-- `metadata_res` can be set. -/
theorem metadataSet_eq {resStream : ResultStream} {neo4jResp helloRes : Json}
    (hresp : BackendNeo4j.resultsToJson resStream = some neo4jResp) (h : IsRecord helloRes) :
    ∃ helloRes', IsRecord helloRes' ∧ ∀ n, metadataSet neo4jResp helloRes n () =
      .ret helloRes' () := by
  obtain ⟨rows, rfl⟩ : ∃ rows, neo4jResp = .object [("metadata_res", rows)] := by
    rw [BackendNeo4j.resultsToJson] at hresp
    split at hresp
    · simp at hresp
    · simp only [Option.pure_def, Option.bind_eq_bind, Option.bind_eq_some_iff,
        Option.some.injEq] at hresp
      obtain ⟨-, -, rows, -, rfl⟩ := hresp
      exact ⟨_, rfl⟩
  rcases h with rfl | ⟨ms, rfl⟩
  · exact ⟨_, .inr ⟨_, rfl⟩, fun n => rfl⟩
  · exact ⟨_, .inr ⟨_, rfl⟩, fun n => rfl⟩

variable [DecidableEq κ] [DecidableEq τ]

/-- What a pass of the loop leaves. It is noted if the command has succeeded, as `Q` says. -/
def PassEnds (Q : ℕ → Json → NeoWorld σ → Prop) (s : NeoState σ κ τ) :
    Option Pass → NeoState σ κ τ → Prop
  | none, t => ∃ cs, Stepped s t cs ∧ ∀ k r w, ¬ Q k r w
  | some p, t => ∃ cs, Stepped s t cs ∧ IsRecord p.helloRes ∧
      (cs.count .succeeded = 1 ∧ Q p.blobCount p.cmdResult t.toNeoWorld ∨
        cs.count .succeeded = 0 ∧ ∀ k r w, ¬ Q k r w)

omit [Platform] in
theorem PassEnds.imp {Q Q' : ℕ → Json → NeoWorld σ → Prop} {r : Option Pass}
    {t : NeoState σ κ τ} (h : PassEnds Q s r t) (hQ : ∀ k r w, Q k r w ↔ Q' k r w) :
    PassEnds Q' s r t := by
  obtain rfl : Q = Q' := by
    funext k r w
    exact propext (hQ k r w)
  exact h

omit [Platform] [DecidableEq κ] [DecidableEq τ] in
theorem sat_runInTx (cypher : String) (s : NeoState σ κ τ) : Sat (runInTx L cypher tx) s
    (fun a t => Stepped s t [.runInTx tx] ∧ a = (L.runInTx tx cypher s.server).1 ∧
      t.toNeoWorld = { s.toNeoWorld with server := (L.runInTx tx cypher s.server).2 })
    (fun _ _ => False) :=
  fun _ => ⟨⟨rfl, rfl, by simp [NeoEvent.isStep]⟩, rfl, rfl⟩

omit [Platform] [DecidableEq κ] [DecidableEq τ] in
theorem sat_resultsToJson (resStream : ResultStream) (s : NeoState σ κ τ) :
    Sat (resultsToJson resStream) s
      (fun a t => t = s ∧ BackendNeo4j.resultsToJson resStream = some a) (fun _ _ => False) := by
  rw [resultsToJson]
  cases BackendNeo4j.resultsToJson resStream with
  | none => exact Sat.stuck
  | some a => exact Sat.pure ⟨rfl, rfl⟩

omit [Platform] [DecidableEq κ] [DecidableEq τ] in
theorem sat_respond {resStream : ResultStream} {neo4jResp : Json} {p : Pass}
    (hresp : BackendNeo4j.resultsToJson resStream = some neo4jResp) (hp : IsRecord p.helloRes)
    (s : NeoState σ κ τ) : Sat (respond neo4jResp p) s
      (fun p' t => p'.blobCount = p.blobCount ∧ p'.cmdResult = p.cmdResult ∧
        IsRecord p'.helloRes ∧ Stepped s t [] ∧ t.toNeoWorld = s.toNeoWorld)
      (fun _ _ => False) := by
  obtain ⟨helloRes', hrecord, hset⟩ := metadataSet_eq hresp hp
  intro n
  simp only [respond, bind_apply, checking, focus, hset, Outcome.andThen_ret, modify_apply,
    pure_apply]
  exact ⟨rfl, rfl, hrecord, ⟨(List.append_nil _).symm, rfl, by simp⟩, rfl⟩

omit [Platform] in
/-- The command is noted as through if it is. -/
theorem sat_whenNote {c : Prop} [Decidable c] (s : NeoState σ κ τ) :
    Sat (when c (note .succeeded)) s
      (fun _ t => t.toNeoWorld = s.toNeoWorld ∧ ∃ cs, Stepped s t cs ∧
        (c ∧ cs.count .succeeded = 1 ∨ ¬ c ∧ cs.count .succeeded = 0))
      (fun _ _ => False) := by
  by_cases h : c
  · rw [when_pos h]
    exact (sat_note rfl s).mono (fun _ t ht => ⟨ht.2, _, ht.1, .inl ⟨h, by simp⟩⟩) nofun
  · rw [when_neg h]
    exact Sat.pure ⟨rfl, [], Stepped.refl s, .inr ⟨h, by simp⟩⟩

theorem sat_processCommand {c : Neo4jCommand} {cypher : String} {blob : Bytes} {p : Pass}
    (hp : IsRecord p.helloRes) :
    let Q := fun k r w => k = p.blobCount ∧
      Answers L tx query c cypher blob p.cmdResult r s.toNeoWorld w
    Sat (processCommand L tx query c cypher blob p) s (PassEnds Q s)
      (fun _ t => PassEnds Q s none t) := by
  intro Q
  rw [processCommand]
  refine Sat.bind ((sat_note rfl s).mono (fun _ _ h => h) nofun) ?_
  rintro - s₁ ⟨hs₁, hw₁⟩
  refine Sat.bind ((sat_processing _ s₁).mono (fun _ _ h => h) ?_) ?_
  · rintro - t ⟨ht, hno⟩
    refine ⟨_, hs₁.trans ht, ?_⟩
    rintro k r w ⟨-, cypher', w', hprocessed, -⟩
    rw [hw₁] at hno
    exact hno _ _ hprocessed
  rintro ⟨rc, cypher', r'⟩ s₂ ⟨hs₂, hprocessed⟩
  rw [hw₁] at hprocessed
  replace hs₂ := hs₁.trans hs₂
  -- what an answer of the command looks like from here
  have hanswers : ∀ {r w}, Answers L tx query c cypher blob p.cmdResult r s.toNeoWorld w →
      rc = 0 ∧ r = r' ∧ (L.runInTx tx cypher' s₂.server).1.failure = false ∧
        ∃ neo4jResp,
          BackendNeo4j.resultsToJson (L.runInTx tx cypher' s₂.server).1 = some neo4jResp ∧
        ∃ response, Runs (c.constructResponses L neo4jResp query)
          { s₂.toNeoWorld with server := (L.runInTx tx cypher' s₂.server).2 }
          (.ret response w) ∧ c.isError response = false := by
    rintro r w ⟨cypher₁, w₁, hprocessed₁, hrest⟩
    have heq := hprocessed.unique hprocessed₁
    simp only [Outcome.ret.injEq, Prod.mk.injEq] at heq
    obtain ⟨⟨rfl, rfl, rfl⟩, rfl⟩ := heq
    exact ⟨rfl, rfl, hrest⟩
  refine Sat.ite (fun hrc => ?_) fun hrc => ?_
  · exact Sat.pure ⟨_, hs₂, fun k r w h => hrc (hanswers h.2).1⟩
  obtain rfl : rc = 0 := not_not.1 hrc
  refine Sat.bind ((sat_runInTx cypher' s₂).mono (fun _ _ h => h) nofun) ?_
  rintro resStream s₃ ⟨hs₃, rfl, hw₃⟩
  refine Sat.bind ((sat_resultsToJson _ s₃).mono (fun _ _ h => h) nofun) ?_
  rintro neo4jResp s₃ ⟨rfl, hresp⟩
  refine Sat.bind ((sat_note rfl s₃).mono (fun _ _ h => h) nofun) ?_
  rintro - s₄ ⟨hs₄, hw₄⟩
  replace hs₄ := (hs₂.trans hs₃).trans hs₄
  rw [hw₃] at hw₄
  replace hanswers : ∀ {r w}, Answers L tx query c cypher blob p.cmdResult r s.toNeoWorld w →
      r = r' ∧ (L.runInTx tx cypher' s₂.server).1.failure = false ∧
        ∃ response, Runs (c.constructResponses L neo4jResp query) s₄.toNeoWorld
          (.ret response w) ∧ c.isError response = false := by
    intro r w h
    obtain ⟨-, rfl, hfailure, resp, hresp', hrest⟩ := hanswers h
    obtain rfl : neo4jResp = resp := Option.some.inj (hresp.symm.trans hresp')
    rw [hw₄]
    exact ⟨rfl, hfailure, hrest⟩
  refine Sat.bind ((sat_processing _ s₄).mono (fun _ _ h => h) ?_) ?_
  · rintro - t ⟨ht, hno⟩
    refine ⟨_, hs₄.trans ht, fun k r w h => ?_⟩
    obtain ⟨-, -, response, hresponse, -⟩ := hanswers h.2
    exact hno _ _ hresponse
  rintro response s₅ ⟨hs₅, hresponse⟩
  refine Sat.bind ((sat_whenNote s₅).mono (fun _ _ h => h) nofun) ?_
  rintro - s₆ ⟨hw₆, cs, hs₆, hnoted⟩
  refine Sat.bind
    ((sat_respond (p := { p with cmdResult := r' }) hresp hp s₆).mono (fun _ _ h => h) nofun) ?_
  rintro p' t ⟨hk, hr, hrecord, ht, hw⟩
  refine Sat.pure ⟨_, ((hs₄.trans hs₅).trans hs₆).trans ht, hrecord, ?_⟩
  rw [hw, hw₆]
  rcases hnoted with ⟨⟨hfailure, herror⟩, hcount⟩ | ⟨hnot, hcount⟩
  · refine .inl ⟨by simp [hcount], hk, ?_⟩
    rw [hr]
    rw [hw₄] at hresponse
    exact ⟨cypher', s₂.toNeoWorld, hprocessed, hfailure, neo4jResp, hresp, response, hresponse,
      herror⟩
  · refine .inr ⟨by simp [hcount], fun k r w h => hnot ?_⟩
    obtain ⟨-, hfailure, response', hresponse', herror⟩ := hanswers h.2
    have heq := hresponse.unique hresponse'
    simp only [Outcome.ret.injEq] at heq
    rw [heq.1]
    exact ⟨hfailure, herror⟩

theorem sat_runCommand {p : Pass} (hp : IsRecord p.helloRes) :
    let Q := fun k r w =>
      Succeeds L blobs tx query p.blobCount k p.cmdResult r s.toNeoWorld w
    Sat (runCommand L blobs tx query p) s (PassEnds Q s) (fun _ t => PassEnds Q s none t) := by
  intro Q
  rw [runCommand]
  refine Sat.bind ((sat_checking _ s).mono (fun _ _ h => h) ?_) ?_
  · rintro - t ⟨rfl, hno⟩
    refine ⟨[], Stepped.refl t, ?_⟩
    rintro k' r' w' ⟨c, cypher, blob, hstatement, -⟩
    exact hno (c, cypher) 0 (commandOf_eq.2 hstatement)
  rintro ⟨c, cypher⟩ t ⟨rfl, n, hcommand⟩
  have hstatement := commandOf_eq.1 hcommand
  refine Sat.bind ((sat_checking _ t).mono (fun _ _ h => h) ?_) ?_
  · rintro - t ⟨rfl, hno⟩
    refine ⟨[], Stepped.refl t, ?_⟩
    rintro k' r' w' ⟨c', cypher', blob, hstatement', hblob, -⟩
    obtain ⟨rfl, rfl⟩ := hstatement.unique hstatement'
    exact hno (blob, k') 0 (takeBlob_eq.2 hblob)
  rintro ⟨blob, k'⟩ u ⟨rfl, n, htake⟩
  have hblob := takeBlob_eq.1 htake
  have hQ : ∀ k r w, (k = k' ∧ Answers L tx query c cypher blob p.cmdResult r u.toNeoWorld w) ↔
      Q k r w := by
    intro k r w
    constructor
    · rintro ⟨rfl, h⟩
      exact ⟨c, cypher, blob, hstatement, hblob, h⟩
    · rintro ⟨c', cypher', blob', hstatement', hblob', h⟩
      obtain ⟨rfl, rfl⟩ := hstatement.unique hstatement'
      obtain ⟨rfl, rfl⟩ := hblob.unique hblob'
      exact ⟨rfl, h⟩
  exact (sat_processCommand (p := { p with blobCount := k' }) hp).mono
    (fun _ _ h => h.imp hQ) fun _ _ h => h.imp hQ

omit [DecidableEq κ] [DecidableEq τ] in
theorem EachSucceeds.cons_inv {queries : List Json} {k k' : ℕ} {r r' : Json} {w w' : NeoWorld σ}
    (h : EachSucceeds L blobs tx (query :: queries) k r w)
    (hq : Succeeds L blobs tx query k k' r r' w w') :
    EachSucceeds L blobs tx queries k' r' w' := by
  cases h with
  | cons hq' hrest =>
      obtain ⟨rfl, rfl, rfl⟩ := hq.unique hq'
      exact hrest

/-- The loop over the elements with these indices. It notes each success, so that it has noted
all of them if each command succeeds. -/
theorem sat_commandLoop {queries : List Json} {p : Pass} (hp : IsRecord p.helloRes)
    (is : List ℕ) :
    let Each := EachSucceeds L blobs tx (is.map fun j => queries[j]?.getD .null) p.blobCount
      p.cmdResult s.toNeoWorld
    Sat (commandLoop L blobs tx (.array queries) is p) s
      (fun left t => ∃ cs, Stepped s t cs ∧
        if left then ¬ Each
        else cs.count .succeeded ≤ is.length ∧ (cs.count .succeeded = is.length ↔ Each))
      (fun _ t => ∃ cs, Stepped s t cs ∧ ¬ Each) := by
  induction is generalizing p s with
  | nil => exact Sat.pure ⟨[], Stepped.refl s, by simpa using EachSucceeds.nil⟩
  | cons j is ih =>
      intro Each
      have hquery : (Json.array queries).index j = .ok (queries[j]?.getD .null) := rfl
      rw [commandLoop, hquery]
      refine Sat.bind (Sat.pure (Q := fun a t => a = queries[j]?.getD .null ∧ s = t)
        ⟨rfl, rfl⟩) ?_
      rintro - - ⟨rfl, rfl⟩
      have hfails : (∀ k r w, ¬ Succeeds L blobs tx (queries[j]?.getD .null) p.blobCount k
          p.cmdResult r s.toNeoWorld w) → ¬ Each := by
        rintro hno (_ | ⟨hq, -⟩)
        exact hno _ _ _ hq
      refine Sat.bind ((sat_runCommand hp).mono (fun _ _ h => h) ?_) ?_
      · rintro - t ⟨cs, ht, hno⟩
        exact ⟨cs, ht, hfails hno⟩
      rintro r t hr
      cases r with
      | none =>
          obtain ⟨cs, ht, hno⟩ := hr
          exact Sat.pure ⟨cs, ht, hfails hno⟩
      | some p' =>
          obtain ⟨cs, ht, hrecord, hends⟩ := hr
          rcases hends with ⟨hcount, hq⟩ | ⟨hcount, hno⟩
          · have heach : Each ↔ EachSucceeds L blobs tx
                (is.map fun j => queries[j]?.getD .null) p'.blobCount p'.cmdResult
                t.toNeoWorld :=
              ⟨fun h => h.cons_inv hq, fun h => .cons hq h⟩
            rw [heach]
            refine (ih hrecord).mono ?_ ?_
            · rintro left u ⟨cs', hu, hleft⟩
              refine ⟨cs ++ cs', ht.trans hu, ?_⟩
              cases left with
              | true => exact hleft
              | false =>
                  obtain ⟨hle, hiff⟩ := hleft
                  rw [if_neg (by simp), ← hiff, List.count_append, hcount, List.length_cons]
                  omega
            · rintro - u ⟨cs', hu, hno⟩
              exact ⟨cs ++ cs', ht.trans hu, hno⟩
          · refine (ih hrecord).mono ?_ ?_
            · rintro left u ⟨cs', hu, hleft⟩
              refine ⟨cs ++ cs', ht.trans hu, ?_⟩
              cases left with
              | true => exact hfails hno
              | false =>
                  obtain ⟨hle, -⟩ := hleft
                  have heach := hfails hno
                  rw [if_neg (by simp), List.count_append, hcount, List.length_cons]
                  exact ⟨by omega, fun h => absurd h (by omega), fun h => absurd h heach⟩
            · rintro - u ⟨cs', hu, -⟩
              exact ⟨cs ++ cs', ht.trans hu, hfails hno⟩

/-! ### The protocol -/

/-- **The protocol**, of a request with so many commands: none is run after `parse_commands` has
reported failure, each transaction that is opened is ended once, by a commit only if every
command has succeeded, and each connection that is taken is given back once. -/
structure KeepsProtocol (commands : ℕ) (es : List (NeoEvent κ τ)) : Prop where
  rejected : ∀ before rc after, es = before ++ .parseCommands rc :: after → rc ≠ 0 →
    ∀ e ∈ after, e.isStep = false
  ended : Bracket.Balanced NeoEvent.transaction es
  committed : ∀ before tx after, es = before ++ .commitTx tx :: after →
    before.count .succeeded = commands
  returned : Bracket.Balanced NeoEvent.connection es

/-- The request is accepted, and its commands succeed, in the transaction and on the server that
it gets. -/
def Answerable (L : Neo4jLibrary σ κ τ ι) (msg : QueryMessage) (s : NeoState σ κ τ) : Prop :=
  ∃ conn rest, s.connPool = conn :: rest ∧ ∃ queries, Accepted msg queries ∧
    let (tx, server) := L.beginTx conn 10000 "w" s.server
    EachSucceeds L msg.blobs tx queries 0 .null { s.toNeoWorld with server }

/-- The calls of a request, however it has ended. -/
def eventsOf : Outcome (NeoState σ κ τ) NeoError Unit → List (NeoEvent κ τ)
  | .ret _ t | .throw _ t => t.events
  | .stuck => []

section Traces

variable {conn : κ} {cs es : List (NeoEvent κ τ)} {commands : ℕ}

/-- The calls of a request before its first command. -/
def opening (conn : κ) (rc : ℤ) (tx : τ) : List (NeoEvent κ τ) :=
  [.getConn conn, .parseCommands rc, .openTx tx]

omit [Platform] [DecidableEq κ] [DecidableEq τ] in
theorem isStep_neither {e : NeoEvent κ τ} (h : e.isStep = true) :
    e.connection = .neither ∧ e.transaction = .neither := by
  cases e <;> simp_all [NeoEvent.isStep, NeoEvent.connection, NeoEvent.transaction]

omit [Platform] in
/-- A request that leaves by an exception keeps its connection. -/
theorem not_keepsProtocol_of_kept (conn : κ) (hget : .getConn conn ∈ es)
    (hput : .putConn conn ∉ es) : ¬ KeepsProtocol commands es := by
  intro h
  have htakes : (.getConn conn : NeoEvent κ τ).connection = .takes conn := rfl
  refine Bracket.not_balanced_of_kept hget htakes (fun e he hgives => ?_) h.returned
  cases e with
  | putConn conn' =>
      obtain rfl : conn' = conn := by simpa [NeoEvent.connection] using hgives
      exact hput he
  | _ => simp [NeoEvent.connection] at hgives

omit [Platform] in
/-- A request that leaves the loop early keeps its transaction open. -/
theorem not_keepsProtocol_of_open (tx : τ) (hopen : .openTx tx ∈ es) (hcommit : .commitTx tx ∉ es)
    (hrollback : .rollbackTx tx ∉ es) : ¬ KeepsProtocol commands es := by
  intro h
  have htakes : (.openTx tx : NeoEvent κ τ).transaction = .takes tx := rfl
  refine Bracket.not_balanced_of_kept hopen htakes (fun e he hgives => ?_) h.ended
  cases e with
  | commitTx tx' =>
      obtain rfl : tx' = tx := by simpa [NeoEvent.transaction] using hgives
      exact hcommit he
  | rollbackTx tx' =>
      obtain rfl : tx' = tx := by simpa [NeoEvent.transaction] using hgives
      exact hrollback he
  | _ => simp [NeoEvent.transaction] at hgives

omit [Platform] [DecidableEq κ] [DecidableEq τ] in
theorem not_mem_of_steps (hcs : ∀ e ∈ cs, e.isStep = true) {e : NeoEvent κ τ}
    (he : e.isStep = false) : e ∉ cs := by
  intro hmem
  rw [hcs e hmem] at he
  exact absurd he (by simp)

omit [Platform] in
/-- A request that commits. -/
theorem keepsProtocol_iff (hcs : ∀ e ∈ cs, e.isStep = true) :
    KeepsProtocol commands (opening conn 0 tx ++ cs ++ [.commitTx tx, .putConn conn]) ↔
      cs.count .succeeded = commands := by
  have hcount : (opening conn 0 tx ++ cs).count .succeeded = cs.count .succeeded := by
    simp [opening]
  constructor
  · intro h
    rw [← hcount]
    exact h.committed _ tx [.putConn conn] rfl
  · intro h
    constructor
    · intro before rc after heq hrc
      have hmem : .parseCommands rc ∈ before ++ .parseCommands rc :: after := by simp
      rw [← heq] at hmem
      simp [opening, not_mem_of_steps hcs (e := .parseCommands rc) rfl, hrc] at hmem
    · have hopened : Bracket.run NeoEvent.transaction [] (opening conn 0 tx) = some [tx] := by
        simp [opening, Bracket.run, Bracket.step, NeoEvent.transaction]
      have hended : Bracket.run NeoEvent.transaction [tx]
          [.commitTx tx, .putConn conn] = some [] := by
        simp [Bracket.run, Bracket.step, NeoEvent.transaction]
      rw [Bracket.Balanced, Bracket.run_append, Bracket.run_append, hopened, Option.bind_some,
        Bracket.run_neither fun e he => (isStep_neither (hcs e he)).2, Option.bind_some, hended]
    · intro before tx' after heq
      obtain ⟨rfl, -, -⟩ := (List.append_cons_inj_of_notMem
        (by simp [opening, not_mem_of_steps hcs (e := .commitTx tx') rfl]) (by simp)).1 heq
      rw [hcount, h]
    · have htaken : Bracket.run NeoEvent.connection [] (opening conn 0 tx) = some [conn] := by
        simp [opening, Bracket.run, Bracket.step, NeoEvent.connection]
      have hgiven : Bracket.run NeoEvent.connection [conn]
          [.commitTx tx, .putConn conn] = some [] := by
        simp [Bracket.run, Bracket.step, NeoEvent.connection]
      rw [Bracket.Balanced, Bracket.run_append, Bracket.run_append, htaken, Option.bind_some,
        Bracket.run_neither fun e he => (isStep_neither (hcs e he)).1, Option.bind_some, hgiven]

end Traces

/-! ### The runs of a request -/

section Requests

variable {report : Json → String} {msg : QueryMessage} {conn : κ} {rest : List κ}

omit [Platform] [DecidableEq κ] [DecidableEq τ] in
theorem sat_openTx (conn : κ) (s : NeoState σ κ τ) : Sat (openTx L conn 10000 "w") s
    (fun tx t => tx = (L.beginTx conn 10000 "w" s.server).1 ∧
      t.events = s.events ++ [.openTx tx] ∧
      t.toNeoWorld = { s.toNeoWorld with server := (L.beginTx conn 10000 "w" s.server).2 })
    (fun _ _ => False) :=
  fun _ => ⟨rfl, rfl, rfl⟩

omit [Platform] [DecidableEq κ] [DecidableEq τ] in
theorem sat_getConn (hpool : s.connPool = conn :: rest) : Sat getConn s
    (fun a t => conn = a ∧ t.events = s.events ++ [.getConn conn] ∧
      t.toNeoWorld = s.toNeoWorld) (fun _ _ => False) := by
  intro n
  simp [getConn, note, hpool, Outcome.Ok]

omit [DecidableEq κ] [DecidableEq τ] in
/-- The loop over the root of a rejected request: its element 0 raises an exception. -/
theorem commandLoop_rejected {ms : List (String × Json)} (hms : ms ≠ []) (p : Pass) (n : ℕ) :
    commandLoop L blobs tx (.object ms) (List.range (Json.object ms).size) p n s =
      .throw .json s := by
  obtain ⟨m, ms, rfl⟩ := List.exists_cons_of_ne_nil hms
  have hsize : (Json.object (m :: ms)).size = ms.length + 1 := rfl
  rw [hsize, List.range_succ_eq_map]
  rfl

omit [Platform] in
/-- What the loop is run over, and what it is for. -/
theorem map_range_getD (queries : List Json) :
    ((List.range (Json.array queries).size).map fun j => queries[j]?.getD .null) = queries := by
  rw [QueryHandlerPMGD.size_array]
  refine List.ext_getElem (by simp) fun i h h' => ?_
  simp [List.getElem?_eq_getElem h']

omit [Platform] [DecidableEq κ] [DecidableEq τ] in
/-- What is done after the loop. -/
theorem sat_leave (left : Bool) (tx : τ) (conn : κ) (s : NeoState σ κ τ) :
    Sat (when (left = false) (commitTx L tx) >>= fun _ => putConn conn) s
      (fun _ t => t.events = s.events ++
        if left then [.putConn conn] else [.commitTx tx, .putConn conn])
      (fun _ _ => False) := by
  intro n
  cases left with
  | true => rfl
  | false =>
      rw [when_pos rfl]
      exact List.append_assoc _ _ _

/-- How a request ends, from a pool with a connection: what is rejected ends in an exception,
and no command of it is run. -/
theorem sat_processQuery (hpool : s.connPool = conn :: rest) (hs : s.events = []) :
    Sat (processQuery L report msg) s
      (fun _ t => (∃ queries, Accepted msg queries) ∧
        (KeepsProtocol msg.root.size t.events ↔ Answerable L msg s))
      (fun _ t => ((∃ queries, Accepted msg queries) ∨ ∀ e ∈ t.events, e.isStep = false) ∧
        ¬ KeepsProtocol msg.root.size t.events ∧ ¬ Answerable L msg s) := by
  rw [processQuery]
  refine Sat.bind ((sat_getConn hpool).mono (fun _ _ h => h) nofun) ?_
  rintro a s₁ ⟨rfl, hs₁, hw₁⟩
  rw [hs, List.nil_append] at hs₁
  refine Sat.bind ((sat_checking _ s₁).mono (fun _ _ h => h) ?_) ?_
  · rintro - t ⟨rfl, hno⟩
    refine ⟨.inr (by simp [hs₁, NeoEvent.isStep]),
      not_keepsProtocol_of_kept conn (by simp [hs₁]) (by simp [hs₁]), ?_⟩
    rintro ⟨-, -, -, queries, haccepted, -⟩
    exact hno _ 0 (parseCommands_accepted haccepted)
  rintro ⟨rc, root⟩ s₂ ⟨rfl, n, hparsed⟩
  refine Sat.modify_bind ?_
  refine Sat.bind ((sat_openTx conn _).mono (fun _ _ h => h) nofun) ?_
  rintro tx s₃ ⟨htx, hs₃, hw₃⟩
  replace hs₃ : s₃.events = opening conn rc tx := by
    rw [hs₃, hs₁]
    rfl
  rcases parseCommands_eq hparsed with ⟨hrc, ms, rfl, hms⟩ | ⟨rfl, queries, rfl, haccepted⟩
  · intro n
    rw [bind_apply, commandLoop_rejected hms]
    refine ⟨.inr (by simp [hs₃, opening, NeoEvent.isStep]),
      not_keepsProtocol_of_kept conn (by simp [hs₃, opening]) (by simp [hs₃, opening]), ?_⟩
    rintro ⟨-, -, -, queries, haccepted, -⟩
    have heq := hparsed.symm.trans (parseCommands_accepted haccepted)
    simp only [Outcome.ret.injEq, Prod.mk.injEq] at heq
    exact hrc heq.1.1
  have hmsg : msg.root = .array queries := by
    obtain ⟨doc, hjson, hroot⟩ := haccepted.read
    rw [QueryMessage.root, hjson]
    exact hroot
  have hworld : s₃.toNeoWorld =
      { s.toNeoWorld with server := (L.beginTx conn 10000 "w" s.server).2 } := by
    rw [hw₃]
    simp only [hw₁]
  have hanswerable : Answerable L msg s ↔
      EachSucceeds L msg.blobs tx queries 0 .null s₃.toNeoWorld := by
    rw [htx, hworld]
    simp only [hw₁]
    constructor
    · rintro ⟨conn', rest', hpool', queries', haccepted', heach⟩
      obtain ⟨rfl, rfl⟩ : conn = conn' ∧ rest = rest' := by
        simpa using hpool.symm.trans hpool'
      have hparsed' : parseCommands report msg n () = .ret (0, .array queries') () :=
        parseCommands_accepted haccepted'
      obtain rfl : queries' = queries := by simpa using hparsed'.symm.trans hparsed
      exact heach
    · intro heach
      exact ⟨conn, rest, hpool, queries, haccepted, heach⟩
  have hloop : Sat (commandLoop L msg.blobs tx (.array queries)
      (List.range (Json.array queries).size) {}) s₃ _ _ :=
    sat_commandLoop (.inl rfl) _
  rw [map_range_getD] at hloop
  refine Sat.bind (hloop.mono (fun _ _ h => h) ?_) ?_
  · rintro - t ⟨cs, ht, hno⟩
    rw [hanswerable, ht.events, hs₃]
    refine ⟨.inl ⟨queries, haccepted⟩,
      not_keepsProtocol_of_kept conn (by simp [opening]) ?_, hno⟩
    simp [opening, not_mem_of_steps ht.steps (e := .putConn conn) rfl]
  rintro left t ⟨cs, ht, hleft⟩
  rw [hanswerable]
  refine (sat_leave left tx conn t).mono ?_ nofun
  intro _ u hu
  rw [ht.events, hs₃] at hu
  refine ⟨⟨queries, haccepted⟩, ?_⟩
  cases left with
  | true =>
      refine iff_of_false ?_ hleft
      rw [hu]
      exact not_keepsProtocol_of_open tx (by simp [opening])
        (by simp [opening, not_mem_of_steps ht.steps (e := .commitTx tx) rfl])
        (by simp [opening, not_mem_of_steps ht.steps (e := .rollbackTx tx) rfl])
  | false =>
      obtain ⟨-, hcount⟩ := hleft
      rw [hu, hmsg, ← hcount, List.length_range]
      exact keepsProtocol_iff ht.steps

omit [DecidableEq κ] [DecidableEq τ] in
/-- Without a connection the request waits. -/
theorem connPool_ne_nil {o : Outcome (NeoState σ κ τ) NeoError Unit}
    (h : Runs (processQuery L report msg) s o) (ho : o ≠ .stuck) :
    ∃ conn rest, s.connPool = conn :: rest := by
  cases hpool : s.connPool with
  | nil =>
      have hstuck : ∀ n, processQuery L report msg n s = .stuck := by
        intro n
        simp [processQuery, getConn, hpool]
      exact absurd (h.unique (Runs.of_eq hstuck)) ho
  | cons conn rest => exact ⟨conn, rest, rfl⟩

/-- A request that is rejected ends in an exception, and no command of it has been run. -/
theorem rejected_runs_nothing {o : Outcome (NeoState σ κ τ) NeoError Unit} (hs : s.events = [])
    (h : Runs (processQuery L report msg) s o) (ho : o ≠ .stuck)
    (hrejected : ∀ queries, ¬ Accepted msg queries) :
    ∃ e t, o = .throw e t ∧ ∀ e ∈ t.events, e.isStep = false := by
  obtain ⟨conn, rest, hpool⟩ := connPool_ne_nil h ho
  obtain ⟨N, hN⟩ := h
  have hok : (processQuery L report msg N s).Ok _ _ := sat_processQuery hpool hs N
  rw [hN N le_rfl] at hok
  cases o with
  | ret a t =>
      obtain ⟨⟨queries, haccepted⟩, -⟩ := hok
      exact absurd haccepted (hrejected queries)
  | throw e t =>
      obtain ⟨⟨queries, haccepted⟩ | hsteps, -⟩ := hok
      · exact absurd haccepted (hrejected queries)
      · exact ⟨e, t, rfl, hsteps⟩
  | stuck => exact absurd rfl ho

/-- **Requests to Neo4j.** However a request ends, it has kept the protocol exactly if it was
accepted and all its commands have succeeded. -/
theorem request_protocol_iff (L : Neo4jLibrary σ κ τ ι) (report : Json → String)
    (msg : QueryMessage) {s : NeoState σ κ τ} {o : Outcome (NeoState σ κ τ) NeoError Unit}
    (hs : s.events = []) (h : Runs (processQuery L report msg) s o) (ho : o ≠ .stuck) :
    KeepsProtocol msg.root.size (eventsOf o) ↔ Answerable L msg s := by
  obtain ⟨conn, rest, hpool⟩ := connPool_ne_nil h ho
  obtain ⟨N, hN⟩ := h
  have hok : (processQuery L report msg N s).Ok _ _ := sat_processQuery hpool hs N
  rw [hN N le_rfl] at hok
  cases o with
  | ret a t => exact hok.2
  | throw e t =>
      obtain ⟨-, hkeeps, hanswerable⟩ := hok
      exact iff_of_false hkeeps hanswerable
  | stuck => exact absurd rfl ho

end Requests

end Commands

/-! ### Two requests -/

/-- A server that answers every statement with an empty result, and images that can all be
decoded. -/
def emptyServer : Neo4jLibrary Unit ℕ ℕ Unit where
  beginTx _ _ _ server := (0, server)
  runInTx _ _ server := (⟨false, [], []⟩, server)
  commit _ server := server
  rand server := (0, server)
  connected _ := true
  write _ _ server := (true, server)
  read _ server := ([1], server)
  image _ _ := .ok ()
  imageFormat _ := .noneImage
  threshold _ := .ok
  resize _ _ := .ok
  crop _ _ _ _ := .ok
  flip _ := .ok
  rotate _ _ := .ok
  encodedImage _ _ := .ok [1]

/-- The first of its requests, with sixteen connections in the pool. -/
def freshState : NeoState Unit ℕ ℕ where
  server := ()
  connPool := List.range 16

/-- A request that adds an image of this type in this format. -/
def neoAddRequest (dataType format : String) : Document where
  root := .array [.object [("NeoAdd", .object [("cypher", .string "CREATE (VDMSNODE)"),
    ("target_data_type", .string dataType), ("target_format", .string format)])]]
  distinctKeys := by
    refine .array fun x hx => ?_
    obtain rfl := List.mem_singleton.1 hx
    refine .object (by simp) fun m hm => ?_
    obtain rfl := List.mem_singleton.1 hm
    refine .object (by simp) fun m hm => ?_
    simp only [List.mem_cons, List.not_mem_nil, or_false] at hm
    rcases hm with rfl | rfl | rfl <;> exact .string _

/-- Text that is not JSON leaves a transaction open and takes a connection away, and so does
not, but for the transaction, an image in a format that is not supported. -/
theorem malformed_request_leaves :
    ¬ KeepsProtocol 0 (eventsOf
      (processQuery emptyServer (fun _ => "") ⟨.error .null, []⟩ 0 freshState)) ∧
    ¬ KeepsProtocol 1 (eventsOf
      (processQuery emptyServer (fun _ => "") ⟨.ok (neoAddRequest "image" "webp"), [[1]]⟩ 0
        freshState)) := by
  have hmalformed : eventsOf
      (processQuery emptyServer (fun _ => "") ⟨.error .null, []⟩ 0 freshState) =
        opening 0 (-1) 0 := rfl
  have hunsupported : eventsOf
      (processQuery emptyServer (fun _ => "") ⟨.ok (neoAddRequest "image" "webp"), [[1]]⟩ 0
        freshState) = opening 0 0 0 ++ [.dataProcessing, .putConn 0] := rfl
  rw [hmalformed, hunsupported]
  exact ⟨not_keepsProtocol_of_kept 0 (by simp [opening]) (by simp [opening]),
    not_keepsProtocol_of_open 0 (by simp [opening]) (by simp [opening]) (by simp [opening])⟩

/-- A request that adds metadata twice. -/
def metadataRequest : Document where
  root := .array (List.replicate 2 (.object [("NeoAdd", .object
    [("cypher", .string "CREATE (VDMSNODE)"), ("target_data_type", .string "md_only"),
      ("target_format", .string "png")])]))
  distinctKeys := by
    refine .array fun x hx => ?_
    obtain rfl := List.eq_of_mem_replicate hx
    refine .object (by simp) fun m hm => ?_
    obtain rfl := List.mem_singleton.1 hm
    refine .object (by simp) fun m hm => ?_
    simp only [List.mem_cons, List.not_mem_nil, or_false] at hm
    rcases hm with rfl | rfl | rfl <;> exact .string _

/-- A request for metadata only keeps the protocol. -/
theorem request_protocol_metadata :
    ∃ o, Runs (processQuery emptyServer (fun _ => "") ⟨.ok metadataRequest, []⟩) freshState o ∧
      KeepsProtocol 2 (eventsOf o) ∧
      Answerable emptyServer ⟨.ok metadataRequest, []⟩ freshState := by
  have hrun : Runs (processQuery emptyServer (fun _ => "") ⟨.ok metadataRequest, []⟩) freshState
      (processQuery emptyServer (fun _ => "") ⟨.ok metadataRequest, []⟩ 0 freshState) :=
    Runs.of_eq fun _ => rfl
  have hevents : eventsOf (processQuery emptyServer (fun _ => "")
      ⟨.ok metadataRequest, []⟩ 0 freshState) =
        opening 0 0 0 ++ [.dataProcessing, .runInTx 0, .constructResponses, .succeeded,
          .dataProcessing, .runInTx 0, .constructResponses, .succeeded] ++
          [.commitTx 0, .putConn 0] := rfl
  have hkeeps : KeepsProtocol 2 (eventsOf (processQuery emptyServer (fun _ => "")
      ⟨.ok metadataRequest, []⟩ 0 freshState)) := by
    rw [hevents, keepsProtocol_iff (by decide)]
    decide
  exact ⟨_, hrun, hkeeps, (request_protocol_iff _ _ _ rfl hrun nofun).1 hkeeps⟩

end QueryHandlerNeo4j

end Vdms
