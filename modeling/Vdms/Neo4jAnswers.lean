import Vdms.Neo4jProtocol

/-!
# The Answers to Requests to Neo4j

The answer of `QueryHandlerNeo4j::process_query` is the list `json_responses`, to which each pass
of the loop appends `hello_res` with the rows of its statement. What `parse_commands` leaves in
its root, what `data_processing` returns and what `construct_responses` returns do not get into
it: the answer never reports an error, and there is none if the first command fails.

## Main results

* `not_reportsError`: no answer reports an error.
* `answers_own_rows`: the answer to a request whose commands all succeed.
* `failures_reach_client_iff`: the answer is what the client has to be told exactly if nothing
  has failed.
-/

namespace Vdms

open Imp Imp.Prog

namespace QueryHandlerNeo4j

/-! ### What an answer says -/

/-- An object with the status `Neo4jCommand::Error`. -/
def IsErrorStatus (j : Json) : Prop := j.get "status" = .ok (.int (-1))

/-- The answer, an entry of it, or the response to a command in an entry, is that of an error. -/
def ReportsError (j : Json) : Prop :=
  IsErrorStatus j ∨ ∃ e ∈ j.elements, IsErrorStatus e ∨ ∃ r ∈ e.elements, IsErrorStatus r

/-- `hello_res` with these rows. -/
def entry (rows : Json) : Json := .object [("metadata_res", rows)]

/-- `hello_res` as a pass finds it. -/
def IsHello (j : Json) : Prop := j = .null ∨ ∃ rows, j = entry rows

theorem not_isErrorStatus_appended (l : List Json) : ¬ IsErrorStatus (Json.appended l) := by
  rw [IsErrorStatus, Json.appended]
  by_cases h : l = []
  · simp [h, Json.get]
  · simp [h, Json.get]

theorem not_isErrorStatus_entry (rows : Json) : ¬ IsErrorStatus (entry rows) := by
  simp [IsErrorStatus, entry, Json.get, List.lookup_cons]

/-- A list of rows does not report an error, whatever the rows say. -/
theorem not_reportsError_entries {entries : List Json}
    (h : ∀ e ∈ entries, ∃ l, e = entry (Json.appended l)) :
    ¬ ReportsError (Json.appended entries) := by
  rintro (hstatus | ⟨e, he, herror⟩)
  · exact not_isErrorStatus_appended entries hstatus
  · have hmem : e ∈ entries := by
      rw [Json.appended] at he
      by_cases hnil : entries = []
      · simp [hnil, Json.elements, Json.members] at he
      · rwa [if_neg hnil, QueryHandlerPMGD.elements_array] at he
    obtain ⟨l, rfl⟩ := h e hmem
    rcases herror with hstatus | ⟨r, hr, hstatus⟩
    · exact not_isErrorStatus_entry _ hstatus
    · have hrows : r = Json.appended l := by
        simpa [entry, Json.elements, Json.members] using hr
      rw [hrows] at hstatus
      exact not_isErrorStatus_appended l hstatus

/-- What `results_to_json` gives. -/
theorem entry_of_results {resStream : ResultStream} {neo4jResp : Json}
    (h : BackendNeo4j.resultsToJson resStream = some neo4jResp) :
    ∃ l, neo4jResp = entry (Json.appended l) := by
  rw [BackendNeo4j.resultsToJson] at h
  split at h
  · simp at h
  · simp only [Option.pure_def, Option.bind_eq_bind, Option.bind_eq_some_iff,
      Option.some.injEq] at h
    obtain ⟨-, -, rows, -, rfl⟩ := h
    exact ⟨_, rfl⟩

section

variable {σ κ τ ι : Type} [Platform]

/-! ### The rows of the commands -/

section

variable (L : Neo4jLibrary σ κ τ ι) (blobs : List Bytes) (tx : τ)

/-- What the statement of a command finds, as `data_processing` has left the statement. -/
def StatementRows (query : Json) (c : Neo4jCommand) (cypher : String) (blob : Bytes) (r : Json)
    (w : NeoWorld σ) (rows : Json) : Prop :=
  ∃ cypher' r' w₁, Runs (c.dataProcessing L cypher query blob r) w (.ret (0, cypher', r') w₁) ∧
    BackendNeo4j.resultsToJson (L.runInTx tx cypher' w₁.server).1 = some (entry rows)

/-- The rows of the commands, which succeed one after the other. -/
inductive EachRows : List Json → ℕ → Json → NeoWorld σ → List Json → Prop where
  | nil {k r w} : EachRows [] k r w []
  | cons {query queries c cypher blob k k' r r' w w' rows rest} :
      IsStatement query c cypher → HasBlob blobs c query k blob k' →
      Answers L tx query c cypher blob r r' w w' →
      StatementRows L tx query c cypher blob r w rows →
      EachRows queries k' r' w' rest → EachRows (query :: queries) k r w (rows :: rest)

end

variable {L : Neo4jLibrary σ κ τ ι} {blobs : List Bytes} {tx : τ} {query : Json}
  {s t : NeoState σ κ τ} {p p' : Pass}

omit [Platform] in
/-- The end of a pass. -/
theorem respond_eq {rows : Json} (hp : IsHello p.helloRes) (n : ℕ) :
    respond (entry rows) p n s =
      .ret { p with helloRes := entry rows, jsonResponses := p.jsonResponses ++ [entry rows] }
        { s with json := .array (p.jsonResponses ++ [entry rows]) } := by
  have hset : metadataSet (entry rows) p.helloRes n () = .ret (entry rows) () := by
    rcases hp with h | ⟨rows', h⟩
    · rw [h]
      rfl
    · rw [h]
      rfl
  simp only [respond, bind_apply, checking, focus, hset, Outcome.andThen_ret, modify_apply,
    pure_apply]

/-! ### No answer reports an error -/

/-- The answer so far: the entries of the passes. -/
structure Listed (p : Pass) (s : NeoState σ κ τ) : Prop where
  hello : IsHello p.helloRes
  json : s.json = Json.appended p.jsonResponses
  entries : ∀ e ∈ p.jsonResponses, ∃ l, e = entry (Json.appended l)

omit [Platform] in
theorem json_note (e : NeoEvent κ τ) (s : NeoState σ κ τ) :
    Sat (note e) s (fun _ t => t.json = s.json) (fun _ _ => True) :=
  fun _ => rfl

omit [Platform] in
theorem json_processing {α : Type} (m : Neo4jCommand.Processing σ α) (s : NeoState σ κ τ) :
    Sat (processing m) s (fun _ t => t.json = s.json) (fun _ _ => True) := by
  intro n
  rw [processing]
  simp only [focus]
  cases m n s.toNeoWorld with
  | ret a w => exact rfl
  | throw e w => trivial
  | stuck => trivial

omit [Platform] in
theorem json_runInTx (cypher : String) (s : NeoState σ κ τ) :
    Sat (runInTx L cypher tx) s (fun _ t => t.json = s.json) (fun _ _ => True) :=
  fun _ => rfl

omit [Platform] in
theorem json_whenNote {c : Prop} [Decidable c] (s : NeoState σ κ τ) :
    Sat (when c (note .succeeded)) s (fun _ t => t.json = s.json) (fun _ _ => True) := by
  by_cases h : c
  · rw [when_pos h]
    exact json_note _ s
  · rw [when_neg h]
    exact Sat.pure rfl

omit [Platform] in
theorem json_getConn (s : NeoState σ κ τ) :
    Sat getConn s (fun _ t => t.json = s.json) (fun _ _ => True) := by
  refine Sat.get_bind ?_
  cases hpool : s.connPool with
  | nil => exact Sat.stuck
  | cons conn rest => exact fun _ => rfl

omit [Platform] in
theorem json_openTx (conn : κ) (s : NeoState σ κ τ) :
    Sat (openTx L conn 10000 "w") s (fun _ t => t.json = s.json) (fun _ _ => True) :=
  fun _ => rfl

omit [Platform] in
theorem json_leave (left : Bool) (tx : τ) (conn : κ) (s : NeoState σ κ τ) :
    Sat (when (left = false) (commitTx L tx) >>= fun _ => putConn conn) s
      (fun _ t => t.json = s.json) (fun _ _ => True) := by
  intro n
  cases left with
  | true => rfl
  | false =>
      rw [when_pos rfl]
      rfl

/-- The rest of a pass appends one entry, or leaves the answer. -/
theorem sat_processCommand_listed {c : Neo4jCommand} {cypher : String} {blob : Bytes}
    (hp : Listed p s) :
    Sat (processCommand L tx query c cypher blob p) s
      (fun r t => match r with
        | none => t.json = s.json
        | some p' => Listed p' t)
      (fun _ _ => True) := by
  rw [processCommand]
  refine Sat.bind (json_note _ s) ?_
  rintro - s₁ hs₁
  refine Sat.bind (json_processing _ s₁) ?_
  rintro ⟨rc, cypher', r'⟩ s₂ hs₂
  refine Sat.ite (fun _ => Sat.pure (hs₂.trans hs₁)) fun _ => ?_
  refine Sat.bind (json_runInTx cypher' s₂) ?_
  rintro resStream s₃ hs₃
  refine Sat.bind ((sat_resultsToJson resStream s₃).mono (fun _ _ h => h)
    fun _ _ _ => trivial) ?_
  rintro neo4jResp s₃ ⟨rfl, hresp⟩
  obtain ⟨l, rfl⟩ := entry_of_results hresp
  refine Sat.bind (json_note _ s₃) ?_
  rintro - s₄ hs₄
  refine Sat.bind (json_processing _ s₄) ?_
  rintro response s₅ hs₅
  refine Sat.bind (json_whenNote s₅) ?_
  rintro - s₆ hs₆
  refine Sat.bind (P := fun a t => Listed a t) ?_ fun a t h => Sat.pure h
  intro n
  rw [respond_eq (p := { p with cmdResult := r' }) hp.hello]
  refine ⟨.inr ⟨_, rfl⟩, ?_, ?_⟩
  · simp [Json.appended]
  · intro e he
    rcases List.mem_append.1 he with he | he
    · exact hp.entries e he
    · exact ⟨l, List.mem_singleton.1 he⟩

theorem sat_runCommand_listed (hp : Listed p s) :
    Sat (runCommand L blobs tx query p) s
      (fun r t => match r with
        | none => t.json = s.json
        | some p' => Listed p' t)
      (fun _ _ => True) := by
  rw [runCommand]
  refine Sat.bind ((sat_checking _ s).mono (fun _ _ h => h.1) fun _ _ _ => trivial) ?_
  rintro ⟨c, cypher⟩ t rfl
  refine Sat.bind ((sat_checking _ t).mono (fun _ _ h => h.1) fun _ _ _ => trivial) ?_
  rintro ⟨blob, k'⟩ t rfl
  exact sat_processCommand_listed ⟨hp.hello, hp.json, hp.entries⟩

/-- The loop leaves a list of entries. -/
theorem sat_commandLoop_listed {root : Json} (is : List ℕ) (hp : Listed p s) :
    Sat (commandLoop L blobs tx root is p) s (fun _ t => ∃ p', Listed p' t)
      (fun _ _ => True) := by
  induction is generalizing p s with
  | nil => exact Sat.pure ⟨p, hp⟩
  | cons j is ih =>
      rw [commandLoop]
      refine Sat.bind ((sat_checking _ s).mono (fun _ _ h => h.1) fun _ _ _ => trivial) ?_
      rintro query t rfl
      refine Sat.bind (sat_runCommand_listed hp) ?_
      rintro r u hr
      cases r with
      | none => exact Sat.pure ⟨p, hp.hello, hr.trans hp.json, hp.entries⟩
      | some p' => exact ih hr

/-- **No answer reports an error**, whatever has failed. -/
theorem not_reportsError {report : Json → String} {msg : QueryMessage} (hs : s.json = .null)
    (h : Runs (processQuery L report msg) s (.ret () t)) : ¬ ReportsError t.json := by
  obtain ⟨conn, s₁, hconn, hparse⟩ := h.bind_inv
  have hs₁ : s₁.json = s.json := (json_getConn s).ret hconn
  obtain ⟨⟨rc, root⟩, s₂, hparsed, hnoted⟩ := hparse.bind_inv
  have hs₂ : s₂ = s₁ := ((sat_checking _ s₁).ret hparsed).1
  obtain ⟨_, s₃, hnote, hopened⟩ := hnoted.bind_inv
  have hs₃ : s₃.json = s₂.json := (json_note _ s₂).ret hnote
  obtain ⟨tx, s₄, hopen, hlooped⟩ := hopened.bind_inv
  have hs₄ : s₄.json = s₃.json := (json_openTx conn s₃).ret hopen
  obtain ⟨left, s₅, hloop, hleft⟩ := hlooped.bind_inv
  have hstart : Listed {} s₄ :=
    ⟨.inl rfl, by rw [hs₄, hs₃, hs₂, hs₁, hs]; rfl, by simp⟩
  obtain ⟨p, hp⟩ := (sat_commandLoop_listed _ hstart).ret hloop
  have ht : t.json = s₅.json := (json_leave left tx conn s₅).ret hleft
  rw [ht, hp.json]
  exact not_reportsError_entries hp.entries

/-! ### The answer when all commands succeed -/

/-- A command that succeeds puts its rows into the answer. -/
theorem processCommand_runs {c : Neo4jCommand} {cypher : String} {blob : Bytes} {r' : Json}
    {w' : NeoWorld σ}
    (h : Answers L tx query c cypher blob p.cmdResult r' s.toNeoWorld w')
    (hp : IsHello p.helloRes) :
    ∃ rows t, StatementRows L tx query c cypher blob p.cmdResult s.toNeoWorld rows ∧
      Runs (processCommand L tx query c cypher blob p) s (.ret (some { p with
        cmdResult := r'
        helloRes := entry rows
        jsonResponses := p.jsonResponses ++ [entry rows] }) t) ∧
      t.toNeoWorld = w' ∧ t.json = .array (p.jsonResponses ++ [entry rows]) := by
  obtain ⟨cypher', w₁, hprocessed, hfailure, resp, hresp, response, hresponse, herror⟩ := h
  obtain ⟨l, rfl⟩ := entry_of_results hresp
  let s₁ : NeoState σ κ τ := { s with events := s.events ++ [.dataProcessing] }
  let s₃ : NeoState σ κ τ := { s₁ with
    toNeoWorld := { w₁ with server := (L.runInTx tx cypher' w₁.server).2 }
    events := s₁.events ++ [.runInTx tx] }
  let s₄ : NeoState σ κ τ := { s₃ with events := s₃.events ++ [.constructResponses] }
  let s₅ : NeoState σ κ τ := { s₄ with toNeoWorld := w' }
  let s₆ : NeoState σ κ τ := { s₅ with events := s₅.events ++ [.succeeded] }
  have hdata : Runs (processing (c.dataProcessing L cypher query blob p.cmdResult)) s₁
      (.ret (0, cypher', r') { s₁ with toNeoWorld := w₁ }) := Runs.focus hprocessed
  have hrun : Runs (runInTx L cypher' tx) { s₁ with toNeoWorld := w₁ }
      (.ret (L.runInTx tx cypher' w₁.server).1 s₃) := Runs.of_eq fun _ => rfl
  have hresults : Runs (resultsToJson (L.runInTx tx cypher' w₁.server).1) s₃
      (.ret (entry (Json.appended l)) s₃) :=
    Runs.of_eq fun _ => by rw [resultsToJson, hresp]; rfl
  have hconstruct : Runs (processing (c.constructResponses L (entry (Json.appended l)) query)) s₄
      (.ret response s₅) := Runs.focus hresponse
  have hstart : Runs (note .dataProcessing) s (.ret () s₁) := Runs.of_eq fun _ => rfl
  have hresponding : Runs (note .constructResponses) s₃ (.ret () s₄) := Runs.of_eq fun _ => rfl
  have hnote : Runs (when ((L.runInTx tx cypher' w₁.server).1.failure = false ∧
      c.isError response = false) (note .succeeded)) s₅ (.ret () s₆) := by
    rw [when_pos ⟨hfailure, herror⟩]
    exact Runs.of_eq fun _ => rfl
  refine ⟨Json.appended l, { s₆ with json := .array (p.jsonResponses ++
    [entry (Json.appended l)]) }, ⟨cypher', r', w₁, hprocessed, hresp⟩, ?_, rfl, rfl⟩
  rw [processCommand]
  refine hstart.bind (hdata.bind ?_)
  dsimp only
  rw [if_neg (not_not.2 rfl)]
  refine hrun.bind (hresults.bind (hresponding.bind (hconstruct.bind (hnote.bind ?_))))
  exact Runs.bind (Runs.of_eq fun n => respond_eq (p := { p with cmdResult := r' }) hp n)
    (Runs.of_eq fun _ => rfl)

theorem runCommand_runs {c : Neo4jCommand} {cypher : String} {blob : Bytes} {k' : ℕ} {r' : Json}
    {w' : NeoWorld σ} (hstatement : IsStatement query c cypher)
    (hblob : HasBlob blobs c query p.blobCount blob k')
    (h : Answers L tx query c cypher blob p.cmdResult r' s.toNeoWorld w')
    (hp : IsHello p.helloRes) :
    ∃ rows t, StatementRows L tx query c cypher blob p.cmdResult s.toNeoWorld rows ∧
      Runs (runCommand L blobs tx query p) s (.ret (some
        { blobCount := k'
          cmdResult := r'
          helloRes := entry rows
          jsonResponses := p.jsonResponses ++ [entry rows] }) t) ∧
      t.toNeoWorld = w' ∧ t.json = .array (p.jsonResponses ++ [entry rows]) := by
  have hcommand : Runs (checking (commandOf query)) s (.ret (c, cypher) s) :=
    Runs.focus (Runs.of_eq fun _ => commandOf_eq.2 hstatement)
  have htake : Runs (checking (takeBlob blobs c query p.blobCount)) s (.ret (blob, k') s) :=
    Runs.focus (Runs.of_eq fun _ => takeBlob_eq.2 hblob)
  obtain ⟨rows, t, hrows, hrun, hw, hjson⟩ :=
    processCommand_runs (p := { p with blobCount := k' }) h hp
  exact ⟨rows, t, hrows, hcommand.bind (htake.bind hrun), hw, hjson⟩

/-- The loop over commands that succeed. -/
theorem commandLoop_runs {queries : List Json} (is : List ℕ)
    (h : EachSucceeds L blobs tx (is.map fun j => queries[j]?.getD .null) p.blobCount
      p.cmdResult s.toNeoWorld)
    (hp : IsHello p.helloRes) (hjson : s.json = Json.appended p.jsonResponses) :
    ∃ rows t, EachRows L blobs tx (is.map fun j => queries[j]?.getD .null) p.blobCount
        p.cmdResult s.toNeoWorld rows ∧
      Runs (commandLoop L blobs tx (.array queries) is p) s (.ret false t) ∧
      t.json = Json.appended (p.jsonResponses ++ rows.map entry) := by
  induction is generalizing p s with
  | nil => exact ⟨[], s, .nil, Runs.of_eq fun _ => rfl, by simpa using hjson⟩
  | cons j is ih =>
      obtain _ | ⟨⟨c, cypher, blob, hstatement, hblob, hanswers⟩, hrest⟩ := h
      obtain ⟨first, u, hfirst, hrun, rfl, hu⟩ := runCommand_runs hstatement hblob hanswers hp
      have hlisted : u.json = Json.appended (p.jsonResponses ++ [entry first]) := by
        rw [hu, Json.appended, if_neg (by simp)]
      obtain ⟨rows, t, hrows, hloop, ht⟩ :=
        ih (p := ⟨_, _, entry first, _⟩) hrest (.inr ⟨first, rfl⟩) hlisted
      refine ⟨first :: rows, t, .cons hstatement hblob hanswers hfirst hrows, ?_, ?_⟩
      · have hindex : Runs (checking (ofQuery ((Json.array queries).index j))) s
            (.ret (queries[j]?.getD .null) s) := Runs.focus (Runs.of_eq fun _ => rfl)
        exact hindex.bind (hrun.bind hloop)
      · rw [ht, List.map_cons, List.append_assoc]
        rfl

/-- The answer has an entry for each command, with the rows of its own statement. -/
def OwnRows (L : Neo4jLibrary σ κ τ ι) (msg : QueryMessage) (s : NeoState σ κ τ) (j : Json) :
    Prop :=
  ∃ conn rest, s.connPool = conn :: rest ∧ ∃ queries, Accepted msg queries ∧
    let (tx, server) := L.beginTx conn 10000 "w" s.server
    ∃ rows, EachRows L msg.blobs tx queries 0 .null { s.toNeoWorld with server } rows ∧
      j = .array (rows.map entry)

/-- A request has a command. -/
theorem Accepted.ne_nil {msg : QueryMessage} {queries : List Json}
    (h : Accepted msg queries) : queries ≠ [] := by
  rintro rfl
  have hschema : ApiSchema.request (.array []) = false := rfl
  exact absurd h.schema (by simp [hschema])

/-- A request all of whose commands succeed is answered with their rows. -/
theorem answers_own_rows {msg : QueryMessage} (report : Json → String) (hs : s.json = .null)
    (h : Answerable L msg s) :
    ∃ t, Runs (processQuery L report msg) s (.ret () t) ∧ OwnRows L msg s t.json := by
  obtain ⟨conn, rest, hpool, queries, haccepted, heach⟩ := h
  let s₁ : NeoState σ κ τ := { s with connPool := rest, events := s.events ++ [.getConn conn] }
  let s₂ : NeoState σ κ τ := { s₁ with events := s₁.events ++ [.parseCommands 0] }
  let tx := (L.beginTx conn 10000 "w" s.server).1
  let s₃ : NeoState σ κ τ := { s₂ with
    server := (L.beginTx conn 10000 "w" s.server).2
    events := s₂.events ++ [.openTx tx] }
  have hget : Runs getConn s (.ret conn s₁) := by
    refine Runs.of_eq fun n => ?_
    simp [getConn, note, hpool, s₁]
  have hparse : Runs (checking (parseCommands report msg)) s₁ (.ret (0, .array queries) s₁) :=
    Runs.focus (Runs.of_eq fun _ => parseCommands_accepted haccepted)
  have hnote : Runs (note (.parseCommands 0)) s₁ (.ret () s₂) := Runs.of_eq fun _ => rfl
  have hopen : Runs (openTx L conn 10000 "w") s₂ (.ret tx s₃) := Runs.of_eq fun _ => rfl
  have heach' : EachSucceeds L msg.blobs tx
      ((List.range (Json.array queries).size).map fun j => queries[j]?.getD .null)
      0 .null s₃.toNeoWorld := by
    rw [map_range_getD]
    exact heach
  obtain ⟨rows, t, hrows, hloop, ht⟩ := commandLoop_runs (p := {}) _ heach' (.inl rfl) hs
  rw [map_range_getD] at hrows
  have hne : rows ≠ [] := by
    rintro rfl
    cases hrows
    exact haccepted.ne_nil rfl
  have hleave : Runs (when (false = false) (commitTx L tx) >>= fun _ => putConn conn) t (.ret ()
      { t with
        server := L.commit tx t.server
        events := t.events ++ [.commitTx tx] ++ [.putConn conn]
        connPool := t.connPool ++ [conn] }) := Runs.of_eq fun _ => rfl
  refine ⟨_, hget.bind (hparse.bind (hnote.bind (hopen.bind (hloop.bind hleave)))), conn, rest,
    hpool, queries, haccepted, rows, hrows, ?_⟩
  rw [ht, List.nil_append, Json.appended, if_neg (by simpa using hne)]

/-- **What the client is told**: there is an answer, which is not empty; it reports an error if
and only if the request or one of its commands has failed, and else it has an entry for each
command with that command's own rows. -/
structure ReachesClient (L : Neo4jLibrary σ κ τ ι) (msg : QueryMessage) (s : NeoState σ κ τ)
    (o : Outcome (NeoState σ κ τ) NeoError Unit) : Prop where
  answered : ∃ t, o = .ret () t ∧ t.json ≠ .null
  reported : ∀ t, o = .ret () t → (ReportsError t.json ↔ ¬ Answerable L msg s)
  rows : ∀ t, o = .ret () t → Answerable L msg s → OwnRows L msg s t.json

/-- **Failures of requests to Neo4j.** However a request ends, what the client is told is right
exactly if nothing has failed: the request is accepted, and all its commands succeed. -/
theorem failures_reach_client_iff {report : Json → String} {msg : QueryMessage}
    {o : Outcome (NeoState σ κ τ) NeoError Unit} (hs : s.json = .null)
    (h : Runs (processQuery L report msg) s o) :
    ReachesClient L msg s o ↔ Answerable L msg s := by
  constructor
  · intro hreaches
    obtain ⟨t, rfl, -⟩ := hreaches.answered
    by_contra hfailed
    exact not_reportsError hs h ((hreaches.reported t rfl).2 hfailed)
  · intro hanswerable
    obtain ⟨t, ht, hrows⟩ := answers_own_rows report hs hanswerable
    obtain rfl := h.unique ht
    refine ⟨⟨t, rfl, ?_⟩, ?_, ?_⟩
    · obtain ⟨-, -, -, queries, -, rows, -, hjson⟩ := hrows
      rw [hjson]
      exact nofun
    · intro u hu
      obtain rfl : t = u := by simpa using hu
      exact iff_of_false (not_reportsError hs h) (not_not.2 hanswerable)
    · intro u hu _
      obtain rfl : t = u := by simpa using hu
      exact hrows

end

/-- The requests that leave the protocol: text that is not JSON is answered with nothing at all,
and an image in a format that is not supported with an empty answer. -/
theorem failures_not_reported :
    (∃ o, Runs (processQuery emptyServer (fun _ => "") ⟨.error .null, []⟩) freshState o ∧
      ¬ ReachesClient emptyServer ⟨.error .null, []⟩ freshState o) ∧
    ∃ o, Runs (processQuery emptyServer (fun _ => "")
        ⟨.ok (neoAddRequest "image" "webp"), [[1]]⟩) freshState o ∧
      ¬ ReachesClient emptyServer ⟨.ok (neoAddRequest "image" "webp"), [[1]]⟩ freshState o := by
  refine ⟨⟨_, Runs.of_eq fun _ => rfl, ?_⟩, _, Runs.of_eq fun _ => rfl, ?_⟩
  · rintro ⟨⟨t, ht, -⟩, -, -⟩
    cases ht
  · rintro ⟨⟨t, ht, hjson⟩, -, -⟩
    cases ht
    exact hjson rfl

/-- A request for metadata only succeeds, and is answered with its rows. -/
theorem metadata_answered :
    Answerable emptyServer ⟨.ok metadataRequest, []⟩ freshState ∧
    ∃ o, Runs (processQuery emptyServer (fun _ => "") ⟨.ok metadataRequest, []⟩) freshState o ∧
      ReachesClient emptyServer ⟨.ok metadataRequest, []⟩ freshState o := by
  have hsucceeds : Succeeds emptyServer [] 0 (.object [("NeoAdd", .object
      [("cypher", .string "CREATE (VDMSNODE)"), ("target_data_type", .string "md_only"),
        ("target_format", .string "png")])]) 0 0 .null .null freshState.toNeoWorld
      freshState.toNeoWorld :=
    ⟨.neoAdd, _, [], ⟨_, _, _, rfl, rfl, _, rfl, rfl⟩, .inr ⟨rfl, rfl, rfl⟩, _, _,
      Runs.of_eq fun _ => rfl, rfl, _, rfl, _, Runs.of_eq fun _ => rfl, rfl⟩
  have hanswerable : Answerable emptyServer ⟨.ok metadataRequest, []⟩ freshState := by
    refine ⟨0, _, rfl, _, ⟨⟨_, rfl, rfl⟩, rfl, ?_, .inl rfl⟩,
      .cons hsucceeds (.cons hsucceeds .nil)⟩
    intro q hq
    obtain rfl := List.eq_of_mem_replicate hq
    exact ⟨.neoAdd, false, _, _, _, rfl, rfl, rfl, rfl⟩
  have hrun : Runs (processQuery emptyServer (fun _ => "") ⟨.ok metadataRequest, []⟩) freshState
      (processQuery emptyServer (fun _ => "") ⟨.ok metadataRequest, []⟩ 0 freshState) :=
    Runs.of_eq fun _ => rfl
  exact ⟨hanswerable, _, hrun, (failures_reach_client_iff rfl hrun).2 hanswerable⟩

end QueryHandlerNeo4j

end Vdms
