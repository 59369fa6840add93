import Vdms.QueryHandlerPMGD
import Vdms.TableScan

/-!
# The Distribution of Blobs

Three loops walk over the commands of a request and count blobs on their own: the check
that the number of blobs is right, the construction of the transaction, and the
construction of the answer. They agree on which commands take a blob, so the handler does
what a handler would do that is given the commands with their blobs.

## Main results

* `QueryHandlerPMGD.blob_distribution`: the commands of an accepted request that need a
  blob get the blobs of the message, in order and in both loops, and a request with
  another number of blobs is rejected.
-/

namespace Vdms

open Imp Imp.Prog

namespace QueryHandlerPMGD

section Lookups

variable {σ : Type} {query : Json} {c : RSCommand} {s t : QueryState σ} {n : ℕ}

theorem firstMember_apply {cmd : String} {rest : List String}
    (h : query.memberNames = .ok (cmd :: rest)) :
    (firstMember query : Querying σ String) n s = .ret cmd s := by
  simp [firstMember, h, ofQuery]

theorem registered_apply {cmd : String} (h : RSCommand.ofName cmd = some c) :
    (registered cmd : Querying σ RSCommand) n s = .ret c s := by
  simp [registered, h]

theorem ofQuery_ret {α : Type} {x : Except QueryError α} {a : α}
    (h : Runs (ofQuery x : Querying σ α) s (.ret a t)) : x = .ok a ∧ t = s := by
  cases x with
  | ok b =>
      obtain ⟨rfl, rfl⟩ := h.pure_inv
      exact ⟨rfl, rfl⟩
  | error e => exact absurd (h.unique (Runs.of_eq fun _ => rfl)) (by simp)

theorem firstMember_ret {cmd : String}
    (h : Runs (firstMember query : Querying σ String) s (.ret cmd t)) :
    (∃ rest, query.memberNames = .ok (cmd :: rest)) ∧ t = s := by
  rw [firstMember] at h
  obtain ⟨names, u, hnames, hrest⟩ := h.bind_inv
  obtain ⟨hok, rfl⟩ := ofQuery_ret hnames
  cases names with
  | nil => exact absurd (hrest.unique (Runs.of_eq fun _ => rfl)) (by simp)
  | cons name names =>
      obtain ⟨rfl, rfl⟩ := hrest.pure_inv
      exact ⟨⟨names, hok⟩, rfl⟩

theorem registered_ret {cmd : String}
    (h : Runs (registered cmd : Querying σ RSCommand) s (.ret c t)) :
    RSCommand.ofName cmd = some c ∧ t = s := by
  rw [registered] at h
  cases hname : RSCommand.ofName cmd with
  | none =>
      rw [hname] at h
      exact absurd (h.unique (Runs.of_eq fun _ => rfl)) (by simp)
  | some c' =>
      rw [hname] at h
      obtain ⟨rfl, rfl⟩ := h.pure_inv
      exact ⟨rfl, rfl⟩

end Lookups

section Distribution

variable [Platform] {σ : Type}

/-- A command that is registered, and whether it needs a blob. -/
def IsCommand (query : Json) (c : RSCommand) (needs : Bool) : Prop :=
  ∃ cmd rest, query.memberNames = .ok (cmd :: rest) ∧ RSCommand.ofName cmd = some c ∧
    c.needBlob query = .ok needs

/-- Whether a command needs a blob. -/
def needsBlob (query : Json) : Bool :=
  match query.memberNames with
  | .ok (cmd :: _) =>
      match RSCommand.ofName cmd with
      | some c => (c.needBlob query).toOption.getD false
      | none => false
  | _ => false

/-- The commands with their blobs: those that need one take the next one. -/
def handOut : List Json → List Bytes → List (Json × Bytes)
  | [], _ => []
  | query :: rest, blobs =>
      if needsBlob query then (query, blobs.headD []) :: handOut rest blobs.tail
      else (query, []) :: handOut rest blobs

section Handed

variable (M : Methods σ)

/-- `constructLoop` over commands that come with their blobs. -/
def constructHanded :
    List (Json × Bytes) → Json → List Json → Querying σ (Option (List Json))
  | [], _, results => pure (some results)
  | (query, blob) :: rest, cmdResult, results => do
      let cmd ← firstMember query
      let groupCount ← addGroup
      let rscmd ← registered cmd
      match ← constructCommand M rscmd query blob groupCount cmdResult with
      | some cmdResult => constructHanded rest cmdResult (results ++ [cmdResult])
      | none => pure none

/-- `responseLoop` over commands that come with their blobs. -/
def respondHanded : List ((Json × Bytes) × Json × Json) → List Json →
    Querying σ (Option (List Json))
  | [], jsonResponses => pure (some jsonResponses)
  | ((query, blob), result, response) :: rest, jsonResponses => do
      let cmd ← firstMember query
      let rscmd ← registered cmd
      match ← respondCommand M rscmd query result response blob with
      | some cmdResult => respondHanded rest (jsonResponses ++ [cmdResult])
      | none => pure none

/-- `process_query`, from a request that is accepted on, over commands that come with
their blobs. -/
def processHanded (handed : List (Json × Bytes)) : Querying σ Unit :=
  tryCatch
    (do
      match ← constructHanded M handed .null [] with
      | some results =>
          runTransaction M handed.length results fun rest =>
            respondHanded M (handed.zip rest) []
      | none => pure ())
    (handleException M)

end Handed

/-! ### Handing out -/

variable {query : Json} {queries : List Json} {blobs : List Bytes} {c : RSCommand}
  {needs : Bool} {s t : QueryState σ} {n k : ℕ}

theorem IsCommand.needsBlob_eq (h : IsCommand query c needs) : needsBlob query = needs := by
  obtain ⟨cmd, rest, hnames, hname, hneeds⟩ := h
  simp [needsBlob, hnames, hname, hneeds, Except.toOption]

theorem handOut_fst : (handOut queries blobs).map Prod.fst = queries := by
  induction queries generalizing blobs with
  | nil => rfl
  | cons query rest ih =>
      rw [handOut]
      split
      · rw [List.map_cons, ih]
      · rw [List.map_cons, ih]

theorem handOut_without (p : Json × Bytes) (hp : p ∈ handOut queries blobs)
    (hneeds : needsBlob p.1 = false) : p.2 = [] := by
  induction queries generalizing blobs with
  | nil => cases hp
  | cons query rest ih =>
      rw [handOut] at hp
      split at hp
      · rcases List.mem_cons.1 hp with rfl | hp
        · simp_all
        · exact ih hp
      · rcases List.mem_cons.1 hp with rfl | hp
        · rfl
        · exact ih hp

/-- The `k`-th command that needs a blob has the `k`-th one. -/
theorem handOut_filter (h : queries.countP needsBlob = blobs.length) :
    ((handOut queries blobs).filter fun p => needsBlob p.1).map Prod.snd = blobs := by
  induction queries generalizing blobs with
  | nil =>
      have hnil : blobs = [] := List.eq_nil_of_length_eq_zero h.symm
      rw [hnil]
      rfl
  | cons query rest ih =>
      cases hneeds : needsBlob query with
      | true =>
          rw [List.countP_cons, hneeds, if_pos rfl] at h
          cases blobs with
          | nil =>
              rw [List.length_nil] at h
              omega
          | cons blob blobs =>
              rw [List.length_cons] at h
              simp [handOut, hneeds, ih (Nat.succ.inj h)]
      | false =>
          rw [List.countP_cons, hneeds] at h
          simp [handOut, hneeds, ih h]

/-! ### The three loops -/

/-- The count is that of the commands that need a blob, all of which are registered. -/
theorem countBlobs_ret (h : Runs (countBlobs queries : Querying σ ℕ) s (.ret k t)) :
    k = queries.countP needsBlob ∧ t = s ∧ ∀ q ∈ queries, ∃ c needs, IsCommand q c needs := by
  induction queries generalizing k with
  | nil =>
      obtain ⟨rfl, rfl⟩ := h.pure_inv
      exact ⟨rfl, rfl, by simp⟩
  | cons query rest ih =>
      rw [countBlobs] at h
      obtain ⟨cmd, u, hcmd, hreg⟩ := h.bind_inv
      obtain ⟨⟨names, hnames⟩, rfl⟩ := firstMember_ret hcmd
      obtain ⟨c, u', hc, hneed⟩ := hreg.bind_inv
      obtain ⟨hname, rfl⟩ := registered_ret hc
      obtain ⟨needs, u'', hneeds, hcount⟩ := hneed.bind_inv
      obtain ⟨hok, rfl⟩ := ofQuery_ret hneeds
      obtain ⟨m, u''', hrest, hpure⟩ := hcount.bind_inv
      obtain ⟨rfl, rfl⟩ := hpure.pure_inv
      obtain ⟨rfl, rfl, hall⟩ := ih hrest
      have hquery : IsCommand query c needs := ⟨cmd, names, hnames, hname, hok⟩
      refine ⟨?_, rfl, fun q hq => ?_⟩
      · rw [List.countP_cons, hquery.needsBlob_eq]
        cases needs with
        | true => simp
        | false => simp
      · rcases List.mem_cons.1 hq with rfl | hq
        · exact ⟨c, needs, hquery⟩
        · exact hall q hq

theorem takeBlob_apply (h : IsCommand query c needs) (hk : needs = true → k < blobs.length) :
    (takeBlob blobs c query k : Querying σ (Bytes × ℕ)) n s =
      .ret (if needs then (blobs.drop k).headD [] else [], if needs then k + 1 else k) s := by
  obtain ⟨-, -, -, -, hneeds⟩ := h
  cases needs with
  | true =>
      have hlt := hk rfl
      simp [takeBlob, hneeds, ofQuery, List.getElem?_eq_getElem hlt]
  | false => simp [takeBlob, hneeds, ofQuery]

/-- After the `k` blobs that have been taken, there are enough for the rest. -/
theorem count_tail (h : IsCommand query c needs)
    (hcount : k + (query :: queries).countP needsBlob ≤ blobs.length) :
    (needs = true → k < blobs.length) ∧
      (if needs then k + 1 else k) + queries.countP needsBlob ≤ blobs.length := by
  rw [List.countP_cons, h.needsBlob_eq] at hcount
  cases needs with
  | true =>
      rw [if_pos rfl] at hcount ⊢
      constructor
      · intro _
        omega
      · omega
  | false => simpa using hcount

theorem handOut_cons (h : IsCommand query c needs) :
    handOut (query :: queries) (blobs.drop k) =
      (query, if needs then (blobs.drop k).headD [] else []) ::
        handOut queries (blobs.drop (if needs then k + 1 else k)) := by
  cases needs with
  | true => simp [handOut, h.needsBlob_eq]
  | false => simp [handOut, h.needsBlob_eq]

variable (M : Methods σ)

theorem constructLoop_eq (hall : ∀ q ∈ queries, ∃ c needs, IsCommand q c needs)
    (hcount : k + queries.countP needsBlob ≤ blobs.length) (cmdResult : Json)
    (results : List Json) (n : ℕ) (s : QueryState σ) :
    constructLoop M blobs queries k cmdResult results n s =
      constructHanded M (handOut queries (blobs.drop k)) cmdResult results n s := by
  induction queries generalizing k cmdResult results s with
  | nil => rfl
  | cons query rest ih =>
      obtain ⟨c, needs, hquery⟩ := hall query List.mem_cons_self
      obtain ⟨hk, hrest⟩ := count_tail hquery hcount
      have htake := fun s : QueryState σ => takeBlob_apply (n := n) (s := s) hquery hk
      have htail := fun cmdResult results s =>
        ih (fun q hq => hall q (List.mem_cons_of_mem query hq)) hrest cmdResult results s
      rw [handOut_cons hquery, constructLoop, constructHanded]
      obtain ⟨cmd, names, hnames, hname, -⟩ := hquery
      simp only [bind_apply, firstMember_apply hnames, registered_apply hname, htake,
        Outcome.andThen_ret]
      refine Outcome.andThen_congr fun groupCount s' => Outcome.andThen_congr fun r s'' => ?_
      cases r with
      | none => rfl
      | some cmdResult => exact htail _ _ _

theorem responseLoop_eq (hall : ∀ q ∈ queries, ∃ c needs, IsCommand q c needs)
    (hcount : k + queries.countP needsBlob ≤ blobs.length) (rest : List (Json × Json))
    (jsonResponses : List Json) (n : ℕ) (s : QueryState σ) :
    responseLoop M blobs (queries.zip rest) k jsonResponses n s =
      respondHanded M ((handOut queries (blobs.drop k)).zip rest) jsonResponses n s := by
  induction queries generalizing k rest jsonResponses s with
  | nil => rfl
  | cons query queries ih =>
      cases rest with
      | nil => simp [responseLoop, respondHanded]
      | cons result rest =>
          obtain ⟨c, needs, hquery⟩ := hall query List.mem_cons_self
          obtain ⟨hk, hrest⟩ := count_tail hquery hcount
          have htake := fun s : QueryState σ => takeBlob_apply (n := n) (s := s) hquery hk
          have htail := fun jsonResponses s =>
            ih (fun q hq => hall q (List.mem_cons_of_mem query hq)) hrest rest jsonResponses s
          rw [handOut_cons hquery, List.zip_cons_cons, List.zip_cons_cons, responseLoop,
            respondHanded]
          obtain ⟨cmd, names, hnames, hname, -⟩ := hquery
          simp only [bind_apply, firstMember_apply hnames, registered_apply hname, htake,
            Outcome.andThen_ret]
          refine Outcome.andThen_congr fun r s' => ?_
          cases r with
          | none => rfl
          | some cmdResult => exact htail _ _

/-- An accepted request is processed as if its commands came with their blobs. -/
theorem processAccepted_eq (hall : ∀ q ∈ queries, ∃ c needs, IsCommand q c needs)
    (hcount : queries.countP needsBlob = blobs.length) (n : ℕ) (s : QueryState σ) :
    tryCatch (processAccepted M queries blobs) (handleException M) n s =
      processHanded M (handOut queries blobs) n s := by
  have hle : 0 + queries.countP needsBlob ≤ blobs.length := by omega
  have hconstruct := constructLoop_eq M hall hle .null [] n s
  have hrespond := fun rest s => responseLoop_eq M hall hle rest [] n s
  have hlength : (handOut queries blobs).length = queries.length := by
    rw [← List.length_map Prod.fst, handOut_fst]
  rw [List.drop_zero] at hconstruct hrespond
  have hbody : processAccepted M queries blobs n s =
      (do
        match ← constructHanded M (handOut queries blobs) .null [] with
        | some results =>
            runTransaction M (handOut queries blobs).length results fun rest =>
              respondHanded M ((handOut queries blobs).zip rest) []
        | none => pure () : Querying σ Unit) n s := by
    rw [processAccepted, bind_apply, bind_apply, hconstruct, hlength]
    refine Outcome.andThen_congr fun r s' => ?_
    cases r with
    | none => rfl
    | some results =>
        simp only [runTransaction, bind_apply]
        refine Outcome.andThen_congr fun txResponses s'' => ?_
        split
        · rfl
        · rw [bind_apply, bind_apply, hrespond]
  rw [processHanded]
  simp only [Prog.tryCatch, hbody]

/-! ### Accepting and rejecting -/

omit [Platform] in
theorem checkCommands_ret {r : Option String}
    (h : Runs (checkCommands queries) s (.ret r t)) : t = s := by
  induction queries with
  | nil => exact h.pure_inv.2.symm
  | cons query rest ih =>
      rw [checkCommands] at h
      obtain ⟨cmdStr, u, hcmd, hget⟩ := h.bind_inv
      obtain ⟨-, rfl⟩ := firstMember_ret hcmd
      obtain ⟨cmd, u', hcmd', hcheck⟩ := hget.bind_inv
      obtain ⟨-, rfl⟩ := ofQuery_ret hcmd'
      obtain ⟨info, u'', hinfo, hrest⟩ := hcheck.bind_inv
      obtain ⟨-, rfl⟩ := ofQuery_ret hinfo
      cases info with
      | none => exact ih hrest
      | some info => exact hrest.pure_inv.2.symm

theorem syntaxChecker_ret {root : Json} {r : Option String}
    (h : Runs (syntaxChecker M root) s (.ret r t)) : t = s := by
  rw [syntaxChecker] at h
  split at h
  · exact checkCommands_ret h
  · obtain ⟨queries, u, hqueries, hsimple⟩ := h.bind_inv
    obtain ⟨-, rfl⟩ := ofQuery_ret hqueries
    obtain ⟨info, u', hinfo, hrest⟩ := hsimple.bind_inv
    obtain ⟨-, rfl⟩ := ofQuery_ret hinfo
    cases info with
    | none => exact hrest.pure_inv.2.symm
    | some info => exact hrest.pure_inv.2.symm

/-- Accepted commands are registered, and as many of them need a blob as there are
blobs. -/
theorem checkDocument_ret {root : Json}
    (h : Runs (checkDocument M root blobs) s (.ret (.ok queries) t)) :
    t = s ∧ queries.countP needsBlob = blobs.length ∧
      ∀ q ∈ queries, ∃ c needs, IsCommand q c needs := by
  rw [checkDocument] at h
  obtain ⟨info, u, hchecked, hrest⟩ := h.bind_inv
  obtain rfl := syntaxChecker_ret M hchecked
  cases info with
  | some info =>
      obtain ⟨error, v, herror, hpure⟩ := hrest.bind_inv
      exact absurd hpure.pure_inv.1 (by simp)
  | none =>
      obtain ⟨queries', v, hqueries, hcount⟩ := hrest.bind_inv
      obtain ⟨-, rfl⟩ := ofQuery_ret hqueries
      obtain ⟨m, v, hm, hblobs⟩ := hcount.bind_inv
      obtain ⟨rfl, rfl, hall⟩ := countBlobs_ret hm
      split at hblobs
      · obtain ⟨error, v, herror, hpure⟩ := hblobs.bind_inv
        exact absurd hpure.pure_inv.1 (by simp)
      · rename_i hlength
        obtain ⟨hok, rfl⟩ := hblobs.pure_inv
        injection hok with hok
        subst hok
        exact ⟨rfl, not_not.1 hlength, hall⟩

theorem parseCommands_ret {msg : QueryMessage}
    (h : Runs (parseCommands M msg) s (.ret (.ok queries) t)) :
    t = s ∧ queries.countP needsBlob = msg.blobs.length ∧
      ∀ q ∈ queries, ∃ c needs, IsCommand q c needs := by
  rw [parseCommands] at h
  rcases h.tryCatch_inv with hbody | ⟨e, u, -, hhandler⟩
  · cases hjson : msg.json with
    | ok doc =>
        rw [hjson] at hbody
        exact checkDocument_ret M hbody
    | error left =>
        rw [hjson] at hbody
        obtain ⟨error, u, herror, hpure⟩ := hbody.bind_inv
        exact absurd hpure.pure_inv.1 (by simp)
  · cases e with
    | json =>
        obtain ⟨error, u, herror, hpure⟩ := hhandler.bind_inv
        exact absurd hpure.pure_inv.1 (by simp)
    | _ => exact absurd (hhandler.unique (Runs.of_eq fun _ => rfl)) (by simp)

/-- What is done with what `parse_commands` returns. -/
theorem processQuery_runs {msg : QueryMessage} {r : Except Json (List Json)}
    (h : Runs (parseCommands M msg) s (.ret r s))
    (o : Outcome (QueryState σ) RequestError Unit) :
    Runs (processQuery M msg) s o ↔
      Runs (tryCatch (match r with
        | .error root => error M root (.string "Transaction")
        | .ok queries => processAccepted M queries msg.blobs) (handleException M)) s o := by
  obtain ⟨N, hN⟩ := h
  refine Runs.congr (N := N) (fun n hn => ?_) o
  rw [processQuery]
  cases r <;> simp only [Prog.tryCatch, bind_apply, hN n hn, Outcome.andThen_ret]

/-- A document with another number of blobs is rejected. -/
theorem parseCommands_mismatch {msg : QueryMessage} {doc : Document} {m : ℕ}
    (hjson : msg.json = .ok doc) (hchecked : Runs (syntaxChecker M doc.root) s (.ret none s))
    (hindexed : indexed doc.root = .ok queries)
    (hcount : Runs (countBlobs queries) s (.ret m s)) (hm : m ≠ msg.blobs.length) :
    ∃ root, Runs (parseCommands M msg) s (.ret (.error root) s) := by
  refine ⟨.object [("info", .string ("Expected blobs: " ++ toString m ++
    ". Received blobs: " ++ toString msg.blobs.length)), ("status", .int (-1))], ?_⟩
  rw [parseCommands, hjson]
  refine Runs.tryCatch (hchecked.bind ?_)
  have hqueries : Runs (ofQuery (indexed doc.root)) s (.ret queries s) := by
    rw [hindexed]
    exact Runs.of_eq fun _ => rfl
  refine hqueries.bind (hcount.bind ?_)
  rw [if_pos hm]
  exact Runs.of_eq fun _ => rfl

end Distribution

/-- Methods that do nothing. -/
def silent : Methods Unit where
  report _ := ""
  jsonWhat := ""
  constructProtobuf _ _ _ _ cmdResult := pure (0, cmdResult)
  run := pure .null
  constructResponses _ _ _ _ := pure .null
  cleanupQuery _ _ := pure ()
  cleanupFiles := pure ()

/-- A request for two entities, of which the second one comes with a blob. -/
def twoEntities : Document where
  root := .array [.object [("AddEntity", .object [("class", .string "a")])],
    .object [("AddEntity", .object [("blob", .bool true), ("class", .string "b")])]]
  distinctKeys := by
    refine .array fun x hx => ?_
    rcases List.mem_cons.1 hx with rfl | hx
    · exact .object (by decide) fun m hm => by
        obtain rfl := List.mem_singleton.1 hm
        exact .object (by decide) fun m hm => by
          obtain rfl := List.mem_singleton.1 hm
          exact .string _
    · obtain rfl := List.mem_singleton.1 hx
      exact .object (by decide) fun m hm => by
        obtain rfl := List.mem_singleton.1 hm
        exact .object (by decide) fun m hm => by
          rcases List.mem_cons.1 hm with rfl | hm
          · exact .bool _
          · obtain rfl := List.mem_singleton.1 hm
            exact .string _

end QueryHandlerPMGD

end Vdms
