import Vdms.Dispatch
import Vdms.DescriptorSets
import Vdms.Imp.Total
import Vdms.Restart

/-!
# The Expiration Queue After a Restart

The start of the server enters the images and the videos whose expiration is greater than 0,
each at the place of its time stamp. The queue that it leaves agrees with the graph, and is in
order, exactly if no other node has an expiration.

## Main definitions

* `Rebuilt`: the queue agrees with the graph, and its time stamps are in order.
* `EnteredAtStart`: the nodes that the start of the server enters.

## Main results

* `insertIntoQueue_ordered`: entering a node keeps the queue in order.
* `buildAutodeleteQueue_runs`: the call ends, and what it has entered.
* `rebuilt_iff`: when the queue is the one the server had before.
-/

namespace Vdms

open Imp Imp.Prog Platform QueryHandlerPMGD

/-- The documented behaviour of PMGD on integers: a property is greater than an integer if it
is an integer, and greater. -/
class Platform.Greater [Platform] : Prop where
  passes_gt (key : StringID) (a : ℤ) (props : Props) : key ≠ 0 →
    (passes { id := key, op := .gt, v1 := some (.integer a) } props = true ↔
      ∃ t : ℤ, props key = some (.integer t) ∧ a < t)

instance : Platform.Greater where
  passes_gt key a props hkey := by
    simp only [passes, tablePasses, hkey, decide_false, Bool.false_or, Option.any_eq_true]
    constructor
    · rintro ⟨v, hv, h⟩
      cases v with
      | integer t =>
          have hlt : a < t := by simpa [holdsOp, tableLess] using h
          exact ⟨t, hv, hlt⟩
      | _ => simp [holdsOp, tableLess] at h
    · rintro ⟨t, ht, hlt⟩
      exact ⟨.integer t, ht, by simpa [holdsOp, tableLess] using hlt⟩

/-! ### The queue in order -/

section Order

variable {q es : List AutoDeleteNode} {a : AutoDeleteNode}

/-- The time stamps are in order. -/
def Ordered (q : List AutoDeleteNode) : Prop := q.Pairwise fun a b => a.timestamp ≤ b.timestamp

/-- An insertion keeps the queue in order. -/
theorem insertBefore_ordered (hq : Ordered q) : Ordered (insertBefore a q) := by
  induction q with
  | nil => exact List.pairwise_singleton _ _
  | cons b q ih =>
      obtain ⟨hb, hq⟩ := List.pairwise_cons.1 hq
      rw [insertBefore]
      split
      next hany =>
        -- The new entry goes behind one that is not earlier than `b`.
        obtain ⟨c, hc, hlt⟩ := List.any_eq_true.1 hany
        have hba : b.timestamp ≤ a.timestamp := by
          have hbc := hb c hc
          have hca : c.timestamp < a.timestamp := by simpa using hlt
          omega
        refine List.pairwise_cons.2 ⟨fun d hd => ?_, ih hq⟩
        rcases List.mem_cons.1 ((insertBefore_perm a q).mem_iff.1 hd) with rfl | hd
        · exact hba
        · exact hb d hd
      next hany =>
        have hlater : ∀ c ∈ q, a.timestamp ≤ c.timestamp := by
          intro c hc
          have hnot : ¬ c.timestamp < a.timestamp := fun hlt =>
            hany (List.any_eq_true.2 ⟨c, hc, by simpa using hlt⟩)
          omega
        split
        next hlt =>
          refine List.pairwise_cons.2 ⟨fun c hc => ?_, List.pairwise_cons.2 ⟨hb, hq⟩⟩
          rcases List.mem_cons.1 hc with rfl | hc
          · exact Nat.le_of_lt hlt
          · exact hlater c hc
        next hle =>
          refine List.pairwise_cons.2 ⟨fun c hc => ?_, List.pairwise_cons.2 ⟨hlater, hq⟩⟩
          rcases List.mem_cons.1 hc with rfl | hc
          · omega
          · exact hb c hc

/-- Entering a node keeps the queue in order. -/
theorem insertIntoQueue_ordered (hq : Ordered q) : Ordered (insertIntoQueue q a) := by
  rw [insertIntoQueue]
  cases hlast : q.getLast? with
  | none => exact List.pairwise_singleton _ _
  | some last =>
      simp only
      split
      next hle =>
        refine List.pairwise_append.2 ⟨hq, List.pairwise_singleton _ _, fun b hb c hc => ?_⟩
        obtain rfl := List.mem_singleton.1 hc
        obtain ⟨front, rfl⟩ := List.getLast?_eq_some_iff.1 hlast
        rcases List.mem_append.1 hb with hb | hb
        · have hbl := (List.pairwise_append.1 hq).2.2 b hb last (List.mem_singleton_self _)
          omega
        · obtain rfl := List.mem_singleton.1 hb
          exact hle
      next => exact insertBefore_ordered hq

/-- The queue after entries, one after the other. -/
def enter (q es : List AutoDeleteNode) : List AutoDeleteNode := es.foldl insertIntoQueue q

/-- Entering two lists is entering the one and then the other. -/
theorem enter_append (es' : List AutoDeleteNode) : enter q (es ++ es') = enter (enter q es) es' :=
  List.foldl_append

/-- The queue has what it had before, and the entries. -/
theorem enter_perm (q es : List AutoDeleteNode) : (enter q es).Perm (es ++ q) := by
  induction es generalizing q with
  | nil => exact .refl _
  | cons a es ih =>
      have hfirst : (es ++ insertIntoQueue q a).Perm (es ++ a :: q) :=
        (insertIntoQueue_perm q a).append_left es
      exact (ih (insertIntoQueue q a)).trans (hfirst.trans List.perm_middle)

/-- Entering nodes keeps the queue in order. -/
theorem enter_ordered (hq : Ordered q) : Ordered (enter q es) := by
  induction es generalizing q with
  | nil => exact hq
  | cons a es ih => exact ih (insertIntoQueue_ordered hq)

end Order

section

variable [Platform]

/-! ### Listed nodes -/

/-- The expiration of a node as a number. -/
def Graph.expirationTime (g : Graph) (n : NodeID) : ℤ :=
  match g.expiration n with
  | some (.integer z) => z
  | _ => 0

/-- The entries of nodes. -/
def Graph.expirationEntries (g : Graph) (l : List NodeID) : List AutoDeleteNode :=
  l.map fun n => expirationEntry n (g.expirationTime n)

/-- The nodes have an expiration, and it is a number. -/
def Graph.Expiring (g : Graph) (l : List NodeID) : Prop :=
  ∀ n ∈ l, g.expiration n = some (.integer (g.expirationTime n))

/-- Nothing but the queue, the response and the notes of what was listed has changed, and the
queue by these entries. -/
structure Handler.Enters (s : Handler) (es : List AutoDeleteNode) (t : Handler) : Prop where
  db : t.db = s.db
  tx : t.tx = s.tx
  resultdeletion : t.resultdeletion = s.resultdeletion
  autodeleteInit : t.autodeleteInit = s.autodeleteInit
  queue : t.expirationQueue = enter s.expirationQueue es

variable {s t u : Handler} {es es' : List AutoDeleteNode}

omit [Platform] in
/-- Two steps that enter nodes enter the nodes of both. -/
theorem Handler.Enters.trans (h : s.Enters es t) (h' : t.Enters es' u) :
    s.Enters (es ++ es') u where
  db := h'.db.trans h.db
  tx := h'.tx.trans h.tx
  resultdeletion := h'.resultdeletion.trans h.resultdeletion
  autodeleteInit := h'.autodeleteInit.trans h.autodeleteInit
  queue := by rw [h'.queue, h.queue, enter_append]

/-- An expiration is the property of the node. -/
theorem props_expiration {g : Graph} {n : NodeID} {v : Property}
    (h : g.expiration n = some v) : g.props (.node n) (stringID "_expiration") = some v := by
  obtain ⟨nd, hnd, hv⟩ := Option.bind_eq_some_iff.1 h
  simp [Graph.props, hnd, hv]

section Quiet

variable [Platform.Quiet]

/-- A listed node is entered. -/
theorem listElement_enters {n : NodeID} (keys : List String) (hs : s.Open)
    (hdel : s.resultdeletion = false) (hinit : s.autodeleteInit = true)
    (hn : s.db.Expiring [n]) :
    ∃ t, Runs (listElement (.node n) keys) s (.ret () t) ∧
      s.Enters (s.db.expirationEntries [n]) t := by
  let r := s.modifyResponse fun r =>
    { r with propValues := rowOf s.db (.node n) keys r.propValues }
  let t := r.list (.node n)
  let z := s.db.expirationTime n
  let u : Handler := { t with
    expirationQueue := insertIntoQueue t.expirationQueue ⟨toUInt64 z, .node n⟩ }
  have hprop : t.db.props (.node n) (stringID "_expiration") = some (.integer z) :=
    props_expiration (hn n (List.mem_singleton_self n))
  have hentered : Runs (enqueueExpiration (.node n)) t (.ret () u) := by
    refine Runs.of_eq fun k => ?_
    have hopen : t.Open := hs
    have hcall : call (.getProperty (.node n) (stringID "_expiration")) k t = .ret () t :=
      call_open hopen (fun _ => rfl) k
    simp only [enqueueExpiration, getProperty, bind_apply, hcall, get_apply, Outcome.andThen_ret,
      hprop, pure_apply, Property.intValue]
    rfl
  refine ⟨u, (addRow_runs _ keys s).bind ((purgeOrKeep_runs (s := r) hdel).bind ?_), ?_⟩
  · have hread : Runs (get : Handling Handler) t (.ret t t) := Runs.of_eq fun _ => rfl
    refine hread.bind ?_
    have hflag : t.autodeleteInit = true := hinit
    rw [when_pos hflag]
    exact hentered
  · exact ⟨rfl, rfl, rfl, rfl, rfl⟩

/-- **A list of nodes** is entered, each node after the other. Induction on the nodes left. -/
theorem list_enters {ni : NodeIterator} {l : List NodeID} (keys : List String) (count : ℕ)
    (h : SearchView ni s l) (hdel : s.resultdeletion = false) (hinit : s.autodeleteInit = true)
    (hl : s.db.Expiring l) :
    ∃ p t, Runs (upTo NodeIterator.iter none (fun count x => do
        listElement (Element.node x) keys
        pure (count + 1)) id ni count) s (.ret p t) ∧
      s.Enters (s.db.expirationEntries l) t := by
  induction l generalizing ni s count with
  | nil =>
      refine ⟨(ni, count), s, Runs.loop_stop (Runs.of_eq fun n => ?_), ⟨rfl, rfl, rfl, rfl, rfl⟩⟩
      simp [searchView_tracks.bool_eq h]
  | cons n l ih =>
      obtain ⟨-, -, hopen, -⟩ := id h
      obtain ⟨hhead, htail⟩ := List.forall_mem_cons.1 hl
      obtain ⟨t, hrun, ht⟩ := listElement_enters keys hopen hdel hinit
        (fun m hm => List.mem_singleton.1 hm ▸ hhead)
      have hview : SearchView ni t (n :: l) := by
        obtain ⟨i, rfl, -, hi, hscan⟩ := h
        refine ⟨i, rfl, ?_, ht.db ▸ hi, hscan⟩
        rw [Handler.Open, Handler.txMode, ht.tx]
        exact hopen
      obtain ⟨ni', t', hnext, hview', rfl⟩ := searchView_tracks.next_runs hview
      obtain ⟨p, u, hloop, hu⟩ := ih (count + 1) hview' (ht.resultdeletion.trans hdel)
        (ht.autodeleteInit.trans hinit) (ht.db ▸ htail)
      refine ⟨p, u, Runs.loop_step_ret ?_ hloop, ?_⟩
      · have hbool : NodeIterator.iter.bool ni = true := by
          simp [searchView_tracks.bool_eq h]
        simp only [hbool, if_true]
        refine (searchView_tracks.ref_runs h).bind ((hrun.bind (Runs.of_eq fun n => rfl)).bind ?_)
        exact hnext.bind (Runs.of_eq fun n => rfl)
      · rw [ht.db] at hu
        exact ht.trans hu

/-! ### The transaction -/

/-- A query for all nodes that lists what it finds and caches nothing. -/
structure QueryNode.ListsAll (qn : QueryNode) (keys : List String) : Prop where
  identifier : qn.identifier = -1
  link : qn.link = none
  unique : qn.constraints.unique = false
  results : qn.results = { rType := .list, responseKeys := keys }

/-- The nodes that such a query finds are entered. -/
theorem queryNode_enters {qn : QueryNode} {keys : List String} {ni : NodeIterator}
    {l : List NodeID} (hqn : qn.ListsAll keys)
    (hsearch : Runs (queryNodeSearch qn none) s (.ret ni s)) (h : SearchView ni s l)
    (hdel : s.resultdeletion = false) (hinit : s.autodeleteInit = true)
    (hl : s.db.Expiring l) :
    ∃ t, Runs (queryNode qn) s (.ret 0 t) ∧ s.Enters (s.db.expirationEntries l) t := by
  let s₁ := s.modifyResponse fun r => { r with rType := .list, errorCode := .success }
  have hview : SearchView ni s₁ l := h
  obtain ⟨p, t, hlist, ht⟩ := list_enters keys 0 hview hdel hinit hl
  let u := t.modifyResponse fun r => { r with op := .int p.2 }
  have hbuild : Runs (buildResults NodeIterator.iter Element.node ni qn.results) s₁
      (.ret p.1 u) := by
    rw [hqn.results]
    exact hlist.bind (Runs.of_eq fun _ => rfl)
  have hnot : ¬ (0 ≤ qn.identifier ∨ qn.constraints.unique = true ∨ qn.results.sort = true) := by
    rw [hqn.identifier, hqn.unique, hqn.results]
    simp
  have hfound : Runs (queryNodeFound qn none ni) s (.ret 0 u) := by
    have htype : Runs (setType qn.results.rType .success) s (.ret () s₁) := by
      rw [hqn.results]
      exact Runs.of_eq fun _ => rfl
    refine htype.bind ?_
    rw [if_pos hnot]
    exact hbuild.bind (Runs.of_eq fun _ => rfl)
  refine ⟨u, ?_, ⟨ht.db, ht.tx, ht.resultdeletion, ht.autodeleteInit, ht.queue⟩⟩
  have hread : Runs (get : Handling Handler) s (.ret s s) := Runs.of_eq fun _ => rfl
  refine hread.bind ?_
  rw [hqn.identifier, if_neg (by simp), hqn.link]
  refine hsearch.bind ?_
  rw [if_neg (by rw [hqn.identifier]; simp)]
  exact hfound

/-- The search for the nodes of a tag with an expiration greater than 0. -/
def expiringExpr (tag : String) : SearchExpression where
  tag := stringID tag
  isOr := false
  nodePredicates := [{ id := stringID "_expiration", op := .gt, v1 := some (.integer 0) }]

/-- The query for these nodes, with the path that is listed besides. -/
def expiringCommand (tag path : String) (grp : ℕ) : Command where
  cmdId := .queryNode
  cmdGrpId := grp
  queryNode :=
    { identifier := -1
      constraints :=
        { tag := .name tag
          predicates := [{ key := .name "_expiration", op := .gt
                           v1 := { type := .integerType, key := "_expiration" } }] }
      results := { rType := .list, responseKeys := ["_expiration", path] } }

variable [Platform.Lawful]

/-- What one of the two queries enters. -/
theorem expiringCommand_enters {g : Graph} (tag path : String) (grp : ℕ) (hs : s.Open)
    (hdel : s.resultdeletion = false) (hinit : s.autodeleteInit = true) (hdb : s.db = g)
    (hl : g.Expiring ((expiringExpr tag).matchList g)) :
    ∃ t, Runs (Vdms.processQuery (expiringCommand tag path grp)) s (.ret 0 t) ∧
      s.Enters (g.expirationEntries ((expiringExpr tag).matchList g)) t := by
  subst hdb
  let s₀ := s.begin (expiringCommand tag path grp)
  have hopen : s₀.Open := hs
  have hexpr : (expiringCommand tag path grp).queryNode.constraints.search =
      .ok (expiringExpr tag) := rfl
  obtain ⟨ni, hsearch, hview⟩ := queryNodeSearch_and hopen hexpr rfl
  have hlists : (expiringCommand tag path grp).queryNode.ListsAll ["_expiration", path] :=
    ⟨rfl, rfl, rfl, rfl⟩
  obtain ⟨t, hrun, ht⟩ := queryNode_enters hlists hsearch hview hdel hinit hl
  exact ⟨t, Runs.bind (Runs.of_eq fun _ => rfl) (Runs.tryCatch hrun),
    ⟨ht.db, ht.tx, ht.resultdeletion, ht.autodeleteInit, ht.queue⟩⟩

/-- The transaction that the start of the server runs. -/
def autodeleteTransaction (limit : ℤ) (now : ℕ) : PMGDQuery :=
  { PMGDQuery.new limit now with
    cmds := [{ cmdId := .txBegin }, expiringCommand "VD:IMG" "VD:imgPath" 1,
      expiringCommand "VD:VID" "VD:videoPath" 2]
    currentGroupId := 2 }

/-- The nodes that the start of the server lists. -/
noncomputable def Graph.listedAtStart (g : Graph) : List NodeID :=
  (expiringExpr "VD:IMG").matchList g ++ (expiringExpr "VD:VID").matchList g

omit [Platform.Lawful] in
/-- A transaction for reading is opened. -/
theorem txBegin_runs (hs : s.tx = none) :
    ∃ t, Runs (Vdms.processQuery { cmdId := .txBegin }) s (.ret 0 t) ∧
      t.db = s.db ∧ t.tx = some ⟨s.db, s.readonly, false⟩ ∧
      t.resultdeletion = s.resultdeletion ∧ t.autodeleteInit = s.autodeleteInit ∧
      t.expirationQueue = s.expirationQueue :=
  ⟨_, begin_runs hs, rfl, rfl, rfl, rfl, rfl⟩

/-- **The transaction** enters what its two queries list. -/
theorem autodeleteTransaction_runs (limit : ℤ) (now : ℕ) (hs : s.tx = none)
    (hl : s.db.Expiring s.db.listedAtStart) :
    ∃ rs t, Runs ((autodeleteTransaction limit now).run true) s (.ret rs t) ∧ t.db = s.db ∧
      t.expirationQueue = enter s.expirationQueue (s.db.expirationEntries s.db.listedAtStart) := by
  have himages : s.db.Expiring ((expiringExpr "VD:IMG").matchList s.db) := fun n hn =>
    hl n (List.mem_append_left _ hn)
  have hvideos : s.db.Expiring ((expiringExpr "VD:VID").matchList s.db) := fun n hn =>
    hl n (List.mem_append_right _ hn)
  let tx : Transaction := ⟨s.db, true, false⟩
  have hopen : ∀ {t : Handler}, t.tx = some tx → t.advance.Open := fun {t} htx => by
    have hsame : t.advance.tx = some tx := htx
    rw [Handler.Open, Handler.txMode, hsame]
    rfl
  obtain ⟨t₁, hbegin, hdb₁, htx₁, hdel₁, hinit₁, hqueue₁⟩ :=
    txBegin_runs (s := s.opened true false true) hs
  have htx₁ : t₁.tx = some tx := htx₁
  obtain ⟨t₂, himg, h₂⟩ := expiringCommand_enters "VD:IMG" "VD:imgPath" 1 (s := t₁.advance)
    (g := s.db) (hopen htx₁) hdel₁ hinit₁ hdb₁ himages
  have hdb₂ : t₂.db = s.db := h₂.db.trans hdb₁
  have htx₂ : t₂.tx = some tx := h₂.tx.trans htx₁
  obtain ⟨t₃, hvid, h₃⟩ := expiringCommand_enters "VD:VID" "VD:videoPath" 2 (s := t₂.advance)
    (hopen htx₂) (h₂.resultdeletion.trans hdel₁) (h₂.autodeleteInit.trans hinit₁) hdb₂ hvideos
  have htx₃ : t₃.advance.tx = some tx := h₃.tx.trans htx₂
  obtain ⟨r, hcommit⟩ := commit_runs 3 htx₃
  let t₄ : Handler := { t₃.advance with tx := some { tx with committed := true }, response := r }
  have hall : Runs (processCommands [[], [], [], []] [{ cmdId := .txBegin },
      expiringCommand "VD:IMG" "VD:imgPath" 1, expiringCommand "VD:VID" "VD:videoPath" 2,
      { cmdId := .txCommit, cmdGrpId := 3 }]) (s.opened true false true)
      (.ret [[t₁.response], [t₂.response], [t₃.response], [r]] t₄.advance) := by
    refine processCommands_cons_runs hbegin le_rfl (by simp) ?_
    refine processCommands_cons_runs himg le_rfl (by simp [expiringCommand]) ?_
    refine processCommands_cons_runs hvid le_rfl (by simp [expiringCommand]) ?_
    exact processCommands_cons_runs hcommit le_rfl (by simp [expiringCommand])
      (Runs.of_eq fun _ => rfl)
  refine ⟨[[t₁.response], [t₂.response], [t₃.response], [r]], t₄.advance.closed, ?_,
    h₃.db.trans hdb₂, ?_⟩
  · exact processQueries_runs (r := ⟨_, 4, true, false, true⟩) hs hall
  · have hqueue : t₃.expirationQueue = enter t₂.expirationQueue _ := h₃.queue
    have hqueue₂ : t₂.expirationQueue = enter t₁.expirationQueue _ := h₂.queue
    have hqueue₁ : t₁.expirationQueue = s.expirationQueue := hqueue₁
    rw [Handler.closed_expirationQueue]
    change t₃.expirationQueue = _
    rw [hqueue, hqueue₂, hqueue₁, ← enter_append, Graph.expirationEntries, Graph.expirationEntries,
      ← List.map_append]
    rfl

end Quiet

/-! ### The call -/

/-- The graph and the queue of the server. -/
def ServerIs (g : Graph) (q : List AutoDeleteNode) (s : QueryState Handler) : Prop :=
  s.server.db = g ∧ s.server.expirationQueue = q

section Call

variable {g : Graph} {q : List AutoDeleteNode} {s : QueryState Handler} {W : Surroundings}
  {b : Bool}

omit [Platform] in
/-- A result of JSON ends, and leaves the server as it is. -/
theorem ofQuery_total {α : Type} (x : Except QueryError α) (hs : ServerIs g q s) :
    Total (ofQuery x) s (fun _ => ServerIs g q) fun _ => ServerIs g q := by
  cases x with
  | ok a => exact Total.pure hs
  | error e => exact Total.raise hs

/-- The answer to an error ends, and leaves the server as it is. -/
theorem error_total (res cmd : Json) (hs : ServerIs g q s) :
    Total (QueryHandlerPMGD.error (W.methods b) res cmd) s (fun _ => ServerIs g q)
      fun _ => ServerIs g q := by
  have hcleaned : ServerIs g q { s with server := { s.server with
      removedFiles := s.server.removedFiles ++ W.deletedFiles s.imagesLog s.videosLog } } := hs
  refine Total.get_bind (Total.modify_bind ((ofQuery_total _ hcleaned).bind fun _ t ht => ?_))
  exact Total.modify ht

/-- The responses of a command end, and leave the server as it is. -/
theorem respondCommand_total (rscmd : RSCommand) (query result response : Json) (blob : Bytes)
    (hs : ServerIs g q s) : Total (respondCommand (W.methods b) rscmd query result response blob) s
      (fun _ => ServerIs g q) fun _ => ServerIs g q := by
  refine (ofQuery_total _ hs).bind fun query t ht => ?_
  have hresponse : Total ((W.methods b).constructResponses rscmd response query blob) t
      (fun _ => ServerIs g q) fun _ => ServerIs g q := by
    refine Total.get_bind (Total.modify_bind ?_)
    cases (W.constructResponses rscmd response query blob t.answer).1 with
    | ok json => exact Total.pure ht
    | error e => exact Total.raise ht
  refine hresponse.bind fun cmdResult u hu => (ofQuery_total _ hu).bind fun status v hv => ?_
  refine Total.ite (fun _ => ?_) fun _ => Total.pure hv
  refine (ofQuery_total _ hv).bind fun status w hw =>
    (ofQuery_total _ hw).bind fun status w hw => ?_
  exact Total.ite (fun _ => (error_total _ _ hw).bind fun _ _ h => Total.pure h)
    fun _ => Total.pure hw

/-- A command that is registered and needs no blob. -/
def Blobless (query : Json) : Prop := ∃ rscmd, IsCommand query rscmd false

/-- Induction on the commands. -/
theorem responseLoop_total {triples : List (Json × Json × Json)} (blobs : List Bytes)
    (blobCount : ℕ) (jsonResponses : List Json) (hall : ∀ p ∈ triples, Blobless p.1)
    (hs : ServerIs g q s) :
    Total (responseLoop (W.methods b) blobs triples blobCount jsonResponses) s
      (fun _ => ServerIs g q) fun _ => ServerIs g q := by
  induction triples generalizing s jsonResponses with
  | nil => exact Total.pure hs
  | cons p triples ih =>
      obtain ⟨query, result, response⟩ := p
      obtain ⟨⟨rscmd, hcmd⟩, hrest⟩ := List.forall_mem_cons.1 hall
      obtain ⟨name, names, hnames, hname, -⟩ := id hcmd
      have hfirst : Runs (firstMember query) s (.ret name s) :=
        Runs.of_eq fun n => firstMember_apply hnames
      have hregistered : Runs (registered name) s (.ret rscmd s) :=
        Runs.of_eq fun n => registered_apply hname
      have hblob : Runs (takeBlob blobs rscmd query blobCount) s (.ret ([], blobCount) s) :=
        Runs.of_eq fun n => takeBlob_apply hcmd (fun h => Bool.noConfusion h)
      refine Total.after hfirst (Total.after hregistered (Total.after hblob ?_))
      refine (respondCommand_total rscmd query result response [] hs).bind fun r t ht => ?_
      cases r with
      | none => exact Total.pure ht
      | some cmdResult => exact ih _ hrest ht

/-- The answer to a query ends, and leaves the server as it is. -/
theorem finish_total (jsonResponses : List Json) (hs : ServerIs g q s) :
    Total (finish (W.methods b) jsonResponses) s (fun _ => ServerIs g q) fun _ => ServerIs g q := by
  have hcleaned : Runs (W.methods b).cleanupFiles
      { s with answer := { s.answer with json := Json.appended jsonResponses } }
      (.ret () { s with
        server := { s.server with removedFiles := (s.server.removedFiles ++
          cleanupPmgdFiles W.pathVideos s.server.cleanupFiles) },
        answer := { s.answer with json := Json.appended jsonResponses } }) :=
    Runs.of_eq fun _ => rfl
  exact Total.modify_bind (.ret hcleaned hs)

/-- The answer to a failed transaction ends, and leaves the server as it is. -/
theorem failTransaction_total (cmdResult txResponses : Json) (hs : ServerIs g q s) :
    Total (failTransaction (W.methods b) cmdResult txResponses) s (fun _ => ServerIs g q)
      fun _ => ServerIs g q := by
  refine (ofQuery_total _ hs).bind fun _ t ht => (ofQuery_total _ ht).bind fun _ u hu => ?_
  exact (ofQuery_total _ hu).bind fun _ v hv => error_total _ _ hv

/-- From the transaction on, everything ends and leaves the graph and the queue alone. -/
theorem runTransaction_total {queries results : List Json} {rs : Responses} {t : Handler}
    (hall : ∀ query ∈ queries, Blobless query)
    (hrun : Runs (s.query.run b) s.server (.ret rs t)) :
    Total (runTransaction (W.methods b) queries.length results fun rest =>
        responseLoop (W.methods b) [] (queries.zip rest) 0 []) s
      (fun _ => ServerIs t.db t.expirationQueue) fun _ => ServerIs t.db t.expirationQueue := by
  have hserved : ServerIs t.db t.expirationQueue { s with server := t } := ⟨rfl, rfl⟩
  have hresponses : Total (W.methods b).run s (fun _ => ServerIs t.db t.expirationQueue)
      fun _ => ServerIs t.db t.expirationQueue := by
    refine Total.get_bind (Total.after (Runs.focus (s := s) hrun) ?_)
    exact ofQuery_total _ hserved
  refine hresponses.bind fun txResponses u hu => Total.ite (fun _ => ?_) fun _ => ?_
  · exact failTransaction_total _ _ hu
  · refine (responseLoop_total [] 0 [] (fun p hp => ?_) hu).bind fun r v hv => ?_
    · exact hall p.1 (List.of_mem_zip hp).1
    · cases r with
      | none => exact Total.pure hv
      | some jsonResponses => exact finish_total _ hv

/-- The exceptions are answered. -/
theorem handleException_total (e : RequestError) (hs : ServerIs g q s) :
    Total (handleException (W.methods b) e) s (fun _ => ServerIs g q) fun _ _ => False := by
  cases e with
  | vcl => exact Total.get_bind (Total.modify_bind (Total.modify hs))
  | _ => exact Total.modify hs

end Call

/-! ### The start of the server -/

/-- The handler that the server makes when it starts, over its database. -/
def atStart (s : Handler) (limit : ℤ) (now : ℕ) : QueryState Handler :=
  { server := s, query := .new limit now }

/-- The two commands are accepted. -/
theorem parseCommands_autodelete (R : JsonReader) (W : Surroundings) (s : QueryState Handler) :
    Runs (parseCommands (W.methods true) ⟨R.parse autodeleteText, []⟩) s
      (.ret (.ok autodeleteQueries) s) := by
  obtain ⟨rest, hread⟩ := autodeleteText_begins
  obtain ⟨doc, hdoc, hroot⟩ := R.parse_value hread
  rw [hdoc]
  have hcheck : Runs (checkDocument (W.methods true) doc.root []) s
      (.ret (.ok autodeleteQueries) s) := by
    rw [hroot]
    exact Runs.of_eq fun _ => rfl
  exact Runs.tryCatch hcheck

/-- The transaction they build. -/
theorem constructLoop_autodelete (W : Surroundings) (s : Handler) (limit : ℤ) (now : ℕ) :
    Runs (constructLoop (W.methods true) [] autodeleteQueries 0 .null []) (atStart s limit now)
      (.ret (some [.null, .null])
        { atStart s limit now with query := autodeleteTransaction limit now }) :=
  Runs.of_eq fun _ => rfl

/-- The queries at the start of the server need no blobs. -/
theorem autodeleteQueries_blobless : ∀ query ∈ autodeleteQueries, Blobless query := by
  intro query hquery
  rcases List.mem_cons.1 hquery with rfl | hquery
  · exact ⟨.findImage, "FindImage", [], rfl, rfl, rfl⟩
  · obtain rfl := List.mem_singleton.1 hquery
    exact ⟨.findVideo, "FindVideo", [], rfl, rfl, rfl⟩

variable [Platform.Lawful] [Platform.Quiet]

/-- **The call** ends, and has entered the nodes that its two queries list. -/
theorem buildAutodeleteQueue_runs (R : JsonReader) (W : Surroundings) {s : Handler} (limit : ℤ)
    (now : ℕ) (hs : s.tx = none) (hl : s.db.Expiring s.db.listedAtStart) :
    ∃ t, Runs (buildAutodeleteQueue R W) (atStart s limit now) (.ret () t) ∧
      t.server.db = s.db ∧ t.server.expirationQueue =
        enter s.expirationQueue (s.db.expirationEntries s.db.listedAtStart) := by
  obtain ⟨rs, w, hrun, hdb, hqueue⟩ := autodeleteTransaction_runs limit now hs hl
  let s₁ : QueryState Handler :=
    { atStart s limit now with query := autodeleteTransaction limit now }
  have hend : Total (processAccepted (W.methods true) autodeleteQueries []) (atStart s limit now)
      (fun _ => ServerIs w.db w.expirationQueue) fun _ => ServerIs w.db w.expirationQueue :=
    Total.after (constructLoop_autodelete W s limit now)
      (runTransaction_total (s := s₁) autodeleteQueries_blobless hrun)
  have hcaught := hend.tryCatch fun e t ht => handleException_total (W := W) (b := true) e ht
  obtain ⟨_, t, hruns, ht⟩ := hcaught.returns
  refine ⟨t, ?_, ht.1.trans hdb, ht.2.trans hqueue⟩
  exact (processQuery_runs _ (parseCommands_autodelete R W _) _).2 hruns

/-! ### What the queue holds -/

/-- The queue has one entry for each node with an expiration, at its time, and no other, and
it is in order. -/
structure Rebuilt (g : Graph) (q : List AutoDeleteNode) : Prop where
  agrees : Agrees g q
  ordered : Ordered q

/-- The node is an image or a video, and its expiration is a number greater than 0. -/
def Graph.EnteredAtStart (g : Graph) (n : NodeID) : Prop :=
  ∃ nd z, g.node n = some nd ∧ (nd.tag = stringID "VD:IMG" ∨ nd.tag = stringID "VD:VID") ∧
    nd.props (stringID "_expiration") = some (.integer z) ∧ 0 < z

section Queue

variable [Platform.Integers] [Platform.Greater] {g : Graph} {n : NodeID}

omit [Platform.Quiet] in
/-- A query at the start finds the nodes of its tag with an expiration greater than 0. -/
theorem mem_expiringExpr {tag : String} (htag : tag ≠ "") :
    n ∈ (expiringExpr tag).matchList g ↔ ∃ nd z, g.node n = some nd ∧ nd.tag = stringID tag ∧
      nd.props (stringID "_expiration") = some (.integer z) ∧ 0 < z := by
  have hkey : stringID "_expiration" ≠ 0 := Platform.Integers.stringID_ne_zero _ (by decide)
  have hne : stringID tag ≠ 0 := Platform.Integers.stringID_ne_zero _ htag
  rw [SearchExpression.mem_matchList]
  constructor
  · rintro ⟨nd, hnd, htagged, hpass⟩
    obtain ⟨z, hz, hpos⟩ :=
      (Platform.Greater.passes_gt _ _ _ hkey).1 (hpass _ (List.mem_singleton_self _))
    refine ⟨nd, z, hnd, ?_, hz, hpos⟩
    have htagged : (decide (stringID tag = 0) || decide (nd.tag = stringID tag)) = true := htagged
    simpa [hne] using htagged
  · rintro ⟨nd, z, hnd, htagged, hz, hpos⟩
    refine ⟨nd, hnd, by simp [tagMatches, expiringExpr, htagged], fun pp hpp => ?_⟩
    obtain rfl := List.mem_singleton.1 hpp
    exact (Platform.Greater.passes_gt _ _ _ hkey).2 ⟨z, hz, hpos⟩

omit [Platform.Quiet] in
/-- The two queries list the images and videos with such an expiration. -/
theorem mem_listedAtStart : n ∈ g.listedAtStart ↔ g.EnteredAtStart n := by
  rw [Graph.listedAtStart, List.mem_append, mem_expiringExpr (by decide),
    mem_expiringExpr (by decide)]
  constructor
  · rintro (⟨nd, z, hnd, htag, hz⟩ | ⟨nd, z, hnd, htag, hz⟩)
    · exact ⟨nd, z, hnd, .inl htag, hz⟩
    · exact ⟨nd, z, hnd, .inr htag, hz⟩
  · rintro ⟨nd, z, hnd, htag | htag, hz⟩
    · exact .inl ⟨nd, z, hnd, htag, hz⟩
    · exact .inr ⟨nd, z, hnd, htag, hz⟩

omit [Platform.Quiet] [Platform.Lawful] [Platform.Integers] [Platform.Greater] in
/-- A node that is entered has its expiration as a number. -/
theorem Graph.EnteredAtStart.expiration (h : g.EnteredAtStart n) :
    g.expiration n = some (.integer (g.expirationTime n)) := by
  obtain ⟨nd, z, hnd, -, hz, -⟩ := h
  have hexp : g.expiration n = some (.integer z) := by simp [Graph.expiration, hnd, hz]
  rw [Graph.expirationTime, hexp]

omit [Platform.Quiet] in
/-- The nodes that are listed have expirations. -/
theorem listedAtStart_expiring : g.Expiring g.listedAtStart := fun _ hn =>
  (mem_listedAtStart.1 hn).expiration

omit [Platform.Quiet] in
/-- A node has one tag, so the two queries list different nodes. -/
theorem listedAtStart_nodup : g.listedAtStart.Nodup := by
  refine List.nodup_append.2 ⟨SearchExpression.matchList_nodup _ _,
    SearchExpression.matchList_nodup _ _, ?_⟩
  rintro n himg m hvid rfl
  obtain ⟨nd, -, hnd, htag, -⟩ := (mem_expiringExpr (by decide)).1 himg
  obtain ⟨nd', -, hnd', htag', -⟩ := (mem_expiringExpr (by decide)).1 hvid
  obtain rfl := Option.some.inj (hnd.symm.trans hnd')
  have hsame : "VD:IMG" = "VD:VID" := Platform.Lawful.stringID_injective (htag.symm.trans htag')
  exact absurd hsame (by decide)

omit [Platform.Quiet] in
/-- The queue of exactly these nodes. -/
theorem rebuilt_entries_iff :
    Rebuilt g (enter [] (g.expirationEntries g.listedAtStart)) ↔
      ∀ n v, g.expiration n = some v → g.EnteredAtStart n := by
  have hmem : ∀ a, a ∈ enter [] (g.expirationEntries g.listedAtStart) ↔
      ∃ n, g.EnteredAtStart n ∧ expirationEntry n (g.expirationTime n) = a := by
    intro a
    rw [(enter_perm _ _).mem_iff, List.append_nil, Graph.expirationEntries, List.mem_map]
    exact exists_congr fun n => and_congr_left fun _ => mem_listedAtStart
  constructor
  · intro h n v hv
    obtain ⟨z, -, hin⟩ := h.agrees.complete n v hv
    obtain ⟨m, hm, heq⟩ := (hmem _).1 hin
    have hmn : m = n := by simpa [expirationEntry] using congrArg AutoDeleteNode.node heq
    exact hmn ▸ hm
  · intro h
    refine ⟨⟨fun a ha => ?_, fun n v hv => ?_, ?_⟩, enter_ordered List.Pairwise.nil⟩
    · obtain ⟨n, hn, rfl⟩ := (hmem a).1 ha
      exact ⟨n, g.expirationTime n, rfl, hn.expiration⟩
    · have hn := h n v hv
      refine ⟨g.expirationTime n, ?_, (hmem _).2 ⟨n, hn, rfl⟩⟩
      exact Option.some.inj (hv.symm.trans hn.expiration)
    · rw [((enter_perm _ _).map AutoDeleteNode.node).nodup_iff, List.append_nil,
        Graph.expirationEntries, List.map_map]
      exact listedAtStart_nodup.map fun n m hnm => by simpa [expirationEntry] using hnm

/-- **A restart.** The call at the start of the server ends and leaves the graph as it was. The
queue, empty before, is then the one that belongs to the graph exactly if every node with an
expiration is an image or a video whose expiration is a number greater than 0. -/
theorem rebuilt_iff (R : JsonReader) (W : Surroundings) {s : Handler} (limit : ℤ) (now : ℕ)
    (hs : s.tx = none) (hempty : s.expirationQueue = []) :
    ∃ t, Runs (buildAutodeleteQueue R W) (atStart s limit now) (.ret () t) ∧
      t.server.db = s.db ∧ (Rebuilt s.db t.server.expirationQueue ↔
        ∀ n v, s.db.expiration n = some v → s.db.EnteredAtStart n) := by
  obtain ⟨t, hrun, hdb, hqueue⟩ :=
    buildAutodeleteQueue_runs R W limit now hs listedAtStart_expiring
  rw [hempty] at hqueue
  exact ⟨t, hrun, hdb, hqueue ▸ rebuilt_entries_iff⟩

end Queue

end

/-- Surroundings in which nothing is read from files. -/
def noFiles : Surroundings where
  report _ := ""
  jsonWhat := ""
  constructOther _ _ _ _ error := pure (0, error)
  constructResponses _ response _ _ answer := (.ok response, answer)
  deletedFiles _ _ := []
  pathVideos := "db/videos"

/-- A database with one node of the tag, which expires at 10. -/
def oneExpiring (tag : String) : Handler where
  db := ⟨[some ⟨stringID tag, fun k =>
    if k = stringID "_expiration" then some (.integer 10) else none⟩], []⟩

/-- A database with an image that expires at 10, a video that expires at 7, and an entity that
does not expire. -/
def imageAndVideo : Handler where
  db := ⟨[some ⟨stringID "VD:IMG", fun k =>
      if k = stringID "_expiration" then some (.integer 10) else none⟩,
    some ⟨stringID "VD:VID", fun k =>
      if k = stringID "_expiration" then some (.integer 7) else none⟩,
    some ⟨stringID "A", fun _ => none⟩], []⟩

/-- The image and the video are in the queue again. -/
theorem rebuilt_iff_image_and_video : ∃ t,
    Runs (buildAutodeleteQueue JsonReader.plain noFiles) (atStart imageAndVideo 0 0)
      (.ret () t) ∧ Rebuilt imageAndVideo.db t.server.expirationQueue := by
  obtain ⟨t, hrun, -, hiff⟩ :=
    rebuilt_iff JsonReader.plain noFiles (s := imageAndVideo) 0 0 rfl rfl
  refine ⟨t, hrun, hiff.2 fun n v hv => ?_⟩
  match n with
  | 0 => exact ⟨_, 10, rfl, .inl rfl, rfl, by decide⟩
  | 1 => exact ⟨_, 7, rfl, .inr rfl, rfl, by decide⟩
  | 2 => cases hv
  | n + 3 => simp [imageAndVideo, Graph.expiration, Graph.node] at hv

/-- **An entity that expires is not.** -/
theorem entity_not_entered : ∃ t,
    Runs (buildAutodeleteQueue JsonReader.plain noFiles) (atStart (oneExpiring "A") 0 0)
      (.ret () t) ∧ (oneExpiring "A").db.expiration 0 = some (.integer 10) ∧
      t.server.expirationQueue = [] ∧ ¬ Rebuilt (oneExpiring "A").db t.server.expirationQueue := by
  have hnone : (oneExpiring "A").db.listedAtStart = [] := by
    refine List.eq_nil_iff_forall_not_mem.2 fun n hn => ?_
    obtain ⟨nd, z, hnd, htag, -⟩ := mem_listedAtStart.1 hn
    cases n with
    | zero =>
        obtain rfl := Option.some.inj hnd
        revert htag
        decide
    | succ n => simp [oneExpiring, Graph.node] at hnd
  obtain ⟨t, hrun, -, hqueue⟩ := buildAutodeleteQueue_runs JsonReader.plain noFiles
    (s := oneExpiring "A") 0 0 rfl listedAtStart_expiring
  have hempty : t.server.expirationQueue = [] := by
    rw [hqueue, hnone]
    rfl
  refine ⟨t, hrun, rfl, hempty, fun h => ?_⟩
  obtain ⟨z, -, hin⟩ := h.agrees.complete 0 (.integer 10) rfl
  rw [hempty] at hin
  cases hin

end Vdms
