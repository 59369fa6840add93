import Vdms.PurgeIsolation

/-!
# Whose Response is Whose

A command of a request expands to any number of commands of the handler, all with one group
number. The handler collects the responses by group, and `run` hands the groups back as an
array, without those of the commands that open and close the transaction. A failure is
signalled by the number of groups: a transaction that was rolled back has one response.

Whether a command has failed is decided twice, though. `run` looks at the number of groups
only, so what `process_query` lets pass ends up in the array as the response of a success.

## Main definitions

* `PMGDQuery.Expands`: a transaction with the commands that each command of the request
  has issued.
* `RoutesResponses`: on success every command of the request gets the responses of its own
  commands, and on a failure there is a status object.

## Main results

* `deliver_groups`: responses that are collected by group, group by group.
* `responses_routed_iff`: the responses are routed exactly if a failure rolls the
  transaction back, or there is a command, no failure goes unnoticed, and no list holds a
  value without a JSON form.
* `failed_update_answers`: a request that is answered with an array, though an update has
  failed.
-/

namespace Vdms

open Imp Imp.Prog Platform Relation

/-! ### Collecting responses -/

/-- The responses of the commands, each at the end of the group of its command. -/
def deliver (rs : Responses) (ps : List (Command × Response)) : Responses :=
  ps.foldl (fun rs p => rs.modify p.1.cmdGrpId fun l => l ++ [p.2]) rs

/-- Two lists of lists of the same lengths. -/
def SameLengths {α β : Type} : List (List α) → List (List β) → Prop :=
  List.Forall₂ fun as bs => as.length = bs.length

section Deliver

variable {ps ps' : List (Command × Response)} {pre post rs : Responses}

theorem deliver_append : deliver rs (ps ++ ps') = deliver (deliver rs ps) ps' :=
  List.foldl_append

theorem modify_length (pre post : Responses) (group : List Response)
    (f : List Response → List Response) :
    (pre ++ group :: post).modify pre.length f = pre ++ f group :: post := by
  induction pre with
  | nil => rfl
  | cons first pre ih => simp [ih]

/-- Responses of one group. Induction on the responses. -/
theorem deliver_group {group : List Response} (h : ∀ p ∈ ps, p.1.cmdGrpId = pre.length) :
    deliver (pre ++ group :: post) ps = pre ++ (group ++ ps.map Prod.snd) :: post := by
  induction ps generalizing group with
  | nil => simp [deliver]
  | cons p ps ih =>
      have hhead : p.1.cmdGrpId = pre.length := h p (List.mem_cons_self ..)
      have hmodify : (pre ++ group :: post).modify p.1.cmdGrpId (fun l => l ++ [p.2]) =
          pre ++ (group ++ [p.2]) :: post := by
        rw [hhead, modify_length]
      have htail : deliver (pre ++ (group ++ [p.2]) :: post) ps =
          pre ++ (group ++ [p.2] ++ ps.map Prod.snd) :: post :=
        ih fun q hq => h q (List.mem_cons_of_mem _ hq)
      calc deliver (pre ++ group :: post) (p :: ps)
          = deliver (pre ++ (group ++ [p.2]) :: post) ps := by rw [← hmodify]; rfl
        _ = pre ++ (group ++ [p.2] ++ ps.map Prod.snd) :: post := htail
        _ = pre ++ (group ++ (p :: ps).map Prod.snd) :: post := by simp

/-- **Responses by group.** The commands of one group after the other, starting with the
first empty one. Induction on the groups. -/
theorem deliver_groups {css : List (List Command)} {rss : Responses}
    (hlen : SameLengths css rss)
    (hgroup : ∀ i cs, css[i]? = some cs → ∀ cmd ∈ cs, cmd.cmdGrpId = pre.length + i) :
    deliver (pre ++ List.replicate css.length []) (css.flatten.zip rss.flatten) = pre ++ rss := by
  induction hlen generalizing pre with
  | nil => simp [deliver]
  | @cons cs rs css rss hhead htail ih =>
      have hzip : (cs :: css).flatten.zip (rs :: rss).flatten =
          cs.zip rs ++ css.flatten.zip rss.flatten := by
        rw [List.flatten_cons, List.flatten_cons, List.zip_append hhead]
      have hfirst : ∀ p ∈ cs.zip rs, p.1.cmdGrpId = pre.length := by
        intro p hp
        have hmem : p.1 ∈ cs := (List.of_mem_zip hp).1
        have hgrp := hgroup 0 cs rfl p.1 hmem
        omega
      have hrest : ∀ i cs', css[i]? = some cs' → ∀ cmd ∈ cs',
          cmd.cmdGrpId = (pre ++ [rs]).length + i := by
        intro i cs' hget cmd hcmd
        have hgrp := hgroup (i + 1) cs' (by simpa using hget) cmd hcmd
        rw [hgrp, List.length_append, List.length_singleton]
        omega
      have hsnd : (cs.zip rs).map Prod.snd = rs := List.map_snd_zip (by omega)
      rw [hzip, deliver_append, List.length_cons, List.replicate_succ, deliver_group hfirst, hsnd,
        List.nil_append, List.append_cons, ih hrest, List.append_assoc]
      rfl

end Deliver

/-- A list of responses falls into groups of given lengths. Induction on the groups. -/
theorem exists_groups {css : List (List Command)} {rs : List Response}
    (h : css.flatten.length = rs.length) : ∃ rss, SameLengths css rss ∧ rss.flatten = rs := by
  induction css generalizing rs with
  | nil => exact ⟨[], .nil, (List.eq_nil_of_length_eq_zero h.symm).symm⟩
  | cons cs css ih =>
      rw [List.flatten_cons, List.length_append] at h
      have hrest : css.flatten.length = (rs.drop cs.length).length := by
        rw [List.length_drop]
        omega
      obtain ⟨rss, hlen, hflat⟩ := ih hrest
      refine ⟨rs.take cs.length :: rss, .cons ?_ hlen, ?_⟩
      · rw [List.length_take]
        omega
      · rw [List.flatten_cons, hflat, List.take_append_drop]

section

variable [Platform] {s t u : Handler} {cmd : Command} {cmds : List Command}
  {xs : List Response}

/-! ### The responses of a transaction that succeeds -/

/-- The commands succeed, and these are their responses. -/
inductive RespondsWith : List Command → Handler → List Response → Handler → Prop
  | nil {s : Handler} : RespondsWith [] s [] s
  | cons {cmd : Command} {cmds : List Command} {s t u : Handler} {v : ℤ} {xs : List Response} :
      Runs (processQuery cmd) s (.ret v t) → 0 ≤ v → RespondsWith cmds t.advance xs u →
      RespondsWith (cmd :: cmds) s (t.response :: xs) u

theorem RespondsWith.length_eq (h : RespondsWith cmds s xs t) : cmds.length = xs.length := by
  induction h with
  | nil => rfl
  | cons _ _ _ ih => rw [List.length_cons, List.length_cons, ih]

/-- The command loop delivers the responses. Induction on the commands. -/
theorem RespondsWith.runs {rs : Responses} (h : RespondsWith cmds s xs t)
    (hgroup : ∀ cmd ∈ cmds, cmd.cmdGrpId < rs.length) :
    Runs (processCommands rs cmds) s (.ret (deliver rs (cmds.zip xs)) t) := by
  induction h generalizing rs with
  | nil => exact Runs.of_eq fun _ => rfl
  | @cons cmd cmds s t u v xs hrun hv _ ih =>
      have hlt : cmd.cmdGrpId < rs.length := hgroup cmd (List.mem_cons_self ..)
      have hrest : ∀ c ∈ cmds,
          c.cmdGrpId < (rs.modify cmd.cmdGrpId fun l => l ++ [t.response]).length := by
        intro c hc
        rw [List.length_modify]
        exact hgroup c (List.mem_cons_of_mem _ hc)
      refine Runs.bind hrun (Runs.bind (Runs.of_eq fun _ => rfl) ?_)
      rw [if_neg (by omega), if_pos hlt]
      exact Runs.bind (Runs.of_eq fun _ => rfl) (ih hrest)

/-- A transaction that comes to its end has the responses of all its commands. -/
theorem answers_of_reaches (h : Progress.Reaches ⟨cmds, s⟩ ⟨[], u⟩) :
    ∃ xs, RespondsWith cmds s xs u := by
  have key : ∀ p q, Progress.Reaches p q → q = ⟨[], u⟩ →
      ∃ xs, RespondsWith p.cmds p.handler xs u := by
    intro p q hpq hq
    induction hpq using ReflTransGen.head_induction_on with
    | refl =>
        subst hq
        exact ⟨[], .nil⟩
    | head hstep _ ih =>
        obtain ⟨xs, hxs⟩ := ih
        cases hstep with
        | intro hrun hv => exact ⟨_, .cons hrun hv hxs⟩
  exact key _ _ h rfl

/-- What is asked of every response is a condition on every command. Induction on the
commands. -/
theorem RespondsWith.forall_iff {Q : Command → Response → Prop} (h : RespondsWith cmds s xs t) :
    (∀ p ∈ cmds.zip xs, Q p.1 p.2) ↔ EachCommand (fun cmd u => ∀ v w,
      Runs (processQuery cmd) u (.ret v w) → Q cmd w.response) cmds s := by
  induction h with
  | nil => exact ⟨fun _ => eachCommand_nil, fun _ p hp => by cases hp⟩
  | @cons cmd cmds s t u v xs hrun hv _ ih =>
      rw [List.zip_cons_cons, List.forall_mem_cons, ih, eachCommand_cons]
      constructor
      · rintro ⟨hhead, htail⟩
        refine ⟨fun v' w hrun' => ?_, fun v' w hrun' _ => ?_⟩
        · injection Runs.unique hrun hrun' with _ hsame
          rwa [← hsame]
        · injection Runs.unique hrun hrun' with _ hsame
          rwa [← hsame]
      · rintro ⟨hhead, htail⟩
        exact ⟨hhead v t hrun, htail v t hrun hv⟩

/-! ### Failures that go unnoticed -/

theorem processQuery_of_dispatch {v : ℤ} (h : Runs (dispatch cmd) (s.begin cmd) (.ret v t)) :
    Runs (processQuery cmd) s (.ret v t) :=
  Runs.bind (Runs.of_eq fun _ => rfl) h.tryCatch

/-- A query does not say that something exists already. -/
theorem Does.not_alreadyExists {K : List Kind} (h : Does K s t)
    (hs : s.response.errorCode = .success) (hK : .report .alreadyExists ∉ K) :
    t.response.errorCode ≠ .alreadyExists := by
  intro hcode
  rcases h.errorCode_eq with hsame | hmem
  · rw [hcode, hs] at hsame
    cases hsame
  · rw [hcode] at hmem
    exact hK hmem

omit [Platform] in
theorem not_fine {code : ErrorCode} (hsucc : code ≠ .success) (hexists : code ≠ .alreadyExists) :
    ¬ code.Fine := by
  rintro (h | h)
  · exact hsucc h
  · exact hexists h

omit [Platform] in
theorem fail_runs (s : Handler) (code : ErrorCode) (msg : String) : ∃ w,
    Runs (fail code msg) s (.ret (-1) w) ∧ w.response.errorCode = code :=
  ⟨_, Runs.of_eq fun _ => rfl, rfl⟩

omit [Platform] in
theorem error_not_fine : ¬ ErrorCode.error.Fine := not_fine (by decide) (by decide)

/-- The part of an update from its query on: the query does not lead to references. -/
theorem update_fails {K : List Kind} {m atKey : Handling ℤ} {id : ℤ} (msg : String)
    (hm : Footprint K m) (hK : .report .alreadyExists ∉ K)
    (hs : s.response.errorCode = .success)
    (h : ∃ v t, Runs m s (.ret v t) ∧ (t.response.errorCode ≠ .success ∨ id < 0)) :
    ∃ v w, Runs (m >>= fun _ => get >>= fun u =>
      if u.response.errorCode ≠ .success then pure (-1)
      else if 0 ≤ id then atKey else fail .error msg) s (.ret v w) ∧
        ¬ w.response.errorCode.Fine := by
  obtain ⟨v, t, hrun, hnothing⟩ := h
  have hexists : t.response.errorCode ≠ .alreadyExists :=
    ((hm s).does hrun).not_alreadyExists hs hK
  by_cases hcode : t.response.errorCode = .success
  · have hid : ¬ 0 ≤ id := by
      rcases hnothing with h | h
      · exact absurd hcode h
      · omega
    obtain ⟨w, hfail, hw⟩ := fail_runs t .error msg
    refine ⟨-1, w, Runs.bind hrun (Runs.bind (Runs.of_eq fun _ => rfl) ?_), hw ▸ error_not_fine⟩
    rw [if_neg (by simpa using hcode), if_neg hid]
    exact hfail
  · refine ⟨-1, t, Runs.bind hrun (Runs.bind (Runs.of_eq fun _ => rfl) ?_),
      not_fine hcode hexists⟩
    rw [if_pos hcode]
    exact Runs.of_eq fun _ => rfl

theorem updateNode_fails {un : UpdateNode} (hs : s.response.errorCode = .success)
    (hown : ¬ (0 ≤ un.identifier ∧ (s.cachedNodes (toInt un.identifier)).isSome))
    (h : FindsNothing (un.queryNode.map fun qn => (queryNode qn, qn.identifier)) s) :
    ∃ v w, Runs (updateNode un) s (.ret v w) ∧ ¬ w.response.errorCode.Fine := by
  cases hquery : un.queryNode with
  | none =>
      obtain ⟨w, hrun, hcode⟩ := fail_runs s .error "Undefined _ref value used in update"
      refine ⟨-1, w, Runs.bind (Runs.of_eq fun _ => rfl) ?_, hcode ▸ error_not_fine⟩
      rw [if_neg hown, hquery]
      exact hrun
  | some qn =>
      rw [hquery] at h
      have hfails : ∃ v w, Runs (queryNode qn >>= fun _ => updateNodeFound un qn) s (.ret v w) ∧
          ¬ w.response.errorCode.Fine :=
        update_fails _ (queryNode_footprint qn) (by simp [queryNodeKinds, foundKinds]) hs h
      obtain ⟨v, w, hrun, hw⟩ := hfails
      refine ⟨v, w, Runs.bind (Runs.of_eq fun _ => rfl) ?_, hw⟩
      rw [if_neg hown, hquery]
      exact hrun

theorem updateEdge_fails {ue : UpdateEdge} (hs : s.response.errorCode = .success)
    (hown : ¬ (0 ≤ ue.identifier ∧ (s.cachedEdges (toInt ue.identifier)).isSome))
    (h : FindsNothing (ue.queryEdge.map fun qe => (queryEdge qe, qe.identifier)) s) :
    ∃ v w, Runs (updateEdge ue) s (.ret v w) ∧ ¬ w.response.errorCode.Fine := by
  cases hquery : ue.queryEdge with
  | none =>
      obtain ⟨w, hrun, hcode⟩ := fail_runs s .error "Undefined _ref value used in update"
      refine ⟨-1, w, Runs.bind (Runs.of_eq fun _ => rfl) ?_, hcode ▸ error_not_fine⟩
      rw [if_neg hown, hquery]
      exact hrun
  | some qe =>
      rw [hquery] at h
      have hfails : ∃ v w, Runs (queryEdge qe >>= fun _ => updateEdgeFound ue qe) s (.ret v w) ∧
          ¬ w.response.errorCode.Fine :=
        update_fails _ (queryEdge_footprint qe) (by simp [queryEdgeKinds, foundKinds]) hs h
      obtain ⟨v, w, hrun, hw⟩ := hfails
      refine ⟨v, w, Runs.bind (Runs.of_eq fun _ => rfl) ?_, hw⟩
      rw [if_neg hown, hquery]
      exact hrun

/-- A command whose failure goes unnoticed answers, and its answer is not fine. -/
theorem FailsUnnoticed.answers (h : FailsUnnoticed cmd s) : ∃ v w,
    Runs (processQuery cmd) s (.ret v w) ∧ ¬ w.response.errorCode.Fine := by
  have hquery : ∀ {m : Handling ℤ}, dispatch cmd = m →
      (∃ v t, Runs m (s.begin cmd) (.ret v t) ∧ 0 ≤ v ∧ t.response.errorCode = .error) →
      ∃ v w, Runs (processQuery cmd) s (.ret v w) ∧ ¬ w.response.errorCode.Fine := by
    rintro m hm ⟨v, t, hrun, -, hcode⟩
    exact ⟨v, t, processQuery_of_dispatch (hm ▸ hrun), hcode ▸ error_not_fine⟩
  have hupdate : ∀ {m : Handling ℤ}, dispatch cmd = (m >>= fun _ => pure 0) →
      (∃ v t, Runs m (s.begin cmd) (.ret v t) ∧ ¬ t.response.errorCode.Fine) →
      ∃ v w, Runs (processQuery cmd) s (.ret v w) ∧ ¬ w.response.errorCode.Fine := by
    rintro m hm ⟨v, t, hrun, hcode⟩
    have hdispatch : Runs (dispatch cmd) (s.begin cmd) (.ret 0 t) :=
      hm ▸ hrun.bind (Runs.of_eq fun _ => rfl)
    exact ⟨0, t, processQuery_of_dispatch hdispatch, hcode⟩
  cases hid : cmd.cmdId with
  | queryNode =>
      simp only [FailsUnnoticed, hid] at h
      exact hquery (by simp only [dispatch, hid]) h
  | queryEdge =>
      simp only [FailsUnnoticed, hid] at h
      exact hquery (by simp only [dispatch, hid]) h
  | updateNode =>
      simp only [FailsUnnoticed, hid] at h
      exact hupdate (by simp only [dispatch, hid]) (updateNode_fails rfl h.1 h.2)
  | updateEdge =>
      simp only [FailsUnnoticed, hid] at h
      exact hupdate (by simp only [dispatch, hid]) (updateEdge_fails rfl h.1 h.2)
  | _ => simp only [FailsUnnoticed, hid] at h

/-! ### The groups of a transaction -/

namespace PMGDQuery

/-- What a command of the request does to the query: it issues these commands, and may take
internal references. -/
inductive Issues : PMGDQuery → List Command → PMGDQuery → Prop
  | done {q : PMGDQuery} : Issues q [] q
  | reference {q q' : PMGDQuery} {cmds : List Command} :
      Issues { q with currentRef := q.currentRef + 1 } cmds q' → Issues q cmds q'
  | push {q q₁ q' : PMGDQuery} {cmd : Command} {cmds : List Command} : q.Pushes cmd q₁ →
      Issues q₁ cmds q' → Issues q (cmd :: cmds) q'

/-- A transaction, with the commands that each command of the request has issued. -/
inductive Expands : PMGDQuery → List (List Command) → Prop
  | new (expirationLimit : ℤ) (now : ℕ) : Expands (PMGDQuery.new expirationLimit now) []
  | command {q q' : PMGDQuery} {css : List (List Command)} {cmds : List Command} :
      Expands q css → Issues q.addGroup cmds q' → Expands q' (css ++ [cmds])

variable {q q' : PMGDQuery} {css : List (List Command)}

omit [Platform] in
/-- Everything is issued in the current group. Induction on the commands. -/
theorem Issues.shape (h : Issues q cmds q') : q'.currentGroupId = q.currentGroupId ∧
    q'.cmds = q.cmds ++ cmds ∧
    ∀ cmd ∈ cmds, cmd.cmdGrpId = q.currentGroupId ∧ cmd.cmdId.isTx = false := by
  induction h with
  | done => exact ⟨rfl, (List.append_nil _).symm, fun cmd hcmd => by cases hcmd⟩
  | reference _ ih => exact ih
  | push hpush _ ih =>
      obtain ⟨hcmds, hgrp, hcurrent, htx, -⟩ := hpush
      obtain ⟨hgroup, hall, hrest⟩ := ih
      rw [hcurrent] at hgroup hrest
      refine ⟨hgroup, by rw [hall, hcmds, List.append_assoc]; rfl, ?_⟩
      intro c hc
      rcases List.mem_cons.1 hc with rfl | hc
      · exact ⟨hgrp, htx⟩
      · exact hrest c hc

omit [Platform] in
/-- The groups are numbered from 1 on; group 0 is that of the command that opens the
transaction. Induction on the commands of the request. -/
theorem Expands.shape (h : Expands q css) : q.currentGroupId = css.length ∧
    q.cmds = { cmdId := .txBegin } :: css.flatten ∧
    ∀ i cmds, css[i]? = some cmds → ∀ cmd ∈ cmds, cmd.cmdGrpId = i + 1 ∧
      cmd.cmdId.isTx = false := by
  induction h with
  | new => exact ⟨rfl, rfl, fun i cmds hget => by cases hget⟩
  | @command q q' css cmds _ hissues ih =>
      obtain ⟨hcurrent, hcmds, hgroups⟩ := ih
      obtain ⟨hgroup, hall, hnew⟩ := hissues.shape
      have hnumber : q.addGroup.currentGroupId = css.length + 1 := by
        rw [← hcurrent]
        rfl
      have hold : q.addGroup.cmds = { cmdId := .txBegin } :: css.flatten := hcmds
      refine ⟨?_, ?_, fun i cmds' hget => ?_⟩
      · rw [hgroup, hnumber, List.length_append, List.length_singleton]
      · rw [hall, hold, List.flatten_append]
        simp
      · rcases Nat.lt_trichotomy i css.length with hlt | rfl | hgt
        · rw [List.getElem?_append_left hlt] at hget
          exact hgroups i cmds' hget
        · rw [List.getElem?_concat_length] at hget
          obtain rfl := Option.some.inj hget
          rwa [hnumber] at hnew
        · rw [List.getElem?_eq_none (by simp; omega)] at hget
          cases hget

/-- The groups of the whole transaction, with those that open and close it. -/
def groups (q : PMGDQuery) (css : List (List Command)) : List (List Command) :=
  [{ cmdId := .txBegin }] :: (css ++
    [[{ cmdId := .txCommit, cmdGrpId := q.currentGroupId + 1 }]])

omit [Platform] in
theorem Expands.request_cmds (h : Expands q css) (init : Bool) :
    (q.request init).cmds = (q.groups css).flatten := by
  obtain ⟨-, hcmds, -⟩ := h.shape
  change q.cmds ++ [_] = _
  rw [hcmds, groups, List.flatten_cons, List.flatten_append]
  rfl

omit [Platform] in
theorem Expands.numGroups (h : Expands q css) (init : Bool) :
    (q.request init).numGroups = (q.groups css).length := by
  obtain ⟨hcurrent, -, -⟩ := h.shape
  change q.currentGroupId + 1 + 1 = _
  simp [groups, hcurrent]

omit [Platform] in
theorem Expands.groups_number (h : Expands q css) (i : ℕ) (cmds : List Command)
    (hget : (q.groups css)[i]? = some cmds) : ∀ cmd ∈ cmds, cmd.cmdGrpId = i := by
  obtain ⟨hcurrent, -, hgroups⟩ := h.shape
  intro cmd hcmd
  rcases i with - | i
  · obtain rfl := Option.some.inj hget
    obtain rfl := List.mem_singleton.1 hcmd
    rfl
  · rw [groups, List.getElem?_cons_succ] at hget
    rcases Nat.lt_trichotomy i css.length with hlt | rfl | hgt
    · rw [List.getElem?_append_left hlt] at hget
      exact (hgroups i cmds hget cmd hcmd).1
    · rw [List.getElem?_concat_length] at hget
      obtain rfl := Option.some.inj hget
      obtain rfl := List.mem_singleton.1 hcmd
      exact congrArg (· + 1) hcurrent
    · rw [List.getElem?_eq_none (by simp; omega)] at hget
      cases hget

omit [Platform] in
theorem Expands.isTransaction (h : Expands q css) (init : Bool) :
    IsTransaction (q.request init).cmds := by
  obtain ⟨-, -, hgroups⟩ := h.shape
  refine ⟨{ cmdId := .txBegin }, css.flatten,
    { cmdId := .txCommit, cmdGrpId := q.currentGroupId + 1 }, ?_, rfl, fun cmd hcmd => ?_, rfl⟩
  · rw [h.request_cmds, groups, List.flatten_cons, List.flatten_append]
    rfl
  · obtain ⟨cmds, hcmds, hmem⟩ := List.mem_flatten.1 hcmd
    obtain ⟨i, hi⟩ := List.mem_iff_getElem?.1 hcmds
    exact (hgroups i cmds hi cmd hmem).2

/-- **The groups of a transaction that succeeds.** -/
theorem Expands.responses (h : Expands q css) {init : Bool} {rs rss : Responses}
    {first last : Response} (hrun : Runs (q.run init) s (.ret rs t))
    (hanswers : RespondsWith (q.request init).cmds ((q.request init).opens s)
      (first :: (rss.flatten ++ [last])) u)
    (hlen : SameLengths css rss) : rs = [first] :: (rss ++ [[last]]) := by
  obtain ⟨-, u', -, hloop⟩ := processQueries_inv (r := q.request init) hrun
  have hsame : SameLengths (q.groups css) ([first] :: (rss ++ [[last]])) :=
    .cons rfl (List.rel_append hlen (.cons rfl .nil))
  have hflat : ([first] :: (rss ++ [[last]])).flatten = first :: (rss.flatten ++ [last]) := by
    simp
  have hnumber : ∀ cmd ∈ (q.request init).cmds,
      cmd.cmdGrpId < (List.replicate (q.request init).numGroups ([] : List Response)).length := by
    intro cmd hcmd
    rw [h.request_cmds] at hcmd
    obtain ⟨cmds, hcmds, hmem⟩ := List.mem_flatten.1 hcmd
    obtain ⟨i, hi⟩ := List.mem_iff_getElem?.1 hcmds
    rw [h.groups_number i cmds hi cmd hmem, List.length_replicate, h.numGroups]
    exact (List.getElem?_eq_some_iff.1 hi).1
  injection Runs.unique hloop (hanswers.runs hnumber) with hrs _
  rw [hrs, h.request_cmds, h.numGroups, ← hflat]
  have hgroups : ∀ i cs, (q.groups css)[i]? = some cs → ∀ cmd ∈ cs,
      cmd.cmdGrpId = ([] : Responses).length + i := by
    intro i cs hget cmd hcmd
    rw [h.groups_number i cs hget cmd hcmd]
    simp
  simpa using deliver_groups hsame hgroups

end PMGDQuery

/-! ### Values without a JSON form -/

/-- The response has a JSON form. -/
def Response.Parses (r : Response) : Prop := ∃ j, parseResponse r = .ok j

/-- The property has a JSON form: it is a value, and no blob. -/
def PMGDProp.HasForm (p : PMGDProp) : Prop :=
  p.type ≠ .blobType ∧ p.type ≠ .errorType ∧ p.type ≠ .noValueType

omit [Platform] in
theorem PMGDProp.toJson_ok_iff {p : PMGDProp} : (∃ j, p.toJson = .ok j) ↔ p.HasForm := by
  rw [PMGDProp.toJson, PMGDProp.HasForm]
  cases p.type <;> simp

omit [Platform] in
/-- Only a list may fail to have a JSON form, by a value in one of its rows. -/
theorem Response.parses_iff {r : Response} : r.Parses ↔ (r.rType = .list →
    r.errorCode = .success → ∀ i < r.op.intValue, ∀ p ∈ r.propValues,
      (p.2[i]?.getD {}).HasForm) := by
  have hentity : ∀ i, (∃ j, parseEntity r.propValues i = .ok j) ↔
      ∀ p ∈ r.propValues, (p.2[i]?.getD {}).HasForm := by
    intro i
    have hmember : ∀ p : String × List PMGDProp, (∃ m : String × Json, (do
        let v ← (p.2[i]?.getD {}).toJson
        pure (p.1, v) : Except QueryError (String × Json)) = .ok m) ↔
          (p.2[i]?.getD {}).HasForm := by
      intro p
      rw [← PMGDProp.toJson_ok_iff]
      constructor
      · rintro ⟨m, hm⟩
        obtain ⟨v, hv, -⟩ := bind_ok_inv hm
        exact ⟨v, hv⟩
      · rintro ⟨v, hv⟩
        rw [hv]
        exact ⟨_, rfl⟩
    have hperm := List.perm_insertionSort (fun a b : String × List PMGDProp => a.1 ≤ b.1)
      r.propValues
    constructor
    · rintro ⟨j, hj⟩ p hp
      obtain ⟨ms, hms, -⟩ := bind_ok_inv hj
      exact (hmember p).1 (exists_mapM_ok_iff.1 ⟨ms, hms⟩ p (hperm.mem_iff.2 hp))
    · intro h
      obtain ⟨ms, hms⟩ := exists_mapM_ok_iff.2 fun p hp =>
        (hmember p).2 (h p (hperm.mem_iff.1 hp))
      rw [parseEntity]
      rw [hms]
      exact ⟨_, rfl⟩
  have hlist : (∃ entities, (List.range r.op.intValue).mapM (parseEntity r.propValues) =
      .ok entities) ↔ ∀ i < r.op.intValue, ∀ p ∈ r.propValues, (p.2[i]?.getD {}).HasForm := by
    simp only [exists_mapM_ok_iff, hentity, List.mem_range]
  rw [Response.Parses, parseResponse]
  cases htype : r.rType with
  | list =>
      by_cases hcode : r.errorCode = .success
      · simp only [hcode, if_true, forall_const]
        rw [← hlist]
        constructor
        · rintro ⟨j, hj⟩
          obtain ⟨entities, hentities, -⟩ := bind_ok_inv hj
          exact ⟨entities, hentities⟩
        · rintro ⟨entities, hentities⟩
          rw [hentities]
          exact ⟨_, rfl⟩
      · simp [hcode]
  | _ =>
      have hother : ∀ x y : Json, ∃ j, (if r.errorCode = .success then Except.ok x
          else Except.ok y : Except QueryError Json) = .ok j := by
        intro x y
        split
        · exact ⟨x, rfl⟩
        · exact ⟨y, rfl⟩
      simp [hother]

/-! ### Routing -/

/-- A command that the transaction gets to returns -1. -/
def Stops (r : Request) (s : Handler) : Prop :=
  ∃ cmd rest u v w, Progress.Reaches ⟨r.cmds, r.opens s⟩ ⟨cmd :: rest, u⟩ ∧
    Runs (processQuery cmd) u (.ret v w) ∧ v < 0

/-- A command that the transaction gets to fails: it returns -1, or its response is an
error. -/
def SomeFails (r : Request) (s : Handler) : Prop :=
  ∃ cmd rest u v w, Progress.Reaches ⟨r.cmds, r.opens s⟩ ⟨cmd :: rest, u⟩ ∧
    Runs (processQuery cmd) u (.ret v w) ∧ (v < 0 ∨ ¬ w.response.errorCode.Fine)

/-- What the command answers has a JSON form. -/
def Printable (cmd : Command) (u : Handler) : Prop :=
  ∀ v w, Runs (processQuery cmd) u (.ret v w) → cmd.cmdId.isTx = false → w.response.Parses

theorem printable_of_runs {v : ℤ} (h : Runs (processQuery cmd) s (.ret v t))
    (hparses : t.response.Parses) : Printable cmd s := by
  intro v' w hrun _
  injection Runs.unique h hrun with _ hsame
  rwa [← hsame]

/-- **Response routing.** If all commands succeed, the answer is an array with one element
for each command of the request, the parsed responses of its own commands in the order in
which they were issued. If one fails, the answer is a status object. -/
structure RoutesResponses (q : PMGDQuery) (css : List (List Command)) (init : Bool)
    (s : Handler) (rs : Responses) : Prop where
  success : ∀ {first last : Response} {rss : Responses} {u : Handler},
    RespondsWith (q.request init).cmds ((q.request init).opens s)
      (first :: (rss.flatten ++ [last])) u → SameLengths css rss →
    (∀ x ∈ rss.flatten, x.errorCode.Fine) →
    ∃ js, q.answer rs = .ok (.array js) ∧ js.length = css.length ∧
      List.Forall₂ (fun xs j => xs.mapM parseResponse = .ok j.elements) rss js
  failure : SomeFails (q.request init) s →
    ∃ j, q.answer rs = .ok j ∧ j.isArray = false ∧ j.isMember "status" = true

omit [Platform] in
theorem elements_appended (xs : List Json) : (Json.appended xs).elements = xs := by
  rw [Json.appended]
  split
  case isTrue h => rw [h]; rfl
  case isFalse h =>
    simp only [Json.elements, Json.members, List.map_map]
    exact List.zipIdx_map_fst 0 xs

namespace PMGDQuery

variable {q : PMGDQuery} {css : List (List Command)} {init : Bool} {rs rss : Responses}
  {first last : Response}

omit [Platform] in
/-- The answer to a transaction that was committed. -/
theorem Expands.answer_eq (h : Expands q css) (hlen : SameLengths css rss) :
    q.answer ([first] :: (rss ++ [[last]])) = (do
      let groups ← rss.mapM fun group => do
        let arr ← group.mapM parseResponse
        pure (Json.appended arr)
      pure (Json.appended groups)) := by
  have hnumber : ([first] :: (rss ++ [[last]])).length = q.close.currentGroupId + 1 := by
    have hcurrent : q.close.currentGroupId = css.length + 1 := congrArg (· + 1) h.shape.1
    rw [hcurrent, List.length_cons, List.length_append, List.length_singleton, hlen.length_eq]
  have hmiddle : (([first] :: (rss ++ [[last]])).drop 1).dropLast = rss := by simp
  unfold answer
  rw [if_neg (by rw [hnumber]; exact not_not.2 rfl), hmiddle]

omit [Platform] in
/-- It is an array, if all responses have a JSON form and there is a group. -/
theorem Expands.answer_array (h : Expands q css) (hlen : SameLengths css rss)
    (hcss : css ≠ []) (hparses : ∀ x ∈ rss.flatten, x.Parses) :
    ∃ js, q.answer ([first] :: (rss ++ [[last]])) = .ok (.array js) ∧ js.length = css.length ∧
      List.Forall₂ (fun xs j => xs.mapM parseResponse = .ok j.elements) rss js := by
  have hgroup : ∀ group ∈ rss, ∃ j, (do
      let arr ← group.mapM parseResponse
      pure (Json.appended arr) : Except QueryError Json) = .ok j := by
    intro group hgroup
    obtain ⟨arr, harr⟩ := exists_mapM_ok_iff.2 fun x hx =>
      hparses x (List.mem_flatten.2 ⟨group, hgroup, hx⟩)
    rw [harr]
    exact ⟨_, rfl⟩
  obtain ⟨js, hjs⟩ := exists_mapM_ok_iff.2 hgroup
  have hall := mapM_ok_iff.1 hjs
  have hcount : js.length = css.length := by rw [hlen.length_eq, hall.length_eq]
  have hnonempty : js ≠ [] := by
    intro hnil
    rw [hnil] at hcount
    exact hcss (List.eq_nil_of_length_eq_zero hcount.symm)
  refine ⟨js, ?_, hcount, hall.imp fun xs j hj => ?_⟩
  · rw [h.answer_eq hlen, hjs]
    exact congrArg Except.ok (if_neg hnonempty)
  · obtain ⟨arr, harr, hj⟩ := bind_ok_inv hj
    cases hj
    rw [elements_appended, harr]

omit [Platform] in
/-- An answer to a committed transaction has no status. -/
theorem Expands.answer_no_status (h : Expands q css) (hlen : SameLengths css rss) {j : Json}
    (hj : q.answer ([first] :: (rss ++ [[last]])) = .ok j) : j.isMember "status" = false := by
  rw [h.answer_eq hlen] at hj
  obtain ⟨groups, -, hj⟩ := bind_ok_inv hj
  cases hj
  rw [Json.appended]
  split <;> rfl

omit [Platform] in
/-- The answer to a transaction that was rolled back. -/
theorem Expands.answer_rolledBack (h : Expands q css) (r : Response) :
    q.answer [[r]] =
      .ok (.object [("info", .string r.errorMsg), ("status", .int (-1))]) := by
  have hcurrent : q.close.currentGroupId = css.length + 1 := congrArg (· + 1) h.shape.1
  rw [answer]
  rw [if_pos (by rw [hcurrent, List.length_singleton]; omega)]

/-- A transaction that was committed has an answer to every command, group by group. -/
theorem Expands.exists_answers (h : Expands q css)
    (hcommit : Commits (q.request init) s u t) : ∃ first rss last,
      RespondsWith (q.request init).cmds ((q.request init).opens s)
        (first :: (rss.flatten ++ [last])) u ∧ SameLengths css rss := by
  obtain ⟨xs, hxs⟩ := answers_of_reaches hcommit.reaches
  have hlen := hxs.length_eq
  rw [h.request_cmds] at hlen
  obtain ⟨rss, hsame, rfl⟩ := exists_groups hlen
  obtain ⟨opening, rest, hopening, hrest, rfl⟩ := List.forall₂_cons_left_iff.1 hsame
  obtain ⟨middle, closing, hmiddle, hclosing, rfl⟩ : ∃ middle closing,
      SameLengths css middle ∧ SameLengths [[_]] closing ∧ rest = middle ++ closing :=
    ⟨_, _, (List.forall₂_take_append _ _ _ hrest.flip).flip,
      (List.forall₂_drop_append _ _ _ hrest.flip).flip, (List.take_append_drop _ _).symm⟩
  obtain ⟨last, _, hlast, hnil, rfl⟩ := List.forall₂_cons_left_iff.1 hclosing
  cases hnil
  obtain ⟨first, rfl⟩ := List.length_eq_one_iff.1 hopening.symm
  obtain ⟨last, rfl⟩ := List.length_eq_one_iff.1 hlast.symm
  refine ⟨first, middle, last, ?_, hmiddle⟩
  simpa using hxs

/-- What is asked of the responses to the commands of the request, as a condition on these
commands. -/
theorem Expands.each_iff (h : Expands q css)
    (hanswers : RespondsWith (q.request init).cmds ((q.request init).opens s)
      (first :: (rss.flatten ++ [last])) u) {Q : Response → Prop} :
    (∀ x ∈ rss.flatten, Q x) ↔ EachCommand (fun cmd u => ∀ v w,
      Runs (processQuery cmd) u (.ret v w) → cmd.cmdId.isTx = false → Q w.response)
        (q.request init).cmds ((q.request init).opens s) := by
  have hflat : css.flatten.length = rss.flatten.length := by
    have hall := hanswers.length_eq
    rw [h.request_cmds, groups] at hall
    simpa using hall
  have hzip : (q.request init).cmds.zip (first :: (rss.flatten ++ [last])) =
      ({ cmdId := .txBegin }, first) :: (css.flatten.zip rss.flatten ++
        [({ cmdId := .txCommit, cmdGrpId := q.currentGroupId + 1 }, last)]) := by
    rw [h.request_cmds, groups, List.flatten_cons, List.flatten_append, List.singleton_append,
      List.zip_cons_cons, List.zip_append hflat]
    rfl
  rw [← hanswers.forall_iff (Q := fun cmd x => cmd.cmdId.isTx = false → Q x), hzip]
  constructor
  · intro hall p hp htx
    rcases List.mem_cons.1 hp with rfl | hp
    · cases htx
    · rcases List.mem_append.1 hp with hp | hp
      · exact hall p.2 (List.of_mem_zip hp).2
      · obtain rfl := List.mem_singleton.1 hp
        cases htx
  · intro hall x hx
    obtain ⟨i, hi⟩ := List.mem_iff_getElem?.1 hx
    have hlt : i < css.flatten.length := by
      rw [hflat]
      exact (List.getElem?_eq_some_iff.1 hi).1
    have hmem : (css.flatten[i], x) ∈ css.flatten.zip rss.flatten :=
      List.mem_iff_getElem?.2 ⟨i, by simp [List.getElem?_zip_eq_some, hi]⟩
    obtain ⟨cmds, hcmds, hin⟩ := List.mem_flatten.1 (List.getElem_mem hlt)
    obtain ⟨k, hk⟩ := List.mem_iff_getElem?.1 hcmds
    exact hall _ (List.mem_cons_of_mem _ (List.mem_append_left _ hmem))
      (h.shape.2.2 k cmds hk _ hin).2

/-- **Response routing.** The responses are routed exactly if a command that fails stops the
transaction, or there is a command at all, no failure goes unnoticed, and every response
has a JSON form. -/
theorem responses_routed_iff (h : Expands q css) (hrun : Runs (q.run init) s (.ret rs t)) :
    RoutesResponses q css init s rs ↔ Stops (q.request init) s ∨
      css ≠ [] ∧ EachCommand (fun cmd u => ¬ FailsUnnoticed cmd u ∧ Printable cmd u)
        (q.request init).cmds ((q.request init).opens s) := by
  rcases process_outcome (h.isTransaction init) hrun with ⟨u, hcommit⟩ | ⟨w, hback⟩
  · obtain ⟨first, rss, last, hanswers, hlen⟩ := h.exists_answers hcommit
    obtain rfl := h.responses hrun hanswers hlen
    have hstops : ¬ Stops (q.request init) s := by
      rintro ⟨cmd, rest, u', v, w, hreach, hfail, hv⟩
      have hsucc := hcommit.succeeds hreach hfail
      omega
    constructor
    · intro hroutes
      right
      have hfine : ¬ SomeFails (q.request init) s := by
        intro hfails
        obtain ⟨j, hj, -, hstatus⟩ := hroutes.failure hfails
        rw [h.answer_no_status hlen hj] at hstatus
        cases hstatus
      have hall : ∀ x ∈ rss.flatten, x.errorCode.Fine := by
        rw [h.each_iff hanswers]
        intro cmd rest u' hreach v w hcmd _
        by_contra hcode
        exact hfine ⟨cmd, rest, u', v, w, hreach, hcmd, .inr hcode⟩
      obtain ⟨js, hjs, hcount, hparsed⟩ := hroutes.success hanswers hlen hall
      have hparses : ∀ x ∈ rss.flatten, x.Parses := by
        intro x hx
        obtain ⟨xs, hxs, hin⟩ := List.mem_flatten.1 hx
        have hgroups := mapM_ok_iff.2 (List.forall₂_map_right_iff.2 hparsed)
        exact exists_mapM_ok_iff.1 (exists_mapM_ok_iff.1 ⟨_, hgroups⟩ xs hxs) x hin
      refine ⟨?_, fun cmd rest u' hreach => ⟨fun hunnoticed => ?_, ?_⟩⟩
      · rintro rfl
        cases hlen
        cases (h.answer_eq .nil).symm.trans hjs
      · obtain ⟨v, w, hcmd, hcode⟩ := hunnoticed.answers
        exact hfine ⟨cmd, rest, u', v, w, hreach, hcmd, .inr hcode⟩
      · exact (h.each_iff hanswers).1 hparses cmd rest u' hreach
    · rintro (hstop | ⟨hcss, heach⟩)
      · exact absurd hstop hstops
      · have hparses : ∀ x ∈ rss.flatten, x.Parses :=
          (h.each_iff hanswers).2 (heach.mono fun _ _ hcmd => hcmd.2)
        refine ⟨fun hanswers' hlen' _ => ?_, ?_⟩
        · have hsame := h.responses hrun hanswers' hlen'
          injection hsame with _ hsame
          obtain rfl := List.append_inj_left' hsame rfl
          exact h.answer_array hlen hcss hparses
        · rintro ⟨cmd, rest, u', v, w, hreach, hcmd, hv | hcode⟩
          · exact absurd (hcommit.succeeds hreach hcmd) (by omega)
          · have hv := hcommit.succeeds hreach hcmd
            exact absurd (processQuery_code hcmd hv (heach cmd rest u' hreach).1) hcode
  · obtain ⟨cmd, rest, u, v, hreach, hfail, hv⟩ := hback.fails
    have hstops : Stops (q.request init) s := ⟨cmd, rest, u, v, w, hreach, hfail, hv⟩
    refine ⟨fun _ => .inl hstops, fun _ => ⟨fun hanswers hlen _ => ?_, fun _ => ?_⟩⟩
    · have hsame := h.responses hrun hanswers hlen
      rw [hback.responses] at hsame
      simp at hsame
    · rw [hback.responses]
      exact ⟨_, h.answer_rolledBack _, rfl, rfl⟩

end PMGDQuery

end

/-- A request of one command, which issues one command of the handler. -/
def oneCommand (cmd : Command) : PMGDQuery where
  cmds := [{ cmdId := .txBegin }, { cmd with cmdGrpId := 1 }]
  currentGroupId := 1
  currentRef := referenceRangeStart
  readonly := false
  resultdeletion := false
  expirationLimit := 0
  now := 0

/-- An addition of a node without properties. -/
def addPlain : Command where
  cmdId := .addNode
  addNode := { identifier := -1, node := { tag := "A" } }

/-- An update of the nodes of a reference that there is not. -/
def updateMissing : Command where
  cmdId := .updateNode
  updateNode := { identifier := 5 }

theorem oneCommand_expands {cmd : Command} (h : (oneCommand cmd).cmds =
    (PMGDQuery.new 0 0).cmds ++ [{ cmd with cmdGrpId := 1 }]) (htx : cmd.cmdId.isTx = false)
    (hlists : cmd.ListsOnlyAsQuery) :
    (oneCommand cmd).Expands [[{ cmd with cmdGrpId := 1 }]] := by
  have hpush : (PMGDQuery.new 0 0).addGroup.Pushes { cmd with cmdGrpId := 1 }
      (oneCommand cmd) := ⟨h, rfl, rfl, htx, ⟨hlists.1, hlists.2, hlists.3⟩⟩
  exact .command (.new 0 0) (.push hpush .done)

/-- An addition is answered as it should be. -/
theorem responses_routed_addition : ∃ rs t,
    Runs (oneCommand addPlain).run { db := ⟨[], []⟩ } (.ret rs t) ∧
      RoutesResponses (oneCommand addPlain) [[{ addPlain with cmdGrpId := 1 }]] false
        { db := ⟨[], []⟩ } rs := by
  obtain ⟨rs, t, hrun⟩ : ∃ rs t,
      Runs (oneCommand addPlain).run { db := ⟨[], []⟩ } (.ret rs t) :=
    ⟨_, _, Runs.of_ret (n := 2) rfl⟩
  have hexpands : (oneCommand addPlain).Expands [[{ addPlain with cmdGrpId := 1 }]] :=
    oneCommand_expands rfl rfl (PMGDQuery.lists_plain rfl rfl rfl)
  refine ⟨rs, t, hrun, (PMGDQuery.responses_routed_iff hexpands hrun).2 (.inr ⟨by simp, ?_⟩)⟩
  obtain ⟨v, u, hopen, v', w, hadd, hparses⟩ : ∃ v u, Runs (processQuery { cmdId := .txBegin })
      (((oneCommand addPlain).request false).opens { db := ⟨[], []⟩ }) (.ret v u) ∧
        ∃ v' w, Runs (processQuery { addPlain with cmdGrpId := 1 }) u.advance (.ret v' w) ∧
          w.response.Parses :=
    ⟨_, _, Runs.of_ret (n := 1) rfl, _, _, Runs.of_ret (n := 1) rfl, _, rfl⟩
  refine eachCommand_cons_of_runs hopen ⟨id, fun _ _ _ htx => by cases htx⟩ ?_
  refine eachCommand_cons_of_runs hadd ⟨id, printable_of_runs hadd hparses⟩ ?_
  exact eachCommand_of_forall fun cmd hcmd u => by
    obtain rfl := List.mem_singleton.1 hcmd
    exact ⟨id, fun _ _ _ htx => by cases htx⟩

/-- **A failed update is answered with an array.** The update names a reference that there
is not, and reports an error; `run` returns the array of a success. -/
theorem failed_update_answers :
    (PMGDQuery.new 0 0).addGroup.updateNode 5 "A" .null .null .null false =
      .ok (oneCommand updateMissing) ∧
    ∃ rs t, Runs (oneCommand updateMissing).run { db := ⟨[], []⟩ } (.ret rs t) ∧
      (∃ r ∈ rs.flatten, r.errorCode = .error) ∧
      (∃ js, (oneCommand updateMissing).answer rs = .ok (.array js)) ∧
      ¬ RoutesResponses (oneCommand updateMissing) [[{ updateMissing with cmdGrpId := 1 }]] false
        { db := ⟨[], []⟩ } rs := by
  refine ⟨rfl, ?_⟩
  obtain ⟨rs, t, hrun, hcode, hanswer⟩ : ∃ rs t,
      Runs (oneCommand updateMissing).run { db := ⟨[], []⟩ } (.ret rs t) ∧
        (rs.flatten.map Response.errorCode)[1]? = some .error ∧
        ∃ js, (oneCommand updateMissing).answer rs = .ok (.array js) :=
    ⟨_, _, Runs.of_ret (n := 2) rfl, rfl, _, rfl⟩
  obtain ⟨r, hr, herror⟩ := List.mem_map.1 (List.mem_of_getElem? hcode)
  refine ⟨rs, t, hrun, ⟨r, hr, herror⟩, hanswer, fun hroutes => ?_⟩
  obtain ⟨v, u, hopen, hv, v', w, hupdate, hw⟩ : ∃ v u,
      Runs (processQuery { cmdId := .txBegin })
        (((oneCommand updateMissing).request false).opens { db := ⟨[], []⟩ }) (.ret v u) ∧
      0 ≤ v ∧ ∃ v' w, Runs (processQuery { updateMissing with cmdGrpId := 1 }) u.advance
        (.ret v' w) ∧ w.response.errorCode = .error :=
    ⟨_, _, Runs.of_ret (n := 1) rfl, le_rfl, _, _, Runs.of_ret (n := 1) rfl, rfl⟩
  have hfails : SomeFails ((oneCommand updateMissing).request false) { db := ⟨[], []⟩ } :=
    ⟨_, _, u.advance, v', w, .single (.intro hopen hv), hupdate, .inr (hw ▸ error_not_fine)⟩
  obtain ⟨j, hj, hj', -⟩ := hroutes.failure hfails
  obtain ⟨js, hjs⟩ := hanswer
  rw [hjs] at hj
  cases hj
  cases hj'

end Vdms
