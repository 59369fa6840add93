import Vdms.Atomicity

/-!
# How a Transaction Ends

A transaction that is opened first and committed last ends in one of two ways. Either all
its commands succeed, and the handler keeps the graph that they leave. Or one of them fails,
and the handler goes back to the graph that the transaction was opened on; whatever else of
the handler the commands have changed stays as it is.

## Main results

* `Progress.Reaches.cmds_eq`: the position counts the commands that have been run.
* `IsTransaction.tx_of_reaches`: whether the transaction is open, from its first command to
  its last.
* `process_outcome`: the two ways.
* `Commits.invariant`: what a committed transaction keeps.
-/

namespace Vdms

open Imp Imp.Prog Platform Relation

variable [Platform] {s t u : Handler} {cmd : Command} {cmds cmds' : List Command}

/-! ### Positions -/

/-- No command moves the position. -/
theorem processQuery_position {v : ℤ} (h : Runs (processQuery cmd) s (.ret v t)) :
    t.position = s.position := by
  have hdispatch : Sat (dispatch cmd) (s.begin cmd) (fun _ t => t.position = s.position)
      fun _ t => t.position = s.position := by
    by_cases htx : cmd.cmdId.isTx = true
    · refine Sat.mono (dispatch_tx htx) ?_ ?_
      · rintro _ t ⟨tx, r, rfl⟩
        rfl
      · rintro _ t ⟨tx, r, rfl⟩
        rfl
    · have hfoot := dispatch_footprint (s := s) (Bool.eq_false_iff.2 htx)
      exact Sat.mono hfoot (fun _ _ h => h.position_eq) fun _ _ h => h.position_eq
  exact (processQuery_sat (Q := fun _ t => t.position = s.position) hdispatch
    fun _ _ h => h).ret h

/-- The commands left are those from the position on. -/
theorem Progress.Reaches.cmds_eq (h : Progress.Reaches ⟨cmds, s⟩ ⟨cmds', u⟩) :
    s.position ≤ u.position ∧ cmds' = cmds.drop (u.position - s.position) := by
  have key : ∀ p, Progress.Reaches ⟨cmds, s⟩ p → s.position ≤ p.handler.position ∧
      p.cmds = cmds.drop (p.handler.position - s.position) := by
    intro p hp
    induction hp with
    | refl => simp
    | tail _ hlast ih =>
        cases hlast with
        | @intro cmd rest v t w hrun hw =>
            obtain ⟨hle, hdrop⟩ := ih
            have hpos : t.advance.position = v.position + 1 := by
              rw [← processQuery_position hrun]
              rfl
            simp only at hle hdrop ⊢
            rw [hpos]
            refine ⟨by omega, ?_⟩
            rw [show v.position + 1 - s.position = v.position - s.position + 1 by omega,
              ← List.drop_drop, ← hdrop]
            rfl
  exact key _ h

/-! ### The open transaction -/

/-- A commit that succeeds. -/
theorem processQuery_commit_ret {v : ℤ} (hcmd : cmd.cmdId = .txCommit) (hv : 0 ≤ v)
    (h : Runs (processQuery cmd) s (.ret v t)) :
    ∃ tx r, s.tx = some tx ∧ t = { s with tx := some { tx with committed := true },
                                          response := r } := by
  rcases processQuery_inv h with h | ⟨rfl, -⟩
  · rw [dispatch] at h
    rw [hcmd] at h
    have h := Runs.get_bind_inv h
    cases htx : s.tx with
    | none =>
        have hbegin : (s.begin cmd).tx = none := htx
        rw [hbegin] at h
        exact absurd h (Diverges.not_runs fun _ => rfl)
    | some tx =>
        have hbegin : (s.begin cmd).tx = some tx := htx
        rw [hbegin] at h
        obtain ⟨_, w, hcall, h⟩ := Runs.bind_inv h
        obtain rfl := (FootprintAt.does (call_readOnly _ _) hcall).eq
        have h := Runs.modify_bind_inv (Runs.modify_bind_inv h)
        obtain ⟨-, rfl⟩ := Runs.pure_inv h
        exact ⟨tx, _, rfl, rfl⟩
  · omega

/-- How far a transaction over the graph of `s` has come: not opened yet, open, with some
commands and the commit left, or committed. -/
inductive Stage (cmds : List Command) (s : Handler) : Progress → Prop
  | start : Stage cmds s ⟨cmds, s⟩
  | opened {body : List Command} {last : Command} {u : Handler} {readonly : Bool} :
      (∀ cmd ∈ body, cmd.cmdId.isTx = false) → last.cmdId = .txCommit →
      u.tx = some ⟨s.db, readonly, false⟩ → Stage cmds s ⟨body ++ [last], u⟩
  | committed {u : Handler} {readonly : Bool} : u.tx = some ⟨s.db, readonly, true⟩ →
      Stage cmds s ⟨[], u⟩

theorem IsTransaction.stage (hcmds : IsTransaction cmds) {p : Progress}
    (h : Progress.Reaches ⟨cmds, s⟩ p) : Stage cmds s p := by
  induction h with
  | refl => exact .start
  | tail _ hlast ih =>
      cases hlast with
      | @intro cmd rest v t w hrun hw =>
          generalize hp : (⟨cmd :: rest, v⟩ : Progress) = p at ih
          cases ih with
          | start =>
              obtain ⟨first, body, last, rfl, hfirst, hbody, hlast⟩ := hcmds
              injection hp with hp hv
              injection hp with hhead htail
              subst hhead htail hv
              obtain ⟨-, -, hsucc⟩ := processQuery_begin hfirst hrun
              obtain ⟨-, readonly, htx⟩ := hsucc hw
              exact .opened hbody hlast htx
          | @opened body last u readonly hbody hlast htx =>
              injection hp with hp hv
              subst hv
              cases body with
              | nil =>
                  injection hp with hhead htail
                  subst hhead htail
                  obtain ⟨tx, r, htx', rfl⟩ := processQuery_commit_ret hlast hw hrun
                  obtain rfl := Option.some.inj (htx.symm.trans htx')
                  exact .committed rfl
              | cons c body =>
                  injection hp with hhead htail
                  subst hhead htail
                  have hsame := processQuery_tx_eq (hbody cmd (List.mem_cons_self ..)) hrun
                  exact .opened (fun c hc => hbody c (List.mem_cons_of_mem _ hc)) hlast
                    (hsame.trans htx)
          | committed _ => cases hp

/-- A command that fails leaves the transaction uncommitted. -/
theorem Stage.uncommitted {rest : List Command} {v : ℤ} (h : Stage cmds s ⟨cmd :: rest, u⟩)
    (hcmds : IsTransaction cmds) (htx : s.tx = none)
    (hrun : Runs (processQuery cmd) u (.ret v t)) (hv : v < 0) :
    (t.tx = none → t.db = s.db) ∧
      ∀ tx, t.tx = some tx → tx.committed = false ∧ tx.snapshot = s.db := by
  have hopen : ∀ readonly, t.tx = some ⟨s.db, readonly, false⟩ → (t.tx = none → t.db = s.db) ∧
      ∀ tx, t.tx = some tx → tx.committed = false ∧ tx.snapshot = s.db := by
    intro readonly hsome
    rw [hsome]
    refine ⟨fun hnone => (by cases hnone), fun tx hsame => ?_⟩
    injection hsame with hsame
    subst hsame
    exact ⟨rfl, rfl⟩
  generalize hp : (⟨cmd :: rest, u⟩ : Progress) = p at h
  cases h with
  | start =>
      obtain ⟨first, body, last, rfl, hfirst, -⟩ := hcmds
      injection hp with hp hu
      injection hp with hhead _
      subst hhead hu
      obtain ⟨hdb, hsame, -⟩ := processQuery_begin hfirst hrun
      refine ⟨fun _ => hdb, fun tx hsome => ?_⟩
      rw [hsame hv, htx] at hsome
      cases hsome
  | @opened body last _ readonly hbody hlast hu =>
      injection hp with hp hsame
      subst hsame
      cases body with
      | nil =>
          injection hp with hhead _
          subst hhead
          exact hopen readonly ((processQuery_commit hlast hv hrun).trans hu)
      | cons c body =>
          injection hp with hhead _
          subst hhead
          have hsame := processQuery_tx_eq (hbody cmd (List.mem_cons_self ..)) hrun
          exact hopen readonly (hsame.trans hu)
  | committed _ => cases hp

/-! ### Outcomes -/

/-- The loop ends after its last command, or with the first that fails. Induction on the
commands. -/
theorem processCommands_outcome {rs rs' : Responses}
    (h : Runs (processCommands rs cmds) s (.ret rs' t)) :
    Progress.Reaches ⟨cmds, s⟩ ⟨[], t⟩ ∨ ∃ cmd rest u v w,
      Progress.Reaches ⟨cmds, s⟩ ⟨cmd :: rest, u⟩ ∧ Runs (processQuery cmd) u (.ret v w) ∧
        v < 0 ∧ rs' = [[{ w.response with cmdGrpId := 0 }]] ∧ t = { w with listed := [] } := by
  induction cmds generalizing rs s with
  | nil =>
      obtain ⟨-, rfl⟩ := processCommands_nil_inv h
      exact .inl .refl
  | cons cmd cmds ih =>
      obtain ⟨v, w, hquery, ⟨hv, hrs, ht⟩ | ⟨hv, -, hrest⟩⟩ := processCommands_cons_inv h
      · exact .inr ⟨cmd, cmds, s, v, w, .refl, hquery, hv, hrs, ht⟩
      · have hstep : Progress.Step ⟨cmd :: cmds, s⟩ ⟨cmds, w.advance⟩ := .intro hquery hv
        rcases ih hrest with hreach | ⟨cmd', rest, u, v', w', hreach, hfail⟩
        · exact .inl (.head hstep hreach)
        · exact .inr ⟨cmd', rest, u, v', w', .head hstep hreach, hfail⟩

/-- The transaction was committed: every command succeeded, up to the state `u`. -/
structure Commits (r : Request) (s u t : Handler) : Prop where
  reaches : Progress.Reaches ⟨r.cmds, r.opens s⟩ ⟨[], u⟩
  ends : t = u.closed
  db : t.db = u.db

/-- The transaction was rolled back: a command failed in the state `u`, and left the handler
in the state `w`. -/
structure RollsBack (r : Request) (s w t : Handler) (rs : Responses) : Prop where
  fails : ∃ cmd rest u v, Progress.Reaches ⟨r.cmds, r.opens s⟩ ⟨cmd :: rest, u⟩ ∧
    Runs (processQuery cmd) u (.ret v w) ∧ v < 0
  responses : rs = [[{ w.response with cmdGrpId := 0 }]]
  ends : t = ({ w with listed := [] } : Handler).closed
  db : t.db = s.db

/-- In a transaction that was committed no command fails. -/
theorem Commits.succeeds {r : Request} {rest : List Command} {v : ℤ} {u' w : Handler}
    (h : Commits r s u t) (hreach : Progress.Reaches ⟨r.cmds, r.opens s⟩ ⟨cmd :: rest, u'⟩)
    (hrun : Runs (processQuery cmd) u' (.ret v w)) : 0 ≤ v := by
  have hunique : Relator.RightUnique Progress.Step := by
    rintro p q q' ⟨hrun, -⟩ hstep
    cases hstep with
    | intro hrun' _ =>
        injection Runs.unique hrun hrun' with _ hsame
        rw [hsame]
  rcases ReflTransGen.total_of_right_unique hunique h.reaches hreach with hlate | hearly
  · rcases ReflTransGen.cases_head hlate with heq | ⟨p, hstep, -⟩
    · cases heq
    · cases hstep
  · rcases ReflTransGen.cases_head hearly with heq | ⟨p, hstep, -⟩
    · cases heq
    · cases hstep with
      | intro hrun' hn =>
          injection Runs.unique hrun' hrun with hsame
          omega

/-- A transaction takes one way only. -/
theorem Commits.not_rollsBack {r : Request} {w : Handler} {rs : Responses}
    (h : Commits r s u t) : ¬ RollsBack r s w t rs := by
  rintro ⟨⟨cmd, rest, u', v, hreach, hfail, hv⟩, -⟩
  have hsucc := h.succeeds hreach hfail
  omega

/-- **Invariants of a committed transaction.** The property looks neither at the transaction
nor at the response, and every command that meets the condition keeps it if it succeeds. -/
theorem Commits.invariant {I : Handler → Prop} {P : Command → Handler → Prop} {r : Request}
    (h : Commits r s u t)
    (hcontrol : ∀ v tx resp p, I v → I { v with tx := tx, response := resp, position := p })
    (hdispatch : ∀ cmd v, cmd.cmdId.isTx = false → P cmd v → I v →
      Ensures (dispatch cmd) (v.begin cmd) fun _ w => I w)
    (hP : EachCommand P r.cmds (r.opens s)) (hI : I (r.opens s)) : I u := by
  refine Progress.Reaches.invariant (fun {cmd v n w} hv hcmd hquery hn => ?_) hP hI h.reaches
  have hw : I w := by
    rcases processQuery_inv hquery with hrun | ⟨rfl, -⟩
    · by_cases htx : cmd.cmdId.isTx = true
      · obtain ⟨tx, resp, rfl⟩ := Sat.ret (dispatch_tx htx) hrun
        exact hcontrol v tx resp v.position hv
      · have hw := Sat.ret (hdispatch cmd v (Bool.eq_false_iff.2 htx) hcmd hv) hrun
        exact hw
    · omega
  exact hcontrol w w.tx w.response (w.position + 1) hw

/-- **How a transaction ends.** -/
theorem process_outcome {r : Request} {rs : Responses} (hr : IsTransaction r.cmds)
    (h : Runs r.process s (.ret rs t)) :
    (∃ u, Commits r s u t) ∨ ∃ w, RollsBack r s w t rs := by
  obtain ⟨htx, u, rfl, hrun⟩ := processQueries_inv h
  rcases processCommands_outcome hrun with hreach | ⟨cmd, rest, u', v, w, hreach, hquery, hv, hrs,
    rfl⟩
  · left
    refine ⟨u, hreach, rfl, ?_⟩
    have hstage := hr.stage hreach
    generalize hp : (⟨[], u⟩ : Progress) = p at hstage
    cases hstage with
    | start =>
        obtain ⟨first, body, last, hcmds, -⟩ := hr
        injection hp with hp _
        rw [hcmds] at hp
        cases hp
    | opened _ _ _ => simp at hp
    | committed htx =>
        injection hp with _ hp
        subst hp
        rw [Handler.closed, Handler.endTransaction]
        simp only [htx]
        rfl
  · right
    refine ⟨w, ⟨cmd, rest, u', v, hreach, hquery, hv⟩, hrs, rfl, ?_⟩
    have hopen : (r.opens s).tx = none := htx
    obtain ⟨hnone, hsome⟩ := (hr.stage hreach).uncommitted hr hopen hquery hv
    exact Handler.closed_db hnone hsome

end Vdms
