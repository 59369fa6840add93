import Vdms.PMGDQuery

/-!
# What the Builder Adds

Each method of `PMGDQuery` adds one command to the transaction. The lemmas of this module
read off a successful call what the command is.
-/

namespace Vdms

open Platform

/-- A translation succeeds only if its first step does. -/
theorem bind_ok_inv {ε α β : Type} {x : Except ε α} {f : α → Except ε β} {b : β}
    (h : x >>= f = .ok b) : ∃ a, x = .ok a ∧ f a = .ok b := by
  cases x with
  | error e => cases h
  | ok a => exact ⟨a, rfl, h⟩

theorem mapError_eq {ε ε' α : Type} {f : ε → ε'} {x : Except ε α} {a : α}
    (h : x.mapError f = .ok a) : x = .ok a := by
  cases x with
  | ok b =>
      cases h
      rfl
  | error e => cases h

/-- A list on which a function succeeds throughout. Induction on the list. -/
theorem mapM_ok_iff {ε α β : Type} {f : α → Except ε β} {xs : List α} {ys : List β} :
    xs.mapM f = .ok ys ↔ List.Forall₂ (fun x y => f x = .ok y) xs ys := by
  induction xs generalizing ys with
  | nil =>
      constructor
      · rintro ⟨⟩
        exact .nil
      · rintro ⟨⟩
        rfl
  | cons x xs ih =>
      rw [List.mapM_cons]
      constructor
      · intro h
        obtain ⟨y, hy, h⟩ := bind_ok_inv h
        obtain ⟨ys, hys, h⟩ := bind_ok_inv h
        cases h
        exact .cons hy (ih.1 hys)
      · intro h
        cases h with
        | cons hy hys =>
            rw [hy, ih.2 hys]
            rfl

theorem exists_mapM_ok_iff {ε α β : Type} {f : α → Except ε β} {xs : List α} :
    (∃ ys, xs.mapM f = .ok ys) ↔ ∀ x ∈ xs, ∃ y, f x = .ok y := by
  simp only [mapM_ok_iff]
  induction xs with
  | nil => exact ⟨fun _ x hx => (by cases hx), fun _ => ⟨[], .nil⟩⟩
  | cons x xs ih =>
      rw [List.forall_mem_cons, ← ih]
      constructor
      · rintro ⟨_ | ⟨y, ys⟩, h⟩
        · cases h
        · obtain ⟨hy, hys⟩ := List.forall₂_cons.1 h
          exact ⟨⟨y, hy⟩, ys, hys⟩
      · rintro ⟨⟨y, hy⟩, ys, hys⟩
        exact ⟨y :: ys, .cons hy hys⟩

namespace PMGDQuery

variable [Platform] {q q' : PMGDQuery} {cmd : Command}

omit [Platform] in
/-- The last command of a transaction is the one that was pushed. -/
theorem push_inv {cmd' : Command} (h : (q.push cmd').cmds = q.cmds ++ [cmd]) :
    cmd = { cmd' with cmdGrpId := q.currentGroupId } := by
  simpa [push] using h.symm

omit [Platform] in
/-- A query that an update carries has an identifier. -/
theorem queryReference_nonneg {ref : ℤ} {constraints : Json}
    (hconstraints : constraints.isNull = false) : 0 ≤ (q.queryReference ref constraints).1 := by
  rw [queryReference]
  by_cases href : 0 ≤ ref
  · simp [href]
  · simp [hconstraints, href]

omit [Platform] in
theorem queryReference_cmds {ref : ℤ} {constraints : Json} :
    (q.queryReference ref constraints).2.cmds = q.cmds := by
  rw [queryReference]
  split <;> rfl

/-- An update of edges with constraints carries a query that is to be cached and has the
result type `EdgeID`. -/
theorem updateEdge_inv {ref srcRef destRef : ℤ} {tag : String}
    {props removeProps constraints : Json} {unique : Bool}
    (h : q.updateEdge ref srcRef destRef tag props removeProps constraints unique = .ok q')
    (hconstraints : constraints.isNull = false) (hcmd : q'.cmds = q.cmds ++ [cmd]) :
    cmd.cmdId = .updateEdge ∧ cmd.updateEdge.identifier = ref ∧
      ∃ qe, cmd.updateEdge.queryEdge = some qe ∧ 0 ≤ qe.identifier ∧
        qe.results.rType = .edgeID ∧ qe.srcNodeId = srcRef ∧ qe.destNodeId = destRef := by
  obtain ⟨properties, -, h⟩ := bind_ok_inv h
  obtain ⟨removed, -, h⟩ := bind_ok_inv h
  simp only [hconstraints, Bool.false_eq_true, if_false] at h
  obtain ⟨p, -, h⟩ := bind_ok_inv h
  injection h with h
  have hsame : (q.queryReference ref constraints).2.cmds = q.cmds := queryReference_cmds
  rw [← h, ← hsame] at hcmd
  rw [push_inv hcmd]
  exact ⟨rfl, rfl, _, rfl, queryReference_nonneg hconstraints, rfl, rfl, rfl⟩

/-- An addition with constraints carries a unique query under the reference of the
addition itself, with the result type `NodeID`. -/
theorem addNode_inv {ref : ℤ} {tag : String} {props constraints : Json}
    (h : q.addNode ref tag props constraints = .ok q')
    (hconstraints : constraints.isNull = false) (hcmd : q'.cmds = q.cmds ++ [cmd]) :
    cmd.cmdId = .addNode ∧ cmd.addNode.identifier = ref ∧
      ∃ qn, cmd.addNode.queryNode = some qn ∧ qn.identifier = ref ∧ qn.link = none ∧
        qn.constraints.unique = true ∧ qn.results = { rType := .nodeID } := by
  obtain ⟨properties, -, h⟩ := bind_ok_inv h
  simp only [hconstraints, Bool.false_eq_true, if_false] at h
  split at h
  all_goals
    obtain ⟨extra, -, h⟩ := bind_ok_inv h
    obtain ⟨p, -, h⟩ := bind_ok_inv h
    injection h with h
    rw [← h] at hcmd
    rw [push_inv hcmd]
    exact ⟨rfl, rfl, _, rfl, rfl, rfl, rfl, rfl⟩

end PMGDQuery

end Vdms
