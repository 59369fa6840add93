import Vdms.JsonObjects
import Vdms.MediaResponses

/-!
# The Status of a Command

`RSCommand::check_responses` makes one response of those that a command got from the graph. Its
status is that of a success if every response is one; else it is the first response as it is,
which need not be one that failed.

## Main results

* `status_right_iff`: the responses of which the right status is reported.
* `first_success_hides`: a failure behind a success is not reported.
-/

namespace Vdms

/-- `PMGDCmdResponse::ErrorCode`, as far as `check_responses` looks at it. -/
def IsSuccess (status : ℤ) : Prop := status = 0 ∨ status = 2

instance (status : ℤ) : Decidable (IsSuccess status) := inferInstanceAs (Decidable (_ ∨ _))

/-- A response of the graph: an object with a status, which is one of the codes or another number.
-/
structure StatusResponse where
  json : Json
  status : ℤ
  isObject : json.isObject = true
  get_status : json.get "status" = .ok (.int status)

namespace StatusResponse

/-- Success is reported exactly if every response is one. Else the report is a response that
failed. -/
def RightStatus (responses : List StatusResponse) : Prop :=
  ∃ ret status, checkResponses (responses.map json) = .ok ret ∧
    ret.get "status" = .ok (.int status) ∧
    (status = 0 ↔ ∀ r ∈ responses, IsSuccess r.status) ∧
    (status ≠ 0 → ∃ r ∈ responses, ¬ IsSuccess r.status ∧ ret = r.json)

/-- The flag of the loop over the responses. -/
theorem all_success {p : Json → Bool} (hp : ∀ z, p (.int z) = decide (IsSuccess z))
    (responses : List StatusResponse) :
    (responses.map fun r => Json.int r.status).all p = true ↔
      ∀ r ∈ responses, IsSuccess r.status := by
  rw [List.all_map, List.all_eq_true]
  simp only [Function.comp_apply, hp, decide_eq_true_eq]

theorem statuses_ok (responses : List StatusResponse) :
    (responses.map json).mapM (Json.get · "status") =
      .ok (responses.map fun r => Json.int r.status) := by
  rw [mapM_ok_iff, List.forall₂_map_left_iff, List.forall₂_map_right_iff, List.forall₂_same]
  exact fun r _ => r.get_status

theorem setMember_status (r : StatusResponse) (v : Json) :
    ∃ ret, r.json.setMember "status" v = .ok ret ∧ ret.get "status" = .ok v := by
  obtain ⟨json, status, isObject, -⟩ := r
  cases json with
  | object ms => exact ⟨_, rfl, Json.setMember_get_self (j := .object ms) rfl⟩
  | _ => cases isObject

/-- What is reported: a success with the other members of the first response, or the first
response. -/
theorem checkResponses_cons (first : StatusResponse) (rest : List StatusResponse) :
    checkResponses ((first :: rest).map json) =
      if ∀ r ∈ first :: rest, IsSuccess r.status then first.json.setMember "status" (.int 0)
      else .ok first.json := by
  have hstatuses := statuses_ok (first :: rest)
  rw [List.map_cons] at hstatuses ⊢
  rw [checkResponses, hstatuses]
  exact if_congr (all_success (fun _ => rfl) (first :: rest)) rfl rfl

/-- **The status of a command** is right exactly if there is a response, and either all of them are
successes or the first one failed. -/
theorem status_right_iff (responses : List StatusResponse) :
    RightStatus responses ↔ ∃ first rest, responses = first :: rest ∧
      ((∀ r ∈ responses, IsSuccess r.status) ∨ ¬ IsSuccess first.status) := by
  cases responses with
  | nil =>
      refine iff_of_false ?_ ?_
      · rintro ⟨ret, status, hret, hstatus, hsuccess, -⟩
        cases hret
        cases hstatus
        exact absurd (hsuccess.2 fun _ h => by cases h) (by decide)
      · rintro ⟨first, rest, h, -⟩
        cases h
  | cons first rest =>
      have hcheck := checkResponses_cons first rest
      constructor
      · rintro ⟨ret, status, hret, hstatus, hsuccess, hfailed⟩
        refine ⟨first, rest, rfl, ?_⟩
        by_cases hall : ∀ r ∈ first :: rest, IsSuccess r.status
        · exact .inl hall
        · rw [hcheck, if_neg hall] at hret
          cases hret
          rw [first.get_status] at hstatus
          cases hstatus
          -- The report is the first response, and a response that failed.
          obtain ⟨r, -, hr, hjson⟩ := hfailed fun hzero => hall (hsuccess.1 hzero)
          have hsame : first.status = r.status := by
            have hget := first.get_status
            rw [hjson, r.get_status] at hget
            exact (Json.int.inj (Except.ok.inj hget)).symm
          exact .inr (hsame ▸ hr)
      · rintro ⟨first', rest', heq, hright⟩
        cases heq
        by_cases hall : ∀ r ∈ first :: rest, IsSuccess r.status
        · obtain ⟨ret, hset, hget⟩ := first.setMember_status (.int 0)
          rw [if_pos hall, hset] at hcheck
          exact ⟨ret, 0, hcheck, hget, iff_of_true rfl hall, fun h => absurd rfl h⟩
        · have hfirst : ¬ IsSuccess first.status := hright.resolve_left hall
          rw [if_neg hall] at hcheck
          have hne : first.status ≠ 0 := fun hzero => hfirst (.inl hzero)
          exact ⟨first.json, first.status, hcheck, first.get_status, iff_of_false hne hall,
            fun _ => ⟨first, List.mem_cons_self, hfirst, rfl⟩⟩

/-- A response with this status. -/
def ofStatus (status : ℤ) : StatusResponse where
  json := .object [("status", .int status)]
  status := status
  isObject := rfl
  get_status := rfl

/-- The first command succeeded, the second one failed: a success is reported. -/
theorem first_success_hides : ¬ RightStatus [ofStatus 0, ofStatus (-1)] := by
  rintro ⟨ret, status, hret, hstatus, hsuccess, -⟩
  cases hret
  cases hstatus
  exact absurd (hsuccess.1 rfl (ofStatus (-1)) (by simp)) (by decide)

end StatusResponse

end Vdms
