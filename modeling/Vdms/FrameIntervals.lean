import Mathlib.Algebra.Ring.Divisibility.Basic
import Mathlib.Tactic.Ring
import Vdms.Constraints
import Vdms.FindCommands
import Vdms.TableScan
import Vdms.VideoPipeline

/-!
# Intervals of Frames

`FindFrames` expands an interval to the numbers of its frames, from `start` on, up to and
without `stop`. The schema asks for a start and a stop, but not for a step, and for no upper
bound: the step of an interval without one is 0, and a sum outside of `int` is undefined.
`FindVideo` has an operation for the same interval, which counts the frames from 1 on.

## Main results

* `FindFrames.expands_iff`: the intervals that are expanded as documented.
* `intervals_agree_iff`: the intervals for which both commands give the same frames.
-/

namespace Vdms

open Imp Imp.Prog VCL

section

variable [Platform]

namespace FindFrames

/-- The loop of `get_interval_index`. -/
def intervalFrom : List Json → ℕ → Except QueryError (Option ℕ)
  | [], _ => pure none
  | op :: ops, i => do
      if ← isInterval op then pure (some i) else intervalFrom ops (i + 1)

/-- `get_interval_index`, with the index. -/
def intervalIndex (cmd : Json) : Except QueryError (Option ℕ) := do
  if ← cmd.hasMember "operations" then
    let operations ← cmd.get "operations"
    intervalFrom operations.elements 0
  else pure none

/-- A part of `construct_responses` that does not change the list of frames. -/
def lift {α : Type} : Except QueryError α → Prog (List ℕ) Stop α
  | .ok a => pure a
  | .error e => throw (.threw e.toRequestError)

/-- The loop over the interval. The numbers are `unsigned` in the list. -/
def expandInterval (start stop step : ℤ) : Prog (List ℕ) Stop Unit :=
  loop (fun i : ℤ => do
    if i < stop then
      modify (· ++ [(i % 2 ^ 32).toNat])
      if i + step < -2 ^ 31 ∨ 2 ^ 31 ≤ i + step then stuck
      else pure (.inl (i + step))
    else pure (.inr ())) start

/-- The numbers of the frames in `construct_responses`. -/
def frameNumbers (cmd : Json) : Prog (List ℕ) Stop Unit := do
  let interval ← lift (intervalIndex cmd)
  let isFrames ← lift (cmd.hasMember "frames")
  if isFrames then
    let frames ← lift (cmd.get "frames")
    forEach frames.elements fun fr => do
      let number ← lift fr.asUInt
      modify (· ++ [number])
  else match interval with
    | some i => do
      let operations ← lift (cmd.get "operations")
      let op ← lift (operations.index i)
      let start ← lift (getValue Json.asInt op "start" 0)
      let stop ← lift (getValue Json.asInt op "stop" 0)
      let step ← lift (getValue Json.asInt op "step" 0)
      expandInterval start stop step
    | none => throw (.returned (failure "No 'frames' or 'interval' parameter"))

/-! ### What is documented -/

/-- Frames before `start` and from `stop` on are dropped, and `step - 1` frames in between. -/
def documentedFrames (start stop step : ℤ) : List ℕ :=
  (List.range stop.toNat).filter fun i : ℕ => start ≤ i ∧ step ∣ i - start

/-- The number that a JSON number is. -/
def wholeNumber : Json → ℤ
  | .int z => z
  | .real x => Platform.realTruncate x
  | _ => 0

/-- A member of an operation, or what it is without. -/
def parameter (op : Json) (key : String) (dflt : ℤ) : ℤ :=
  match op with
  | .object ms => (ms.lookup key).elim dflt wholeNumber
  | _ => dflt

/-- The command gives the operation as an interval. -/
structure GivesInterval (cmd op : Json) : Prop where
  noFrames : cmd.hasMember "frames" = .ok false
  operation : ∃ operations i, cmd.get "operations" = .ok operations ∧
    intervalIndex cmd = .ok (some i) ∧ operations.index i = .ok op

/-- The interval is expanded as documented, where the step is 1 if there is none. -/
def Expands (cmd op : Json) : Prop :=
  Runs (frameNumbers cmd) [] (.ret () (documentedFrames (parameter op "start" 0)
    (parameter op "stop" 0) (parameter op "step" 1)))

/-- Some number of `start, start + step, …` reaches `stop` and is an `int`. -/
def Reaches (start stop step : ℤ) : Prop :=
  ∃ k : ℕ, stop ≤ start + k * step ∧ start + k * step < 2 ^ 31

/-- The numbers of an interval are of type `int`, and the loop comes to its end. -/
structure EndsInRange (op : Json) : Prop where
  start_lt : parameter op "start" 0 < 2 ^ 31
  stop_lt : parameter op "stop" 0 < 2 ^ 31
  step_lt : parameter op "step" 0 < 2 ^ 31
  reaches : Reaches (parameter op "start" 0) (parameter op "stop" 0) (parameter op "step" 0)

/-! ### The loop -/

variable {start stop step : ℤ} {frames : List ℕ}

omit [Platform] in
/-- Nothing is documented where the start is not before the stop. -/
theorem documentedFrames_of_le (h : stop ≤ start) : documentedFrames start stop step = [] := by
  refine List.filter_eq_nil_iff.2 fun i hi => ?_
  have hlt := List.mem_range.1 hi
  simp only [decide_eq_true_eq, not_and]
  omega

omit [Platform] in
/-- The first frame, and those from one step on. -/
theorem documentedFrames_cons (hstart : 0 ≤ start) (hstep : 1 ≤ step) (h : start < stop) :
    documentedFrames start stop step =
      start.toNat :: documentedFrames (start + step) stop step := by
  obtain ⟨s, rfl⟩ := Int.eq_ofNat_of_zero_le hstart
  obtain ⟨e, rfl⟩ := Int.eq_ofNat_of_zero_le (hstart.trans h.le)
  obtain ⟨d, rfl⟩ := Int.eq_ofNat_of_zero_le (Int.le_trans (by decide) hstep)
  have hse : s < e := by omega
  have hd : 1 ≤ d := by omega
  have hsplit : List.range e = List.range s ++ s :: List.range' (s + 1) (e - s - 1) := by
    have happend : List.range' 0 s ++ List.range' s (e - s) = List.range' 0 e := by
      have happ := List.range'_append_1 (s := 0) (m := s) (n := e - s)
      rw [Nat.zero_add] at happ
      rw [happ]
      congr 1
      omega
    rw [List.range_eq_range', List.range_eq_range', ← happend]
    congr 1
    obtain ⟨m, hm⟩ : ∃ m, e - s = m + 1 := ⟨e - s - 1, by omega⟩
    rw [hm, List.range'_succ]
    rfl
  have hbefore : ∀ (a : ℤ), (s : ℤ) ≤ a →
      (List.range s).filter (fun i : ℕ => decide (a ≤ i ∧ (d : ℤ) ∣ i - a)) = [] := by
    intro a ha
    refine List.filter_eq_nil_iff.2 fun i hi => ?_
    have hlt := List.mem_range.1 hi
    simp only [decide_eq_true_eq, not_and]
    omega
  have hafter : ∀ i ∈ List.range' (s + 1) (e - s - 1),
      decide ((s : ℤ) ≤ i ∧ (d : ℤ) ∣ i - s) =
        decide ((s : ℤ) + d ≤ i ∧ (d : ℤ) ∣ i - (s + d)) := by
    intro i hi
    obtain ⟨hlo, -⟩ := List.mem_range'_1.1 hi
    rw [decide_eq_decide]
    have hdvd : (d : ℤ) ∣ i - (s + d) ↔ (d : ℤ) ∣ i - s := by
      rw [← Int.sub_sub, dvd_sub_self_right]
    rw [hdvd]
    refine and_congr_left fun hdiv => ⟨fun _ => ?_, fun _ => by omega⟩
    have hle := Int.le_of_dvd (by omega) hdiv
    omega
  simp only [documentedFrames, Int.toNat_natCast]
  rw [hsplit, List.filter_append, List.filter_append, hbefore s le_rfl, hbefore (s + d) (by omega),
    List.nil_append, List.nil_append, List.filter_cons_of_pos (by simp),
    List.filter_cons_of_neg (by simp; omega)]
  exact congrArg _ (List.filter_congr hafter)

omit [Platform] in
/-- An interval that reaches its stop is expanded as documented. Induction on the number of
steps. -/
theorem expandInterval_runs (hstart : 0 ≤ start) (hstep : 0 ≤ step)
    (h : Reaches start stop step) (frames : List ℕ) :
    Runs (expandInterval start stop step) frames
      (.ret () (frames ++ documentedFrames start stop step)) := by
  obtain ⟨k, hk, hlt⟩ := h
  induction k generalizing start frames with
  | zero =>
      have hle : stop ≤ start := by simpa using hk
      rw [documentedFrames_of_le hle, List.append_nil]
      refine Runs.loop_stop (Runs.of_eq fun n => ?_)
      rw [if_neg (by omega)]
      rfl
  | succ k ih =>
      by_cases hle : stop ≤ start
      · rw [documentedFrames_of_le hle, List.append_nil]
        refine Runs.loop_stop (Runs.of_eq fun n => ?_)
        rw [if_neg (by omega)]
        rfl
      · have hsum : start + ((k + 1 : ℕ) : ℤ) * step = start + step + k * step := by
          push_cast
          ring
        rw [hsum] at hk hlt
        have hmul : 0 ≤ (k : ℤ) * step := Int.mul_nonneg (Int.natCast_nonneg k) hstep
        have hpos : 1 ≤ step := by
          by_contra hzero
          obtain rfl : step = 0 := by omega
          simp at hk
          omega
        have hmod : (start % 2 ^ 32).toNat = start.toNat := by
          rw [Int.emod_eq_of_lt hstart (by omega)]
        have hnext : 0 ≤ start + step := by omega
        have hrest := ih hnext (frames ++ [start.toNat]) hk hlt
        rw [List.append_assoc, List.singleton_append,
          ← documentedFrames_cons hstart hpos (by omega)] at hrest
        refine Runs.loop_step (Runs.of_eq fun n => ?_) hrest (by simp)
        rw [if_pos (by omega)]
        simp only [bind_apply, modify_apply, Outcome.andThen_ret, hmod]
        rw [if_neg (by omega)]
        rfl

omit [Platform] in
/-- An interval that is expanded reaches its stop. Induction on the passes. -/
theorem reaches_of_runs {t : List ℕ} (hstart : start < 2 ^ 31)
    (h : Runs (expandInterval start stop step) frames (.ret () t)) : Reaches start stop step := by
  have hsat : Ensures (expandInterval start stop step) frames fun _ _ =>
      Reaches start stop step := by
    refine Sat.loop (fun i _ => i < 2 ^ 31 ∧ ∃ k : ℕ, i = start + k * step) (fun i s hi => ?_)
      ⟨hstart, 0, by simp⟩
    obtain ⟨hlt, k, rfl⟩ := hi
    refine Sat.ite (fun _ => ?_) fun hge => Sat.pure ⟨k, by omega, hlt⟩
    refine Sat.modify_bind (Sat.ite (fun _ => Sat.stuck) fun hsum => ?_)
    refine Sat.pure ⟨by omega, k + 1, ?_⟩
    push_cast
    ring
  exact hsat.ret h

/-! ### What the schema accepts -/

/-- Whole numbers from 0 on are `int`s up to a bound. -/
theorem asInt_nonNegative {j : Json} (h : ApiSchema.nonNegativeInt j = true) :
    0 ≤ wholeNumber j ∧ j.asInt =
      if wholeNumber j < 2 ^ 31 then .ok (wholeNumber j) else .error .logicError := by
  obtain ⟨hint, hmin⟩ : Schema.integer j = true ∧ Schema.minimum 0 j = true := by
    simpa [ApiSchema.nonNegativeInt, Schema.all] using h
  cases j with
  | int z =>
      have hz : 0 ≤ z := by simpa [Schema.minimum] using hmin
      refine ⟨hz, ?_⟩
      simp only [Json.asInt, Json.asInteger, wholeNumber]
      refine if_congr ?_ rfl rfl
      omega
  | real x =>
      have hx : 0 ≤ Platform.realTruncate x := by simpa [Schema.minimum] using hmin
      refine ⟨hx, ?_⟩
      simp only [Json.asInt, Json.asInteger, wholeNumber]
      refine if_congr ?_ rfl rfl
      omega
  | _ => cases hint

theorem nonNegative_of_positive {j : Json} (h : ApiSchema.positiveInt j = true) :
    ApiSchema.nonNegativeInt j = true ∧ 1 ≤ wholeNumber j := by
  obtain ⟨hint, hmin⟩ : Schema.integer j = true ∧ Schema.minimum 1 j = true := by
    simpa [ApiSchema.positiveInt, Schema.all] using h
  cases j with
  | int z =>
      have hz : 1 ≤ z := by simpa [Schema.minimum] using hmin
      refine ⟨?_, hz⟩
      simp [ApiSchema.nonNegativeInt, Schema.all, Schema.integer, Schema.minimum]
      omega
  | real x =>
      have hx : 1 ≤ Platform.realTruncate x := by simpa [Schema.minimum] using hmin
      have hx0 : 0 ≤ Platform.realTruncate x := by omega
      refine ⟨?_, hx⟩
      have hwhole : x.isWhole = true := hint
      simp [ApiSchema.nonNegativeInt, Schema.all, Schema.integer, Schema.minimum, hwhole, hx0]
  | _ => cases hint

/-- An interval as the schema accepts it. -/
structure IsInterval (op : Json) (ms : List (String × Json)) : Prop where
  object : op = .object ms
  start : ∃ j, ms.lookup "start" = some j ∧ ApiSchema.nonNegativeInt j = true
  stop : ∃ j, ms.lookup "stop" = some j ∧ ApiSchema.nonNegativeInt j = true
  step : ∀ j, ms.lookup "step" = some j → ApiSchema.positiveInt j = true

/-- Another operation has another type. -/
theorem not_isInterval {op : Json} {name : String} {props : List (String × Schema)}
    (hname : name ≠ "interval") (hop : op.isObject = true)
    (hclosed : Schema.closed (("type", Schema.enum [name]) :: props) op = true)
    (h : isInterval op = .ok true) : False := by
  cases op with
  | object ms =>
      cases htype : ms.lookup "type" with
      | none =>
          simp [isInterval, getValue, Json.hasMember, htype, bind, Except.bind, pure,
            Except.pure] at h
      | some v =>
          have henum := closed_member hclosed (List.lookup_cons_self) htype
          cases v with
          | string s =>
              obtain rfl : s = name := by simpa [Schema.enum] using henum
              simp [isInterval, getValue, Json.hasMember, htype, bind, Except.bind, pure,
                Except.pure, Json.get, Json.asString, hname] at h
          | _ => cases henum
  | _ => cases hop

/-- The operation that `get_interval_index` finds is an interval of the schema. -/
theorem isInterval_schema {op : Json} (hop : Schema.anyOf [ApiSchema.operationThreshold,
    ApiSchema.operationResize, ApiSchema.operationCrop, ApiSchema.operationFlip,
    ApiSchema.operationRotate, ApiSchema.operationInterval] op = true)
    (h : isInterval op = .ok true) : ∃ ms, IsInterval op ms := by
  have hcases : ∀ {name : String} {props : List (String × Schema)} {keys : List String},
      name ≠ "interval" → Schema.all [Schema.object,
        Schema.closed (("type", Schema.enum [name]) :: props), Schema.required keys] op = true →
      False := by
    intro name props keys hname hall
    simp only [Schema.all, List.all_cons, List.all_nil, Bool.and_true, Bool.and_eq_true] at hall
    exact not_isInterval hname hall.1 hall.2.1 h
  simp only [Schema.anyOf, List.any_cons, List.any_nil, Bool.or_false, Bool.or_eq_true] at hop
  rcases hop with hop | hop | hop | hop | hop | hop
  · exact (hcases (by decide) hop).elim
  · exact (hcases (by decide) hop).elim
  · exact (hcases (by decide) hop).elim
  · exact (hcases (by decide) hop).elim
  · exact (hcases (by decide) hop).elim
  · simp only [ApiSchema.operationInterval, Schema.all, List.all_cons, List.all_nil,
      Bool.and_true, Bool.and_eq_true] at hop
    obtain ⟨hobject, hclosed, hrequired⟩ := hop
    cases op with
    | object ms =>
        simp only [Schema.required, List.all_cons, List.all_nil, Bool.and_true,
          Bool.and_eq_true, Option.isSome_iff_exists] at hrequired
        obtain ⟨-, ⟨start, hstart⟩, stop, hstop⟩ := hrequired
        exact ⟨ms, rfl, ⟨start, hstart, closed_member hclosed rfl hstart⟩,
          ⟨stop, hstop, closed_member hclosed rfl hstop⟩, fun j hj =>
            closed_member hclosed rfl hj⟩
    | _ => cases hobject

/-- What the loop of `get_interval_index` finds. -/
theorem intervalFrom_some {ops : List Json} {i j : ℕ}
    (h : intervalFrom ops j = .ok (some i)) :
    ∃ k op, i = j + k ∧ ops[k]? = some op ∧ isInterval op = .ok true := by
  induction ops generalizing j with
  | nil => cases h
  | cons op ops ih =>
      rw [intervalFrom] at h
      obtain ⟨found, hfound, h⟩ := bind_ok_inv h
      cases found with
      | true =>
          cases h
          exact ⟨0, op, rfl, rfl, hfound⟩
      | false =>
          obtain ⟨k, op', hk, hop', hint⟩ := ih h
          exact ⟨k + 1, op', by omega, by simpa using hop', hint⟩

/-- The interval of an accepted command is one of the schema. -/
theorem GivesInterval.isInterval {cmd op : Json} (h : GivesInterval cmd op)
    (hschema : ApiSchema.findFrames cmd = true) : ∃ ms, IsInterval op ms := by
  obtain ⟨operations, i, hget, hindex, hop⟩ := h.operation
  rw [intervalIndex] at hindex
  obtain ⟨has, hhas, hindex⟩ := bind_ok_inv hindex
  cases has with
  | false => cases hindex
  | true =>
      rw [if_pos rfl] at hindex
      obtain ⟨operations', hget', hfrom⟩ := bind_ok_inv hindex
      rw [hget] at hget'
      cases hget'
      cases cmd with
      | object ps =>
          cases hops : ps.lookup "operations" with
          | none => simp [Json.hasMember, hops] at hhas
          | some v =>
              obtain rfl : v = operations := by simpa [Json.get, hops] using hget
              have hblock := closed_member hschema rfl hops
              simp only [ApiSchema.blockFrameOperations, Schema.all, List.all_cons,
                List.all_nil, Bool.and_true, Bool.and_eq_true] at hblock
              obtain ⟨harray, -, hitems⟩ := hblock
              cases v with
              | array xs =>
                  obtain ⟨k, op', hk, hop', hint⟩ := intervalFrom_some hfrom
                  rw [Json.elements_array] at hop'
                  rw [Nat.zero_add] at hk
                  subst hk
                  obtain rfl : op' = op := by simpa [Json.index, hop'] using hop
                  have hmem := List.mem_of_getElem? hop'
                  exact isInterval_schema (List.all_eq_true.1 hitems _ hmem) hint
              | _ => cases harray
      | null => cases hhas
      | _ => cases hhas

/-- A whole number from 0 on, or none, as the code reads it. -/
theorem getValue_nonNegative {ms : List (String × Json)} (key : String)
    (hkey : ∀ j, ms.lookup key = some j → ApiSchema.nonNegativeInt j = true) :
    0 ≤ parameter (.object ms) key 0 ∧ getValue Json.asInt (.object ms) key 0 =
      if parameter (.object ms) key 0 < 2 ^ 31 then .ok (parameter (.object ms) key 0)
      else .error .logicError := by
  cases hj : ms.lookup key with
  | none =>
      have hzero : parameter (.object ms) key 0 = 0 := by simp [parameter, hj]
      rw [hzero, if_pos (by decide)]
      exact ⟨le_rfl, by simp [getValue, Json.hasMember, hj, bind, Except.bind, pure, Except.pure]⟩
  | some j =>
      have hnum : parameter (.object ms) key 0 = wholeNumber j := by simp [parameter, hj]
      obtain ⟨hnonneg, hint⟩ := asInt_nonNegative (hkey j hj)
      rw [hnum, ← hint]
      exact ⟨hnonneg, by simp [getValue, Json.hasMember, Json.get, hj, bind, Except.bind]⟩

/-- What the code does with an interval of the schema, before the loop. -/
theorem frameNumbers_apply {cmd op : Json} (h : GivesInterval cmd op) (n : ℕ) (s : List ℕ) :
    frameNumbers cmd n s =
      (do
        let start ← lift (getValue Json.asInt op "start" 0)
        let stop ← lift (getValue Json.asInt op "stop" 0)
        let step ← lift (getValue Json.asInt op "step" 0)
        expandInterval start stop step : Prog (List ℕ) Stop Unit) n s := by
  obtain ⟨operations, i, hget, hindex, hop⟩ := h.operation
  simp only [frameNumbers, h.noFrames, hget, hindex, hop, lift, bind_apply, pure_apply,
    Outcome.andThen_ret, Bool.false_eq_true, if_false]

/-- **Intervals.** `FindFrames` expands an interval that the schema accepts as documented exactly
if its numbers are of type `int` and the loop reaches the stop in this type. -/
theorem expands_iff {cmd op : Json} (hschema : ApiSchema.findFrames cmd = true)
    (h : GivesInterval cmd op) : Expands cmd op ↔ EndsInRange op := by
  obtain ⟨ms, hop⟩ := h.isInterval hschema
  obtain ⟨start, hstart, hstartNat⟩ := hop.start
  obtain ⟨stop, hstop, hstopNat⟩ := hop.stop
  have hstepNat : ∀ j, ms.lookup "step" = some j → ApiSchema.nonNegativeInt j = true :=
    fun j hj => (nonNegative_of_positive (hop.step j hj)).1
  have hread : ∀ key, (∀ j, ms.lookup key = some j → ApiSchema.nonNegativeInt j = true) →
      0 ≤ parameter op key 0 ∧ getValue Json.asInt op key 0 =
        if parameter op key 0 < 2 ^ 31 then .ok (parameter op key 0) else .error .logicError := by
    rw [hop.object]
    exact fun key => getValue_nonNegative key
  obtain ⟨hstart0, hgetStart⟩ := hread "start" fun j hj => by
    rw [hstart] at hj
    exact Option.some.inj hj ▸ hstartNat
  obtain ⟨-, hgetStop⟩ := hread "stop" fun j hj => by
    rw [hstop] at hj
    exact Option.some.inj hj ▸ hstopNat
  obtain ⟨hstep0, hgetStep⟩ := hread "step" hstepNat
  -- Without a step nothing is expanded, or the loop does not end.
  have hdocumented : Reaches (parameter op "start" 0) (parameter op "stop" 0)
      (parameter op "step" 0) → documentedFrames (parameter op "start" 0)
        (parameter op "stop" 0) (parameter op "step" 1) =
      documentedFrames (parameter op "start" 0) (parameter op "stop" 0)
        (parameter op "step" 0) := by
    intro hreaches
    obtain rfl := hop.object
    cases hj : ms.lookup "step" with
    | some j => simp [parameter, hj]
    | none =>
        have hzero : parameter (.object ms) "step" 0 = 0 := by simp [parameter, hj]
        obtain ⟨k, hk, -⟩ := hreaches
        rw [hzero, Int.mul_zero, Int.add_zero] at hk
        rw [documentedFrames_of_le hk, documentedFrames_of_le hk]
  rw [Expands, Runs.congr (N := 0) (fun n _ => frameNumbers_apply h n []), hgetStart, hgetStop,
    hgetStep]
  have hthrow : ∀ {m : Prog (List ℕ) Stop Unit} {l : List ℕ} {e : Stop},
      Runs m [] (.throw e []) → ¬ Runs m [] (.ret () l) := fun hm hret => by
    cases hm.unique hret
  by_cases hlt : parameter op "start" 0 < 2 ^ 31
  · by_cases hlt' : parameter op "stop" 0 < 2 ^ 31
    · by_cases hlt'' : parameter op "step" 0 < 2 ^ 31
      · rw [if_pos hlt, if_pos hlt', if_pos hlt'']
        refine Iff.trans ?_ ⟨fun hr => ⟨hlt, hlt', hlt'', hr⟩, EndsInRange.reaches⟩
        constructor
        · exact fun hrun => reaches_of_runs hlt hrun
        · intro hreaches
          rw [hdocumented hreaches]
          exact expandInterval_runs hstart0 hstep0 hreaches []
      · rw [if_pos hlt, if_pos hlt', if_neg hlt'']
        exact iff_of_false (hthrow (Runs.of_eq fun _ => rfl)) fun hr => hlt'' hr.step_lt
    · rw [if_pos hlt, if_neg hlt']
      exact iff_of_false (hthrow (Runs.of_eq fun _ => rfl)) fun hr => hlt' hr.stop_lt
  · rw [if_neg hlt]
    exact iff_of_false (hthrow (Runs.of_eq fun _ => rfl)) fun hr => hlt hr.start_lt

end FindFrames

/-! ### The operation of `FindVideo` -/

/-- The places that are kept: those of documented frames, if the first place is called 1. -/
def keptPlaces (start stop step : ℤ) (i : ℕ) : Prop :=
  max start 1 ≤ (i : ℤ) + 1 ∧ (i : ℤ) + 1 < stop ∧ step ∣ i + 1 - max start 1

instance (start stop step : ℤ) (i : ℕ) : Decidable (keptPlaces start stop step i) :=
  inferInstanceAs (Decidable (_ ∧ _ ∧ _))

/-- What the loop knows before the frame `i`: no frame is kept yet, or the last one is less than
a step before; from the stop on it does not matter. -/
def KeptSoFar (start stop step i last : ℤ) : Prop :=
  last = 0 ∧ (i < max start 1 ∨ stop ≤ i) ∨
    max start 1 ≤ last ∧ last ≤ i ∧ step ∣ last - max start 1 ∧ (i < last + step ∨ stop ≤ i)

omit [Platform] in
/-- The frame `i` is kept exactly if its place is. -/
theorem kept_iff {start stop step last : ℤ} {i : ℕ}
    (h : KeptSoFar start stop step i last) :
    start ≤ (i : ℤ) + 1 ∧ (i : ℤ) + 1 < stop ∧ (last = 0 ∨ (i : ℤ) + 1 - last = step) ↔
      keptPlaces start stop step i := by
  have hmax : start ≤ (i : ℤ) + 1 ↔ max start 1 ≤ (i : ℤ) + 1 := by omega
  rw [hmax, keptPlaces]
  refine and_congr_right fun hlo => and_congr_right fun hhi => ?_
  rcases h with ⟨rfl, h⟩ | ⟨hlast, hle, hdvd, h⟩
  · have heq : (i : ℤ) + 1 - max start 1 = 0 := by omega
    rw [heq]
    simp
  · have hpos : last ≠ 0 := by omega
    have hsplit : (i : ℤ) + 1 - max start 1 = (i + 1 - last) + (last - max start 1) := by ring
    rw [or_iff_right hpos, hsplit, Int.dvd_add_left hdvd]
    constructor
    · rintro heq
      rw [heq]
    · intro hdiv
      have hge := Int.le_of_dvd (by omega) hdiv
      omega

omit [Platform] in
/-- What the loop knows after the frame. -/
theorem KeptSoFar.next {start stop step last : ℤ} {i : ℕ} (hstep : 1 ≤ step)
    (h : KeptSoFar start stop step i last) :
    KeptSoFar start stop step (i + 1 : ℕ)
      (if keptPlaces start stop step i then (i : ℤ) + 1 else last) := by
  have hkept := kept_iff h
  push_cast
  by_cases hplace : keptPlaces start stop step i
  · rw [if_pos hplace]
    exact .inr ⟨hplace.1, le_rfl, hplace.2.2, .inl (by omega)⟩
  · rw [if_neg hplace]
    rw [← hkept] at hplace
    rcases h with ⟨rfl, h⟩ | ⟨hlast, hle, hdvd, h⟩
    · refine .inl ⟨rfl, ?_⟩
      by_contra hno
      exact hplace ⟨by omega, by omega, .inl rfl⟩
    · refine .inr ⟨hlast, by omega, hdvd, ?_⟩
      by_contra hno
      exact hplace ⟨by omega, by omega, .inr (by omega)⟩

omit [Platform] in
/-- **The frames that the operation leaves** are those at the places that are kept. -/
theorem keepFrames_eq {start stop step : ℤ} (hstep : 1 ≤ step) (m i : ℕ) (last : ℤ)
    (h : KeptSoFar start stop step i last) :
    keepFrames start stop step (List.range' i m) i last =
      (List.range' i m).filter fun j => keptPlaces start stop step j := by
  induction m generalizing i last with
  | zero => rfl
  | succ m ih =>
      have hnext := ih (i + 1) _ (h.next hstep)
      push_cast at hnext
      rw [List.range'_succ, keepFrames]
      simp only [kept_iff h]
      by_cases hplace : keptPlaces start stop step i
      · rw [if_pos hplace] at hnext ⊢
        rw [List.filter_cons_of_pos (by simpa using hplace), hnext]
      · rw [if_neg hplace] at hnext ⊢
        rw [List.filter_cons_of_neg (by simpa using hplace)]
        split
        · rename_i hpast
          symm
          refine List.filter_eq_nil_iff.2 fun j hj hkept => ?_
          obtain ⟨hlo, -⟩ := List.mem_range'_1.1 hj
          have hkept : keptPlaces start stop step j := by simpa using hkept
          have hlt := hkept.2.1
          omega
        · exact hnext

/-- Both commands give the documented frames of a video with so many frames, which are told apart
by their places. -/
def SameFrames (frameCount : ℕ) (start stop step : ℤ) : Prop :=
  Runs (FindFrames.expandInterval start stop step) []
      (.ret () (FindFrames.documentedFrames start stop step)) ∧
    ∀ L : FrameLibrary ℕ, DoesAs
      (performOperations L false (List.range frameCount) [.interval start stop step])
      ⟨List.range frameCount, ""⟩
      (some ⟨FindFrames.documentedFrames start stop step, ""⟩)

omit [Platform] in
/-- `perform_operations` with an interval that it accepts. -/
theorem interval_doesAs {n : ℕ} {start stop step : ℤ} (hstart : start < n) (hstop : stop < n)
    (hstep : 1 ≤ step) (hpos : 0 < n) (L : FrameLibrary ℕ) (frames : List ℕ) :
    DoesAs (performOperations L false (List.range n) [.interval start stop step])
        ⟨List.range n, ""⟩ (some ⟨frames, ""⟩) ↔
      (List.range n).filter (fun j => keptPlaces start stop step j) = frames := by
  have hframes : List.range n ≠ [] := by simpa using Nat.pos_iff_ne_zero.1 hpos
  have hkept : keepFrames start stop step (List.range n) 0 0 =
      (List.range n).filter fun j => keptPlaces start stop step j := by
    rw [List.range_eq_range']
    exact keepFrames_eq hstep n 0 0 (.inl ⟨rfl, .inl (by omega)⟩)
  have hworked : sequentially L [.interval start stop step] ⟨List.range n, ""⟩ =
      some ⟨(List.range n).filter fun j => keptPlaces start stop step j, ""⟩ := by
    have hperform : VideoOperation.performWhole L (.interval start stop step)
        ⟨List.range n, ""⟩ = ⟨keepFrames start stop step (List.range n) 0 0, ""⟩ := by
      simp only [VideoOperation.performWhole, List.length_range]
      rw [if_neg (by omega), if_neg (by omega)]
    rw [← hkept, ← hperform]
    rfl
  have hsome : WorkedVideo.frames ⟨List.range n, ""⟩ ≠ [] := hframes
  have hdoes := (loop_doesAs_first (L := L) [.interval start stop step] hsome).2
    fun _ _ => ⟨fun _ hne => absurd rfl hne, trivial⟩
  rw [hworked] at hdoes
  constructor
  · intro h
    injection hdoes.unique h with _ heq
    exact congrArg WorkedVideo.frames heq
  · rintro rfl
    exact hdoes

omit [Platform] in
/-- A filter of a range that ends early. -/
theorem filter_range_of_lt {m n : ℕ} (hle : m ≤ n) {p : ℕ → Bool} (h : ∀ i, p i = true → i < m) :
    (List.range n).filter p = (List.range m).filter p := by
  obtain ⟨k, rfl⟩ := Nat.exists_eq_add_of_le hle
  rw [List.range_add, List.filter_append, List.append_right_eq_self, List.filter_eq_nil_iff]
  intro i hi hp
  obtain ⟨j, -, rfl⟩ := List.mem_map.1 hi
  have hlt := h _ hp
  omega

omit [Platform] in
/-- The places that are kept are those that are documented if nothing is kept, or if the first
place is the start and the last one that is left out is not documented. -/
theorem keptPlaces_documented_iff {n : ℕ} {start stop step : ℤ} (hstart : 0 ≤ start)
    (hstop : stop < n) :
    (List.range n).filter (fun j => keptPlaces start stop step j) =
        FindFrames.documentedFrames start stop step ↔
      stop ≤ start ∨ start = 0 ∧ ¬ step ∣ stop - 1 := by
  by_cases hle : stop ≤ start
  · refine iff_of_true ?_ (.inl hle)
    rw [FindFrames.documentedFrames_of_le hle, List.filter_eq_nil_iff]
    intro i _ hkept
    obtain ⟨hlo, hhi, -⟩ : keptPlaces start stop step i := by simpa using hkept
    omega
  rw [or_iff_right hle]
  have hlt : start < stop := by omega
  have hmem : ∀ i : ℕ, i ∈ FindFrames.documentedFrames start stop step ↔
      i < stop.toNat ∧ start ≤ i ∧ step ∣ i - start := by
    intro i
    simp [FindFrames.documentedFrames]
  constructor
  · intro heq
    -- The start is documented, and the place before it is kept.
    have hzero : start = 0 := by
      by_contra hne
      have hplace : keptPlaces start stop step (start - 1).toNat := by
        refine ⟨by omega, by omega, ?_⟩
        have hself : ((start - 1).toNat : ℤ) + 1 - max start 1 = 0 := by omega
        rw [hself]
        exact Int.dvd_zero step
      have hin : (start - 1).toNat ∈ FindFrames.documentedFrames start stop step := by
        rw [← heq]
        exact List.mem_filter.2 ⟨List.mem_range.2 (by omega), by simpa using hplace⟩
      have hfrom := ((hmem _).1 hin).2.1
      omega
    refine ⟨hzero, fun hdvd => ?_⟩
    subst hzero
    have hcast : ((stop - 1).toNat : ℤ) = stop - 1 := by omega
    have hin : (stop - 1).toNat ∈ FindFrames.documentedFrames 0 stop step :=
      (hmem _).2 ⟨by omega, by omega, by rwa [hcast, Int.sub_zero]⟩
    rw [← heq] at hin
    have hplace : keptPlaces 0 stop step (stop - 1).toNat := by
      simpa using (List.mem_filter.1 hin).2
    have hbefore := hplace.2.1
    omega
  · rintro ⟨rfl, hnot⟩
    have hends : ∀ i : ℕ, decide (keptPlaces 0 stop step i) = true → i < stop.toNat := by
      intro i hkept
      have hbefore := (of_decide_eq_true hkept).2.1
      omega
    rw [filter_range_of_lt (by omega) hends, FindFrames.documentedFrames]
    refine List.filter_congr fun i hi => ?_
    have hi := List.mem_range.1 hi
    rw [decide_eq_decide, keptPlaces]
    have hone : max (0 : ℤ) 1 = 1 := rfl
    rw [hone, add_sub_cancel_right, Int.sub_zero]
    constructor
    · rintro ⟨-, -, hdvd⟩
      exact ⟨by omega, hdvd⟩
    · rintro ⟨-, hdvd⟩
      refine ⟨by omega, ?_, hdvd⟩
      have hne : (i : ℤ) ≠ stop - 1 := fun heq => hnot (heq ▸ hdvd)
      omega

omit [Platform] in
/-- **Two intervals.** The commands give the same frames, those that are documented, exactly if
`FindFrames` comes to an end, and either there are no such frames, or the interval starts with
the first frame and the one before the stop is not among them. -/
theorem intervals_agree_iff {frameCount : ℕ} {start stop step : ℤ} (hnonneg : 0 ≤ start)
    (hint : start < 2 ^ 31) (hstep : 1 ≤ step) (hstart : start < frameCount)
    (hstop : stop < frameCount) :
    SameFrames frameCount start stop step ↔
      FindFrames.Reaches start stop step ∧ (stop ≤ start ∨ start = 0 ∧ ¬ step ∣ stop - 1) := by
  have hpos : 0 < frameCount := by omega
  have hexpand : Runs (FindFrames.expandInterval start stop step) []
      (.ret () (FindFrames.documentedFrames start stop step)) ↔
      FindFrames.Reaches start stop step :=
    ⟨FindFrames.reaches_of_runs hint, fun h =>
      FindFrames.expandInterval_runs hnonneg (by omega) h []⟩
  have hL : Nonempty (FrameLibrary ℕ) := ⟨plainFrames⟩
  rw [SameFrames, hexpand]
  simp only [interval_doesAs hstart hstop hstep hpos]
  rw [forall_const, keptPlaces_documented_iff hnonneg hstop]

omit [Platform] in
/-- All frames but the last one, two at a time: the last documented frame is the third. -/
theorem intervals_agree_every_second : SameFrames 5 0 4 2 :=
  (intervals_agree_iff (by decide) (by decide) (by decide) (by decide) (by decide)).2
    ⟨⟨2, by decide, by decide⟩, .inr ⟨rfl, by decide⟩⟩

omit [Platform] in
/-- The second and the third frame for one command are the first and the second for the other. -/
theorem intervals_differ : ¬ SameFrames 5 1 3 1 := by
  rintro ⟨-, h⟩
  have hsame := (interval_doesAs (by decide) (by decide) (by decide) (by decide) plainFrames _).1
    (h plainFrames)
  revert hsame
  decide

end

namespace FindFrames

/-- A request with an interval. -/
def intervalCommand (members : List (String × Json)) : Json :=
  .object [("operations", .array [.object (("type", .string "interval") :: members)])]

/-- The frames 0, 2 and 4. -/
theorem expands_iff_every_second :
    @Expands tableScan (intervalCommand [("start", .int 0), ("stop", .int 5), ("step", .int 2)])
      (.object [("type", .string "interval"), ("start", .int 0), ("stop", .int 5),
        ("step", .int 2)]) :=
  (@expands_iff tableScan _ _ rfl ⟨rfl, _, 0, rfl, rfl, rfl⟩).2
    ⟨by decide, by decide, by decide, 3, by decide, by decide⟩

/-- The schema does not ask for a step, and without one the loop does not end. -/
theorem interval_without_step :
    @ApiSchema.findFrames tableScan (intervalCommand [("start", .int 0), ("stop", .int 1)]) = true ∧
      ¬ @Expands tableScan (intervalCommand [("start", .int 0), ("stop", .int 1)])
        (.object [("type", .string "interval"), ("start", .int 0), ("stop", .int 1)]) := by
  refine ⟨rfl, fun h => ?_⟩
  have hgives : @GivesInterval tableScan
      (intervalCommand [("start", .int 0), ("stop", .int 1)])
      (.object [("type", .string "interval"), ("start", .int 0), ("stop", .int 1)]) :=
    ⟨rfl, _, 0, rfl, rfl, rfl⟩
  have hrun := (Runs.congr (N := 0)
    (fun n _ => @frameNumbers_apply tableScan _ _ hgives n []) _).1 h
  obtain ⟨k, hk, -⟩ : Reaches 0 1 0 := reaches_of_runs (by decide) hrun
  simp at hk

end FindFrames

end Vdms
