import Mathlib.Algebra.Order.Ring.Int
import Vdms.PMGDQuery
import Vdms.ResultLoops
import Vdms.TableScan

/-!
# Sums and Averages

`build_results` adds integers up in a `size_t`, writes a sum to an unsigned field, and
divides the unsigned sum for an average; `parse_response` reads the field as an unsigned
number. So a total that is negative comes out too large by `2 ^ 64`, in the sum and below
the division.

## Main results

* `resultOf_integers_runs`: what the answers are.
* `sum_average_exact_iff`: they are exact if and only if the total is not negative, and not
  beyond the range of the counter.
-/

namespace Vdms

open Imp Imp.Prog Platform

/-! ### Integers under a key -/

/-- The elements carry the integers `zs` under the key. -/
def CarryIntegers {τ : Type} (g : Graph) (el : τ → Element) (key : StringID) (l : List τ)
    (zs : List ℤ) : Prop :=
  l.map (fun x => g.props (el x) key) = zs.map fun z => some (.integer z)

theorem CarryIntegers.split {τ : Type} {g : Graph} {el : τ → Element} {key : StringID}
    {done left : List τ} {x : τ} {zs : List ℤ}
    (h : CarryIntegers g el key (done ++ x :: left) zs) :
    ∃ zd z zl, zs = zd ++ z :: zl ∧ zd.length = done.length ∧
      g.props (el x) key = some (.integer z) := by
  rw [CarryIntegers, List.map_append, List.map_cons] at h
  obtain ⟨zd, zr, rfl, hd, hr⟩ := List.map_eq_append_iff.1 h.symm
  obtain ⟨z, zl, rfl, hz, -⟩ := List.map_eq_cons_iff.1 hr
  exact ⟨zd, z, zl, rfl, by simpa using congrArg List.length hd, hz.symm⟩

theorem CarryIntegers.length_eq {τ : Type} {g : Graph} {el : τ → Element} {key : StringID}
    {l : List τ} {zs : List ℤ} (h : CarryIntegers g el key l zs) : zs.length = l.length := by
  simpa using (congrArg List.length h).symm

theorem cutTo_eq_take {τ τ' : Type} {limit : Option ℕ} {l : List τ} {l' : List τ'}
    (h : l'.length = l.length) : l'.take (cutTo limit l).length = cutTo limit l' := by
  cases limit with
  | none => simp [cutTo, ← h]
  | some n => simp [cutTo, ← h]

theorem toUInt64_add (a z : ℤ) : (toUInt64 a + toUInt64 z) % 2 ^ 64 = toUInt64 (a + z) := by
  unfold toUInt64
  omega

theorem toUInt64_eq_self_iff {z : ℤ} : (toUInt64 z : ℤ) = z ↔ 0 ≤ z ∧ z < 2 ^ 64 := by
  rw [toUInt64]
  omega

section

variable [Platform]

/-! ### AnswersWith -/

section Results

variable {ι τ : Type} (I : Iter Handler PMGDException ι τ) (el : τ → Element)

/-- What `query_node` and `query_edge` do with the elements found: the response is set to
success, and `build_results` fills it. -/
def resultOf (ni : ι) (qn : ResultInfo) : Handling ι := do
  setType qn.rType .success
  buildResults I el ni qn

/-- The result is built, and the JSON answer to it is `j`. -/
def AnswersWith (ni : ι) (qn : ResultInfo) (s : Handler) (j : Json) : Prop :=
  ∃ ni' t, Runs (resultOf I el ni qn) s (.ret ni' t) ∧ parseResponse t.response = .ok j

variable {I el}

theorem AnswersWith.unique {ni : ι} {qn : ResultInfo} {s : Handler} {j j' : Json}
    (h : AnswersWith I el ni qn s j) (h' : AnswersWith I el ni qn s j') : j = j' := by
  obtain ⟨ni₁, t₁, hrun₁, hj⟩ := h
  obtain ⟨ni₂, t₂, hrun₂, hj'⟩ := h'
  obtain ⟨rfl, rfl⟩ : ni₁ = ni₂ ∧ t₁ = t₂ := by
    have heq := hrun₁.unique hrun₂
    injection heq with hni ht
    exact ⟨hni, ht⟩
  exact Except.ok.inj (hj.symm.trans hj')

end Results

/-! ### Sums of integers -/

/-- The answer to a sum of integers. -/
def sumAnswer (total : ℤ) : Json := .object [("status", .int 0), ("sum", .int total)]

/-- The answer to an average. -/
def averageAnswer (x : Double) : Json := .object [("average", .real x), ("status", .int 0)]

/-- A total divided by the number of its summands, 0 without any. -/
def meanOf (total : Double) (n : ℕ) : Double :=
  if n = 0 then ⟨0⟩ else doubleDiv total (doubleOfNat n)

/-- What a sum or an average of integers leaves in the response: the total stands for its
remainder modulo `2 ^ 64`. -/
def aggregateOf (avg : Bool) (zs : List ℤ) : OpValue :=
  if avg then .float (meanOf (doubleOfNat (toUInt64 zs.sum)) zs.length)
  else .int (toUInt64 zs.sum)

section Quiet

variable [Platform.Quiet] {ι τ : Type} {I : Iter Handler PMGDException ι τ}
  {V : ι → Handler → List τ → Prop} {S : Handler → Handler → Prop} {el : τ → Element}
  {ni : ι} {qn : ResultInfo} {s : Handler} {l : List τ} {zs : List ℤ} {key : String}
  {keys : List String}

theorem getProperty_runs {x : Element} {k : StringID} {v : Property} (hs : s.Open)
    (hv : s.db.props x k = some v) : Runs (getProperty x k) s (.ret v s) := by
  refine Runs.of_eq fun n => ?_
  have hcall := call_open hs (c := .getProperty x k) (fun _ => rfl) n
  simp [getProperty, hcall, hv]

/-- **The loop of an integer sum.** The counter holds the sum of the elements done, up to
its width. -/
theorem accumulate_integers_runs (hI : I.Tracks V S) (hst : Steady V S) (hs : s.Open)
    (hV : V ni s l) (hne : l ≠ []) (hzs : CarryIntegers s.db el (stringID key) l zs)
    (avg : Bool) :
    ∃ ni' t, Runs (accumulate I el qn.limit? (stringID key) addInteger 0
        (reportInteger avg) ni) s (.ret ni' t) ∧
      t.response = { s.response with op := aggregateOf avg (qn.cut zs) } := by
  let Inv : List τ → ℕ × ℕ → Handler → Prop := fun done p t =>
    p = (toUInt64 (zs.take done.length).sum, done.length) ∧
      ∃ c, t = { s with cachedNodes := c }
  have hstep : ∀ {done x left i p t}, done ++ x :: left = l → V i t (x :: left) →
      Inv done p t → ∃ p' t', Runs (do
          let v ← getProperty (el x) (stringID key)
          let sum ← addInteger p.1 v
          pure (sum, p.2 + 1)) t (.ret p' t') ∧ V i t' (x :: left) ∧
        Inv (done ++ [x]) p' t' := by
    rintro done x left i p t rfl hVt ⟨rfl, c, rfl⟩
    obtain ⟨zd, z, zl, rfl, hlen, hz⟩ := hzs.split
    have hread := getProperty_runs (s := { s with cachedNodes := c }) hs hz
    refine ⟨_, _, hread.bind (Runs.of_eq fun _ => rfl), hVt, ?_, c, rfl⟩
    have htake : (zd ++ z :: zl).take (done ++ [x]).length = zd ++ [z] := by
      simp [← hlen, List.take_append]
    have htake' : (zd ++ z :: zl).take done.length = zd := by
      rw [← hlen, List.take_left]
    rw [htake, htake', toUInt64_add]
    simp
  obtain ⟨ni', p, t, hrun, hp, c, rfl⟩ := upTo_runs qn.limit? Prod.snd hI Inv
    (by rintro done p t ⟨rfl, -⟩; rfl) hstep
    (by
      rintro done p t u ⟨hp, c, rfl⟩ hS
      obtain ⟨c', rfl⟩ := hst.moves hS
      exact ⟨hp, c', rfl⟩)
    qn.limit?_pos hV (a := ((0, 0) : ℕ × ℕ)) ⟨by simp [toUInt64], s.cachedNodes, rfl⟩
  have hcut : zs.take (cutTo qn.limit? l).length = cutTo qn.limit? zs :=
    cutTo_eq_take hzs.length_eq
  have hlen : (cutTo qn.limit? l).length = (cutTo qn.limit? zs).length := by
    cases hlim : qn.limit? with
    | none => simpa [cutTo] using hzs.length_eq.symm
    | some n => simp [cutTo, hzs.length_eq]
  rw [hcut, hlen] at hp
  subst hp
  have hpos : (cutTo qn.limit? zs).length ≠ 0 := by
    have hzpos : 0 < zs.length := by
      rw [hzs.length_eq]
      exact List.length_pos_iff.2 hne
    cases hlim : qn.limit? with
    | none => exact hzpos.ne'
    | some n =>
        have := qn.limit?_pos n hlim
        simp only [cutTo, List.length_take]
        omega
  cases avg with
  | true =>
      refine ⟨ni', _, hrun.bind (Runs.of_eq fun _ => rfl), ?_⟩
      simp [aggregateOf, meanOf, hpos, ResultInfo.cut, Handler.modifyResponse]
  | false =>
      refine ⟨ni', _, hrun.bind (Runs.of_eq fun _ => rfl), ?_⟩
      simp [aggregateOf, ResultInfo.cut, Handler.modifyResponse]

/-- `build_results` in the cases `Sum` and `Average`. -/
theorem buildSum_integers_runs (hI : I.Tracks V S) (hst : Steady V S) (hs : s.Open)
    (hV : V ni s l) (hkeys : qn.responseKeys = key :: keys)
    (hzs : CarryIntegers s.db el (stringID key) l zs) (avg : Bool) :
    ∃ ni' t, Runs (buildSum I el avg qn.limit? qn ni) s (.ret ni' t) ∧
      t.response = { s.response with op := aggregateOf avg (qn.cut zs) } := by
  cases l with
  | nil =>
      obtain rfl : zs = [] := List.eq_nil_of_length_eq_zero hzs.length_eq
      have hcut : qn.cut ([] : List ℤ) = [] := by
        cases h : qn.limit? <;> simp [ResultInfo.cut, cutTo, h]
      rw [buildSum, if_neg (by simp [hI.bool_eq hV]), hcut]
      cases avg with
      | true => exact ⟨ni, _, Runs.of_eq fun _ => rfl, rfl⟩
      | false => exact ⟨ni, _, Runs.of_eq fun _ => rfl, rfl⟩
  | cons x left =>
      have hfirst : CarryIntegers s.db el (stringID key) ([] ++ x :: left) zs := hzs
      obtain ⟨zd, z, zl, rfl, hlen, hz⟩ := hfirst.split
      obtain ⟨ni', t, hrun, ht⟩ := accumulate_integers_runs hI hst hs hV (by simp) hzs avg
      refine ⟨ni', t, ?_, ht⟩
      rw [buildSum, if_pos (by simp [hI.bool_eq hV])]
      simp only [hkeys]
      exact (hI.ref_runs hV).bind ((getProperty_runs hs hz).bind hrun)

/-- **What is answered.** The total stands for its remainder modulo `2 ^ 64`. -/
theorem resultOf_integers_runs (hI : I.Tracks V S) (hst : Steady V S) (hs : s.Open)
    (hV : V ni s l) (hkeys : qn.responseKeys = key :: keys)
    (hzs : CarryIntegers s.db el (stringID key) l zs) :
    AnswersWith I el ni { qn with rType := .sum } s (sumAnswer (toUInt64 (qn.cut zs).sum)) ∧
      AnswersWith I el ni { qn with rType := .average } s
        (averageAnswer (meanOf (doubleOfNat (toUInt64 (qn.cut zs).sum)) (qn.cut zs).length)) := by
  have hset : ∀ avg type, ∃ ni' t, Runs (do
      setType type .success
      buildSum I el avg qn.limit? qn ni) s (.ret ni' t) ∧
      t.response = { s.response with
        rType := type, errorCode := .success, op := aggregateOf avg (qn.cut zs) } := by
    intro avg type
    obtain ⟨ni', t, hrun, ht⟩ := buildSum_integers_runs hI hst
      (s := s.modifyResponse fun r => { r with rType := type, errorCode := .success })
      hs (hst.respond _ hV) hkeys hzs avg
    refine ⟨ni', t, Runs.bind (Runs.of_eq fun _ => rfl) hrun, ?_⟩
    rw [ht]
    rfl
  constructor
  · obtain ⟨ni', t, hrun, ht⟩ := hset false .sum
    exact ⟨ni', t, hrun, by rw [ht]; rfl⟩
  · obtain ⟨ni', t, hrun, ht⟩ := hset true .average
    exact ⟨ni', t, hrun, by rw [ht]; rfl⟩

/-- **Sum and Average are exact** as long as the total of the elements up to the limit is not
negative, and within the range of the counter. The conversion of integers to doubles is that
of `size_t` on natural numbers. -/
theorem sum_average_exact_iff (hI : I.Tracks V S) (hst : Steady V S) (hs : s.Open)
    (hV : V ni s l) (hkeys : qn.responseKeys = key :: keys)
    (hzs : CarryIntegers s.db el (stringID key) l zs) (doubleOfInt : ℤ → Double)
    (hdouble : ∀ n : ℕ, doubleOfInt n = doubleOfNat n) :
    (AnswersWith I el ni { qn with rType := .sum } s (sumAnswer (qn.cut zs).sum) ∧
      AnswersWith I el ni { qn with rType := .average } s
        (averageAnswer (meanOf (doubleOfInt (qn.cut zs).sum) (qn.cut zs).length))) ↔
      0 ≤ (qn.cut zs).sum ∧ (qn.cut zs).sum < 2 ^ 64 := by
  obtain ⟨hsum, hmean⟩ := resultOf_integers_runs hI hst hs hV hkeys hzs
  rw [← toUInt64_eq_self_iff]
  constructor
  · rintro ⟨h, -⟩
    have heq := h.unique hsum
    simp only [sumAnswer, Json.object.injEq, List.cons.injEq, Prod.mk.injEq, Json.int.injEq]
      at heq
    exact heq.2.1.2.symm
  · intro h
    rw [h] at hsum
    rw [← hdouble, h] at hmean
    exact ⟨hsum, hmean⟩

end Quiet

end

/-! ### Two nodes -/

/-- A graph whose nodes have an age each. -/
def agedGraph (zs : List ℤ) : Graph where
  nodes := zs.map fun z => some ⟨1, fun k => if k = internChars "age".toList then
    some (.integer z) else none⟩
  edges := []

/-- A cached reference to the first nodes. -/
def firstNodes (n : ℕ) : ReusableNodeIterator := ⟨none, [], List.range n⟩

/-- The results ask for the age. -/
def ageResult : ResultInfo := { responseKeys := ["age"] }

/-- The doubles 2 and 3. -/
def smallDouble (n : ℕ) : Double :=
  ⟨if n = 2 then 0x4000000000000000 else if n = 3 then 0x4008000000000000 else 0⟩

/-- Three halves. -/
def oneAndAHalf : Double := ⟨0x3FF8000000000000⟩

/-- The table scan with the doubles 2 and 3 and their quotient. -/
abbrev doubleScan : Platform :=
  { tableScan with
    doubleOfNat := smallDouble
    doubleDiv := fun x y => if x = smallDouble 3 ∧ y = smallDouble 2 then oneAndAHalf else ⟨0⟩ }

theorem doubleScan_quiet : @Platform.Quiet doubleScan :=
  @Platform.Quiet.mk doubleScan fun _ _ _ h => if_pos h

/-- The iterator over a cached reference. -/
abbrev cachedIter (P : Platform) : Iter Handler PMGDException ReusableNodeIterator NodeID :=
  @ReusableIterator.iter _ _ (@SearchIterator.iter P)

theorem firstNodes_view (P : Platform) (n : ℕ) (s : Handler) : ∃ past,
    View (@SearchIterator.InView P) (firstNodes n) s past (List.range n) ∧
      past ++ List.range n = List.range n :=
  ⟨[], ⟨rfl, [], rfl, by simp [firstNodes], fun _ => rfl⟩, rfl⟩

/-- The ages 5 and -2. -/
theorem sum_average_exact_iff_two_nodes :
    @AnswersWith doubleScan _ _ (cachedIter doubleScan) Element.node (firstNodes 2)
        { ageResult with rType := .sum } (.inTransaction (agedGraph [5, -2])) (sumAnswer 3) ∧
      @AnswersWith doubleScan _ _ (cachedIter doubleScan) Element.node (firstNodes 2)
        { ageResult with rType := .average } (.inTransaction (agedGraph [5, -2]))
        (averageAnswer oneAndAHalf) := by
  have hmean : @meanOf doubleScan (smallDouble 3) 2 = oneAndAHalf := by decide +kernel
  rw [← hmean]
  exact (@sum_average_exact_iff doubleScan doubleScan_quiet _ _ _ _ _ Element.node
    (firstNodes 2) ageResult (.inTransaction (agedGraph [5, -2])) (List.range 2) [5, -2] "age" []
    (@ReusableIterator.tracks _ _ _ _ _ (@SearchIterator.tracks doubleScan doubleScan_quiet) _)
    (@ReusableIterator.steady _ _ _ _ (@SearchIterator.steady doubleScan) _) rfl
    (firstNodes_view doubleScan 2 _) rfl rfl (fun z => smallDouble z.toNat) (fun n => rfl)).2
    ⟨by decide, by decide⟩

/-- The age -5 is answered as `2 ^ 64 - 5`. -/
theorem negative_sum_not_exact :
    ¬ AnswersWith (cachedIter tableScan) Element.node (firstNodes 1)
      { ageResult with rType := .sum } (.inTransaction (agedGraph [-5])) (sumAnswer (-5)) := by
  have hcarry : CarryIntegers (agedGraph [-5]) Element.node (stringID "age") (List.range 1)
      [-5] := rfl
  have hsum : AnswersWith (cachedIter tableScan) Element.node (firstNodes 1)
      { ageResult with rType := .sum } (.inTransaction (agedGraph [-5]))
      (sumAnswer (toUInt64 (ageResult.cut [-5]).sum)) :=
    (resultOf_integers_runs (s := .inTransaction (agedGraph [-5]))
      (ReusableIterator.tracks SearchIterator.tracks (List.range 1))
      (ReusableIterator.steady SearchIterator.steady (List.range 1)) rfl
      (firstNodes_view tableScan 1 _) rfl hcarry).1
  intro h
  have heq := h.unique hsum
  simp only [sumAnswer, Json.object.injEq, List.cons.injEq, Prod.mk.injEq, Json.int.injEq] at heq
  exact absurd heq.2.1.2 (by decide)

end Vdms
