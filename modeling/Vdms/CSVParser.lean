import Mathlib.Data.List.Nodup
import Mathlib.Data.List.Perm.Subperm
import Mathlib.Data.List.Range
import Vdms.Imp.Threads

/-!
# The Rows of a CSV File

`CSVParser`, of the C++ client, makes a query of each row of a CSV file. The rows are shared
out among threads, each of which has a client of its own, and sends the queries of its rows in
order. Afterwards `parse` puts the responses of the threads together.

Every row is sent once, by one thread. But `parse` copies the responses of every thread to the
start of its result, over those of the threads before.

## Main definitions

* `parseCsvLines`: what a thread keeps of a response.
* `Step`: a thread goes through `parse_row` for its next row.
* `allResults`: how `parse` puts the responses together.

## Main results

* `rows_sent_once`: what has been sent, and by which thread, after any steps of the threads.
* `parse_ends`: every run goes on until all rows have been sent.
* `responses_overwritten`: the result of `parse`, position by position.
* `second_thread_overwrites`: two rows, two threads, and one response lost.
-/

namespace Vdms

namespace CSVParser

open Relation
open scoped List

/-! ### The rows of a thread -/

section Lines

variable (numLines numThreads : ℕ)

/-- `lines_per_thread` of `parse`. -/
def linesPerThread : ℕ := numLines / numThreads

/-- `start_line` of the thread `i`. -/
def startLine (i : ℕ) : ℕ := i * linesPerThread numLines numThreads

/-- `end_line` of the thread `i`. The last thread goes to the end. -/
def endLine (i : ℕ) : ℕ :=
  if i = numThreads - 1 then numLines - 1 else (i + 1) * linesPerThread numLines numThreads

variable {numLines numThreads} {i j k : ℕ}

theorem mul_linesPerThread_le : numThreads * linesPerThread numLines numThreads ≤ numLines :=
  Nat.mul_div_le numLines numThreads

theorem startLine_succ : startLine numLines numThreads (i + 1) =
    startLine numLines numThreads i + linesPerThread numLines numThreads := by
  simp only [startLine, Nat.succ_mul]

theorem endLine_of_lt (hi : i + 1 < numThreads) :
    endLine numLines numThreads i = startLine numLines numThreads (i + 1) := by
  rw [endLine, if_neg (by omega), startLine]

theorem endLine_last : endLine numLines numThreads (numThreads - 1) = numLines - 1 :=
  if_pos rfl

theorem startLine_mono (h : i ≤ j) :
    startLine numLines numThreads i ≤ startLine numLines numThreads j :=
  Nat.mul_le_mul_right _ h

/-- The last thread starts before the end, unless it has nothing to do. -/
theorem startLine_le (hi : i < numThreads) : startLine numLines numThreads i ≤ numLines - 1 := by
  rcases Nat.eq_zero_or_pos (linesPerThread numLines numThreads) with hzero | hpos
  · simp only [startLine, hzero, Nat.mul_zero]
    omega
  · have hstart : startLine numLines numThreads (i + 1) ≤
        startLine numLines numThreads numThreads := startLine_mono hi
    rw [startLine_succ] at hstart
    have hall : startLine numLines numThreads numThreads ≤ numLines := mul_linesPerThread_le
    omega

theorem endLine_le (hi : i < numThreads) : endLine numLines numThreads i ≤ numLines - 1 := by
  by_cases hlast : i + 1 < numThreads
  · rw [endLine_of_lt hlast]
    exact startLine_le hlast
  · obtain rfl : i = numThreads - 1 := by omega
    rw [endLine_last]

theorem startLine_le_endLine (hi : i < numThreads) :
    startLine numLines numThreads i ≤ endLine numLines numThreads i := by
  by_cases hlast : i + 1 < numThreads
  · rw [endLine_of_lt hlast]
    exact startLine_mono (Nat.le_succ i)
  · obtain rfl : i = numThreads - 1 := by omega
    rw [endLine_last]
    exact startLine_le hi

/-- The line is one of the thread. -/
def Has (numLines numThreads i line : ℕ) : Prop :=
  startLine numLines numThreads i ≤ line ∧ line < endLine numLines numThreads i

instance (line : ℕ) : Decidable (Has numLines numThreads i line) :=
  inferInstanceAs (Decidable (_ ∧ _))

/-- No line is one of two threads. -/
theorem Has.unique {line : ℕ} (hi : i < numThreads) (hj : j < numThreads)
    (h : Has numLines numThreads i line) (h' : Has numLines numThreads j line) : i = j := by
  obtain ⟨hstart, hend⟩ := h
  obtain ⟨hstart', hend'⟩ := h'
  rcases Nat.lt_trichotomy i j with hlt | rfl | hlt
  · have hle : startLine numLines numThreads (i + 1) ≤ startLine numLines numThreads j :=
      startLine_mono hlt
    rw [endLine_of_lt (by omega)] at hend
    omega
  · rfl
  · have hle : startLine numLines numThreads (j + 1) ≤ startLine numLines numThreads i :=
      startLine_mono hlt
    rw [endLine_of_lt (by omega)] at hend'
    omega

/-- Every line but the last is one of some thread. -/
theorem exists_has {line : ℕ} (hpos : 0 < numThreads) (hline : line < numLines - 1) :
    ∃ i < numThreads, Has numLines numThreads i line := by
  by_cases hlast : startLine numLines numThreads (numThreads - 1) ≤ line
  · exact ⟨numThreads - 1, by omega, hlast, endLine_last.symm ▸ hline⟩
  · have hlt : line / linesPerThread numLines numThreads < numThreads - 1 := by
      refine Nat.div_lt_of_lt_mul ?_
      rw [Nat.mul_comm]
      exact Nat.lt_of_not_le hlast
    have hpart : 0 < linesPerThread numLines numThreads := by
      refine Nat.pos_of_ne_zero fun hzero => hlast ?_
      simp only [startLine, hzero, Nat.mul_zero, Nat.zero_le]
    refine ⟨_, by omega, Nat.div_mul_le_self _ _, ?_⟩
    rw [endLine_of_lt (by omega), startLine, Nat.mul_comm]
    exact Nat.lt_mul_div_succ line hpart

end Lines

/-! ### The threads -/

section Threads

variable {Response : Type} [Inhabited Response]

/-- `resize(n)` of a vector of responses. -/
def resize (n : ℕ) (results : List Response) : List Response :=
  results.take n ++ List.replicate (n - results.length) default

/-- The part of the loop of `parse_csv_lines` after `parse_row`: the response is kept at the
position `j` of the local results. -/
def parseCsvLines (localResults : List Response) (j : ℕ) (result : Response) : List Response :=
  let resized :=
    if localResults.isEmpty then resize 1 localResults
    else if localResults.length ≤ j then resize (j + 1) localResults
    else localResults
  resized.set j result

/-- A position behind the end is added. -/
theorem parseCsvLines_length (localResults : List Response) (result : Response) :
    parseCsvLines localResults localResults.length result = localResults ++ [result] := by
  cases localResults with
  | nil => rfl
  | cons first rest =>
      have hresize : resize ((first :: rest).length + 1) (first :: rest) =
          first :: rest ++ [default] := by
        rw [resize, List.take_of_length_le (Nat.le_succ _), Nat.add_sub_cancel_left]
        rfl
      simp only [parseCsvLines, List.isEmpty_cons, Bool.false_eq_true, if_false, le_refl, if_true]
      rw [hresize, List.set_append_right _ _ le_rfl, Nat.sub_self]
      rfl

/-- A thread in `parse_csv_lines`. -/
structure LineThread (Response : Type) where
  /-- The next line. -/
  i : ℕ
  localResults : List Response

/-- The program while its threads run. -/
structure Parsing (σ Response : Type) where
  /-- The server, and whatever else `parse_row` depends on. -/
  server : σ
  threads : ℕ → LineThread Response
  /-- The responses so far, each with its line. -/
  answers : List (Response × ℕ)

variable {σ Row : Type}

/-- The program that has started the threads. -/
def start (numLines numThreads : ℕ) (server : σ) : Parsing σ Response where
  server := server
  threads k := ⟨startLine numLines numThreads k, []⟩
  answers := []

variable (rows : List Row) (parseRow : σ → Row → Response → σ → Prop) (numLines numThreads : ℕ)

/-- A thread sends the query of its next row, and keeps the response. An exception, such as
that of `GetRow` for a row that is not there, ends the program: there is no step. -/
inductive Step (s : Parsing σ Response) : Parsing σ Response → Prop
  | row {k : ℕ} {row : Row} {result : Response} {server : σ} : k < numThreads →
      (s.threads k).i < endLine numLines numThreads k → rows[(s.threads k).i]? = some row →
      parseRow s.server row result server →
      Step s
        { server
          threads := Function.update s.threads k
            { i := (s.threads k).i + 1
              localResults := parseCsvLines (s.threads k).localResults
                ((s.threads k).i - startLine numLines numThreads k) result }
          answers := s.answers ++ [(result, (s.threads k).i)] }

/-- The states of the program, whatever the order in which the threads go on. -/
def Reachable (server : σ) : Parsing σ Response → Prop :=
  ReflTransGen (Step rows parseRow numLines numThreads) (start numLines numThreads server)

/-- All threads have ended. -/
def Parsing.Joined (s : Parsing σ Response) : Prop :=
  ∀ k < numThreads, endLine numLines numThreads k ≤ (s.threads k).i

/-! ### What the threads have done -/

/-- The thread has sent the rows from its first one on, and has kept their responses, in
order. -/
structure ThreadInv (s : Parsing σ Response) (k : ℕ) : Prop where
  next : (s.threads k).i =
    startLine numLines numThreads k + (s.threads k).localResults.length
  bound : (s.threads k).i ≤ endLine numLines numThreads k
  answers : s.answers.filter (fun p => Has numLines numThreads k p.2) =
    (s.threads k).localResults.zipIdx (startLine numLines numThreads k)

/-- What holds in every state. -/
structure Inv (s : Parsing σ Response) : Prop where
  threads : ∀ k < numThreads, ThreadInv numLines numThreads s k
  known : ∀ p ∈ s.answers, ∃ k < numThreads, Has numLines numThreads k p.2
  nodup : (s.answers.map Prod.snd).Nodup
  rows : ∀ p ∈ s.answers, (rows[p.2]?).isSome

variable {rows parseRow numLines numThreads} {s t : Parsing σ Response} {server : σ}

omit [Inhabited Response] in
theorem Inv.start : Inv rows numLines numThreads (start numLines numThreads server :
    Parsing σ Response) where
  threads _ hk := ⟨rfl, startLine_le_endLine hk, rfl⟩
  known _ hp := absurd hp List.not_mem_nil
  nodup := List.nodup_nil
  rows _ hp := absurd hp List.not_mem_nil

omit [Inhabited Response] in
/-- The lines that a thread has sent are those before its next one. -/
theorem ThreadInv.lt_next {k : ℕ} {p : Response × ℕ} (h : ThreadInv numLines numThreads s k)
    (hp : p ∈ s.answers) (hhas : Has numLines numThreads k p.2) : p.2 < (s.threads k).i := by
  have hmem : p ∈ (s.threads k).localResults.zipIdx (startLine numLines numThreads k) := by
    rw [← h.answers]
    exact List.mem_filter.2 ⟨hp, decide_eq_true hhas⟩
  have hlt := (List.mem_zipIdx hmem).2.1
  rw [h.next]
  exact hlt

/-- **One step.** -/
theorem Inv.step (h : Inv rows numLines numThreads s)
    (hstep : Step rows parseRow numLines numThreads s t) : Inv rows numLines numThreads t := by
  cases hstep with
  | @row k row result server hk hlt hrow _ =>
      have hthread := h.threads k hk
      have hhas : Has numLines numThreads k (s.threads k).i :=
        ⟨hthread.next ▸ Nat.le_add_right _ _, hlt⟩
      refine ⟨fun m hm => ?_, fun p hp => ?_, ?_, fun p hp => ?_⟩
      · by_cases hsame : m = k
        · -- The thread that has taken the step.
          subst hsame
          have hresults : parseCsvLines (s.threads m).localResults
              ((s.threads m).i - startLine numLines numThreads m) result =
              (s.threads m).localResults ++ [result] := by
            rw [hthread.next, Nat.add_sub_cancel_left, parseCsvLines_length]
          refine ⟨?_, ?_, ?_⟩
          · simp only [Function.update_self, hresults, List.length_append, List.length_singleton]
            rw [hthread.next, Nat.add_assoc]
          · simp only [Function.update_self]
            exact hlt
          · simp only [Function.update_self, hresults, List.filter_append, hthread.answers,
              List.zipIdx_append, List.filter_cons, List.filter_nil, hhas, decide_true, if_true]
            rw [hthread.next]
            rfl
        · have hnot : ¬ Has numLines numThreads m (s.threads k).i := fun hother =>
            hsame (hother.unique hm hk hhas)
          have hold := h.threads m hm
          refine ⟨?_, ?_, ?_⟩
          · simp only [Function.update_of_ne hsame]
            exact hold.next
          · simp only [Function.update_of_ne hsame]
            exact hold.bound
          · simp only [Function.update_of_ne hsame, List.filter_append, List.filter_cons,
              List.filter_nil, hnot, decide_false, Bool.false_eq_true, if_false, List.append_nil]
            exact hold.answers
      · rcases List.mem_append.1 hp with hp | hp
        · exact h.known p hp
        · obtain rfl := List.mem_singleton.1 hp
          exact ⟨k, hk, hhas⟩
      · rw [List.map_append, List.map_singleton]
        refine List.nodup_append.2 ⟨h.nodup, List.nodup_singleton _, fun a ha b hb hab => ?_⟩
        obtain rfl := List.mem_singleton.1 hb
        obtain ⟨p, hp, hpa⟩ := List.mem_map.1 ha
        have hline : p.2 = (s.threads k).i := hpa.trans hab
        have hbefore := hthread.lt_next hp (hline ▸ hhas)
        omega
      · rcases List.mem_append.1 hp with hp | hp
        · exact h.rows p hp
        · obtain rfl := List.mem_singleton.1 hp
          simp only [hrow, Option.isSome_some]

theorem Reachable.inv (h : Reachable rows parseRow numLines numThreads server s) :
    Inv rows numLines numThreads s := by
  induction h with
  | refl => exact .start
  | tail _ hstep ih => exact ih.step hstep

/-- **Every row is sent once.** In every interleaving of the threads: no line is sent twice,
and only lines of some thread are sent, each with its row; every thread has sent its lines in
order, from its first one on, without a gap, and has kept exactly their responses. When all
threads have ended, all lines but the last have been sent. -/
theorem rows_sent_once (hpos : 0 < numThreads)
    (h : Reachable rows parseRow numLines numThreads server s) :
    (s.answers.map Prod.snd).Nodup ∧
      (∀ p ∈ s.answers, p.2 < numLines - 1 ∧ p.2 < rows.length) ∧
      (∀ k < numThreads, s.answers.filter (fun p => Has numLines numThreads k p.2) =
        (s.threads k).localResults.zipIdx (startLine numLines numThreads k)) ∧
      (s.Joined numLines numThreads →
        s.answers.map Prod.snd ~ List.range (numLines - 1)) := by
  have hinv := h.inv
  have hlines : ∀ p ∈ s.answers, p.2 < numLines - 1 := fun p hp => by
    obtain ⟨k, hk, -, hend⟩ := hinv.known p hp
    exact Nat.lt_of_lt_of_le hend (endLine_le hk)
  refine ⟨hinv.nodup, fun p hp => ⟨hlines p hp, ?_⟩, fun k hk => (hinv.threads k hk).answers,
    fun hjoined => (List.perm_ext_iff_of_nodup hinv.nodup List.nodup_range).2 fun line => ?_⟩
  · by_contra hlong
    have hrow := hinv.rows p hp
    rw [List.getElem?_eq_none (Nat.le_of_not_lt hlong)] at hrow
    cases hrow
  · rw [List.mem_range]
    constructor
    · rintro hline
      obtain ⟨p, hp, rfl⟩ := List.mem_map.1 hline
      exact hlines p hp
    · intro hline
      obtain ⟨k, hk, hstart, hend⟩ := exists_has hpos hline
      have hthread := hinv.threads k hk
      have hall := hjoined k hk
      rw [hthread.next] at hall
      -- The line is at its place in the local results of its thread.
      have hplace : line ∈ ((s.threads k).localResults.zipIdx
          (startLine numLines numThreads k)).map Prod.snd := by
        rw [List.zipIdx_map_snd, List.mem_range'_1]
        omega
      rw [← hthread.answers] at hplace
      obtain ⟨p, hp, rfl⟩ := List.mem_map.1 hplace
      exact List.mem_map.2 ⟨p, (List.mem_filter.1 hp).1, rfl⟩

omit [Inhabited Response] in
/-- The lines that have been sent are at most all but the last. -/
theorem Inv.length_le (h : Inv rows numLines numThreads s) :
    s.answers.length ≤ numLines - 1 := by
  have hsub : s.answers.map Prod.snd ⊆ List.range (numLines - 1) := fun line hline => by
    obtain ⟨p, hp, rfl⟩ := List.mem_map.1 hline
    obtain ⟨k, hk, -, hend⟩ := h.known p hp
    exact List.mem_range.2 (Nat.lt_of_lt_of_le hend (endLine_le hk))
  have hle := (List.subperm_of_subset h.nodup hsub).length_le
  rwa [List.length_map, List.length_range] at hle

/-- **The threads end.** If the file has the rows, and `parse_row` returns, then every run ends
with all threads joined. -/
theorem parse_ends (hpos : 0 < numThreads) (hrows : numLines - 1 ≤ rows.length)
    (hreturns : ∀ server row, ∃ result server', parseRow server row result server')
    (h : Reachable rows parseRow numLines numThreads server s) :
    Imp.Pipe.Inevitable (Step rows parseRow numLines numThreads)
      (fun t => t.Joined numLines numThreads ∧
        t.answers.map Prod.snd ~ List.range (numLines - 1)) s := by
  refine .of_measure (Reachable rows parseRow numLines numThreads server)
    (fun t => numLines - 1 - t.answers.length) (fun _ _ ht hstep => ht.tail hstep)
    (fun t u ht hstep => ?_) (fun t ht => ?_) h
  · have hle := (ht.inv.step hstep).length_le
    cases hstep with
    | row _ _ _ _ =>
        simp only [List.length_append, List.length_singleton] at hle ⊢
        omega
  · by_cases hjoined : t.Joined numLines numThreads
    · exact .inl ⟨hjoined, (rows_sent_once hpos ht).2.2.2 hjoined⟩
    · simp only [Parsing.Joined, not_forall, Nat.not_le] at hjoined
      obtain ⟨k, hk, hlt⟩ := hjoined
      have hrow : (t.threads k).i < rows.length :=
        Nat.lt_of_lt_of_le hlt ((endLine_le hk).trans hrows)
      obtain ⟨result, server', hresult⟩ := hreturns t.server (rows.get ⟨_, hrow⟩)
      exact .inr ⟨_, .row hk hlt (List.getElem?_eq_getElem hrow) hresult⟩

/-! ### The result -/

/-- `std::copy` of a vector into another one, from the position `pos` on. -/
def copyTo (pos : ℕ) (source target : List Response) : List Response :=
  target.take pos ++ source ++ target.drop (pos + source.length)

/-- How `parse` puts the local results together. The position is that before the loop. -/
def allResults (allLocalResults : List (List Response)) : List Response :=
  let allResultsSizeBefore := ([] : List Response).length
  allLocalResults.foldl (fun all localResults =>
    copyTo allResultsSizeBefore localResults (resize (all.length + localResults.length) all)) []

/-- What `parse` returns when the threads have been joined. -/
def parse (numThreads : ℕ) (s : Parsing σ Response) : List Response :=
  allResults ((List.range numThreads).map fun k => (s.threads k).localResults)

theorem resize_add (n : ℕ) (results : List Response) :
    resize (results.length + n) results = results ++ List.replicate n default := by
  rw [resize, List.take_of_length_le (Nat.le_add_right _ _), Nat.add_sub_cancel_left]

/-- The last local results are in front of what is left of the others. -/
theorem allResults_concat (before : List (List Response)) (last : List Response) :
    allResults (before ++ [last]) =
      last ++ (allResults before ++ List.replicate last.length default).drop last.length := by
  simp only [allResults, List.foldl_append, List.foldl_cons, List.foldl_nil, copyTo, resize_add,
    List.length_nil, List.take_zero, List.nil_append, Nat.zero_add]

/-- Of local results of one length, the last ones are left. -/
theorem allResults_of_length {before : List (List Response)} {last : List Response}
    (hbefore : ∀ results ∈ before, results.length = last.length) :
    allResults (before ++ [last]) =
      last ++ List.replicate (before.length * last.length) default := by
  induction before using List.reverseRecOn generalizing last with
  | nil =>
      rw [allResults_concat]
      simp only [allResults, List.foldl_nil, List.nil_append, List.drop_replicate, Nat.sub_self,
        List.length_nil, Nat.zero_mul, List.replicate_zero]
  | append_singleton before results ih =>
      have hlength : results.length = last.length := hbefore results (by simp)
      rw [allResults_concat, ih fun other hother => (hbefore other (by simp [hother])).trans
        hlength.symm, List.append_assoc, ← hlength, List.drop_left, ← List.replicate_add]
      simp only [List.length_append, List.length_singleton, Nat.add_mul, Nat.one_mul]

/-- What the last local results leave of others of one length. -/
theorem allResults_twice {before : List (List Response)} {kept : List Response}
    (last : List Response) (hbefore : ∀ results ∈ before, results.length = kept.length) :
    allResults (before ++ [kept] ++ [last]) = last ++ (kept.drop last.length ++
      List.replicate (before.length * kept.length + min kept.length last.length) default) := by
  rw [allResults_concat, allResults_of_length hbefore, List.append_assoc, ← List.replicate_add,
    List.drop_append, List.drop_replicate]
  congr 4
  omega

/-- The responses in the order of the lines. -/
theorem exists_response (h : (s.answers.map Prod.snd).Nodup) :
    ∃ response : ℕ → Response, ∀ p ∈ s.answers, response p.2 = p.1 := by
  classical
  refine ⟨fun line => if hex : ∃ p ∈ s.answers, p.2 = line then hex.choose.1 else default,
    fun p hp => ?_⟩
  have hex : ∃ q ∈ s.answers, q.2 = p.2 := ⟨p, hp, rfl⟩
  have hsame : hex.choose = p :=
    List.inj_on_of_nodup_map h hex.choose_spec.1 hp hex.choose_spec.2
  simp only [dif_pos hex, hsame]

omit [Inhabited Response] in
/-- What a thread that has ended has kept. -/
theorem ThreadInv.localResults_eq {k : ℕ} {response : ℕ → Response}
    (h : ThreadInv numLines numThreads s k) (hresponse : ∀ p ∈ s.answers, response p.2 = p.1)
    (hend : endLine numLines numThreads k ≤ (s.threads k).i) :
    (s.threads k).localResults = (List.range' (startLine numLines numThreads k)
      (endLine numLines numThreads k - startLine numLines numThreads k)).map response := by
  have hlength : (s.threads k).localResults.length =
      endLine numLines numThreads k - startLine numLines numThreads k := by
    have hnext := h.next
    have hbound := h.bound
    omega
  calc (s.threads k).localResults
    _ = ((s.threads k).localResults.zipIdx (startLine numLines numThreads k)).map Prod.fst :=
        (List.zipIdx_map_fst _ _).symm
    _ = ((s.threads k).localResults.zipIdx (startLine numLines numThreads k)).map
          fun p => response p.2 := by
        refine List.map_congr_left fun p hp => ?_
        rw [← h.answers] at hp
        exact (hresponse p (List.mem_filter.1 hp).1).symm
    _ = _ := by
        rw [← hlength, ← List.zipIdx_map_snd, List.map_map]
        rfl

omit [Inhabited Response] in
/-- If the lines are shared out evenly, the last thread has one line less than the others.
Otherwise it has at least as many. -/
theorem linesPerThread_cases {n : ℕ} :
    ((n + 2 ≤ numLines ∧ n + 2 ∣ numLines) ∧ ∃ m, linesPerThread numLines (n + 2) = m + 1 ∧
      numLines - 1 - startLine numLines (n + 2) (n + 1) = m) ∨
    (¬ (n + 2 ≤ numLines ∧ n + 2 ∣ numLines) ∧ linesPerThread numLines (n + 2) ≤
      numLines - 1 - startLine numLines (n + 2) (n + 1)) := by
  have hsplit : (n + 2) * linesPerThread numLines (n + 2) + numLines % (n + 2) = numLines :=
    Nat.div_add_mod numLines (n + 2)
  have hfirst : (n + 2) * linesPerThread numLines (n + 2) =
      startLine numLines (n + 2) (n + 1) + linesPerThread numLines (n + 2) := by
    rw [startLine, ← Nat.succ_mul]
  by_cases hall : n + 2 ≤ numLines ∧ n + 2 ∣ numLines
  · refine .inl ⟨hall, ?_⟩
    have hpos : 0 < linesPerThread numLines (n + 2) := Nat.div_pos hall.1 (by omega)
    have hmod : numLines % (n + 2) = 0 := Nat.mod_eq_zero_of_dvd hall.2
    exact ⟨linesPerThread numLines (n + 2) - 1, by omega, by omega⟩
  · refine .inr ⟨hall, ?_⟩
    by_cases hshort : n + 2 ≤ numLines
    · have hmod : numLines % (n + 2) ≠ 0 := fun hzero =>
        hall ⟨hshort, Nat.dvd_of_mod_eq_zero hzero⟩
      omega
    · have hnone : linesPerThread numLines (n + 2) = 0 := Nat.div_eq_of_lt (by omega)
      omega

/-- The result of several threads. -/
theorem parse_several {n : ℕ} {response : ℕ → Response}
    (hlocal : ∀ k < n + 2, (s.threads k).localResults =
      (List.range' (startLine numLines (n + 2) k)
        (endLine numLines (n + 2) k - startLine numLines (n + 2) k)).map response) :
    parse (n + 2) s = (List.range' (startLine numLines (n + 2) (n + 1))
        (numLines - 1 - startLine numLines (n + 2) (n + 1))).map response ++
      if n + 2 ≤ numLines ∧ n + 2 ∣ numLines then
        response (startLine numLines (n + 2) (n + 1) - 1) ::
          List.replicate (startLine numLines (n + 2) (n + 1) - 1) default
      else List.replicate (startLine numLines (n + 2) (n + 1)) default := by
  have hbefore : ∀ k < n + 1, (s.threads k).localResults =
      (List.range' (startLine numLines (n + 2) k) (linesPerThread numLines (n + 2))).map
        response := fun k hk => by
    rw [hlocal k (by omega), endLine_of_lt (by omega), startLine_succ, Nat.add_sub_cancel_left]
  have hlast : (s.threads (n + 1)).localResults =
      (List.range' (startLine numLines (n + 2) (n + 1))
        (numLines - 1 - startLine numLines (n + 2) (n + 1))).map response := by
    rw [hlocal (n + 1) (by omega), show endLine numLines (n + 2) (n + 1) = numLines - 1 from
      endLine_last]
  have hparse : parse (n + 2) s = (s.threads (n + 1)).localResults ++
      ((s.threads n).localResults.drop (s.threads (n + 1)).localResults.length ++
        List.replicate (n * (s.threads n).localResults.length +
          min (s.threads n).localResults.length (s.threads (n + 1)).localResults.length)
            default) := by
    rw [parse, List.range_succ, List.range_succ, List.map_append, List.map_append,
      List.map_singleton, List.map_singleton, allResults_twice, List.length_map,
      List.length_range]
    intro results hresults
    obtain ⟨k, hk, rfl⟩ := List.mem_map.1 hresults
    have hkn : k < n := List.mem_range.1 hk
    simp only [hbefore k (by omega), hbefore n (by omega), List.length_map, List.length_range']
  have hfirst : startLine numLines (n + 2) (n + 1) =
      n * linesPerThread numLines (n + 2) + linesPerThread numLines (n + 2) := startLine_succ
  rw [hparse, hbefore n (by omega), hlast]
  simp only [List.length_map, List.length_range']
  refine congrArg (_ ++ ·) ?_
  rcases linesPerThread_cases with ⟨hall, m, hm, hleft⟩ | ⟨hall, hle⟩
  · -- The last line of the thread before is at a position behind those of the last thread.
    have hdrop : ((List.range' (startLine numLines (n + 2) n) (m + 1)).map response).drop m =
        [response (startLine numLines (n + 2) n + m)] := by
      rw [List.range'_concat, List.map_append, List.drop_left' (by simp), List.map_singleton,
        Nat.one_mul]
    have hprevious : startLine numLines (n + 2) n + m = startLine numLines (n + 2) (n + 1) - 1 := by
      rw [startLine_succ, hm]
      rfl
    have hrest : n * (m + 1) + m = startLine numLines (n + 2) (n + 1) - 1 := by
      rw [hfirst, hm]
      rfl
    rw [if_pos hall, hleft, hm, hdrop, hprevious, Nat.min_eq_right (Nat.le_succ m), hrest]
    rfl
  · rw [if_neg hall, List.drop_eq_nil_of_le (by simpa using hle), Nat.min_eq_left hle,
      List.nil_append, hfirst]

/-- **The result of `parse`.** In every interleaving of the threads: the result starts with the
responses to the lines of the last thread. The other positions have an empty response, except
that the last line before is left if every thread has equally many lines and there are several.
-/
theorem responses_overwritten (hpos : 0 < numThreads)
    (h : Reachable rows parseRow numLines numThreads server s)
    (hjoined : s.Joined numLines numThreads) :
    ∃ response : ℕ → Response,
      s.answers ~ (List.range (numLines - 1)).map (fun line => (response line, line)) ∧
      let first := startLine numLines numThreads (numThreads - 1)
      parse numThreads s = (List.range' first (numLines - 1 - first)).map response ++
        if 2 ≤ numThreads ∧ numThreads ≤ numLines ∧ numThreads ∣ numLines then
          response (first - 1) :: List.replicate (first - 1) default
        else List.replicate first default := by
  have hinv := h.inv
  obtain ⟨response, hresponse⟩ := exists_response hinv.nodup
  refine ⟨response, ?_, ?_⟩
  · have hanswers : s.answers = (s.answers.map Prod.snd).map fun line => (response line, line) := by
      rw [List.map_map]
      refine (List.map_id _).symm.trans (List.map_congr_left fun p hp => ?_)
      exact Prod.ext (hresponse p hp).symm rfl
    rw [hanswers]
    exact ((rows_sent_once hpos h).2.2.2 hjoined).map _
  have hlocal : ∀ k < numThreads, (s.threads k).localResults =
      (List.range' (startLine numLines numThreads k)
        (endLine numLines numThreads k - startLine numLines numThreads k)).map response :=
    fun k hk => (hinv.threads k hk).localResults_eq hresponse (hjoined k hk)
  have hown : (s.threads (numThreads - 1)).localResults =
      (List.range' (startLine numLines numThreads (numThreads - 1))
        (numLines - 1 - startLine numLines numThreads (numThreads - 1))).map response := by
    rw [hlocal _ (Nat.sub_lt hpos Nat.one_pos), endLine_last]
  cases numThreads with
  | zero => omega
  | succ n =>
      cases n with
      | zero =>
          -- One thread, whose results are all of them.
          have hfirst : startLine numLines 1 0 = 0 := Nat.zero_mul _
          have hone : parse 1 s = (s.threads 0).localResults := by
            rw [parse, List.range_one, List.map_singleton, ← List.nil_append [_],
              allResults_of_length fun _ hmem => absurd hmem List.not_mem_nil]
            simp only [List.length_nil, Nat.zero_mul, List.replicate_zero, List.append_nil]
          rw [Nat.zero_add, Nat.sub_self] at hown ⊢
          rw [hone, hown, hfirst]
          dsimp only
          rw [if_neg (by omega), List.replicate_zero, List.append_nil]
      | succ n =>
          have htwo : 2 ≤ n + 1 + 1 := Nat.le_add_left 2 n
          simp only [htwo, true_and]
          exact parse_several hlocal

end Threads

/-! ### Two rows and two threads -/

/-- A server that answers every row with its number. -/
def echo (_ : Unit) (row result : ℕ) (_ : Unit) : Prop := result = row

/-- **The first response is lost.** The first thread sends the first row, and the second one
the other. -/
theorem second_thread_overwrites : ∃ s : Parsing Unit ℕ, Reachable [10, 20] echo 3 2 () s ∧
    s.Joined 3 2 ∧ s.answers = [(10, 0), (20, 1)] ∧ parse 2 s = [20, 0] := by
  have hfirst : Reachable [10, 20] echo 3 2 () _ :=
    .single (@Step.row _ _ _ _ _ _ _ _ _ 0 10 10 () (by decide) (by decide) rfl rfl)
  have hsecond : Reachable [10, 20] echo 3 2 () _ :=
    hfirst.tail (@Step.row _ _ _ _ _ _ _ _ _ 1 20 20 () (by decide) (by decide) rfl rfl)
  refine ⟨_, hsecond, fun k hk => ?_, rfl, rfl⟩
  rcases Nat.lt_succ_iff_lt_or_eq.1 hk with hk | rfl
  · obtain rfl : k = 0 := by omega
    decide
  · decide

theorem rows_sent_once_two : ∃ s : Parsing Unit ℕ,
    s.answers.map Prod.snd ~ List.range 2 := by
  obtain ⟨s, hreach, hjoined, -⟩ := second_thread_overwrites
  exact ⟨s, (rows_sent_once (by decide) hreach).2.2.2 hjoined⟩

theorem parse_ends_two : Imp.Pipe.Inevitable (Step [10, 20] echo 3 2)
    (fun t => t.Joined 3 2 ∧ t.answers.map Prod.snd ~ List.range 2)
    (start 3 2 () : Parsing Unit ℕ) :=
  parse_ends (by decide) (by decide) (fun _ row => ⟨row, (), rfl⟩) .refl

theorem responses_overwritten_two : ∃ (s : Parsing Unit ℕ) (response : ℕ → ℕ),
    s.answers ~ [(response 0, 0), (response 1, 1)] ∧ parse 2 s = [response 1, default] := by
  obtain ⟨s, hreach, hjoined, -⟩ := second_thread_overwrites
  obtain ⟨response, hanswers, hparse⟩ := responses_overwritten (by decide) hreach hjoined
  exact ⟨s, response, hanswers, hparse⟩

end CSVParser

end Vdms
