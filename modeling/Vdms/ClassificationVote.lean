import Mathlib.Data.List.Induction
import Vdms.TDBSets
import Vdms.Imp.FirstToLead

/-!
# The Vote of a Classification

The four classes of descriptor sets classify a descriptor by the labels of its neighbors, in
the same loop. Three of them look a label up with `std::vector::at`, which throws where there
is none, and `TDBSparseDescriptorSet` takes the labels that its search returns. The label -1,
which a TileDB set gives to a descriptor added without one, is as good as any in the vote, and
as an answer means that no neighbor was found.

## Main results

* `vote_meets_iff`: when the vote of every class is right.
-/

namespace Vdms

namespace VCL

open Imp

/-- The classes that have a `classify`. -/
inductive VotingClass where
  | Faiss | Flinng | TDBDense | TDBSparse
deriving DecidableEq

/-- The `labels_aux` of `TDBSparseDescriptorSet::classify`: -1 where there is no neighbor, or
for a descriptor that was added without a label. -/
def labelsAux (label_ids ids : List Int64) : List Int64 :=
  ids.map fun idx => if idx < 0 then -1 else (vectorAt label_ids idx).getD (-1)

/-- The loop of `TDBSparseDescriptorSet::classify` over the neighbors of a descriptor. -/
def tallyAux : List (Int64 × Int64) → Vote → Vote
  | [], v => v
  | (idx, label_id) :: neighbors, v =>
    if idx < 0 then tallyAux neighbors v else tallyAux neighbors (v.add label_id)

/-- What `classify` answers for a descriptor with these neighbors; `none` is an exception. -/
def vote (label_ids ids : List Int64) : VotingClass → Option Int64
  | .Faiss | .Flinng | .TDBDense => (tally label_ids ids .start).map Vote.winner
  | .TDBSparse => some (tallyAux (ids.zip (labelsAux label_ids ids)) .start).winner

/-- The labels of the neighbors that were found, in their order. -/
def foundLabels (label_ids ids : List Int64) : List Int64 :=
  ids.filterMap fun idx => if idx < 0 then none else vectorAt label_ids idx

/-- Every neighbor that was found has a label. -/
def AllLabelled (label_ids ids : List Int64) : Prop :=
  ∀ idx ∈ ids, 0 ≤ idx → idx.toUInt64.toNat < label_ids.length

/-- The label is one with the most votes, or -1 exactly if there is no neighbor. -/
structure IsWinner (label_ids ids : List Int64) (label : Int64) : Prop where
  minus_one : label = -1 ↔ ∀ idx ∈ ids, idx < 0
  most : (∃ idx ∈ ids, 0 ≤ idx) →
    0 < (foundLabels label_ids ids).count label ∧
      ∀ l, (foundLabels label_ids ids).count l ≤ (foundLabels label_ids ids).count label

/-- Every class answers with a winner, and all with the same. -/
structure VoteMeets (label_ids ids : List Int64) : Prop where
  winner : ∀ e, ∃ label, vote label_ids ids e = some label ∧ IsWinner label_ids ids label
  agree : ∀ e e', vote label_ids ids e = vote label_ids ids e'

section Vote

variable {label_ids ids : List Int64} {v : Vote} {labels : List Int64}

theorem tally_eq_foldl (h : AllLabelled label_ids ids) :
    tally label_ids ids v = some ((foundLabels label_ids ids).foldl Vote.add v) := by
  induction ids generalizing v with
  | nil => rfl
  | cons idx ids ih =>
    have hrest : AllLabelled label_ids ids := fun i hi => h i (List.mem_cons_of_mem _ hi)
    rw [tally, foundLabels]
    by_cases hneg : idx < 0
    · rw [if_pos hneg, List.filterMap_cons_none (by rw [if_pos hneg])]
      exact ih hrest
    · have hlt := h idx List.mem_cons_self (Int64.not_lt.mp hneg)
      have hat : vectorAt label_ids idx = some (label_ids[idx.toUInt64.toNat]) :=
        List.getElem?_eq_getElem hlt
      rw [if_neg hneg, hat, List.filterMap_cons_some (by rw [if_neg hneg, hat])]
      exact ih hrest

theorem tallyAux_eq_foldl (h : AllLabelled label_ids ids) :
    tallyAux (ids.zip (labelsAux label_ids ids)) v =
      (foundLabels label_ids ids).foldl Vote.add v := by
  induction ids generalizing v with
  | nil => rfl
  | cons idx ids ih =>
    have hrest : AllLabelled label_ids ids := fun i hi => h i (List.mem_cons_of_mem _ hi)
    have hzip : (idx :: ids).zip (labelsAux label_ids (idx :: ids)) =
        (idx, if idx < 0 then -1 else (vectorAt label_ids idx).getD (-1)) ::
          ids.zip (labelsAux label_ids ids) := rfl
    rw [hzip, tallyAux, foundLabels]
    by_cases hneg : idx < 0
    · rw [if_pos hneg, List.filterMap_cons_none (by rw [if_pos hneg])]
      exact ih hrest
    · have hlt := h idx List.mem_cons_self (Int64.not_lt.mp hneg)
      have hat : vectorAt label_ids idx = some (label_ids[idx.toUInt64.toNat]) :=
        List.getElem?_eq_getElem hlt
      rw [if_neg hneg, if_neg hneg, hat, Option.getD_some,
        List.filterMap_cons_some (by rw [if_neg hneg, hat])]
      exact ih hrest

/-- The invariant of the loops: the counters are the numbers of votes, and the winner is the
first to lead. -/
structure Vote.Counts (labels : List Int64) (v : Vote) : Prop where
  count : ∀ l, v.count l = labels.count l
  max : ∀ l, labels.count l ≤ v.max
  winner : labels = [] ∧ v.winner = -1 ∧ v.max = 0 ∨ Leads labels v.winner v.max

theorem Vote.Counts.start : Vote.Counts [] .start :=
  ⟨fun _ => rfl, fun _ => le_rfl, .inl ⟨rfl, rfl, rfl⟩⟩

theorem Vote.Counts.add (h : Vote.Counts labels v) (label : Int64) :
    Vote.Counts (labels ++ [label]) (v.add label) := by
  have hcount : ∀ l, (v.add label).count l = (labels ++ [label]).count l := by
    intro l
    rw [List.count_append, List.count_singleton, Vote.add]
    by_cases hl : l = label
    · subst hl
      simp [h.count]
    · simp [Function.update_of_ne hl, h.count, Ne.symm hl]
  by_cases hlt : v.max < labels.count label + 1
  · have hlead : Leads (labels ++ [label]) label (labels.count label + 1) :=
      .concat_of_lt h.max hlt
    have hmax : (v.add label).max = labels.count label + 1 := by
      simp [Vote.add, h.count, hlt]
    have hwinner : (v.add label).winner = label := by
      simp [Vote.add, h.count, hlt]
    exact ⟨hcount, hmax ▸ hlead.most, .inr (by rwa [hmax, hwinner])⟩
  · have hmax : (v.add label).max = v.max := by
      simp [Vote.add, h.count, hlt]
    have hwinner : (v.add label).winner = v.winner := by
      simp [Vote.add, h.count, hlt]
    rcases h.winner with ⟨-, -, hzero⟩ | hleads
    · omega
    · have hlead := hleads.concat_of_le (c := label) (by omega)
      exact ⟨hcount, hmax ▸ hlead.most, .inr (by rwa [hmax, hwinner])⟩

theorem Vote.Counts.foldl (labels : List Int64) :
    Vote.Counts labels (labels.foldl Vote.add .start) := by
  induction labels using List.reverseRecOn with
  | nil => exact .start
  | append_singleton labels label ih =>
    rw [List.foldl_append]
    exact ih.add label

theorem foundLabels_eq_nil (h : AllLabelled label_ids ids) :
    foundLabels label_ids ids = [] ↔ ∀ idx ∈ ids, idx < 0 := by
  rw [foundLabels, List.filterMap_eq_nil_iff]
  refine forall₂_congr fun idx hidx => ?_
  by_cases hneg : idx < 0
  · simp [hneg]
  · have hlt := h idx hidx (Int64.not_lt.mp hneg)
    simp [hneg, vectorAt, hlt]

/-- What every class answers where all neighbors have labels. -/
theorem vote_eq (h : AllLabelled label_ids ids) (e : VotingClass) :
    vote label_ids ids e =
      some ((foundLabels label_ids ids).foldl Vote.add .start).winner := by
  cases e with
  | Faiss | Flinng | TDBDense => rw [vote, tally_eq_foldl h, Option.map_some]
  | TDBSparse => rw [vote, tallyAux_eq_foldl h]

/-- The answer is a winner, unless that is the label -1. -/
theorem isWinner_iff (h : AllLabelled label_ids ids) :
    IsWinner label_ids ids ((foundLabels label_ids ids).foldl Vote.add .start).winner ↔
      ∀ m, ¬ Leads (foundLabels label_ids ids) (-1) m := by
  have hcounts := Vote.Counts.foldl (foundLabels label_ids ids)
  rcases hcounts.winner with ⟨hnil, hwinner, -⟩ | hleads
  · have hnone := (foundLabels_eq_nil h).1 hnil
    rw [hwinner]
    constructor
    · exact fun _ m hlead => hlead.ne_nil hnil
    · refine fun _ => ⟨iff_of_true rfl hnone, ?_⟩
      rintro ⟨idx, hidx, hpos⟩
      exact absurd (hnone idx hidx) (Int64.not_lt.mpr hpos)
  · have hsome : ¬ ∀ idx ∈ ids, idx < 0 :=
      fun hnone => hleads.ne_nil ((foundLabels_eq_nil h).2 hnone)
    constructor
    · intro hwin m hlead
      exact hsome (hwin.minus_one.1 (hleads.unique hlead))
    · intro hne
      refine ⟨iff_of_false (fun heq => hne _ (heq ▸ hleads)) hsome, fun _ => ?_⟩
      rw [hleads.count_eq]
      exact ⟨hleads.pos, hleads.most⟩

/-- The vote of every class is right exactly if every neighbor has a label and -1 is not the
first label to lead. -/
theorem vote_meets_iff :
    VoteMeets label_ids ids ↔
      AllLabelled label_ids ids ∧ ∀ m, ¬ Leads (foundLabels label_ids ids) (-1) m := by
  constructor
  · intro h
    have hlabelled : AllLabelled label_ids ids := by
      intro idx hidx hpos
      obtain ⟨label, hvote, -⟩ := h.winner .Faiss
      by_contra hge
      have hnone : tally label_ids ids .start = none :=
        tally_eq_none.2 ⟨idx, hidx, hpos, Nat.not_lt.mp hge⟩
      rw [vote, hnone] at hvote
      cases hvote
    obtain ⟨label, hvote, hwinner⟩ := h.winner .Faiss
    rw [vote_eq hlabelled, Option.some.injEq] at hvote
    rw [← hvote] at hwinner
    exact ⟨hlabelled, (isWinner_iff hlabelled).1 hwinner⟩
  · rintro ⟨hlabelled, hne⟩
    exact ⟨fun e => ⟨_, vote_eq hlabelled e, (isWinner_iff hlabelled).2 hne⟩,
      fun e e' => (vote_eq hlabelled e).trans (vote_eq hlabelled e').symm⟩

/-- A neighbor without a label ends three of the votes with an exception and gets the fourth to
answer -1. So does a neighbor whose label is -1, in all of the votes. -/
theorem vote_of_unlabelled :
    vote [] [0] .Faiss = none ∧ vote [] [0] .TDBSparse = some (-1) ∧ ¬ VoteMeets [] [0] ∧
      (∀ e, vote [-1, 5] [0, 1] e = some (-1)) ∧ ¬ VoteMeets [-1, 5] [0, 1] := by
  refine ⟨by decide, by decide, fun h => ?_, fun e => by cases e <;> decide, fun h => ?_⟩
  · obtain ⟨label, hvote, -⟩ := h.winner .Faiss
    cases hvote
  · obtain ⟨label, hvote, hwinner⟩ := h.winner .Faiss
    have hminus : vote [-1, 5] [0, 1] .Faiss = some (-1) := by decide
    rw [hminus, Option.some.injEq] at hvote
    exact absurd (hwinner.minus_one.1 hvote.symm 0 (by simp)) (by decide)

end Vote

end VCL

end Vdms
