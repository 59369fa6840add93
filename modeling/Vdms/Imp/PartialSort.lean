import Mathlib.Data.Nat.Notation
import Mathlib.Order.Defs.LinearOrder
import Mathlib.Data.List.Sort

/-!
# Partial Sorts

A partial sort puts the `k` elements with the least keys in front, in the order of their keys.
Elements with equal keys come in any order, and where the last of them ties with others it is
open which are in front: a partial sort is a relation. The keys in front are determined.

## Main results

* `IsPartialSort.keys_unique`: the keys in front do not depend on the partial sort.
* `IsPartialSort.le_iff_countP`: the keys in front are bounded by `c` if enough keys are.
* `IsPartialSort.of_filter_iff`: a partial sort of a part is one of the whole exactly if no
  element outside of the part is before one in front.
-/

namespace Imp

variable {α β κ : Type} [LinearOrder κ] {key : α → κ} {k : ℕ} {xs xs' ys ys' : List α}

/-- `ys` is what a partial sort of `xs` puts in the first `k` places. -/
structure IsPartialSort (key : α → κ) (k : ℕ) (xs ys : List α) : Prop where
  length : ys.length = k
  sorted : ys.Pairwise fun a b => key a ≤ key b
  rest : ∃ zs, (ys ++ zs).Perm xs ∧ ∀ y ∈ ys, ∀ z ∈ zs, key y ≤ key z

namespace IsPartialSort

theorem subset (h : IsPartialSort key k xs ys) : ys ⊆ xs := by
  obtain ⟨zs, hperm, -⟩ := h.rest
  exact fun y hy => hperm.subset (List.mem_append_left zs hy)

theorem of_perm (h : IsPartialSort key k xs ys) (hperm : xs.Perm xs') :
    IsPartialSort key k xs' ys := by
  obtain ⟨zs, hzs, hle⟩ := h.rest
  exact ⟨h.length, h.sorted, zs, hzs.trans hperm, hle⟩

/-- The rest can be sorted too. -/
theorem exists_sorted (h : IsPartialSort key k xs ys) :
    ∃ zs, (ys ++ zs).Perm xs ∧ (ys ++ zs).Pairwise fun a b => key a ≤ key b := by
  obtain ⟨zs, hperm, hle⟩ := h.rest
  let le : α → α → Bool := fun a b => decide (key a ≤ key b)
  have htrans (a b c : α) (hab : le a b = true) (hbc : le b c = true) : le a c = true :=
    decide_eq_true ((of_decide_eq_true hab).trans (of_decide_eq_true hbc))
  have htotal (a b : α) : (le a b || le b a) = true := by
    simpa [le] using le_total (key a) (key b)
  have hsort := List.pairwise_mergeSort htrans htotal zs
  refine ⟨zs.mergeSort le, ((List.mergeSort_perm zs le).append_left ys).trans hperm, ?_⟩
  refine List.pairwise_append.mpr ⟨h.sorted, hsort.imp of_decide_eq_true, fun y hy z hz => ?_⟩
  exact hle y hy z (List.mem_mergeSort.mp hz)

/-- The keys in front are the first of the sorted keys. -/
theorem keys_unique (h : IsPartialSort key k xs ys) (h' : IsPartialSort key k xs' ys')
    (hperm : xs.Perm xs') : ys.map key = ys'.map key := by
  obtain ⟨zs, hzs, hsorted⟩ := h.exists_sorted
  obtain ⟨zs', hzs', hsorted'⟩ := h'.exists_sorted
  have hleft : ((ys ++ zs).map key).Pairwise (· ≤ ·) := List.pairwise_map.mpr hsorted
  have hright : ((ys' ++ zs').map key).Pairwise (· ≤ ·) := List.pairwise_map.mpr hsorted'
  have hkeys : (ys ++ zs).map key = (ys' ++ zs').map key :=
    List.Perm.eq_of_pairwise (fun a b _ _ => le_antisymm) hleft hright
      (((hzs.trans hperm).trans hzs'.symm).map key)
  rw [List.map_append, List.map_append] at hkeys
  have hlen : (ys.map key).length = (ys'.map key).length := by
    rw [List.length_map, List.length_map, h.length, h'.length]
  exact (List.append_inj hkeys hlen).1

/-- The keys in front are at most `c` if and only if at least `k` of all keys are. -/
theorem le_iff_countP (h : IsPartialSort key k xs ys) (c : κ) :
    (∀ y ∈ ys, key y ≤ c) ↔ k ≤ xs.countP fun x => decide (key x ≤ c) := by
  obtain ⟨zs, hperm, hle⟩ := h.rest
  rw [← hperm.countP_eq, List.countP_append]
  constructor
  · intro hys
    have hall : ys.countP (fun x => decide (key x ≤ c)) = ys.length :=
      List.countP_eq_length.mpr fun y hy => decide_eq_true (hys y hy)
    have hlen := h.length
    omega
  · intro hcount y hy
    by_contra hgt
    have hzs : zs.countP (fun x => decide (key x ≤ c)) = 0 := by
      refine List.countP_eq_zero.mpr fun z hz hzc => hgt ?_
      exact (hle y hy z hz).trans (of_decide_eq_true hzc)
    have hys : ys.countP (fun x => decide (key x ≤ c)) ≠ ys.length := fun hall =>
      hgt (of_decide_eq_true (List.countP_eq_length.mp hall y hy))
    have hbound := List.countP_le_length (p := fun x => decide (key x ≤ c)) (l := ys)
    have hlen := h.length
    omega

/-- Sorting by the places in a list is sorting the list. -/
theorem map {f : α → β} {g : β → κ} (hkey : ∀ x ∈ xs, g (f x) = key x)
    (h : IsPartialSort key k xs ys) : IsPartialSort g k (xs.map f) (ys.map f) := by
  obtain ⟨zs, hperm, hle⟩ := h.rest
  have hys : ∀ y ∈ ys, g (f y) = key y := fun y hy => hkey y (h.subset hy)
  have hzs : ∀ z ∈ zs, g (f z) = key z := fun z hz =>
    hkey z (hperm.subset (List.mem_append_right ys hz))
  refine ⟨by rw [List.length_map, h.length], ?_, zs.map f, ?_, ?_⟩
  · refine List.pairwise_map.mpr (h.sorted.imp_of_mem fun ha hb hab => ?_)
    rwa [hys _ ha, hys _ hb]
  · rw [← List.map_append]
    exact hperm.map f
  · intro y' hy' z' hz'
    obtain ⟨y, hy, rfl⟩ := List.mem_map.mp hy'
    obtain ⟨z, hz, rfl⟩ := List.mem_map.mp hz'
    rw [hys y hy, hzs z hz]
    exact hle y hy z hz

/-- Only elements in front have keys below the last key in front. -/
theorem countP_eq (h : IsPartialSort key k xs ys) {c : κ} {y : α} (hy : y ∈ ys)
    (hc : c < key y) :
    (xs.countP fun x => decide (key x ≤ c)) = ys.countP fun x => decide (key x ≤ c) := by
  obtain ⟨zs, hperm, hle⟩ := h.rest
  have hzs : zs.countP (fun x => decide (key x ≤ c)) = 0 := by
    refine List.countP_eq_zero.mpr fun z hz hzc => ?_
    exact absurd (of_decide_eq_true hzc) (not_le.mpr (hc.trans_le (hle y hy z hz)))
  rw [← hperm.countP_eq, List.countP_append, hzs, Nat.add_zero]

/-- A partial sort of a part is one of the whole, as far as `f` tells elements apart, exactly if
no element outside of the part is before one in front. -/
theorem of_filter_iff {f : α → β} {g : β → κ} (hkey : ∀ x, g (f x) = key x)
    {p : α → Bool} (h : IsPartialSort key k (xs.filter p) ys) :
    IsPartialSort g k (xs.map f) (ys.map f) ↔
      ∀ x ∈ xs, p x = false → ∀ y ∈ ys, key y ≤ key x := by
  constructor
  · intro hwhole x hx hpx y hy
    by_contra hlt
    have hpart := h.countP_eq hy (not_le.mp hlt)
    have hall := hwhole.countP_eq (List.mem_map_of_mem hy) (c := key x)
      (by rw [hkey]; exact not_le.mp hlt)
    simp only [List.countP_map, Function.comp_def, hkey] at hall
    have hsplit := (List.filter_append_perm p xs).countP_eq fun z => decide (key z ≤ key x)
    have hout : 0 < (xs.filter fun z => !p z).countP fun z => decide (key z ≤ key x) :=
      List.countP_pos_iff.mpr ⟨x, List.mem_filter.mpr ⟨hx, by rw [hpx]; rfl⟩, by simp⟩
    rw [List.countP_append] at hsplit
    omega
  · intro hout
    obtain ⟨zs, hperm, hle⟩ := h.rest
    have hwhole : IsPartialSort key k xs ys := by
      refine ⟨h.length, h.sorted, zs ++ xs.filter fun x => !p x, ?_, fun y hy z hz => ?_⟩
      · rw [← List.append_assoc]
        exact (hperm.append_right _).trans (List.filter_append_perm p xs)
      · rcases List.mem_append.mp hz with hin | hin
        · exact hle y hy z hin
        · obtain ⟨hx, hpz⟩ := List.mem_filter.mp hin
          exact hout z hx (by simpa using hpz) y hy
    exact hwhole.map fun x _ => hkey x

/-- Sorting everything is a partial sort. -/
theorem of_insertionSort (key : α → κ) (hk : k ≤ xs.length) :
    IsPartialSort key k xs ((xs.insertionSort fun a b => key a ≤ key b).take k) := by
  have : Std.Total fun a b : α => key a ≤ key b := ⟨fun a b => le_total (key a) (key b)⟩
  have : IsTrans α fun a b => key a ≤ key b := ⟨fun _ _ _ => le_trans⟩
  let sorted := xs.insertionSort fun a b => key a ≤ key b
  have hperm : sorted.Perm xs := List.perm_insertionSort _ xs
  have hsorted : sorted.Pairwise fun a b => key a ≤ key b := List.pairwise_insertionSort _ xs
  rw [← List.take_append_drop k sorted] at hsorted hperm
  obtain ⟨hfront, -, hle⟩ := List.pairwise_append.mp hsorted
  have hlen : sorted.length = xs.length := List.length_insertionSort _ xs
  exact ⟨by simp [sorted, hlen, hk], hfront, sorted.drop k, hperm, hle⟩

end IsPartialSort

end Imp
