import Vdms.QueryHandlerPMGD

/-!
# Sorted Objects

jsoncpp keeps the members of an object in the order of their keys. Setting a member keeps
the order, and an object is determined by what its members are.

## Main results

* `insertMember_ordered`, `Json.Ordered.setMember`, `Json.setMember_get`: what setting a member
  does.
* `SortedKeys.ext`: two objects with the same members are the same.
-/

namespace Vdms

/-- The keys are in order, and distinct. -/
def SortedKeys (ms : List (String × Json)) : Prop := (ms.map Prod.fst).Pairwise (· < ·)

theorem SortedKeys.cons {m : String × Json} {ms : List (String × Json)} :
    SortedKeys (m :: ms) ↔ (∀ m' ∈ ms, m.1 < m'.1) ∧ SortedKeys ms := by
  simp only [SortedKeys, List.map_cons, List.pairwise_cons, List.forall_mem_map]

namespace SortedKeys

variable {ms : List (String × Json)} {key : String} {v w : Json}

theorem single (key : String) (v : Json) : SortedKeys [(key, v)] := by simp [SortedKeys]

theorem filter (h : SortedKeys ms) (p : String × Json → Bool) : SortedKeys (ms.filter p) :=
  List.Pairwise.sublist (List.filter_sublist.map Prod.fst) h

/-- A key has one value. -/
theorem unique (h : SortedKeys ms) (hv : (key, v) ∈ ms) (hw : (key, w) ∈ ms) : v = w := by
  induction ms with
  | nil => cases hv
  | cons m ms ih =>
      obtain ⟨hafter, htail⟩ := SortedKeys.cons.1 h
      rcases List.mem_cons.1 hv with rfl | hv <;> rcases List.mem_cons.1 hw with heq | hw
      · injection heq with _ heq
        exact heq.symm
      · exact absurd (hafter _ hw) (String.lt_irrefl key)
      · exact absurd (hafter _ hv) (by rw [← heq]; exact String.lt_irrefl key)
      · exact ih htail hv hw

/-- Looking up a key finds its value. -/
theorem lookup_eq (h : SortedKeys ms) : ms.lookup key = some v ↔ (key, v) ∈ ms := by
  induction ms with
  | nil => simp
  | cons m ms ih =>
      obtain ⟨k, w⟩ := m
      obtain ⟨hafter, htail⟩ := SortedKeys.cons.1 h
      rw [List.mem_cons, ← ih htail, Prod.mk.injEq]
      by_cases hkey : key = k
      · subst hkey
        rw [List.lookup_cons_self, Option.some.injEq]
        refine ⟨fun heq => .inl ⟨rfl, heq.symm⟩, fun hor => ?_⟩
        rcases hor with ⟨-, heq⟩ | hmem
        · exact heq.symm
        · exact absurd (hafter _ ((ih htail).1 hmem)) (String.lt_irrefl key)
      · rw [List.lookup_cons, beq_false_of_ne hkey]
        simp [hkey]

theorem lookup_eq_none (h : SortedKeys ms) : ms.lookup key = none ↔ ∀ v, (key, v) ∉ ms := by
  rw [Option.eq_none_iff_forall_ne_some]
  exact forall_congr' fun v => not_congr h.lookup_eq

/-- Two objects with the same members are the same. -/
theorem ext {ms' : List (String × Json)} (h : SortedKeys ms) (h' : SortedKeys ms')
    (hmem : ∀ m, m ∈ ms ↔ m ∈ ms') : ms = ms' := by
  have hpair : ∀ {l : List (String × Json)}, SortedKeys l →
      l.Pairwise fun m m' => m.1 < m'.1 := fun hl => List.pairwise_map.1 hl
  have hnodup : ∀ {l : List (String × Json)}, SortedKeys l → l.Nodup := fun hl =>
    (hpair hl).imp fun {m m'} hlt heq => by
      rw [heq] at hlt
      exact String.lt_irrefl _ hlt
  have hperm : ms.Perm ms' := (List.perm_ext_iff_of_nodup (hnodup h) (hnodup h')).2 hmem
  refine hperm.eq_of_pairwise (fun m m' _ _ hlt hgt => ?_) (hpair h) (hpair h')
  exact absurd (String.lt_trans hlt hgt) (String.lt_irrefl _)

end SortedKeys

/-- The members of an object, in the order in which jsoncpp keeps them. -/
def Json.Ordered (j : Json) : Prop :=
  j = .null ∨ ∃ ms, j = .object ms ∧ SortedKeys ms

/-- A member after it is set, and the others. -/
theorem insertMember_lookup (key k : String) (v : Json) (ms : List (String × Json)) :
    (Json.insertMember key v ms).lookup k = if k = key then some v else ms.lookup k := by
  induction ms with
  | nil =>
      by_cases hk : k = key
      · rw [Json.insertMember, List.lookup_cons, if_pos hk, beq_iff_eq.2 hk]
      · rw [Json.insertMember, List.lookup_cons, if_neg hk, beq_false_of_ne hk]
  | cons m ms ih =>
      obtain ⟨key', w⟩ := m
      rw [Json.insertMember]
      by_cases hkey : key = key'
      · subst hkey
        rw [if_pos rfl, List.lookup_cons, List.lookup_cons]
        by_cases hk : k = key
        · rw [if_pos hk, beq_iff_eq.2 hk]
        · rw [if_neg hk, beq_false_of_ne hk]
      · rw [if_neg hkey]
        by_cases hlt : key < key'
        · rw [if_pos hlt, List.lookup_cons]
          by_cases hk : k = key
          · rw [if_pos hk, beq_iff_eq.2 hk]
          · rw [if_neg hk, beq_false_of_ne hk]
        · rw [if_neg hlt, List.lookup_cons, List.lookup_cons, ih]
          by_cases hk : k = key'
          · have hne : k ≠ key := fun h => hkey (h.symm.trans hk)
            simp only [beq_iff_eq.2 hk, if_neg hne]
          · rw [beq_false_of_ne hk]

/-- Induction on the members. -/
theorem insertMember_ordered {ms : List (String × Json)}
    (hms : SortedKeys ms) (key : String) (v : Json) :
    SortedKeys (Json.insertMember key v ms) ∧
      ∀ m, m ∈ Json.insertMember key v ms ↔ m = (key, v) ∨ m.1 ≠ key ∧ m ∈ ms := by
  induction ms with
  | nil => exact ⟨SortedKeys.single .., by simp [Json.insertMember]⟩
  | cons m ms ih =>
      obtain ⟨k, w⟩ := m
      obtain ⟨hafter, htail⟩ := SortedKeys.cons.1 hms
      rw [Json.insertMember]
      by_cases hkey : key = k
      · subst hkey
        rw [if_pos rfl]
        refine ⟨SortedKeys.cons.2 ⟨hafter, htail⟩, fun m => ?_⟩
        have hne : m ∈ ms → m.1 ≠ key := fun hm hsame =>
          String.lt_irrefl key (hsame ▸ hafter m hm)
        simp only [List.mem_cons]
        constructor
        · rintro (rfl | hm)
          · exact .inl rfl
          · exact .inr ⟨hne hm, .inr hm⟩
        · rintro (rfl | ⟨hm, rfl | hin⟩)
          · exact .inl rfl
          · exact absurd rfl hm
          · exact .inr hin
      · rw [if_neg hkey]
        by_cases hlt : key < k
        · rw [if_pos hlt]
          have hless : ∀ m ∈ (k, w) :: ms, key < m.1 := fun m hm => by
            rcases List.mem_cons.1 hm with rfl | hm
            · exact hlt
            · exact String.lt_trans hlt (hafter m hm)
          refine ⟨SortedKeys.cons.2 ⟨hless, SortedKeys.cons.2 ⟨hafter, htail⟩⟩, fun m => ?_⟩
          · rw [List.mem_cons]
            refine or_congr_right ⟨fun hm => ⟨fun hsame => ?_, hm⟩, fun hm => hm.2⟩
            exact String.lt_irrefl key (hsame ▸ hless m hm)
        · rw [if_neg hlt]
          obtain ⟨hordered, hmem⟩ := ih htail
          have hgt : k < key := by
            by_contra hnot
            exact hkey (String.le_antisymm (String.not_lt.1 hnot) (String.not_lt.1 hlt))
          refine ⟨SortedKeys.cons.2 ⟨fun m hm => ?_, hordered⟩, fun m => ?_⟩
          · rcases (hmem m).1 hm with rfl | ⟨-, hm⟩
            · exact hgt
            · exact hafter m hm
          · rw [List.mem_cons, hmem, List.mem_cons]
            constructor
            · rintro (rfl | rfl | ⟨hne, hm⟩)
              · exact .inr ⟨fun h => hkey h.symm, .inl rfl⟩
              · exact .inl rfl
              · exact .inr ⟨hne, .inr hm⟩
            · rintro (rfl | ⟨hne, rfl | hm⟩)
              · exact .inr (.inl rfl)
              · exact .inl rfl
              · exact .inr (.inr ⟨hne, hm⟩)

namespace Json

variable {j j' v : Json} {key : String}

/-- What the members are after one is set. -/
theorem setMember_get (h : j.setMember key v = .ok j') (k : String) :
    j'.get k = if k = key then .ok v else j.get k := by
  cases j with
  | null =>
      cases h
      by_cases hk : k = key
      · rw [if_pos hk, hk]
        simp [get]
      · rw [if_neg hk]
        simp [get, List.lookup_cons, beq_false_of_ne hk]
  | object ms =>
      cases h
      rw [get, insertMember_lookup]
      by_cases hk : k = key
      · rw [if_pos hk, if_pos hk]
        rfl
      · rw [if_neg hk, if_neg hk]
        rfl
  | _ => cases h

theorem setMember_get_self (h : j.setMember key v = .ok j') : j'.get key = .ok v := by
  rw [setMember_get h, if_pos rfl]

theorem Ordered.setMember (hj : j.Ordered) (key : String) (v : Json) :
    ∃ ms, j.setMember key v = .ok (.object ms) ∧ (Json.object ms).Ordered ∧
      ∀ m, m ∈ ms ↔ m = (key, v) ∨ m.1 ≠ key ∧ m ∈ j.members := by
  rcases hj with rfl | ⟨ms, rfl, hms⟩
  · exact ⟨_, rfl, .inr ⟨_, rfl, .single ..⟩, fun m => by simp [members]⟩
  · obtain ⟨hordered, hmem⟩ := insertMember_ordered hms key v
    exact ⟨_, rfl, .inr ⟨_, rfl, hordered⟩, hmem⟩

end Json

end Vdms
