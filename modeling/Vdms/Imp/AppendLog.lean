import Mathlib.Data.Nat.Notation

/-!
# Append-Only Logs

A store that takes its items in batches and answers each addition with the id of the first item,
and that is written to disk, closed and opened again in between. What it is for is a log: the
ids follow on each other, and an item stays under its id.

`Store` says what the operations of a store may do, as relations, and `Store.Run` runs them from
a new store and keeps a `Ledger` of what was answered. An operation may depend on the history, as
far as the ledger tells it, through the condition a run is restricted to.

## Main results

* `Consecutive.disjoint`, `Consecutive.get`: ids that follow on each other are handed out once,
  and each belongs to its place in the log.
* `Store.Run.invariant`: the rule of invariants, one premise for each operation.
* `Store.Run.sound`: a store whose additions answer the length of the log and that keeps the
  items under their places is an append-only log.
-/

namespace Imp

variable {α : Type}

/-- An addition: the id answered, and the batch. -/
structure Added (α : Type) where
  first : ℕ
  batch : List α

/-- The items of the additions, in order. -/
def items (adds : List (Added α)) : List α := adds.flatMap Added.batch

@[simp] theorem items_nil : items ([] : List (Added α)) = [] := rfl

@[simp] theorem items_cons (a : Added α) (adds : List (Added α)) :
    items (a :: adds) = a.batch ++ items adds := List.flatMap_cons

@[simp] theorem items_append (adds adds' : List (Added α)) :
    items (adds ++ adds') = items adds ++ items adds' := List.flatMap_append

/-- The ids of the additions follow on each other, from `n` on. -/
def Consecutive : ℕ → List (Added α) → Prop
  | _, [] => True
  | n, a :: adds => a.first = n ∧ Consecutive (n + a.batch.length) adds

namespace Consecutive

variable {n : ℕ} {adds : List (Added α)} {a : Added α}

theorem append_one (h : Consecutive n adds) (ha : a.first = n + (items adds).length) :
    Consecutive n (adds ++ [a]) := by
  induction adds generalizing n with
  | nil => exact ⟨by simpa using ha, trivial⟩
  | cons b adds ih =>
      refine ⟨h.1, ih h.2 ?_⟩
      rw [items_cons, List.length_append] at ha
      omega

theorem first_le (h : Consecutive n adds) (ha : a ∈ adds) : n ≤ a.first := by
  induction adds generalizing n with
  | nil => cases ha
  | cons b adds ih =>
      rcases List.mem_cons.mp ha with rfl | ha
      · exact Nat.le_of_eq h.1.symm
      · have := ih h.2 ha
        omega

/-- No id is handed out twice. -/
theorem disjoint (h : Consecutive n adds) :
    adds.Pairwise fun a b => a.first + a.batch.length ≤ b.first := by
  induction adds generalizing n with
  | nil => exact .nil
  | cons a adds ih =>
      refine .cons (fun b hb => ?_) (ih h.2)
      rw [h.1]
      exact first_le h.2 hb

/-- The items of an addition are under the ids from the one answered. -/
theorem get (h : Consecutive n adds) (ha : a ∈ adds) {j : ℕ} {x : α}
    (hx : a.batch[j]? = some x) : (items adds)[a.first - n + j]? = some x := by
  induction adds generalizing n with
  | nil => cases ha
  | cons b adds ih =>
      rw [items_cons]
      rcases List.mem_cons.mp ha with rfl | ha
      · have hj : j < a.batch.length := (List.getElem?_eq_some_iff.mp hx).1
        have hplace : a.first - n + j = j := by
          have := h.1
          omega
        rw [hplace, List.getElem?_append_left hj, hx]
      · have hle := first_le h.2 ha
        have hplace : a.first - n + j = b.batch.length + (a.first - (n + b.batch.length) + j) := by
          omega
        rw [hplace, List.getElem?_append_right (by omega), Nat.add_sub_cancel_left]
        exact ih h.2 ha

end Consecutive

/-- The history of a store: the additions so far, whether there was none since it was last
written to disk, and whether it was opened again when there were items. -/
structure Ledger (α : Type) where
  adds : List (Added α)
  saved : Bool
  reopened : Bool

/-- The history of a new store. -/
def Ledger.empty : Ledger α := ⟨[], true, false⟩

/-- The items added so far. -/
def Ledger.items (l : Ledger α) : List α := Imp.items l.adds

/-- What the operations of a store may do. `stores s id x` says that `x` is under the id. -/
structure Store (α : Type) where
  State : Type
  IsNew : State → Prop
  add : State → List α → ℕ → State → Prop
  save : State → State → Prop
  reopen : State → State → Prop
  query : State → State → Prop
  stores : State → ℕ → α → Prop

/-- An operation of a store, with the batch of an addition. -/
inductive StoreAction (α : Type) where
  | add (batch : List α)
  | save
  | reopen
  | query

namespace Store

variable {st : Store α}

/-- The runs of a store from a new one whose operations all meet the condition. -/
inductive Run (st : Store α) (Meets : st.State → Ledger α → StoreAction α → Prop) :
    st.State → Ledger α → Prop
  | new {s : st.State} (h : st.IsNew s) : Run st Meets s .empty
  | add {s t : st.State} {l : Ledger α} {batch : List α} {id : ℕ} (hrun : Run st Meets s l)
      (hmeets : Meets s l (.add batch)) (h : st.add s batch id t) :
      Run st Meets t { l with adds := l.adds ++ [⟨id, batch⟩], saved := false }
  | save {s t : st.State} {l : Ledger α} (hrun : Run st Meets s l) (hmeets : Meets s l .save)
      (h : st.save s t) : Run st Meets t { l with saved := true }
  | reopen {s t : st.State} {l : Ledger α} (hrun : Run st Meets s l) (hmeets : Meets s l .reopen)
      (h : st.reopen s t) : Run st Meets t { l with reopened := !l.items.isEmpty }
  | query {s t : st.State} {l : Ledger α} (hrun : Run st Meets s l) (hmeets : Meets s l .query)
      (h : st.query s t) : Run st Meets t l

variable {Meets : st.State → Ledger α → StoreAction α → Prop}

/-- What a store is to promise: the ids follow on each other, and an item is under its id. -/
structure IsLog (st : Store α) (s : st.State) (l : Ledger α) : Prop where
  consecutive : Consecutive 0 l.adds
  kept : ∀ a ∈ l.adds, ∀ j x, a.batch[j]? = some x → st.stores s (a.first + j) x

/-- A relation between the state and the history that every operation preserves. -/
structure Invariant (st : Store α) (Meets : st.State → Ledger α → StoreAction α → Prop)
    (Inv : st.State → Ledger α → Prop) : Prop where
  new : ∀ s, st.IsNew s → Inv s .empty
  add : ∀ s t l batch id, Inv s l → Meets s l (.add batch) → st.add s batch id t →
    id = l.items.length ∧ Inv t { l with adds := l.adds ++ [⟨id, batch⟩], saved := false }
  save : ∀ s t l, Inv s l → Meets s l .save → st.save s t → Inv t { l with saved := true }
  reopen : ∀ s t l, Inv s l → Meets s l .reopen → st.reopen s t →
    Inv t { l with reopened := !l.items.isEmpty }
  query : ∀ s t l, Inv s l → Meets s l .query → st.query s t → Inv t l

variable {Inv : st.State → Ledger α → Prop} {s : st.State} {l : Ledger α}

/-- **Invariants.** -/
theorem Run.invariant (hinv : Invariant st Meets Inv) (hrun : Run st Meets s l) : Inv s l := by
  induction hrun with
  | new h => exact hinv.new _ h
  | add hrun hmeets h ih => exact (hinv.add _ _ _ _ _ ih hmeets h).2
  | save hrun hmeets h ih => exact hinv.save _ _ _ ih hmeets h
  | reopen hrun hmeets h ih => exact hinv.reopen _ _ _ ih hmeets h
  | query hrun hmeets h ih => exact hinv.query _ _ _ ih hmeets h

/-- A weaker condition has more runs. -/
theorem Run.mono {Meets' : st.State → Ledger α → StoreAction α → Prop}
    (h : ∀ s l a, Meets s l a → Meets' s l a) (hrun : Run st Meets s l) : Run st Meets' s l := by
  induction hrun with
  | new hnew => exact .new hnew
  | add hrun hmeets hstep ih => exact .add ih (h _ _ _ hmeets) hstep
  | save hrun hmeets hstep ih => exact .save ih (h _ _ _ hmeets) hstep
  | reopen hrun hmeets hstep ih => exact .reopen ih (h _ _ _ hmeets) hstep
  | query hrun hmeets hstep ih => exact .query ih (h _ _ _ hmeets) hstep

/-- What the condition asks of each item added holds of all items. -/
theorem Run.forall_items {P : α → Prop}
    (hP : ∀ s l batch, Meets s l (.add batch) → ∀ x ∈ batch, P x) (hrun : Run st Meets s l) :
    ∀ x ∈ l.items, P x := by
  induction hrun with
  | new h => intro x hx; cases hx
  | @add s t l batch id hrun hmeets h ih =>
      intro x hx
      have hx : x ∈ l.items ++ batch := by simpa [Ledger.items] using hx
      rcases List.mem_append.mp hx with hold | hnew
      · exact ih x hold
      · exact hP s l batch hmeets x hnew
  | save hrun hmeets h ih => exact ih
  | reopen hrun hmeets h ih => exact ih
  | query hrun hmeets h ih => exact ih

/-- The additions of a run follow on each other. -/
theorem Run.consecutive (hinv : Invariant st Meets Inv) (hrun : Run st Meets s l) :
    Consecutive 0 l.adds := by
  induction hrun with
  | new h => exact trivial
  | add hrun hmeets h ih =>
      refine ih.append_one ?_
      have hid := (hinv.add _ _ _ _ _ (hrun.invariant hinv) hmeets h).1
      simpa [Ledger.items] using hid
  | save hrun hmeets h ih => exact ih
  | reopen hrun hmeets h ih => exact ih
  | query hrun hmeets h ih => exact ih

/-- **Append-only logs.** -/
theorem Run.sound (hinv : Invariant st Meets Inv)
    (hkept : ∀ s l, Inv s l → ∀ id x, l.items[id]? = some x → st.stores s id x)
    (hrun : Run st Meets s l) : IsLog st s l where
  consecutive := hrun.consecutive hinv
  kept a ha j x hx := by
    have hget := (hrun.consecutive hinv).get ha hx
    rw [Nat.sub_zero] at hget
    exact hkept s l (hrun.invariant hinv) _ x hget

end Store

end Imp
