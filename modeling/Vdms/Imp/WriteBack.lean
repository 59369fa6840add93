import Mathlib.Logic.Function.Basic

/-!
# Write-Back Caches

Values that belong to keys are read from a disk when they are first asked for, changed in
memory, and written back later. To whoever asks through the cache it is one value for each
key, as long as what is written is read back as it was. What a crash leaves is the values that
were last written.

## Main definitions

* `Storage`: how a value is written and read, and `Storage.Keeps`: it is read as it was written.
* `WriteBack`: the disk and the cache; `WriteBack.value`: the value of a key.

## Main results

* `WriteBack.value_flush_iff`: when writing everything back goes unnoticed.
* `WriteBack.value_write_iff`: when a value written past the cache is seen.
-/

namespace Imp

variable {K V D : Type}

/-- How the value of a key is written to the disk, and how it is read. -/
structure Storage (K V D : Type) where
  save : K → V → D
  load : K → D → Option V

/-- The value is read as it was written. -/
def Storage.Keeps (F : Storage K V D) (k : K) (v : V) : Prop := F.load k (F.save k v) = some v

/-- The values in memory, and those on the disk. -/
structure WriteBack (K V D : Type) where
  disk : K → Option D
  cached : K → Option V

namespace WriteBack

variable (F : Storage K V D)

/-- The value on the disk. -/
def stored (c : WriteBack K V D) (k : K) : Option V := (c.disk k).bind (F.load k)

/-- The value of a key: that in memory, or else that on the disk. -/
def value (c : WriteBack K V D) (k : K) : Option V :=
  match c.cached k with
  | some v => some v
  | none => c.stored F k

/-- Everything in memory is written back, and dropped from memory. -/
def flush (c : WriteBack K V D) : WriteBack K V D where
  disk k :=
    match c.cached k with
    | some v => some (F.save k v)
    | none => c.disk k
  cached _ := none

/-- The memory is lost. -/
def crash (c : WriteBack K V D) : WriteBack K V D := { c with cached := fun _ => none }

section

variable [DecidableEq K]

/-- The value in memory is set. -/
def put (k : K) (v : V) (c : WriteBack K V D) : WriteBack K V D :=
  { c with cached := Function.update c.cached k (some v) }

/-- The value is written to the disk, past the memory. -/
def write (k : K) (v : V) (c : WriteBack K V D) : WriteBack K V D :=
  { c with disk := Function.update c.disk k (some (F.save k v)) }

/-- What is on the disk for a key is changed there, past the memory. -/
def amend (k : K) (f : D → D) (c : WriteBack K V D) : WriteBack K V D :=
  { c with disk := Function.update c.disk k ((c.disk k).map f) }

end

variable {F} {c : WriteBack K V D} {k : K} {v : V}

theorem value_of_cached (h : c.cached k = some v) : c.value F k = some v := by
  simp only [value, h]

theorem value_of_not_cached (h : c.cached k = none) : c.value F k = c.stored F k := by
  simp only [value, h]

@[simp] theorem value_crash (c : WriteBack K V D) : c.crash.value F = c.stored F := rfl

@[simp] theorem stored_crash (c : WriteBack K V D) : c.crash.stored F = c.stored F := rfl

@[simp] theorem value_flush (c : WriteBack K V D) :
    (c.flush F).value F = (c.flush F).stored F := rfl

theorem stored_flush_of_cached (h : c.cached k = some v) :
    (c.flush F).stored F k = F.load k (F.save k v) := by
  simp only [stored, flush, h, Option.bind_some]

theorem stored_flush_of_not_cached (h : c.cached k = none) :
    (c.flush F).stored F k = c.stored F k := by
  simp only [stored, flush, h]

/-- **Writing back** goes unnoticed exactly if everything in memory is read as it is written. -/
theorem value_flush_iff :
    (c.flush F).value F = c.value F ↔ ∀ k v, c.cached k = some v → F.Keeps k v := by
  rw [value_flush]
  constructor
  · intro h k v hcached
    have hk := congrFun h k
    rwa [stored_flush_of_cached hcached, value_of_cached hcached] at hk
  · intro h
    funext k
    cases hcached : c.cached k with
    | none => rw [stored_flush_of_not_cached hcached, value_of_not_cached hcached]
    | some v =>
        rw [stored_flush_of_cached hcached, value_of_cached hcached]
        exact h k v hcached

section

variable [DecidableEq K]

theorem value_put : (put k v c).value F = Function.update (c.value F) k (some v) := by
  funext k'
  by_cases hk : k' = k
  · subst hk
    rw [Function.update_self, value_of_cached]
    exact Function.update_self ..
  · rw [Function.update_of_ne hk]
    simp only [value, put, Function.update_of_ne hk]
    rfl

@[simp] theorem stored_put : (put k v c).stored F = c.stored F := rfl

theorem stored_write :
    (write F k v c).stored F = Function.update (c.stored F) k (F.load k (F.save k v)) := by
  funext k'
  by_cases hk : k' = k
  · subst hk
    simp only [stored, write, Function.update_self, Option.bind_some]
  · simp only [stored, write, Function.update_of_ne hk]

/-- What is in memory hides the change of what is on the disk. -/
theorem value_amend {f : D → D} (h : c.cached k = some v) :
    (amend k f c).value F = c.value F := by
  funext k'
  by_cases hk : k' = k
  · subst hk
    rw [value_of_cached h]
    exact value_of_cached h
  · simp only [value, stored, amend, Function.update_of_ne hk]

/-- A change of what is on the disk that is read as a change of the value. -/
theorem stored_amend {f : D → D} {w : V} (h : c.stored F k = some v)
    (hf : ∀ d, F.load k d = some v → F.load k (f d) = some w) :
    (amend k f c).stored F = Function.update (c.stored F) k (some w) := by
  funext k'
  by_cases hk : k' = k
  · subst hk
    obtain ⟨d, hd, hload⟩ := Option.bind_eq_some_iff.1 h
    simp only [stored, amend, Function.update_self, hd, Option.map_some, Option.bind_some,
      hf d hload]
  · simp only [stored, amend, Function.update_of_ne hk]

/-- **Writing past the memory** is seen exactly if the value is read as it is written, and not
hidden by another one in memory. -/
theorem value_write_iff : (write F k v c).value F = Function.update (c.value F) k (some v) ↔
    c.cached k = some v ∨ c.cached k = none ∧ F.Keeps k v := by
  have hother : ∀ k' ≠ k, (write F k v c).value F k' = c.value F k' := fun k' hk => by
    simp only [value, stored, write, Function.update_of_ne hk]
  have hself : (write F k v c).value F = Function.update (c.value F) k (some v) ↔
      (write F k v c).value F k = some v := by
    constructor
    · intro h
      rw [h, Function.update_self]
    · intro h
      funext k'
      by_cases hk : k' = k
      · subst hk
        rw [h, Function.update_self]
      · rw [hother k' hk, Function.update_of_ne hk]
  rw [hself]
  cases hcached : c.cached k with
  | none =>
      have hvalue : (write F k v c).value F k = F.load k (F.save k v) := by
        rw [value_of_not_cached (c := write F k v c) hcached, stored_write, Function.update_self]
      rw [hvalue, Storage.Keeps]
      simp
  | some v' =>
      rw [value_of_cached (c := write F k v c) hcached]
      simp

end

end WriteBack

end Imp
