import Vdms.Json

/-!
# JSON Schemas

The keywords of JSON schemas as tests on a value. A keyword that is about objects, arrays
or numbers accepts every value of another type, so `type` has to ask for the type. A
reference replaces all keywords next to it.

## Main results

* `Schema.closed_object`: what the members of an object are that a schema without
  additional properties accepts.
-/

namespace Vdms

/-- The keys of every object in the value are distinct. jsoncpp keeps the members of an
object in a map. -/
inductive Json.DistinctKeys : Json → Prop
  | null : DistinctKeys .null
  | int (z : ℤ) : DistinctKeys (.int z)
  | real (x : Double) : DistinctKeys (.real x)
  | string (s : String) : DistinctKeys (.string s)
  | bool (b : Bool) : DistinctKeys (.bool b)
  | array {xs : List Json} : (∀ x ∈ xs, DistinctKeys x) → DistinctKeys (.array xs)
  | object {ms : List (String × Json)} : (ms.map Prod.fst).Nodup →
      (∀ m ∈ ms, DistinctKeys m.2) → DistinctKeys (.object ms)

theorem Json.DistinctKeys.nodup {ms : List (String × Json)}
    (h : (Json.object ms).DistinctKeys) : (ms.map Prod.fst).Nodup := by
  cases h with
  | object h _ => exact h

theorem Json.DistinctKeys.element {xs : List Json} (h : (Json.array xs).DistinctKeys)
    {x : Json} (hx : x ∈ xs) : x.DistinctKeys := by
  cases h with
  | array h => exact h x hx

theorem Json.DistinctKeys.value {ms : List (String × Json)}
    (h : (Json.object ms).DistinctKeys) {m : String × Json} (hm : m ∈ ms) :
    m.2.DistinctKeys := by
  cases h with
  | object _ h => exact h m hm

theorem mem_of_lookup {β : Type} {key : String} {v : β} {ms : List (String × β)}
    (h : ms.lookup key = some v) : (key, v) ∈ ms := by
  obtain ⟨front, back, rfl, -⟩ := List.lookup_eq_some_iff.1 h
  simp

theorem lookup_of_mem {β : Type} {ms : List (String × β)} (hms : (ms.map Prod.fst).Nodup)
    {m : String × β} (hm : m ∈ ms) : ms.lookup m.1 = some m.2 := by
  obtain ⟨front, back, rfl⟩ := List.append_of_mem hm
  refine List.lookup_eq_some_iff.2 ⟨front, back, rfl, fun p hp => ?_⟩
  rw [List.map_append, List.nodup_append] at hms
  have hne := hms.2.2 p.1 (List.mem_map_of_mem hp) m.1 (by simp)
  exact bne_iff_ne.2 (Ne.symm hne)

/-- A test on a value. -/
abbrev Schema := Json → Bool

/-- Whether a real is a whole number: it is one if truncating it changes nothing. -/
def Double.isWhole [Platform] (x : Double) : Bool :=
  Platform.doubleOfNat (Platform.realTruncate x).natAbs =
    ⟨x.bits &&& 0x7FFFFFFFFFFFFFFF⟩

namespace Schema

def object : Schema := Json.isObject

def array : Schema := Json.isArray

def string : Schema
  | .string _ => true
  | _ => false

def boolean : Schema
  | .bool _ => true
  | _ => false

def number : Schema
  | .int _ | .real _ => true
  | _ => false

def integer [Platform] : Schema
  | .int _ => true
  | .real x => x.isWhole
  | _ => false

/-- `minimum`, for whole numbers. -/
def minimum [Platform] (n : ℤ) : Schema
  | .int z => n ≤ z
  | .real x => n ≤ Platform.realTruncate x
  | _ => true

/-- `enum`, for strings. -/
def enum (names : List String) : Schema
  | .string s => names.contains s
  | _ => false

/-- `properties`, with any additional ones. -/
def properties (ps : List (String × Schema)) : Schema
  | .object ms => ms.all fun m => (ps.lookup m.1).all fun p => p m.2
  | _ => true

/-- `properties`, and `"additionalProperties": false`. -/
def closed (ps : List (String × Schema)) : Schema
  | .object ms => ms.all fun m => (ps.lookup m.1).any fun p => p m.2
  | _ => true

def required (keys : List String) : Schema
  | .object ms => keys.all fun key => (ms.lookup key).isSome
  | _ => true

def items (p : Schema) : Schema
  | .array xs => xs.all p
  | _ => true

def minItems (n : ℕ) : Schema
  | .array xs => n ≤ xs.length
  | _ => true

/-- Keywords next to each other. -/
def all (ps : List Schema) : Schema := fun j => ps.all fun p => p j

def anyOf (ps : List Schema) : Schema := fun j => ps.any fun p => p j

def oneOf (ps : List Schema) : Schema := fun j => ps.countP (fun p => p j) = 1

def not (p : Schema) : Schema := fun j => !p j

variable {ps : List (String × Schema)} {ms : List (String × Json)}

theorem closed_object : closed ps (.object ms) = true ↔
    ∀ m ∈ ms, ∃ p, ps.lookup m.1 = some p ∧ p m.2 = true := by
  simp [closed, Option.any_eq_true]

/-- With a single property, an object has that one or none. -/
theorem closed_single {key : String} {p : Schema} (hms : (ms.map Prod.fst).Nodup) :
    closed [(key, p)] (.object ms) = true ↔ ms = [] ∨ ∃ v, ms = [(key, v)] ∧ p v = true := by
  rw [closed_object]
  constructor
  · intro h
    have hkey : ∀ m ∈ ms, m.1 = key ∧ p m.2 = true := by
      intro m hm
      obtain ⟨q, hq, hv⟩ := h m hm
      by_cases heq : m.1 = key
      · simp [heq] at hq
        exact ⟨heq, hq ▸ hv⟩
      · simp [List.lookup_cons, beq_eq_false_iff_ne.2 heq] at hq
    rcases ms with - | ⟨⟨k, v⟩, - | ⟨⟨k', v'⟩, rest⟩⟩
    · exact .inl rfl
    · obtain ⟨rfl, hv⟩ := hkey _ List.mem_cons_self
      exact .inr ⟨v, rfl, hv⟩
    · have hk := (hkey (k, v) List.mem_cons_self).1
      have hk' := (hkey (k', v') (List.mem_cons_of_mem _ List.mem_cons_self)).1
      simp only at hk hk'
      simp [hk, hk'] at hms
  · rintro (rfl | ⟨v, rfl, hv⟩)
    · intro m hm
      cases hm
    · intro m hm
      obtain rfl := List.mem_singleton.1 hm
      exact ⟨p, by simp, hv⟩

end Schema

/-- A member of an object that a closed schema accepts. -/
theorem closed_member {props : List (String × Schema)} {key : String} {p : Schema} {v : Json}
    {ps : List (String × Json)} (hclosed : Schema.closed props (.object ps) = true)
    (hp : props.lookup key = some p) (hv : ps.lookup key = some v) : p v = true := by
  obtain ⟨q, hq, hqv⟩ := Schema.closed_object.1 hclosed _ (mem_of_lookup hv)
  obtain rfl := Option.some.inj (hp.symm.trans hq)
  exact hqv

theorem string_inv {v : Json} (h : Schema.string v = true) : ∃ name, v = .string name := by
  cases v with
  | string name => exact ⟨name, rfl⟩
  | _ => cases h

end Vdms
