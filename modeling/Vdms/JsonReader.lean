import Vdms.JsonObjects

/-!
# Reading JSON

`Json::Reader::parse` is called on the texts of messages. It reads the value that the text
begins with, and does not look at what follows it. How it reads is left to jsoncpp; a text
that begins with a value in plain JSON, with integers and strings without escapes, is read as
this value.

## Main definitions

* `readValue`: the value that a text begins with, in plain JSON.
* `JsonReader`: a reader that reads such texts.
-/

namespace Vdms

/-! ### Equality of values -/

mutual

/-- Whether two values are the same. -/
def Json.decEq : (a b : Json) → Decidable (a = b)
  | .null, .null => isTrue rfl
  | .int z, .int z' => decidable_of_iff (z = z') (by simp)
  | .real x, .real x' => decidable_of_iff (x = x') (by simp)
  | .string s, .string s' => decidable_of_iff (s = s') (by simp)
  | .bool b, .bool b' => decidable_of_iff (b = b') (by simp)
  | .array xs, .array xs' =>
      have := Json.decEqs xs xs'
      decidable_of_iff (xs = xs') (by simp)
  | .object ms, .object ms' =>
      have := Json.decEqMembers ms ms'
      decidable_of_iff (ms = ms') (by simp)
  | .null, .int _ | .null, .real _ | .null, .string _ | .null, .bool _ | .null, .array _
  | .null, .object _ => isFalse (by simp)
  | .int _, .null | .int _, .real _ | .int _, .string _ | .int _, .bool _ | .int _, .array _
  | .int _, .object _ => isFalse (by simp)
  | .real _, .null | .real _, .int _ | .real _, .string _ | .real _, .bool _ | .real _, .array _
  | .real _, .object _ => isFalse (by simp)
  | .string _, .null | .string _, .int _ | .string _, .real _ | .string _, .bool _
  | .string _, .array _ | .string _, .object _ => isFalse (by simp)
  | .bool _, .null | .bool _, .int _ | .bool _, .real _ | .bool _, .string _ | .bool _, .array _
  | .bool _, .object _ => isFalse (by simp)
  | .array _, .null | .array _, .int _ | .array _, .real _ | .array _, .string _
  | .array _, .bool _ | .array _, .object _ => isFalse (by simp)
  | .object _, .null | .object _, .int _ | .object _, .real _ | .object _, .string _
  | .object _, .bool _ | .object _, .array _ => isFalse (by simp)

def Json.decEqs : (xs ys : List Json) → Decidable (xs = ys)
  | [], [] => isTrue rfl
  | [], _ :: _ | _ :: _, [] => isFalse (by simp)
  | x :: xs, y :: ys =>
      have := Json.decEq x y
      have := Json.decEqs xs ys
      decidable_of_iff (x = y ∧ xs = ys) (by simp)

def Json.decEqMembers : (ms ns : List (String × Json)) → Decidable (ms = ns)
  | [], [] => isTrue rfl
  | [], _ :: _ | _ :: _, [] => isFalse (by simp)
  | (k, v) :: ms, (l, w) :: ns =>
      have := Json.decEq v w
      have := Json.decEqMembers ms ns
      decidable_of_iff (k = l ∧ v = w ∧ ms = ns) (by simp [and_assoc])

end

instance : DecidableEq Json := Json.decEq

/-! ### Plain JSON -/

namespace JsonText

def skipSpaces (cs : List Char) : List Char :=
  cs.dropWhile fun c => c = ' ' || c = '\t' || c = '\r' || c = '\n'

/-- The characters of a string up to its closing quote. -/
def readString : List Char → Option (List Char × List Char)
  | [] => none
  | c :: cs =>
      if c = '"' then some ([], cs)
      else if c = '\\' then none
      else (readString cs).map fun p => (c :: p.1, p.2)

/-- A natural number of 63 bits, and no fraction and no exponent behind it. -/
def readNumber (cs : List Char) : Option (ℕ × List Char) :=
  let digits := cs.takeWhile Char.isDigit
  let rest := cs.dropWhile Char.isDigit
  let n := digits.foldl (fun n c => 10 * n + (c.toNat - '0'.toNat)) 0
  if digits = [] ∨ 2 ^ 63 ≤ n then none
  else match rest with
    | '.' :: _ | 'e' :: _ | 'E' :: _ => none
    | _ => some (n, rest)

mutual

/-- The value that a text begins with, and what follows it. The bound is on the values that
are nested in each other or follow each other in an array or an object. -/
def readValue : ℕ → List Char → Option (Json × List Char)
  | 0, _ => none
  | k + 1, cs =>
      match skipSpaces cs with
      | '\x7b' :: cs =>
          match skipSpaces cs with
          | '\x7d' :: cs => some (.object [], cs)
          | cs => readMembers k [] cs
      | '[' :: cs =>
          match skipSpaces cs with
          | ']' :: cs => some (.array [], cs)
          | cs => readElements k [] cs
      | '"' :: cs => (readString cs).map fun p => (.string (String.ofList p.1), p.2)
      | '-' :: cs => (readNumber cs).map fun p => (.int (-p.1), p.2)
      | 't' :: 'r' :: 'u' :: 'e' :: cs => some (.bool true, cs)
      | 'f' :: 'a' :: 'l' :: 's' :: 'e' :: cs => some (.bool false, cs)
      | 'n' :: 'u' :: 'l' :: 'l' :: cs => some (.null, cs)
      | cs => (readNumber cs).map fun p => (.int p.1, p.2)

/-- The elements of an array that are left, behind those read so far. -/
def readElements : ℕ → List Json → List Char → Option (Json × List Char)
  | 0, _, _ => none
  | k + 1, xs, cs => do
      let (x, cs) ← readValue k cs
      match skipSpaces cs with
      | ',' :: cs => readElements k (xs ++ [x]) cs
      | ']' :: cs => some (.array (xs ++ [x]), cs)
      | _ => none

/-- The members of an object that are left. A key that occurs again gets another value. -/
def readMembers : ℕ → List (String × Json) → List Char → Option (Json × List Char)
  | 0, _, _ => none
  | k + 1, ms, cs =>
      match skipSpaces cs with
      | '"' :: cs => do
          let (key, cs) ← readString cs
          match skipSpaces cs with
          | ':' :: cs => do
              let (v, cs) ← readValue k cs
              let ms := Json.insertMember (String.ofList key) v ms
              match skipSpaces cs with
              | ',' :: cs => readMembers k ms cs
              | '\x7d' :: cs => some (.object ms, cs)
              | _ => none
          | _ => none
      | _ => none

end

/-! ### What is read -/

theorem distinctKeys_object {ms : List (String × Json)} (hms : SortedKeys ms)
    (h : ∀ m ∈ ms, m.2.DistinctKeys) : (Json.object ms).DistinctKeys :=
  .object (List.Pairwise.imp (fun {a b} (hlt : a < b) (heq : a = b) =>
    String.lt_irrefl b (heq ▸ hlt)) hms) h

/-- The keys of all objects that are read are distinct. Induction on the bound. -/
theorem read_distinctKeys (k : ℕ) :
    (∀ cs v rest, readValue k cs = some (v, rest) → v.DistinctKeys) ∧
      (∀ xs cs v rest, (∀ x ∈ xs, x.DistinctKeys) → readElements k xs cs = some (v, rest) →
        v.DistinctKeys) ∧
      ∀ ms cs v rest, SortedKeys ms → (∀ m ∈ ms, m.2.DistinctKeys) →
        readMembers k ms cs = some (v, rest) → v.DistinctKeys := by
  induction k with
  | zero => simp [readValue, readElements, readMembers]
  | succ k ih =>
      obtain ⟨hvalue, helements, hmembers⟩ := ih
      refine ⟨fun cs v rest h => ?_, fun xs cs v rest hxs h => ?_,
        fun ms cs v rest hms hvalues h => ?_⟩
      · rw [readValue] at h
        split at h
        · split at h
          · cases h
            exact .object List.nodup_nil fun _ hm => by cases hm
          · exact hmembers [] _ v rest List.Pairwise.nil (fun _ hm => by cases hm) h
        · split at h
          · cases h
            exact .array fun _ hx => by cases hx
          · exact helements [] _ v rest (fun _ hx => by cases hx) h
        · obtain ⟨p, -, h⟩ := Option.map_eq_some_iff.1 h
          cases h
          exact .string _
        · obtain ⟨p, -, h⟩ := Option.map_eq_some_iff.1 h
          cases h
          exact .int _
        · cases h
          exact .bool _
        · cases h
          exact .bool _
        · cases h
          exact .null
        · obtain ⟨p, -, h⟩ := Option.map_eq_some_iff.1 h
          cases h
          exact .int _
      · obtain ⟨⟨x, cs⟩, hp, h⟩ := Option.bind_eq_some_iff.1 h
        have hall : ∀ y ∈ xs ++ [x], y.DistinctKeys := by
          intro y hy
          rcases List.mem_append.1 hy with hy | hy
          · exact hxs y hy
          · exact List.mem_singleton.1 hy ▸ hvalue _ _ _ hp
        simp only at h
        split at h
        · exact helements _ _ v rest hall h
        · cases h
          exact .array hall
        · cases h
      · rw [readMembers] at h
        split at h
        · obtain ⟨⟨key, cs⟩, -, h⟩ := Option.bind_eq_some_iff.1 h
          simp only at h
          split at h
          · obtain ⟨⟨w, cs⟩, hp, h⟩ := Option.bind_eq_some_iff.1 h
            obtain ⟨hsorted, hmem⟩ := insertMember_ordered hms (String.ofList key) w
            have hall : ∀ m ∈ Json.insertMember (String.ofList key) w ms,
                m.2.DistinctKeys := by
              intro m hm
              rcases (hmem m).1 hm with rfl | ⟨-, hm⟩
              · exact hvalue _ _ _ hp
              · exact hvalues m hm
            simp only at h
            split at h
            · exact hmembers _ _ v rest hsorted hall h
            · cases h
              exact distinctKeys_object hsorted hall
            · cases h
          · cases h
        · cases h

end JsonText

/-! ### Readers -/

/-- `Json::Reader::parse`. A text that begins with a value in plain JSON is read as this
value. -/
structure JsonReader where
  parse : String → Except Json Document
  parse_value {text : String} {v : Json} {rest : List Char} :
    JsonText.readValue 1000 text.toList = some (v, rest) →
      ∃ doc, parse text = .ok doc ∧ doc.root = v

/-- The reader that reads nothing else. -/
def JsonReader.plain : JsonReader where
  parse text :=
    match h : JsonText.readValue 1000 text.toList with
    | some (v, rest) => .ok ⟨v, (JsonText.read_distinctKeys 1000).1 _ _ _ h⟩
    | none => .error .null
  parse_value := by
    intro text v rest h
    split
    next v' rest' h' =>
      rw [h] at h'
      cases h'
      exact ⟨_, rfl, rfl⟩
    next h' =>
      rw [h] at h'
      cases h'

end Vdms
