import Vdms.JsonObjects
import Vdms.NumberText

/-!
# The Types of CSV Cells

`CSVParserUtil`, of the C++ client, makes a command of a row of a CSV file. The properties of an
entity are cells of a row, and the type of a property is found by a look at the text of its cell.

## Main results

* `cells_typed_iff`: the cells whose property is of the type, and has the value, that the text says.
* `zero_is_float`: the integer 0 is none of these.
-/

namespace Vdms

namespace CSVParserUtil

open NumberText
open DescriptorSetData (isspace)

/-- `CSVParserUtil::DATATYPE`. -/
inductive DATATYPE where
  | TRUE
  | FALSE
  | INTEGER
  | FLOAT
  | STRING
  | DATE
  | WRONG
deriving DecidableEq

/-- The exceptions of the conversions of texts, and those of jsoncpp. -/
inductive Failure where
  | invalidArgument
  | outOfRange
  | json (e : QueryError)

section

variable (round : Bool → ℚ → FloatResult Double)

/-- `CSVParserUtil::isBool`. -/
def isBool (s : List Char) : ℕ :=
  let lower := s.map Char.toLower
  if lower = ['t', 'r', 'u', 'e'] then 1
  else if lower = ['f', 'a', 'l', 's', 'e'] then 2
  else 0

/-- `CSVParserUtil::isFloat`. -/
def isFloat (s : List Char) : Bool :=
  match extractFloat round s with
  | some (_, rest) => atEnd rest
  | none => false

/-- `CSVParserUtil::isInt`. What `floor` returns is true unless it is 0. -/
def isInt (s : List Char) : Bool :=
  match extractInt s with
  | some (x, rest) => x ≠ 0 && atEnd rest
  | none => false

/-- `CSVParserUtil::getDataType`. -/
def getDataType (str propname : List Char) : DATATYPE :=
  if propname.take 5 = ['d', 'a', 't', 'e', ':'] then .DATE
  else if isInt str then .INTEGER
  else if isFloat round str then .FLOAT
  else if isBool str = 1 then .TRUE
  else if isBool str = 2 then .FALSE
  else .STRING

/-- `std::stoi`. -/
def stoi (s : List Char) : Except Failure ℤ :=
  match strtol s with
  | none => .error .invalidArgument
  | some (z, _) => if -2 ^ 31 ≤ z ∧ z ≤ 2 ^ 31 - 1 then .ok z else .error .outOfRange

/-- `std::stof`, which throws if a range error is noted. -/
def stof (s : List Char) : Except Failure Double :=
  match strtof round s with
  | none => .error .invalidArgument
  | some (.value x erange, _) => if erange then .error .outOfRange else .ok x
  | some (.overflow, _) => .error .outOfRange

/-- `aquery[queryType]["properties"][propname] = v`. -/
def setProperty (aquery : Json) (queryType : String) (propname : List Char) (v : Json) :
    Except Failure Json :=
  Except.mapError .json do
    let command ← aquery.get queryType
    let properties ← command.get "properties"
    let properties ← properties.setMember (String.ofList propname) v
    let command ← command.setMember "properties" properties
    aquery.setMember queryType command

/-- `CSVParserUtil::parseProperty`: the command with the property. `columnNames` is the name of the
column, which has a prefix of five characters. -/
def parseProperty (columnNames row : List Char) (queryType : String) (aquery : Json) :
    Except Failure Json :=
  if columnNames.length < 5 then .error .outOfRange
  else
    let propname := columnNames.drop 5
    match getDataType round row propname with
    | .DATE =>
        let date := .object [("_date", .string (String.ofList row))]
        setProperty aquery queryType (propname.drop 5) date
    | .TRUE => setProperty aquery queryType propname (.bool true)
    | .FALSE => setProperty aquery queryType propname (.bool false)
    | .INTEGER => do
        let x ← stoi row
        setProperty aquery queryType propname (.int x)
    | .FLOAT => do
        let x ← stof round row
        setProperty aquery queryType propname (.real x)
    | .STRING => setProperty aquery queryType propname (.string (String.ofList row))
    | .WRONG => .ok aquery

/-- The value that `parseProperty` sets, unless it is a date. -/
def cellValue (row : List Char) : DATATYPE → Except Failure Json
  | .TRUE => .ok (.bool true)
  | .FALSE => .ok (.bool false)
  | .INTEGER => (stoi row).map .int
  | .FLOAT => (stof round row).map .real
  | _ => .ok (.string (String.ofList row))

/-! ### The text of a cell -/

/-- `int` has 32 bits. -/
def IsInt32 (z : ℤ) : Prop := -2 ^ 31 ≤ z ∧ z ≤ 2 ^ 31 - 1

instance (z : ℤ) : Decidable (IsInt32 z) := inferInstanceAs (Decidable (_ ∧ _))

def spellsTrue (row : List Char) : Prop := row.map Char.toLower = ['t', 'r', 'u', 'e']

def spellsFalse (row : List Char) : Prop := row.map Char.toLower = ['f', 'a', 'l', 's', 'e']

/-- The type and the value that a text says, where `true` and `false` are spelled in any case. -/
inductive Agrees (row : List Char) : DATATYPE → Json → Prop
  | integer {z : ℤ} (hlit : IntLiteral row z) (hrange : IsInt32 z) : Agrees row .INTEGER (.int z)
  | float {d : Decimal} {x : Double} {erange : Bool} (hd : d.Valid) (htext : d.text = row)
      (hint : ∀ z, IntLiteral row z → ¬ IsInt32 z) (hx : d.toFloat round = .value x erange) :
      Agrees row .FLOAT (.real x)
  | true (h : spellsTrue row) : Agrees row .TRUE (.bool true)
  | false (h : spellsFalse row) : Agrees row .FALSE (.bool false)
  | string (hint : ∀ z, IntLiteral row z → ¬ IsInt32 z) (hdec : ¬ DecimalLiteral row)
      (htrue : ¬ spellsTrue row) (hfalse : ¬ spellsFalse row) :
      Agrees row .STRING (.string (String.ofList row))

/-- A number that a stream extracts and that is tested to be one: the integer 0 is none, but it is
a float. -/
def ReadAsNumber (lit : List Char) : Prop :=
  (∃ z, IntLiteral lit z ∧ IsInt32 z ∧ z ≠ 0) ∨
    ∃ d : Decimal, d.Valid ∧ d.text = lit ∧ ∃ x erange, d.toFloat round = .value x erange

/-- The cells that are typed by what their text says: no integer 0, no number with white space
around it, and no float that is out of range. -/
structure Typable (row : List Char) : Prop where
  nonzero : ¬ IntLiteral row 0
  float : ∀ d : Decimal, d.Valid → d.text = row → (∀ z, IntLiteral row z → ¬ IsInt32 z) →
    ∃ x, d.toFloat round = .value x false
  bare : ∀ pad lit pad', row = pad ++ (lit ++ pad') → AllSpaces pad → AllSpaces pad' →
    ReadAsNumber round lit → pad = [] ∧ pad' = []

end

/-! ### Reading a number -/

variable {round : Bool → ℚ → FloatResult Double} {row : List Char}

/-- The test for integers accepts integers other than 0, with white space around them. -/
theorem isInt_iff : isInt row = true ↔ ∃ pad lit pad' z, row = pad ++ (lit ++ pad') ∧
    AllSpaces pad ∧ AllSpaces pad' ∧ IntLiteral lit z ∧ IsInt32 z ∧ z ≠ 0 := by
  constructor
  · intro h
    rw [isInt] at h
    cases hextract : extractInt row with
    | none =>
        rw [hextract] at h
        cases h
    | some result =>
        obtain ⟨z, pad'⟩ := result
        rw [hextract] at h
        obtain ⟨hz, hend⟩ : z ≠ 0 ∧ atEnd pad' = true := by simpa using h
        have hpad' := atEnd_iff.1 hend
        obtain ⟨pad, lit, hrow, hpad, hlit, hrange⟩ := (extractInt_iff hpad').1 hextract
        exact ⟨pad, lit, pad', z, hrow, hpad, hpad', hlit, hrange, hz⟩
  · rintro ⟨pad, lit, pad', z, hrow, hpad, hpad', hlit, hrange, hz⟩
    rw [isInt, (extractInt_iff hpad').2 ⟨pad, lit, hrow, hpad, hlit, hrange⟩]
    simp [hz, atEnd_iff.2 hpad']

/-- The test for floats accepts decimal numbers, with white space around them. -/
theorem isFloat_iff : isFloat round row = true ↔ ∃ pad, ∃ d : Decimal, ∃ pad',
    row = pad ++ (d.text ++ pad') ∧ AllSpaces pad ∧ AllSpaces pad' ∧ d.Valid ∧
      ∃ x erange, d.toFloat round = .value x erange := by
  constructor
  · intro h
    rw [isFloat] at h
    cases hextract : extractFloat round row with
    | none =>
        rw [hextract] at h
        cases h
    | some result =>
        obtain ⟨x, pad'⟩ := result
        rw [hextract] at h
        have hpad' := atEnd_iff.1 h
        obtain ⟨pad, d, hrow, hpad, hd, erange, hx⟩ := (extractFloat_iff hpad').1 hextract
        exact ⟨pad, d, pad', hrow, hpad, hpad', hd, x, erange, hx⟩
  · rintro ⟨pad, d, pad', hrow, hpad, hpad', hd, x, erange, hx⟩
    rw [isFloat, (extractFloat_iff hpad').2 ⟨pad, d, hrow, hpad, hd, erange, hx⟩]
    exact atEnd_iff.2 hpad'

/-- The two tests find the numbers, with white space around them. -/
theorem isNumber_iff : isInt row = true ∨ isFloat round row = true ↔ ∃ pad lit pad',
    row = pad ++ (lit ++ pad') ∧ AllSpaces pad ∧ AllSpaces pad' ∧ ReadAsNumber round lit := by
  rw [isInt_iff, isFloat_iff]
  constructor
  · rintro (⟨pad, lit, pad', z, hrow, hpad, hpad', hz⟩ | ⟨pad, d, pad', hrow, hpad, hpad', hd, hx⟩)
    · exact ⟨pad, lit, pad', hrow, hpad, hpad', .inl ⟨z, hz⟩⟩
    · exact ⟨pad, d.text, pad', hrow, hpad, hpad', .inr ⟨d, hd, rfl, hx⟩⟩
  · rintro ⟨pad, lit, pad', hrow, hpad, hpad', ⟨z, hz⟩ | ⟨d, hd, rfl, hx⟩⟩
    · exact .inl ⟨pad, lit, pad', z, hrow, hpad, hpad', hz⟩
    · exact .inr ⟨pad, d, pad', hrow, hpad, hpad', hd, hx⟩

/-- What `strtol` reads if the text is an integer. -/
theorem strtol_literal {z : ℤ} (h : IntLiteral row z) : strtol row = some (z, []) :=
  strtol_iff.2 ⟨[], row, by simp, allSpaces_nil, h, fun _ hc => by cases hc⟩

/-- A text is the literal of one integer at most. -/
theorem literal_unique {z z' : ℤ} (h : IntLiteral row z) (h' : IntLiteral row z') : z = z' := by
  have heq := (strtol_literal h).symm.trans (strtol_literal h')
  cases heq
  rfl

/-- There is no white space around what has none in it. -/
theorem no_pad {pad lit pad' : List Char} (hrow : ∀ c ∈ row, isspace c = false)
    (htext : row = pad ++ (lit ++ pad')) (hpad : AllSpaces pad) (hpad' : AllSpaces pad') :
    pad = [] ∧ pad' = [] := by
  have hnil : ∀ {cs : List Char}, AllSpaces cs → (∀ c ∈ cs, c ∈ row) → cs = [] := by
    intro cs hcs hmem
    refine List.eq_nil_iff_forall_not_mem.2 fun c hc => ?_
    have hspace := hcs c hc
    rw [hrow c (hmem c hc)] at hspace
    cases hspace
  exact ⟨hnil hpad fun c hc => by simp [htext, hc], hnil hpad' fun c hc => by simp [htext, hc]⟩

/-- A digit is its own lower case. -/
theorem toLower_digit {c : Char} (h : c.isDigit = true) : c.toLower = c := by
  have hbounds : 48 ≤ c.val ∧ c.val ≤ 57 := by simpa [Char.isDigit] using h
  have hupper : ¬ 65 ≤ c.val := fun hge => absurd (UInt32.le_trans hge hbounds.2) (by decide)
  exact dif_neg fun hletter => hupper hletter.1

/-- A text that spells a word without digits is no number. -/
theorem not_decimal {word : List Char} (hword : word.any Char.isDigit = false)
    (h : row.map Char.toLower = word) : ¬ DecimalLiteral row := by
  rintro ⟨d, hd, rfl⟩
  obtain ⟨c, hc, hdigit⟩ := hd.exists_digit
  have hmem : c ∈ word := by
    rw [← h, ← toLower_digit hdigit]
    exact List.mem_map_of_mem hc
  exact List.any_eq_false.1 hword c hmem hdigit

/-! ### The type of a cell -/

/-- The type of a cell whose column is not one of dates. -/
theorem getDataType_inv {propname : List Char}
    (hdate : propname.take 5 ≠ ['d', 'a', 't', 'e', ':']) :
    (isInt row = true ∧ getDataType round row propname = .INTEGER) ∨
    (isInt row = false ∧ isFloat round row = true ∧ getDataType round row propname = .FLOAT) ∨
    (¬ (isInt row = true ∨ isFloat round row = true) ∧
      ((spellsTrue row ∧ getDataType round row propname = .TRUE) ∨
        (spellsFalse row ∧ getDataType round row propname = .FALSE) ∨
        (¬ spellsTrue row ∧ ¬ spellsFalse row ∧ getDataType round row propname = .STRING))) := by
  rw [getDataType, if_neg hdate]
  by_cases hint : isInt row = true
  · exact .inl ⟨hint, if_pos hint⟩
  · rw [if_neg hint]
    by_cases hfloat : isFloat round row = true
    · exact .inr (.inl ⟨by simpa using hint, hfloat, if_pos hfloat⟩)
    · rw [if_neg hfloat]
      refine .inr (.inr ⟨fun h => h.elim hint hfloat, ?_⟩)
      by_cases htrue : spellsTrue row
      · exact .inl ⟨htrue, by simp [isBool, show row.map Char.toLower = _ from htrue]⟩
      · by_cases hfalse : spellsFalse row
        · exact .inr (.inl ⟨hfalse, by simp [isBool, show row.map Char.toLower = _ from hfalse]⟩)
        · have hnone : isBool row = 0 := by
            rw [isBool]
            exact (if_neg htrue).trans (if_neg hfalse)
          exact .inr (.inr ⟨htrue, hfalse, by simp [hnone]⟩)

/-- An integer is converted to the value that was tested. -/
theorem stoi_padded {pad lit pad' : List Char} {z : ℤ} (hrow : row = pad ++ (lit ++ pad'))
    (hpad : AllSpaces pad) (hpad' : AllSpaces pad') (hlit : IntLiteral lit z) (hrange : IsInt32 z) :
    stoi row = .ok z := by
  have hread : strtol row = some (z, pad') :=
    strtol_iff.2 ⟨pad, lit, hrow, hpad, hlit, fun c hc => (of_isspace (hpad'.starts c hc)).1⟩
  rw [stoi, hread]
  exact if_pos hrange

/-- A float is converted unless a range error is noted. -/
theorem stof_text {d : Decimal} (hd : d.Valid) {x : Double} :
    stof round d.text = .ok x ↔ d.toFloat round = .value x false := by
  have hread := @strtof_text Double round d [] [] hd allSpaces_nil allSpaces_nil.starts
  rw [List.nil_append, List.append_nil] at hread
  rw [stof, hread]
  cases d.toFloat round with
  | overflow => simp
  | value y erange => cases erange <;> simp

/-- The cells that are typed by what their text says have a value that the text says. -/
theorem Typable.agrees {propname : List Char} (h : Typable round row)
    (hdate : propname.take 5 ≠ ['d', 'a', 't', 'e', ':']) :
    ∃ v, cellValue round row (getDataType round row propname) = .ok v ∧
      Agrees round row (getDataType round row propname) v := by
  obtain ⟨hint, hdtype⟩ | ⟨hint, hfloat, hdtype⟩ | ⟨hnumber, hword⟩ := getDataType_inv hdate
  · obtain ⟨pad, lit, pad', z, hrow, hpad, hpad', hlit, hrange, hz⟩ := isInt_iff.1 hint
    have hstoi := stoi_padded hrow hpad hpad' hlit hrange
    obtain ⟨rfl, rfl⟩ := h.bare pad lit pad' hrow hpad hpad' (.inl ⟨z, hlit, hrange, hz⟩)
    obtain rfl : row = lit := by simpa using hrow
    rw [hdtype, cellValue, hstoi]
    exact ⟨_, rfl, .integer hlit hrange⟩
  · obtain ⟨pad, d, pad', hrow, hpad, hpad', hd, hx⟩ := isFloat_iff.1 hfloat
    obtain ⟨rfl, rfl⟩ := h.bare pad d.text pad' hrow hpad hpad' (.inr ⟨d, hd, rfl, hx⟩)
    obtain rfl : row = d.text := by simpa using hrow
    have hout : ∀ z, IntLiteral d.text z → ¬ IsInt32 z := fun z hlit hrange => by
      by_cases hz : z = 0
      · exact h.nonzero (hz ▸ hlit)
      · rw [isInt_iff.2 ⟨[], d.text, [], z, by simp, allSpaces_nil, allSpaces_nil, hlit, hrange,
          hz⟩] at hint
        cases hint
    obtain ⟨x, hx⟩ := h.float d hd rfl hout
    rw [hdtype, cellValue, (stof_text hd).2 hx]
    exact ⟨_, rfl, .float hd rfl hout hx⟩
  · obtain ⟨htrue, hdtype⟩ | ⟨hfalse, hdtype⟩ | ⟨htrue, hfalse, hdtype⟩ := hword
    · rw [hdtype]
      exact ⟨_, rfl, .true htrue⟩
    · rw [hdtype]
      exact ⟨_, rfl, .false hfalse⟩
    · have hnot : ¬ ReadAsNumber round row := fun hread =>
        hnumber (isNumber_iff.2 ⟨[], row, [], by simp, allSpaces_nil, allSpaces_nil, hread⟩)
      have hout : ∀ z, IntLiteral row z → ¬ IsInt32 z := fun z hlit hrange => by
        by_cases hz : z = 0
        · exact h.nonzero (hz ▸ hlit)
        · exact hnot (.inl ⟨z, hlit, hrange, hz⟩)
      have hdec : ¬ DecimalLiteral row := by
        rintro ⟨d, hd, htext⟩
        obtain ⟨x, hx⟩ := h.float d hd htext hout
        exact hnot (.inr ⟨d, hd, htext, x, _, hx⟩)
      rw [hdtype]
      exact ⟨_, rfl, .string hout hdec htrue hfalse⟩

/-- Conversely. The cases are those of what the text says. -/
theorem Typable.of_agrees {propname : List Char} {v : Json}
    (hdate : propname.take 5 ≠ ['d', 'a', 't', 'e', ':'])
    (hvalue : cellValue round row (getDataType round row propname) = .ok v)
    (h : Agrees round row (getDataType round row propname) v) : Typable round row := by
  -- A number has no white space around it, and what is not tested to be a number is none.
  have hbare : DecimalLiteral row → ∀ pad lit pad', row = pad ++ (lit ++ pad') → AllSpaces pad →
      AllSpaces pad' → ReadAsNumber round lit → pad = [] ∧ pad' = [] := by
    rintro ⟨d, hd, rfl⟩ pad lit pad' hrow hpad hpad' -
    exact no_pad hd.no_space hrow hpad hpad'
  have hdtype := @getDataType_inv round row propname hdate
  generalize getDataType round row propname = dtype at h hvalue hdtype
  have hother : dtype ≠ .INTEGER → dtype ≠ .FLOAT → ¬ DecimalLiteral row → Typable round row := by
    intro hinteger hfloat hdec
    obtain ⟨-, rfl⟩ | ⟨-, -, rfl⟩ | ⟨hnumber, -⟩ := hdtype
    · exact absurd rfl hinteger
    · exact absurd rfl hfloat
    · exact ⟨fun hzero => hdec hzero.decimal, fun d hd htext _ => absurd ⟨d, hd, htext⟩ hdec,
        fun pad lit pad' hrow hpad hpad' hread =>
          absurd (isNumber_iff.2 ⟨pad, lit, pad', hrow, hpad, hpad', hread⟩) hnumber⟩
  cases h with
  | @integer z hlit hrange =>
      have hint : isInt row = true := by simpa using hdtype
      obtain ⟨pad, lit, pad', z', hrow, hpad, hpad', hlit', hrange', hz⟩ := isInt_iff.1 hint
      obtain ⟨rfl, rfl⟩ :=
        hbare hlit.decimal pad lit pad' hrow hpad hpad' (.inl ⟨z', hlit', hrange', hz⟩)
      obtain rfl : row = lit := by simpa using hrow
      exact ⟨fun hzero => hz (literal_unique hlit' hzero),
        fun d _ _ hout => absurd hrange (hout z hlit), hbare hlit.decimal⟩
  | @float d x erange hd htext hint hx =>
      have hstof : stof round row = .ok x := by
        cases hread : stof round row with
        | error e =>
            rw [cellValue, hread] at hvalue
            cases hvalue
        | ok y =>
            rw [cellValue, hread] at hvalue
            cases hvalue
            rfl
      refine ⟨fun hzero => hint 0 hzero (by decide), fun d' hd' htext' _ => ⟨x, ?_⟩,
        hbare ⟨d, hd, htext⟩⟩
      subst htext'
      exact (stof_text hd').1 hstof
  | true htrue => exact hother (by decide) (by decide) (not_decimal rfl htrue)
  | false hfalse => exact hother (by decide) (by decide) (not_decimal rfl hfalse)
  | string hint hdec htrue hfalse => exact hother (by decide) (by decide) hdec

/-! ### The command -/

/-- A value that members can be put into. -/
def IsMap (j : Json) : Prop := j = .null ∨ ∃ ms, j = .object ms

/-- A command that has its properties, or can be given some. The callers make it an object with the
class of the entity. -/
structure Building (aquery : Json) (queryType : String) : Prop where
  query : IsMap aquery
  command : ∀ command, aquery.get queryType = .ok command → IsMap command ∧
    ∀ properties, command.get "properties" = .ok properties → IsMap properties

/-- `aquery[queryType]["properties"][propname]`. -/
def property (aquery : Json) (queryType : String) (propname : List Char) :
    Except QueryError Json := do
  let command ← aquery.get queryType
  let properties ← command.get "properties"
  properties.get (String.ofList propname)

/-- Every member of an object can be read. -/
theorem IsMap.get {j : Json} (h : IsMap j) (key : String) : ∃ v, j.get key = .ok v := by
  obtain rfl | ⟨ms, rfl⟩ := h
  · exact ⟨_, rfl⟩
  · exact ⟨_, rfl⟩

/-- A member of an object can be set, and is then read back. -/
theorem IsMap.setMember {j : Json} (h : IsMap j) (key : String) (v : Json) :
    ∃ j', j.setMember key v = .ok j' ∧ j'.get key = .ok v := by
  obtain rfl | ⟨ms, rfl⟩ := h
  · exact ⟨_, rfl, Json.setMember_get_self (j := .null) rfl⟩
  · exact ⟨_, rfl, Json.setMember_get_self (j := .object ms) rfl⟩

/-- The property that was set. -/
theorem setProperty_ok {aquery : Json} {queryType : String} (h : Building aquery queryType)
    (propname : List Char) (v : Json) : ∃ aquery',
      setProperty aquery queryType propname v = .ok aquery' ∧
        property aquery' queryType propname = .ok v := by
  obtain ⟨command, hcommand⟩ := h.query.get queryType
  obtain ⟨hmap, hproperties⟩ := h.command command hcommand
  obtain ⟨properties, hget⟩ := hmap.get "properties"
  obtain ⟨properties', hset, hget'⟩ :=
    (hproperties properties hget).setMember (String.ofList propname) v
  obtain ⟨command', hsetCommand, hgetCommand⟩ := hmap.setMember "properties" properties'
  obtain ⟨aquery', hsetQuery, hgetQuery⟩ := h.query.setMember queryType command'
  refine ⟨aquery', ?_, ?_⟩
  · simp only [setProperty, hcommand, hget, hset, hsetCommand, hsetQuery, bind, Except.bind]
    rfl
  · simp only [property, hgetQuery, hgetCommand, hget', bind, Except.bind]

/-- `parseProperty` sets the value of the cell, unless its column is one of dates. -/
theorem parseProperty_eq {columnNames : List Char} (hcolumn : 5 ≤ columnNames.length)
    (hdate : (columnNames.drop 5).take 5 ≠ ['d', 'a', 't', 'e', ':']) (queryType : String)
    (aquery : Json) : parseProperty round columnNames row queryType aquery =
      (cellValue round row (getDataType round row (columnNames.drop 5))).bind
        (setProperty aquery queryType (columnNames.drop 5)) := by
  have hdtype := @getDataType_inv round row _ hdate
  rw [parseProperty, if_neg (by omega)]
  dsimp only
  generalize getDataType round row (columnNames.drop 5) = dtype at hdtype
  cases dtype with
  | TRUE | FALSE | STRING => rfl
  | INTEGER =>
      rw [cellValue]
      cases stoi row <;> rfl
  | FLOAT =>
      rw [cellValue]
      cases stof round row <;> rfl
  | DATE | WRONG => simp at hdtype

/-- The property has the type, and the value, that the text of the cell says. -/
def CellTyped (round : Bool → ℚ → FloatResult Double) (columnNames row : List Char)
    (queryType : String) (aquery : Json) : Prop :=
  ∃ aquery' v, parseProperty round columnNames row queryType aquery = .ok aquery' ∧
    property aquery' queryType (columnNames.drop 5) = .ok v ∧
    Agrees round row (getDataType round row (columnNames.drop 5)) v

/-- **The types of cells.** A property has the type, and the value, that its cell says exactly if
its column is not one of dates, the text is no integer 0, no number with white space around it, and
no float that is out of range. -/
theorem cells_typed_iff (round : Bool → ℚ → FloatResult Double) (columnNames row : List Char)
    (queryType : String) (aquery : Json) (hcolumn : 5 ≤ columnNames.length)
    (haquery : Building aquery queryType) :
    CellTyped round columnNames row queryType aquery ↔
      (columnNames.drop 5).take 5 ≠ ['d', 'a', 't', 'e', ':'] ∧ Typable round row := by
  constructor
  · rintro ⟨aquery', v, hparse, hv, hagrees⟩
    by_cases hdate : (columnNames.drop 5).take 5 = ['d', 'a', 't', 'e', ':']
    · rw [getDataType, if_pos hdate] at hagrees
      cases hagrees
    · rw [parseProperty_eq hcolumn hdate] at hparse
      cases hvalue : cellValue round row (getDataType round row (columnNames.drop 5)) with
      | error e =>
          rw [hvalue] at hparse
          cases hparse
      | ok w =>
          obtain ⟨aquery'', hset, hw⟩ := setProperty_ok haquery (columnNames.drop 5) w
          have heq : aquery'' = aquery' := by
            rw [hvalue] at hparse
            exact Except.ok.inj (hset.symm.trans hparse)
          obtain rfl : w = v := Except.ok.inj (hw.symm.trans (heq ▸ hv))
          exact ⟨hdate, .of_agrees hdate hvalue hagrees⟩
  · rintro ⟨hdate, htypable⟩
    obtain ⟨v, hvalue, hagrees⟩ := htypable.agrees hdate
    obtain ⟨aquery', hset, hv⟩ := setProperty_ok haquery (columnNames.drop 5) v
    refine ⟨aquery', v, ?_, hv, hagrees⟩
    rw [parseProperty_eq hcolumn hdate, hvalue]
    exact hset

/-- 1.5, as the number that is read. -/
def oneAndHalf : Bool → ℚ → FloatResult Double := fun _ _ => .value ⟨0x3FF8000000000000⟩ false

/-- A command with the class of an entity. -/
def person : Json := .object [("AddEntity", .object [("class", .string "Person")])]

/-- The command for a person has no properties yet. -/
theorem person_building : Building person "AddEntity" := by
  refine ⟨.inr ⟨_, rfl⟩, fun command h => ?_⟩
  obtain rfl : .object [("class", .string "Person")] = command := Except.ok.inj h
  refine ⟨.inr ⟨_, rfl⟩, fun properties h => ?_⟩
  obtain rfl : .null = properties := Except.ok.inj h
  exact .inl rfl

/-- The text 1.5 is typed as the float that it says. -/
theorem oneAndHalf_typable : Typable oneAndHalf "1.5".toList := by
  have hint : ∀ z, IntLiteral "1.5".toList z → ¬ IsInt32 z := by
    intro z hz
    have hread : strtol "1.5".toList = some (z, []) := strtol_literal hz
    have hone : strtol "1.5".toList = some (1, ['.', '5']) := by decide
    rw [hone, Option.some.injEq, Prod.mk.injEq] at hread
    cases hread.2
  have hvalid : Decimal.Valid ⟨[], ['1'], some ['5'], none⟩ :=
    ⟨fun _ h => (by cases h), by simp [AllDigits], fun _ h => (by cases h; simp [AllDigits]),
      .inl (by decide), fun _ _ _ h => (by cases h)⟩
  exact @Typable.of_agrees oneAndHalf _ "height".toList (.real ⟨0x3FF8000000000000⟩) (by decide)
    rfl (.float hvalid rfl hint rfl)

/-- The cell is typed by what its text says. -/
theorem cells_typed_iff_height :
    CellTyped oneAndHalf "prop_height".toList "1.5".toList "AddEntity" person :=
  (cells_typed_iff oneAndHalf "prop_height".toList "1.5".toList "AddEntity" person (by decide)
    person_building).2 ⟨by decide, oneAndHalf_typable⟩

/-- The integer 0 is made a float. -/
theorem zero_is_float :
    ¬ CellTyped (fun _ _ => .value ⟨0⟩ false) "prop_age".toList "0".toList "AddEntity" person := by
  rintro ⟨aquery', v, -, -, hagrees⟩
  have hdtype : getDataType (fun _ _ => .value ⟨0⟩ false) "0".toList ("prop_age".toList.drop 5) =
      .FLOAT := by decide
  rw [hdtype] at hagrees
  cases hagrees with
  | float hd htext hint hx =>
      exact hint 0 ⟨[], ['0'], rfl, fun _ h => (by cases h), by decide, by simp [AllDigits], rfl⟩
        (by decide)

end CSVParserUtil

end Vdms
