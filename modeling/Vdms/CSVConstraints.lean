import Vdms.Building
import Vdms.CSVParserUtil

/-!
# The Constraints of CSV Cells

A constraint is one cell: the name of a property, and comparisons with values, separated by commas.
`CSVParserUtil::spiltrow` splits the cell at the operators, and `parseConstraints` appends what is
between them to the constraint of a command.

## Main definitions

* `spiltrow`, `parseConstraints`: the functions.
* `Constraint.text`: how a constraint is written.
* `Intact`: the constraint of the command is the one that was written.

## Main results

* `spiltrow_eq`: `spiltrow` by recursion on what is left of the text.
* `intact_iff`: the constraints that are read as they are written.
-/

namespace Vdms

/-- `append`: null becomes an array. -/
def Json.append (j v : Json) : Except QueryError Json :=
  match j with
  | .null => .ok (.array [v])
  | .array xs => .ok (.array (xs ++ [v]))
  | _ => .error .logicError

namespace CSVParserUtil

open NumberText

/-- The characters at which a cell is split. -/
def isOperator (c : Char) : Bool := c = '<' || c = '>' || c = '='

/-- What is behind the end of a string. -/
def nul : Char := Char.ofNat 0

/-- The loop of `CSVParserUtil::spiltrow`. -/
def spiltrowLoop (row : List Char) (start i : ℕ) (rowv : List (List Char)) : List (List Char) :=
  if h : i < row.length then
    if isOperator row[i] then
      if row.getD (i + 1) nul = '=' then
        spiltrowLoop row (i + 2) (i + 2)
          (rowv ++ [(row.drop start).take (i - start), (row.drop i).take 2])
      else
        spiltrowLoop row (i + 1) (i + 1)
          (rowv ++ [(row.drop start).take (i - start), (row.drop i).take 1])
    else if row[i] = ',' then spiltrowLoop (row.eraseIdx i) start i rowv
    else spiltrowLoop row start (i + 1) rowv
  else rowv ++ [row.drop start]
termination_by row.length - i
decreasing_by
  · omega
  · omega
  · rw [List.length_eraseIdx, if_pos h]
    omega
  · omega

/-- `CSVParserUtil::spiltrow`. -/
def spiltrow (str : List Char) : List (List Char) := spiltrowLoop str 0 0 []

/-- `aquery[queryType]["constraints"][name].append(v)`. -/
def appendConstraint (queryType : String) (name : List Char) (aquery v : Json) :
    Except Failure Json :=
  Except.mapError .json do
    let command ← aquery.get queryType
    let constraints ← command.get "constraints"
    let constraint ← constraints.get (String.ofList name)
    let constraint ← constraint.append v
    let constraints ← constraints.setMember (String.ofList name) constraint
    let command ← command.setMember "constraints" constraints
    aquery.setMember queryType command

def isDate (consname : List Char) : Prop := consname.take 5 = ['d', 'a', 't', 'e', ':']

instance (consname : List Char) : Decidable (isDate consname) :=
  inferInstanceAs (Decidable (_ = _))

/-- The name under which a constraint is put. -/
def constraintKey (consname : List Char) : List Char :=
  if isDate consname then consname.drop 5 else consname

/-- What is appended for the element `z` of the split cell. -/
def constraintValue (round : Bool → ℚ → FloatResult Double) (consname consval : List Char) (z : ℕ) :
    Except Failure Json :=
  if isDate consname then
    if z % 2 = 1 then .ok (.string (String.ofList consval))
    else .ok (.object [("_date", .string (String.ofList consval))])
  else cellValue round consval (getDataType round consval consname)

/-- The loops of `parseConstraints`, from the element `z` on. -/
def appendConstvals (round : Bool → ℚ → FloatResult Double) (consname : List Char)
    (queryType : String) : List (List Char) → ℕ → Json → Except Failure Json
  | [], _, aquery => .ok aquery
  | consval :: consvals, z, aquery => do
      let v ← constraintValue round consname consval z
      let aquery ← appendConstraint queryType (constraintKey consname) aquery v
      appendConstvals round consname queryType consvals (z + 1) aquery

/-- `CSVParserUtil::parseConstraints`: the command with the constraint. There is always a name in
what `spiltrow` returns. -/
def parseConstraints (round : Bool → ℚ → FloatResult Double) (row : List Char) (queryType : String)
    (aquery : Json) : Except Failure Json :=
  match spiltrow row with
  | [] => .ok aquery
  | consname :: consvals => appendConstvals round consname queryType consvals 1 aquery

/-! ### Splitting a cell -/

/-- `spiltrow` on what is left of the text, behind a segment that is not ended yet. -/
def splitFrom (segment : List Char) : List Char → List (List Char)
  | [] => [segment]
  | c :: rest =>
      if isOperator c then
        if rest.headD nul = '=' then segment :: [c, '='] :: splitFrom [] rest.tail
        else segment :: [c] :: splitFrom [] rest
      else if c = ',' then splitFrom segment rest
      else splitFrom (segment ++ [c]) rest
termination_by rest => rest.length
decreasing_by
  · rw [List.length_tail, List.length_cons]
    omega
  · exact Nat.lt_succ_self _
  · exact Nat.lt_succ_self _
  · exact Nat.lt_succ_self _

section Split

variable {done segment rest : List Char} {c : Char}

/-- What is behind the segment. -/
theorem text_drop : (done ++ (segment ++ rest)).drop (done.length + segment.length) = rest := by
  rw [← List.append_assoc, ← List.length_append, List.drop_left]

/-- The segment is found at its place. -/
theorem text_segment :
    ((done ++ (segment ++ rest)).drop done.length).take
      (done.length + segment.length - done.length) = segment := by
  rw [List.drop_left, Nat.add_sub_cancel_left, List.take_left]

/-- The character behind the segment. -/
theorem text_get (h : done.length + segment.length < (done ++ (segment ++ c :: rest)).length) :
    (done ++ (segment ++ c :: rest))[done.length + segment.length] = c := by
  have hget : (done ++ (segment ++ c :: rest))[done.length + segment.length]? = some c := by
    have hdrop := @text_drop done segment (c :: rest)
    rw [← Nat.add_zero (done.length + segment.length), ← List.getElem?_drop, hdrop]
    rfl
  exact (List.getElem_eq_iff h).2 hget

/-- The character behind that one, or the end of the text. -/
theorem text_getD :
    (done ++ (segment ++ c :: rest)).getD (done.length + segment.length + 1) nul =
      rest.headD nul := by
  have hdrop := @text_drop done segment (c :: rest)
  rw [List.getD_eq_getElem?_getD, ← List.getElem?_drop, hdrop]
  cases rest <;> rfl

/-- Erasing the character behind the segment leaves the segment and the rest. -/
theorem text_erase : (done ++ (segment ++ c :: rest)).eraseIdx (done.length + segment.length) =
    done ++ (segment ++ rest) := by
  rw [List.eraseIdx_append_of_length_le (by omega), Nat.add_sub_cancel_left,
    List.eraseIdx_append_of_length_le le_rfl, Nat.sub_self]
  rfl

end Split

/-- The loop, on a text of what has been split, a segment and what is left. Induction on what is
left. -/
theorem spiltrowLoop_eq (segment rest : List Char) : ∀ (done : List Char) (rowv : List (List Char)),
    spiltrowLoop (done ++ (segment ++ rest)) done.length (done.length + segment.length) rowv =
      rowv ++ splitFrom segment rest := by
  induction segment, rest using splitFrom.induct with
  | case1 segment =>
      intro done rowv
      rw [spiltrowLoop, dif_neg (by simp), splitFrom, List.append_nil, List.drop_left]
  | case2 segment c rest hop heq ih =>
      intro done rowv
      have hrest : rest = '=' :: rest.tail := by
        cases rest with
        | nil => cases heq
        | cons d rest => rw [show d = '=' from heq]; rfl
      have hnext := ih (done ++ (segment ++ [c, '='])) (rowv ++ [segment, [c, '=']])
      rw [spiltrowLoop, dif_pos (by simp), text_get, if_pos hop, text_getD, if_pos heq,
        text_segment, text_drop, splitFrom, if_pos hop, if_pos heq]
      rw [hrest] at hnext ⊢
      simpa [Nat.add_assoc] using hnext
  | case3 segment c rest hop hne ih =>
      intro done rowv
      have hnext := ih (done ++ (segment ++ [c])) (rowv ++ [segment, [c]])
      rw [spiltrowLoop, dif_pos (by simp), text_get, if_pos hop, text_getD, if_neg hne,
        text_segment, text_drop, splitFrom, if_pos hop, if_neg hne]
      simpa [Nat.add_assoc] using hnext
  | case4 segment rest hop ih =>
      intro done rowv
      rw [spiltrowLoop, dif_pos (by simp), text_get, if_neg hop, if_pos rfl, text_erase, ih,
        splitFrom, if_neg hop, if_pos rfl]
  | case5 segment c rest hop hne ih =>
      intro done rowv
      have hnext := ih done rowv
      rw [spiltrowLoop, dif_pos (by simp), text_get, if_neg hop, if_neg hne, splitFrom, if_neg hop,
        if_neg hne]
      simpa [Nat.add_assoc] using hnext

/-- `spiltrow` is the loop from the beginning of the text. -/
theorem spiltrow_eq (str : List Char) : spiltrow str = splitFrom [] str :=
  spiltrowLoop_eq [] str [] []

/-! ### The text of a constraint -/

/-- The operators of the query language. -/
inductive Operator where
  | eq
  | ne
  | lt
  | le
  | gt
  | ge
deriving DecidableEq

namespace Operator

def text : Operator → List Char
  | .eq => ['=', '=']
  | .ne => ['!', '=']
  | .lt => ['<']
  | .le => ['<', '=']
  | .gt => ['>']
  | .ge => ['>', '=']

/-- What is left of an operator by `spiltrow`. -/
def rest : Operator → List Char
  | .ne => ['=']
  | op => op.text

/-- What `spiltrow` leaves at the end of the segment before. -/
def lead : Operator → List Char
  | .ne => ['!']
  | _ => []

/-- Only `!=` leaves a character with the name. -/
theorem lead_eq_nil {op : Operator} : op.lead = [] ↔ op ≠ .ne := by
  cases op <;> simp [lead]

/-- The character that is left is no comma. -/
theorem comma_not_lead (op : Operator) : ',' ∉ op.lead := by
  cases op <;> decide

/-- Only `!=` loses a character of its own. -/
theorem rest_eq_text {op : Operator} : op.rest = op.text ↔ op ≠ .ne := by
  cases op <;> simp [rest, text]

end Operator

/-- The characters of operators. -/
def isMark (c : Char) : Bool := isOperator c || c = '!'

/-- A comparison with a value, which has no characters of operators and no commas. -/
structure Comparison where
  op : Operator
  value : List Char
  value_plain : ∀ c ∈ value, isMark c = false ∧ c ≠ ','

/-- A constraint: a name, which has no characters of operators, and a comparison or more. -/
structure CellConstraint where
  name : List Char
  name_plain : ∀ c ∈ name, isMark c = false
  first : Comparison
  more : List Comparison

/-- The spaces with which a constraint may be written. -/
def spaces (gap : ℕ) : List Char := List.replicate gap ' '

def Comparison.text (gap : ℕ) (comparison : Comparison) : List Char :=
  comparison.op.text ++ (spaces gap ++ comparison.value)

/-- The comparisons behind the first one. -/
def moreText (gap : ℕ) (more : List Comparison) : List Char :=
  more.flatMap fun comparison => ',' :: (spaces gap ++ comparison.text gap)

/-- How a constraint is written. -/
def CellConstraint.text (gap : ℕ) (constraint : CellConstraint) : List Char :=
  constraint.name ++ (spaces gap ++ (constraint.first.text gap ++ moreText gap constraint.more))

/-- What `spiltrow` makes of comparisons. -/
def pieces (gap : ℕ) : Comparison → List Comparison → List (List Char)
  | comparison, [] => [comparison.op.rest, spaces gap ++ comparison.value]
  | comparison, next :: more =>
      comparison.op.rest :: (spaces gap ++ comparison.value ++ spaces gap ++ next.op.lead) ::
        pieces gap next more

section Text

variable {segment cs rest : List Char} {gap : ℕ}

/-- Characters that are no operators go to the segment, without the commas. -/
theorem splitFrom_plain (h : ∀ c ∈ cs, isOperator c = false) :
    splitFrom segment (cs ++ rest) = splitFrom (segment ++ cs.filter (· ≠ ',')) rest := by
  induction cs generalizing segment with
  | nil => rw [List.filter_nil, List.append_nil, List.nil_append]
  | cons c cs ih =>
      rw [List.forall_mem_cons] at h
      rw [List.cons_append, splitFrom, if_neg (by simp [h.1])]
      by_cases hcomma : c = ','
      · rw [if_pos hcomma, ih h.2, List.filter_cons_of_neg (by simp [hcomma])]
      · rw [if_neg hcomma, ih h.2, List.filter_cons_of_pos (by simp [hcomma]), List.append_assoc]
        rfl

/-- An operator ends the segment and is a segment of its own. -/
theorem splitFrom_op (op : Operator) (h : rest.headD nul ≠ '=') :
    splitFrom segment (op.text ++ rest) =
      (segment ++ op.lead) :: op.rest :: splitFrom [] rest := by
  rw [List.headD_eq_head?_getD] at h
  cases op with
  | eq | le | ge => simp [Operator.text, Operator.lead, Operator.rest, splitFrom, isOperator]
  | lt | gt | ne => simp [Operator.text, Operator.lead, Operator.rest, splitFrom, isOperator, h]

/-- A space is no operator. -/
theorem spaces_plain : ∀ c ∈ spaces gap, isOperator c = false := by
  intro c hc
  rw [List.eq_of_mem_replicate hc]
  rfl

/-- A space is no comma. -/
theorem spaces_filter : (spaces gap).filter (· ≠ ',') = spaces gap :=
  List.filter_eq_self.2 fun c hc => by
    rw [List.eq_of_mem_replicate hc]
    rfl

/-- What is no mark is no operator. -/
theorem not_operator {c : Char} (h : isMark c = false) : isOperator c = false :=
  (Bool.or_eq_false_iff.1 h).1

/-- A value has no operators in it. -/
theorem Comparison.plain (comparison : Comparison) : ∀ c ∈ comparison.value, isOperator c = false :=
  fun c hc => not_operator (comparison.value_plain c hc).1

/-- A value has no commas in it. -/
theorem Comparison.filter (comparison : Comparison) :
    comparison.value.filter (· ≠ ',') = comparison.value :=
  List.filter_eq_self.2 fun c hc => by simpa using (comparison.value_plain c hc).2

/-- What is behind text without operators does not begin with an equals sign. -/
theorem head_ne {tail : List Char} (hcs : ∀ c ∈ cs, isOperator c = false)
    (htail : tail.headD nul ≠ '=') : (cs ++ tail).headD nul ≠ '=' := by
  cases cs with
  | nil => exact htail
  | cons c cs =>
      rintro rfl
      have hop := hcs _ List.mem_cons_self
      cases hop

/-- Further comparisons do not begin with an equals sign. -/
theorem moreText_head (more : List Comparison) : (moreText gap more).headD nul ≠ '=' := by
  cases more with
  | nil =>
      change nul ≠ '='
      decide
  | cons next more =>
      change ',' ≠ '='
      decide

/-- A comparison ends the segment, and its value begins the next one. -/
theorem splitFrom_comparison (comparison : Comparison) {tail : List Char}
    (htail : tail.headD nul ≠ '=') :
    splitFrom segment (comparison.text gap ++ tail) =
      (segment ++ comparison.op.lead) :: comparison.op.rest ::
        splitFrom (spaces gap ++ comparison.value) tail := by
  have hhead := head_ne (@spaces_plain gap) (head_ne comparison.plain htail)
  rw [Comparison.text, List.append_assoc, List.append_assoc, splitFrom_op _ hhead,
    splitFrom_plain spaces_plain, splitFrom_plain comparison.plain, spaces_filter,
    comparison.filter, List.nil_append]

/-- Induction on the comparisons behind the first one. -/
theorem splitFrom_comparisons (comparison : Comparison) (more : List Comparison) :
    splitFrom segment (comparison.text gap ++ moreText gap more) =
      (segment ++ comparison.op.lead) :: pieces gap comparison more := by
  rw [splitFrom_comparison comparison (moreText_head more)]
  induction more generalizing segment comparison with
  | nil =>
      rw [moreText, List.flatMap_nil, splitFrom]
      rfl
  | cons next more ih =>
      have htext : moreText gap (next :: more) =
          ',' :: spaces gap ++ (next.text gap ++ moreText gap more) := by
        rw [moreText, List.flatMap_cons, List.cons_append, List.cons_append, List.append_assoc]
        rfl
      have hplain : ∀ c ∈ ',' :: spaces gap, isOperator c = false :=
        List.forall_mem_cons.2 ⟨rfl, spaces_plain⟩
      rw [htext, splitFrom_plain hplain, List.filter_cons_of_neg (by decide), spaces_filter,
        splitFrom_comparison next (moreText_head more), pieces]
      exact congrArg (_ :: _ :: ·) (ih next)

/-- What `spiltrow` makes of a constraint: the commas of its name are lost, and the first character
of `!=` stays with what is before it. -/
theorem spiltrow_text (constraint : CellConstraint) :
    spiltrow (constraint.text gap) =
      (constraint.name.filter (· ≠ ',') ++ spaces gap ++ constraint.first.op.lead) ::
        pieces gap constraint.first constraint.more := by
  rw [spiltrow_eq, CellConstraint.text,
    splitFrom_plain fun c hc => not_operator (constraint.name_plain c hc),
    splitFrom_plain spaces_plain, spaces_filter, splitFrom_comparisons, List.nil_append]

end Text

/-! ### The command -/

/-- `aquery[queryType]["constraints"][key]`. -/
def constraintOf (aquery : Json) (queryType : String) (key : List Char) :
    Except QueryError Json := do
  let command ← aquery.get queryType
  let constraints ← command.get "constraints"
  constraints.get (String.ofList key)

/-- A command whose constraint of a key has the given elements, or can be given some. -/
structure Constraining (aquery : Json) (queryType : String) (key : List Char) (xs : List Json) :
    Prop where
  query : IsMap aquery
  command : ∀ command, aquery.get queryType = .ok command → IsMap command ∧
    ∀ constraints, command.get "constraints" = .ok constraints → IsMap constraints ∧
      constraints.get (String.ofList key) = .ok (Json.appended xs)

section Command

variable {aquery aquery' j j' v : Json} {queryType : String} {key key' : List Char} {xs : List Json}

/-- A value is appended to the constraint. -/
theorem appended_append : (Json.appended xs).append v = .ok (Json.appended (xs ++ [v])) := by
  cases xs with
  | nil => rfl
  | cons x xs => rfl

/-- What a member has been set in is an object. -/
theorem IsMap.of_setMember {key : String} (h : j.setMember key v = .ok j') : IsMap j' := by
  cases j with
  | null | object =>
      cases h
      exact .inr ⟨_, rfl⟩
  | _ => cases h

/-- A value can be appended to a constraint that is being built. -/
theorem append_ok (h : Constraining aquery queryType key xs) (v : Json) :
    ∃ aquery', appendConstraint queryType key aquery v = .ok aquery' ∧
      Constraining aquery' queryType key (xs ++ [v]) := by
  obtain ⟨command, hcommand⟩ := h.query.get queryType
  obtain ⟨hmap, hconstraints⟩ := h.command command hcommand
  obtain ⟨constraints, hget⟩ := hmap.get "constraints"
  obtain ⟨hmap', helements⟩ := hconstraints constraints hget
  obtain ⟨constraints', hset, hkey⟩ :=
    hmap'.setMember (String.ofList key) (Json.appended (xs ++ [v]))
  obtain ⟨command', hsetCommand, hgetCommand⟩ := hmap.setMember "constraints" constraints'
  obtain ⟨aquery', hsetQuery, hgetQuery⟩ := h.query.setMember queryType command'
  refine ⟨aquery', ?_, IsMap.of_setMember hsetQuery, ?_⟩
  · simp only [appendConstraint, hcommand, hget, helements, appended_append, hset, hsetCommand,
      hsetQuery, bind, Except.bind]
    rfl
  · intro command'' hcommand''
    obtain rfl : command' = command'' := Except.ok.inj (hgetQuery.symm.trans hcommand'')
    refine ⟨IsMap.of_setMember hsetCommand, fun constraints'' hconstraints'' => ?_⟩
    obtain rfl : constraints' = constraints'' :=
      Except.ok.inj (hgetCommand.symm.trans hconstraints'')
    exact ⟨IsMap.of_setMember hset, hkey⟩

/-- The constraints of other keys. -/
theorem append_frame (h : appendConstraint queryType key' aquery v = .ok aquery')
    (hne : key ≠ key') :
    constraintOf aquery' queryType key = constraintOf aquery queryType key := by
  obtain ⟨command, hcommand, h⟩ := bind_ok_inv (mapError_eq h)
  obtain ⟨constraints, hconstraints, h⟩ := bind_ok_inv h
  obtain ⟨_, -, h⟩ := bind_ok_inv h
  obtain ⟨_, -, h⟩ := bind_ok_inv h
  obtain ⟨constraints', hset, h⟩ := bind_ok_inv h
  obtain ⟨command', hset', hset''⟩ := bind_ok_inv h
  have hkey : String.ofList key ≠ String.ofList key' := fun heq =>
    hne (String.ofList_injective heq)
  have hquery := Json.setMember_get_self hset''
  have hcommand' := Json.setMember_get_self hset'
  have hconstraints' := Json.setMember_get hset (String.ofList key)
  rw [if_neg hkey] at hconstraints'
  simp only [constraintOf, hquery, hcommand', hconstraints', hcommand, hconstraints, bind,
    Except.bind]

end Command

/-! ### The elements of a constraint -/

section Elements

variable {round : Bool → ℚ → FloatResult Double} {consname : List Char} {queryType : String}

/-- The values that are appended, from the element `z` on. -/
def constvals (round : Bool → ℚ → FloatResult Double) (consname : List Char) :
    List (List Char) → ℕ → Except Failure (List Json)
  | [], _ => .ok []
  | consval :: consvals, z => do
      let v ← constraintValue round consname consval z
      let vs ← constvals round consname consvals (z + 1)
      pure (v :: vs)

/-- The values are read one after the other. -/
theorem constvals_cons {consval : List Char} {consvals : List (List Char)} {z : ℕ}
    {vs : List Json} : constvals round consname (consval :: consvals) z = .ok vs ↔
      ∃ v vs', constraintValue round consname consval z = .ok v ∧
        constvals round consname consvals (z + 1) = .ok vs' ∧ vs = v :: vs' := by
  constructor
  · intro h
    obtain ⟨v, hv, h⟩ := bind_ok_inv h
    obtain ⟨vs', hvs, h⟩ := bind_ok_inv h
    exact ⟨v, vs', hv, hvs, (Except.ok.inj h).symm⟩
  · rintro ⟨v, vs', hv, hvs, rfl⟩
    rw [constvals, hv]
    change (constvals round consname consvals (z + 1) >>= _) = _
    rw [hvs]
    rfl

/-- The values are appended to the constraint, one after the other. Induction on the elements. -/
theorem appendConstvals_ok {consvals : List (List Char)} : ∀ {z : ℕ} {vs xs : List Json}
    {aquery : Json}, constvals round consname consvals z = .ok vs →
      Constraining aquery queryType (constraintKey consname) xs →
        ∃ aquery', appendConstvals round consname queryType consvals z aquery = .ok aquery' ∧
          Constraining aquery' queryType (constraintKey consname) (xs ++ vs) := by
  induction consvals with
  | nil =>
      intro z vs xs aquery hvs h
      cases hvs
      refine ⟨aquery, rfl, ?_⟩
      rwa [List.append_nil]
  | cons consval consvals ih =>
      intro z vs xs aquery hvs h
      obtain ⟨v, vs', hv, hvs', rfl⟩ := constvals_cons.1 hvs
      obtain ⟨aquery', happend, h'⟩ := append_ok h v
      obtain ⟨aquery'', hrest, h''⟩ := ih hvs' h'
      refine ⟨aquery'', ?_, ?_⟩
      · rw [appendConstvals, hv]
        change (appendConstraint _ _ _ _ >>= _) = _
        rw [happend]
        exact hrest
      · rwa [List.append_assoc] at h''

/-- What is appended has a value throughout. -/
theorem appendConstvals_inv {consvals : List (List Char)} : ∀ {z : ℕ} {aquery aquery' : Json},
    appendConstvals round consname queryType consvals z aquery = .ok aquery' →
      (∃ vs, constvals round consname consvals z = .ok vs) ∧
        ∀ key, key ≠ constraintKey consname →
          constraintOf aquery' queryType key = constraintOf aquery queryType key := by
  induction consvals with
  | nil =>
      intro z aquery aquery' h
      cases h
      exact ⟨⟨[], rfl⟩, fun _ _ => rfl⟩
  | cons consval consvals ih =>
      intro z aquery aquery' h
      obtain ⟨v, hv, h⟩ := bind_ok_inv h
      obtain ⟨aquery'', happend, h⟩ := bind_ok_inv h
      obtain ⟨⟨vs, hvs⟩, hframe⟩ := ih h
      refine ⟨⟨v :: vs, constvals_cons.2 ⟨v, vs, hv, hvs, rfl⟩⟩, fun key hne => ?_⟩
      rw [hframe key hne, append_frame happend hne]

/-- The constraint that is being built holds the values so far. -/
theorem Constraining.get {aquery : Json} {key : List Char} {xs : List Json}
    (h : Constraining aquery queryType key xs) :
    constraintOf aquery queryType key = .ok (Json.appended xs) := by
  obtain ⟨command, hcommand⟩ := h.query.get queryType
  obtain ⟨hmap, hconstraints⟩ := h.command command hcommand
  obtain ⟨constraints, hget⟩ := hmap.get "constraints"
  have helements := (hconstraints constraints hget).2
  simp only [constraintOf, hcommand, hget, helements, bind, Except.bind]

end Elements

/-! ### Constraints that are read as they are written -/

/-- A value of a constraint is what the text says: of the type that its text has, or a date. -/
def ValueOf (round : Bool → ℚ → FloatResult Double) (name value : List Char) (j : Json) : Prop :=
  if isDate name then j = .object [("_date", .string (String.ofList value))]
  else Agrees round value (getDataType round value name) j

/-- The operators, each with its value, in their order. -/
inductive Written (round : Bool → ℚ → FloatResult Double) (name : List Char) :
    List Comparison → List Json → Prop
  | nil : Written round name [] []
  | cons {comparison : Comparison} {more : List Comparison} {j : Json} {vs : List Json}
      (hj : ValueOf round name comparison.value j) (hvs : Written round name more vs) :
      Written round name (comparison :: more)
        (.string (String.ofList comparison.op.text) :: j :: vs)

/-- The constraint of the command, under the name that was written, has gained what was written. -/
def Intact (round : Bool → ℚ → FloatResult Double) (gap : ℕ) (constraint : CellConstraint)
    (queryType : String) (aquery : Json) (xs : List Json) : Prop :=
  ∃ aquery' vs,
    parseConstraints round (constraint.text gap) queryType aquery = .ok aquery' ∧
    constraintOf aquery' queryType (constraintKey constraint.name) = .ok (.array (xs ++ vs)) ∧
    Written round constraint.name (constraint.first :: constraint.more) vs

section Pieces

variable {round : Bool → ℚ → FloatResult Double} {name value : List Char} {z : ℕ}

/-- A text without digits that spells no word is a string. -/
theorem getDataType_string {cs : List Char} (hname : ¬ isDate name)
    (hdigit : cs.any Char.isDigit = false) (hlength : cs.length ≤ 2) :
    getDataType round cs name = .STRING := by
  have hnot : ¬ (isInt cs = true ∨ isFloat round cs = true) := by
    intro hnumber
    obtain ⟨pad, lit, pad', rfl, -, -, hread⟩ := isNumber_iff.1 hnumber
    have hdec : DecimalLiteral lit := by
      obtain ⟨z, hlit, -⟩ | ⟨d, hd, htext, -⟩ := hread
      · exact hlit.decimal
      · exact ⟨d, hd, htext⟩
    obtain ⟨d, hd, rfl⟩ := hdec
    obtain ⟨c, hc, hdigit'⟩ := hd.exists_digit
    exact List.any_eq_false.1 hdigit c (by simp [hc]) hdigit'
  have hword : ∀ {word : List Char}, 2 < word.length → cs.map Char.toLower ≠ word := by
    rintro _ hlt rfl
    rw [List.length_map] at hlt
    omega
  obtain ⟨hint, -⟩ | ⟨-, hfloat, -⟩ | ⟨-, ⟨htrue, -⟩ | ⟨hfalse, -⟩ | ⟨-, -, hstring⟩⟩ :=
    @getDataType_inv round cs name hname
  · exact absurd (.inl hint) hnot
  · exact absurd (.inr hfloat) hnot
  · exact absurd htrue (hword (by decide))
  · exact absurd hfalse (hword (by decide))
  · exact hstring

/-- An operator is appended as it is. -/
theorem constraintValue_op (hz : z % 2 = 1) (op : Operator) :
    constraintValue round name op.rest z = .ok (.string (String.ofList op.rest)) := by
  rw [constraintValue]
  by_cases hname : isDate name
  · rw [if_pos hname, if_pos hz]
  · have hstring : getDataType round op.rest name = .STRING := by
      cases op <;> exact getDataType_string hname rfl (by decide)
    rw [if_neg hname, hstring]
    rfl

/-- The values that are appended as what they say. -/
theorem constraintValue_iff (hz : z % 2 = 0) :
    (∃ j, constraintValue round name value z = .ok j ∧ ValueOf round name value j) ↔
      (¬ isDate name → Typable round value) := by
  by_cases hname : isDate name
  · refine iff_of_true ⟨_, ?_, (if_pos hname).mpr rfl⟩ (absurd hname)
    rw [constraintValue, if_pos hname, if_neg (by omega)]
  · rw [constraintValue, if_neg hname]
    simp only [ValueOf, hname, not_false_eq_true, forall_const]
    constructor
    · rintro ⟨j, hvalue, hagrees⟩
      exact .of_agrees hname hvalue hagrees
    · intro htypable
      exact htypable.agrees hname

/-- An operator and what is behind it. -/
theorem pair_iff {comparison : Comparison} {more : List Comparison} {segment : List Char}
    {segments : List (List Char)} (hz : z % 2 = 1) :
    (∃ vs, constvals round name (comparison.op.rest :: segment :: segments) z = .ok vs ∧
      Written round name (comparison :: more) vs) ↔
      comparison.op ≠ .ne ∧ (∃ j, constraintValue round name segment (z + 1) = .ok j ∧
        ValueOf round name comparison.value j) ∧
        ∃ vs, constvals round name segments (z + 1 + 1) = .ok vs ∧ Written round name more vs := by
  constructor
  · rintro ⟨vs, hvs, hwritten⟩
    obtain ⟨v, _, hv, hrest, rfl⟩ := constvals_cons.1 hvs
    obtain ⟨j, vs', hj, hvs', rfl⟩ := constvals_cons.1 hrest
    cases hwritten with
    | cons hvalue hmore =>
        rw [constraintValue_op hz, Except.ok.injEq, Json.string.injEq] at hv
        exact ⟨Operator.rest_eq_text.1 (String.ofList_injective hv), ⟨j, hj, hvalue⟩, vs', hvs',
          hmore⟩
  · rintro ⟨hop, ⟨j, hj, hvalue⟩, vs, hvs, hmore⟩
    refine ⟨_, constvals_cons.2 ⟨_, _, constraintValue_op hz _, constvals_cons.2
      ⟨j, vs, hj, hvs, rfl⟩, rfl⟩, ?_⟩
    rw [Operator.rest_eq_text.2 hop]
    exact .cons hvalue hmore

/-- The comparisons are appended as they are written exactly if none is with `!=` and the values are
appended as what they say. Induction on the comparisons behind the first one. -/
theorem pieces_iff {comparison : Comparison} {more : List Comparison} (hz : z % 2 = 1) :
    (∃ vs, constvals round name (pieces 0 comparison more) z = .ok vs ∧
      Written round name (comparison :: more) vs) ↔
      ∀ c ∈ comparison :: more, c.op ≠ .ne ∧ (¬ isDate name → Typable round c.value) := by
  induction more generalizing comparison z with
  | nil =>
      have hnil : ∃ vs, constvals round name [] (z + 1 + 1) = .ok vs ∧ Written round name [] vs :=
        ⟨[], rfl, .nil⟩
      rw [pieces, pair_iff hz, and_iff_left hnil, List.forall_mem_singleton]
      exact and_congr_right fun _ => constraintValue_iff (by omega)
  | cons next more ih =>
      rw [pieces, pair_iff hz, ih (by omega)]
      refine Iff.trans ?_ List.forall_mem_cons.symm
      rw [and_assoc]
      refine and_congr_right fun _ => and_congr_left fun hmore => ?_
      have hlead := Operator.lead_eq_nil.2 (hmore next List.mem_cons_self).1
      rw [hlead]
      change (∃ j, constraintValue round name (comparison.value ++ [] ++ []) (z + 1) = _ ∧ _) ↔ _
      rw [List.append_nil, List.append_nil]
      exact constraintValue_iff (by omega)

end Pieces

/-! ### The name of a constraint -/

section Name

variable {name : List Char} {gap : ℕ} {c : Char}

/-- The key of a constraint has only characters of the name. -/
theorem mem_of_key (h : c ∈ constraintKey name) : c ∈ name := by
  rw [constraintKey] at h
  split at h
  · exact List.mem_of_mem_drop h
  · exact h

/-- A character that is not in the prefix of dates is behind it. -/
theorem mem_key (h : c ∈ name) (hc : c ∉ ['d', 'a', 't', 'e', ':']) : c ∈ constraintKey name := by
  rw [constraintKey]
  split
  · rename_i hdate
    rw [← List.take_append_drop 5 name, List.mem_append] at h
    exact h.resolve_left (hdate ▸ hc)
  · exact h

/-- Spaces behind a name are no part of the prefix of dates. -/
theorem isDate_spaces : isDate (name ++ spaces gap) ↔ isDate name := by
  rw [isDate, isDate, List.take_append]
  cases htail : (spaces gap).take (5 - name.length) with
  | nil => rw [List.append_nil]
  | cons c tail =>
      have hspace : c = ' ' := List.eq_of_mem_replicate
        (List.mem_of_mem_take (htail ▸ List.mem_cons_self))
      subst hspace
      refine iff_of_false (fun hdate => ?_) fun hdate => ?_
      · have hmem : ' ' ∈ ['d', 'a', 't', 'e', ':'] := hdate ▸ by simp
        revert hmem
        decide
      · have hlength := congrArg List.length hdate
        rw [List.length_take] at hlength
        have hzero : 5 - name.length = 0 := by
          change min 5 name.length = 5 at hlength
          omega
        rw [hzero] at htail
        cases htail

/-- Spaces behind the name become part of the key. -/
theorem key_spaces (h : constraintKey (name ++ spaces gap) = constraintKey name) : gap = 0 := by
  have hlength := congrArg List.length h
  rw [constraintKey, constraintKey] at hlength
  simp only [isDate_spaces] at hlength
  split at hlength
  · rename_i hdate
    have hfive := congrArg List.length hdate
    rw [List.length_take] at hfive
    change min 5 name.length = 5 at hfive
    simp only [List.length_drop, List.length_append, spaces, List.length_replicate] at hlength
    omega
  · simpa [spaces] using hlength

/-- A name without a comma is kept as it is. -/
theorem filter_comma (h : ',' ∉ name) : name.filter (· ≠ ',') = name :=
  List.filter_eq_self.2 fun c hc => by
    rw [decide_eq_true_eq]
    rintro rfl
    exact h hc

/-- The names that are found again: the commas of others are lost, and what is behind stays with
them. -/
theorem key_inv {constraint : CellConstraint} (h : constraintKey
    (constraint.name.filter (· ≠ ',') ++ spaces gap ++ constraint.first.op.lead) =
      constraintKey constraint.name) :
    gap = 0 ∧ ',' ∉ constraint.name ∧ constraint.first.op ≠ .ne := by
  have hcomma : ',' ∉ constraint.name := by
    intro hmem
    have hkey := mem_key hmem (by decide)
    rw [← h] at hkey
    obtain (hfound | hfound) | hfound := List.mem_append.1 (mem_of_key hkey) |>.imp_left
      List.mem_append.1
    · simpa using (List.mem_filter.1 hfound).2
    · cases List.eq_of_mem_replicate hfound
    · exact Operator.comma_not_lead _ hfound
  have hop : constraint.first.op ≠ .ne := by
    intro hne
    rw [hne] at h
    have hkey := @mem_key (constraint.name.filter (· ≠ ',') ++ spaces gap ++ ['!']) '!' (by simp)
      (by decide)
    rw [show ['!'] = Operator.ne.lead from rfl, h] at hkey
    have hplain := constraint.name_plain _ (mem_of_key hkey)
    cases hplain
  rw [filter_comma hcomma, Operator.lead_eq_nil.2 hop, List.append_nil] at h
  exact ⟨key_spaces h, hcomma, hop⟩

/-- Without spaces, commas and `!=` the name is read as it is written. -/
theorem consname_eq {constraint : CellConstraint} (hcomma : ',' ∉ constraint.name)
    (hop : constraint.first.op ≠ .ne) : constraint.name.filter (· ≠ ',') ++ spaces 0 ++
      constraint.first.op.lead = constraint.name := by
  rw [filter_comma hcomma, Operator.lead_eq_nil.2 hop, List.append_nil]
  exact List.append_nil _

end Name

/-- The values of a constraint are those that were appended. -/
theorem appended_eq {ys zs : List Json} (h : Json.appended ys = .array zs) : ys = zs := by
  rw [Json.appended] at h
  split at h
  · cases h
  · cases h
    rfl

/-- A constraint with a comparison has values. -/
theorem Written.ne_nil {round : Bool → ℚ → FloatResult Double} {name : List Char}
    {comparison : Comparison} {more : List Comparison} {vs : List Json}
    (h : Written round name (comparison :: more) vs) : vs ≠ [] := by
  cases h with
  | cons => exact List.cons_ne_nil _ _

section Constraints

variable {round : Bool → ℚ → FloatResult Double} {gap : ℕ} {constraint : CellConstraint}
  {queryType : String} {aquery : Json} {xs : List Json}

/-- A constraint that is found under its name. -/
theorem Intact.name (h : Intact round gap constraint queryType aquery xs)
    (haquery : Constraining aquery queryType (constraintKey constraint.name) xs) :
    gap = 0 ∧ ',' ∉ constraint.name ∧ constraint.first.op ≠ .ne := by
  obtain ⟨aquery', vs, hparse, hconstraint, hwritten⟩ := h
  rw [parseConstraints, spiltrow_text] at hparse
  by_cases hkey : constraintKey constraint.name = constraintKey
      (constraint.name.filter (· ≠ ',') ++ spaces gap ++ constraint.first.op.lead)
  · exact key_inv hkey.symm
  · rw [(appendConstvals_inv hparse).2 _ hkey, haquery.get] at hconstraint
    have heq := appended_eq (Except.ok.inj hconstraint)
    exact absurd (List.self_eq_append_right.1 heq) hwritten.ne_nil

/-- The constraint gains the elements that are appended. -/
theorem intact_of_name (haquery : Constraining aquery queryType (constraintKey constraint.name) xs)
    (hcomma : ',' ∉ constraint.name) (hop : constraint.first.op ≠ .ne) :
    Intact round 0 constraint queryType aquery xs ↔
      ∃ vs, constvals round constraint.name (pieces 0 constraint.first constraint.more) 1 = .ok vs ∧
        Written round constraint.name (constraint.first :: constraint.more) vs := by
  constructor
  · rintro ⟨aquery', vs, hparse, hconstraint, hwritten⟩
    rw [parseConstraints, spiltrow_text, consname_eq hcomma hop] at hparse
    obtain ⟨⟨ws, hws⟩, -⟩ := appendConstvals_inv hparse
    obtain ⟨aquery'', hparse', hgained⟩ := appendConstvals_ok hws haquery
    obtain rfl : aquery'' = aquery' := Except.ok.inj (hparse'.symm.trans hparse)
    have heq := appended_eq (Except.ok.inj (hgained.get.symm.trans hconstraint))
    rw [List.append_cancel_left heq] at hws
    exact ⟨vs, hws, hwritten⟩
  · rintro ⟨vs, hvs, hwritten⟩
    obtain ⟨aquery', hparse, hgained⟩ := appendConstvals_ok hvs haquery
    refine ⟨aquery', vs, ?_, ?_, hwritten⟩
    · rw [parseConstraints, spiltrow_text, consname_eq hcomma hop]
      exact hparse
    · rw [hgained.get, Json.appended, if_neg]
      exact fun hnil => hwritten.ne_nil (List.append_eq_nil_iff.1 hnil).2

end Constraints

/-- **Constraints** are read as they are written exactly if they are written without spaces, the
name has no comma, no operator is `!=`, and the values are of dates or typed by what they say. -/
theorem intact_iff (round : Bool → ℚ → FloatResult Double) (gap : ℕ) (constraint : CellConstraint)
    (queryType : String) (aquery : Json) (xs : List Json)
    (haquery : Constraining aquery queryType (constraintKey constraint.name) xs) :
    Intact round gap constraint queryType aquery xs ↔
      gap = 0 ∧ ',' ∉ constraint.name ∧
        ∀ comparison ∈ constraint.first :: constraint.more, comparison.op ≠ .ne ∧
          (¬ isDate constraint.name → Typable round comparison.value) := by
  constructor
  · intro h
    obtain ⟨rfl, hcomma, hop⟩ := h.name haquery
    exact ⟨rfl, hcomma, (@pieces_iff round constraint.name 1 _ _ rfl).1
      ((intact_of_name haquery hcomma hop).1 h)⟩
  · rintro ⟨rfl, hcomma, hall⟩
    exact (intact_of_name haquery hcomma (hall _ List.mem_cons_self).1).2
      ((@pieces_iff round constraint.name 1 _ _ rfl).2 hall)

/-- A comparison of the age with 5. -/
def ageCompared (op : Operator) : CellConstraint where
  name := ['a', 'g', 'e']
  name_plain := by simp [isMark, isOperator]
  first := ⟨op, ['5'], by simp [isMark, isOperator]⟩
  more := []

/-- The command for a person has no constraints yet. -/
theorem person_constraining (key : List Char) : Constraining person "AddEntity" key [] := by
  refine ⟨person_building.query, fun command h => ?_⟩
  obtain rfl : .object [("class", .string "Person")] = command := Except.ok.inj h
  refine ⟨.inr ⟨_, rfl⟩, fun constraints h => ?_⟩
  obtain rfl : .null = constraints := Except.ok.inj h
  exact ⟨.inl rfl, rfl⟩

/-- An age between 5 and 9. -/
def ageBetween : CellConstraint where
  name := ['a', 'g', 'e']
  name_plain := by simp [isMark, isOperator]
  first := ⟨.gt, ['5'], by simp [isMark, isOperator]⟩
  more := [⟨.lt, ['9'], by simp [isMark, isOperator]⟩]

/-- The two comparisons are read as they are written. -/
theorem intact_iff_age : Intact oneAndHalf 0 ageBetween "AddEntity" person [] := by
  have hfive : Typable oneAndHalf ['5'] :=
    @Typable.of_agrees oneAndHalf _ "age".toList (.int 5) (by decide) rfl
      (.integer ⟨[], ['5'], rfl, fun _ h => (by cases h), by decide, by simp [AllDigits], rfl⟩
        (by decide))
  have hnine : Typable oneAndHalf ['9'] :=
    @Typable.of_agrees oneAndHalf _ "age".toList (.int 9) (by decide) rfl
      (.integer ⟨[], ['9'], rfl, fun _ h => (by cases h), by decide, by simp [AllDigits], rfl⟩
        (by decide))
  refine (intact_iff oneAndHalf 0 ageBetween "AddEntity" person [] (person_constraining _)).2
    ⟨rfl, by decide, ?_⟩
  exact List.forall_mem_cons.2 ⟨⟨by simp [ageBetween], fun _ => hfive⟩,
    List.forall_mem_singleton.2 ⟨by simp, fun _ => hnine⟩⟩

/-- `age!=5` becomes a constraint of `age!`. -/
theorem not_equal_lost : ¬ Intact oneAndHalf 0 (ageCompared .ne) "AddEntity" person [] :=
  fun h => (h.name (person_constraining _)).2.2 rfl

end CSVParserUtil

end Vdms
