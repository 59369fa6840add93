import Mathlib.Data.List.Basic
import Mathlib.Data.List.Count

/-!
# The Schema as a String of C++

The build writes `api_schema.json` into a header, as the string literal that the server makes
its schema of: `createApiString.py` escapes quotes and the ends of lines, and leaves out lines
with `//`. It does not escape backslashes. So the string of the header is the text of the lines
that are left, behind a blank and without the ends of lines, exactly if that text has no
backslash.

## Main definitions

* `createApiString`: the script.
* `splice`, `Reads`: how a C++ compiler reads a string literal.

## Main results

* `schema_string_iff`: the schemas that the header keeps.
-/

namespace Vdms

namespace CreateApiString

/-! ### The script -/

/-- `readlines()`: the lines, each with its end. -/
def readlines : List Char → List (List Char)
  | [] => []
  | c :: text =>
      if c = '\n' then [c] :: readlines text
      else
        match readlines text with
        | [] => [[c]]
        | line :: lines => (c :: line) :: lines

/-- `replace('"', '\\"')` and `replace("\n", "\\\n")`. -/
def escape (c : Char) : List Char :=
  if c = '"' then ['\\', '"'] else if c = '\n' then ['\\', '\n'] else [c]

/-- `find("//") != -1`. -/
def hasComment : List Char → Bool
  | '/' :: '/' :: _ => true
  | _ :: line => hasComment line
  | [] => false

/-- What is written of a line. -/
def writeLine (line : List Char) : List Char :=
  let line := line.flatMap escape
  if hasComment line then [] else line

/-- The text in front of the quote. -/
def declaration : List Char := "const std::string schema_json(".toList

/-- What is written behind the last line. -/
def closing : List Char := "\");\n".toList

/-- `createApiString.py`. -/
def createApiString (text : List Char) : List Char :=
  declaration ++ "\" ".toList ++ (readlines text).flatMap writeLine ++ closing

/-- The text of the lines that are left. -/
def keptText (text : List Char) : List Char :=
  ((readlines text).filter fun line => !hasComment line).flatten

/-! ### String literals of C++ -/

/-- A backslash at the end of a line is deleted with it. -/
def splice : List Char → List Char
  | '\\' :: '\n' :: text => splice text
  | c :: text => c :: splice text
  | [] => []

/-- The simple escape sequences, and what they stand for. -/
def simpleEscape : Char → Option Char
  | '"' => some '"'
  | '?' => some '?'
  | '\\' => some '\\'
  | 'a' => some (.ofNat 7)
  | 'b' => some (.ofNat 8)
  | 'f' => some (.ofNat 12)
  | 'n' => some '\n'
  | 'r' => some '\r'
  | 't' => some '\t'
  | 'v' => some (.ofNat 11)
  | c => if c = .ofNat 39 then some c else none

def isOctal (c : Char) : Bool := '0' ≤ c ∧ c ≤ '7'

def isHex (c : Char) : Bool := c.isDigit || ('a' ≤ c ∧ c ≤ 'f') || ('A' ≤ c ∧ c ≤ 'F')

/-- The number that digits stand for. -/
def digitsValue (base : ℕ) (digits : List Char) : ℕ :=
  digits.foldl (fun n c => base * n +
    if c.isDigit then c.toNat - 48 else if 'a' ≤ c then c.toNat - 87 else c.toNat - 55) 0

/-- The escape sequence behind a backslash, in front of `rest`, and what it stands for. -/
inductive Escape (rest : List Char) : List Char → Char → Prop
  | simple {c value} : simpleEscape c = some value → Escape rest [c] value
  | octal {digits} : digits ≠ [] → digits.all isOctal → digits.length ≤ 3 →
      (digits.length = 3 ∨ ∀ c ∈ rest.head?, isOctal c = false) →
      Escape rest digits (.ofNat (digitsValue 8 digits))
  | hex {digits} : digits ≠ [] → digits.all isHex → (∀ c ∈ rest.head?, isHex c = false) →
      Escape rest ('x' :: digits) (.ofNat (digitsValue 16 digits))
  | universal {u digits} : u = 'u' ∧ digits.length = 4 ∨ u = 'U' ∧ digits.length = 8 →
      digits.all isHex → Escape rest (u :: digits) (.ofNat (digitsValue 16 digits))

/-- Behind the opening quote: the value of the literal, and the text behind its closing quote. -/
inductive Reads : List Char → List Char → List Char → Prop
  | close (rest : List Char) : Reads ('"' :: rest) [] rest
  | plain {c text value rest} : c ≠ '"' → c ≠ '\\' → c ≠ '\n' → Reads text value rest →
      Reads (c :: text) (c :: value) rest
  | escape {sequence c text value rest} : Escape text sequence c → Reads text value rest →
      Reads ('\\' :: (sequence ++ text)) (c :: value) rest

/-! ### What the compiler sees -/

/-- A character of the schema after the lines have been joined. -/
def quoted (c : Char) : List Char :=
  if c = '"' then ['\\', '"'] else if c = '\n' then [] else [c]

theorem splice_cons_of_ne {c : Char} (hc : c ≠ '\\') (text : List Char) :
    splice (c :: text) = c :: splice text := by
  rw [splice]
  intro text' h _
  exact hc h

theorem splice_backslash {text : List Char} (h : text.head? ≠ some '\n') :
    splice ('\\' :: text) = '\\' :: splice text := by
  rw [splice]
  intro text' _ htext
  exact h (by rw [htext]; rfl)

/-- The ends of lines are not seen any more, and the backslashes of the schema stay. -/
theorem splice_escape (text : List Char) {tail : List Char} (htail : tail.head? ≠ some '\n') :
    splice (text.flatMap escape ++ tail) = text.flatMap quoted ++ splice tail := by
  induction text with
  | nil => rfl
  | cons c text ih =>
      have hhead : (text.flatMap escape ++ tail).head? ≠ some '\n' := by
        cases text with
        | nil => exact htail
        | cons d text =>
            rw [List.flatMap_cons, escape]
            split
            · simp
            · split
              · simp
              next hd => simpa using hd
      rw [List.flatMap_cons, List.flatMap_cons, escape, quoted]
      split
      · -- A quote, behind a backslash.
        simp only [List.cons_append, List.nil_append]
        rw [splice_backslash (by simp), splice_cons_of_ne (by decide), ih]
      · split
        · simp only [List.cons_append, List.nil_append, splice]
          exact ih
        · simp only [List.cons_append, List.nil_append]
          rw [← ih]
          by_cases hc : c = '\\'
          · subst hc
            exact splice_backslash hhead
          · exact splice_cons_of_ne hc _

theorem hasComment_cons {c : Char} {line : List Char} (h : c ≠ '/' ∨ line.head? ≠ some '/') :
    hasComment (c :: line) = hasComment line := by
  rw [hasComment]
  intro line' hc hline
  rcases h with h | h
  · exact h hc
  · exact h (by rw [hline]; rfl)

theorem escape_of_ne {c : Char} (hquote : c ≠ '"') (hnewline : c ≠ '\n') : escape c = [c] := by
  rw [escape, if_neg hquote, if_neg hnewline]

/-- The check for a comment does not see the escapes. -/
theorem hasComment_escape (line : List Char) :
    hasComment (line.flatMap escape) = hasComment line := by
  induction line with
  | nil => rfl
  | cons c line ih =>
      rw [List.flatMap_cons]
      by_cases hslash : c = '/'
      · subst hslash
        rw [escape_of_ne (by decide) (by decide), List.singleton_append]
        cases line with
        | nil => rfl
        | cons d line =>
            by_cases hd : d = '/'
            · subst hd
              rfl
            · have hhead : ((d :: line).flatMap escape).head? ≠ some '/' := by
                rw [List.flatMap_cons, escape]
                split
                · simp
                · split
                  · simp
                  · simpa using hd
              rw [hasComment_cons (.inr hhead), ih]
              exact (hasComment_cons (.inr (by simpa using hd))).symm
      · rw [hasComment_cons (.inl hslash), ← ih, escape]
        split
        · exact (hasComment_cons (.inl (by decide))).trans (hasComment_cons (.inl (by decide)))
        · split
          · exact (hasComment_cons (.inl (by decide))).trans (hasComment_cons (.inl (by decide)))
          · exact hasComment_cons (.inl hslash)

/-- What is written is the text that is left, escaped. -/
theorem flatMap_writeLine (text : List Char) :
    (readlines text).flatMap writeLine = (keptText text).flatMap escape := by
  rw [keptText]
  induction readlines text with
  | nil => rfl
  | cons line lines ih =>
      rw [List.flatMap_cons, ih, writeLine, hasComment_escape]
      cases hline : hasComment line with
      | false =>
          rw [List.filter_cons_of_pos (by simp [hline]), List.flatten_cons, List.flatMap_append]
          rfl
      | true =>
          rw [List.filter_cons_of_neg (by simp [hline])]
          rfl

/-! ### What the literal stands for -/

theorem count_quoted (text : List Char) :
    (text.flatMap quoted).length = (text.filter (· ≠ '\n')).length + text.count '"' ∧
      (text.flatMap quoted).count '"' = text.count '"' ∧
      (text.flatMap quoted).count '\\' = text.count '"' + text.count '\\' := by
  induction text with
  | nil => exact ⟨rfl, rfl, rfl⟩
  | cons c text ih =>
      obtain ⟨hlength, hquotes, hbackslashes⟩ := ih
      by_cases hquote : c = '"'
      · subst hquote
        simp [quoted, hlength, hquotes, hbackslashes]
        omega
      · by_cases hnewline : c = '\n'
        · subst hnewline
          simp [quoted, hlength, hquotes, hbackslashes]
        · simp [quoted, List.count_cons, hquote, hnewline, hlength, hquotes, hbackslashes]
          omega

/-- An escape sequence of quotes only is that of the quote. -/
theorem Escape.quote {rest sequence : List Char} {c : Char} (h : Escape rest sequence c)
    (hall : sequence.count '"' = sequence.length) : c = '"' ∧ sequence = ['"'] := by
  rw [List.count_eq_length] at hall
  cases h with
  | @simple d _ hsimple =>
      obtain rfl : '"' = d := hall d (List.mem_singleton_self d)
      exact ⟨(Option.some.inj hsimple).symm, rfl⟩
  | octal hne hoctal _ _ =>
      obtain ⟨d, hd⟩ := List.exists_mem_of_ne_nil _ hne
      obtain rfl : '"' = d := hall d hd
      exact absurd (List.all_eq_true.1 hoctal _ hd) (by decide)
  | hex _ _ _ => exact absurd (hall 'x' (List.mem_cons_self ..)) (by decide)
  | @universal u digits hu _ =>
      obtain rfl : '"' = u := hall u (List.mem_cons_self ..)
      rcases hu with ⟨hu, -⟩ | ⟨hu, -⟩ <;> exact absurd hu (by decide)

/-- Every character of the value takes one of the literal, and one more for a quote. A literal
that takes no more has no escapes but those of quotes. -/
theorem Reads.count {text value rest : List Char} (h : Reads text value rest) :
    ∃ literal, text = literal ++ rest ∧ value.length + literal.count '"' ≤ literal.length ∧
      (value.length + literal.count '"' = literal.length →
        literal.count '\\' = value.count '"') := by
  induction h with
  | close rest => exact ⟨['"'], rfl, by decide, fun _ => rfl⟩
  | @plain c text value rest hquote hbackslash hnewline _ ih =>
      obtain ⟨literal, rfl, hle, hcount⟩ := ih
      refine ⟨c :: literal, rfl, ?_, fun heq => ?_⟩
      · rw [List.count_cons_of_ne hquote, List.length_cons, List.length_cons]
        omega
      · rw [List.count_cons_of_ne hquote, List.length_cons, List.length_cons] at heq
        rw [List.count_cons_of_ne hbackslash, List.count_cons_of_ne hquote]
        exact hcount (by omega)
  | @escape sequence c text value rest hescape _ ih =>
      obtain ⟨literal, rfl, hle, hcount⟩ := ih
      have hsequence : sequence.count '"' ≤ sequence.length := List.count_le_length
      refine ⟨'\\' :: (sequence ++ literal), by simp, ?_, fun heq => ?_⟩
      · rw [List.count_cons_of_ne (by decide), List.count_append]
        simp only [List.length_cons, List.length_append]
        omega
      · rw [List.count_cons_of_ne (by decide), List.count_append] at heq
        simp only [List.length_cons, List.length_append] at heq
        obtain ⟨rfl, rfl⟩ := hescape.quote (by omega)
        rw [List.count_cons_self, List.singleton_append, List.count_cons_of_ne (by decide),
          List.count_cons_self, hcount (by omega)]

/-- A text without backslashes is read as it was, without the ends of lines. -/
theorem reads_quoted {text : List Char} (htext : '\\' ∉ text) (rest : List Char) :
    Reads (text.flatMap quoted ++ '"' :: rest) (text.filter (· ≠ '\n')) rest := by
  induction text with
  | nil => exact .close rest
  | cons c text ih =>
      obtain ⟨hc, htext⟩ := List.ne_and_not_mem_of_not_mem_cons htext
      have ih := ih htext
      rw [List.flatMap_cons, quoted]
      split
      next hquote =>
        subst hquote
        have hescape : Escape (text.flatMap quoted ++ '"' :: rest) ['"'] '"' := .simple rfl
        rw [List.append_assoc, List.filter_cons_of_pos (by decide)]
        exact Reads.escape hescape ih
      next hquote =>
        split
        next hnewline =>
          subst hnewline
          exact ih
        next hnewline =>
          rw [List.filter_cons_of_pos (by simpa using hnewline)]
          exact .plain hquote (Ne.symm hc) hnewline ih

theorem splice_append {text : List Char} (h : '\\' ∉ text) (tail : List Char) :
    splice (text ++ tail) = text ++ splice tail := by
  induction text with
  | nil => rfl
  | cons c text ih =>
      obtain ⟨hc, htext⟩ := List.ne_and_not_mem_of_not_mem_cons h
      rw [List.cons_append, splice_cons_of_ne (Ne.symm hc), ih htext, List.cons_append]

/-- The header, as the compiler sees it. -/
theorem splice_createApiString (text : List Char) :
    splice (createApiString text) = declaration ++
      '"' :: ' ' :: ((keptText text).flatMap quoted ++ '"' :: ");\n".toList) := by
  rw [createApiString, flatMap_writeLine, List.append_assoc,
    splice_append (by decide), splice_escape _ (by decide), List.append_assoc]
  rfl

/-- **The schema of the header.** The declaration has a string literal, which stands for the
text of the lines without `//`, behind a blank and without the ends of lines, exactly if that
text has no backslash. -/
theorem schema_string_iff (text : List Char) :
    (∃ literal, splice (createApiString text) = declaration ++ '"' :: literal ∧
      Reads literal (' ' :: (keptText text).filter (· ≠ '\n')) ");\n".toList) ↔
      '\\' ∉ keptText text := by
  rw [splice_createApiString]
  constructor
  · rintro ⟨literal, hliteral, hreads⟩
    obtain rfl := List.cons.inj (List.append_cancel_left hliteral) |>.2
    obtain ⟨consumed, hconsumed, -, hcount⟩ := hreads.count
    have happend : ' ' :: ((keptText text).flatMap quoted ++ ['"']) ++ ");\n".toList =
        consumed ++ ");\n".toList := by
      rw [← hconsumed]
      simp
    obtain rfl := List.append_cancel_right happend
    obtain ⟨hlength, hquotes, hbackslashes⟩ := count_quoted (keptText text)
    have hkept : (' ' :: (keptText text).filter (· ≠ '\n')).count '"' =
        (keptText text).count '"' := by
      rw [List.count_cons_of_ne (by decide), List.count_filter (by decide)]
    have hquotes' : (' ' :: ((keptText text).flatMap quoted ++ ['"'])).count '"' =
        (keptText text).count '"' + 1 := by
      rw [List.count_cons_of_ne (by decide), List.count_append, hquotes]
      rfl
    have hbackslashes' : (' ' :: ((keptText text).flatMap quoted ++ ['"'])).count '\\' =
        (keptText text).count '"' + (keptText text).count '\\' := by
      rw [List.count_cons_of_ne (by decide), List.count_append, hbackslashes]
      rfl
    rw [hkept, hquotes', hbackslashes'] at hcount
    simp only [List.length_cons, List.length_append, hlength, List.length_nil] at hcount
    have hzero : (keptText text).count '\\' = 0 := by
      have hlast := hcount (by omega)
      omega
    exact List.count_eq_zero.1 hzero
  · intro htext
    exact ⟨_, rfl, .plain (by decide) (by decide) (by decide) (reads_quoted htext _)⟩

end CreateApiString

end Vdms
