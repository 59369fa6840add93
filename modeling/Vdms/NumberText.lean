import Mathlib.Algebra.Order.Field.Rat
import Mathlib.Algebra.Ring.Nat
import Vdms.DescriptorSetData

/-!
# Numbers in Text

What the extractors of a stream and the functions of the C library take for a number: an optional
sign and digits, or a decimal with a point and an exponent. A stream first collects the characters
that may belong to a number, and has them converted then.

## Main definitions

* `IntLiteral`, `DecimalLiteral`: texts that are numbers.
* `extractInt`, `extractFloat`: the extractors of a stream.

## Main results

* `extractInt_iff`, `extractFloat_iff`: the texts from which a number can be extracted.
-/

namespace Vdms

namespace NumberText

open DescriptorSetData (isspace)

/-! ### Literals -/

def isSign (c : Char) : Bool := c = '+' || c = '-'

/-- An optional sign. -/
def IsSignText (sign : List Char) : Prop := ∀ c ∈ sign, isSign c = true ∧ sign = [c]

def AllDigits (cs : List Char) : Prop := ∀ c ∈ cs, c.isDigit = true

def AllSpaces (cs : List Char) : Prop := ∀ c ∈ cs, isspace c = true

/-- The value of a sign and digits. -/
def intValue (sign digits : List Char) : ℤ :=
  if sign = ['-'] then -(Nat.ofDigitChars 10 digits 0 : ℕ) else (Nat.ofDigitChars 10 digits 0 : ℕ)

/-- A decimal integer. -/
def IntLiteral (cs : List Char) (z : ℤ) : Prop :=
  ∃ sign digits, cs = sign ++ digits ∧ IsSignText sign ∧ digits ≠ [] ∧ AllDigits digits ∧
    z = intValue sign digits

/-- The parts of a decimal number: the digits behind the point, if there is one, and the exponent,
if there is one, with its letter and its sign. -/
structure Decimal where
  sign : List Char
  whole : List Char
  frac : Option (List Char)
  exp : Option (Char × List Char × List Char)

def fracText : Option (List Char) → List Char
  | none => []
  | some digits => '.' :: digits

def expText : Option (Char × List Char × List Char) → List Char
  | none => []
  | some (e, sign, digits) => e :: (sign ++ digits)

def isExpLetter (c : Char) : Bool := c = 'e' || c = 'E'

namespace Decimal

/-- What is behind the sign. -/
def body (d : Decimal) : List Char := d.whole ++ (fracText d.frac ++ expText d.exp)

def text (d : Decimal) : List Char := d.sign ++ d.body

def negative (d : Decimal) : Bool := d.sign = ['-']

/-- The number without its sign. -/
def magnitude (d : Decimal) : ℚ :=
  let digits := d.frac.getD []
  let scale : ℤ := d.exp.elim 0 fun (_, sign, exponent) => intValue sign exponent
  (Nat.ofDigitChars 10 (d.whole ++ digits) 0 : ℕ) * (10 : ℚ) ^ (scale - digits.length)

structure Valid (d : Decimal) : Prop where
  sign : IsSignText d.sign
  whole : AllDigits d.whole
  frac : ∀ digits, d.frac = some digits → AllDigits digits
  mantissa : d.whole ≠ [] ∨ ∃ digits, d.frac = some digits ∧ digits ≠ []
  exp : ∀ e sign digits, d.exp = some (e, sign, digits) →
    isExpLetter e = true ∧ IsSignText sign ∧ digits ≠ [] ∧ AllDigits digits

end Decimal

/-- A decimal number. -/
def DecimalLiteral (cs : List Char) : Prop := ∃ d : Decimal, d.Valid ∧ d.text = cs

/-! ### The C library -/

/-- The sign of a number, and what is behind it. -/
def takeSign : List Char → List Char × List Char
  | [] => ([], [])
  | c :: cs => if isSign c then ([c], cs) else ([], c :: cs)

/-- `strtol`, behind white space: the value, and what is behind it; none without digits. -/
def strtol (text : List Char) : Option (ℤ × List Char) :=
  let (sign, cs) := takeSign (text.dropWhile isspace)
  let digits := cs.takeWhile Char.isDigit
  if digits = [] then none else some (intValue sign digits, cs.dropWhile Char.isDigit)

/-- The exponent, if there is one, and what is behind it. -/
def takeExp : List Char → Option (Char × List Char × List Char) × List Char
  | [] => (none, [])
  | c :: cs =>
      if isExpLetter c then
        let (sign, rest) := takeSign cs
        let digits := rest.takeWhile Char.isDigit
        if digits = [] then (none, c :: cs)
        else (some (c, sign, digits), rest.dropWhile Char.isDigit)
      else (none, c :: cs)

/-- The point with its digits, if there is one, and what is behind them. -/
def takeFrac : List Char → Option (List Char) × List Char
  | [] => (none, [])
  | c :: cs =>
      if c = '.' then (some (cs.takeWhile Char.isDigit), cs.dropWhile Char.isDigit)
      else (none, c :: cs)

/-- The decimal number that `strtof` reads at the beginning, and what is behind it. Hexadecimal
numbers, infinities and NaNs are left out: a stream does not collect their letters. -/
def subject (text : List Char) : Option (Decimal × List Char) :=
  let (sign, cs) := takeSign text
  let whole := cs.takeWhile Char.isDigit
  let (frac, cs) := takeFrac (cs.dropWhile Char.isDigit)
  let (exp, rest) := takeExp cs
  if whole = [] ∧ frac.getD [] = [] then none else some (⟨sign, whole, frac, exp⟩, rest)

/-- What `strtof` makes of a decimal number: a value, where a range error may be noted, or
`HUGE_VALF` with a range error. -/
inductive FloatResult (F : Type) where
  | value (x : F) (erange : Bool)
  | overflow

section Floats

variable {F : Type}

/-- The float that is made of a number; its sign is of importance for zero. -/
def Decimal.toFloat (round : Bool → ℚ → FloatResult F) (d : Decimal) : FloatResult F :=
  round d.negative d.magnitude

/-- `strtof`, behind white space: the float, and what is behind it; none if there is no number. -/
def strtof (round : Bool → ℚ → FloatResult F) (text : List Char) :
    Option (FloatResult F × List Char) :=
  (subject (text.dropWhile isspace)).map fun (d, rest) => (d.toFloat round, rest)

end Floats

/-! ### Streams -/

/-- `stream >> x` for an `int`, behind white space; none if it fails. -/
def extractInt (text : List Char) : Option (ℤ × List Char) := do
  let (z, rest) ← strtol text
  if -2 ^ 31 ≤ z ∧ z ≤ 2 ^ 31 - 1 then some (z, rest) else none

/-- The characters that `num_get` collects behind the sign of a `float`, and those it leaves, where
digits, a point or the letter of an exponent have been met. Of zeros in front the library keeps
one, which makes no other number. -/
def collect (mantissa point exp : Bool) : List Char → List Char × List Char
  | [] => ([], [])
  | c :: cs =>
      if c.isDigit then
        let (taken, rest) := collect true point exp cs
        (c :: taken, rest)
      else if c = '.' ∧ point = false ∧ exp = false then
        let (taken, rest) := collect mantissa true exp cs
        (c :: taken, rest)
      else if isExpLetter c ∧ exp = false ∧ mantissa = true then
        match cs with
        | [] => ([c], [])
        | s :: cs' =>
            if isSign s then
              let (taken, rest) := collect mantissa point true cs'
              (c :: s :: taken, rest)
            else
              let (taken, rest) := collect mantissa point true (s :: cs')
              (c :: taken, rest)
      else ([], c :: cs)

/-- `stream >> x` for a `float`, behind white space; none if it fails. -/
def extractFloat {F : Type} (round : Bool → ℚ → FloatResult F) (text : List Char) :
    Option (F × List Char) :=
  let (sign, cs) := takeSign (text.dropWhile isspace)
  let (taken, rest) := collect false false false cs
  match strtof round (sign ++ taken) with
  | some (.value x _, []) => some (x, rest)
  | _ => none

/-- `!(stream >> c)`: only white space is left. -/
def atEnd (rest : List Char) : Bool := rest.all isspace

/-! ### Lists of characters -/

theorem takeWhile_append {p : Char → Bool} {cs rest : List Char} (h : ∀ c ∈ cs, p c = true)
    (hrest : ∀ c ∈ rest.head?, p c = false) :
    (cs ++ rest).takeWhile p = cs ∧ (cs ++ rest).dropWhile p = rest := by
  induction cs with
  | nil =>
      cases rest with
      | nil => exact ⟨rfl, rfl⟩
      | cons c rest =>
          have hc : p c = false := hrest c rfl
          simp [hc]
  | cons c cs ih =>
      obtain ⟨hc, hcs⟩ := List.forall_mem_cons.1 h
      obtain ⟨htake, hdrop⟩ := ih hcs
      simp [hc, htake, hdrop]

theorem head_dropWhile_false {p : Char → Bool} {cs : List Char} :
    ∀ c ∈ (cs.dropWhile p).head?, p c = false := by
  induction cs with
  | nil => simp
  | cons c cs ih =>
      rw [List.dropWhile_cons]
      split
      · exact ih
      · rename_i hc
        simpa using hc

theorem takeSign_append {sign rest : List Char} (h : IsSignText sign)
    (hrest : sign = [] → ∀ c ∈ rest.head?, isSign c = false) :
    takeSign (sign ++ rest) = (sign, rest) := by
  cases sign with
  | nil =>
      cases rest with
      | nil => rfl
      | cons c rest =>
          have hc : isSign c = false := hrest rfl c rfl
          simp [takeSign, hc]
  | cons c sign =>
      obtain ⟨hc, hone⟩ := h c List.mem_cons_self
      obtain rfl : sign = [] := by simpa using hone
      simp [takeSign, hc]

theorem takeSign_spec (cs : List Char) : (takeSign cs).1 ++ (takeSign cs).2 = cs ∧
    IsSignText (takeSign cs).1 ∧ ((takeSign cs).1 = [] → ∀ c ∈ cs.head?, isSign c = false) := by
  cases cs with
  | nil => simp [takeSign, IsSignText]
  | cons c cs =>
      by_cases hc : isSign c = true
      · simp [takeSign, hc, IsSignText]
      · simp [takeSign, hc, IsSignText]

/-- White space is no part of a number. -/
theorem of_isspace {c : Char} (h : isspace c = true) :
    c.isDigit = false ∧ isSign c = false ∧ c ≠ '.' ∧ isExpLetter c = false := by
  simp only [isspace, Bool.or_eq_true, decide_eq_true_eq] at h
  rcases h with ((((rfl | rfl) | rfl) | rfl) | rfl) | rfl <;> decide

theorem of_isDigit {c : Char} (h : c.isDigit = true) :
    isspace c = false ∧ isSign c = false ∧ c ≠ '.' ∧ isExpLetter c = false := by
  have hne : ∀ d : Char, d.isDigit = false → c ≠ d := by
    rintro d hd rfl
    rw [hd] at h
    cases h
  refine ⟨?_, ?_, hne '.' (by decide), ?_⟩
  · simp [isspace, hne ' ' (by decide), hne '\t' (by decide), hne '\n' (by decide),
      hne '\x0b' (by decide), hne '\x0c' (by decide), hne '\r' (by decide)]
  · simp [isSign, hne '+' (by decide), hne '-' (by decide)]
  · simp [isExpLetter, hne 'e' (by decide), hne 'E' (by decide)]

theorem of_isSign {c : Char} (h : isSign c = true) : isspace c = false ∧ c.isDigit = false := by
  simp only [isSign, Bool.or_eq_true, decide_eq_true_eq] at h
  rcases h with rfl | rfl <;> decide

theorem of_isExpLetter {c : Char} (h : isExpLetter c = true) :
    c.isDigit = false ∧ c ≠ '.' ∧ isSign c = false := by
  simp only [isExpLetter, Bool.or_eq_true, decide_eq_true_eq] at h
  rcases h with rfl | rfl <;> decide

/-- Text that begins with white space, or is empty. -/
def StartsWithSpace (rest : List Char) : Prop := ∀ c ∈ rest.head?, isspace c = true

theorem allSpaces_nil : AllSpaces [] := fun _ h => by cases h

theorem AllSpaces.starts {pad : List Char} (h : AllSpaces pad) : StartsWithSpace pad :=
  fun _ hc => h _ (List.mem_of_mem_head? hc)

theorem head_digits {digits rest : List Char} (hne : digits ≠ []) (h : AllDigits digits) :
    ∀ c ∈ (digits ++ rest).head?, c.isDigit = true := by
  cases digits with
  | nil => exact absurd rfl hne
  | cons d digits =>
      intro c hc
      cases hc
      exact h d List.mem_cons_self

/-- A literal that is behind white space. -/
theorem dropWhile_pad {pad rest : List Char} (hpad : AllSpaces pad)
    (hrest : ∀ c ∈ rest.head?, isspace c = false) : (pad ++ rest).dropWhile isspace = rest :=
  (takeWhile_append hpad hrest).2

theorem head_signed {sign rest : List Char} (hsign : IsSignText sign)
    (hrest : ∀ c ∈ rest.head?, isspace c = false) :
    ∀ c ∈ (sign ++ rest).head?, isspace c = false := by
  cases sign with
  | nil => exact hrest
  | cons s sign =>
      intro c hc
      cases hc
      exact (of_isSign (hsign s List.mem_cons_self).1).1

/-! ### Integers -/

theorem strtol_iff {text rest : List Char} {z : ℤ} : strtol text = some (z, rest) ↔
    ∃ pad lit, text = pad ++ (lit ++ rest) ∧ AllSpaces pad ∧ IntLiteral lit z ∧
      ∀ c ∈ rest.head?, c.isDigit = false := by
  constructor
  · intro h
    obtain ⟨hconcat, hsign, -⟩ := takeSign_spec (text.dropWhile isspace)
    rw [strtol] at h
    dsimp only at h
    split at h
    · cases h
    · rename_i hdigits
      cases h
      refine ⟨text.takeWhile isspace, _, ?_, fun c hc => List.mem_takeWhile_imp hc,
        ⟨_, _, rfl, hsign, hdigits, fun c hc => List.mem_takeWhile_imp hc, rfl⟩,
        head_dropWhile_false⟩
      rw [List.append_assoc, List.takeWhile_append_dropWhile, hconcat,
        List.takeWhile_append_dropWhile]
  · rintro ⟨pad, lit, rfl, hpad, ⟨sign, digits, rfl, hsign, hne, hdigits, rfl⟩, hrest⟩
    have hhead : ∀ c ∈ (digits ++ rest).head?, c.isDigit = true := head_digits hne hdigits
    have hspace : ∀ c ∈ (digits ++ rest).head?, isspace c = false := fun c hc =>
      (of_isDigit (hhead c hc)).1
    have hdrop : (pad ++ ((sign ++ digits) ++ rest)).dropWhile isspace =
        sign ++ (digits ++ rest) := by
      rw [List.append_assoc sign]
      exact dropWhile_pad hpad (head_signed hsign hspace)
    have htake : takeSign (sign ++ (digits ++ rest)) = (sign, digits ++ rest) :=
      takeSign_append hsign fun _ c hc => (of_isDigit (hhead c hc)).2.1
    obtain ⟨htaken, hleft⟩ := takeWhile_append hdigits hrest
    rw [strtol, hdrop, htake]
    dsimp only
    rw [htaken, hleft, if_neg hne]

theorem atEnd_iff {rest : List Char} : atEnd rest = true ↔ AllSpaces rest := List.all_eq_true

/-- **Integers.** What a stream extracts if only white space is left. -/
theorem extractInt_iff {text pad' : List Char} {z : ℤ} (hpad' : AllSpaces pad') :
    extractInt text = some (z, pad') ↔ ∃ pad lit, text = pad ++ (lit ++ pad') ∧ AllSpaces pad ∧
      IntLiteral lit z ∧ -2 ^ 31 ≤ z ∧ z ≤ 2 ^ 31 - 1 := by
  have hrest : ∀ c ∈ pad'.head?, c.isDigit = false := fun c hc =>
    (of_isspace (hpad'.starts c hc)).1
  rw [extractInt]
  constructor
  · intro h
    obtain ⟨⟨z', rest⟩, hstrtol, h⟩ := Option.bind_eq_some_iff.1 h
    dsimp only at h
    split at h
    · rename_i hrange
      cases h
      obtain ⟨pad, lit, htext, hpad, hlit, -⟩ := strtol_iff.1 hstrtol
      exact ⟨pad, lit, htext, hpad, hlit, hrange⟩
    · cases h
  · rintro ⟨pad, lit, htext, hpad, hlit, hrange⟩
    rw [strtol_iff.2 ⟨pad, lit, htext, hpad, hlit, hrest⟩]
    exact if_pos hrange

/-! ### Decimal numbers -/

/-- Behind the whole digits there is no digit. -/
theorem head_frac {frac : Option (List Char)} {exp : Option (Char × List Char × List Char)}
    {rest : List Char} (hexp : ∀ e sign digits, exp = some (e, sign, digits) → isExpLetter e = true)
    (hrest : StartsWithSpace rest) :
    (∀ c ∈ (expText exp ++ rest).head?, c.isDigit = false ∧ c ≠ '.' ∧ isSign c = false) ∧
      ∀ c ∈ (fracText frac ++ (expText exp ++ rest)).head?,
        c.isDigit = false ∧ isSign c = false := by
  have hbehind : ∀ c ∈ (expText exp ++ rest).head?, c.isDigit = false ∧ c ≠ '.' ∧
      isSign c = false := by
    intro c hc
    rcases exp with - | ⟨e, sign, digits⟩
    · obtain ⟨hdigit, hsign, hpoint, -⟩ := of_isspace (hrest c hc)
      exact ⟨hdigit, hpoint, hsign⟩
    · cases hc
      exact of_isExpLetter (hexp _ _ _ rfl)
  refine ⟨hbehind, fun c hc => ?_⟩
  cases frac with
  | none => exact ⟨(hbehind c hc).1, (hbehind c hc).2.2⟩
  | some digits =>
      cases hc
      decide

theorem takeExp_append {exp : Option (Char × List Char × List Char)} {rest : List Char}
    (hexp : ∀ e sign digits, exp = some (e, sign, digits) →
      isExpLetter e = true ∧ IsSignText sign ∧ digits ≠ [] ∧ AllDigits digits)
    (hrest : StartsWithSpace rest) : takeExp (expText exp ++ rest) = (exp, rest) := by
  rcases exp with - | ⟨e, sign, digits⟩
  · cases rest with
    | nil => rfl
    | cons c rest =>
        have hc := (of_isspace (hrest c rfl)).2.2.2
        simp [expText, takeExp, hc]
  · obtain ⟨he, hsign, hne, hdigits⟩ := hexp e sign digits rfl
    have hhead : ∀ c ∈ (digits ++ rest).head?, c.isDigit = true := head_digits hne hdigits
    have htake : takeSign (sign ++ (digits ++ rest)) = (sign, digits ++ rest) :=
      takeSign_append hsign fun _ c hc => (of_isDigit (hhead c hc)).2.1
    obtain ⟨htaken, hleft⟩ := takeWhile_append hdigits fun c hc => (of_isspace (hrest c hc)).1
    simp [expText, takeExp, he, htake, htaken, hleft, hne]

theorem takeFrac_append {frac : Option (List Char)} {cs : List Char}
    (hfrac : ∀ digits, frac = some digits → AllDigits digits)
    (hcs : ∀ c ∈ cs.head?, c.isDigit = false ∧ c ≠ '.') :
    takeFrac (fracText frac ++ cs) = (frac, cs) := by
  cases frac with
  | none =>
      cases cs with
      | nil => rfl
      | cons c cs =>
          have hc := (hcs c rfl).2
          simp [fracText, takeFrac, hc]
  | some digits =>
      obtain ⟨htaken, hleft⟩ := takeWhile_append (hfrac digits rfl) fun c hc => (hcs c hc).1
      simp [fracText, takeFrac, htaken, hleft]

theorem takeFrac_spec (cs : List Char) : fracText (takeFrac cs).1 ++ (takeFrac cs).2 = cs ∧
    ∀ digits, (takeFrac cs).1 = some digits → AllDigits digits := by
  cases cs with
  | nil => exact ⟨rfl, fun _ h => by cases h⟩
  | cons c cs =>
      rw [takeFrac]
      split
      · rename_i hc
        refine ⟨by simp [fracText, hc, List.takeWhile_append_dropWhile], fun digits h => ?_⟩
        cases h
        exact fun d hd => List.mem_takeWhile_imp hd
      · exact ⟨rfl, fun _ h => by cases h⟩

theorem takeExp_spec (cs : List Char) : expText (takeExp cs).1 ++ (takeExp cs).2 = cs ∧
    ∀ e sign digits, (takeExp cs).1 = some (e, sign, digits) →
      isExpLetter e = true ∧ IsSignText sign ∧ digits ≠ [] ∧ AllDigits digits := by
  have hnone : ∀ cs' : List Char, expText none ++ cs' = cs' ∧ ∀ e sign digits,
      (none : Option (Char × List Char × List Char)) = some (e, sign, digits) →
        isExpLetter e = true ∧ IsSignText sign ∧ digits ≠ [] ∧ AllDigits digits :=
    fun _ => ⟨rfl, fun _ _ _ h => by cases h⟩
  cases cs with
  | nil => exact hnone []
  | cons c cs =>
      obtain ⟨hconcat, hsign, -⟩ := takeSign_spec cs
      rw [takeExp]
      split
      · rename_i hc
        dsimp only
        split
        · exact hnone (c :: cs)
        · rename_i hdigits
          refine ⟨?_, fun e sign digits h => ?_⟩
          · rw [expText, List.cons_append, List.append_assoc, List.takeWhile_append_dropWhile,
              hconcat]
          · cases h
            exact ⟨hc, hsign, hdigits, fun d hd => List.mem_takeWhile_imp hd⟩
      · exact hnone (c :: cs)

theorem Decimal.Valid.exp_letter {d : Decimal} (hd : d.Valid) :
    ∀ e sign digits, d.exp = some (e, sign, digits) → isExpLetter e = true :=
  fun e sign digits h => (hd.exp e sign digits h).1

/-- A decimal number begins with its sign, a digit or a point. -/
theorem Decimal.Valid.head_body {d : Decimal} (hd : d.Valid) (rest : List Char) :
    ∀ c ∈ (d.body ++ rest).head?, isSign c = false ∧ isspace c = false := by
  intro c hc
  obtain ⟨sign, whole, frac, exp⟩ := d
  cases whole with
  | cons w whole =>
      cases hc
      obtain ⟨hspace, hsign, -, -⟩ := of_isDigit (hd.whole c List.mem_cons_self)
      exact ⟨hsign, hspace⟩
  | nil =>
      obtain hne | ⟨digits, hdigits, -⟩ := hd.mantissa
      · exact absurd rfl hne
      · obtain rfl : frac = some digits := hdigits
        cases hc
        decide

theorem Decimal.Valid.exists_digit {d : Decimal} (hd : d.Valid) :
    ∃ c ∈ d.text, c.isDigit = true := by
  obtain hne | ⟨digits, hdigits, hne⟩ := hd.mantissa
  · obtain ⟨c, hc⟩ := List.exists_mem_of_ne_nil _ hne
    exact ⟨c, by simp [Decimal.text, Decimal.body, hc], hd.whole c hc⟩
  · obtain ⟨c, hc⟩ := List.exists_mem_of_ne_nil _ hne
    exact ⟨c, by simp [Decimal.text, Decimal.body, fracText, hdigits, hc],
      hd.frac digits hdigits c hc⟩

/-- There is no white space in a decimal number. -/
theorem Decimal.Valid.no_space {d : Decimal} (hd : d.Valid) : ∀ c ∈ d.text, isspace c = false := by
  have hsigns : ∀ {sign : List Char}, IsSignText sign → ∀ c ∈ sign, isspace c = false :=
    fun hsign c hc => (of_isSign (hsign c hc).1).1
  have hdigits : ∀ {digits : List Char}, AllDigits digits → ∀ c ∈ digits, isspace c = false :=
    fun hall c hc => (of_isDigit (hall c hc)).1
  intro c hc
  rw [Decimal.text, Decimal.body] at hc
  obtain hc | hc | hc | hc : c ∈ d.sign ∨ c ∈ d.whole ∨ c ∈ fracText d.frac ∨
      c ∈ expText d.exp := by simpa using hc
  · exact hsigns hd.sign c hc
  · exact hdigits hd.whole c hc
  · cases hfrac : d.frac with
    | none => simp [hfrac, fracText] at hc
    | some digits =>
        rw [hfrac, fracText] at hc
        obtain rfl | hc := List.mem_cons.1 hc
        · decide
        · exact hdigits (hd.frac digits hfrac) c hc
  · rcases hexp : d.exp with - | ⟨e, sign, digits⟩
    · simp [hexp, expText] at hc
    · obtain ⟨he, hsign, -, hall⟩ := hd.exp e sign digits hexp
      rw [hexp, expText] at hc
      obtain rfl | hc | hc : c = e ∨ c ∈ sign ∨ c ∈ digits := by simpa using hc
      · exact Bool.eq_false_iff.2 fun hspace => by
          rw [(of_isspace hspace).2.2.2] at he
          cases he
      · exact hsigns hsign c hc
      · exact hdigits hall c hc

theorem IntLiteral.decimal {cs : List Char} {z : ℤ} (h : IntLiteral cs z) : DecimalLiteral cs := by
  obtain ⟨sign, digits, rfl, hsign, hne, hdigits, -⟩ := h
  exact ⟨⟨sign, digits, none, none⟩,
    ⟨hsign, hdigits, fun _ h => (by cases h), .inl hne, fun _ _ _ h => (by cases h)⟩,
    by simp [Decimal.text, Decimal.body, fracText, expText]⟩

/-- What `strtof` reads if white space is behind it. -/
theorem subject_append {d : Decimal} {rest : List Char} (hd : d.Valid)
    (hrest : StartsWithSpace rest) : subject (d.text ++ rest) = some (d, rest) := by
  obtain ⟨hexp, hfrac⟩ := @head_frac d.frac d.exp rest hd.exp_letter hrest
  have htext : d.text ++ rest =
      d.sign ++ (d.whole ++ (fracText d.frac ++ (expText d.exp ++ rest))) := by
    simp [Decimal.text, Decimal.body]
  have hsign : takeSign (d.text ++ rest) =
      (d.sign, d.whole ++ (fracText d.frac ++ (expText d.exp ++ rest))) := by
    rw [htext]
    refine takeSign_append hd.sign fun _ c hc => (hd.head_body rest c ?_).1
    simpa [Decimal.body] using hc
  obtain ⟨hwhole, hleft⟩ := takeWhile_append hd.whole fun c hc => (hfrac c hc).1
  have hpoint := takeFrac_append hd.frac fun c hc => ⟨(hexp c hc).1, (hexp c hc).2.1⟩
  have hmantissa : ¬ (d.whole = [] ∧ d.frac.getD [] = []) := by
    rintro ⟨hw, hf⟩
    obtain hne | ⟨digits, hdigits, hne⟩ := hd.mantissa
    · exact hne hw
    · rw [hdigits] at hf
      exact hne hf
  rw [subject, hsign]
  dsimp only
  rw [hwhole, hleft, hpoint]
  dsimp only
  rw [takeExp_append hd.exp hrest]
  dsimp only
  rw [if_neg hmantissa]

theorem subject_inv {d : Decimal} {text rest : List Char} (h : subject text = some (d, rest)) :
    d.Valid ∧ text = d.text ++ rest := by
  obtain ⟨hsign, hone, -⟩ := takeSign_spec text
  rw [subject] at h
  generalize takeSign text = signed at h hsign hone
  obtain ⟨sign, cs⟩ := signed
  dsimp only at h hsign hone
  obtain ⟨hfrac, hdigits⟩ := takeFrac_spec (cs.dropWhile Char.isDigit)
  generalize takeFrac (cs.dropWhile Char.isDigit) = pointed at h hfrac hdigits
  obtain ⟨frac, cs'⟩ := pointed
  dsimp only at h hfrac hdigits
  obtain ⟨hexp, hexponent⟩ := takeExp_spec cs'
  generalize takeExp cs' = scaled at h hexp hexponent
  obtain ⟨exp, rest'⟩ := scaled
  dsimp only at h hexp hexponent
  split at h
  · cases h
  · rename_i hmantissa
    cases h
    refine ⟨⟨hone, fun c hc => List.mem_takeWhile_imp hc, hdigits, ?_, hexponent⟩, ?_⟩
    · by_cases hwhole : cs.takeWhile Char.isDigit = []
      · cases frac with
        | none => exact absurd ⟨hwhole, rfl⟩ hmantissa
        | some digits => exact .inr ⟨digits, rfl, fun hnil => hmantissa ⟨hwhole, hnil⟩⟩
      · exact .inl hwhole
    · calc text = sign ++ cs := hsign.symm
        _ = sign ++ (cs.takeWhile Char.isDigit ++ cs.dropWhile Char.isDigit) := by
          rw [List.takeWhile_append_dropWhile]
        _ = sign ++ (cs.takeWhile Char.isDigit ++ (fracText frac ++ (expText exp ++ rest))) := by
          rw [hexp, hfrac]
        _ = _ := by simp [Decimal.text, Decimal.body]

/-! ### What is collected -/

theorem collect_append (mantissa point exp : Bool) (cs : List Char) :
    (collect mantissa point exp cs).1 ++ (collect mantissa point exp cs).2 = cs := by
  fun_induction collect mantissa point exp cs <;> simp_all

theorem collect_stop {rest : List Char} (mantissa point exp : Bool) (hrest : StartsWithSpace rest) :
    collect mantissa point exp rest = ([], rest) := by
  cases rest with
  | nil => rw [collect]
  | cons c rest =>
      obtain ⟨hdigit, -, hpoint, hexp⟩ := of_isspace (hrest c rfl)
      rw [collect.eq_def]
      simp [hdigit, hpoint, hexp]

/-- Induction on the digits. -/
theorem collect_digits {digits : List Char} (hdigits : AllDigits digits) (mantissa point exp : Bool)
    (cs : List Char) : collect mantissa point exp (digits ++ cs) =
      (digits ++ (collect (mantissa || !digits.isEmpty) point exp cs).1,
        (collect (mantissa || !digits.isEmpty) point exp cs).2) := by
  induction digits generalizing mantissa with
  | nil => simp
  | cons c digits ih =>
      obtain ⟨hc, htail⟩ := List.forall_mem_cons.1 hdigits
      rw [List.cons_append, collect.eq_def]
      simp [hc, ih htail]

/-- The exponent is collected behind digits. -/
theorem collect_exp {exp : Option (Char × List Char × List Char)} {rest : List Char} (point : Bool)
    (hexp : ∀ e sign digits, exp = some (e, sign, digits) →
      isExpLetter e = true ∧ IsSignText sign ∧ digits ≠ [] ∧ AllDigits digits)
    (hrest : StartsWithSpace rest) :
    collect true point false (expText exp ++ rest) = (expText exp, rest) := by
  rcases exp with - | ⟨e, sign, digits⟩
  · exact collect_stop true point false hrest
  · obtain ⟨he, hsign, hne, hdigits⟩ := hexp e sign digits rfl
    obtain ⟨hdigit, hpoint, -⟩ := of_isExpLetter he
    have hcollected : collect true point true (digits ++ rest) = (digits, rest) := by
      rw [collect_digits hdigits, collect_stop _ _ _ hrest, List.append_nil]
    cases sign with
    | nil =>
        obtain ⟨d, digits', rfl⟩ := List.exists_cons_of_ne_nil hne
        have hd := (of_isDigit (hdigits d List.mem_cons_self)).2.1
        rw [expText, List.cons_append, collect.eq_def]
        simp only [List.cons_append] at hcollected
        simp [hdigit, hpoint, he, hd, hcollected]
    | cons s sign =>
        obtain ⟨hs, hone⟩ := hsign s List.mem_cons_self
        obtain rfl : sign = [] := by simpa using hone
        rw [expText, List.cons_append, collect.eq_def]
        simp [hdigit, hpoint, he, hs, hcollected]

/-- All of a decimal number is collected. -/
theorem collect_body {d : Decimal} {rest : List Char} (hd : d.Valid)
    (hrest : StartsWithSpace rest) :
    collect false false false (d.body ++ rest) = (d.body, rest) := by
  have hbody : d.body ++ rest = d.whole ++ (fracText d.frac ++ (expText d.exp ++ rest)) := by
    simp [Decimal.body]
  rw [hbody, collect_digits hd.whole, Bool.false_or]
  cases hfrac : d.frac with
  | none =>
      have hwhole : d.whole ≠ [] := by
        obtain hne | ⟨digits, hdigits, -⟩ := hd.mantissa
        · exact hne
        · rw [hfrac] at hdigits
          cases hdigits
      have hmantissa : (!d.whole.isEmpty) = true := by simpa using hwhole
      rw [hmantissa, fracText, List.nil_append, collect_exp false hd.exp hrest]
      simp [Decimal.body, fracText, hfrac]
  | some digits =>
      have hdigits := hd.frac digits hfrac
      have hmantissa : (!d.whole.isEmpty || !digits.isEmpty) = true := by
        obtain hne | ⟨digits', hdigits', hne⟩ := hd.mantissa
        · simp [hne]
        · rw [hfrac] at hdigits'
          cases hdigits'
          simp [hne]
      have hpoint : collect (!d.whole.isEmpty) false false
          (fracText (some digits) ++ (expText d.exp ++ rest)) =
            ('.' :: (digits ++ expText d.exp), rest) := by
        rw [fracText, List.cons_append, collect.eq_def]
        simp [collect_digits hdigits, hmantissa, collect_exp true hd.exp hrest,
          show Char.isDigit '.' = false by decide]
      rw [hpoint]
      simp [Decimal.body, fracText, hfrac]

theorem Decimal.Valid.dropWhile_text {d : Decimal} {pad rest : List Char} (hd : d.Valid)
    (hpad : AllSpaces pad) : (pad ++ (d.text ++ rest)).dropWhile isspace = d.text ++ rest := by
  refine dropWhile_pad hpad ?_
  rw [Decimal.text, List.append_assoc]
  exact head_signed hd.sign fun c hc => (hd.head_body rest c hc).2

section Floats

variable {F : Type} {round : Bool → ℚ → FloatResult F}

theorem strtof_text {d : Decimal} {pad rest : List Char} (hd : d.Valid) (hpad : AllSpaces pad)
    (hrest : StartsWithSpace rest) :
    strtof round (pad ++ (d.text ++ rest)) = some (d.toFloat round, rest) := by
  rw [strtof, hd.dropWhile_text hpad, subject_append hd hrest]
  rfl

/-- **Floats.** What a stream extracts if only white space is left. -/
theorem extractFloat_iff {text pad' : List Char} {x : F} (hpad' : AllSpaces pad') :
    extractFloat round text = some (x, pad') ↔ ∃ pad, ∃ d : Decimal,
      text = pad ++ (d.text ++ pad') ∧ AllSpaces pad ∧ d.Valid ∧
        ∃ erange, d.toFloat round = .value x erange := by
  constructor
  · intro h
    obtain ⟨hsigned, -, -⟩ := takeSign_spec (text.dropWhile isspace)
    have hhead := @head_dropWhile_false isspace text
    have hpad := List.takeWhile_append_dropWhile (p := isspace) (l := text)
    rw [extractFloat] at h
    generalize takeSign (text.dropWhile isspace) = signed at h hsigned
    obtain ⟨sign, cs⟩ := signed
    dsimp only at h hsigned
    have hcollected := collect_append false false false cs
    generalize collect false false false cs = collected at h hcollected
    obtain ⟨taken, rest⟩ := collected
    dsimp only at h hcollected
    rw [← hcollected, ← List.append_assoc] at hsigned
    -- The text that is converted does not begin with white space.
    have hstart : (sign ++ taken).dropWhile isspace = sign ++ taken :=
      @dropWhile_pad [] _ allSpaces_nil fun c hc => by
        refine hhead c ?_
        have hfirst : (sign ++ taken).head? = some c := hc
        rw [← hsigned, List.head?_append, hfirst]
        rfl
    split at h
    · rename_i x' erange hstrtof
      cases h
      rw [strtof, hstart] at hstrtof
      obtain ⟨⟨d, left⟩, hsubject, heq⟩ := Option.map_eq_some_iff.1 hstrtof
      obtain ⟨hfloat, rfl⟩ := Prod.mk.inj heq
      obtain ⟨hd, htext⟩ := subject_inv hsubject
      rw [List.append_nil] at htext
      exact ⟨text.takeWhile isspace, d, by rw [← htext, hsigned, hpad],
        fun c hc => List.mem_takeWhile_imp hc, hd, erange, hfloat⟩
    · cases h
  · rintro ⟨pad, d, rfl, hpad, hd, erange, hfloat⟩
    have hsigned : takeSign (d.text ++ pad') = (d.sign, d.body ++ pad') := by
      rw [Decimal.text, List.append_assoc]
      exact takeSign_append hd.sign fun _ c hc => (hd.head_body pad' c hc).1
    have hstrtof := @strtof_text F round d [] [] hd allSpaces_nil allSpaces_nil.starts
    rw [List.nil_append, List.append_nil, hfloat, Decimal.text] at hstrtof
    rw [extractFloat, hd.dropWhile_text hpad, hsigned]
    dsimp only
    rw [collect_body hd hpad'.starts]
    dsimp only
    rw [hstrtof]

end Floats

end NumberText

end Vdms
