import Mathlib.Data.List.Count
import Vdms.CSVParser

/-!
# The CSV File

The document that `CSVParser` takes its rows from. Every thread has `rapidcsv` read the whole
file, with its default parameters, and asks it for the rows by their numbers; how many rows
there are is computed by `parse`, from the ends of lines in the file.

With the default parameters a quote does not go over the end of a line, so the rows are those of
the lines, each read by itself. A last line without an end makes a row too, which no thread asks
for. What `rapidcsv` writes it reads back, if no cell has an end of line, and none begins with a
quote unless it is quoted.

## Main definitions

* `Reader.read`, `parseCsv`: the loop of `ParseCsv`.
* `writeCsv`: how a document is written.
* `readRow`: the row of a line.

## Main results

* `parseCsv_data`: the rows of a file are those of its lines.
* `file_rows_sent`: the rows that `CSVParser` sends of a file.
* `parseCsv_writeCsv`: the round trip.
-/

namespace Vdms

namespace RapidCSV

open scoped List

/-! ### The parameters and the cells -/

/-- `SeparatorParams`. -/
structure SeparatorParams where
  separator : Char := ','
  trim : Bool := false
  hasCR : Bool := false
  quotedLinebreaks : Bool := false
  autoQuote : Bool := true

/-- `LineReaderParams`. -/
structure LineReaderParams where
  skipCommentLines : Bool := false
  commentPrefix : Char := '#'
  skipEmptyLines : Bool := false

abbrev Cell := List Char

/-- `isspace` of the classic locale. -/
def isspace (c : Char) : Bool := c = ' ' || ('\t' ≤ c && c ≤ '\r')

/-- `Trim`. -/
def trim (params : SeparatorParams) (str : Cell) : Cell :=
  if params.trim then ((str.dropWhile isspace).reverse.dropWhile isspace).reverse else str

/-- `ReplaceString(str, "\"\"", "\"")`. -/
def unescape : Cell → Cell
  | '"' :: '"' :: str => '"' :: unescape str
  | c :: str => c :: unescape str
  | [] => []

/-- `ReplaceString(str, "\"", "\"\"")`, for one character. -/
def doubled (c : Char) : Cell := if c = '"' then ['"', '"'] else [c]

/-- `Unquote`. -/
def unquote (params : SeparatorParams) (str : Cell) : Cell :=
  if params.autoQuote && 2 ≤ str.length && str.head? == some '"' && str.getLast? == some '"' then
    unescape str.tail.dropLast
  else str

/-! ### Reading -/

/-- The variables of `ParseCsv`, and `mData`. -/
structure Reader where
  row : List Cell := []
  cell : Cell := []
  quoted : Bool := false
  cr : ℕ := 0
  lf : ℕ := 0
  data : List (List Cell) := []

/-- The loop of `ParseCsv`, for one character. -/
def Reader.read (params : SeparatorParams) (lineReader : LineReaderParams) (r : Reader)
    (c : Char) : Reader :=
  if c = '"' then
    { r with
      quoted := if r.cell.isEmpty || r.cell.head? == some '"' then !r.quoted else r.quoted
      cell := r.cell ++ [c] }
  else if c = params.separator then
    if !r.quoted then
      { r with row := r.row ++ [unquote params (trim params r.cell)], cell := [] }
    else { r with cell := r.cell ++ [c] }
  else if c = '\r' then
    if params.quotedLinebreaks && r.quoted then { r with cell := r.cell ++ [c] }
    else { r with cr := r.cr + 1 }
  else if c = '\n' then
    if params.quotedLinebreaks && r.quoted then { r with cell := r.cell ++ [c] }
    else if lineReader.skipEmptyLines && r.row.isEmpty && r.cell.isEmpty then
      { r with lf := r.lf + 1 }
    else
      let row := r.row ++ [unquote params (trim params r.cell)]
      { row := []
        cell := []
        quoted := false
        cr := r.cr
        lf := r.lf + 1
        data :=
          if lineReader.skipCommentLines && row.headI.head? == some lineReader.commentPrefix then
            r.data
          else r.data ++ [row] }
  else { r with cell := r.cell ++ [c] }

/-- `ParseCsv`. A last line without an end is a row too. -/
def parseCsv (params : SeparatorParams) (lineReader : LineReaderParams) (text : List Char) :
    Reader :=
  let r := text.foldl (Reader.read params lineReader) {}
  if !r.cell.isEmpty || !r.row.isEmpty then
    { r with
      row := []
      cell := []
      data := r.data ++ [r.row ++ [unquote params (trim params r.cell)]] }
  else r

/-- `mHasCR` of a document that has been read. -/
def Reader.hasCR (r : Reader) : Bool := r.lf / 2 < r.cr

/-- The byte order mark of UTF-8 is skipped. -/
def skipBom (text : List Char) : List Char :=
  if text.take 3 = [.ofNat 0xef, .ofNat 0xbb, .ofNat 0xbf] then text.drop 3 else text

/-- `rapidcsv::Document csv(filename)`. -/
def readCsv (text : List Char) : Reader := parseCsv {} {} (skipBom text)

/-- `GetRow`: the first row has the names of the columns. -/
def getRow (r : Reader) (rowIdx : ℕ) : Option (List Cell) := r.data[rowIdx + 1]?

/-- The rows behind the first one. -/
def rows (r : Reader) : List (List Cell) := r.data.tail

/-! ### Writing -/

/-- What `WriteCsv` writes of a cell. -/
def writeCell (params : SeparatorParams) (cell : Cell) : Cell :=
  if params.autoQuote && (cell.contains params.separator || cell.contains ' ') then
    '"' :: (cell.flatMap doubled ++ ['"'])
  else cell

/-- What `WriteCsv` writes of a row, without the end of the line. -/
def writeCells (params : SeparatorParams) : List Cell → List Char
  | [] => []
  | [cell] => writeCell params cell
  | cell :: next :: row =>
      writeCell params cell ++ params.separator :: writeCells params (next :: row)

/-- `WriteCsv`. -/
def writeCsv (params : SeparatorParams) (data : List (List Cell)) : List Char :=
  data.flatMap fun row =>
    writeCells params row ++ if params.hasCR then ['\r', '\n'] else ['\n']

/-! ### One character -/

section Read

variable (r : Reader)

theorem read_quote : r.read {} {} '"' =
    { r with
      quoted := if r.cell.isEmpty || r.cell.head? == some '"' then !r.quoted else r.quoted
      cell := r.cell ++ ['"'] } :=
  if_pos rfl

theorem read_separator : r.read {} {} ',' =
    if !r.quoted then { r with row := r.row ++ [unquote {} r.cell], cell := [] }
    else { r with cell := r.cell ++ [','] } :=
  rfl

theorem read_cr : r.read {} {} '\r' = { r with cr := r.cr + 1 } :=
  rfl

theorem read_lf : r.read {} {} '\n' =
    { row := [], cell := [], quoted := false, cr := r.cr, lf := r.lf + 1,
      data := r.data ++ [r.row ++ [unquote {} r.cell]] } :=
  rfl

theorem read_other {c : Char} (hquote : c ≠ '"') (hseparator : c ≠ ',') (hcr : c ≠ '\r')
    (hlf : c ≠ '\n') : r.read {} {} c = { r with cell := r.cell ++ [c] } := by
  simp only [Reader.read, if_neg hquote, if_neg hseparator, if_neg hcr, if_neg hlf]

end Read

/-! ### The rows of the lines -/

/-- The lines that have an end. -/
def lines (text : List Char) : List (List Char) := (text.splitOn '\n').dropLast

/-- What is behind the last end of a line. -/
def lastLine (text : List Char) : List Char := (text.splitOn '\n').getLastD []

/-- The row of a line, read by itself. -/
def readRow (line : List Char) : List Cell :=
  let r := line.foldl (Reader.read {} {}) {}
  r.row ++ [unquote {} r.cell]

theorem lines_append {line : List Char} (hline : '\n' ∉ line) (text : List Char) :
    lines (line ++ '\n' :: text) = line :: lines text := by
  rw [lines, List.splitOn_append_cons_self_of_not_mem hline,
    List.dropLast_cons_of_ne_nil (List.splitOn_ne_nil '\n' text), lines]

theorem lastLine_append {line : List Char} (hline : '\n' ∉ line) (text : List Char) :
    lastLine (line ++ '\n' :: text) = lastLine text := by
  rw [lastLine, List.splitOn_append_cons_self_of_not_mem hline, lastLine]
  obtain ⟨first, rest, hsplit⟩ := List.exists_cons_of_ne_nil (List.splitOn_ne_nil '\n' text)
  rw [hsplit]
  rfl

theorem lines_of_not_mem {text : List Char} (h : '\n' ∉ text) :
    lines text = [] ∧ lastLine text = text := by
  rw [lines, lastLine, List.splitOn_eq_singleton h]
  exact ⟨rfl, rfl⟩

/-- A text is taken apart line by line. -/
theorem line_induction {motive : List Char → Prop}
    (last : ∀ text, '\n' ∉ text → motive text)
    (line : ∀ line text, '\n' ∉ line → motive text → motive (line ++ '\n' :: text))
    (text : List Char) : motive text := by
  induction hn : text.length using Nat.strong_induction_on generalizing text with
  | _ n ih =>
    by_cases hmem : '\n' ∈ text
    · obtain ⟨first, rest, rfl, hfirst⟩ := List.eq_append_cons_of_mem hmem
      refine line first rest hfirst (ih rest.length ?_ rest rfl)
      rw [← hn, List.length_append, List.length_cons]
      omega
    · exact last text hmem

theorem length_lines (text : List Char) : (lines text).length = text.count '\n' := by
  induction text using line_induction with
  | last text h => rw [(lines_of_not_mem h).1, List.count_eq_zero_of_not_mem h, List.length_nil]
  | line line text hline ih =>
      rw [lines_append hline, List.length_cons, ih, List.count_append, List.count_cons_self,
        List.count_eq_zero_of_not_mem hline, Nat.zero_add]

theorem not_mem_lastLine (text : List Char) : '\n' ∉ lastLine text := by
  induction text using line_induction with
  | last text h => rwa [(lines_of_not_mem h).2]
  | line line text hline ih => rwa [lastLine_append hline]

/-- The variables for the line are the same. -/
structure Reader.Alike (r s : Reader) : Prop where
  row : r.row = s.row
  cell : r.cell = s.cell
  quoted : r.quoted = s.quoted

/-- **One character of a line.** What becomes of the line depends on the line only, and the
rows before it stay. -/
theorem Reader.Alike.read {r s : Reader} (h : r.Alike s) {c : Char} (hc : c ≠ '\n') :
    (r.read {} {} c).Alike (s.read {} {} c) ∧ (r.read {} {} c).data = r.data := by
  obtain ⟨row, cell, quoted, cr, lf, data⟩ := r
  obtain ⟨_, _, _, cr', lf', data'⟩ := s
  obtain ⟨rfl, rfl, rfl⟩ := h
  by_cases hquote : c = '"'
  · subst hquote
    rw [read_quote, read_quote]
    exact ⟨⟨rfl, rfl, rfl⟩, rfl⟩
  · by_cases hseparator : c = ','
    · subst hseparator
      rw [read_separator, read_separator]
      cases quoted with
      | false => exact ⟨⟨rfl, rfl, rfl⟩, rfl⟩
      | true => exact ⟨⟨rfl, rfl, rfl⟩, rfl⟩
    · by_cases hcr : c = '\r'
      · subst hcr
        rw [read_cr, read_cr]
        exact ⟨⟨rfl, rfl, rfl⟩, rfl⟩
      · rw [read_other _ hquote hseparator hcr hc, read_other _ hquote hseparator hcr hc]
        exact ⟨⟨rfl, rfl, rfl⟩, rfl⟩

theorem Reader.Alike.foldl {line : List Char} (hline : '\n' ∉ line) {r s : Reader}
    (h : r.Alike s) :
    (line.foldl (Reader.read {} {}) r).Alike (line.foldl (Reader.read {} {}) s) ∧
      (line.foldl (Reader.read {} {}) r).data = r.data := by
  induction line generalizing r s with
  | nil => exact ⟨h, rfl⟩
  | cons c line ih =>
      obtain ⟨hc, hline⟩ := List.ne_and_not_mem_of_not_mem_cons hline
      obtain ⟨halike, hdata⟩ := h.read (Ne.symm hc)
      obtain ⟨halike', hdata'⟩ := ih hline halike
      exact ⟨halike', hdata'.trans hdata⟩

/-- **The loop.** At the start of a line, the rows of the lines with an end are added, and the
variables become those of the last line. -/
theorem read_text (text : List Char) {r : Reader} (h : r.Alike {}) :
    (text.foldl (Reader.read {} {}) r).data = r.data ++ (lines text).map readRow ∧
      (text.foldl (Reader.read {} {}) r).Alike ((lastLine text).foldl (Reader.read {} {}) {}) := by
  induction text using line_induction generalizing r with
  | last text hmem =>
      obtain ⟨halike, hdata⟩ := h.foldl hmem
      rw [(lines_of_not_mem hmem).1, (lines_of_not_mem hmem).2]
      exact ⟨hdata.trans (List.append_nil _).symm, halike⟩
  | line line text hline ih =>
      obtain ⟨halike, hdata⟩ := h.foldl hline
      have hfresh : ((line.foldl (Reader.read {} {}) r).read {} {} '\n').Alike {} :=
        ⟨rfl, rfl, rfl⟩
      have hpush : ((line.foldl (Reader.read {} {}) r).read {} {} '\n').data =
          r.data ++ [readRow line] := by
        rw [read_lf, halike.row, halike.cell, hdata]
        rfl
      obtain ⟨hrows, hlast⟩ := ih hfresh
      rw [List.foldl_append, List.foldl_cons, lines_append hline, lastLine_append hline]
      refine ⟨?_, hlast⟩
      rw [hrows, hpush, List.map_cons, List.append_assoc]
      rfl

/-- A character that is not left out makes a cell or a row. -/
theorem read_ne_nil (r : Reader) {c : Char} (hcr : c ≠ '\r') (hlf : c ≠ '\n') :
    ¬((r.read {} {} c).cell = [] ∧ (r.read {} {} c).row = []) := by
  by_cases hquote : c = '"'
  · subst hquote
    rw [read_quote]
    simp
  · by_cases hseparator : c = ','
    · subst hseparator
      rw [read_separator]
      split
      · simp
      · simp
    · rw [read_other r hquote hseparator hcr hlf]
      simp

/-- A line has no cell exactly if it has nothing but carriage returns. -/
theorem read_isEmpty {line : List Char} (hline : '\n' ∉ line) (r : Reader) :
    (line.foldl (Reader.read {} {}) r).cell = [] ∧ (line.foldl (Reader.read {} {}) r).row = [] ↔
      (r.cell = [] ∧ r.row = []) ∧ ∀ c ∈ line, c = '\r' := by
  induction line generalizing r with
  | nil => simp
  | cons c line ih =>
      obtain ⟨hc, hline⟩ := List.ne_and_not_mem_of_not_mem_cons hline
      rw [List.foldl_cons, ih hline, List.forall_mem_cons, ← and_assoc]
      refine and_congr_left' ?_
      by_cases hcr : c = '\r'
      · subst hcr
        rw [read_cr]
        exact (and_iff_left rfl).symm
      · exact iff_of_false (read_ne_nil r hcr (Ne.symm hc)) fun h => hcr h.2

/-- **The rows of a file.** They are those of its lines, each read by itself. What is behind
the last end of a line is one more row, unless there is nothing but carriage returns. -/
theorem parseCsv_data (text : List Char) :
    (parseCsv {} {} text).data = (lines text).map readRow ++
      if (lastLine text).all (· == '\r') then [] else [readRow (lastLine text)] := by
  obtain ⟨hdata, halike⟩ := read_text text (r := {}) ⟨rfl, rfl, rfl⟩
  have hempty := (read_isEmpty (not_mem_lastLine text) {}).trans (and_iff_right ⟨rfl, rfl⟩)
  rw [← halike.cell, ← halike.row] at hempty
  have hall : (lastLine text).all (· == '\r') = true ↔ ∀ c ∈ lastLine text, c = '\r' := by
    simp only [List.all_eq_true, beq_iff_eq]
  rw [parseCsv]
  by_cases hlast : ∀ c ∈ lastLine text, c = '\r'
  · obtain ⟨hcell, hrow⟩ := hempty.2 hlast
    rw [if_pos (hall.2 hlast), if_neg (by simp [hcell, hrow]), hdata, List.append_nil]
    rfl
  · rw [if_neg fun h => hlast (hall.1 h), if_pos]
    · simp only [hdata, halike.row, halike.cell]
      rfl
    · by_contra hnone
      simp only [Bool.or_eq_true, Bool.not_eq_true', not_or, Bool.not_eq_false,
        List.isEmpty_iff] at hnone
      exact hlast (hempty.1 hnone)

/-! ### The rows that are sent -/

theorem count_skipBom (text : List Char) : (skipBom text).count '\n' = text.count '\n' := by
  rw [skipBom]
  split
  next hbom =>
    have hsplit := congrArg (List.count '\n') (List.take_append_drop 3 text)
    rw [List.count_append, hbom] at hsplit
    rw [← hsplit]
    exact (Nat.zero_add _).symm
  next => rfl

theorem rows_getElem? (r : Reader) (i : ℕ) : (rows r)[i]? = getRow r i := by
  rw [rows, getRow, List.getElem?_tail]

/-- The row with the number `i` is that of a line, if there are so many ends of lines. -/
theorem getRow_readCsv {text : List Char} {i : ℕ} (h : i < text.count '\n' - 1) :
    getRow (readCsv text) i = ((lines (skipBom text)).tail.map readRow)[i]? := by
  have hlength : i + 1 < ((lines (skipBom text)).map readRow).length := by
    rw [List.length_map, length_lines, count_skipBom]
    omega
  rw [getRow, readCsv, parseCsv_data, List.getElem?_append_left hlength, ← List.getElem?_tail,
    List.map_tail]

section Sent

open CSVParser

variable {σ Response : Type} [Inhabited Response]
variable {parseRow : σ → List Cell → Response → σ → Prop} {numThreads : ℕ} {server : σ}
variable {s : Parsing σ Response} {text : List Char}

/-- **The rows of a file are sent.** In every interleaving of the threads: there is a row for
every line that a thread asks for, so `GetRow` never throws; a row that has been sent is that
of its line of the file. When all threads have ended, the rows of all lines with an end but
the first have been sent, each once, and what is behind the last end of a line has not. -/
theorem file_rows_sent (hpos : 0 < numThreads)
    (h : Reachable (rows (readCsv text)) parseRow (text.count '\n') numThreads server s) :
    (∀ k < numThreads, ∀ i, Has (text.count '\n') numThreads k i →
        (getRow (readCsv text) i).isSome) ∧
      (∀ p ∈ s.answers, getRow (readCsv text) p.2 =
        ((lines (skipBom text)).tail.map readRow)[p.2]?) ∧
      (s.Joined (text.count '\n') numThreads →
        s.answers.map (fun p => getRow (readCsv text) p.2) ~
          (lines (skipBom text)).tail.map fun line => some (readRow line)) := by
  obtain ⟨-, hbound, -, hall⟩ := rows_sent_once hpos h
  have hlength : ((lines (skipBom text)).tail.map readRow).length = text.count '\n' - 1 := by
    rw [List.length_map, List.length_tail, length_lines, count_skipBom]
  refine ⟨fun k hk i hhas => ?_, fun p hp => getRow_readCsv (hbound p hp).1, fun hjoined => ?_⟩
  · have hi : i < text.count '\n' - 1 := Nat.lt_of_lt_of_le hhas.2 (endLine_le hk)
    rw [getRow_readCsv hi, List.getElem?_eq_getElem (hlength ▸ hi)]
    rfl
  · have hperm := (hall hjoined).map (getRow (readCsv text))
    rw [List.map_map] at hperm
    have hsome : (lines (skipBom text)).tail.map (fun line => some (readRow line)) =
        ((lines (skipBom text)).tail.map readRow).map some := List.map_map.symm
    rw [hsome]
    refine hperm.trans (.of_eq (List.ext_getElem? fun i => ?_))
    rw [List.getElem?_map, List.getElem?_map]
    by_cases hi : i < text.count '\n' - 1
    · rw [List.getElem?_range hi, Option.map_some, getRow_readCsv hi,
        List.getElem?_eq_getElem (hlength ▸ hi), Option.map_some]
    · rw [List.getElem?_eq_none (by rw [List.length_range]; omega),
        List.getElem?_eq_none (by omega)]
      rfl

/-- A header, three rows, of which one has a separator in quotes, and a last line without an
end. -/
def threeRows : List Char := "name\n\"a,b\"\nc\nd\nlost".toList

/-- The second of two threads sends the last row before the first thread sends the others. -/
theorem file_rows_sent_two : ∃ s : Parsing Unit Unit, s.answers.map Prod.snd = [2, 0, 1] ∧
    (∀ k < 2, ∀ i, Has 4 2 k i → (getRow (readCsv threeRows) i).isSome) ∧
    s.answers.map (fun p => getRow (readCsv threeRows) p.2) ~
      [some ["a,b".toList], some ["c".toList], some ["d".toList]] := by
  have hstep : ∀ {s : Parsing Unit Unit} (k : ℕ) (row : List Cell),
      Reachable (rows (readCsv threeRows)) (fun (_ : Unit) _ (_ : Unit) _ => True) 4 2 () s →
      k < 2 → (s.threads k).i < endLine 4 2 k →
      (rows (readCsv threeRows))[(s.threads k).i]? = some row →
      Reachable (rows (readCsv threeRows)) (fun (_ : Unit) _ (_ : Unit) _ => True) 4 2 () _ :=
    fun k row hs hk hend hrow =>
      hs.tail (@Step.row _ _ _ _ _ _ _ _ _ k row () () hk hend hrow trivial)
  have hlast := hstep 1 ["d".toList] .refl (by decide) (by decide) rfl
  have hfirst := hstep 0 ["a,b".toList] hlast (by decide) (by decide) rfl
  have hsecond := hstep 0 ["c".toList] hfirst (by decide) (by decide) rfl
  obtain ⟨hrows, -, hall⟩ := file_rows_sent (by decide) hsecond
  refine ⟨_, rfl, hrows, (hall fun k hk => ?_).trans (.of_eq rfl)⟩
  match k, hk with
  | 0, _ => decide
  | 1, _ => decide

end Sent

/-! ### The round trip -/

/-- A cell without an end of a line, which does not begin with a quote unless it is quoted when
it is written. -/
structure Writable (cell : Cell) : Prop where
  cr : '\r' ∉ cell
  lf : '\n' ∉ cell
  quote : cell.head? = some '"' → ',' ∈ cell ∨ ' ' ∈ cell

theorem unescape_doubled (cell : Cell) : unescape (cell.flatMap doubled) = cell := by
  induction cell with
  | nil => rfl
  | cons c cell ih =>
      rw [List.flatMap_cons, doubled]
      split
      next hquote =>
        subst hquote
        exact congrArg ('"' :: ·) ih
      next hquote =>
        rw [List.singleton_append, unescape, ih]
        intro rest hc _
        exact hquote hc

theorem unquote_quoted (cell : Cell) :
    unquote {} ('"' :: (cell.flatMap doubled ++ ['"'])) = cell := by
  have hlast : ('"' :: (cell.flatMap doubled ++ ['"'])).getLast? = some '"' := by
    rw [← List.cons_append, List.getLast?_concat]
  have hbody : ('"' :: (cell.flatMap doubled ++ ['"'])).tail.dropLast = cell.flatMap doubled := by
    rw [List.tail_cons, List.dropLast_concat]
  rw [unquote, if_pos, hbody, unescape_doubled]
  simp [hlast]

theorem unquote_plain {cell : Cell} (h : cell.head? ≠ some '"') : unquote {} cell = cell := by
  rw [unquote, if_neg]
  simp [h]

/-- Outside quotes, everything is taken as it is. -/
theorem read_plain {text : List Char} (hseparator : ',' ∉ text) (hcr : '\r' ∉ text)
    (hlf : '\n' ∉ text) (r : Reader) (hhead : (r.cell ++ text).head? ≠ some '"') :
    text.foldl (Reader.read {} {}) r = { r with cell := r.cell ++ text } := by
  induction text generalizing r with
  | nil => rw [List.append_nil, List.foldl_nil]
  | cons c text ih =>
      obtain ⟨hc, hseparator⟩ := List.ne_and_not_mem_of_not_mem_cons hseparator
      obtain ⟨hc', hcr⟩ := List.ne_and_not_mem_of_not_mem_cons hcr
      obtain ⟨hc'', hlf⟩ := List.ne_and_not_mem_of_not_mem_cons hlf
      have hstep : r.read {} {} c = { r with cell := r.cell ++ [c] } := by
        by_cases hquote : c = '"'
        · -- A quote inside a cell that does not begin with one.
          subst hquote
          obtain ⟨row, cell, quoted, cr, lf, data⟩ := r
          cases cell with
          | nil => exact absurd rfl hhead
          | cons d cell =>
              have hd : ((d :: cell).head? == some '"') = false := by
                simpa using hhead
              rw [read_quote]
              simp only [hd, List.isEmpty_cons, Bool.or_false, Bool.false_eq_true, if_false]
        · exact read_other r hquote (Ne.symm hc) (Ne.symm hc') (Ne.symm hc'')
      rw [List.foldl_cons, hstep, ih hseparator hcr hlf _ (by simpa using hhead)]
      simp

/-- Inside quotes, everything is taken as it is, and a doubled quote does not end them. -/
theorem read_doubled {text : List Char} (hcr : '\r' ∉ text) (hlf : '\n' ∉ text) (r : Reader)
    (hquoted : r.quoted = true) (hhead : r.cell.head? = some '"') :
    (text.flatMap doubled).foldl (Reader.read {} {}) r =
      { r with cell := r.cell ++ text.flatMap doubled } := by
  induction text generalizing r with
  | nil => rw [List.flatMap_nil, List.append_nil, List.foldl_nil]
  | cons c text ih =>
      obtain ⟨hc, hcr⟩ := List.ne_and_not_mem_of_not_mem_cons hcr
      obtain ⟨hc', hlf⟩ := List.ne_and_not_mem_of_not_mem_cons hlf
      have hhead' (cell : Cell) : (r.cell ++ cell).head? = some '"' := by
        rw [List.head?_append, hhead, Option.some_or]
      have hstep : (doubled c).foldl (Reader.read {} {}) r =
          { r with cell := r.cell ++ doubled c } := by
        rw [doubled]
        split
        · rw [List.foldl_cons, List.foldl_cons, List.foldl_nil, read_quote, read_quote]
          simp [hhead, hquoted]
        next hquote =>
          rw [List.foldl_cons, List.foldl_nil]
          by_cases hseparator : c = ','
          · subst hseparator
            rw [read_separator]
            simp [hquoted]
          · exact read_other r hquote hseparator (Ne.symm hc) (Ne.symm hc')
      rw [List.flatMap_cons, List.foldl_append, hstep,
        ih hcr hlf { r with cell := r.cell ++ doubled c } hquoted (hhead' _), List.append_assoc]

section Written

variable {hasCR : Bool} {cell : Cell}

/-- A cell that is not quoted when it is written. -/
theorem Writable.plain (h : Writable cell)
    (hplain : ¬(true && (cell.contains ',' || cell.contains ' ')) = true) :
    ',' ∉ cell ∧ cell.head? ≠ some '"' := by
  simp only [Bool.true_and, Bool.or_eq_true, List.contains_iff_mem, not_or] at hplain
  refine ⟨hplain.1, fun hhead => ?_⟩
  rcases h.quote hhead with hmem | hmem
  · exact hplain.1 hmem
  · exact hplain.2 hmem

/-- What is written of a cell is in the cell that is read. -/
theorem read_writeCell (h : Writable cell) (r : Reader) (hcell : r.cell = [])
    (hquoted : r.quoted = false) :
    (writeCell { hasCR } cell).foldl (Reader.read {} {}) r =
      { r with cell := writeCell { hasCR } cell } := by
  obtain ⟨row, _, _, cr, lf, data⟩ := r
  obtain rfl : _ = [] := hcell
  obtain rfl : _ = false := hquoted
  rw [writeCell]
  split
  · have hopen : Reader.read {} {} ⟨row, [], false, cr, lf, data⟩ '"' =
        ⟨row, ['"'], true, cr, lf, data⟩ := rfl
    rw [List.foldl_cons, hopen, List.foldl_append,
      read_doubled h.cr h.lf ⟨row, ['"'], true, cr, lf, data⟩ rfl rfl, List.foldl_cons,
      List.foldl_nil, read_quote]
    rfl
  next hplain =>
    obtain ⟨hseparator, hhead⟩ := h.plain hplain
    exact read_plain hseparator h.cr h.lf ⟨row, [], false, cr, lf, data⟩ hhead

/-- It is unquoted to the cell. -/
theorem unquote_writeCell (h : Writable cell) : unquote {} (writeCell { hasCR } cell) = cell := by
  rw [writeCell]
  split
  · exact unquote_quoted cell
  next hplain =>
    exact unquote_plain (h.plain hplain).2

/-- **One row.** What is written of it makes that row. -/
theorem read_writeCells {cells : List Cell} (hne : cells ≠ []) (h : ∀ cell ∈ cells, Writable cell)
    (r : Reader) (hcell : r.cell = []) (hquoted : r.quoted = false) :
    (writeCells { hasCR } cells ++ if hasCR then ['\r', '\n'] else ['\n']).foldl
        (Reader.read {} {}) r =
      { row := [], cell := [], quoted := false, cr := r.cr + hasCR.toNat, lf := r.lf + 1,
        data := r.data ++ [r.row ++ cells] } := by
  induction cells generalizing r with
  | nil => exact absurd rfl hne
  | cons cell cells ih =>
      have hfirst := h cell (List.mem_cons_self ..)
      rw [List.foldl_append]
      cases cells with
      | nil =>
          rw [writeCells, read_writeCell hfirst r hcell hquoted]
          cases hasCR with
          | false =>
              rw [if_neg Bool.false_ne_true, List.foldl_cons, List.foldl_nil, read_lf]
              simp only [unquote_writeCell hfirst, Bool.toNat_false, Nat.add_zero]
          | true =>
              rw [if_pos rfl, List.foldl_cons, List.foldl_cons, List.foldl_nil, read_cr, read_lf]
              simp only [unquote_writeCell hfirst, Bool.toNat_true]
      | cons next cells =>
          have hrest : ∀ cell ∈ next :: cells, Writable cell := fun cell hmem =>
            h cell (List.mem_cons_of_mem _ hmem)
          rw [writeCells, List.foldl_append, List.foldl_cons, read_writeCell hfirst r hcell hquoted,
            read_separator]
          simp only [hquoted, Bool.not_false, if_true, unquote_writeCell hfirst]
          rw [← List.foldl_append, ih (List.cons_ne_nil _ _) hrest
            ⟨r.row ++ [cell], [], false, r.cr, r.lf, r.data⟩ rfl rfl]
          simp only [List.append_assoc, List.singleton_append]

/-- The rows that are written are added, one by one. -/
theorem read_writeCsv {data : List (List Cell)}
    (h : ∀ row ∈ data, row ≠ [] ∧ ∀ cell ∈ row, Writable cell) (r : Reader) (hrow : r.row = [])
    (hcell : r.cell = []) (hquoted : r.quoted = false) :
    (writeCsv { hasCR } data).foldl (Reader.read {} {}) r =
      { r with
        cr := r.cr + data.length * hasCR.toNat, lf := r.lf + data.length,
        data := r.data ++ data } := by
  induction data generalizing r with
  | nil => simp [writeCsv]
  | cons row data ih =>
      obtain ⟨hne, hrow'⟩ := h row (List.mem_cons_self ..)
      rw [writeCsv, List.flatMap_cons, List.foldl_append,
        read_writeCells hne hrow' r hcell hquoted, ← writeCsv,
        ih (fun row hmem => h row (List.mem_cons_of_mem _ hmem)) _ rfl rfl rfl]
      simp only [hrow, hcell, hquoted, List.nil_append, List.append_assoc, List.singleton_append,
        List.length_cons, Reader.mk.injEq, true_and, and_true]
      constructor
      · rw [Nat.succ_mul]
        omega
      · omega

end Written

/-- **The round trip.** A document is read back as it was written, and so is the kind of its
ends of lines. -/
theorem parseCsv_writeCsv (hasCR : Bool) (data : List (List Cell))
    (h : ∀ row ∈ data, row ≠ [] ∧ ∀ cell ∈ row, Writable cell) :
    (parseCsv {} {} (writeCsv { hasCR } data)).data = data ∧
      (data ≠ [] → (parseCsv {} {} (writeCsv { hasCR } data)).hasCR = hasCR) := by
  have hread := @read_writeCsv hasCR data h {} rfl rfl rfl
  rw [parseCsv, hread]
  refine ⟨rfl, fun hne => ?_⟩
  have hpos := List.length_pos_iff.2 hne
  cases hasCR with
  | false => simp [Reader.hasCR]
  | true =>
      simp only [List.isEmpty_nil, Bool.not_true, Bool.or_self, Bool.false_eq_true, if_false,
        Reader.hasCR, Bool.toNat_true, decide_eq_true_eq]
      omega

/-- A quoted cell with a quote inside. -/
theorem parseCsv_writeCsv_quotes :
    (parseCsv {} {} (writeCsv { hasCR := true } [["say \"a\"".toList, "b\"".toList]])).data =
      [["say \"a\"".toList, "b\"".toList]] := by
  refine (parseCsv_writeCsv true _ fun row hrow => ?_).1
  obtain rfl := List.mem_singleton.1 hrow
  refine ⟨List.cons_ne_nil _ _, fun cell hcell => ?_⟩
  rcases List.mem_pair.1 hcell with rfl | rfl
  · exact ⟨by decide, by decide, by decide⟩
  · exact ⟨by decide, by decide, by decide⟩

end RapidCSV

end Vdms
