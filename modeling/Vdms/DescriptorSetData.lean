import Mathlib.Data.Int.Notation
import Mathlib.Data.List.TakeWhile
import Std.Data.ExtTreeMap
import Vdms.Imp.LittleEndian

/-!
# The Labels of a Descriptor Set

A descriptor set numbers its label strings: `_labels_map` maps an id to a string, and
`get_label_id` looks for a string and gives it the size of the map as id if there is none. The
map is stored as a text, one line for an id and its string, and read back with the extraction
operators of a stream, which stop at white space and leave their variable alone when they fail.

The ids of the labels of the descriptors themselves are stored by the in-memory engines as a
binary file: their number in four bytes, and then eight bytes for each.

## Main results

* `read_write_labels_iff`: the labels that come back are those that are not empty and have no
  white space.
* `read_write_labelIds_iff`: the ids come back if there are less than `2 ^ 32`.
* `label_ids_stable`: as long as the size of the map is a free id, and nothing is lost with
  the file, ids are stable and distinct.
-/

namespace Vdms

open Imp

/-- `std::map<long, std::string>`. -/
abbrev LabelsMap := Std.ExtTreeMap Int64 String

namespace DescriptorSetData

/-! ### The text of the labels -/

/-- What `out << id` writes. -/
def showLong (id : Int64) : List Char :=
  if id.toInt < 0 then '-' :: Nat.toDigits 10 id.toInt.natAbs
  else Nat.toDigits 10 id.toInt.natAbs

/-- The line of an id and its label. -/
def labelLine (id : Int64) (label : String) : List Char :=
  showLong id ++ ' ' :: label.toList

/-- `DescriptorSetData::write_labels_map`. -/
def writeLabelsMap (labels : LabelsMap) : List Char :=
  labels.toList.flatMap fun label => labelLine label.1 label.2 ++ ['\n']

/-- The lines that `std::getline` reads: the last one may lack its end. -/
def getlines : List Char → List (List Char)
  | [] => []
  | c :: text =>
    if c = '\n' then [] :: getlines text
    else
      match getlines text with
      | [] => [[c]]
      | line :: lines => (c :: line) :: lines

/-- White space of the classic locale. -/
def isspace (c : Char) : Bool :=
  c = ' ' || c = '\t' || c = '\n' || c = '\x0b' || c = '\x0c' || c = '\r'

/-- The digits of a number, and what is behind them. -/
def readDigits (negative : Bool) (text : List Char) : Int64 × List Char × Bool :=
  let digits := text.takeWhile Char.isDigit
  let rest := text.dropWhile Char.isDigit
  let n : ℕ := Nat.ofDigitChars 10 digits 0
  let z : ℤ := if negative then -n else n
  if digits = [] then (0, rest, false)
  else if z < Int64.minValue.toInt then (Int64.minValue, rest, false)
  else if Int64.maxValue.toInt < z then (Int64.maxValue, rest, false)
  else (Int64.ofInt z, rest, true)

/-- `in >> id`, behind white space: the value, the characters that are left, and whether it
succeeds. -/
def readLong : List Char → Int64 × List Char × Bool
  | '-' :: text => readDigits true text
  | '+' :: text => readDigits false text
  | text => readDigits false text

/-- An id and a label, as `read_labels_map` reads them from a line `str`. A label that cannot
be read is the line, which is what the variable holds; and an `id` that is not even tried
is what its variable holds, which is not initialized. -/
def readLine (uninitialized : Int64) (str : List Char) : Int64 × String :=
  let text := str.dropWhile isspace
  if text = [] then (uninitialized, String.ofList str)
  else
    let (id, rest, good) := readLong text
    let word := rest.dropWhile isspace
    if !good || word = [] then (id, String.ofList str)
    else (id, String.ofList (word.takeWhile fun c => !isspace c))

/-- `DescriptorSetData::read_labels_map`. -/
def readLabelsMap (uninitialized : Int64) (text : List Char) : LabelsMap :=
  (getlines text).foldl (fun labels str =>
    labels.insert (readLine uninitialized str).1 (readLine uninitialized str).2) ∅

/-- The label is one word. -/
def IsWord (label : String) : Prop := label ≠ "" ∧ ∀ c ∈ label.toList, isspace c = false

instance (label : String) : Decidable (IsWord label) :=
  @instDecidableAnd _ _ inferInstance (List.decidableBAll _ _)

/-! ### The ids of the labels -/

/-- `write_label_ids` of the in-memory engines. -/
def writeLabelIds (ids : List Int64) : List UInt8 :=
  leBytes 4 ids.length ++ ids.flatMap fun id => leBytes 8 id.toUInt64.toNat

/-- So many numbers of eight bytes each; the vector they are read into holds zeros. -/
def readLongs : ℕ → List UInt8 → List Int64
  | 0, _ => []
  | n + 1, bytes =>
    (UInt64.ofNat (ofLeBytes (bytes.take 8))).toInt64 :: readLongs n (bytes.drop 8)

/-- `read_label_ids`, of a file with at least the four bytes of the number of ids. -/
def readLabelIds (bytes : List UInt8) : List Int64 :=
  readLongs (ofLeBytes (bytes.take 4)) (bytes.drop 4)

/-! ### The line of an id -/

theorem isDigit_of_mem_toDigits {n : ℕ} {c : Char} (h : c ∈ Nat.toDigits 10 n) :
    c.isDigit = true :=
  Nat.isDigit_of_mem_toDigits (by decide) (by decide) h

theorem isspace_of_isDigit {c : Char} (h : c.isDigit = true) : isspace c = false := by
  rw [isspace]
  rcases hc : (c = ' ' || c = '\t' || c = '\n' || c = '\x0b' || c = '\x0c' || c = '\r') with _ | _
  · rfl
  · simp only [Bool.or_eq_true, decide_eq_true_eq] at hc
    rcases hc with ((((rfl | rfl) | rfl) | rfl) | rfl) | rfl <;> simp at h

/-- The digits of a number are read up to the blank behind them. -/
theorem readDigits_toDigits (negative : Bool) (n : ℕ) (rest : List Char) (id : Int64)
    (hid : (if negative then -(n : ℤ) else n) = id.toInt) :
    readDigits negative (Nat.toDigits 10 n ++ ' ' :: rest) = (id, ' ' :: rest, true) := by
  have hblank : Char.isDigit ' ' ≠ true := by decide
  have htake : (Nat.toDigits 10 n ++ ' ' :: rest).takeWhile Char.isDigit =
      Nat.toDigits 10 n := by
    rw [List.takeWhile_append_of_pos fun c hc => isDigit_of_mem_toDigits hc,
      List.takeWhile_cons_of_neg hblank, List.append_nil]
  have hdrop : (Nat.toDigits 10 n ++ ' ' :: rest).dropWhile Char.isDigit = ' ' :: rest := by
    rw [List.dropWhile_append_of_pos fun c hc => isDigit_of_mem_toDigits hc,
      List.dropWhile_cons_of_neg hblank]
  have hlow := id.minValue_le_toInt
  have hhigh := id.toInt_le
  simp only [readDigits, htake, hdrop, Nat.ofDigitChars_ten_toDigits, hid]
  rw [if_neg Nat.toDigits_ne_nil, if_neg (by omega), if_neg (by omega), Int64.ofInt_toInt]

theorem readLong_showLong (id : Int64) (rest : List Char) :
    readLong (showLong id ++ ' ' :: rest) = (id, ' ' :: rest, true) := by
  rw [showLong]
  split
  · rename_i hneg
    rw [List.cons_append, readLong]
    exact readDigits_toDigits true _ rest id (by rw [if_pos rfl]; omega)
  · rename_i hpos
    have hdigits := readDigits_toDigits false id.toInt.natAbs rest id
      (by rw [if_neg (by decide)]; omega)
    cases hd : Nat.toDigits 10 id.toInt.natAbs with
    | nil => exact absurd hd Nat.toDigits_ne_nil
    | cons c cs =>
        have hc : c.isDigit = true := isDigit_of_mem_toDigits (hd ▸ List.mem_cons_self ..)
        rw [hd] at hdigits
        rw [List.cons_append] at hdigits ⊢
        unfold readLong
        split
        · rename_i heq
          rw [List.cons.injEq] at heq
          rw [heq.1] at hc
          simp at hc
        · rename_i heq
          rw [List.cons.injEq] at heq
          rw [heq.1] at hc
          simp at hc
        · exact hdigits

/-- An id starts with no white space. -/
theorem dropWhile_showLong (id : Int64) (rest : List Char) :
    (showLong id ++ rest).dropWhile isspace = showLong id ++ rest := by
  have hfirst : ∀ c cs, showLong id = c :: cs → isspace c = false := by
    intro c cs hcs
    rw [showLong] at hcs
    split at hcs
    · rw [List.cons.injEq] at hcs
      rw [← hcs.1]
      decide
    · exact isspace_of_isDigit (isDigit_of_mem_toDigits (hcs ▸ List.mem_cons_self ..))
  cases hs : showLong id with
  | nil =>
      exfalso
      rw [showLong] at hs
      split at hs
      · cases hs
      · exact Nat.toDigits_ne_nil hs
  | cons c cs =>
      rw [List.cons_append, List.dropWhile_cons_of_neg]
      simp [hfirst c cs hs]

/-- What is read from the line of an id: the id, and the first word of the label, or all of
the line if the label has none. -/
theorem readLine_labelLine (u id : Int64) (label : String) :
    readLine u (labelLine id label) = (id,
      if label.toList.dropWhile isspace = [] then String.ofList (labelLine id label)
      else String.ofList ((label.toList.dropWhile isspace).takeWhile fun c => !isspace c)) := by
  have hdrop : (labelLine id label).dropWhile isspace = labelLine id label :=
    dropWhile_showLong id _
  have hne : labelLine id label ≠ [] := by simp [labelLine]
  have hlong : readLong (labelLine id label) = (id, ' ' :: label.toList, true) :=
    readLong_showLong id _
  have hblank : (' ' :: label.toList).dropWhile isspace = label.toList.dropWhile isspace :=
    List.dropWhile_cons_of_pos (by decide)
  simp only [readLine, hdrop, if_neg hne, hlong, hblank, Bool.not_true, Bool.false_or,
    decide_eq_true_eq]
  split <;> rfl

/-- **Words come back**, and nothing else does. -/
theorem readLine_eq_iff (u id : Int64) (label : String) :
    readLine u (labelLine id label) = (id, label) ↔ IsWord label := by
  rw [readLine_labelLine, Prod.mk.injEq]
  simp only [true_and]
  constructor
  · intro h
    split at h
    · exfalso
      have hlen := congrArg (fun s => s.toList.length) h
      simp [labelLine] at hlen
      omega
    · rename_i hword
      constructor
      · rintro rfl
        exact hword rfl
      · intro c hc
        rw [← h, String.toList_ofList] at hc
        simpa using List.mem_takeWhile_imp hc
  · rintro ⟨hne, hspace⟩
    have hdrop : label.toList.dropWhile isspace = label.toList := by
      cases hl : label.toList with
      | nil => rfl
      | cons c cs =>
          rw [List.dropWhile_cons_of_neg]
          simp [hspace c (hl ▸ List.mem_cons_self ..)]
    have htake : label.toList.takeWhile (fun c => !isspace c) = label.toList := by
      rw [List.takeWhile_eq_self_iff]
      intro c hc
      simp [hspace c hc]
    have hnil : label.toList ≠ [] := fun hnil => hne (String.toList_eq_nil_iff.1 hnil)
    rw [hdrop, if_neg hnil, htake, String.ofList_toList]

/-! ### The whole text -/

theorem getlines_line {line : List Char} (h : '\n' ∉ line) (text : List Char) :
    getlines (line ++ '\n' :: text) = line :: getlines text := by
  induction line with
  | nil => simp [getlines]
  | cons c line ih =>
      rw [List.mem_cons, not_or] at h
      rw [List.cons_append, getlines, if_neg (Ne.symm h.1), ih h.2]

theorem getlines_lines (lines : List (List Char)) (h : ∀ line ∈ lines, '\n' ∉ line) :
    getlines (lines.flatMap fun line => line ++ ['\n']) = lines := by
  induction lines with
  | nil => rfl
  | cons line lines ih =>
      rw [List.flatMap_cons, List.append_assoc, List.singleton_append,
        getlines_line (h line (List.mem_cons_self ..)),
        ih fun l hl => h l (List.mem_cons_of_mem _ hl)]

/-- A line that is read has no end of line in it. -/
theorem newline_not_mem_getlines {text line : List Char} (h : line ∈ getlines text) :
    '\n' ∉ line := by
  induction text generalizing line with
  | nil => cases h
  | cons c text ih =>
      rw [getlines] at h
      split at h
      · rcases List.mem_cons.1 h with rfl | h
        · exact List.not_mem_nil
        · exact ih h
      · rename_i hc
        split at h
        · obtain rfl := List.mem_singleton.1 h
          rw [List.mem_singleton]
          exact Ne.symm hc
        · rename_i first lines hlines
          rcases List.mem_cons.1 h with rfl | h
          · rw [List.mem_cons, not_or]
            exact ⟨Ne.symm hc, ih (by rw [hlines]; exact List.mem_cons_self ..)⟩
          · exact ih (by rw [hlines]; exact List.mem_cons_of_mem _ h)

theorem newline_not_mem_readLine {u : Int64} {line : List Char} (h : '\n' ∉ line) :
    '\n' ∉ (readLine u line).2.toList := by
  rw [readLine]
  dsimp only
  split
  · simpa using h
  · split
    · simpa using h
    · intro hmem
      rw [String.toList_ofList] at hmem
      exact absurd (List.mem_takeWhile_imp hmem) (by decide)

theorem newline_not_mem_showLong (id : Int64) : '\n' ∉ showLong id := by
  have hdigits : ∀ n, '\n' ∉ Nat.toDigits 10 n := fun n hmem =>
    absurd (isDigit_of_mem_toDigits hmem) (by decide)
  rw [showLong]
  split
  · rw [List.mem_cons, not_or]
    exact ⟨by decide, hdigits _⟩
  · exact hdigits _

theorem newline_not_mem_labelLine {id : Int64} {label : String} (h : '\n' ∉ label.toList) :
    '\n' ∉ labelLine id label := by
  rw [labelLine]
  rw [List.mem_append, List.mem_cons, not_or, not_or]
  exact ⟨newline_not_mem_showLong id, by decide, h⟩

/-- Inserting pairs one after the other: what is there comes from one of them. -/
theorem getElem?_foldl_insert {α : Type} {f : α → Int64 × String} {l : List α}
    {labels : LabelsMap} {id : Int64} {label : String}
    (h : (l.foldl (fun labels a => labels.insert (f a).1 (f a).2) labels)[id]? = some label) :
    (∃ a ∈ l, f a = (id, label)) ∨ labels[id]? = some label := by
  induction l generalizing labels with
  | nil => exact .inr h
  | cons a l ih =>
      rcases ih h with ⟨b, hb, hfb⟩ | h
      · exact .inl ⟨b, List.mem_cons_of_mem _ hb, hfb⟩
      · rw [Std.ExtTreeMap.getElem?_insert] at h
        split at h
        · rename_i hid
          refine .inl ⟨a, List.mem_cons_self .., Prod.ext ?_ (Option.some.inj h)⟩
          exact Std.LawfulEqCmp.eq_of_compare hid
        · exact .inr h

/-- The lines of labels without an end of line are those that were written. -/
theorem getlines_write {labels : LabelsMap}
    (h : ∀ (id : Int64) (label : String), labels[id]? = some label → '\n' ∉ label.toList) :
    getlines (writeLabelsMap labels) = labels.toList.map fun p => labelLine p.1 p.2 := by
  have hlines := getlines_lines (labels.toList.map fun p => labelLine p.1 p.2)
    fun line hline => by
      obtain ⟨⟨id, label⟩, hmem, rfl⟩ := List.mem_map.1 hline
      exact newline_not_mem_labelLine
        (h id label (Std.ExtTreeMap.mem_toList_iff_getElem?_eq_some.1 hmem))
  rwa [List.flatMap_map] at hlines

theorem ofList_toList (labels : LabelsMap) :
    labels.toList.foldl (fun labels p => labels.insert p.1 p.2) ∅ = labels := by
  refine Std.ExtTreeMap.ext_getElem? fun id => ?_
  rw [← Std.ExtTreeMap.ofList_eq_foldl]
  cases hid : labels[id]? with
  | some label =>
      exact Std.ExtTreeMap.getElem?_ofList_of_mem Std.ReflCmp.compare_self
        Std.ExtTreeMap.distinct_keys_toList
        (Std.ExtTreeMap.mem_toList_iff_getElem?_eq_some.2 hid)
  | none =>
      rw [Option.eq_none_iff_forall_ne_some]
      intro label hlabel
      rw [Std.ExtTreeMap.ofList_eq_foldl] at hlabel
      rcases getElem?_foldl_insert hlabel with ⟨p, hp, rfl⟩ | h
      · rw [Std.ExtTreeMap.mem_toList_iff_getElem?_eq_some, hid] at hp
        cases hp
      · simp at h

/-- The labels are words. -/
def Words (labels : LabelsMap) : Prop :=
  ∀ (id : Int64) (label : String), labels[id]? = some label → IsWord label

instance (labels : LabelsMap) : Decidable (Words labels) :=
  decidable_of_iff (∀ p ∈ labels.toList, IsWord p.2)
    ⟨fun h id label hid => h (id, label) (Std.ExtTreeMap.mem_toList_iff_getElem?_eq_some.2 hid),
      fun h p hp => h p.1 p.2 (Std.ExtTreeMap.mem_toList_iff_getElem?_eq_some.1 hp)⟩

/-- **The labels come back** exactly if each of them is one word. -/
theorem read_write_labels_iff (u : Int64) (labels : LabelsMap) :
    readLabelsMap u (writeLabelsMap labels) = labels ↔ Words labels := by
  constructor
  · intro h
    have hread : ∀ (id : Int64) (label : String), labels[id]? = some label →
        ∃ line ∈ getlines (writeLabelsMap labels), readLine u line = (id, label) := by
      intro id label hid
      rw [← h, readLabelsMap] at hid
      rcases getElem?_foldl_insert hid with hline | hempty
      · exact hline
      · simp at hempty
    have hnewline : ∀ (id : Int64) (label : String), labels[id]? = some label →
        '\n' ∉ label.toList := by
      intro id label hid
      obtain ⟨line, hline, hl⟩ := hread id label hid
      have hword := newline_not_mem_readLine (u := u) (newline_not_mem_getlines hline)
      rwa [hl] at hword
    intro id label hid
    obtain ⟨line, hline, hl⟩ := hread id label hid
    rw [getlines_write hnewline] at hline
    obtain ⟨⟨id', label'⟩, hmem, rfl⟩ := List.mem_map.1 hline
    have hsame : id' = id := by
      rw [readLine_labelLine] at hl
      exact (Prod.mk.inj hl).1
    subst hsame
    rw [Std.ExtTreeMap.mem_toList_iff_getElem?_eq_some, hid] at hmem
    obtain rfl := Option.some.inj hmem
    exact (readLine_eq_iff u id' label).1 hl
  · intro h
    have hnewline : ∀ (id : Int64) (label : String), labels[id]? = some label →
        '\n' ∉ label.toList := by
      intro id label hid hmem
      exact absurd ((h id label hid).2 _ hmem) (by decide)
    have hlines : (labels.toList.map fun p => labelLine p.1 p.2).map (readLine u) =
        labels.toList := by
      rw [List.map_map]
      refine (List.map_congr_left fun p hp => ?_).trans (List.map_id _)
      exact (readLine_eq_iff u p.1 p.2).2
        (h p.1 p.2 (Std.ExtTreeMap.mem_toList_iff_getElem?_eq_some.1 hp))
    have hfold := @List.foldl_map _ _ _ (readLine u)
      (fun (labels : LabelsMap) p => labels.insert p.1 p.2)
      (labels.toList.map fun p => labelLine p.1 p.2) ∅
    rw [readLabelsMap, getlines_write hnewline, ← hfold, hlines, ofList_toList]

/-! ### The file of the ids -/

@[simp] theorem length_readLongs (n : ℕ) (bytes : List UInt8) :
    (readLongs n bytes).length = n := by
  induction n generalizing bytes with
  | zero => rfl
  | succ n ih => rw [readLongs, List.length_cons, ih]

theorem readLongs_flatMap (ids : List Int64) :
    readLongs ids.length (ids.flatMap fun id => leBytes 8 id.toUInt64.toNat) = ids := by
  induction ids with
  | nil => rfl
  | cons id ids ih =>
      have hlen : (leBytes 8 id.toUInt64.toNat).length = 8 := length_leBytes 8 _
      have hid : ofLeBytes (leBytes 8 id.toUInt64.toNat) = id.toUInt64.toNat :=
        ofLeBytes_leBytes_of_lt id.toUInt64.toNat_lt
      rw [List.length_cons, List.flatMap_cons, readLongs, List.take_left' hlen,
        List.drop_left' hlen, ih, hid]
      simp

/-- **The ids come back** exactly if their number fits its four bytes. -/
theorem read_write_labelIds_iff (ids : List Int64) :
    readLabelIds (writeLabelIds ids) = ids ↔ ids.length < 2 ^ 32 := by
  have hlen : (leBytes 4 ids.length).length = 4 := length_leBytes 4 _
  rw [readLabelIds, writeLabelIds, List.take_left' hlen, List.drop_left' hlen]
  constructor
  · intro h
    have hcount := congrArg List.length h
    rw [length_readLongs, ofLeBytes_leBytes] at hcount
    rw [← hcount]
    exact Nat.mod_lt _ (by decide)
  · intro h
    rw [ofLeBytes_leBytes_of_lt h, readLongs_flatMap]

/-! ### The ids of label strings -/

/-- `DescriptorSet::get_label_id`: the id, and the map after it. -/
def getLabelId (labels : LabelsMap) (label : String) : Int64 × LabelsMap :=
  match labels.toList.find? fun p => p.2 == label with
  | some p => (p.1, labels)
  | none => (Int64.ofNat labels.size, labels.insert (Int64.ofNat labels.size) label)

/-- The id of the label is the first one that has it. -/
def FirstWith (labels : LabelsMap) (label : String) (id : Int64) : Prop :=
  labels[id]? = some label ∧ ∀ id' : Int64, labels[id']? = some label → id ≤ id'

theorem FirstWith.unique {labels : LabelsMap} {label : String} {id id' : Int64}
    (h : FirstWith labels label id) (h' : FirstWith labels label id') : id = id' :=
  Int64.le_antisymm (h.2 id' h'.1) (h'.2 id h.1)

theorem firstWith_of_find {labels : LabelsMap} {label : String} {p : Int64 × String}
    (h : (labels.toList.find? fun p => p.2 == label) = some p) :
    FirstWith labels label p.1 := by
  obtain ⟨hp, before, after, hsplit, hbefore⟩ := List.find?_eq_some_iff_append.1 h
  have hlabel : p.2 = label := by simpa using hp
  have hmem : (p.1, p.2) ∈ labels.toList := by rw [hsplit]; simp
  have hordered : (before ++ p :: after).Pairwise fun a b => compare a.1 b.1 = .lt :=
    hsplit ▸ Std.ExtTreeMap.ordered_keys_toList
  refine ⟨?_, fun id hid => ?_⟩
  · rw [Std.ExtTreeMap.mem_toList_iff_getElem?_eq_some, hlabel] at hmem
    exact hmem
  · have hin := Std.ExtTreeMap.mem_toList_iff_getElem?_eq_some.2 hid
    rw [hsplit, List.mem_append, List.mem_cons] at hin
    rcases hin with hin | rfl | hin
    · have hnot := hbefore _ hin
      simp at hnot
    · exact Int64.le_refl _
    · have hlt := (List.pairwise_cons.1 (List.pairwise_append.1 hordered).2.1).1 _ hin
      exact Int64.le_of_lt (Std.compare_eq_lt.1 hlt)

/-- A label that is there keeps the map as it is. -/
theorem getLabelId_of_first {labels : LabelsMap} {label : String} {id : Int64}
    (h : FirstWith labels label id) : getLabelId labels label = (id, labels) := by
  rw [getLabelId]
  cases hfind : labels.toList.find? fun p => p.2 == label with
  | some p =>
      obtain rfl : id = p.1 := h.unique (firstWith_of_find hfind)
      rfl
  | none =>
      have hnone := List.find?_eq_none.1 hfind _
        (Std.ExtTreeMap.mem_toList_iff_getElem?_eq_some.2 h.1)
      simp at hnone

/-- A label that is not there gets the size as id. -/
theorem getLabelId_cases (labels : LabelsMap) (label : String) :
    (∃ id, FirstWith labels label id ∧ getLabelId labels label = (id, labels)) ∨
      (∀ id : Int64, labels[id]? ≠ some label) ∧ getLabelId labels label =
        (Int64.ofNat labels.size, labels.insert (Int64.ofNat labels.size) label) := by
  cases hfind : labels.toList.find? fun p => p.2 == label with
  | some p =>
      have hfirst := firstWith_of_find hfind
      exact .inl ⟨p.1, hfirst, getLabelId_of_first hfirst⟩
  | none =>
      refine .inr ⟨fun id hid => ?_, by unfold getLabelId; rw [hfind]⟩
      have hnone := List.find?_eq_none.1 hfind _
        (Std.ExtTreeMap.mem_toList_iff_getElem?_eq_some.2 hid)
      simp at hnone

/-- The label is there, or the size of the map is a free id. -/
def HasRoom (labels : LabelsMap) (label : String) : Prop :=
  (∃ id : Int64, labels[id]? = some label) ∨ labels[Int64.ofNat labels.size]? = none

/-- With room, no label is overwritten. -/
theorem getElem?_getLabelId {labels : LabelsMap} {label l : String} {id : Int64}
    (hroom : HasRoom labels label) (h : labels[id]? = some l) :
    (getLabelId labels label).2[id]? = some l := by
  rcases getLabelId_cases labels label with ⟨_, _, heq⟩ | ⟨hnone, heq⟩
  · rwa [heq]
  · rw [heq, Std.ExtTreeMap.getElem?_insert]
    split
    · rename_i hid
      have hsame := Std.LawfulEqCmp.eq_of_compare hid
      rcases hroom with ⟨id', hid'⟩ | hfree
      · exact absurd hid' (hnone id')
      · rw [hsame, h] at hfree
        cases hfree
    · exact h

/-- With room, the first id of a label stays the first. -/
theorem FirstWith.getLabelId {labels : LabelsMap} {label l : String} {id : Int64}
    (h : FirstWith labels l id) (hroom : HasRoom labels label) :
    FirstWith (getLabelId labels label).2 l id := by
  refine ⟨getElem?_getLabelId hroom h.1, fun id' hid' => ?_⟩
  rcases getLabelId_cases labels label with ⟨_, _, heq⟩ | ⟨hnone, heq⟩
  · rw [heq] at hid'
    exact h.2 id' hid'
  · rw [heq, Std.ExtTreeMap.getElem?_insert] at hid'
    split at hid'
    · obtain rfl := Option.some.inj hid'
      exact absurd h.1 (hnone id)
    · exact h.2 id' hid'

/-- The id that is given is the first one with the label. -/
theorem firstWith_getLabelId {labels : LabelsMap} {label : String} :
    FirstWith (DescriptorSetData.getLabelId labels label).2 label
      (DescriptorSetData.getLabelId labels label).1 := by
  rcases getLabelId_cases labels label with ⟨id, hfirst, heq⟩ | ⟨hnone, heq⟩
  · rwa [heq]
  · rw [heq]
    refine ⟨Std.ExtTreeMap.getElem?_insert_self, fun id hid => ?_⟩
    rw [Std.ExtTreeMap.getElem?_insert] at hid
    split at hid
    · rename_i hcmp
      exact Int64.le_of_eq (Std.LawfulEqCmp.eq_of_compare hcmp)
    · exact absurd hid (hnone id)

/-! ### Histories -/

/-- What is done to the labels of a set. The value of a variable that is not initialized is
an argument of the reading. -/
inductive LabelAction where
  | setLabelsMap (labels : LabelsMap)
  | getLabelId (label : String)
  | store
  | reopen (uninitialized : Int64)

/-- The labels in memory and in the file, and the ids that `get_label_id` has given since the
map was last set. -/
structure LabelState where
  labels : LabelsMap
  file : List Char
  given : List (String × Int64)

namespace LabelState

/-- A new set. -/
def start : LabelState := ⟨∅, [], []⟩

def step (s : LabelState) : LabelAction → LabelState
  | .setLabelsMap labels => { s with labels := labels, given := [] }
  | .getLabelId label =>
    { s with
      labels := (getLabelId s.labels label).2
      given := (label, (getLabelId s.labels label).1) :: s.given }
  | .store => { s with file := writeLabelsMap s.labels }
  | .reopen u => { s with labels := readLabelsMap u s.file }

/-- A new label finds the size of the map free, and a set is closed after its labels have been
stored, and these are words. -/
def Allowed (s : LabelState) : LabelAction → Prop
  | .setLabelsMap _ => True
  | .getLabelId label => HasRoom s.labels label
  | .store => True
  | .reopen _ => s.file = writeLabelsMap s.labels ∧ Words s.labels

/-- All the actions are allowed where they are done. -/
def AllowedRun (s : LabelState) : List LabelAction → Prop
  | [] => True
  | a :: actions => s.Allowed a ∧ (s.step a).AllowedRun actions

/-- Ids are stable and distinct: every label has the id it was given, and no two have the
same. -/
structure Stable (s : LabelState) : Prop where
  kept : ∀ p ∈ s.given, getLabelId s.labels p.1 = (p.2, s.labels)
  distinct : ∀ p ∈ s.given, ∀ q ∈ s.given, p.1 ≠ q.1 → p.2 ≠ q.2

/-- The invariant of the histories: an id that was given is the first one with its label. -/
def GivenFirst (s : LabelState) : Prop := ∀ p ∈ s.given, FirstWith s.labels p.1 p.2

theorem GivenFirst.stable {s : LabelState} (h : s.GivenFirst) : s.Stable := by
  refine ⟨fun p hp => getLabelId_of_first (h p hp), fun p hp q hq hne hid => hne ?_⟩
  have hlabel := (h p hp).1
  rw [hid, (h q hq).1] at hlabel
  exact (Option.some.inj hlabel).symm

theorem GivenFirst.step {s : LabelState} (h : s.GivenFirst) {a : LabelAction}
    (ha : s.Allowed a) : (s.step a).GivenFirst := by
  cases a with
  | setLabelsMap labels =>
      intro p hp
      cases hp
  | getLabelId label =>
      intro p hp
      rcases List.mem_cons.1 hp with rfl | hp
      · exact firstWith_getLabelId
      · exact (h p hp).getLabelId ha
  | store => exact h
  | reopen u =>
      obtain ⟨hfile, hwords⟩ := ha
      intro p hp
      change FirstWith (readLabelsMap u s.file) p.1 p.2
      rw [hfile, (read_write_labels_iff u s.labels).2 hwords]
      exact h p hp

theorem GivenFirst.run {s : LabelState} (h : s.GivenFirst) {actions : List LabelAction}
    (ha : s.AllowedRun actions) : (actions.foldl LabelState.step s).GivenFirst := by
  induction actions generalizing s with
  | nil => exact h
  | cons a actions ih => exact ih (h.step ha.1) ha.2

/-- **Ids of labels are stable and distinct** in every history whose actions are allowed; and
an allowed `get_label_id` leaves the string of every other id as it is. -/
theorem label_ids_stable {actions : List LabelAction} (h : start.AllowedRun actions) :
    (actions.foldl step start).Stable ∧
      ∀ label, (actions.foldl step start).Allowed (.getLabelId label) →
        ∀ (id : Int64) (l : String), (actions.foldl step start).labels[id]? = some l →
          ((actions.foldl step start).step (.getLabelId label)).labels[id]? = some l :=
  ⟨(GivenFirst.run (fun _ hp => by cases hp) h).stable,
    fun _ hroom _ _ hid => getElem?_getLabelId hroom hid⟩

/-- A map with a gap, a label that gets the gap as id, and a reopened set. -/
theorem label_ids_stable_gap :
    (([.setLabelsMap ((∅ : LabelsMap).insert 5 "x"), .getLabelId "a", .store, .reopen 0,
      .getLabelId "x"] : List LabelAction).foldl step start).Stable :=
  (@label_ids_stable [.setLabelsMap ((∅ : LabelsMap).insert 5 "x"), .getLabelId "a", .store,
    .reopen 0, .getLabelId "x"]
    ⟨trivial, .inr rfl, trivial, ⟨rfl, by decide⟩, .inl ⟨5, rfl⟩, trivial⟩).1

/-- The map of a user has one label, with the id 1: the next label gets the same id. -/
theorem size_is_taken : ¬ ∀ actions : List LabelAction, (actions.foldl step start).Stable := by
  intro h
  have hstable := h [.setLabelsMap ((∅ : LabelsMap).insert 1 "a"), .getLabelId "a",
    .getLabelId "b"]
  exact hstable.distinct ("a", 1) (by decide) ("b", 1) (by decide) (by decide) rfl

end LabelState

end DescriptorSetData

end Vdms
