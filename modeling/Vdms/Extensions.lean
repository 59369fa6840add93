import Vdms.ImageLoop

/-!
# Extensions of Paths

`get_extension` takes what is behind the last dot of a path, if that is far enough behind the last
slash. A base name of one character is too short for it.

## Main results

* `getExtension_split`: the extension of a path, by its parts.
* `extension_recovered_iff`: the paths whose extension is found, so that `create_fullpath` is
  idempotent on them.
-/

namespace Vdms

namespace VCL

/-- The bytes of a `std::string`. -/
def bytesOf (s : String) : Bytes := s.toUTF8.data.toList

/-- `VCL::format_to_string`. -/
def formatToString : Format → String
  | .noneImage => ""
  | .jpg => "jpg"
  | .png => "png"
  | .tdb => "tdb"
  | .bin => "bin"

/-- `Image::create_fullpath`. -/
def createFullpath (filename : String) (format : Format) : Except String String :=
  if filename = "" then .error "Location to write object is undefined"
  else do
    let extension ← getExtension filename
    let ext := formatToString format
    if bytesOf ext = extension ∨ ext = "" then pure filename else pure (filename ++ "." ++ ext)

/-- The name of a file in its directory: no dot, no slash. -/
structure BaseName where
  name : String
  ne_empty : name ≠ ""
  no_dot : 46 ∉ bytesOf name
  no_slash : 47 ∉ bytesOf name

/-- A path: a directory, if there is one, a base name and an extension. -/
structure FilePath where
  directory : Option String
  base : BaseName
  extension : String

namespace FilePath

/-- What is in front of the base name. -/
def lead (path : FilePath) : String := path.directory.elim "" (· ++ "/")

def fullPath (path : FilePath) : String :=
  path.lead ++ path.base.name ++ "." ++ path.extension

/-- The extension is found, and `create_fullpath` does nothing the second time. -/
def Recovered (path : FilePath) : Prop :=
  getExtension path.fullPath = .ok (bytesOf path.extension) ∧
    ∀ format, ∃ p, createFullpath path.fullPath format = .ok p ∧ createFullpath p format = .ok p

end FilePath

/-! ### Positions -/

theorem findIdx?_notMem {c : UInt8} {s : Bytes} (h : c ∉ s) : s.findIdx? (· == c) = none := by
  rw [List.findIdx?_eq_none_iff]
  rintro x hx
  refine beq_false_of_ne ?_
  rintro rfl
  exact h hx

theorem findLastOf_none {c : UInt8} {s : Bytes} (h : c ∉ s) : findLastOf c s = none := by
  rw [findLastOf, findIdx?_notMem fun hc => h (List.mem_reverse.1 hc)]
  rfl

/-- The last occurrence has none behind it. -/
theorem findLastOf_append {s t : Bytes} {c : UInt8} (h : c ∉ t) :
    findLastOf c (s ++ c :: t) = some s.length := by
  have hfirst : (s ++ c :: t).reverse.findIdx? (· == c) = some t.length := by
    have hnone := findIdx?_notMem fun hc => h (List.mem_reverse.1 hc)
    rw [List.reverse_append, List.reverse_cons, List.append_assoc, List.findIdx?_append, hnone]
    simp [List.findIdx?_cons]
  rw [findLastOf, hfirst]
  simp

theorem exists_last {c : UInt8} {s : Bytes} (h : c ∈ s) : ∃ t t', s = t ++ c :: t' ∧ c ∉ t' := by
  obtain ⟨t', t, heq, hnot⟩ := List.eq_append_cons_of_mem (List.mem_reverse.2 h)
  refine ⟨t.reverse, t'.reverse, ?_, fun hc => hnot (List.mem_reverse.1 hc)⟩
  have hs := congrArg List.reverse heq
  simpa using hs

/-! ### `get_extension` -/

/-- How far in front of the last dot the base name begins, at least, by the last slash. -/
def nameLimit (s : Bytes) : ℕ := (findLastOf 47 s).elim 1 (· + 2)

/-- The test of `get_extension`, of a path with its last dot. -/
theorem getExtension_eq {path : String} {s t : Bytes} (hpath : bytesOf path = s ++ 46 :: t)
    (ht : 46 ∉ t) : getExtension path =
      if nameLimit (s ++ 46 :: t) < s.length then .ok t
      else .error (path ++ " does not have a valid extension") := by
  have hbytes : path.toUTF8.data.toList = s ++ 46 :: t := hpath
  have hdrop : (s ++ 46 :: t).drop (s.length + 1) = t := by
    rw [List.drop_append]
    simp
  rw [getExtension, nameLimit]
  simp only [hbytes, findLastOf_append ht, hdrop]
  cases findLastOf 47 (s ++ 46 :: t) <;> rfl

theorem nameLimit_of_notMem {s : Bytes} (h : 47 ∉ s) : nameLimit s = 1 := by
  rw [nameLimit, findLastOf_none h]
  rfl

theorem nameLimit_append {s t : Bytes} (h : 47 ∉ t) :
    nameLimit (s ++ 47 :: t) = s.length + 2 := by
  rw [nameLimit, findLastOf_append h]
  rfl

/-- What is found has no dot. -/
theorem no_dot_of_getExtension {path : String} {t : Bytes} (h : getExtension path = .ok t) :
    46 ∉ t := by
  by_cases hdot : 46 ∈ bytesOf path
  · obtain ⟨s, t', hpath, ht'⟩ := exists_last hdot
    rw [getExtension_eq hpath ht'] at h
    split at h
    · cases h
      exact ht'
    · cases h
  · have hbytes : 46 ∉ path.toUTF8.data.toList := hdot
    rw [getExtension] at h
    simp only [findLastOf_none hbytes] at h
    cases h
    simp

/-- A path of which no slash is behind the base name. -/
theorem getExtension_split {path : String} {lead name ext : Bytes}
    (hpath : bytesOf path = lead ++ (name ++ 46 :: ext))
    (hlead : lead = [] ∨ ∃ dir, lead = dir ++ [47]) (hname : 47 ∉ name) (hdot : 46 ∉ ext)
    (hslash : 47 ∉ ext) : getExtension path =
      if 2 ≤ name.length then .ok ext
      else .error (path ++ " does not have a valid extension") := by
  have hrest : 47 ∉ name ++ 46 :: ext := by simp [hname, hslash]
  rw [← List.append_assoc] at hpath
  rw [getExtension_eq hpath hdot, List.append_assoc]
  refine if_congr ?_ rfl rfl
  rcases hlead with rfl | ⟨dir, rfl⟩
  · rw [List.nil_append, nameLimit_of_notMem hrest, List.nil_append]
    exact Iff.rfl
  · rw [List.append_assoc, List.singleton_append, nameLimit_append hrest]
    simp only [List.length_append, List.length_singleton]
    omega

/-- With a slash behind the last dot there is no extension. -/
theorem no_slash_of_getExtension {path : String} {s t t' : Bytes}
    (hpath : bytesOf path = s ++ 46 :: t) (h : getExtension path = .ok t') (ht : 46 ∉ t) :
    47 ∉ t := by
  intro hmem
  obtain ⟨u, u', rfl, hu'⟩ := exists_last hmem
  rw [getExtension_eq hpath ht] at h
  have hlimit : nameLimit (s ++ 46 :: (u ++ 47 :: u')) = (s ++ 46 :: u).length + 2 := by
    rw [← nameLimit_append hu', List.append_assoc, List.cons_append]
  rw [hlimit, if_neg (by simp only [List.length_append]; omega)] at h
  cases h

namespace FilePath

variable (path : FilePath)

theorem bytesOf_append (s t : String) : bytesOf (s ++ t) = bytesOf s ++ bytesOf t := by
  simp [bytesOf]

theorem bytesOf_fullPath : bytesOf path.fullPath =
    bytesOf path.lead ++ (bytesOf path.base.name ++ 46 :: bytesOf path.extension) := by
  have hdot : bytesOf "." = [46] := rfl
  simp only [fullPath, bytesOf_append, hdot, List.append_assoc, List.singleton_append]

theorem lead_slash : bytesOf path.lead = [] ∨ ∃ dir, bytesOf path.lead = dir ++ [47] := by
  obtain ⟨directory, base, extension⟩ := path
  cases directory with
  | none => exact .inl rfl
  | some dir => exact .inr ⟨bytesOf dir, bytesOf_append dir "/"⟩

/-- A path with a dot is not empty. -/
theorem ne_empty_of_bytesOf {p : String} {s t : Bytes} (h : bytesOf p = s ++ 46 :: t) : p ≠ "" := by
  rintro rfl
  have hlength := congrArg List.length h
  simp [bytesOf] at hlength

theorem formatToString_spec (format : Format) :
    46 ∉ bytesOf (formatToString format) ∧ 47 ∉ bytesOf (formatToString format) := by
  cases format <;> decide

theorem createFullpath_eq {p : String} {s t ext : Bytes} (hp : bytesOf p = s ++ 46 :: t)
    (hext : getExtension p = .ok ext) (format : Format) : createFullpath p format =
      if bytesOf (formatToString format) = ext ∨ formatToString format = "" then .ok p
      else .ok (p ++ "." ++ formatToString format) := by
  rw [createFullpath, if_neg (ne_empty_of_bytesOf hp), hext]
  rfl

/-- **Extensions.** An extension is found, and `create_fullpath` idempotent on the path, exactly if
the base name has more than one character and the extension neither a dot nor a slash. -/
theorem extension_recovered_iff : path.Recovered ↔
    2 ≤ (bytesOf path.base.name).length ∧ 46 ∉ bytesOf path.extension ∧
      47 ∉ bytesOf path.extension := by
  have hpath := path.bytesOf_fullPath
  constructor
  · rintro ⟨hext, -⟩
    have hdot := no_dot_of_getExtension hext
    have hslash := no_slash_of_getExtension (hpath.trans (List.append_assoc ..).symm) hext hdot
    rw [getExtension_split hpath path.lead_slash path.base.no_slash hdot hslash] at hext
    split at hext
    · rename_i hlong
      exact ⟨hlong, hdot, hslash⟩
    · cases hext
  · rintro ⟨hlong, hdot, hslash⟩
    have hext := getExtension_split hpath path.lead_slash path.base.no_slash hdot hslash
    rw [if_pos hlong] at hext
    refine ⟨hext, fun format => ?_⟩
    have hfull := createFullpath_eq (hpath.trans (List.append_assoc ..).symm) hext format
    by_cases hsame : bytesOf (formatToString format) = bytesOf path.extension ∨
        formatToString format = ""
    · rw [if_pos hsame] at hfull
      exact ⟨path.fullPath, hfull, hfull⟩
    · -- The path gets the extension of the format, which is found the second time.
      rw [if_neg hsame] at hfull
      obtain ⟨hdot', hslash'⟩ := formatToString_spec format
      have hadded : bytesOf (path.fullPath ++ "." ++ formatToString format) = bytesOf path.lead ++
          ((bytesOf path.base.name ++ 46 :: bytesOf path.extension) ++
            46 :: bytesOf (formatToString format)) := by
        rw [bytesOf_append, bytesOf_append, hpath, show bytesOf "." = [46] from rfl]
        simp only [List.append_assoc, List.singleton_append]
      have hname : 47 ∉ bytesOf path.base.name ++ 46 :: bytesOf path.extension := by
        simp [path.base.no_slash, hslash]
      have hext' := getExtension_split hadded path.lead_slash hname hdot' hslash'
      rw [if_pos (by simp only [List.length_append]; omega)] at hext'
      refine ⟨_, hfull, ?_⟩
      rw [createFullpath_eq (hadded.trans (List.append_assoc ..).symm) hext' format,
        if_pos (.inl rfl)]

/-- `a.png`, in the directory `db`. -/
def shortName : FilePath where
  directory := some "db"
  base := ⟨"a", by decide, by decide, by decide⟩
  extension := "png"

/-- It has no valid extension. -/
theorem short_name_refused : ¬ shortName.Recovered := by
  rintro ⟨hext, -⟩
  have hrefused : getExtension shortName.fullPath =
      .error (shortName.fullPath ++ " does not have a valid extension") := by
    rw [getExtension_split shortName.bytesOf_fullPath shortName.lead_slash
      shortName.base.no_slash (by decide) (by decide)]
    exact if_neg (by decide)
  rw [hrefused] at hext
  cases hext

end FilePath

end VCL

end Vdms
