import Mathlib.Algebra.Ring.Nat
import Mathlib.Data.List.Nodup
import Vdms.Imp.Prog
import Vdms.NumberText

/-!
# Layers of Directories

The files of a database are spread over directories of directories. `VDMSConfig` creates all of
them when it starts, and `create_unique` chooses one of them for each new file.

## Main results

* `layers_agree`: what is created, and what is chosen.
* `no_layers_expanded`: without layers one is expanded, which is not created.
-/

namespace Vdms

namespace DirectoryLayers

open Imp Imp.Prog

abbrev Path := List Char

section

variable (charsPerLayerName directoriesPerLayer : ℕ)

/-- A number behind zeros that fill it up to the width. -/
def layerName (i : ℕ) : Path :=
  List.replicate (charsPerLayerName - (Nat.toDigits 10 i).length) '0' ++ Nat.toDigits 10 i

/-- The directories of one layer. -/
def layer : List Path :=
  (List.range directoriesPerLayer).map fun i => layerName charsPerLayerName i ++ ['/']

/-- What a call of `expand_directory_layer` adds, behind the calls for the layers in front. -/
def addLayer (directoryList : List (List Path)) : List (List Path) :=
  match directoryList.getLast? with
  | none => directoryList ++ [layer charsPerLayerName directoriesPerLayer]
  | some last => directoryList ++
      [last.flatMap fun dir => (layer charsPerLayerName directoriesPerLayer).map (dir ++ ·)]

/-- `VDMSConfig::expand_directory_layer`. -/
def expandDirectoryLayer (directoryList : List (List Path)) : ℕ → List (List Path)
  | 0 => addLayer charsPerLayerName directoriesPerLayer directoryList
  | 1 => addLayer charsPerLayerName directoriesPerLayer directoryList
  | n + 2 => addLayer charsPerLayerName directoriesPerLayer
      (expandDirectoryLayer directoryList (n + 1))

/-- `VDMSConfig::create_directory_layer`: the directories that it checks or creates. -/
def createDirectoryLayer (directoryLayers : ℕ) (directoryList : List (List Path))
    (baseDirectory : Path) : List Path :=
  if 0 < directoryLayers then directoryList.flatten.map fun dir => baseDirectory ++ '/' :: dir
  else []

/-- The directories that `create_unique` chooses with these random numbers. -/
def chosenLayers (rands : List ℕ) : Path :=
  rands.flatMap fun r => layerName charsPerLayerName (r % directoriesPerLayer) ++ ['/']

/-- `rand() % 0`. -/
inductive DivisionByZero where
  | divisionByZero

/-- A pass of the loop of `create_unique`: a name behind `front`, if there is no such file. -/
def tryName (found : Path → Bool) (ids : ℕ → UInt64) (front extension : Path) (attempt : ℕ) :
    Prog Unit DivisionByZero (ℕ ⊕ Path) :=
  let uniqueId := Nat.toDigits 16 (ids attempt).toNat
  let name := front ++ (uniqueId ++ '.' :: extension)
  if found name then pure (.inl (attempt + 1)) else pure (.inr name)

/-- `VCL::create_unique`, where `rands` are the random numbers, one for each layer, and `ids` the
numbers that `get_uint64` returns one after the other. -/
def createUnique (found : Path → Bool) (rands : List ℕ) (ids : ℕ → UInt64)
    (path extension : Path) : Prog Unit DivisionByZero Path :=
  if rands ≠ [] ∧ directoriesPerLayer = 0 then throw .divisionByZero
  else
    let slash := if path.getLast? = some '/' then [] else ['/']
    let layers := chosenLayers charsPerLayerName directoriesPerLayer rands
    loop (tryName found ids (path ++ slash ++ layers) extension) 0

/-! ### What the directories are -/

/-- The path that goes through the directories with these numbers. -/
def joined (numbers : List ℕ) : Path :=
  numbers.flatMap fun i => layerName charsPerLayerName i ++ ['/']

/-- A path of a depth. -/
def IsPath (depth : ℕ) (p : Path) : Prop :=
  ∃ numbers : List ℕ, numbers.length = depth ∧ (∀ i ∈ numbers, i < directoriesPerLayer) ∧
    p = joined charsPerLayerName numbers

/-- For each depth the paths of that depth, each once. -/
structure EachOnce (layers : ℕ) (directoryList : List (List Path)) : Prop where
  length : directoryList.length = layers
  nodup : directoryList.flatten.Nodup
  mem : ∀ (k : ℕ) (dirs : List Path), directoryList[k]? = some dirs →
    ∀ p, p ∈ dirs ↔ IsPath charsPerLayerName directoriesPerLayer (k + 1) p

/-- One slash for each run of slashes, as the system reads a path. -/
def squeeze : Path → Path
  | [] => []
  | c :: cs => if c = '/' ∧ cs.head? = some '/' then squeeze cs else c :: squeeze cs

/-- A file with this name, made of an id and an extension, is in this directory. -/
def LiesIn (dir name : Path) : Prop :=
  ∃ dir' extension, ∃ id : UInt64, squeeze dir' = squeeze dir ∧
    name = dir' ++ (Nat.toDigits 16 id.toNat ++ '.' :: extension)

/-- What `create_unique` chooses is in one of the directories. -/
def ChosenIn (layers : ℕ) (base : Path) (directories : List Path) : Prop :=
  ∀ (found : Path → Bool) (rands : List ℕ) (ids : ℕ → UInt64) (extension name : Path),
    rands.length = layers →
    Runs (createUnique charsPerLayerName directoriesPerLayer found rands ids base extension) ()
      (.ret name ()) → ∃ dir ∈ directories, LiesIn dir name

/-- For each depth the paths are expanded, and a directory that was created is chosen. -/
def FanOut (layers : ℕ) : Prop :=
  let directoryList := expandDirectoryLayer charsPerLayerName directoriesPerLayer [] layers
  EachOnce charsPerLayerName directoriesPerLayer layers directoryList ∧
    ∀ base, ChosenIn charsPerLayerName directoriesPerLayer layers base
      (createDirectoryLayer layers directoryList base)

end

variable {charsPerLayerName directoriesPerLayer : ℕ}

/-! ### Names -/

theorem layerName_value (i : ℕ) : Nat.ofDigitChars 10 (layerName charsPerLayerName i) 0 = i := by
  rw [layerName, Nat.ofDigitChars_append, Nat.ofDigitChars_replicate_zero, Nat.mul_zero,
    Nat.ofDigitChars_ten_toDigits]

theorem layerName_slash (i : ℕ) : ∀ c ∈ layerName charsPerLayerName i, (c != '/') = true := by
  intro c hc
  have hdigit : c.isDigit = true := by
    obtain hc | hc := List.mem_append.1 hc
    · rw [(List.mem_replicate.1 hc).2]
      decide
    · exact Nat.isDigit_of_mem_toDigits (by decide) (by decide) hc
  refine bne_iff_ne.2 ?_
  rintro rfl
  cases hdigit

/-- The numbers are found again in a path. Induction on the numbers. -/
theorem joined_injective : Function.Injective (joined charsPerLayerName) := by
  intro numbers numbers' h
  induction numbers generalizing numbers' with
  | nil =>
      cases numbers' with
      | nil => rfl
      | cons i numbers' => simp [joined] at h
  | cons i numbers ih =>
      cases numbers' with
      | nil => simp [joined] at h
      | cons j numbers' =>
          have hcons : ∀ k ks, joined charsPerLayerName (k :: ks) =
              layerName charsPerLayerName k ++ '/' :: joined charsPerLayerName ks := by
            intro k ks
            simp [joined]
          have hsplit : ∀ k ks,
              (joined charsPerLayerName (k :: ks)).takeWhile (· != '/') =
                  layerName charsPerLayerName k ∧
                (joined charsPerLayerName (k :: ks)).dropWhile (· != '/') =
                  '/' :: joined charsPerLayerName ks := by
            intro k ks
            rw [hcons]
            exact NumberText.takeWhile_append (layerName_slash k) fun c hc => by
              cases hc
              decide
          obtain ⟨hname, hrest⟩ := hsplit i numbers
          obtain ⟨hname', hrest'⟩ := hsplit j numbers'
          rw [h] at hname hrest
          have hij := (layerName_value i).symm.trans
            ((congrArg (Nat.ofDigitChars 10 · 0) (hname.symm.trans hname')).trans
              (layerName_value j))
          obtain rfl : i = j := hij
          rw [ih (List.cons.inj (hrest.symm.trans hrest')).2]

/-! ### The paths of a depth -/

/-- The numbers of the directories on the paths of a depth. -/
def tuples (n : ℕ) : ℕ → List (List ℕ)
  | 0 => [[]]
  | k + 1 => (tuples n k).flatMap fun numbers => (List.range n).map fun i => numbers ++ [i]

/-- Induction on the depth. -/
theorem mem_tuples {n k : ℕ} {numbers : List ℕ} :
    numbers ∈ tuples n k ↔ numbers.length = k ∧ ∀ i ∈ numbers, i < n := by
  induction k generalizing numbers with
  | zero =>
      rw [tuples, List.mem_singleton, List.length_eq_zero_iff]
      exact ⟨fun h => ⟨h, by simp [h]⟩, And.left⟩
  | succ k ih =>
      simp only [tuples, List.mem_flatMap, List.mem_map, List.mem_range, ih]
      constructor
      · rintro ⟨front, ⟨hlength, hfront⟩, i, hi, rfl⟩
        refine ⟨by simp [hlength], fun j hj => ?_⟩
        obtain hj | hj := List.mem_append.1 hj
        · exact hfront j hj
        · rw [List.mem_singleton.1 hj]
          exact hi
      · rintro ⟨hlength, hall⟩
        have hne : numbers ≠ [] := List.ne_nil_of_length_eq_add_one hlength
        refine ⟨numbers.dropLast, ⟨by simp [hlength], fun i hi =>
          hall i (List.dropLast_subset numbers hi)⟩, numbers.getLast hne,
          hall _ (List.getLast_mem hne), List.dropLast_append_getLast hne⟩

theorem tuples_nodup (n k : ℕ) : (tuples n k).Nodup := by
  induction k with
  | zero => simp [tuples]
  | succ k ih =>
      rw [tuples, List.nodup_flatMap]
      refine ⟨fun numbers _ => List.nodup_range.map fun i j h => by simpa using h,
        ih.imp fun {front front'} hne => ?_⟩
      refine List.disjoint_left.2 fun numbers hmem hmem' => ?_
      obtain ⟨i, -, rfl⟩ := List.mem_map.1 hmem
      obtain ⟨j, -, heq⟩ := List.mem_map.1 hmem'
      exact hne (List.append_inj_left' heq.symm rfl)

theorem isPath_iff {depth : ℕ} {p : Path} :
    IsPath charsPerLayerName directoriesPerLayer depth p ↔
      p ∈ (tuples directoriesPerLayer depth).map (joined charsPerLayerName) := by
  simp only [IsPath, List.mem_map, mem_tuples]
  constructor
  · rintro ⟨numbers, hlength, hall, rfl⟩
    exact ⟨numbers, ⟨hlength, hall⟩, rfl⟩
  · rintro ⟨numbers, ⟨hlength, hall⟩, rfl⟩
    exact ⟨numbers, hlength, hall, rfl⟩

theorem joined_append (front : List ℕ) (i : ℕ) : joined charsPerLayerName (front ++ [i]) =
    joined charsPerLayerName front ++ (layerName charsPerLayerName i ++ ['/']) := by
  simp [joined]

/-- What a call adds to the lists of the depths in front. -/
theorem addLayer_tuples (n : ℕ) :
    addLayer charsPerLayerName directoriesPerLayer
        ((List.range n).map fun k =>
          (tuples directoriesPerLayer (k + 1)).map (joined charsPerLayerName)) =
      (List.range (n + 1)).map fun k =>
        (tuples directoriesPerLayer (k + 1)).map (joined charsPerLayerName) := by
  cases n with
  | zero =>
      rw [addLayer]
      simp [layer, tuples, joined]
  | succ n =>
      have hlast : ((List.range (n + 1)).map fun k =>
          (tuples directoriesPerLayer (k + 1)).map (joined charsPerLayerName)).getLast? =
            some ((tuples directoriesPerLayer (n + 1)).map (joined charsPerLayerName)) := by
        rw [List.range_succ, List.map_append, List.map_singleton, List.getLast?_concat]
      rw [addLayer, hlast, List.range_succ (n := n + 1), List.map_append, List.map_singleton]
      refine congrArg _ (congrArg (fun dirs => [dirs]) ?_)
      rw [show tuples directoriesPerLayer (n + 1 + 1) = (tuples directoriesPerLayer (n + 1)).flatMap
          fun numbers => (List.range directoriesPerLayer).map fun i => numbers ++ [i] from rfl,
        List.map_flatMap, List.flatMap_map]
      refine List.flatMap_congr fun front _ => ?_
      simp [layer, joined_append, Function.comp_def]

/-- The lists of `expand_directory_layer`. Induction on the layers. -/
theorem expandDirectoryLayer_eq (n : ℕ) :
    expandDirectoryLayer charsPerLayerName directoriesPerLayer [] (n + 1) =
      (List.range (n + 1)).map fun k =>
        (tuples directoriesPerLayer (k + 1)).map (joined charsPerLayerName) := by
  induction n with
  | zero => exact addLayer_tuples 0
  | succ n ih => rw [expandDirectoryLayer, ih, addLayer_tuples]

/-- The lists of the paths have each path once. -/
theorem eachOnce_tuples (layers : ℕ) :
    EachOnce charsPerLayerName directoriesPerLayer layers ((List.range layers).map fun k =>
      (tuples directoriesPerLayer (k + 1)).map (joined charsPerLayerName)) where
  length := by simp
  nodup := by
    have hflatten : ((List.range layers).map fun k =>
        (tuples directoriesPerLayer (k + 1)).map (joined charsPerLayerName)).flatten =
          ((List.range layers).flatMap fun k => tuples directoriesPerLayer (k + 1)).map
            (joined charsPerLayerName) := by
      rw [List.map_flatMap, List.flatMap_def]
    rw [hflatten]
    refine List.Nodup.map joined_injective ?_
    rw [List.nodup_flatMap]
    refine ⟨fun k _ => tuples_nodup directoriesPerLayer (k + 1), ?_⟩
    refine List.nodup_range.imp fun {k k'} hne => ?_
    refine List.disjoint_left.2 fun numbers hmem hmem' => ?_
    have hlength := (mem_tuples.1 hmem).1
    have hlength' := (mem_tuples.1 hmem').1
    omega
  mem k dirs h p := by
    rw [List.getElem?_map] at h
    obtain ⟨a, ha, rfl⟩ := Option.map_eq_some_iff.1 h
    obtain ⟨hk, hget⟩ := List.getElem?_eq_some_iff.1 ha
    rw [List.getElem_range] at hget
    rw [hget]
    exact isPath_iff.symm

/-! ### The directory of a file -/

/-- Two slashes are read as one. Induction on what is in front of them. -/
theorem squeeze_slash (front rest : Path) :
    squeeze (front ++ '/' :: '/' :: rest) = squeeze (front ++ '/' :: rest) := by
  induction front with
  | nil => rw [List.nil_append, squeeze, if_pos ⟨rfl, rfl⟩, List.nil_append]
  | cons c front ih =>
      have hhead : (front ++ '/' :: '/' :: rest).head? = (front ++ '/' :: rest).head? := by
        cases front <;> rfl
      rw [List.cons_append, List.cons_append, squeeze, squeeze, hhead, ih]

/-- With or without a slash behind the base directory. -/
theorem squeeze_base (base layers : Path) :
    squeeze (base ++ (if base.getLast? = some '/' then [] else ['/']) ++ layers) =
      squeeze (base ++ '/' :: layers) := by
  split
  · rename_i hslash
    obtain ⟨front, rfl⟩ := List.getLast?_eq_some_iff.1 hslash
    simp only [List.append_nil, List.append_assoc, List.singleton_append]
    exact (squeeze_slash front layers).symm
  · rw [List.append_assoc, List.singleton_append]

/-- The chosen directories are on a path as deep as there are layers. -/
theorem chosenLayers_isPath {rands : List ℕ} (h : rands = [] ∨ directoriesPerLayer ≠ 0) :
    IsPath charsPerLayerName directoriesPerLayer rands.length
      (chosenLayers charsPerLayerName directoriesPerLayer rands) := by
  refine ⟨rands.map (· % directoriesPerLayer), by simp, fun i hi => ?_, ?_⟩
  · obtain ⟨r, hr, rfl⟩ := List.mem_map.1 hi
    have hpos : 0 < directoriesPerLayer := by
      obtain rfl | hne := h
      · cases hr
      · omega
    exact Nat.mod_lt r hpos
  · rw [joined, chosenLayers, List.flatMap_map]

theorem tryName_ensures {found : Path → Bool} {ids : ℕ → UInt64} {front extension : Path} :
    Ensures (loop (tryName found ids front extension) 0) () fun name _ =>
      found name = false ∧ ∃ id : UInt64,
        name = front ++ (Nat.toDigits 16 id.toNat ++ '.' :: extension) := by
  refine Sat.loop (fun _ _ => True) (fun attempt _ _ => ?_) trivial
  refine Sat.ite (fun _ => Sat.pure trivial) fun hfound => Sat.pure ?_
  exact ⟨by simpa using hfound, ids attempt, rfl⟩

theorem tryName_free {found : Path → Bool} (hfree : ∀ name, found name = false)
    (ids : ℕ → UInt64) (front extension : Path) :
    Runs (loop (tryName found ids front extension) 0) ()
      (.ret (front ++ (Nat.toDigits 16 (ids 0).toNat ++ '.' :: extension)) ()) := by
  refine Runs.loop_stop (Runs.of_eq fun n => ?_)
  rw [tryName, hfree, if_neg (by decide)]
  rfl

/-- What `create_unique` returns is in the directory of the numbers that it has drawn. -/
theorem createUnique_inv {found : Path → Bool} {rands : List ℕ} {ids : ℕ → UInt64}
    {base extension name : Path}
    (h : Runs (createUnique charsPerLayerName directoriesPerLayer found rands ids base extension) ()
      (.ret name ())) :
    (rands = [] ∨ directoriesPerLayer ≠ 0) ∧ found name = false ∧
      LiesIn (base ++ '/' :: chosenLayers charsPerLayerName directoriesPerLayer rands) name := by
  rw [createUnique] at h
  split at h
  · cases Runs.unique h (Runs.of_eq fun _ => rfl)
  · rename_i hne
    refine ⟨by_contra fun hnot => hne ?_, ?_⟩
    · rw [not_or, not_not] at hnot
      exact hnot
    · obtain ⟨hfound, id, hname⟩ := tryName_ensures.ret h
      exact ⟨hfound, _, extension, id, squeeze_base base _, hname⟩

/-- If no file is there yet a name is returned. -/
theorem createUnique_runs {found : Path → Bool} {rands : List ℕ} (ids : ℕ → UInt64)
    (base extension : Path) (h : rands = [] ∨ directoriesPerLayer ≠ 0)
    (hfree : ∀ name, found name = false) : ∃ name,
      Runs (createUnique charsPerLayerName directoriesPerLayer found rands ids base extension) ()
        (.ret name ()) := by
  have hne : ¬ (rands ≠ [] ∧ directoriesPerLayer = 0) := by
    rintro ⟨hrands, hzero⟩
    exact h.elim hrands fun hpos => hpos hzero
  rw [createUnique, if_neg hne]
  exact ⟨_, tryName_free hfree ids _ extension⟩

/-- **Layers of directories.** One layer at least is expanded, into all paths of each depth. With
layers, what is chosen is in a directory that was created; without, none is created, and what is
chosen is in the base directory. -/
theorem layers_agree (charsPerLayerName directoriesPerLayer layers : ℕ) :
    EachOnce charsPerLayerName directoriesPerLayer (max 1 layers)
        (expandDirectoryLayer charsPerLayerName directoriesPerLayer [] layers) ∧
      (0 < layers → ∀ base, ChosenIn charsPerLayerName directoriesPerLayer layers base
        (createDirectoryLayer layers
          (expandDirectoryLayer charsPerLayerName directoriesPerLayer [] layers) base)) ∧
      (layers = 0 → ∀ base, createDirectoryLayer layers
          (expandDirectoryLayer charsPerLayerName directoriesPerLayer [] layers) base = [] ∧
        ChosenIn charsPerLayerName directoriesPerLayer layers base [base ++ ['/']]) := by
  refine ⟨?_, fun hpos base found rands ids extension name hrands hrun => ?_,
    fun hzero base => ⟨by simp [createDirectoryLayer, hzero],
      fun found rands ids extension name hrands hrun => ?_⟩⟩
  · cases layers with
    | zero =>
        have hzero : expandDirectoryLayer charsPerLayerName directoriesPerLayer [] 0 =
            expandDirectoryLayer charsPerLayerName directoriesPerLayer [] 1 := rfl
        rw [hzero, expandDirectoryLayer_eq 0]
        exact eachOnce_tuples 1
    | succ n =>
        rw [expandDirectoryLayer_eq n, max_eq_right (by omega)]
        exact eachOnce_tuples (n + 1)
  · obtain ⟨hdirs, -, hname⟩ := createUnique_inv hrun
    refine ⟨_, ?_, hname⟩
    obtain ⟨n, rfl⟩ : ∃ n, layers = n + 1 := ⟨layers - 1, by omega⟩
    have hpath := @chosenLayers_isPath charsPerLayerName directoriesPerLayer rands hdirs
    rw [hrands, isPath_iff] at hpath
    rw [createDirectoryLayer, if_pos hpos, expandDirectoryLayer_eq]
    refine List.mem_map_of_mem (List.mem_flatten.2 ⟨_, ?_, hpath⟩)
    exact List.mem_map.2 ⟨n, List.mem_range.2 (by omega), rfl⟩
  · obtain ⟨-, -, hname⟩ := createUnique_inv hrun
    obtain rfl : rands = [] := List.length_eq_zero_iff.1 (hrands.trans hzero)
    exact ⟨_, List.mem_singleton_self _, hname⟩

/-- Without layers one is expanded, which nothing asks for. -/
theorem no_layers_expanded : ¬ FanOut 3 5 0 := by
  rintro ⟨hexpanded, -⟩
  exact absurd hexpanded.length (by decide)

end DirectoryLayers

end Vdms
