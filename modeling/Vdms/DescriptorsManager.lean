import Vdms.DescriptorSetData
import Vdms.Imp.WriteBack

/-!
# The Descriptors Manager

`DescriptorsManager` keeps the descriptor sets that are in use in memory, one for each path. A
set is opened when a command first asks for it, and written back when all sets are: before a
classification, and when the server ends. `AddDescriptorSet` writes its set to the disk itself.

So to the commands there is one set for each path, as long as every set is read as it was
written, and no set is added at the path of another one. A server that crashes comes back with
the sets that were last written: by the manager, or by a method itself, as the sets in TileDB
arrays do when descriptors are added.

## Main definitions

* `getDescriptorsHandler`, `Access.run`: what the commands do with the manager.
* `Sets`, `Access.apply`: what the manager is for.

## Main results

* `sets_kept`: the manager, in a run of any accesses, answers as the sets themselves would.
* `flush_keeps_labels_iff`: when the labels of sets survive that all sets are written back.
* `added_again_is_stale`: a set that is added again while it is in memory.
-/

namespace Vdms

namespace DescriptorsManager

open Imp

variable {DescriptorSet Files Result : Type}

/-- A method of a set: what it returns, and what it leaves in memory and in the directory of the
set. To a set that is kept in memory the directory stays as it is. As a change of sets the latter
is `written`, of the set in memory and the one on the disk. -/
structure Method (DescriptorSet Files Result : Type) where
  run : DescriptorSet → Result × DescriptorSet
  write : DescriptorSet → Files → Files
  written : DescriptorSet → DescriptorSet → DescriptorSet

/-- A method that does not write. -/
def Method.inMemory (run : DescriptorSet → Result × DescriptorSet) :
    Method DescriptorSet Files Result :=
  ⟨run, fun _ files => files, fun _ stored => stored⟩

/-- What the method leaves in memory and on the disk is read as it is written. -/
structure Method.Sound (F : Storage String DescriptorSet Files) (path : String)
    (method : Method DescriptorSet Files Result) (set : DescriptorSet) : Prop where
  keeps : F.Keeps path (method.run set).2
  writes : ∀ files stored, F.load path files = some stored →
    F.load path (method.write set files) = some (method.written set stored)
  keepsWritten : ∀ stored, F.Keeps path stored → F.Keeps path (method.written set stored)

/-- `_descriptors_handlers`, and the directories of the sets. -/
abbrev Handlers (DescriptorSet Files : Type) := WriteBack String DescriptorSet Files

/-- What commands do with sets. A method is called through the handler of the set. -/
inductive Access (DescriptorSet Files Result : Type)
  /-- `AddDescriptor`, `FindDescriptor` and `ClassifyDescriptor`. -/
  | call (path : String) (method : Method DescriptorSet Files Result)
  /-- `FindDescriptorSet`, if it is to store the set. -/
  | storeIndex (path : String)
  /-- `AddDescriptorSet`. -/
  | addSet (path : String) (set : DescriptorSet)
  /-- `flush`, of `ClassifyDescriptor` and of the end of the server. -/
  | flush
  /-- The server is gone, and is started again. -/
  | crash

/-- `get_descriptors_handler`. There is none if the set cannot be opened. -/
def getDescriptorsHandler (F : Storage String DescriptorSet Files) (path : String)
    (s : Handlers DescriptorSet Files) : Option (DescriptorSet × Handlers DescriptorSet Files) :=
  match s.cached path with
  | some set => some (set, s)
  | none =>
      match s.stored F path with
      | none => none
      | some set => some (set, s.put path set)

/-- An access through the manager, and what a method has returned. -/
def Access.run (F : Storage String DescriptorSet Files) :
    Access DescriptorSet Files Result → Handlers DescriptorSet Files →
      Option Result × Handlers DescriptorSet Files
  | .call path method, s =>
      match getDescriptorsHandler F path s with
      | none => (none, s)
      | some (set, s) => (some (method.run set).1,
          (s.put path (method.run set).2).amend path (method.write set))
  | .storeIndex path, s =>
      match getDescriptorsHandler F path s with
      | none => (none, s)
      | some (set, s) => (none, s.write F path set)
  | .addSet path set, s => (none, s.write F path set)
  | .flush, s => (none, s.flush F)
  | .crash, s => (none, s.crash)

/-- Accesses one after the other. -/
def runAll (F : Storage String DescriptorSet Files) :
    List (Access DescriptorSet Files Result) → Handlers DescriptorSet Files →
      List (Option Result) × Handlers DescriptorSet Files
  | [], s => ([], s)
  | access :: rest, s =>
      let (result, s) := access.run F s
      let (results, s) := runAll F rest s
      (result :: results, s)

/-! ### What the manager is for -/

/-- One set for each path, and what would be left of it after a crash. -/
structure Sets (DescriptorSet : Type) where
  current : String → Option DescriptorSet
  durable : String → Option DescriptorSet

/-- An access to the sets themselves. -/
def Access.apply : Access DescriptorSet Files Result → Sets DescriptorSet →
    Option Result × Sets DescriptorSet
  | .call path method, a =>
      match a.current path with
      | none => (none, a)
      | some set => (some (method.run set).1,
          { current := Function.update a.current path (some (method.run set).2)
            durable := Function.update a.durable path
              ((a.durable path).map (method.written set)) })
  | .storeIndex path, a =>
      (none, { a with durable := Function.update a.durable path (a.current path) })
  | .addSet path set, a =>
      (none, { current := Function.update a.current path (some set)
               durable := Function.update a.durable path (some set) })
  | .flush, a => (none, { a with durable := a.current })
  | .crash, a => (none, { a with current := a.durable })

def applyAll : List (Access DescriptorSet Files Result) → Sets DescriptorSet →
    List (Option Result) × Sets DescriptorSet
  | [], a => ([], a)
  | access :: rest, a =>
      let (result, a) := access.apply a
      let (results, a) := applyAll rest a
      (result :: results, a)

/-- A method leaves sets that are read as they are written, and a set that is added is one. It is
added where there is none. -/
def Access.Meets (F : Storage String DescriptorSet Files) (a : Sets DescriptorSet) :
    Access DescriptorSet Files Result → Prop
  | .call path method => ∀ set, a.current path = some set → method.Sound F path set
  | .addSet path set => a.current path = none ∧ F.Keeps path set
  | .storeIndex _ | .flush | .crash => True

/-- Every access meets the condition where it is made. -/
def MeetsAll (F : Storage String DescriptorSet Files) :
    List (Access DescriptorSet Files Result) → Sets DescriptorSet → Prop
  | [], _ => True
  | access :: rest, a => access.Meets F a ∧ MeetsAll F rest (access.apply a).2

/-! ### The refinement -/

variable {F : Storage String DescriptorSet Files} {s : Handlers DescriptorSet Files}
  {a : Sets DescriptorSet}

/-- The manager has the sets, and the disk what would be left of them. -/
structure Refines (F : Storage String DescriptorSet Files) (s : Handlers DescriptorSet Files)
    (a : Sets DescriptorSet) : Prop where
  current : s.value F = a.current
  durable : s.stored F = a.durable
  keeps : ∀ path set, a.current path = some set → F.Keeps path set
  keepsDurable : ∀ path set, a.durable path = some set → F.Keeps path set
  onDisk : ∀ path set, a.current path = some set → (a.durable path).isSome

/-- The handler is that of the set, which is in memory from now on. -/
theorem getDescriptorsHandler_spec (path : String) :
    match s.value F path with
    | none => getDescriptorsHandler F path s = none ∧ s.stored F path = none
    | some set => ∃ t, getDescriptorsHandler F path s = some (set, t) ∧
        t.value F = s.value F ∧ t.stored F = s.stored F ∧ t.cached path = some set := by
  cases hcached : s.cached path with
  | some set =>
      simp only [WriteBack.value_of_cached hcached, getDescriptorsHandler, hcached]
      exact ⟨s, rfl, rfl, rfl, hcached⟩
  | none =>
      rw [WriteBack.value_of_not_cached hcached]
      cases hstored : s.stored F path with
      | none =>
          simp only [getDescriptorsHandler, hcached, hstored]
          exact ⟨trivial, trivial⟩
      | some set =>
          simp only [getDescriptorsHandler, hcached, hstored]
          refine ⟨_, rfl, ?_, rfl, Function.update_self ..⟩
          rw [WriteBack.value_put]
          refine Function.update_eq_self_iff.2 ?_
          rw [WriteBack.value_of_not_cached hcached, hstored]

/-- If the files keep every set of the cache and a new one, they keep the updated cache. -/
theorem keeps_update {sets : String → Option DescriptorSet} {path : String}
    {set : DescriptorSet} (h : ∀ path set, sets path = some set → F.Keeps path set)
    (hkeeps : F.Keeps path set) : ∀ path' set',
    Function.update sets path (some set) path' = some set' → F.Keeps path' set' := by
  intro path' set' hset
  by_cases hpath : path' = path
  · subst hpath
    rw [Function.update_self] at hset
    exact Option.some.inj hset ▸ hkeeps
  · rw [Function.update_of_ne hpath] at hset
    exact h path' set' hset

/-- A set that is in the one cache is in the other, also after an update of both. -/
theorem isSome_update {sets sets' : String → Option DescriptorSet} {path : String}
    {set set' : DescriptorSet}
    (h : ∀ path set, sets path = some set → (sets' path).isSome) : ∀ path' other,
    Function.update sets path (some set) path' = some other →
      (Function.update sets' path (some set') path').isSome := by
  intro path' other hother
  by_cases hpath : path' = path
  · rw [hpath, Function.update_self, Option.isSome_some]
  · rw [Function.update_of_ne hpath] at hother ⊢
    exact h path' other hother

/-- **One access.** -/
theorem Refines.access (h : Refines F s a) {access : Access DescriptorSet Files Result}
    (hmeets : access.Meets F a) : (access.run F s).1 = (access.apply a).1 ∧
      Refines F (access.run F s).2 (access.apply a).2 := by
  cases access with
  | call path method =>
      have hspec := getDescriptorsHandler_spec (F := F) (s := s) path
      rw [h.current] at hspec
      simp only [Access.run, Access.apply]
      cases hset : a.current path with
      | none =>
          rw [hset] at hspec
          simp only [hspec.1]
          exact ⟨trivial, h⟩
      | some set =>
          rw [hset] at hspec
          obtain ⟨t, hget, hvalue, hstored, -⟩ := hspec
          obtain ⟨stored, hdurable⟩ := Option.isSome_iff_exists.1 (h.onDisk path set hset)
          have hsound := hmeets set hset
          have hdisk : (t.put path (method.run set).2).stored F path = some stored := by
            rw [WriteBack.stored_put, hstored, h.durable, hdurable]
          simp only [hget, hdurable, Option.map_some]
          refine ⟨trivial, ?_, ?_, keeps_update h.keeps hsound.keeps,
            keeps_update h.keepsDurable
              (hsound.keepsWritten stored (h.keepsDurable path stored hdurable)), ?_⟩
          · rw [WriteBack.value_amend (Function.update_self ..), WriteBack.value_put, hvalue]
          · rw [WriteBack.stored_amend hdisk fun files => hsound.writes files stored,
              WriteBack.stored_put, hstored, h.durable]
          · exact isSome_update h.onDisk
  | storeIndex path =>
      have hspec := getDescriptorsHandler_spec (F := F) (s := s) path
      rw [h.current] at hspec
      simp only [Access.run, Access.apply]
      cases hset : a.current path with
      | none =>
          rw [hset] at hspec
          have hsame : Function.update a.durable path none = a.durable := by
            refine Function.update_eq_self_iff.2 ?_
            rw [← h.durable, hspec.2]
          simp only [hspec.1, hsame]
          exact ⟨trivial, h.current, h.durable, h.keeps, h.keepsDurable, h.onDisk⟩
      | some set =>
          rw [hset] at hspec
          obtain ⟨t, hget, hvalue, hstored, hcached⟩ := hspec
          have hkeeps : F.load path (F.save path set) = some set := h.keeps path set hset
          simp only [hget]
          refine ⟨trivial, ?_, ?_, h.keeps, ?_, fun path' set' hset' => ?_⟩
          · rw [WriteBack.value_write_iff.2 (.inl hcached), hvalue]
            exact Function.update_eq_self_iff.2 hset.symm
          · rw [WriteBack.stored_write, hstored, h.durable, hkeeps]
          · exact keeps_update h.keepsDurable hkeeps
          · change (Function.update a.durable path (some set) path').isSome
            by_cases hpath : path' = path
            · rw [hpath, Function.update_self, Option.isSome_some]
            · rw [Function.update_of_ne hpath]
              exact h.onDisk path' set' hset'
  | addSet path set =>
      obtain ⟨hnew, hkeeps⟩ := hmeets
      have hload : F.load path (F.save path set) = some set := hkeeps
      have hcached : s.cached path = none := by
        cases hcached : s.cached path with
        | none => rfl
        | some other =>
            rw [← h.current, WriteBack.value_of_cached hcached] at hnew
            cases hnew
      refine ⟨rfl, ?_, ?_, keeps_update h.keeps hkeeps, keeps_update h.keepsDurable hkeeps,
        isSome_update h.onDisk⟩
      · simp only [Access.run, Access.apply]
        rw [WriteBack.value_write_iff.2 (.inr ⟨hcached, hkeeps⟩), h.current]
      · simp only [Access.run, Access.apply]
        rw [WriteBack.stored_write, hload, h.durable]
  | flush =>
      have hflush : (s.flush F).value F = a.current := by
        rw [WriteBack.value_flush_iff.2 fun path set hcached => ?_, h.current]
        refine h.keeps path set ?_
        rw [← h.current, WriteBack.value_of_cached hcached]
      exact ⟨rfl, hflush, hflush, h.keeps, h.keeps, fun path set hset => by
        simp only [Access.apply] at hset ⊢
        rw [hset, Option.isSome_some]⟩
  | crash =>
      exact ⟨rfl, h.durable, h.durable, h.keepsDurable, h.keepsDurable, fun path set hset => by
        simp only [Access.apply] at hset ⊢
        rw [hset, Option.isSome_some]⟩

/-- **Any accesses.** -/
theorem Refines.all {accesses : List (Access DescriptorSet Files Result)} (h : Refines F s a)
    (hmeets : MeetsAll F accesses a) : (runAll F accesses s).1 = (applyAll accesses a).1 ∧
      Refines F (runAll F accesses s).2 (applyAll accesses a).2 := by
  induction accesses generalizing s a with
  | nil => exact ⟨rfl, h⟩
  | cons access rest ih =>
      obtain ⟨hresult, hnext⟩ := h.access hmeets.1
      obtain ⟨hresults, hlast⟩ := ih hnext hmeets.2
      simp only [runAll, applyAll, hresult, hresults]
      exact ⟨trivial, hlast⟩

/-- The sets of a server that is started. -/
def Sets.start (F : Storage String DescriptorSet Files) (disk : String → Option Files) :
    Sets DescriptorSet :=
  let opened := fun path => (disk path).bind (F.load path)
  ⟨opened, opened⟩

/-- **The sets are kept.** In every run of accesses that meet the condition, from the start of
the server on: every method returns what it would return of the set itself, with all that has
been done to it before, through any flushes, and with what was last written after a crash. At
the end the sets in memory and on the disk are what they should be. -/
theorem sets_kept {disk : String → Option Files}
    {accesses : List (Access DescriptorSet Files Result)}
    (hdisk : ∀ path files set, disk path = some files → F.load path files = some set →
      F.Keeps path set) (hmeets : MeetsAll F accesses (.start F disk)) :
    (runAll F accesses ⟨disk, fun _ => none⟩).1 = (applyAll accesses (.start F disk)).1 ∧
      (runAll F accesses ⟨disk, fun _ => none⟩).2.value F =
        (applyAll accesses (.start F disk)).2.current ∧
      (runAll F accesses ⟨disk, fun _ => none⟩).2.stored F =
        (applyAll accesses (.start F disk)).2.durable := by
  have hkeeps : ∀ path set, (Sets.start F disk).current path = some set →
      F.Keeps path set := fun path set hset => by
    obtain ⟨files, hfiles, hload⟩ := Option.bind_eq_some_iff.1 hset
    exact hdisk path files set hfiles hload
  have hstart : Refines F ⟨disk, fun _ => none⟩ (Sets.start F disk) :=
    ⟨rfl, rfl, hkeeps, hkeeps, fun path set hset => by
      change ((Sets.start F disk).current path).isSome
      rw [hset, Option.isSome_some]⟩
  obtain ⟨hresults, hend⟩ := hstart.all hmeets
  exact ⟨hresults, hend.current, hend.durable⟩

/-! ### Sets with labels -/

/-- How the labels of a set are written and read. -/
def labelStorage (uninitialized : Int64) : Storage String LabelsMap (List Char) where
  save _ labels := DescriptorSetData.writeLabelsMap labels
  load _ text := some (DescriptorSetData.readLabelsMap uninitialized text)

/-- The files keep the labels exactly if these are words. -/
theorem labelStorage_keeps_iff {uninitialized : Int64} {path : String} {labels : LabelsMap} :
    (labelStorage uninitialized).Keeps path labels ↔ DescriptorSetData.Words labels := by
  rw [← DescriptorSetData.read_write_labels_iff uninitialized, Storage.Keeps]
  exact Option.some_inj

/-- **A flush keeps the labels** of all sets exactly if the labels of every set in memory are
words. -/
theorem flush_keeps_labels_iff {uninitialized : Int64} {s : Handlers LabelsMap (List Char)} :
    (s.flush (labelStorage uninitialized)).value (labelStorage uninitialized) =
        s.value (labelStorage uninitialized) ↔
      ∀ path labels, s.cached path = some labels → DescriptorSetData.Words labels := by
  rw [WriteBack.value_flush_iff]
  simp only [labelStorage_keeps_iff]

/-! ### Sets in arrays -/

/-- The labels of a set and the number of its descriptors. -/
structure CountedSet where
  labels : LabelsMap
  total : ℕ

/-- A set in a TileDB array: the labels have a file of their own, the number is in the array. -/
def countedStorage (uninitialized : Int64) : Storage String CountedSet (List Char × ℕ) where
  save _ set := (DescriptorSetData.writeLabelsMap set.labels, set.total)
  load _ files := some ⟨DescriptorSetData.readLabelsMap uninitialized files.1, files.2⟩

/-- The files keep a counted set exactly if its labels are words. -/
theorem countedStorage_keeps_iff {uninitialized : Int64} {path : String} {set : CountedSet} :
    (countedStorage uninitialized).Keeps path set ↔ DescriptorSetData.Words set.labels := by
  rw [← DescriptorSetData.read_write_labels_iff uninitialized, Storage.Keeps]
  obtain ⟨labels, total⟩ := set
  simp [countedStorage]

/-- A descriptor is added with a label: the array has it at once, and the file of the labels when
the set is stored. The ids of the descriptor and of the label are returned. -/
def addDescriptor (label : String) : Method CountedSet (List Char × ℕ) (ℕ × Int64) where
  run set :=
    let (labelId, labels) := DescriptorSetData.getLabelId set.labels label
    ((set.total, labelId), ⟨labels, set.total + 1⟩)
  write set files := (files.1, set.total + 1)
  written set stored := { stored with total := set.total + 1 }

/-- An addition with a label that is a word keeps what the files can hold. -/
theorem addDescriptor_sound {uninitialized : Int64} {path label : String} {set : CountedSet}
    (hwords : DescriptorSetData.Words (DescriptorSetData.getLabelId set.labels label).2) :
    (addDescriptor label).Sound (countedStorage uninitialized) path set where
  keeps := countedStorage_keeps_iff.2 hwords
  writes files stored hload := by
    obtain rfl := Option.some.inj hload
    rfl
  keepsWritten stored hkeeps := by
    have hlabels : DescriptorSetData.Words stored.labels := countedStorage_keeps_iff.1 hkeeps
    exact countedStorage_keeps_iff.2 hlabels

/-- A set is added and gets two descriptors, with a flush in between. It is lost, and gets a
third one. -/
def addedThrice : List (Access CountedSet (List Char × ℕ) (ℕ × Int64)) :=
  [.addSet "cars" ⟨∅, 0⟩, .call "cars" (addDescriptor "red"), .flush,
    .call "cars" (addDescriptor "blue"), .crash, .call "cars" (addDescriptor "green")]

/-- The second descriptor is still there, but its label has not been written, and the id of the
label is given again. -/
theorem sets_kept_thrice :
    (runAll (countedStorage 0) addedThrice ⟨fun _ => none, fun _ => none⟩).1 =
      [none, some (0, 0), none, some (1, 1), none, some (2, 1)] := by
  have hcall : ∀ {set : CountedSet} {label : String} {a : Sets CountedSet},
      a.current "cars" = some set →
      DescriptorSetData.Words (DescriptorSetData.getLabelId set.labels label).2 →
      Access.Meets (countedStorage 0) a (.call "cars" (addDescriptor label)) := by
    intro set label a hset hwords other hother
    obtain rfl : set = other := Option.some.inj (hset.symm.trans hother)
    exact addDescriptor_sound hwords
  refine (sets_kept (F := countedStorage 0) (fun _ _ _ h => by cases h) ?_).1.trans (by decide)
  exact ⟨⟨rfl, countedStorage_keeps_iff.2 (by decide)⟩, hcall rfl (by decide), trivial,
    hcall rfl (by decide), trivial, hcall rfl (by decide), trivial⟩

/-- The id of a label, in the set at the path "cars", which is kept in memory. -/
def askLabel (label : String) : Access LabelsMap (List Char) Int64 :=
  .call "cars" (.inMemory fun labels => DescriptorSetData.getLabelId labels label)

/-- **A set that is added again** while its old handler is in memory: it answers as the old one,
which had given the first id to another label. -/
theorem added_again_is_stale :
    let accesses := [.addSet "cars" ∅, askLabel "red", .addSet "cars" ∅, askLabel "blue"]
    (runAll (labelStorage 0) accesses ⟨fun _ => none, fun _ => none⟩).1 =
      [none, some 0, none, some 1] ∧
    (applyAll accesses (.start (labelStorage 0) fun _ => none)).1 =
      [none, some 0, none, some 0] := by
  decide

end DescriptorsManager

end Vdms
