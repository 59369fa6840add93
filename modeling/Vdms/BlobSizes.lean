import Vdms.BatchLabels
import Vdms.NearestDescriptors

/-!
# The Sizes of Blobs

Four commands hand the bytes of a blob to the index of a set as floats. `AddDescriptor` and
`FindDescriptor` compare whole numbers of floats or of descriptors, so that bytes may be left
over; a batch of `AddDescriptor` compares the number of bytes, as an `int`; and
`ClassifyDescriptor` compares nothing. A `FindDescriptor` with a link takes a blob if it has
`k_neighbors`, and does not look at it.

## Main results

* `BlobRequest.sizes_checked_iff`: which blobs are handed over only if their size is right.
-/

namespace Vdms

/-- A command that uses a blob: `AddDescriptor` with the size of its batch (0 is no batch),
`ClassifyDescriptor`, or `FindDescriptor` with a number of neighbors, and perhaps with a link
or a reference. -/
inductive BlobCommand where
  | addDescriptor (batchSize : ℕ)
  | classifyDescriptor
  | findDescriptor (hasLink hasRef : Bool)

/-- Such a command, with its set: the path and the dimensions that `get_set_path` has found. -/
structure BlobRequest where
  command : BlobCommand
  setName : String
  setPath : String
  dimensions : ℤ
  blob : Bytes

/-- What a command comes to: an error with its text, a call of the index of a set with
`blob.data()` and a number of descriptors, or a transaction without a look at the blob. -/
inductive BlobUse where
  | error (info : String)
  | called (setPath : String) (n : ℕ)
  | unused

namespace BlobRequest

open Imp Imp.Prog

/-- `AddDescriptor::add_single_descriptor` up to `insert_descriptor`. -/
def addSingleDescriptor (r : BlobRequest) : BlobUse :=
  if r.setPath = "" then .error ("Set " ++ r.setName ++ " not found")
  else if ((r.blob.length / 4 : ℕ) : ℤ) ≠ r.dimensions then .error "Blob Dimensions Mismatch"
  else .called r.setPath 1

/-- `AddDescriptor::add_descriptor_batch` up to `insert_descriptor`. -/
def addDescriptorBatch (r : BlobRequest) (nrExpectedDescs : ℕ) : BlobUse :=
  if r.setPath = "" then .error ("Set " ++ r.setName ++ " not found")
  else if (r.blob.length : ℤ) ≠ AddDescriptor.expectedBlobSize nrExpectedDescs r.dimensions then
    .error "FV Input Length Mismatch"
  else .called r.setPath nrExpectedDescs

/-- `ClassifyDescriptor`: `construct_protobuf` looks the set up, and `construct_responses`
calls `classify` for it. -/
def classifyDescriptor (r : BlobRequest) : BlobUse :=
  if r.setPath = "" then .error "DescriptorSet Not Found!"
  else .called r.setPath 1

/-- `FindDescriptor::construct_protobuf` with `k_neighbors`, up to `search`. -/
def findDescriptor (r : BlobRequest) (hasLink hasRef : Bool) : BlobUse :=
  if r.setPath = "" then .error "DescriptorSet Not Found!"
  else if hasLink then .unused
  else if hasRef then .error "_ref is not supported for KNN search"
  else if !DescriptorsCommand.checkBlobSize r.blob r.dimensions 1 then
    .error "Blob (required) is null or size invalid"
  else .called r.setPath 1

/-- The command. `AddDescriptor::construct_protobuf` takes a list without properties for no
batch. -/
def run (r : BlobRequest) : BlobUse :=
  match r.command with
  | .addDescriptor batchSize =>
    if batchSize = 0 then r.addSingleDescriptor else r.addDescriptorBatch batchSize
  | .classifyDescriptor => r.classifyDescriptor
  | .findDescriptor hasLink hasRef => r.findDescriptor hasLink hasRef

/-- The number of descriptors that the blob is used as. -/
def descriptors (r : BlobRequest) : ℕ :=
  match r.command with
  | .addDescriptor batchSize => if batchSize = 0 then 1 else batchSize
  | .classifyDescriptor => 1
  | .findDescriptor _ _ => 1

/-- The index is called only for a blob of the right size, with the number of descriptors
that are in it; for any other there is an error. -/
structure SizesChecked (r : BlobRequest) : Prop where
  called : ∀ path n, r.run = .called path n →
    n = r.descriptors ∧ (r.blob.length : ℤ) = 4 * r.dimensions * n
  rejected : (r.blob.length : ℤ) ≠ 4 * r.dimensions * r.descriptors →
    ∃ info, r.run = .error info

/-- The blobs that a command does right with: no float is cut off, the number of bytes of a
batch is an `int` or not what is left of it as one, the blob is right in the first place, or,
in a search, there is not a whole descriptor or more than one. -/
def Settled (r : BlobRequest) : Prop :=
  r.setPath = "" ∨
    match r.command with
    | .addDescriptor batchSize =>
      if batchSize = 0 then
        ((r.blob.length / 4 : ℕ) : ℤ) = r.dimensions → r.blob.length % 4 = 0
      else
        4 * r.dimensions * batchSize < 2 ^ 31 ∨
          (r.blob.length : ℤ) ≠ Int.bmod (4 * r.dimensions * batchSize) (2 ^ 32)
    | .classifyDescriptor => (r.blob.length : ℤ) = 4 * r.dimensions
    | .findDescriptor hasLink hasRef =>
      if hasLink then (r.blob.length : ℤ) = 4 * r.dimensions
      else hasRef = true ∨ (r.blob.length : ℤ) ≤ 4 * r.dimensions ∨
        8 * r.dimensions ≤ (r.blob.length : ℤ)

variable {r : BlobRequest}

/-- What is left to show: a call has the right size. -/
theorem sizesChecked_iff {n : ℕ} {P : Prop} (hn : r.descriptors = n)
    (hcalled : P → r.run = .called r.setPath n)
    (herror : ¬ P → ∃ info, r.run = .error info) :
    r.SizesChecked ↔ (P → (r.blob.length : ℤ) = 4 * r.dimensions * n) := by
  constructor
  · intro h haccepts
    exact (h.called _ _ (hcalled haccepts)).2
  · intro h
    by_cases haccepts : P
    · have hrun := hcalled haccepts
      refine ⟨fun path m hm => ?_, fun hne => ?_⟩
      · rw [hrun] at hm
        cases hm
        exact ⟨hn.symm, h haccepts⟩
      · rw [hn] at hne
        exact absurd (h haccepts) hne
    · obtain ⟨info, hrun⟩ := herror haccepts
      refine ⟨fun path m hm => ?_, fun _ => ⟨info, hrun⟩⟩
      rw [hrun] at hm
      cases hm

/-- A set that is not found is an error of every command. -/
theorem sizesChecked_of_missing (h : r.setPath = "") : r.SizesChecked := by
  have hrun : ∃ info, r.run = .error info := by
    rw [run]
    split
    · split
      · exact ⟨_, if_pos h⟩
      · exact ⟨_, if_pos h⟩
    · exact ⟨_, if_pos h⟩
    · exact ⟨_, if_pos h⟩
  obtain ⟨info, hrun⟩ := hrun
  refine ⟨fun path n hn => ?_, fun _ => ⟨info, hrun⟩⟩
  rw [hrun] at hn
  cases hn

/-- A single descriptor: whole floats are compared. -/
theorem sizesChecked_single (hfound : r.setPath ≠ "") (hcommand : r.command = .addDescriptor 0) :
    r.SizesChecked ↔
      (((r.blob.length / 4 : ℕ) : ℤ) = r.dimensions → r.blob.length % 4 = 0) := by
  have hrun : r.run = r.addSingleDescriptor := by rw [run, hcommand]; rfl
  rw [sizesChecked_iff (n := 1) (P := ((r.blob.length / 4 : ℕ) : ℤ) = r.dimensions)
    (by rw [descriptors, hcommand]; rfl)
    (fun h => by rw [hrun, addSingleDescriptor, if_neg hfound, if_neg (not_not.2 h)])
    (fun h => ⟨_, by rw [hrun, addSingleDescriptor, if_neg hfound, if_pos h]⟩)]
  refine forall_congr' fun h => ?_
  omega

/-- A batch: the bytes are compared with an `int`. -/
theorem sizesChecked_batch {batchSize : ℕ} (hd : 1 ≤ r.dimensions) (hfound : r.setPath ≠ "")
    (hcommand : r.command = .addDescriptor batchSize) (hbatch : batchSize ≠ 0) :
    r.SizesChecked ↔
      4 * r.dimensions * batchSize < 2 ^ 31 ∨
        (r.blob.length : ℤ) ≠ Int.bmod (4 * r.dimensions * batchSize) (2 ^ 32) := by
  have hrun : r.run = r.addDescriptorBatch batchSize := by rw [run, hcommand]; exact if_neg hbatch
  have hexpected : AddDescriptor.expectedBlobSize batchSize r.dimensions =
      Int.bmod (4 * r.dimensions * batchSize) (2 ^ 32) := by
    rw [AddDescriptor.expectedBlobSize, mul_comm (batchSize : ℤ),
      mul_comm (r.dimensions * batchSize), mul_assoc]
  rw [sizesChecked_iff (n := batchSize)
    (P := (r.blob.length : ℤ) = Int.bmod (4 * r.dimensions * batchSize) (2 ^ 32))
    (by rw [descriptors, hcommand]; exact if_neg hbatch)
    (fun h => by
      rw [hrun, addDescriptorBatch, if_neg hfound, hexpected, if_neg (not_not.2 h)])
    (fun h => ⟨_, by rw [hrun, addDescriptorBatch, if_neg hfound, hexpected, if_pos h]⟩)]
  have hpos : 0 ≤ 4 * r.dimensions * batchSize := by positivity
  constructor
  · intro h
    by_contra hne
    rw [not_or, not_lt, not_not] at hne
    have hexact := h hne.2
    have hlt : Int.bmod (4 * r.dimensions * batchSize) (2 ^ 32) < 2 ^ 31 :=
      Int.bmod_lt (by decide)
    omega
  · rintro (hlt | hne) h
    · rw [h]
      exact Int.bmod_eq_of_le (by omega) (by omega)
    · exact absurd h hne

/-- `ClassifyDescriptor` takes every blob. -/
theorem sizesChecked_classify (hfound : r.setPath ≠ "")
    (hcommand : r.command = .classifyDescriptor) :
    r.SizesChecked ↔ (r.blob.length : ℤ) = 4 * r.dimensions := by
  have hrun : r.run = r.classifyDescriptor := by rw [run, hcommand]
  rw [sizesChecked_iff (n := 1) (P := True) (by rw [descriptors, hcommand])
    (fun _ => by rw [hrun, classifyDescriptor, if_neg hfound])
    (fun h => absurd trivial h), true_imp_iff, Nat.cast_one, mul_one]

/-- `FindDescriptor` with a link takes every blob, and hands over none. -/
theorem sizesChecked_link {hasRef : Bool} (hfound : r.setPath ≠ "")
    (hcommand : r.command = .findDescriptor true hasRef) :
    r.SizesChecked ↔ (r.blob.length : ℤ) = 4 * r.dimensions := by
  have hrun : r.run = .unused := by rw [run, hcommand]; exact if_neg hfound
  have hone : 4 * r.dimensions * (r.descriptors : ℤ) = 4 * r.dimensions := by
    rw [descriptors, hcommand, Nat.cast_one, mul_one]
  constructor
  · intro h
    by_contra hne
    obtain ⟨info, herror⟩ := h.rejected (by rwa [hone])
    cases hrun.symm.trans herror
  · intro h
    refine ⟨fun path n hn => ?_, fun hne => absurd (h.trans hone.symm) hne⟩
    cases hrun.symm.trans hn

/-- `FindDescriptor`: whole descriptors are compared. -/
theorem sizesChecked_find {hasRef : Bool} (hd : 1 ≤ r.dimensions) (hfound : r.setPath ≠ "")
    (hcommand : r.command = .findDescriptor false hasRef) :
    r.SizesChecked ↔
      hasRef = true ∨ (r.blob.length : ℤ) ≤ 4 * r.dimensions ∨
        8 * r.dimensions ≤ (r.blob.length : ℤ) := by
  have hrun : r.run = r.findDescriptor false hasRef := by rw [run, hcommand]
  have hcheck : DescriptorsCommand.checkBlobSize r.blob r.dimensions 1 = true ↔
      4 * r.dimensions ≤ r.blob.length ∧ (r.blob.length : ℤ) < 8 * r.dimensions := by
    obtain ⟨d, hd'⟩ : ∃ d : ℕ, r.dimensions = d := ⟨r.dimensions.toNat, by omega⟩
    rw [DescriptorsCommand.checkBlobSize, decide_eq_true_eq, hd', Int.toNat_natCast,
      Nat.div_eq_iff (by omega)]
    omega
  rw [sizesChecked_iff (n := 1)
    (P := hasRef = false ∧ DescriptorsCommand.checkBlobSize r.blob r.dimensions 1 = true)
    (by rw [descriptors, hcommand])
    (fun h => by
      rw [hrun, findDescriptor, if_neg hfound, if_neg Bool.false_ne_true,
        if_neg (by simp [h.1]), if_neg (by simp [h.2])])
    (fun h => ?_), hcheck]
  · cases hasRef
    · simp only [true_and, Bool.false_eq_true, false_or]
      omega
    · simp
  · rw [hrun, findDescriptor, if_neg hfound, if_neg Bool.false_ne_true]
    by_cases href : hasRef = true
    · exact ⟨_, if_pos href⟩
    · refine ⟨_, (if_neg href).trans (if_pos ?_)⟩
      have hfalse : hasRef = false := by simpa using href
      simpa [hfalse] using h

/-- The blobs of each command whose size is checked as it should. -/
theorem sizes_checked_iff (hd : 1 ≤ r.dimensions) : r.SizesChecked ↔ r.Settled := by
  by_cases hmissing : r.setPath = ""
  · exact iff_of_true (sizesChecked_of_missing hmissing) (.inl hmissing)
  rw [Settled, or_iff_right hmissing]
  cases hcommand : r.command with
  | addDescriptor batchSize =>
    by_cases hbatch : batchSize = 0
    · subst hbatch
      exact sizesChecked_single hmissing hcommand
    · rw [sizesChecked_batch hd hmissing hcommand hbatch]
      simp only [hbatch, if_false]
  | classifyDescriptor => exact sizesChecked_classify hmissing hcommand
  | findDescriptor hasLink hasRef =>
    cases hasLink with
    | false => exact sizesChecked_find hd hmissing hcommand
    | true => exact sizesChecked_link hmissing hcommand

/-! ### The commands in full -/

section Commands

variable [Platform]

/-- A search by value that goes on to the graph has called the index. -/
theorem run_of_constructNearest {handler : String → Except String DescriptorIndex}
    {setName name setPath : String} {dimensions : ℤ} {q q' : PMGDQuery} {c results cmd : Json}
    {blob : Bytes} {nearest : FindDescriptor.Nearest} (hfound : setPath ≠ "")
    (h : FindDescriptor.constructNearest handler name setPath dimensions c results q cmd blob =
      .ok (q', nearest)) :
    run ⟨.findDescriptor false false, setName, setPath, dimensions, blob⟩ =
      .called setPath 1 := by
  obtain ⟨_, _, -, hsize, -⟩ := constructNearest_inv h
  refine (if_neg hfound).trans ((if_neg Bool.false_ne_true).trans
    ((if_neg Bool.false_ne_true).trans (if_neg ?_)))
  simp [hsize]

/-- A command with `k_neighbors` that goes on to the graph has called the index, or has a link
and has not looked at the blob. -/
theorem run_of_constructProtobuf {handler : String → Except String DescriptorIndex}
    {setName setPath : String} {dimensions : ℤ} {q q' : PMGDQuery} {cmd : Json}
    {blob : Bytes} {nearest : Option FindDescriptor.Nearest} {hasLink : Bool}
    (hlink : cmd.hasMember "link" = .ok hasLink) (hk : cmd.hasMember "k_neighbors" = .ok true)
    (h : FindDescriptor.constructProtobuf handler setPath dimensions q cmd blob =
      .ok (q', nearest)) :
    run ⟨.findDescriptor hasLink false, setName, setPath, dimensions, blob⟩ =
      if hasLink then .unused else .called setPath 1 := by
  rw [FindDescriptor.constructProtobuf] at h
  obtain ⟨jsonName, -, h⟩ := bind_ok_inv h
  obtain ⟨name, -, h⟩ := bind_ok_inv h
  by_cases hfound : setPath = ""
  · rw [if_pos hfound] at h
    cases h
  rw [if_neg hfound] at h
  obtain ⟨constraints, -, h⟩ := bind_ok_inv h
  obtain ⟨results, -, h⟩ := bind_ok_inv h
  obtain ⟨link, hhas, h⟩ := bind_ok_inv h
  obtain rfl : link = hasLink := Except.ok.inj ((ofJson_eq hhas).symm.trans hlink)
  cases link with
  | true => exact if_neg hfound
  | false =>
      obtain ⟨near, hhas, h⟩ := bind_ok_inv h
      obtain rfl : near = true := Except.ok.inj ((ofJson_eq hhas).symm.trans hk)
      obtain ⟨⟨q'', found⟩, hnearest, -⟩ := bind_ok_inv h
      exact run_of_constructNearest hfound hnearest

/-- A batch that has been added has been handed over. -/
theorem run_of_addDescriptorBatch {σ V : Type} {C : VCL.SetClass σ V}
    {behind : ℕ → Int64} {b : AddDescriptor.BatchCall V} {s t : σ} {id : ℕ}
    {query : Except QueryError PMGDQuery} {setName : String}
    (h : Runs (AddDescriptor.addDescriptorBatch C behind b) s (.ret (.added id query) t)) :
    ∃ n, addDescriptorBatch ⟨.addDescriptor n, setName, b.set_path, b.dimensions, b.blob⟩ n =
      .called b.set_path n := by
  obtain ⟨name, u, -, h⟩ := Runs.bind_inv h
  obtain ⟨prop_list, v, -, h⟩ := Runs.bind_inv h
  by_cases hfound : b.set_path = ""
  · rw [if_pos hfound] at h
    obtain ⟨heq, -⟩ := Runs.pure_inv h
    cases heq
  rw [if_neg hfound] at h
  obtain ⟨label, w, -, h⟩ := Runs.bind_inv h
  refine ⟨prop_list.size, ?_⟩
  by_cases hsize : (b.blob.length : ℤ) ≠
      AddDescriptor.expectedBlobSize prop_list.size b.dimensions
  · simp only [if_pos hsize] at h
    obtain ⟨heq, -⟩ := Runs.pure_inv h
    cases heq
  · rw [addDescriptorBatch, if_neg hfound, if_neg hsize]

end Commands

/-- A set of two dimensions. -/
def ofTwo (command : BlobCommand) (blob : Bytes) : BlobRequest where
  command := command
  setName := "set"
  setPath := "path"
  dimensions := 2
  blob := blob

/-- A search for eight bytes, a batch of two descriptors, a search for nine bytes, and one with
a link and three bytes. -/
theorem sizes_checked_two :
    (ofTwo (.findDescriptor false false) [0, 0, 0, 0, 0, 0, 0, 0]).SizesChecked ∧
      (ofTwo (.addDescriptor 2) (List.replicate 16 0)).SizesChecked ∧
      ¬ (ofTwo (.findDescriptor false false) [0, 0, 0, 0, 0, 0, 0, 0, 0]).SizesChecked ∧
      ¬ (ofTwo (.findDescriptor true false) [0, 0, 0]).SizesChecked :=
  ⟨(sizes_checked_iff (by decide)).mpr (.inr (.inr (.inl (by decide)))),
    (sizes_checked_iff (by decide)).mpr (.inr (.inl (by decide))),
    fun h => absurd ((sizes_checked_iff (by decide)).mp h) (by simp [Settled, ofTwo]),
    fun h => absurd ((sizes_checked_iff (by decide)).mp h) (by simp [Settled, ofTwo])⟩

/-- A blob of nine bytes is added and searched for; an empty one is classified: eight bytes
are read behind its end; and one of three bytes is not looked at. -/
theorem nine_bytes :
    (ofTwo (.addDescriptor 0) [0, 0, 0, 0, 0, 0, 0, 0, 0]).run = .called "path" 1 ∧
      (ofTwo (.findDescriptor false false) [0, 0, 0, 0, 0, 0, 0, 0, 0]).run =
        .called "path" 1 ∧
      (ofTwo .classifyDescriptor []).run = .called "path" 1 ∧
      (ofTwo (.findDescriptor true false) [0, 0, 0]).run = .unused ∧
      ¬ (ofTwo (.addDescriptor 0) [0, 0, 0, 0, 0, 0, 0, 0, 0]).SizesChecked ∧
      ¬ (ofTwo (.findDescriptor false false) [0, 0, 0, 0, 0, 0, 0, 0, 0]).SizesChecked ∧
      ¬ (ofTwo .classifyDescriptor []).SizesChecked := by
  refine ⟨rfl, rfl, rfl, rfl, fun h => ?_, fun h => ?_, fun h => ?_⟩
  · exact absurd (h.called _ _ rfl).2 (by decide)
  · exact absurd (h.called _ _ rfl).2 (by decide)
  · exact absurd (h.called _ _ rfl).2 (by decide)

end BlobRequest

end Vdms
