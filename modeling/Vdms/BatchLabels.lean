import Vdms.DescriptorIds
import Vdms.FindDescriptor
import Vdms.TableScan

/-!
# Labels of a Batch

`add_descriptor_batch` adds the descriptors of a blob to the index of a set, with one label for
all of them, and a node for each. `insert_descriptor` looks the id of the label up, keeps it in
a variable and gives the address of the variable to the `add` of the set, which reads as many
labels from there as there are descriptors. Behind the variable is whatever the stack holds.

## Main definitions

* `SetClass`: what the command needs of the class of a set, with what `add` records.
* `insertDescriptor`, `addDescriptorBatch`: the functions of `AddDescriptor`.

## Main results

* `addDescriptorBatch_added`: what a batch hands over to the set.
* `SetClass.batchLabelled_iff`: the batches whose descriptors get their label, for any class.
* `batch_labels_iff`: the same for the classes of the sets.
-/

namespace Vdms

open Imp Imp.Prog DescriptorSetData

namespace VCL

/-- A class of sets: how it keeps its labels, its `add`, and what it is that a descriptor is
recorded under an id, with a label. `Spares` says of a set whether its metadata stays clear of
one more descriptor. -/
structure SetClass (σ V : Type) where
  labelsMap : σ → LabelsMap
  setLabelsMap : LabelsMap → σ → σ
  add : List V → Option (List Int64) → Prog σ SetError ℕ
  Recorded : σ → ℕ → V → Int64 → Prop
  Spares : σ → V → Int64 → Prop
  recorded_iff : ∀ s x label,
    (∀ id t, Runs (add [x] (some [label])) s (.ret id t) → Recorded t id x label) ↔
      Spares s x label

end VCL

/-! ### The commands -/

namespace AddDescriptor

open VCL

variable {σ V : Type}

/-- The labels that are read from an address on: first those of the storage, then what is
behind it. -/
def readLabels (storage : List Int64) (behind : ℕ → Int64) (n : ℕ) : List Int64 :=
  (List.range n).map fun i => storage[i]?.getD (behind i)

/-- What `label_ptr` points to: the variable `label_id`. -/
def labelStorage (label_id : Int64) : List Int64 := [label_id]

/-- `AddDescriptor::insert_descriptor`: the first id, or the text of an error. It catches
`VCL::Exception` only. -/
def insertDescriptor (C : SetClass σ V) (behind : ℕ → Int64) (descriptors : List V)
    (label : String) : Prog σ SetError (Except String ℕ) :=
  tryCatch
    (if label ≠ "" then do
      let s ← get
      let (label_id, labels_map) := getLabelId (C.labelsMap s) label
      modify (C.setLabelsMap labels_map)
      let label_ptr := labelStorage label_id
      let id_first ← C.add descriptors (some (readLabels label_ptr behind descriptors.length))
      pure (.ok id_first)
    else do
      let id_first ← C.add descriptors none
      pure (.ok id_first))
    fun e =>
      match e with
      | .outOfRange => throw .outOfRange
      | .library => throw .library
      | _ => pure (.error "VCL Descriptors Exception")

/-- The descriptors of a blob, each read from its own four bytes for a dimension. -/
def descriptorsOf (read : Bytes → V) (dimensions : ℤ) (n : ℕ) (blob : Bytes) : List V :=
  let size := dimensions.toNat * 4
  (List.range n).map fun i => read ((blob.drop (i * size)).take size)

/-- `expected_blb_size`, an `int`. -/
def expectedBlobSize (n : ℕ) (dimensions : ℤ) : ℤ := Int.bmod (n * dimensions * 4) (2 ^ 32)

section Commands

variable [Platform]

/-- The node of a descriptor, with its links. -/
def addDescriptorNode (cmd prop_list : Json) (set_name label : String) (id set_ref : ℕ)
    (query : PMGDQuery) (i : ℕ) : Except QueryError PMGDQuery := do
  let (node_ref, query) := query.getAvailableReference
  let cur_props ← prop_list.index i
  let cur_props ← cur_props.setMember (FindDescriptor.descIdProp set_name) (.int (id + i))
  let cur_props ← cur_props.setMember "VD:label" (.string label)
  let query ← query.addNode node_ref "VD:DESC" cur_props .null
  let query ← RSCommand.addLinkOf query cmd node_ref "VD:DESCLINK"
  query.addEdge (-1) set_ref node_ref "VD:DESCSETLINK" .null

/-- The commands for the graph: the set is looked up once. -/
def batchCommands (query : PMGDQuery) (cmd prop_list : Json) (set_name label : String)
    (id n : ℕ) : Except QueryError PMGDQuery := do
  let (set_ref, query) := query.getAvailableReference
  let query ← query.queryNode set_ref "VD:DESCSET" .null
    (DescriptorsCommand.nameConstraint set_name)
    (.object [("list", .array [.string "VD:descSetPath", .string "VD:dimensions"])]) true false
  (List.range n).foldlM (addDescriptorNode cmd prop_list set_name label id set_ref) query

end Commands

/-- What a batch comes to: it is refused, with an object for the error, or its descriptors are
in the index. The commands for the graph may throw then. -/
inductive BatchAnswer where
  | refused (error : Json)
  | added (id : ℕ) (query : Except QueryError PMGDQuery)

/-- A call of `add_descriptor_batch`, with the path and the dimensions that `get_set_path`
has found, and the way to read a descriptor from its bytes. -/
structure BatchCall (V : Type) where
  set_path : String
  dimensions : ℤ
  query : PMGDQuery
  cmd : Json
  blob : Bytes
  read : Bytes → V

/-- A conversion of JSON. -/
def ofJson {α : Type} (x : Except QueryError α) : Prog σ (SetError ⊕ QueryError) α :=
  match x with
  | .ok a => pure a
  | .error e => throw (.inr e)

/-- `AddDescriptor::add_descriptor_batch`, without the storage of AWS. -/
def addDescriptorBatch [Platform] (C : SetClass σ V) (behind : ℕ → Int64) (b : BatchCall V) :
    Prog σ (SetError ⊕ QueryError) BatchAnswer := do
  let set_name ← ofJson (do (← b.cmd.get "set").asString)
  let prop_list ← ofJson (getValue pure b.cmd "batch_properties" .null)
  if b.set_path = "" then
    pure (.refused (.object
      [("info", .string ("Set " ++ set_name ++ " not found")), ("status", .int (-1))]))
  else do
    let label ← ofJson (getValue Json.asString b.cmd "label" "None")
    let nr_expected_descs := prop_list.size
    if (b.blob.length : ℤ) ≠ expectedBlobSize nr_expected_descs b.dimensions then
      pure (.refused (.object [("info", .string "FV Input Length Mismatch")]))
    else do
      let descriptors := descriptorsOf b.read b.dimensions nr_expected_descs b.blob
      match ← focus id (fun t _ => t) Sum.inl (insertDescriptor C behind descriptors label) with
      | .error _ =>
        pure (.refused (.object
          [("info", .string "FV Index Insert Failed"), ("status", .int (-1))]))
      | .ok id =>
        pure (.added id
          (batchCommands b.query b.cmd prop_list set_name label id nr_expected_descs))

/-- The descriptors of a batch of `n`. -/
def BatchCall.descriptors (b : BatchCall V) (n : ℕ) : List V :=
  descriptorsOf b.read b.dimensions n b.blob

/-- A batch of `n` descriptors of a set that exists, all with one label. -/
structure BatchCall.IsBatch [Platform] (b : BatchCall V) (n : ℕ) (label : String) : Prop where
  named : ∃ name, (do (← b.cmd.get "set").asString) = .ok name
  properties : ∃ prop_list, getValue pure b.cmd "batch_properties" .null = .ok prop_list ∧
    prop_list.size = n
  pos : 1 ≤ n
  found : b.set_path ≠ ""
  label_eq : getValue Json.asString b.cmd "label" "None" = .ok label
  blob_length : (b.blob.length : ℤ) = expectedBlobSize n b.dimensions

/-! ### What a batch hands over -/

variable {C : SetClass σ V} {behind : ℕ → Int64} {descriptors : List V} {label : String}
  {s t : σ} {id : ℕ}

@[simp] theorem length_descriptorsOf (read : Bytes → V) (dimensions : ℤ) (n : ℕ) (blob : Bytes) :
    (descriptorsOf read dimensions n blob).length = n := by
  simp [descriptorsOf]

/-- One label is read from the variable. -/
theorem readLabels_one (label_id : Int64) :
    readLabels (labelStorage label_id) behind 1 = [label_id] := rfl

/-- The handler of `insert_descriptor` gives no id. -/
theorem insertDescriptor_ok (hlabel : label ≠ "") :
    Runs (insertDescriptor C behind descriptors label) s (.ret (.ok id) t) ↔
      Runs (C.add descriptors (some (readLabels
          (labelStorage (getLabelId (C.labelsMap s) label).1) behind descriptors.length)))
        (C.setLabelsMap (getLabelId (C.labelsMap s) label).2 s) (.ret id t) := by
  rw [insertDescriptor, if_pos hlabel]
  constructor
  · intro h
    rcases h.tryCatch_inv with h | ⟨e, u, -, h⟩
    · obtain ⟨_, v, hadd, h⟩ := Runs.bind_inv (Runs.modify_bind_inv (Runs.get_bind_inv h))
      obtain ⟨heq, rfl⟩ := Runs.pure_inv h
      cases heq
      exact hadd
    · obtain ⟨N, hN⟩ := h
      cases e <;> cases hN N le_rfl
  · intro h
    have hadd := Runs.bind h (f := fun id => pure (Except.ok (ε := String) id))
      (Runs.of_eq fun _ => rfl)
    exact Runs.tryCatch (by exact hadd)

/-- A batch has been added when the set has added its descriptors. -/
theorem addDescriptorBatch_added [Platform] {b : BatchCall V} {n : ℕ} (hb : b.IsBatch n label) :
    (∃ query, Runs (addDescriptorBatch C behind b) s (.ret (.added id query) t)) ↔
      Runs (insertDescriptor C behind (b.descriptors n) label) s (.ret (.ok id) t) := by
  obtain ⟨name, hname⟩ := hb.named
  obtain ⟨prop_list, hprops, rfl⟩ := hb.properties
  have hrun : addDescriptorBatch C behind b =
      focus (fun s => s) (fun t _ => t) Sum.inl
        (insertDescriptor C behind (b.descriptors prop_list.size) label) >>= fun r =>
        match r with
        | .error _ =>
          pure (.refused (.object
            [("info", .string "FV Index Insert Failed"), ("status", .int (-1))]))
        | .ok id =>
          pure (.added id
            (batchCommands b.query b.cmd prop_list name label id prop_list.size)) := by
    rw [addDescriptorBatch, hname, hprops, hb.label_eq]
    refine (if_neg hb.found).trans ?_
    exact if_neg (not_not.mpr hb.blob_length)
  rw [hrun]
  constructor
  · rintro ⟨query, h⟩
    obtain ⟨r, u, hinsert, h⟩ := Runs.bind_inv h
    cases r with
    | error e =>
        obtain ⟨heq, -⟩ := Runs.pure_inv h
        cases heq
    | ok id' =>
        obtain ⟨heq, rfl⟩ := Runs.pure_inv h
        cases heq
        obtain ⟨v, hinsert, rfl⟩ := hinsert.focus_inv
        exact hinsert
  · intro h
    exact ⟨_, Runs.bind (Runs.focus h) (Runs.of_eq fun _ => rfl)⟩

end AddDescriptor

/-! ### Which batches get their label -/

namespace VCL

open AddDescriptor

variable {σ V : Type} {C : SetClass σ V} {b : BatchCall V} {n : ℕ} {label : String} {s : σ}

/-- The `add` of the set reads labels of the variable only, and each of the `n` descriptors that
it has added is recorded under its id with the id of the label, whatever is behind the
variable. -/
structure SetClass.BatchLabelled [Platform] (C : SetClass σ V) (b : BatchCall V) (n : ℕ)
    (label : String) (s : σ) : Prop where
  inside : label ≠ "" → n ≤ (labelStorage (getLabelId (C.labelsMap s) label).1).length
  recorded : label ≠ "" → ∀ behind id query t,
    Runs (addDescriptorBatch C behind b) s (.ret (.added id query) t) →
      ∀ i x, (b.descriptors n)[i]? = some x →
        C.Recorded t (id + i) x (getLabelId (C.labelsMap s) label).1

/-- A batch with a label gets it if it is a batch of one, and the metadata stays clear of it. -/
theorem SetClass.batchLabelled_iff [Platform] (hb : b.IsBatch n label) :
    C.BatchLabelled b n label s ↔ label = "" ∨ ∃ x, b.descriptors n = [x] ∧
      C.Spares (C.setLabelsMap (getLabelId (C.labelsMap s) label).2 s) x
        (getLabelId (C.labelsMap s) label).1 := by
  have hlength : (b.descriptors n).length = n := length_descriptorsOf ..
  constructor
  · intro h
    by_cases hlabel : label = ""
    · exact .inl hlabel
    · have hone : n = 1 := Nat.le_antisymm (h.inside hlabel) hb.pos
      obtain ⟨x, hx⟩ := List.length_eq_one_iff.mp (hlength.trans hone)
      refine .inr ⟨x, hx, (C.recorded_iff _ _ _).mp fun id t hadd => ?_⟩
      have hinsert : Runs (insertDescriptor C (fun _ => 0) (b.descriptors n) label) s
          (.ret (.ok id) t) := by
        rw [insertDescriptor_ok hlabel, hlength, hone, readLabels_one, ← hone, hx]
        exact hadd
      obtain ⟨query, hrun⟩ := (addDescriptorBatch_added hb).mpr hinsert
      exact h.recorded hlabel _ id query t hrun 0 x (by rw [hx]; rfl)
  · rintro (rfl | ⟨x, hx, hspares⟩)
    · exact ⟨fun h => absurd rfl h, fun h => absurd rfl h⟩
    · have hone : n = 1 := by rw [← hlength, hx]; rfl
      refine ⟨fun _ => hone.le, fun hlabel behind id query t hrun i y hy => ?_⟩
      have hinsert := (addDescriptorBatch_added hb).mp ⟨query, hrun⟩
      rw [insertDescriptor_ok hlabel, hlength, hone, readLabels_one, ← hone, hx] at hinsert
      have hrecorded := (C.recorded_iff _ _ _).mpr hspares id t hinsert
      cases i with
      | zero =>
          rw [hx] at hy
          cases hy
          exact hrecorded
      | succ i =>
          rw [hx] at hy
          cases hy

/-! ### The classes -/

theorem getElem?_copyBehind {α : Type} (zero : α) (xs : List α) (offset : ℕ) (y : α) :
    (copyBehind zero xs offset [y])[offset]? = some y := by
  have hlength : (xs.take offset ++ List.replicate (offset - xs.length) zero).length = offset := by
    simp
    omega
  rw [copyBehind, List.getElem?_append_right hlength.le, hlength, Nat.sub_self]
  rfl

section Memory

variable [VectorLibrary]

open VectorLibrary

variable {e : MemoryEngine} {descriptors : List Vec} {labels : Option (List Int64)}
  {s t : MemorySet} {id : ℕ}

theorem Faiss.add_label_ids {n : ℕ} (h : Faiss.add descriptors labels n s = .ret id t) :
    t.label_ids = labelsAfter s.label_ids id labels := by
  rw [Faiss.add_apply (lock_of_ret h)] at h
  rcases hadd : VectorLibrary.add descriptors s.index with ⟨_ | _, i⟩
  · rw [hadd] at h
    cases h
  · rw [hadd] at h
    cases h
    rfl

/-- Where the labels of an addition are. -/
theorem MemoryEngine.add_label_ids {n : ℕ} (h : e.add descriptors labels n s = .ret id t) :
    t.label_ids = labelsAfter s.label_ids id labels := by
  cases e with
  | FaissFlat | FaissHNSWFlat => exact Faiss.add_label_ids h
  | FaissIVFFlat =>
      rw [MemoryEngine.add, FaissIVFFlat.add_apply (lock_of_ret h)] at h
      rcases hp : prepare s.dimensions descriptors s.index with ⟨_ | _, i⟩
      · rw [hp] at h
        cases h
      · rw [hp] at h
        exact Faiss.add_label_ids (s := { s with index := i }) h
  | Flinng =>
      rw [MemoryEngine.add, Flinng.add_apply (lock_of_ret h)] at h
      rcases hadd : VectorLibrary.add descriptors s.index with ⟨_ | _, i⟩
      · rw [hadd] at h
        cases h
      · rw [hadd] at h
        cases h
        rfl

/-- The sets in memory: the label of a descriptor is at its id, and there is no metadata. -/
def memoryClass (e : MemoryEngine) : SetClass MemorySet Vec where
  labelsMap := MemorySet.labels_map
  setLabelsMap m s := { s with labels_map := m }
  add := e.add
  Recorded s id _ label := s.label_ids[id]? = some label
  Spares _ _ _ := True
  recorded_iff s x label := by
    refine iff_true_intro fun id t hadd => ?_
    obtain ⟨N, hN⟩ := hadd
    rw [MemoryEngine.add_label_ids (hN N le_rfl), labelsAfter, getElem?_copyBehind]

end Memory

/-- The metadata of a dense array, in its last two cells, stays clear of one more descriptor: it
is elsewhere, the array is full, or the cell is the same. -/
def Dense.Spares (s : DenseSet) (x : Descriptor) (label : Int64) : Prop :=
  s.n_total < METADATA_OFFSET ∨ MAX_DESC ≤ s.n_total ∨
    x = List.replicate s.dimensions 0 ∧
      label = Int64.ofNat (if s.n_total = METADATA_OFFSET then s.dimensions else s.n_total + 1)

/-- The cell of a descriptor that has been added. -/
theorem Dense.cell_added_iff {s : DenseSet} {x : Descriptor} {label : Int64}
    (hroom : s.n_total < MAX_DESC) :
    (Dense.added s [x] (some [label])).cells s.n_total = ⟨x, label⟩ ↔ Dense.Spares s x label := by
  have hcells : (Dense.added s [x] (some [label])).cells =
      writeCells (writeCells s.cells s.n_total [⟨x, label⟩]) METADATA_OFFSET
        [⟨List.replicate s.dimensions 0, Int64.ofNat s.dimensions⟩,
          ⟨List.replicate s.dimensions 0, Int64.ofNat (s.n_total + 1)⟩] := rfl
  have hmax : MAX_DESC = METADATA_OFFSET + 2 := rfl
  rw [hcells]
  by_cases hlow : s.n_total < METADATA_OFFSET
  · rw [writeCells_of_outside (.inl hlow)]
    exact iff_of_true (writeCells_add (j := 0) rfl) (.inl hlow)
  · have hspares : Dense.Spares s x label ↔ x = List.replicate s.dimensions 0 ∧
        label = Int64.ofNat
          (if s.n_total = METADATA_OFFSET then s.dimensions else s.n_total + 1) := by
      rw [Dense.Spares, or_iff_right hlow, or_iff_right (by omega)]
    rw [hspares]
    by_cases hfirst : s.n_total = METADATA_OFFSET
    · have hat : s.n_total = METADATA_OFFSET + 0 := hfirst
      rw [if_pos hfirst]
      nth_rewrite 3 [hat]
      rw [writeCells_add rfl, DenseCell.mk.injEq]
      exact and_congr eq_comm eq_comm
    · have hat : s.n_total = METADATA_OFFSET + 1 := by omega
      rw [if_neg hfirst]
      nth_rewrite 3 [hat]
      rw [writeCells_add rfl, DenseCell.mk.injEq]
      exact and_congr eq_comm eq_comm

/-- The sets with a dense array: a descriptor is in the cell of its id, with its label. -/
def denseClass (what : String) : SetClass DenseSet Descriptor where
  labelsMap := DenseSet.labels_map
  setLabelsMap m s := { s with labels_map := m }
  add := Dense.add what
  Recorded s id x label := s.cells id = ⟨x, label⟩
  Spares := Dense.Spares
  recorded_iff s x label := by
    by_cases hroom : s.n_total < Dense.MAX_DESC
    · rw [← Dense.cell_added_iff hroom]
      constructor
      · intro h
        refine h _ _ (Runs.of_eq fun n => ?_)
        rw [Dense.add_apply, if_neg]
        simp only [List.cons_ne_nil, false_or, List.length_singleton]
        omega
      · rintro h id t ⟨N, hN⟩
        obtain ⟨rfl, rfl, -⟩ := Dense.add_ret (hN N le_rfl)
        exact h
    · refine iff_of_true ?_ (.inr (.inl (by omega)))
      rintro id t ⟨N, hN⟩
      obtain ⟨-, -, hle⟩ := Dense.add_ret (hN N le_rfl)
      simp only [List.length_singleton] at hle
      omega

/-- The metadata of a sparse array, at a point of its own, stays clear of one more descriptor:
the array refuses the descriptor, it is elsewhere, or the cell is the same. -/
def Sparse.Spares (s : SparseSet) (x : Descriptor) (label : Int64) : Prop :=
  inDomain s.ndim x = false ∨ x ≠ metadataCoords s.dimensions ∨
    Int64.ofNat s.n_total = Int64.ofNat s.dimensions ∧ label = Int64.ofNat s.n_total

/-- The cell of a descriptor that has been added. -/
theorem Sparse.cell_added_iff {s : SparseSet} {x : Descriptor} {label : Int64}
    (hdomain : inDomain s.ndim x = true) :
    ⟨x, Int64.ofNat s.n_total, label⟩ ∈ (Sparse.added s [x] (some [label])).cells ↔
      Sparse.Spares s x label := by
  have hcells : (Sparse.added s [x] (some [label])).cells =
      writePoints (writePoints s.cells [⟨x, Int64.ofNat s.n_total, label⟩])
        [⟨metadataCoords s.dimensions, Int64.ofNat s.dimensions, Int64.ofNat s.n_total⟩] := rfl
  have hspares : Sparse.Spares s x label ↔ x ≠ metadataCoords s.dimensions ∨
      Int64.ofNat s.n_total = Int64.ofNat s.dimensions ∧ label = Int64.ofNat s.n_total := by
    rw [Sparse.Spares, hdomain]
    simp
  rw [hcells, hspares, writePoints, List.mem_append, List.mem_filter, List.mem_singleton,
    SparseCell.mk.injEq]
  have hin : (⟨x, Int64.ofNat s.n_total, label⟩ : SparseCell) ∈
      writePoints s.cells [⟨x, Int64.ofNat s.n_total, label⟩] :=
    List.mem_append_right _ List.mem_cons_self
  by_cases hx : x = metadataCoords s.dimensions
  · simp [hx]
  · simp [hx, hin]

/-- The sets with a sparse array: a descriptor is a point, with its id and its label. -/
def sparseClass : SetClass SparseSet Descriptor where
  labelsMap := SparseSet.labels_map
  setLabelsMap m s := { s with labels_map := m }
  add := Sparse.add
  Recorded s id x label := ⟨x, Int64.ofNat id, label⟩ ∈ s.cells
  Spares := Sparse.Spares
  recorded_iff s x label := by
    by_cases hdomain : Sparse.inDomain s.ndim x = true
    · rw [← Sparse.cell_added_iff hdomain]
      constructor
      · intro h
        refine h _ _ (Runs.of_eq fun n => ?_)
        rw [Sparse.add_apply, if_pos]
        simpa using hdomain
      · rintro h id t ⟨N, hN⟩
        obtain ⟨rfl, rfl, -⟩ := Sparse.add_ret (hN N le_rfl)
        exact h
    · refine iff_of_true ?_ (.inl (by simpa using hdomain))
      rintro id t ⟨N, hN⟩
      have hret := hN N le_rfl
      rw [Sparse.add_apply, if_neg (by simpa using hdomain)] at hret
      cases hret

/-- **Labels of a batch.** A batch that has a label gets it if it is of one descriptor, whatever
the class of the set, and if the metadata of an array stays clear of that. A longer batch has
labels read from behind the variable that holds its own. -/
theorem batch_labels_iff [Platform] [VectorLibrary] {n : ℕ} {label : String} :
    (∀ (e : MemoryEngine) (b : BatchCall VectorLibrary.Vec) (s : MemorySet), b.IsBatch n label →
      ((memoryClass e).BatchLabelled b n label s ↔ label = "" ∨ n = 1)) ∧
    (∀ what (b : BatchCall Descriptor) (s : DenseSet), b.IsBatch n label →
      ((denseClass what).BatchLabelled b n label s ↔ label = "" ∨
        ∃ x, b.descriptors n = [x] ∧ Dense.Spares s x (getLabelId s.labels_map label).1)) ∧
    (∀ (b : BatchCall Descriptor) (s : SparseSet), b.IsBatch n label →
      (sparseClass.BatchLabelled b n label s ↔ label = "" ∨
        ∃ x, b.descriptors n = [x] ∧ Sparse.Spares s x (getLabelId s.labels_map label).1)) := by
  refine ⟨fun e b s hb => ?_, fun what b s hb => SetClass.batchLabelled_iff hb,
    fun b s hb => SetClass.batchLabelled_iff hb⟩
  have hone : (∃ x, b.descriptors n = [x] ∧ True) ↔ n = 1 := by
    simp only [and_true]
    rw [← List.length_eq_one_iff, BatchCall.descriptors, length_descriptorsOf]
  exact (SetClass.batchLabelled_iff hb).trans (or_congr_right hone)

/-- A batch of a set of dimension one, with a label. -/
def labelledBatch {V : Type} (read : Bytes → V) (n : ℕ) : BatchCall V where
  set_path := "sets/set"
  dimensions := 1
  query := .new 0 0
  cmd := .object [("batch_properties", .array (List.replicate n (.object []))),
    ("label", .string "a"), ("set", .string "set")]
  blob := List.replicate (n * 4) 0
  read := read

/-- One descriptor gets the label in each of the classes. -/
theorem batch_labels_one :
    let _ := flatIndex
    (memoryClass .FaissFlat).BatchLabelled (labelledBatch (fun _ => (5 : ℤ)) 1) 1 "a" flatSet ∧
    (denseClass "").BatchLabelled (labelledBatch (fun _ => [5]) 1) 1 "a"
      (Dense.create 1 ⟨[], 0⟩) ∧
    sparseClass.BatchLabelled (labelledBatch (fun _ => [5]) 1) 1 "a" (Sparse.create 1) := by
  intro _
  have hbatch {V : Type} (read : Bytes → V) : (labelledBatch read 1).IsBatch 1 "a" :=
    ⟨⟨"set", rfl⟩, ⟨_, rfl, rfl⟩, le_rfl, by simp [labelledBatch], rfl,
      by simp [labelledBatch]; rfl⟩
  refine ⟨(batch_labels_iff.1 .FaissFlat _ _ (hbatch _)).mpr (.inr rfl),
    (batch_labels_iff.2.1 "" _ _ (hbatch _)).mpr (.inr ⟨[5], rfl, .inl (by decide)⟩),
    (batch_labels_iff.2.2 _ _ (hbatch _)).mpr (.inr ⟨[5], rfl, .inr (.inl (by decide +kernel))⟩)⟩

/-- **The second label of two.** It is read from behind the variable: the descriptor is recorded
with the label 77 that happens to be there. -/
theorem second_label_behind :
    let _ := flatIndex
    let b := labelledBatch (fun _ => (5 : ℤ)) 2
    b.IsBatch 2 "a" ∧ ¬ (memoryClass .FaissFlat).BatchLabelled b 2 "a" flatSet ∧
      ∃ query t, Runs (addDescriptorBatch (memoryClass .FaissFlat) (fun _ => 77) b) flatSet
        (.ret (.added 0 query) t) ∧ t.label_ids = [0, 77] := by
  intro _ b
  have hb : b.IsBatch 2 "a" :=
    ⟨⟨"set", rfl⟩, ⟨_, rfl, rfl⟩, by decide, by simp [b, labelledBatch], rfl,
      by simp [b, labelledBatch]; rfl⟩
  have hadd : Runs (Faiss.add ([5, 5] : List ℤ)
        (some (readLabels (labelStorage 0) (fun _ => 77) 2)))
      { flatSet with labels_map := (getLabelId (∅ : LabelsMap) "a").2 } (.ret 0 _) :=
    Runs.of_eq fun _ => Faiss.add_apply rfl
  have hinsert : Runs
      (insertDescriptor (memoryClass .FaissFlat) (fun _ => 77) (b.descriptors 2) "a") flatSet
      (.ret (.ok 0) _) :=
    (insertDescriptor_ok (by decide)).mpr hadd
  obtain ⟨query, hrun⟩ := (addDescriptorBatch_added hb).mpr hinsert
  exact ⟨hb, fun h => absurd (h.inside (by decide)) (by decide), query, _, hrun, rfl⟩

end VCL

end Vdms
