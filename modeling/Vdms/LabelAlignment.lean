import Vdms.DescriptorIds

/-!
# Labels beside the Descriptors

Each set that answers from memory keeps the labels of its descriptors in a list of its own. It is
filled only by additions with labels, and by reading it from disk, so it stays beside the
descriptors only if all of them come with labels. Sets of faiss and FLINNG check ids against
its length with `>`, and sets with a dense array not at all.

## Main results

* `labels_aligned`: in the runs that keep the list filled, `get_labels` answers the label of each
  descriptor and an error where there is none, and `classify` answers whenever the search does.
* `labels_misplaced`: the label of a descriptor that has none.
-/

namespace Vdms

namespace VCL

open Imp Imp.Prog DescriptorSetData VectorLibrary

/-- The label of the descriptor with an id, `-1` where it has been added without one; `none` if
there is no such descriptor. -/
def labelOf {V : Type} (items : List (V × Option Int64)) (id : Int64) : Option Int64 :=
  if id < 0 then none else (items[id.toUInt64.toNat]?).map fun x => x.2.getD (-1)

/-- The labels of the descriptors are answered, or there is an error if one of them is not
there. -/
def AnswersLabels {V σ : Type} (items : List (V × Option Int64)) (ids : List Int64)
    (o : Outcome σ SetError (List Int64)) : Prop :=
  match ids.mapM (labelOf items) with
  | some labels => ∃ t, o = .ret labels t
  | none => ∃ e t, o = .throw e t

/-- A loop over a list has a result exactly if it is the results of the members. -/
theorem mapM_eq_some {α β : Type} {f : α → Option β} {xs : List α} {ys : List β} :
    xs.mapM f = some ys ↔ xs.map f = ys.map some := by
  induction xs generalizing ys with
  | nil => cases ys <;> simp
  | cons x xs ih =>
      cases ys with
      | nil => cases hx : f x <;> cases hxs : xs.mapM f <;> simp [hx, hxs]
      | cons y ys =>
          cases hx : f x with
          | none => simp [hx]
          | some z => cases hxs : xs.mapM f <;> simp [hx, hxs, ← ih]

/-- A loop over a list has no result if one of its members has none. -/
theorem mapM_eq_none {α β : Type} {f : α → Option β} {xs : List α} {x : α} (hx : x ∈ xs)
    (h : f x = none) : xs.mapM f = none := by
  cases hm : xs.mapM f with
  | none => rfl
  | some ys =>
      have hmem : f x ∈ ys.map some := mapM_eq_some.mp hm ▸ List.mem_map_of_mem hx
      rw [h] at hmem
      simp at hmem

/-- A list of labels that has each label under its id, looked up as the methods do. -/
theorem labelOf_eq {V : Type} {items : List (V × Option Int64)} (h : items.length < 2 ^ 63)
    (id : Int64) :
    labelOf items id = (items.map fun x => x.2.getD (-1))[id.toUInt64.toNat]? := by
  rw [labelOf, List.getElem?_map]
  split
  · next hneg =>
    have hlarge : 2 ^ 63 ≤ id.toUInt64.toNat := by
      rw [Int64.lt_iff_toInt_lt] at hneg
      have hbits := (BitVec.toInt_neg_iff (x := id.toBitVec)).mp hneg
      have hnat : id.toUInt64.toNat = id.toBitVec.toNat := rfl
      omega
    rw [List.getElem?_eq_none (by omega)]
    rfl
  · rfl

/-! ### Sets in memory -/

section

variable [VectorLibrary] [LawfulLibrary] {e : MemoryEngine} {s : MemorySet}
  {l : Ledger (Vec × Option Int64)}

/-- Every addition is one with labels, to a set that numbers its descriptors right. -/
def LabelsMeet (e : MemoryEngine) (s : MemorySet) (l : Ledger (Vec × Option Int64))
    (a : StoreAction (Vec × Option Int64)) : Prop :=
  MemoryMeets e s l a ∧ ∀ batch, a = .add batch → ∀ x ∈ batch, x.2 ≠ none

/-- With labels only, the label ids are the labels. -/
theorem MemoryInv.label_ids (h : MemoryInv e s l) (hall : ∀ x ∈ l.items, x.2 ≠ none) :
    s.label_ids = l.items.map fun x => x.2.getD (-1) := by
  have hshort := h.short
  refine List.ext_getElem? fun i => ?_
  rw [List.getElem?_map]
  cases hi : l.items[i]? with
  | none =>
      have hle := List.getElem?_eq_none_iff.mp hi
      rw [List.getElem?_eq_none (by omega)]
      rfl
  | some x =>
      obtain ⟨v, label⟩ := x
      cases label with
      | none => exact absurd rfl (hall _ (List.mem_of_getElem? hi))
      | some label => exact h.labels i v label hi

omit [LawfulLibrary] in
/-- `get_labels` answers with what the look-up finds. -/
theorem MemoryEngine.getLabels_apply {ids : List Int64} {n : ℕ} (hlock : s.lock = false) :
    e.getLabels ids n s =
      match lookUp s.label_ids ids with
      | .found labels => .ret labels s
      | .missing =>
        .throw (.ObjectNotFound "Label id does not exists") { s with lock := decide (e = .Flinng) }
      | .undefined => .stuck := by
  cases e with
  | Flinng => exact Flinng.getLabels_apply hlock
  | FaissFlat | FaissIVFFlat | FaissHNSWFlat =>
      refine (Faiss.getLabels_apply hlock).trans ?_
      cases lookUp s.label_ids ids <;> simp [← hlock]

omit [LawfulLibrary] in
/-- A set in memory answers the labels of the descriptors that were added, if all have one. -/
theorem getLabels_answers {V : Type} {items : List (V × Option Int64)} (hlock : s.lock = false)
    (hlabels : s.label_ids = items.map fun x => x.2.getD (-1)) (hfit : items.length < 2 ^ 63)
    {ids : List Int64} (hids : ∀ id ∈ ids, id.toUInt64.toNat ≠ items.length) :
    AnswersLabels items ids (e.getLabels ids 0 s) := by
  have hlen : s.label_ids.length = items.length := by rw [hlabels, List.length_map]
  have hspec := lookUp_spec s.label_ids ids
  have hget (id : Int64) : labelOf items id = s.label_ids[id.toUInt64.toNat]? := by
    rw [labelOf_eq hfit, hlabels]
  rw [MemoryEngine.getLabels_apply hlock, AnswersLabels]
  cases hl : lookUp s.label_ids ids with
  | found labels =>
      rw [hl] at hspec
      have hmap : ids.mapM (labelOf items) = some labels := by
        refine mapM_eq_some.mpr (Eq.trans ?_ hspec)
        exact List.map_congr_left fun id _ => hget id
      rw [hmap]
      exact ⟨s, rfl⟩
  | missing =>
      rw [hl] at hspec
      obtain ⟨id, hid, hlt⟩ := hspec
      have hnone : labelOf items id = none := by
        rw [hget]
        exact List.getElem?_eq_none (by omega)
      rw [mapM_eq_none hid hnone]
      exact ⟨_, _, rfl⟩
  | undefined =>
      rw [hl] at hspec
      obtain ⟨id, hid, heq⟩ := hspec
      exact absurd (heq.trans hlen) (hids id hid)

/-- The neighbors that are found have labels. -/
theorem winners_of_found {label_ids : List Int64} {ds : List Vec} {quorum : ℕ} {i j : Index}
    {rows : List (List (Int64 × Dist))}
    (hlabels : label_ids.length = (LawfulLibrary.contents i).length)
    (hs : VectorLibrary.search ds quorum i = (some rows, j)) :
    ∃ ids, winners label_ids (rows.map fun row => row.map Prod.fst) = some ids := by
  refine Option.ne_none_iff_exists'.mp fun hnone => ?_
  obtain ⟨row, hrow, idx, hidx, hpos, hlen⟩ := winners_eq_none.mp hnone
  obtain ⟨r, hr, rfl⟩ := List.mem_map.mp hrow
  obtain ⟨p, hp, rfl⟩ := List.mem_map.mp hidx
  rcases LawfulLibrary.found hs r hr p hp with hneg | hlt
  · exact absurd hpos (Int64.not_le.mpr hneg)
  · omega

/-- The vote answers whenever the search does. -/
theorem classify_answers (hlock : s.lock = false)
    (hlabels : s.label_ids.length = (LawfulLibrary.contents s.index).length)
    {ds : List Vec} {quorum : ℕ} {rows : List (List (Int64 × Dist))} {t : MemorySet}
    (hsearch : e.search ds quorum 0 s = .ret rows t) :
    ∃ ids u, e.classify ds quorum 0 s = .ret ids u := by
  have hfaiss (hsearch : Faiss.search ds quorum 0 s = .ret rows t) :
      ∃ ids u, Faiss.classify ds quorum 0 s = .ret ids u := by
    rw [Faiss.classify_apply hlock]
    rcases hs : VectorLibrary.search ds quorum s.index with ⟨_ | found, i⟩
    · simp [Faiss.search, MemorySet.call, ofFun, hs] at hsearch
    · obtain ⟨ids, hids⟩ := winners_of_found hlabels hs
      simp only [hids]
      exact ⟨ids, _, rfl⟩
  cases e with
  | FaissFlat | FaissIVFFlat | FaissHNSWFlat => exact hfaiss hsearch
  | Flinng =>
      rw [MemoryEngine.search, Flinng.search_apply hlock] at hsearch
      rw [MemoryEngine.classify, Flinng.classify_apply hlock]
      rcases hi : searched s with i | i
      · rw [hi] at hsearch
        cases hsearch
      · have hcontents : LawfulLibrary.contents i = LawfulLibrary.contents s.index := by
          rw [searched] at hi
          split at hi
          · cases hi
            rfl
          · split at hi
            · next hfinal =>
              cases hi
              exact LawfulLibrary.contents_finalize hfinal
            · cases hi
        rw [hi] at hsearch
        simp only at hsearch ⊢
        rcases hs : VectorLibrary.search ds quorum i with ⟨_ | found, j⟩
        · rw [hs] at hsearch
          cases hsearch
        · obtain ⟨ids, hids⟩ := winners_of_found (hlabels.trans (by rw [hcontents])) hs
          simp only [hids]
          exact ⟨ids, _, rfl⟩

end

/-! ### Dense arrays -/

section

variable {s t : DenseSet} {l : Ledger (Descriptor × Option Int64)}

/-- The lists beside a buffer that has been loaded. -/
structure Loaded (s : DenseSet) (items : List (Descriptor × Option Int64)) : Prop where
  label_ids : s.label_ids = items.map fun x => x.2.getD (-1)
  buffer : s.buffer.length = items.length

/-- A buffer that has been loaded is added to with labels only. -/
def DenseLabelsMeet (s : DenseSet) (l : Ledger (Descriptor × Option Int64))
    (a : StoreAction (Descriptor × Option Int64)) : Prop :=
  DenseMeets s l a ∧ (s.flag_buffer_updated = true →
    ∀ batch, a = .add batch → ∀ x ∈ batch, x.2 ≠ none)

/-- A batch in which all have labels appends these labels. -/
theorem labelsAfter_of_labelled {V : Type} (label_ids : List Int64) {b : Batch V}
    (h : ∀ x ∈ b.items, x.2 ≠ none) :
    labelsAfter label_ids label_ids.length b.labels =
      label_ids ++ b.items.map fun x => x.2.getD (-1) := by
  rw [← b.storedLabels]
  cases hb : b.labels with
  | some ls => exact copyBehind_length 0 label_ids ls
  | none =>
      have hnone : b.descriptors = [] := by
        refine List.eq_nil_iff_forall_not_mem.mpr fun x hx => ?_
        refine h (x, none) ?_ rfl
        simp [Batch.items, hb, hx]
      simp [labelsAfter, hnone]

/-- An addition to a buffer that has been loaded. -/
theorem Loaded.added {items : List (Descriptor × Option Int64)} {b : Batch Descriptor}
    (h : Loaded s items) (htotal : s.n_total = items.length) (hb : ∀ x ∈ b.items, x.2 ≠ none) :
    Loaded (Dense.added s b.descriptors b.labels) (items ++ b.items) := by
  have hlen : s.label_ids.length = items.length := by rw [h.label_ids, List.length_map]
  refine ⟨?_, ?_⟩
  · have hafter := labelsAfter_of_labelled s.label_ids hb
    rw [hlen, ← htotal] at hafter
    rw [List.map_append, ← h.label_ids]
    exact hafter
  · have hcopy := copyBehind_length (List.replicate s.dimensions 0) s.buffer b.descriptors
    rw [h.buffer, ← htotal] at hcopy
    rw [Dense.added]
    simp only [hcopy, List.length_append, h.buffer, b.length_items]

/-- Loading the buffer reads the lists from the array. -/
theorem Loaded.of_load (hinv : DenseInv s l) {n : ℕ}
    (h : (Dense.loadBuffer n s).state = some t) :
    t.flag_buffer_updated = true ∧ Loaded t l.items ∧ Dense.loadBuffer n s = .ret () t ∨
      t.flag_buffer_updated = s.flag_buffer_updated ∧ l.items = [] := by
  have htotal := Dense.total_persists hinv rfl
  have hbound := hinv.bound
  rw [Dense.loadBuffer_apply] at h ⊢
  simp only [htotal] at h ⊢
  by_cases hempty : l.items.length = 0
  · rw [if_pos (.inl hempty)] at h
    cases h
    exact .inr ⟨rfl, List.length_eq_zero_iff.mp hempty⟩
  · have hfull : ¬ (l.items.length = 0 ∨ Dense.MAX_DESC < l.items.length) := by
      simp only [Dense.METADATA_OFFSET] at hbound
      omega
    rw [if_neg hfull] at h ⊢
    cases h
    refine .inl ⟨rfl, ⟨?_, by simp⟩, rfl⟩
    refine List.ext_getElem? fun i => ?_
    rw [List.getElem?_map]
    by_cases hi : i < l.items.length
    · have hcell := hinv.stores i l.items[i] (List.getElem?_eq_getElem hi)
      have hcell : (Dense.readDescriptorMetadata s).cells i = _ := hcell
      simp [hi, hcell]
    · simp [hi]

variable [StdPartialSort]

/-- What a set with a dense array has of its labels. -/
theorem denseLabelsInv (what : String) : Store.Invariant (denseStore what) DenseLabelsMeet
    fun s l => DenseInv s l ∧ (s.flag_buffer_updated = true → Loaded s l.items) where
  new s h := by
    refine ⟨(denseInv what).new s h, fun _ => ?_⟩
    obtain ⟨dim, fill, rfl⟩ := h
    exact ⟨rfl, rfl⟩
  add s t l batch id hinv hmeets h := by
    obtain ⟨hid, hadded⟩ := (denseInv what).add s t l batch id hinv.1 hmeets.1 h
    refine ⟨hid, hadded, fun hflag => ?_⟩
    obtain ⟨b, rfl, h⟩ := h
    obtain ⟨rfl, rfl, -⟩ := Dense.add_ret h
    have hitems : Ledger.items
        { l with adds := l.adds ++ [⟨s.n_total, b.items⟩], saved := false } =
        l.items ++ b.items := by simp [Ledger.items]
    rw [hitems]
    exact (hinv.2 hflag).added hid (hmeets.2 hflag _ rfl)
  save s t l hinv hmeets h := by
    refine ⟨(denseInv what).save s t l hinv.1 hmeets.1 h, ?_⟩
    cases h
    exact fun hflag => ⟨(hinv.2 hflag).label_ids, (hinv.2 hflag).buffer⟩
  reopen s t l hinv hmeets h := by
    refine ⟨(denseInv what).reopen s t l hinv.1 hmeets.1 h, ?_⟩
    obtain ⟨u, rfl⟩ := h
    intro hflag
    cases hflag
  query s t l hinv hmeets h := by
    refine ⟨(denseInv what).query s t l hinv.1 hmeets.1 h, fun hflag => ?_⟩
    obtain ⟨q, k, h⟩ := h
    rcases Dense.search_state h with ⟨-, rfl⟩ | ⟨hunloaded, hload⟩
    · exact hinv.2 hflag
    · rcases Loaded.of_load hinv.1 hload with ⟨-, hloaded, -⟩ | ⟨hsame, -⟩
      · exact hloaded
      · rw [hsame, hunloaded] at hflag
        cases hflag

omit [StdPartialSort] in
/-- A dense set with its buffer loaded answers the labels of the ids that have one. -/
theorem Dense.getLabels_answers (hinv : DenseInv s l) (hloaded : Loaded s l.items)
    {ids : List Int64} (hids : ∀ id ∈ ids, labelOf l.items id ≠ none) :
    AnswersLabels l.items ids (Dense.getLabels ids 0 s) := by
  have hfit : l.items.length < 2 ^ 63 := by
    have hbound := hinv.bound
    simp only [Dense.METADATA_OFFSET, Dense.MAX_DESC] at hbound
    omega
  have hget : (fun idx : Int64 => s.label_ids[idx.toUInt64.toNat]?) = labelOf l.items := by
    funext id
    rw [labelOf_eq hfit, hloaded.label_ids]
  have hsome : ∃ labels, ids.mapM (labelOf l.items) = some labels := by
    induction ids with
    | nil => exact ⟨[], rfl⟩
    | cons id ids ih =>
        obtain ⟨label, hlabel⟩ := Option.ne_none_iff_exists'.mp (hids id List.mem_cons_self)
        obtain ⟨labels, hlabels⟩ := ih fun id' hid' => hids id' (List.mem_cons_of_mem id hid')
        exact ⟨label :: labels, by simp [hlabel, hlabels]⟩
  obtain ⟨labels, hlabels⟩ := hsome
  rw [AnswersLabels, hlabels]
  refine ⟨s, ?_⟩
  simp [Dense.getLabels, hget, hlabels]

/-- A search that loads the buffer is one of the set that has been loaded. -/
theorem Dense.search_of_load {q : List Descriptor} {k n : ℕ} (hs : s.flag_buffer_updated = false)
    (ht : t.flag_buffer_updated = true) (hload : Dense.loadBuffer n s = .ret () t) :
    Dense.search q k n s = Dense.search q k n t := by
  rw [Dense.search]
  simp [when, hs, ht, hload]

/-- The ids that a search of a loaded buffer answers have labels. -/
theorem Dense.search_of_loaded (htotal : s.n_total = l.items.length)
    (hflag : s.flag_buffer_updated = true) (hloaded : Loaded s l.items) (ds : List Descriptor)
    {quorum : ℕ} (hq : quorum ≤ l.items.length) (n : ℕ) :
    ∃ rows, Dense.search ds quorum n s = .ret rows s ∧
      winners s.label_ids (rows.map fun row => row.map Prod.fst) ≠ none := by
  have hle : ¬ s.n_total < quorum := by omega
  refine ⟨_, by simp [Dense.search, when, hflag, hle]; rfl, fun hnone => ?_⟩
  obtain ⟨ids, hids, idx, hidx, -, hlen⟩ := winners_eq_none.mp hnone
  obtain ⟨row, hrow, rfl⟩ := List.mem_map.mp hids
  obtain ⟨q, -, rfl⟩ := List.mem_map.mp hrow
  obtain ⟨p, hp, rfl⟩ := List.mem_map.mp hidx
  obtain ⟨i, hi, rfl⟩ := List.mem_map.mp hp
  have hd : (distances s q).length = l.items.length := by
    simp [distances, htotal, hloaded.buffer]
  have hsort := StdPartialSort.isPartialSort (distances s q) quorum (by omega)
  have hmem := hsort.subset hi
  rw [hd] at hmem
  have hlt := List.mem_range.mp hmem
  have hnat : (Int64.ofNat i).toUInt64.toNat ≤ i := by
    rw [Int64.toUInt64_ofNat']
    exact Nat.mod_le i _
  rw [hloaded.label_ids, List.length_map] at hlen
  simp only at hlen
  omega

/-- The vote on a buffer that has been loaded. -/
theorem Dense.classify_of_loaded (htotal : s.n_total = l.items.length)
    (hflag : s.flag_buffer_updated = true) (hloaded : Loaded s l.items) (ds : List Descriptor)
    {quorum : ℕ} (hq : quorum ≤ l.items.length) (n : ℕ) :
    ∃ ids, Dense.classify ds quorum n s = .ret ids s := by
  obtain ⟨rows, hsearch, hwinners⟩ := Dense.search_of_loaded htotal hflag hloaded ds hq n
  obtain ⟨ids, hids⟩ := Option.ne_none_iff_exists'.mp hwinners
  refine ⟨ids, ?_⟩
  rw [Dense.classify, bind_apply, hsearch]
  simp only [Outcome.andThen_ret, bind_apply, get_apply, hids, pure_apply]

/-- A dense set with enough descriptors classifies. -/
theorem Dense.classify_answers (hinv : DenseInv s l)
    (hloaded : s.flag_buffer_updated = true → Loaded s l.items) (ds : List Descriptor)
    {quorum : ℕ} (hq : quorum ≤ l.items.length)
    (hstart : s.flag_buffer_updated = true ∨ l.items ≠ []) :
    ∃ ids t, Dense.classify ds quorum 0 s = .ret ids t := by
  cases hflag : s.flag_buffer_updated with
  | true =>
      obtain ⟨ids, hids⟩ := Dense.classify_of_loaded hinv.total hflag (hloaded hflag) ds hq 0
      exact ⟨ids, s, hids⟩
  | false =>
      obtain ⟨t, hstate⟩ : ∃ t, (Dense.loadBuffer 0 s).state = some t := by
        rw [Dense.loadBuffer_apply]
        simp only
        split <;> exact ⟨_, rfl⟩
      rcases Loaded.of_load hinv hstate with ⟨hupdated, hlists, hload⟩ | ⟨-, hempty⟩
      · have htotal : t.n_total = l.items.length :=
          (Dense.loadBuffer_state hstate).2.trans (Dense.total_persists hinv rfl)
        obtain ⟨ids, hids⟩ := Dense.classify_of_loaded htotal hupdated hlists ds hq 0
        refine ⟨ids, t, ?_⟩
        rw [← hids, Dense.classify, bind_apply, bind_apply,
          Dense.search_of_load hflag hupdated hload]
      · rcases hstart with hupdated | hne
        · rw [hflag] at hupdated
          cases hupdated
        · exact absurd hempty hne

end

/-! ### All classes -/

/-- **Labels of descriptors.** In the runs whose additions come with labels, as far as the lists
beside the descriptors are filled from them, `get_labels` answers the labels of the descriptors
or an error where there is none, and `classify` answers whenever the search does. -/
theorem labels_aligned [VectorLibrary] [LawfulLibrary] [StdPartialSort] :
    (∀ e s l, Store.Run (memoryStore e) (LabelsMeet e) s l → s.lock = false →
      l.items.length < 2 ^ 63 →
      (∀ ids, (∀ id ∈ ids, id.toUInt64.toNat ≠ l.items.length) →
        AnswersLabels l.items ids (e.getLabels ids 0 s)) ∧
      ∀ ds quorum rows t, e.search ds quorum 0 s = .ret rows t →
        ∃ ids u, e.classify ds quorum 0 s = .ret ids u) ∧
    (∀ what s l, Store.Run (denseStore what) DenseLabelsMeet s l →
      (s.flag_buffer_updated = true → ∀ ids, (∀ id ∈ ids, labelOf l.items id ≠ none) →
        AnswersLabels l.items ids (Dense.getLabels ids 0 s)) ∧
      ∀ ds quorum, quorum ≤ l.items.length → s.flag_buffer_updated = true ∨ l.items ≠ [] →
        ∃ ids t, Dense.classify ds quorum 0 s = .ret ids t) := by
  refine ⟨fun e s l hrun hlock hfit => ?_, fun what s l hrun => ?_⟩
  · have hinv := (hrun.mono fun s l a h => h.1).invariant (memoryInv e)
    have hall := hrun.forall_items fun s l batch h => h.2 batch rfl
    have hlabels := hinv.label_ids hall
    refine ⟨fun ids hids => getLabels_answers hlock hlabels hfit hids, ?_⟩
    intro ds quorum rows t hsearch
    refine classify_answers hlock ?_ hsearch
    rw [hlabels, hinv.contents, List.length_map, List.length_map]
  · obtain ⟨hinv, hloaded⟩ := hrun.invariant (denseLabelsInv what)
    exact ⟨fun hflag ids hids => Dense.getLabels_answers hinv (hloaded hflag) hids,
      fun ds quorum hq hstart => Dense.classify_answers hinv hloaded ds hq hstart⟩

/-- Two descriptors with labels, added one after the other. -/
theorem labels_aligned_two :
    let _ := flatIndex
    let _ := flatLawful
    ∃ s l, Store.Run (memoryStore .FaissFlat) (LabelsMeet .FaissFlat) s l ∧
      l.items = [((5 : ℤ), some 7), (6, some 8)] ∧
      AnswersLabels l.items [1, 0] (Faiss.getLabels [1, 0] 0 s) := by
  let _ := flatIndex
  let _ := flatLawful
  let _ := insertionPartialSort
  have hnew : Store.Run (memoryStore .FaissFlat) (LabelsMeet .FaissFlat) flatSet .empty :=
    .new ⟨rfl, rfl, rfl, rfl⟩
  have hlabelled : ∀ (v : ℤ) (label : Int64) batch,
      StoreAction.add (oneMore v (some label)).items = .add batch → ∀ x ∈ batch, x.2 ≠ none := by
    rintro v label _ ⟨⟩ x hx
    obtain rfl := List.mem_singleton.mp hx
    exact nofun
  have hadd := hnew.add (t := labelledSet) ⟨nofun, hlabelled 5 7⟩
    ⟨oneMore (5 : ℤ) (some 7), rfl, rfl⟩
  have hmore := hadd.add ⟨nofun, hlabelled 6 8⟩ ⟨oneMore (6 : ℤ) (some 8), rfl, rfl⟩
  exact ⟨_, _, hmore, rfl, (labels_aligned.1 .FaissFlat _ _ hmore rfl (by decide)).1 [1, 0]
    (List.forall_mem_cons.2 ⟨by decide, List.forall_mem_singleton.2 (by decide)⟩)⟩

/-- **A label that nobody gave.** A descriptor without a label comes before one with a label:
`get_labels` answers `0` for it, which is the label of the place that was filled up. -/
theorem labels_misplaced :
    let _ := flatIndex
    let _ := flatLawful
    ∃ s l, Store.Run (memoryStore .FaissFlat) (fun _ _ _ => True) s l ∧ s.lock = false ∧
      ¬ AnswersLabels l.items [0] (Faiss.getLabels [0] 0 s) := by
  let _ := flatIndex
  let _ := flatLawful
  have hnew : Store.Run (memoryStore .FaissFlat) (fun _ _ _ => True) flatSet .empty :=
    .new ⟨rfl, rfl, rfl, rfl⟩
  have hadd := hnew.add trivial ⟨oneMore (5 : ℤ) none, rfl, rfl⟩
  have hmore := hadd.add trivial ⟨oneMore (6 : ℤ) (some 7), rfl, rfl⟩
  refine ⟨_, _, hmore, rfl, ?_⟩
  rintro ⟨t, h⟩
  cases h

end VCL

end Vdms
