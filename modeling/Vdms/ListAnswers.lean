import Vdms.Aggregates
import Vdms.Columns
import Vdms.Cursors
import Vdms.Reaching
import Vdms.ResultLoops

/-!
# List Answers

`build_results` goes over the elements of a result, notes their values in columns, and deletes
an element or enters it into the expiration queue if the transaction is to do so;
`parse_response` makes the entities. Before that `query_node` and `query_edge` sort the result
if they are asked to.

## Main results

* `listOf_total`: the list of a result ends, in a response with the columns of its elements or
  in an exception.
* `list_aligned_iff`: when the entities of the answer are those of the elements.
-/

namespace Vdms

open Imp Imp.Prog Platform Relation

/-! ### Removal -/

/-- Removing an element does not touch another one. -/
structure Apart {τ : Type} (el : τ → Element) : Prop where
  props : ∀ (g : Graph) {x y : τ}, x ≠ y → (g.remove (el x)).props (el y) = g.props (el y)
  tag : ∀ (g : Graph) {x y : τ}, x ≠ y → (g.remove (el x)).tag (el y) = g.tag (el y)

theorem node_apart : Apart Element.node where
  props g x y h := by simp [Graph.remove, Graph.props, Graph.node_removeNode, Ne.symm h]
  tag g x y h := by simp [Graph.remove, Graph.tag, Graph.node_removeNode, Ne.symm h]

theorem edge_removeEdge {g : Graph} {e f : EdgeID} :
    (g.removeEdge e).edge f = if f = e then none else g.edge f := by
  unfold Graph.edge Graph.removeEdge
  rw [List.getElem?_set]
  split_ifs with h h' h' <;> simp_all

/-- Nothing is left of a removed element. -/
theorem props_remove_self (g : Graph) (x : Element) (key : StringID) :
    (g.remove x).props x key = none := by
  cases x with
  | node n => simp [Graph.remove, Graph.props, Graph.node_removeNode]
  | edge e => simp [Graph.remove, Graph.props, edge_removeEdge]

section

variable [Platform]

/-! ### Elements -/

/-- The paths of the element can be noted. -/
def PathsReadable (g : Graph) (x : Element) (keys : List String) : Prop :=
  ∀ key ∈ keys, ∀ v, g.props x (stringID key) = some v → ∃ file, v = .string file

/-- Nothing is thrown at the element: its paths can be noted if it is deleted, and it has a time
if it is entered into the expiration queue. -/
structure Listable (s : Handler) (x : Element) : Prop where
  paths : s.Purges x → PathsReadable s.db x pathProps
  queued : s.autodeleteInit = true → ¬ s.Purges x ∧
    ∃ z, s.db.props x (stringID "_expiration") = some (.integer z)

/-- What the list has done with the element. -/
structure Listed (s : Handler) (x : Element) (keys : List String) (t : Handler) : Prop where
  response : t.response = { s.response with
    propValues := rowOf s.db x keys s.response.propValues }
  purged : s.Purges x → t.db = s.db.remove x
  kept : ¬ s.Purges x → t.db = s.db
  tx : t.tx = s.tx
  cachedNodes : t.cachedNodes = s.cachedNodes
  resultdeletion : t.resultdeletion = s.resultdeletion
  autodeleteInit : t.autodeleteInit = s.autodeleteInit

section Quiet

variable [Platform.Quiet] {s t : Handler} {x : Element}

omit [Platform.Quiet] in
/-- What is done with the paths is done up to the first that is not a string. It keeps `P`, which
says that the graph is `g`. Induction on the properties. -/
theorem eachPath_total (act : String → Handling Unit) {f : String → Handler → Handler}
    (hact : ∀ key, act key = do
      match ← checkProperty x (stringID key) with
      | some v => do
          let file ← v.stringValue
          modify (f file)
      | none => pure ()) {P : Handler → Prop} {g : Graph}
    (hstep : ∀ file t, P t → P (f file t)) (hdb : ∀ t, P t → t.db = g) (keys : List String)
    (hs : P s) : Total (forEach keys act) s (fun _ t => PathsReadable g x keys ∧ P t)
      fun _ t => ¬ PathsReadable g x keys ∧ P t := by
  induction keys generalizing s with
  | nil => exact Total.pure ⟨by simp [PathsReadable], hs⟩
  | cons key keys ih =>
      have hread : Runs (checkProperty x (stringID key)) s
          (.ret (g.props x (stringID key)) s) := Runs.of_eq fun _ => by rw [← hdb s hs]; rfl
      have hrest : ∀ s' : Handler, P s' →
          (∀ v, g.props x (stringID key) = some v → ∃ file, v = .string file) →
          Total (forEach keys act) s' (fun _ t => PathsReadable g x (key :: keys) ∧ P t)
            fun _ t => ¬ PathsReadable g x (key :: keys) ∧ P t := by
        intro s' hs' hkey
        refine (ih hs').mono ?_ ?_
        · rintro _ t ⟨hpaths, ht⟩
          exact ⟨List.forall_mem_cons.2 ⟨hkey, hpaths⟩, ht⟩
        · exact fun _ _ h => ⟨fun hpaths => h.1 (List.forall_mem_cons.1 hpaths).2, h.2⟩
      rw [forEach_cons, hact]
      cases hv : g.props x (stringID key) with
      | none =>
          rw [hv] at hread
          refine Total.after (hread.bind (Runs.of_eq fun _ => rfl)) ?_
          exact hrest s hs (by simp [hv])
      | some v =>
          rw [hv] at hread
          by_cases hstring : ∃ file, v = .string file
          · obtain ⟨file, rfl⟩ := hstring
            refine Total.after (hread.bind (Runs.of_eq fun _ => rfl)) ?_
            exact hrest _ (hstep file s hs) (by simp [hv])
          · have hthrow : Runs (do
                let file ← v.stringValue
                modify (f file)) s (.throw (exception "PropertyTypeInvalid") s) := by
              refine Runs.of_eq fun _ => ?_
              cases v with
              | string file => exact absurd ⟨file, rfl⟩ hstring
              | _ => rfl
            refine .throw (Runs.bind_throw (hread.bind hthrow)) ⟨fun hpaths => hstring ?_, hs⟩
            exact hpaths key List.mem_cons_self v hv

omit [Platform.Quiet] in
/-- The paths are noted. -/
theorem noteFiles_total (x : Element) (keys : List String) (s : Handler) :
    Total (forEach keys fun key => noteFile x key) s
      (fun _ t => PathsReadable s.db x keys ∧ ∃ files, t = { s with cleanupFiles := files })
      fun _ _ => ¬ PathsReadable s.db x keys := by
  refine (eachPath_total (fun key => noteFile x key) (x := x) (f := fun file s =>
    { s with cleanupFiles := s.cleanupFiles ++ [file] }) (fun _ => rfl)
    (P := fun t => ∃ files, t = { s with cleanupFiles := files }) (g := s.db) ?_ ?_ keys
    ⟨s.cleanupFiles, rfl⟩).mono (fun _ _ h => h) fun _ _ h => h.1
  · rintro file _ ⟨files, rfl⟩
    exact ⟨files ++ [file], rfl⟩
  · rintro _ ⟨files, rfl⟩
    rfl

/-- The purge of an element. -/
theorem purge_total (hw : s.Writable) :
    Total (purge x) s
      (fun _ t => PathsReadable s.db x pathProps ∧ t.db = s.db.remove x ∧
        t.response = s.response ∧ t.tx = s.tx ∧ t.cachedNodes = s.cachedNodes ∧
        t.resultdeletion = s.resultdeletion ∧ t.autodeleteInit = s.autodeleteInit)
      fun _ _ => ¬ PathsReadable s.db x pathProps := by
  refine Total.modify_bind (Total.bind (noteFiles_total x pathProps _) ?_)
  rintro _ t ⟨hpaths, files, rfl⟩
  have hcall : Runs (call (.remove x)) { s with
      expirationQueue := deleteByValue s.expirationQueue x, cleanupFiles := files }
      (.ret () { s with
        expirationQueue := deleteByValue s.expirationQueue x, cleanupFiles := files }) :=
    Runs.of_eq fun n => call_apply (by
      have hmode : s.txMode = some false := hw
      simp [Call.inOrder, Handler.txMode] at hmode ⊢
      exact hmode) n
  refine Total.after hcall (Total.modify ⟨hpaths, ?_⟩)
  cases x <;> exact ⟨rfl, rfl, rfl, rfl, rfl, rfl⟩

theorem getProperty_total (hs : s.Open) (x : Element) (key : StringID) :
    Total (getProperty x key) s (fun v t => t = s ∧ s.db.props x key = some v)
      fun _ _ => s.db.props x key = none := by
  have hcall : Runs (call (.getProperty x key)) s (.ret () s) :=
    Runs.of_eq fun n => call_open hs (fun _ => rfl) n
  refine Total.after hcall (Total.get_bind ?_)
  cases hv : s.db.props x key with
  | none => exact Total.raise rfl
  | some v => exact Total.pure ⟨rfl, rfl⟩

/-- The entry of an element into the expiration queue. -/
theorem enqueueExpiration_total (hs : s.Open) :
    Total (enqueueExpiration x) s
      (fun _ t => (∃ z, s.db.props x (stringID "_expiration") = some (.integer z)) ∧
        ∃ queue, t = { s with expirationQueue := queue })
      fun _ _ => ¬ ∃ z, s.db.props x (stringID "_expiration") = some (.integer z) := by
  refine Total.bind ((getProperty_total hs x _).mono (fun _ _ h => h) ?_) ?_
  · rintro _ _ hnone ⟨z, hz⟩
    rw [hnone] at hz
    cases hz
  · rintro v t ⟨rfl, hv⟩
    cases v with
    | integer z => exact Total.after (Runs.of_eq fun _ => rfl) (Total.modify ⟨⟨z, hv⟩, _, rfl⟩)
    | _ =>
        refine .throw (Runs.bind_throw (Runs.of_eq fun _ => rfl)) ?_
        rintro ⟨z, hz⟩
        rw [hv] at hz
        cases hz

/-- **Elements.** -/
theorem listElement_total (keys : List String) (hs : s.Open)
    (hw : s.resultdeletion = true → s.Writable) :
    Total (listElement x keys) s (fun _ t => Listable s x ∧ Listed s x keys t)
      fun _ _ => ¬ Listable s x := by
  let r := s.modifyResponse fun r => { r with propValues := rowOf s.db x keys r.propValues }
  refine Total.after (addRow_runs x keys s) ?_
  have hpurgeOrKeep : Total (purgeOrKeep x) r
      (fun _ t => (s.Purges x → PathsReadable s.db x pathProps) ∧ Listed s x keys t)
      fun _ _ => ¬ Listable s x := by
    refine Total.get_bind (Total.ite (fun hpurge => ?_) fun hkeep => ?_)
    · have hpurge : s.Purges x := hpurge
      refine (purge_total (s := r) (hw hpurge.1)).mono ?_ fun _ _ hbad h => hbad (h.paths hpurge)
      rintro _ t ⟨hpaths, hdb, hresponse, htx, hcached, hdel, hinit⟩
      exact ⟨fun _ => hpaths, hresponse, fun _ => hdb, fun h => absurd hpurge h, htx, hcached,
        hdel, hinit⟩
    · have hkeep : ¬ s.Purges x := hkeep
      refine Total.modify ⟨fun h => absurd h hkeep, ?_⟩
      cases x <;> exact ⟨rfl, fun h => absurd h hkeep, fun _ => rfl, rfl, rfl, rfl, rfl⟩
  refine Total.bind hpurgeOrKeep ?_
  rintro _ t ⟨hpaths, ht⟩
  refine Total.get_bind ?_
  by_cases hinit : s.autodeleteInit = true
  · rw [when_pos (ht.autodeleteInit.trans hinit)]
    have hopen : t.Open := by
      rw [Handler.Open, Handler.txMode, ht.tx]
      exact hs
    have hstill : (∃ z, t.db.props x (stringID "_expiration") = some (.integer z)) ↔
        ¬ s.Purges x ∧ ∃ z, s.db.props x (stringID "_expiration") = some (.integer z) := by
      by_cases hpurge : s.Purges x
      · simp [hpurge, ht.purged hpurge, props_remove_self]
      · simp [hpurge, ht.kept hpurge]
    refine (enqueueExpiration_total hopen).mono ?_ ?_
    · rintro _ u ⟨hz, queue, rfl⟩
      exact ⟨⟨hpaths, fun _ => hstill.1 hz⟩, ht.response, ht.purged, ht.kept, ht.tx,
        ht.cachedNodes, ht.resultdeletion, ht.autodeleteInit⟩
    · exact fun _ _ hbad h => hbad (hstill.2 (h.queued hinit))
  · rw [when_neg (by rw [ht.autodeleteInit]; exact hinit)]
    exact Total.pure ⟨⟨hpaths, fun h => absurd h hinit⟩, ht⟩

end Quiet

/-! ### Lists -/

/-- What the iterator has before it depends on the graph, the transaction and the cached
references only. -/
structure SeesGraph {ι τ : Type} (V : ι → Handler → List τ → Prop) : Prop where
  congr : ∀ {i s t l}, t.db = s.db → t.tx = s.tx → t.cachedNodes = s.cachedNodes → V i s l →
    V i t l

/-- The iterator goes on if the element it is at is removed, or one that it has passed. -/
structure OutlivesRemoval {ι τ : Type} (V : ι → Handler → List τ → Prop) (el : τ → Element) :
    Prop where
  remove : ∀ {i s t l x}, x ∉ l.tail → t.db = s.db.remove (el x) → t.tx = s.tx →
    t.cachedNodes = s.cachedNodes → V i s l → V i t l

section Lists

variable {ι τ : Type} {I : Iter Handler PMGDException ι τ} {V : ι → Handler → List τ → Prop}
  {S : Handler → Handler → Prop} {el : τ → Element} {ni : ι} {qn : ResultInfo}
  {s t : Handler} {l : List τ}

/-- What is deleted from a list can be: the transaction writes, and no element comes again. -/
structure Deletable (V : ι → Handler → List τ → Prop) (el : τ → Element) (l : List τ)
    (s : Handler) : Prop where
  writable : s.Writable
  outlives : OutlivesRemoval V el
  nodup : l.Nodup

/-- The list has gone over these elements. -/
structure ListedSoFar (s : Handler) (el : τ → Element) (keys : List String) (done : List τ)
    (count : ℕ) (t : Handler) : Prop where
  count : count = done.length
  response : t.response = { s.response with propValues := columns s.db keys (done.map el) }
  same : ∀ x, (s.resultdeletion = true → x ∉ done) →
    t.db.props (el x) = s.db.props (el x) ∧ t.db.tag (el x) = s.db.tag (el x)
  tx : t.tx = s.tx
  resultdeletion : t.resultdeletion = s.resultdeletion
  autodeleteInit : t.autodeleteInit = s.autodeleteInit

theorem ListedSoFar.refl {keys : List String} (h : s.response.propValues = []) :
    ListedSoFar s el keys [] 0 s where
  count := rfl
  response := by
    rw [List.map_nil]
    exact congrArg (fun cols => { s.response with propValues := cols }) h
  same x _ := ⟨rfl, rfl⟩
  tx := rfl
  resultdeletion := rfl
  autodeleteInit := rfl

theorem rowOf_congr {g g' : Graph} {x : Element} (h : g.props x = g'.props x)
    (keys : List String) (cols : List (String × List PMGDProp)) :
    rowOf g x keys cols = rowOf g' x keys cols := by
  unfold rowOf
  rw [h]

theorem purges_congr {x : Element} (htag : t.db.tag x = s.db.tag x)
    (hdel : t.resultdeletion = s.resultdeletion) : t.Purges x ↔ s.Purges x := by
  unfold Handler.Purges
  rw [htag, hdel]

theorem listable_congr {x : Element} (hprops : t.db.props x = s.db.props x)
    (htag : t.db.tag x = s.db.tag x) (hdel : t.resultdeletion = s.resultdeletion)
    (hinit : t.autodeleteInit = s.autodeleteInit) : Listable t x ↔ Listable s x := by
  have hpurges := purges_congr htag hdel
  constructor
  · rintro ⟨hpaths, hqueued⟩
    simp only [hpurges, PathsReadable, hprops, hinit] at hpaths hqueued
    exact ⟨hpaths, hqueued⟩
  · rintro ⟨hpaths, hqueued⟩
    simp only [← hpurges, PathsReadable, ← hprops, ← hinit] at hpaths hqueued
    exact ⟨hpaths, hqueued⟩

/-- One element more. -/
theorem ListedSoFar.step {keys : List String} {done : List τ} {x : τ} {count : ℕ} {u : Handler}
    (hel : Apart el) (h : ListedSoFar s el keys done count t)
    (hx : s.resultdeletion = true → x ∉ done) (hlisted : Listed t (el x) keys u) :
    ListedSoFar s el keys (done ++ [x]) (count + 1) u where
  count := by simp [h.count]
  response := by
    have hrow : columns s.db keys ((done ++ [x]).map el) =
        rowOf s.db (el x) keys (columns s.db keys (done.map el)) := by
      simp [columns]
    rw [hlisted.response, h.response, hrow, rowOf_congr (h.same x hx).1]
  same y hy := by
    have hsame := h.same y fun hdel hmem => hy hdel (List.mem_append_left _ hmem)
    by_cases hpurge : t.Purges (el x)
    · have hne : x ≠ y := by
        rintro rfl
        have hdel : s.resultdeletion = true := h.resultdeletion ▸ hpurge.1
        exact hy hdel (by simp)
      rw [hlisted.purged hpurge, hel.props _ hne, hel.tag _ hne]
      exact hsame
    · rw [hlisted.kept hpurge]
      exact hsame
  tx := hlisted.tx.trans h.tx
  resultdeletion := hlisted.resultdeletion.trans h.resultdeletion
  autodeleteInit := hlisted.autodeleteInit.trans h.autodeleteInit

variable [Platform.Quiet]

/-- **The loop of a list.** -/
theorem listLoop_total (hI : I.Tracks V S) (hst : Steady V S) (hsees : SeesGraph V)
    (hel : Apart el) (hdelete : s.resultdeletion = true → Deletable V el l s) (hs : s.Open)
    (hfresh : s.response.propValues = []) (hV : V ni s l) :
    Total (upTo I qn.limit? (fun count x => do
        listElement (el x) qn.responseKeys
        pure (count + 1)) id ni 0) s
      (fun p t => (∀ x ∈ qn.cut l, Listable s (el x)) ∧
        ListedSoFar s el qn.responseKeys (qn.cut l) p.2 t)
      fun _ _ => ∃ x ∈ qn.cut l, ¬ Listable s (el x) := by
  refine upTo_total qn.limit? id hI (fun x => Listable s (el x))
    (fun done count t => ListedSoFar s el qn.responseKeys done count t) (fun h => h.count)
    ?_ ?_ qn.limit?_pos hV (ListedSoFar.refl hfresh)
  · intro done x left i count t hl hVt ht
    have hnew : s.resultdeletion = true → x ∉ done ∧ x ∉ left := by
      intro hdel
      have hnodup := (hdelete hdel).nodup
      rw [← hl, List.nodup_append] at hnodup
      exact ⟨fun hmem => hnodup.2.2 x hmem x List.mem_cons_self rfl,
        (List.nodup_cons.1 hnodup.2.1).1⟩
    obtain ⟨hprops, htag⟩ := ht.same x fun hdel => (hnew hdel).1
    have hlistable := listable_congr hprops htag ht.resultdeletion ht.autodeleteInit
    have hopen : t.Open := by
      rw [Handler.Open, Handler.txMode, ht.tx]
      exact hs
    have hwrite : t.resultdeletion = true → t.Writable := by
      intro hdel
      rw [Handler.Writable, Handler.txMode, ht.tx]
      exact (hdelete (ht.resultdeletion ▸ hdel)).writable
    refine Total.bind ((listElement_total qn.responseKeys hopen hwrite).mono (fun _ _ h => h)
      fun _ _ hbad h => hbad (hlistable.2 h)) ?_
    rintro _ u ⟨hgood, hlisted⟩
    refine Total.pure ⟨hlistable.1 hgood, ?_, ht.step hel (fun hdel => (hnew hdel).1) hlisted⟩
    by_cases hpurge : t.Purges (el x)
    · have hdel : s.resultdeletion = true := ht.resultdeletion ▸ hpurge.1
      exact (hdelete hdel).outlives.remove (hnew hdel).2 (hlisted.purged hpurge) hlisted.tx
        hlisted.cachedNodes hVt
    · exact hsees.congr (hlisted.kept hpurge) hlisted.tx hlisted.cachedNodes hVt
  · rintro done count t u ht hS
    obtain ⟨c, rfl⟩ := hst.moves hS
    exact ⟨ht.count, ht.response, ht.same, ht.tx, ht.resultdeletion, ht.autodeleteInit⟩

/-- What a list of the elements leaves in the response. -/
def listResponse (g : Graph) (el : τ → Element) (keys : List String) (l : List τ) (r : Response) :
    Response :=
  { r with op := .int l.length, propValues := columns g keys (l.map el) }

/-- `build_results` in the case `List`. -/
theorem buildResults_total (hI : I.Tracks V S) (hst : Steady V S) (hsees : SeesGraph V)
    (hel : Apart el) (hdelete : s.resultdeletion = true → Deletable V el l s) (hs : s.Open)
    (hfresh : s.response.propValues = []) (hlist : qn.rType = .list) (hV : V ni s l) :
    Total (buildResults I el ni qn) s
      (fun _ t => (∀ x ∈ qn.cut l, Listable s (el x)) ∧
        t.response = listResponse s.db el qn.responseKeys (qn.cut l) s.response)
      fun _ _ => ∃ x ∈ qn.cut l, ¬ Listable s (el x) := by
  rw [buildResults]
  simp only [hlist]
  refine Total.bind (listLoop_total hI hst hsees hel hdelete hs hfresh hV) ?_
  rintro ⟨ni', count⟩ t ⟨hall, ht⟩
  have hset : Runs (setInt count) t
      (.ret () (t.modifyResponse fun r => { r with op := .int count })) := Runs.of_eq fun _ => rfl
  refine Total.after hset (Total.pure ⟨hall, ?_⟩)
  have hcount : count = (qn.cut l).length := ht.count
  simp only [Handler.modifyResponse, ht.response, listResponse, hcount]

/-! ### Sorting -/

/-- The elements that have the key, with it. -/
def keyedList (g : Graph) (el : τ → Element) (key : StringID) (l : List τ) : List (τ × Property) :=
  l.filterMap fun x => (g.props (el x) key).map fun v => (x, v)

/-- The order of the result: that of a stable sort, if the result is sorted. -/
def resultOrder (g : Graph) (el : τ → Element) (qn : ResultInfo) (l : List τ) : List τ :=
  if qn.sort = true ∧ 2 ≤ l.length then
    ((keyedList g el (stringID qn.sortKey) l).insertionSort fun a b =>
      ReusableIterator.sortsBefore qn.descending a b = true).map Prod.fst
  else l

/-- The elements have the key that they are sorted by, if there is anything to sort. -/
def Sortable (g : Graph) (el : τ → Element) (qn : ResultInfo) (l : List τ) : Prop :=
  qn.sort = true → 2 ≤ l.length → ∀ x ∈ l, (g.props (el x) (stringID qn.sortKey)).isSome

omit [Platform] [Platform.Quiet] in
theorem keyedList_fst {key : StringID} (h : ∀ x ∈ l, (s.db.props (el x) key).isSome) :
    (keyedList s.db el key l).map Prod.fst = l := by
  induction l with
  | nil => rfl
  | cons x l ih =>
      obtain ⟨hx, hl⟩ := List.forall_mem_cons.1 h
      obtain ⟨v, hv⟩ := Option.isSome_iff_exists.1 hx
      have hcons : keyedList s.db el key (x :: l) = (x, v) :: keyedList s.db el key l := by
        simp [keyedList, hv]
      rw [hcons, List.map_cons, ih hl]

/-- The keys are read, up to the first that is missing. Induction on the elements. -/
theorem withKeys_total (hs : s.Open) (key : StringID) (l : List τ) :
    Total (ReusableIterator.withKeys el key l) s
      (fun keyed t => t = s ∧ (∀ x ∈ l, (s.db.props (el x) key).isSome) ∧
        keyed = keyedList s.db el key l)
      fun _ _ => ¬ ∀ x ∈ l, (s.db.props (el x) key).isSome := by
  induction l with
  | nil => exact Total.pure ⟨rfl, by simp, rfl⟩
  | cons x l ih =>
      rw [ReusableIterator.withKeys]
      refine Total.bind ((getProperty_total hs (el x) key).mono (fun _ _ h => h) ?_) ?_
      · intro _ _ hnone h
        have hx := h x List.mem_cons_self
        simp [hnone] at hx
      rintro v t ⟨rfl, hv⟩
      refine Total.bind (ih.mono (fun _ _ h => h) ?_) ?_
      · exact fun _ _ hbad h => hbad (List.forall_mem_cons.1 h).2
      rintro keyed u ⟨rfl, hall, rfl⟩
      refine Total.pure ⟨rfl, List.forall_mem_cons.2 ⟨by simp [hv], hall⟩, ?_⟩
      simp [keyedList, hv]

/-- `sort`, if the result is to be sorted. -/
theorem sortResults_total (el : τ → Element) (qn : ResultInfo) (hI : I.Tracks V S)
    (hst : Steady V S) (hs : s.Open) {tni : ReusableIterator ι τ} (h : View V tni s [] l) :
    Total (sortResults I el qn tni) s
      (fun tni' t => Sortable s.db el qn l ∧ (∃ c, t = { s with cachedNodes := c }) ∧
        View V tni' t [] (resultOrder s.db el qn l))
      fun _ _ => ¬ Sortable s.db el qn l := by
  rw [sortResults]
  refine Total.ite (fun hsort => ?_) fun hsort => ?_
  · obtain ⟨r, t, hrun, hpassed, hrest, hend, hS⟩ := h.traverseAll_runs hI
    have hmoved : ∃ c, t = { s with cachedNodes := c } :=
      (ReusableIterator.steady hst l).moves hS
    obtain ⟨c, rfl⟩ := hmoved
    have htraversed : r.traversed = l := by
      rw [ReusableIterator.traversed, hpassed, hrest, List.nil_append]
    refine Total.after hrun ?_
    rw [htraversed]
    refine Total.ite (fun hshort => ?_) fun hlong => ?_
    · refine Total.pure ⟨fun _ hlong => by omega, ⟨c, rfl⟩, ?_⟩
      rw [resultOrder, if_neg (by omega)]
      exact ⟨rfl, [], hend, by simp [ReusableIterator.reset, htraversed], fun _ => rfl⟩
    · have hlong : 2 ≤ l.length := by omega
      refine Total.bind ((withKeys_total (s := { s with cachedNodes := c }) hs _ l).mono
        (fun _ _ h => h) fun _ _ hbad h => hbad (h hsort hlong)) ?_
      rintro keyed u ⟨rfl, hall, rfl⟩
      refine Total.pure ⟨fun _ _ => hall, ⟨c, rfl⟩, ?_⟩
      rw [resultOrder, if_pos ⟨hsort, hlong⟩]
      exact ⟨rfl, [], hend, by simp, fun _ => rfl⟩
  · refine Total.pure ⟨fun h => absurd h hsort, ⟨s.cachedNodes, rfl⟩, ?_⟩
    rw [resultOrder, if_neg fun h => hsort h.1]
    exact h

/-! ### Answers -/

section Reusable

omit [Platform] [Platform.Quiet]

theorem SeesGraph.optView (h : SeesGraph V) {ti : Option ι} {m : List τ} (hdb : t.db = s.db)
    (htx : t.tx = s.tx) (hcached : t.cachedNodes = s.cachedNodes) (hV : OptView V ti s m) :
    OptView V ti t m := by
  cases ti with
  | none => exact hV
  | some i => exact h.congr hdb htx hcached hV

/-- A reusable iterator sees what the one sees that it pulls from. -/
theorem ReusableIterator.seesGraph (h : SeesGraph V) (l : List τ) :
    SeesGraph (fun r s left => ∃ past, View V r s past left ∧ past ++ left = l) where
  congr := by
    rintro r s t left hdb htx hcached ⟨past, ⟨hpast, m, hm, hleft, hnil⟩, hl⟩
    exact ⟨past, ⟨hpast, m, h.optView hdb htx hcached hm, hleft, hnil⟩, hl⟩

theorem ReusableIterator.outlivesRemoval (h : OutlivesRemoval V el) (l : List τ) :
    OutlivesRemoval (fun r s left => ∃ past, View V r s past left ∧ past ++ left = l) el where
  remove := by
    rintro r s t left x hx hdb htx hcached ⟨past, ⟨hpast, m, hm, hleft, hnil⟩, hl⟩
    refine ⟨past, ⟨hpast, m, ?_, hleft, hnil⟩, hl⟩
    have hmem : x ∉ m.tail := by
      intro hmem
      cases hrest : r.rest with
      | nil =>
          rw [hnil hrest] at hmem
          cases hmem
      | cons y ys =>
          rw [hleft, hrest, List.cons_append, List.tail_cons] at hx
          exact hx (List.mem_append_right _ (List.mem_of_mem_tail hmem))
    cases hti : r.ti with
    | none => rwa [hti] at hm
    | some i =>
        rw [hti] at hm
        exact h.remove hmem hdb htx hcached hm

end Reusable

omit [Platform.Quiet] in
/-- The elements in the order of the result are those of the result. -/
theorem resultOrder_perm (h : Sortable s.db el qn l) : (resultOrder s.db el qn l).Perm l := by
  rw [resultOrder]
  split_ifs with hsort
  · refine ((List.perm_insertionSort _ _).map Prod.fst).trans ?_
    rw [keyedList_fst (h hsort.1 hsort.2)]
  · exact .refl _

omit [Platform.Quiet] in
theorem resultOrder_sorted (h : Sortable s.db el qn l)
    (hkeys : Comparable s.db el (stringID qn.sortKey) l) (hsort : qn.sort = true) :
    SortedBy s.db el (stringID qn.sortKey) qn.descending (resultOrder s.db el qn l) := by
  rw [resultOrder]
  split_ifs with hlong
  · refine sortedBy_insertionSort (keyedList_fst (h hlong.1 hlong.2)) ?_ hkeys
    rintro p hp
    obtain ⟨x, -, hx⟩ := List.mem_filterMap.1 hp
    obtain ⟨v, hv, rfl⟩ := Option.map_eq_some_iff.1 hx
    exact hv
  · have hshort : l.length ≤ 1 := by
      have := not_and.1 hlong hsort
      omega
    cases l with
    | nil => exact List.Pairwise.nil
    | cons x l =>
        obtain rfl : l = [] := List.eq_nil_of_length_eq_zero (by simpa using hshort)
        exact List.pairwise_singleton _ _

/-- What `query_node` and `query_edge` do with the elements found, up to the cached reference:
if there is to be one, or if the result is sorted, it is built from a reusable iterator. -/
def listOf (I : Iter Handler PMGDException ι τ) (el : τ → Element) (reusable : Bool) (ni : ι)
    (qn : ResultInfo) : Handling (Option (ReusableIterator ι τ)) := do
  setType qn.rType .success
  if reusable ∨ qn.sort then do
    let tni ← ReusableIterator.new I ni
    let tni ← sortResults I el qn tni
    let tni ← reusableResults I el qn tni
    pure (some tni)
  else do
    let _ ← buildResults I el ni qn
    pure none

omit [Platform.Quiet] in
theorem cut_order (qn : ResultInfo) (hsort : ¬ qn.sort = true) (g : Graph) :
    resultOrder g el qn l = l := if_neg fun h => hsort h.1

/-- **The list of a result.** -/
theorem listOf_total (hI : I.Tracks V S) (hst : Steady V S) (hsees : SeesGraph V)
    (hel : Apart el) (hdelete : s.resultdeletion = true → Deletable V el l s) (hs : s.Open)
    (hfresh : s.response.propValues = []) (hlist : qn.rType = .list) (hV : V ni s l)
    (reusable : Bool) :
    Total (listOf I el reusable ni qn) s
      (fun _ t => Sortable s.db el qn l ∧
        (∀ x ∈ qn.cut (resultOrder s.db el qn l), Listable s (el x)) ∧
        t.response = listResponse s.db el qn.responseKeys (qn.cut (resultOrder s.db el qn l))
          { s.response with rType := .list, errorCode := .success })
      fun _ _ => ¬ (Sortable s.db el qn l ∧
        ∀ x ∈ qn.cut (resultOrder s.db el qn l), Listable s (el x)) := by
  let s₀ := s.modifyResponse fun r => { r with rType := .list, errorCode := .success }
  have hset : Runs (setType qn.rType .success) s (.ret () s₀) := by
    rw [hlist]
    exact Runs.of_eq fun _ => rfl
  have hV₀ : V ni s₀ l := hst.respond _ hV
  refine Total.after hset (Total.ite (fun hordered => ?_) fun hdirect => ?_)
  · obtain ⟨tni, s₁, hnew, hview, hS⟩ := View.new_runs hI hV₀
    obtain ⟨c, rfl⟩ : ∃ c, s₁ = { s₀ with cachedNodes := c } :=
      (ReusableIterator.steady hst l).moves hS
    have hordered := sortResults_total (s := { s₀ with cachedNodes := c }) el qn hI hst hs hview
    refine Total.after hnew (Total.bind (hordered.mono (fun _ _ h => h)
      fun _ _ hbad h => hbad h.1) ?_)
    rintro tni' s₂ ⟨hsortable, ⟨c', rfl⟩, hview'⟩
    have hdelete' : s.resultdeletion = true → Deletable (fun r s left => ∃ past,
        View V r s past left ∧ past ++ left = resultOrder s₀.db el qn l) el
        (resultOrder s₀.db el qn l) { s₀ with cachedNodes := c' } := by
      intro hdel
      obtain ⟨hwrite, houtlives, hnodup⟩ := hdelete hdel
      exact ⟨hwrite, ReusableIterator.outlivesRemoval houtlives _,
        (resultOrder_perm (s := s) hsortable).nodup_iff.2 hnodup⟩
    have hbuild := buildResults_total (s := { s₀ with cachedNodes := c' })
      (ReusableIterator.tracks hI _) (ReusableIterator.steady hst _)
      (ReusableIterator.seesGraph hsees _) hel hdelete' hs hfresh hlist
      ⟨[], hview', rfl⟩
    have hlistable : ∀ x, Listable { s₀ with cachedNodes := c' } x ↔ Listable s x := fun x =>
      listable_congr rfl rfl rfl rfl
    rw [reusableResults, if_pos (by rw [hlist]; decide)]
    refine Total.bind (hbuild.mono (fun _ _ h => h) ?_) ?_
    · rintro _ _ ⟨x, hx, hbad⟩ ⟨-, hall⟩
      exact hbad ((hlistable _).2 (hall x hx))
    · rintro tni'' u ⟨hall, hu⟩
      exact Total.pure ⟨hsortable, fun x hx => (hlistable _).1 (hall x hx), hu⟩
  · have hsort : ¬ qn.sort = true := fun h => hdirect (.inr h)
    rw [cut_order qn hsort]
    have hdelete' : s₀.resultdeletion = true → Deletable V el l s₀ := fun hdel =>
      ⟨(hdelete hdel).writable, (hdelete hdel).outlives, (hdelete hdel).nodup⟩
    refine Total.bind ((buildResults_total (s := s₀) hI hst hsees hel hdelete' hs hfresh hlist
      hV₀).mono (fun _ _ h => h) ?_) ?_
    · rintro _ _ ⟨x, hx, hbad⟩ ⟨-, hall⟩
      exact hbad ((listable_congr (s := s) (t := s₀) rfl rfl rfl rfl).2 (hall x hx))
    · rintro ni' u ⟨hall, hu⟩
      exact Total.pure ⟨fun h => absurd h hsort,
        fun x hx => (listable_congr (s := s) (t := s₀) rfl rfl rfl rfl).1 (hall x hx), hu⟩

/-- The answer with these entities. -/
def listAnswer (nodes : Bool) (es : List Json) : Json :=
  .object [(if nodes then "entities" else "connections", .array es),
    ("returned", .int es.length), ("status", .int 0)]

omit [Platform] [Platform.Quiet] in
theorem listAnswer_injective {nodes : Bool} {es es' : List Json}
    (h : listAnswer nodes es = listAnswer nodes es') : es = es' := by
  injection h with hms
  injection hms with hm
  injection hm with _ harray
  injection harray

omit [Platform.Quiet] in
theorem parseResponse_list {g : Graph} {keys : List String} {r : Response} {j : Json} :
    parseResponse (listResponse g el keys l { r with rType := .list, errorCode := .success }) =
        .ok j ↔
      ∃ es, entities g keys (l.map el) = .ok es ∧ j = listAnswer r.nodeEdge es := by
  have hparse : parseResponse
      (listResponse g el keys l { r with rType := .list, errorCode := .success }) = (do
        let es ← entities g keys (l.map el)
        pure (.object [(if r.nodeEdge then "entities" else "connections", .array es),
          ("returned", .int l.length), ("status", .int 0)])) := by
    rw [entities, List.length_map]
    rfl
  rw [hparse]
  have hlength : ∀ {es}, entities g keys (l.map el) = .ok es → es.length = l.length := by
    intro es hes
    rw [(entities_get hes).1, List.length_map]
  constructor
  · intro h
    obtain ⟨es, hes, h⟩ := bind_ok_inv h
    refine ⟨es, hes, ?_⟩
    rw [listAnswer, hlength hes]
    exact (Except.ok.inj h).symm
  · rintro ⟨es, hes, rfl⟩
    rw [hes, listAnswer, hlength hes]
    rfl

/-- The answer has an entity for each element of the result, in its order, which is sorted if it
is asked to be, up to the limit; and each entity shows its element. -/
structure ListAligned (I : Iter Handler PMGDException ι τ) (el : τ → Element) (reusable : Bool)
    (ni : ι) (qn : ResultInfo) (l : List τ) (s : Handler) : Prop where
  perm : (resultOrder s.db el qn l).Perm l
  sorted : qn.sort = true →
    SortedBy s.db el (stringID qn.sortKey) qn.descending (resultOrder s.db el qn l)
  answer : ∃ r t es, Runs (listOf I el reusable ni qn) s (.ret r t) ∧
    parseResponse t.response = .ok (listAnswer s.response.nodeEdge es) ∧
    List.Forall₂ (ShowsElement s.db qn.responseKeys)
      ((qn.cut (resultOrder s.db el qn l)).map el) es

/-- **List answers are aligned** if the sort key is there to sort by, nothing is thrown at an
element, no value is a blob, and under a key that is asked for more than once all elements show
the same. -/
theorem list_aligned_iff (hI : I.Tracks V S) (hst : Steady V S) (hsees : SeesGraph V)
    (hel : Apart el) (hdelete : s.resultdeletion = true → Deletable V el l s) (hs : s.Open)
    (hfresh : s.response.propValues = []) (hlist : qn.rType = .list) (hV : V ni s l)
    (hkeys : qn.sort = true → Comparable s.db el (stringID qn.sortKey) l) (reusable : Bool) :
    ListAligned I el reusable ni qn l s ↔
      Sortable s.db el qn l ∧ (∀ x ∈ qn.cut (resultOrder s.db el qn l), Listable s (el x)) ∧
        Typed s.db qn.responseKeys ((qn.cut (resultOrder s.db el qn l)).map el) ∧
        Uniform s.db qn.responseKeys ((qn.cut (resultOrder s.db el qn l)).map el) := by
  have htotal := listOf_total hI hst hsees hel hdelete hs hfresh hlist hV reusable
  rw [← entities_aligned_iff]
  constructor
  · rintro ⟨-, -, r, t, es, hrun, hparse, hes⟩
    cases htotal with
    | throw hthrow _ => exact absurd (hrun.unique hthrow) (by simp)
    | ret hret h =>
        obtain ⟨hsortable, hlistable, hresponse⟩ := h
        obtain ⟨rfl, rfl⟩ : _ = r ∧ _ = t := by
          have heq := hret.unique hrun
          injection heq with hr ht
          exact ⟨hr, ht⟩
        rw [hresponse, parseResponse_list] at hparse
        obtain ⟨es', hes', hanswer⟩ := hparse
        obtain rfl := listAnswer_injective hanswer
        exact ⟨hsortable, hlistable, es, hes', hes⟩
  · rintro ⟨hsortable, hlistable, es, hes, hshows⟩
    cases htotal with
    | throw _ hbad => exact absurd ⟨hsortable, hlistable⟩ hbad
    | ret hret h =>
        obtain ⟨-, -, hresponse⟩ := h
        refine ⟨resultOrder_perm hsortable,
          fun hsort => resultOrder_sorted hsortable (hkeys hsort) hsort, _, _, es, hret, ?_, hshows⟩
        rw [hresponse, parseResponse_list]
        exact ⟨es, hes, rfl⟩

end Lists

/-! ### The iterators of queries -/

section Iterators

variable [Platform.Lawful]

/-- The iterator of a search for nodes, over all nodes or along the links of a reference. -/
def NodeIterator.InView (k : ℤ) (l₀ : List NodeID) (ni : NodeIterator) (s : Handler)
    (l : List NodeID) : Prop :=
  match ni with
  | .search i => i.InView s l
  | .multi m => MultiView k l₀ m s l

/-- Cached references have moved. -/
def Moved (s t : Handler) : Prop := ∃ c, t = { s with cachedNodes := c }

theorem NodeIterator.tracks [Platform.Quiet] (k : ℤ) (l₀ : List NodeID) :
    NodeIterator.iter.Tracks (NodeIterator.InView k l₀) Moved where
  bool_eq := by
    intro ni s l h
    cases ni with
    | search i => exact SearchIterator.tracks.bool_eq h
    | multi m =>
        have h : MultiView k l₀ m s l := h
        exact (MultiNeighborIteratorImpl.tracks l₀).bool_eq h
  ref_runs := by
    intro ni s n l h
    cases ni with
    | search i => exact SearchIterator.tracks.ref_runs h
    | multi m =>
        have h : MultiView k l₀ m s (n :: l) := h
        exact (MultiNeighborIteratorImpl.tracks l₀).ref_runs h
  next_runs := by
    intro ni s n l h
    cases ni with
    | search i =>
        obtain ⟨i', t, hrun, h', rfl⟩ := SearchIterator.tracks.next_runs h
        exact ⟨.search i', s, hrun.bind (Runs.of_eq fun _ => rfl), h', s.cachedNodes, rfl⟩
    | multi m =>
        have h : MultiView k l₀ m s (n :: l) := h
        obtain ⟨m', t, hrun, h', hS⟩ := (MultiNeighborIteratorImpl.tracks l₀).next_runs h
        exact ⟨.multi m', t, hrun.bind (Runs.of_eq fun _ => rfl), h',
          (MultiNeighborIteratorImpl.steady k l₀).moves hS⟩

theorem NodeIterator.steady (k : ℤ) (l₀ : List NodeID) :
    Steady (NodeIterator.InView k l₀) Moved where
  respond := by
    intro ni s l f h
    cases ni with
    | search i => exact SearchIterator.steady.respond f h
    | multi m =>
        have h : MultiView k l₀ m s l := h
        exact (MultiNeighborIteratorImpl.steady k l₀).respond f h
  moves h := h

omit [Platform] [Platform.Lawful] in
theorem open_congr {s t : Handler} (htx : t.tx = s.tx) (hs : s.Open) : t.Open := by
  rw [Handler.Open, Handler.txMode, htx]
  exact hs

omit [Platform.Lawful] in
theorem SearchIterator.seesGraph : SeesGraph SearchIterator.InView where
  congr hdb htx _ h := ⟨open_congr htx h.1, hdb ▸ h.2⟩

theorem at_congr {k : ℤ} {past left : List NodeID} {s t : Handler} (hdb : t.db = s.db)
    (htx : t.tx = s.tx) (hcached : t.cachedNodes = s.cachedNodes) (h : At k past left s) :
    At k past left t :=
  h.of_eq (by rw [Handler.txMode, Handler.txMode, htx]) (by rw [hdb]) (by rw [hcached])

theorem NodeIterator.seesGraph (k : ℤ) (l₀ : List NodeID) :
    SeesGraph (NodeIterator.InView k l₀) where
  congr := by
    intro ni s t l hdb htx hcached h
    cases ni with
    | search i => exact SearchIterator.seesGraph.congr hdb htx hcached h
    | multi m =>
        obtain ⟨hconj, past, left, cur, hl, hat, hstart, hcur, hnil, rfl⟩ := h
        exact ⟨hconj, past, left, cur, hl, at_congr hdb htx hcached hat, hstart,
          SearchIterator.seesGraph.optView hdb htx hcached hcur, hnil, by rw [hdb]⟩

theorem NodeEdgeIteratorImpl.seesGraph : SeesGraph NodeEdgeIteratorImpl.InView where
  congr := by
    rintro i s t l hdb htx hcached ⟨hs, c, rest, hc, hhead, hnil, hsrc, rfl⟩
    refine ⟨open_congr htx hs, c, rest, hdb ▸ hc, hdb ▸ hhead, hnil, ?_, by rw [hdb]⟩
    rcases hsrc with h | ⟨k, past, here, hk, hat, hrest⟩
    · exact .inl h
    · exact .inr ⟨k, past, here, hk, at_congr hdb htx hcached hat, hrest⟩

end Iterators

/-- `query_node` from the test of the iterator on, for a query that need not be unique. -/
theorem queryNodeFound_eq {qn : QueryNode} (hunique : qn.constraints.unique = false)
    (start : Start) (ni : NodeIterator) (n : ℕ) (s : Handler) :
    queryNodeFound qn start ni n s = (do
      let tni ← listOf NodeIterator.iter Element.node (0 ≤ qn.identifier) ni qn.results
      match tni with
      | some tni => cacheResult qn start tni
      | none => pure ()
      resetStart start
      pure 0) n s := by
  by_cases hordered : 0 ≤ qn.identifier ∨ qn.results.sort = true
  · simp [queryNodeFound, queryNodeReusable, queryNodeFinish, listOf, hunique, hordered,
      bind_apply, Outcome.andThen_assoc]
  · simp [queryNodeFound, listOf, hunique, hordered, bind_apply, Outcome.andThen_assoc]

end

/-! ### Two ages -/

/-- A list of the ages, sorted by them. -/
def sortedAges : ResultInfo :=
  { rType := .list, responseKeys := ["age"], sort := true, sortKey := "age" }

/-- Nothing is thrown in a transaction that deletes nothing. -/
theorem listable_inTransaction (g : Graph) (x : Element) : Listable (.inTransaction g) x where
  paths h := absurd h.1 (by simp [Handler.inTransaction])
  queued h := absurd h (by simp [Handler.inTransaction])

theorem list_aligned_iff_two_ages : ListAligned (cachedIter tableScan) Element.node true
    (firstNodes 2) sortedAges (List.range 2) (.inTransaction (agedGraph [5, -2])) := by
  let g := agedGraph [5, -2]
  have hcut : sortedAges.cut (resultOrder g Element.node sortedAges (List.range 2)) = [1, 0] := by
    decide +kernel
  have htyped : Typed g ["age"] ([1, 0].map Element.node) := by
    rw [Typed]
    decide +kernel
  have huniform : Uniform g ["age"] ([1, 0].map Element.node) := by
    intro key hcount
    have hle : ["age"].count key ≤ 1 := List.count_le_length
    omega
  have hcomparable : Comparable g Element.node (stringID "age") (List.range 2) := by
    constructor <;> decide +kernel
  refine (@list_aligned_iff tableScan _ _ _ _ _ _ (firstNodes 2) sortedAges (.inTransaction g)
    _ inferInstance (ReusableIterator.tracks SearchIterator.tracks (List.range 2))
    (ReusableIterator.steady SearchIterator.steady (List.range 2))
    (ReusableIterator.seesGraph SearchIterator.seesGraph (List.range 2)) node_apart
    (fun h => by cases h) rfl rfl rfl (firstNodes_view tableScan 2 _) (fun _ => hcomparable)
    true).2 ⟨?_, fun _ _ => listable_inTransaction _ _, ?_, ?_⟩
  · intro _ _
    decide +kernel
  · exact hcut ▸ htyped
  · exact hcut ▸ huniform

/-- A list with the ages twice. -/
def agesTwice : ResultInfo := { rType := .list, responseKeys := ["age", "age"] }

/-- A key that is asked for twice: the second entity shows the age of the first node. -/
theorem repeated_key_not_aligned : ¬ ListAligned (cachedIter tableScan) Element.node false
    (firstNodes 2) agesTwice (List.range 2) (.inTransaction (agedGraph [5, -2])) := by
  rintro ⟨-, -, r, t, es, hrun, hparse, haligned⟩
  have htotal := @listOf_total tableScan _ _ _ _ _ _ (firstNodes 2) agesTwice
    (.inTransaction (agedGraph [5, -2])) _ inferInstance
    (ReusableIterator.tracks SearchIterator.tracks (List.range 2))
    (ReusableIterator.steady SearchIterator.steady (List.range 2))
    (ReusableIterator.seesGraph SearchIterator.seesGraph (List.range 2)) node_apart
    (fun h => by cases h) rfl rfl rfl (firstNodes_view tableScan 2 _) false
  cases htotal with
  | throw hthrow _ => exact absurd (hrun.unique hthrow) (by simp)
  | ret hret h =>
      obtain ⟨-, -, hresponse⟩ := h
      obtain ⟨rfl, rfl⟩ : _ = r ∧ _ = t := by
        have heq := hret.unique hrun
        injection heq with hr ht
        exact ⟨hr, ht⟩
      rw [hresponse, parseResponse_list] at hparse
      obtain ⟨es', hes, hanswer⟩ := hparse
      obtain rfl := listAnswer_injective hanswer
      have hages : some (Json.int (-2)) = some (Json.int 5) :=
        (uniform_of_aligned hes haligned (by decide) 1 (.node 0) (.node 1) rfl rfl :
          shownValue (agedGraph [5, -2]) (.node 1) "age" = shownValue _ (.node 0) "age")
      simp at hages

end Vdms
