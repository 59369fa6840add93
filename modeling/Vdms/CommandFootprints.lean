import Vdms.Footprints

/-!
# The Footprints of the Commands

The footprints of `build_results` and of the commands built on it. A query caches under
its identifier only after it has seen that the identifier is free, and nothing it does in
between takes it; so its caching is a step of kind `cacheNode` or `cacheEdge`.

## Main results

* `buildResults_footprint`: a result writes to the response, and a `List` result may
  change the queue and delete elements.
* `queryNode_footprint`, `queryEdge_footprint`, `addNode_footprint`, `addEdge_footprint`,
  `updateNode_typed`, `updateEdge_typed`, `deleteExpiredNodes_footprint`.
-/

namespace Vdms

open Imp Imp.Prog Platform Relation

variable [Platform]

/-- What a result may do besides driving its iterator. -/
def resultKinds : List Kind := [.respond, .report .error, .queue, .list, .purge]

/-- What a result of a type may do besides driving its iterator. -/
def ResponseType.kinds : ResponseType → List Kind
  | .list => [.respond, .queue, .list, .purge]
  | .count | .nodeID => [.respond]
  | .average | .sum => [.respond, .report .error]
  | .cached | .edgeID | .tx => [.report .error]

/-- What a query may do besides caching its result, once it has found something. -/
def foundKinds : List Kind :=
  [.move, .respond, .report .success, .report .error, .report .notUnique, .queue, .list,
    .purge]

/-- What a query with a result of a type may do besides caching it, once it has found
something. -/
def ResponseType.found (type : ResponseType) : List Kind :=
  .move :: .report .success :: .report .error :: .report .notUnique :: type.kinds

/-- What a query may do that finds nothing or fails. -/
def nothingKinds : List Kind := [.move, .report .error, .report .empty]

/-- What a query for nodes may do. -/
def queryNodeKinds : List Kind := .report .empty :: .cacheNode :: foundKinds

/-- What a query for edges may do. -/
def queryEdgeKinds : List Kind := .report .empty :: .cacheEdge :: foundKinds

omit [Platform] in
theorem driven_subset : .move :: resultKinds ⊆ foundKinds := by
  simp [resultKinds, foundKinds]

omit [Platform] in
theorem ResponseType.kinds_subset (type : ResponseType) :
    type.kinds ⊆ .move :: resultKinds := by
  cases type <;> simp [ResponseType.kinds, resultKinds]

omit [Platform] in
theorem ResponseType.kinds_found (type : ResponseType) : .move :: type.kinds ⊆ type.found := by
  cases type <;> simp [ResponseType.kinds, ResponseType.found]

omit [Platform] in
theorem ResponseType.found_subset (type : ResponseType) : type.found ⊆ foundKinds := by
  cases type <;> simp [ResponseType.kinds, ResponseType.found, foundKinds]

omit [Platform] in
/-- A result caches nothing and moves no edge reference. -/
theorem ResponseType.not_mem_kinds (type : ResponseType) {κ : Kind}
    (hκ : κ ∈ .move :: type.kinds) : κ ∉ [Kind.cacheNode, .cacheEdge, .stepEdge] := by
  cases type <;> simp only [ResponseType.kinds, List.mem_cons, List.not_mem_nil, or_false] at hκ
  all_goals rcases hκ with rfl | rfl | rfl | rfl | rfl <;> simp

/-- What a query for nodes may do, given the type of its result. -/
def QueryNode.kinds (qn : QueryNode) : List Kind :=
  .report .empty :: .cacheNode :: qn.results.rType.found

/-- What a query for edges may do, given the type of its result. -/
def QueryEdge.kinds (qe : QueryEdge) : List Kind :=
  .report .empty :: .cacheEdge :: .respond :: qe.results.rType.found

omit [Platform] in
theorem QueryNode.kinds_subset (qn : QueryNode) : qn.kinds ⊆ queryNodeKinds :=
  List.cons_subset_cons _ (List.cons_subset_cons _ (ResponseType.found_subset _))

omit [Platform] in
theorem QueryEdge.kinds_subset (qe : QueryEdge) : qe.kinds ⊆ queryEdgeKinds := by
  refine List.cons_subset_cons _ (List.cons_subset_cons _ ?_)
  exact List.cons_subset.2 ⟨by simp [foundKinds], ResponseType.found_subset _⟩

/-! ### Responses -/

theorem modifyResponse_footprint {f : Response → Response}
    (hf : ∀ r, (f r).errorCode = r.errorCode) : Footprint [.respond] (modifyResponse f) :=
  Footprint.modify (List.mem_singleton.2 rfl) fun _ => .respond f hf

theorem nodeEdge_footprint :
    Footprint [.respond] (modifyResponse fun r => { r with nodeEdge := false }) :=
  modifyResponse_footprint fun _ => rfl

theorem report_footprint {f : Response → Response} {code : ErrorCode}
    (hf : ∀ r, (f r).errorCode = code) : Footprint [.report code] (modifyResponse f) :=
  Footprint.modify (List.mem_singleton.2 rfl) fun _ => .report f hf

theorem setError_footprint (code : ErrorCode) (msg : String) :
    Footprint [.report code] (setError code msg) :=
  report_footprint fun _ => rfl

theorem setType_footprint (type : ResponseType) (code : ErrorCode) :
    Footprint [.report code] (setType type code) :=
  report_footprint fun _ => rfl

theorem setInt_footprint (n : ℕ) : Footprint [.respond] (setInt n) :=
  modifyResponse_footprint fun _ => rfl

theorem setFloat_footprint (x : Double) : Footprint [.respond] (setFloat x) :=
  modifyResponse_footprint fun _ => rfl

theorem fail_footprint (code : ErrorCode) (msg : String) :
    Footprint [.report code] (fail code msg) :=
  (setError_footprint code msg).bind fun _ => Footprint.pure _

/-! ### The rows of a list -/

theorem addRow_footprint (x : Element) (keys : List String) :
    Footprint [.respond] (addRow x keys) :=
  Footprint.forEach fun _ => (checkProperty_readOnly _ _).footprint.bind fun _ =>
    modifyResponse_footprint fun _ => rfl

theorem Does.purges {K : List Kind} {s t : Handler} {x : Element} (h : Does K s t)
    (hK : ∀ κ ∈ K, κ ∉ [Kind.add, .update, .purge, .expire]) (hx : s.Purges x) :
    t.Purges x := by
  rw [Handler.Purges] at hx ⊢
  rw [h.resultdeletion_eq, h.db_eq hK]
  exact hx

theorem noteFile_footprintAt {s : Handler} {x : Element} {key : String} (hx : s.Purges x)
    (hkey : key ∈ pathProps) : FootprintAt [.queue] (noteFile x key) s := by
  refine FootprintAt.get_bind ?_
  beta_reduce
  cases hv : s.db.props x (stringID key) with
  | none => exact Footprint.pure _ s
  | some v =>
      cases v with
      | string file => exact FootprintAt.modify (List.mem_singleton.2 rfl) (.noteFile hx hkey hv)
      | _ => exact Footprint.throw _ s

theorem purge_footprintAt {s : Handler} {x : Element} (hx : s.Purges x) :
    FootprintAt [.queue, .purge] (purge x) s := by
  have hpurges : ∀ {t}, Does [.queue] s t → t.Purges x := fun ht => ht.purges (by simp) hx
  have hqueue : FootprintAt [.queue] (modify fun s : Handler =>
      { s with expirationQueue := deleteByValue s.expirationQueue x }) s :=
    FootprintAt.modify (List.mem_singleton.2 rfl) (.unqueue hx)
  refine hqueue.bind (by simp) fun _ t ht => ?_
  have hfiles : FootprintAt [.queue] (forEach pathProps fun key => noteFile x key) t := by
    refine Sat.forEach (I := fun u => Does [.queue] t u) (fun key hkey u hu => ?_) .refl
    exact Sat.mono (noteFile_footprintAt (hpurges (ht.trans hu)) hkey) (fun _ _ h => hu.trans h)
      fun _ _ h => hu.trans h
  refine hfiles.bind (by simp) fun _ u hu => ?_
  refine FootprintAt.read_bind (call_readOnly _) fun _ _ => ?_
  exact FootprintAt.modify (by simp) (.purge (hpurges (ht.trans hu)))

theorem purgeOrKeep_footprint (x : Element) :
    Footprint [.queue, .list, .purge] (purgeOrKeep x) := by
  intro s
  refine FootprintAt.get_bind (FootprintAt.ite (fun hx => ?_) fun hx => ?_)
  · exact (purge_footprintAt hx).mono (by simp)
  · exact FootprintAt.modify (by simp) (.list hx)

theorem enqueueExpiration_footprintAt {s : Handler} (hs : s.autodeleteInit = true)
    (x : Element) : FootprintAt [.queue] (enqueueExpiration x) s := by
  refine FootprintAt.read_bind (getProperty_readOnly _ _) fun v _ => ?_
  refine FootprintAt.read_bind (intValue_readOnly v) fun z _ => ?_
  exact FootprintAt.modify (List.mem_singleton.2 rfl) (.enqueue _ hs)

theorem listElement_footprint (x : Element) (keys : List String) :
    Footprint [.respond, .queue, .list, .purge] (listElement x keys) := by
  refine ((addRow_footprint x keys).mono (by simp)).bind fun _ => ?_
  refine ((purgeOrKeep_footprint x).mono (by simp)).bind fun _ s => ?_
  refine FootprintAt.get_bind (FootprintAt.ite (fun hs => ?_) fun _ => Footprint.pure _ s)
  exact (enqueueExpiration_footprintAt hs x).mono (by simp)

/-! ### Results -/

section Results

variable {ι τ : Type} {K : List Kind} {I : Iter Handler PMGDException ι τ}
  (el : τ → Element)

theorem upTo_footprint {α : Type} (h : IterFootprint K I) (limit : Option ℕ)
    {f : α → τ → Handling α} (hf : ∀ a x, Footprint K (f a x)) (count : α → ℕ) (ni : ι)
    (a : α) : Footprint K (upTo I limit f count ni a) := by
  refine Footprint.loop (fun p => Footprint.ite ?_ (Footprint.pure _)) _
  refine (h.ref _).bind fun x => (hf _ x).bind fun a => Footprint.ite (Footprint.pure _) ?_
  exact (h.next _).bind fun ni => Footprint.pure _

theorem accumulate_footprint {α : Type} (h : IterFootprint K I) (hK : .respond ∈ K)
    (limit : Option ℕ) (key : StringID) {add : α → Property → Handling α}
    (hadd : ∀ a v, ReadOnly (add a v)) (zero : α) {report : α → ℕ → Handling Unit}
    (hreport : ∀ a n, Footprint [.respond] (report a n)) (ni : ι) :
    Footprint K (accumulate I el limit key add zero report ni) := by
  refine Footprint.bind (upTo_footprint h limit (fun p x => ?_) _ _ _) fun p => ?_
  · refine (getProperty_readOnly _ _).footprint.bind fun v => ?_
    exact (hadd _ v).footprint.bind fun sum => Footprint.pure _
  · exact ((hreport _ _).mono (by simpa using hK)).bind fun _ => Footprint.pure _

theorem addInteger_readOnly (sum : ℕ) (v : Property) : ReadOnly (addInteger sum v) :=
  (intValue_readOnly v).bind fun _ => Footprint.pure _

theorem addFloat_readOnly (sum : Double) (v : Property) : ReadOnly (addFloat sum v) :=
  (floatValue_readOnly v).bind fun _ => Footprint.pure _

theorem buildSum_footprint (h : IterFootprint K I) (hK : [.respond, .report .error] ⊆ K)
    (avg : Bool) (limit : Option ℕ) (qn : ResultInfo) (ni : ι) :
    Footprint K (buildSum I el avg limit qn ni) := by
  have hrespond : .respond ∈ K := hK (by simp)
  have hnothing : Footprint [.respond] (reportNothing avg) :=
    Footprint.ite (setFloat_footprint _) (setInt_footprint _)
  refine Footprint.ite ?_ ((hnothing.mono (by simpa using hrespond)).bind fun _ =>
    Footprint.pure _)
  cases qn.responseKeys with
  | nil => exact Footprint.stuck
  | cons key keys =>
      refine (h.ref ni).bind fun x => (getProperty_readOnly _ _).footprint.bind fun v => ?_
      cases v with
      | integer z =>
          refine accumulate_footprint el h hrespond limit _ addInteger_readOnly _
            (fun _ _ => ?_) ni
          exact Footprint.ite (setFloat_footprint _) (setInt_footprint _)
      | float y =>
          refine accumulate_footprint el h hrespond limit _ addFloat_readOnly _
            (fun _ _ => ?_) ni
          exact Footprint.ite (setFloat_footprint _) (setFloat_footprint _)
      | _ =>
          refine ((setError_footprint _ _).mono ?_).bind fun _ => Footprint.pure _
          exact List.cons_subset.2 ⟨hK (by simp), List.nil_subset _⟩

/-- **Results.** Besides driving its iterator, a result writes to the response, and a
`List` result may change the queue, and list or delete elements. -/
theorem buildResults_footprint (h : IterFootprint K I) (qn : ResultInfo)
    (hK : qn.rType.kinds ⊆ K) (ni : ι) : Footprint K (buildResults I el ni qn) := by
  rw [buildResults]
  cases hr : qn.rType <;> rw [hr] at hK
  case list =>
    refine Footprint.bind (upTo_footprint h _ (fun count x => ?_) _ _ _) fun p => ?_
    · exact ((listElement_footprint _ _).mono hK).bind fun _ => Footprint.pure _
    · refine Footprint.bind ((setInt_footprint _).mono ?_) fun _ => Footprint.pure _
      exact List.cons_subset.2 ⟨hK (by simp [ResponseType.kinds]), List.nil_subset _⟩
  case count =>
    refine Footprint.bind (upTo_footprint h _ (fun _ _ => Footprint.pure _) _ _ _) fun p => ?_
    exact ((setInt_footprint _).mono hK).bind fun _ => Footprint.pure _
  case nodeID =>
    refine Footprint.bind (upTo_footprint h _ (fun _ _ => ?_) _ _ _) fun _ => Footprint.pure _
    exact (setInt_footprint _).mono hK
  case average => exact buildSum_footprint el h hK _ _ _ _
  case sum => exact buildSum_footprint el h hK _ _ _ _
  all_goals exact ((setError_footprint _ _).mono hK).bind fun _ => Footprint.pure _

theorem sortResults_footprint (h : IterFootprint K I) (qr : ResultInfo)
    (tni : ReusableIterator ι τ) : Footprint K (sortResults I el qr tni) :=
  Footprint.ite (ReusableIterator.sort_footprint h el _ _ tni) (Footprint.pure _)

theorem reusableResults_footprint (h : IterFootprint K I) (qr : ResultInfo)
    (hK : qr.rType.kinds ⊆ K) (tni : ReusableIterator ι τ) :
    Footprint K (reusableResults I el qr tni) :=
  Footprint.ite (buildResults_footprint el (ReusableIterator.iter_footprint h) qr hK tni)
    (Footprint.pure _)

end Results

/-! ### Search for nodes -/

/-- The identifier of a query for nodes, if it has one, is free. -/
def Handler.FreeNode (s : Handler) (id : ℤ) : Prop :=
  0 ≤ id → s.cachedNodes (toInt id) = none

/-- The identifier of a query for edges, if it has one, is free. -/
def Handler.FreeEdge (s : Handler) (id : ℤ) : Prop :=
  0 ≤ id → s.cachedEdges (toInt id) = none

omit [Platform] in
theorem Handler.freeNode_of_not {s : Handler} {id : ℤ}
    (h : ¬ (0 ≤ id ∧ (s.cachedNodes (toInt id)).isSome)) : s.FreeNode id := fun hid => by
  by_contra hne
  exact h ⟨hid, Option.isSome_iff_ne_none.2 hne⟩

omit [Platform] in
theorem Handler.freeEdge_of_not {s : Handler} {id : ℤ}
    (h : ¬ (0 ≤ id ∧ (s.cachedEdges (toInt id)).isSome)) : s.FreeEdge id := fun hid => by
  by_contra hne
  exact h ⟨hid, Option.isSome_iff_ne_none.2 hne⟩

theorem Does.freeNode {K : List Kind} {s t : Handler} {id : ℤ} (h : Does K s t)
    (hK : .cacheNode ∉ K) (hs : s.FreeNode id) : t.FreeNode id :=
  fun hid => h.cachedNodes_none hK (hs hid)

theorem Does.freeEdge {K : List Kind} {s t : Handler} {id : ℤ} (h : Does K s t)
    (hK : ∀ κ ∈ K, κ ∉ [Kind.cacheEdge, .stepEdge]) (hs : s.FreeEdge id) : t.FreeEdge id :=
  fun hid => by rw [h.cachedEdges_eq hK, hs hid]

theorem search_readOnly (qc : Constraints) : ReadOnly (ofExcept qc.search) :=
  ofExcept_readOnly _

theorem resetStart_footprint (start : Start) : Footprint [.move] (resetStart start) := by
  cases start with
  | none => exact Footprint.pure _
  | some p => exact resetCached_footprint p.2

theorem queryNodeSearch_footprint (qn : QueryNode) (start : Start) :
    Footprint [.move] (queryNodeSearch qn start) := by
  refine (search_readOnly _).footprint.bind fun e => ?_
  cases start with
  | none => exact (evalNodes_readOnly e).footprint.bind fun _ => Footprint.pure _
  | some p =>
      refine (ofExcept_readOnly _).footprint.bind fun preds => ?_
      exact (MultiNeighborIteratorImpl.findNext_footprint _).bind fun _ => Footprint.pure _

theorem traverseLinked_footprint (start : Start)
    (tni : ReusableIterator NodeIterator NodeID) :
    Footprint [.move] (traverseLinked start tni) :=
  Footprint.ite (ReusableIterator.traverseAll_footprint NodeIterator.footprint tni)
    (Footprint.pure _)

section QueryNode

variable {s : Handler} {qn : QueryNode}

theorem cacheResult_footprintAt (start : Start)
    (tni : ReusableIterator NodeIterator NodeID) (hs : s.FreeNode qn.identifier) :
    FootprintAt [.move, .cacheNode] (cacheResult qn start tni) s := by
  refine FootprintAt.ite (fun hid => ?_) fun _ => Footprint.pure _ s
  refine (traverseLinked_footprint start tni s).bind (by simp) fun tni t ht => ?_
  exact FootprintAt.modify (by simp) (.cacheNode _ (ht.freeNode (by simp) hs hid))

theorem queryNodeFinish_footprintAt (start : Start)
    (tni : ReusableIterator NodeIterator NodeID) (hs : s.FreeNode qn.identifier) :
    FootprintAt (.cacheNode :: qn.results.rType.found) (queryNodeFinish qn start tni) s := by
  have hsort := sortResults_footprint Element.node NodeIterator.footprint qn.results
  have hnode : IterFootprint (.move :: qn.results.rType.kinds) NodeIterator.iter :=
    NodeIterator.footprint.mono (by simp)
  have hres := reusableResults_footprint Element.node hnode qn.results
    (List.subset_cons_self _ _)
  refine (hsort tni s).bind (by simp [ResponseType.found]) fun tni t ht => ?_
  refine (hres tni t).bind (List.subset_cons_of_subset _ (ResponseType.kinds_found _))
    fun tni u hu => ?_
  have hfree : u.FreeNode qn.identifier :=
    hu.freeNode (fun h => by simpa using ResponseType.not_mem_kinds _ h)
      (ht.freeNode (by simp) hs)
  refine (cacheResult_footprintAt start tni hfree).bind (by simp [ResponseType.found])
    fun _ v _ => ?_
  exact ((resetStart_footprint start).mono (by simp [ResponseType.found])).bind
    (fun _ => Footprint.pure _) v

theorem queryNodeReusable_footprintAt (start : Start) (ni : NodeIterator)
    (hs : s.FreeNode qn.identifier) :
    FootprintAt (.cacheNode :: qn.results.rType.found) (queryNodeReusable qn start ni) s := by
  have hnext := ReusableIterator.next_footprint (τ := NodeID) NodeIterator.footprint
  refine (hnext _ s).bind (by simp [ResponseType.found]) fun tni t ht => ?_
  have hfree := ht.freeNode (by simp) hs
  refine FootprintAt.ite (fun _ => ?_) fun _ => queryNodeFinish_footprintAt start tni hfree
  refine (hnext tni t).bind (by simp [ResponseType.found]) fun tni u hu => ?_
  refine FootprintAt.ite (fun _ => ?_) fun _ =>
    queryNodeFinish_footprintAt start _ (hu.freeNode (by simp) hfree)
  refine Footprint.bind ((setError_footprint _ _).mono (by simp [ResponseType.found]))
    (fun _ => ?_) u
  exact ((resetStart_footprint start).mono (by simp [ResponseType.found])).bind
    fun _ => Footprint.pure _

theorem queryNodeFound_footprintAt (start : Start) (ni : NodeIterator)
    (hs : s.FreeNode qn.identifier) :
    FootprintAt (.cacheNode :: qn.results.rType.found) (queryNodeFound qn start ni) s := by
  refine (setType_footprint _ _ s).bind (by simp [ResponseType.found]) fun _ t ht => ?_
  refine FootprintAt.ite (fun _ => ?_) fun _ =>
    queryNodeReusable_footprintAt start ni (ht.freeNode (by simp) hs)
  have hnode : IterFootprint (.move :: qn.results.rType.kinds) NodeIterator.iter :=
    NodeIterator.footprint.mono (by simp)
  have hres := buildResults_footprint Element.node hnode qn.results
    (List.subset_cons_self _ _) ni
  refine Footprint.bind (hres.mono (List.subset_cons_of_subset _ (ResponseType.kinds_found _)))
    (fun _ => ?_) t
  exact ((resetStart_footprint start).mono (by simp [ResponseType.found])).bind
    fun _ => Footprint.pure _

/-- A query with a result of the type either finds nothing or fails, and then caches nothing,
or it does not report that it is empty. -/
def NodeQueried (type : ResponseType) (s t : Handler) : Prop :=
  Does nothingKinds s t ∨ Does (.cacheNode :: type.found) s t

theorem queryNodeFrom_queried (start : Start) (hs : s.FreeNode qn.identifier) :
    Sat (queryNodeFrom qn start) s (fun _ => NodeQueried qn.results.rType s)
      fun _ => NodeQueried qn.results.rType s := by
  refine Sat.bind (Sat.mono (queryNodeSearch_footprint qn start s) (fun _ _ h => h)
    fun _ t h => .inl (h.mono (by simp [nothingKinds]))) fun ni t ht => ?_
  refine Sat.ite (fun _ => ?_) fun _ => ?_
  · have hnothing : Footprint nothingKinds (do
        setError .empty "Null search iterator"
        resetStart start
        pure (-1) : Handling ℤ) := by
      refine Footprint.bind ((setError_footprint _ _).mono (by simp [nothingKinds]))
        fun _ => ?_
      exact ((resetStart_footprint start).mono (by simp [nothingKinds])).bind
        fun _ => Footprint.pure _
    have ht' : Does nothingKinds s t := ht.mono (by simp [nothingKinds])
    exact Sat.mono (hnothing t) (fun _ _ h => .inl (ht'.trans h))
      fun _ _ h => .inl (ht'.trans h)
  · have hfound := queryNodeFound_footprintAt start ni (ht.freeNode (by simp) hs)
    have ht' : Does (.cacheNode :: qn.results.rType.found) s t :=
      ht.mono (by simp [ResponseType.found])
    exact Sat.mono hfound (fun _ _ h => .inr (ht'.trans h)) fun _ _ h => .inr (ht'.trans h)

theorem queryNode_queried (qn : QueryNode) (s : Handler) :
    Sat (queryNode qn) s (fun _ => NodeQueried qn.results.rType s)
      fun _ => NodeQueried qn.results.rType s := by
  have hfail : ∀ msg, Sat (fail .error msg) s (fun _ => NodeQueried qn.results.rType s)
      fun _ => NodeQueried qn.results.rType s := fun msg =>
    Sat.mono (((fail_footprint _ msg).mono (by simp [nothingKinds])) s)
      (fun _ _ h => .inl h) fun _ _ h => .inl h
  refine Sat.get_bind (Sat.ite (fun _ => hfail _) fun hused => ?_)
  have hfree := Handler.freeNode_of_not hused
  cases qn.link with
  | none => exact queryNodeFrom_queried none hfree
  | some link =>
      refine Sat.ite (fun _ => hfail _) fun _ => ?_
      exact Sat.ite (fun _ => hfail _) fun _ => queryNodeFrom_queried _ hfree

theorem NodeQueried.typed {type : ResponseType} {s t : Handler} (h : NodeQueried type s t) :
    Does (.report .empty :: .cacheNode :: type.found) s t := by
  rcases h with h | h
  · exact h.mono (by simp [nothingKinds, ResponseType.found])
  · exact h.mono (by simp)

/-- **Queries for nodes.** A query caches a reference only under a free identifier; the
references there are it only moves. -/
theorem queryNode_typed (qn : QueryNode) : Footprint qn.kinds (queryNode qn) :=
  fun s => Sat.mono (queryNode_queried qn s) (fun _ _ h => h.typed) fun _ _ h => h.typed

theorem queryNode_footprint (qn : QueryNode) : Footprint queryNodeKinds (queryNode qn) :=
  (queryNode_typed qn).mono qn.kinds_subset

/-- A query that reports that it is empty has taken no identifier. -/
theorem NodeQueried.freeNode {type : ResponseType} {s t : Handler} {id : ℤ}
    (h : NodeQueried type s t) (hs : s.FreeNode id) (hcode : s.response.errorCode ≠ .empty)
    (ht : t.response.errorCode = .empty) : t.FreeNode id := by
  rcases h with h | h
  · exact h.freeNode (by simp [nothingKinds]) hs
  · rcases h.errorCode_eq with heq | hmem
    · rw [ht] at heq
      exact absurd heq.symm hcode
    · rw [ht] at hmem
      have hmem := List.cons_subset_cons _ type.found_subset hmem
      simp [foundKinds] at hmem

end QueryNode

/-! ### Search for edges -/

theorem queryEdgeSearch_footprint (qe : QueryEdge) :
    Footprint [.move] (queryEdgeSearch qe) :=
  Footprint.get_bind fun _ => (search_readOnly _).footprint.bind fun _ =>
    (NodeEdgeIteratorImpl.new_footprint _ _ _).bind fun _ => Footprint.pure _

section QueryEdge

variable {s : Handler} {qe : QueryEdge}

theorem cacheEdgeResult_footprintAt (tei : ReusableIterator NodeEdgeIteratorImpl EdgeID)
    (hs : s.FreeEdge qe.identifier) :
    FootprintAt [.move, .cacheEdge] (cacheEdgeResult qe tei) s := by
  have hall := ReusableIterator.traverseAll_footprint NodeEdgeIteratorImpl.footprint tei
  refine FootprintAt.ite (fun hid => ?_) fun _ => Footprint.pure _ s
  refine (hall s).bind (by simp) fun tei t ht => ?_
  exact FootprintAt.modify (by simp) (.cacheEdge _ (ht.freeEdge (by simp) hs hid))

theorem queryEdgeFinish_footprintAt (refs : List ℤ)
    (tei : ReusableIterator NodeEdgeIteratorImpl EdgeID) (hs : s.FreeEdge qe.identifier) :
    FootprintAt (.cacheEdge :: qe.results.rType.found) (queryEdgeFinish qe refs tei) s := by
  have hsort := sortResults_footprint Element.edge NodeEdgeIteratorImpl.footprint qe.results
  have hedge : IterFootprint (.move :: qe.results.rType.kinds) NodeEdgeIteratorImpl.iter :=
    NodeEdgeIteratorImpl.footprint.mono (by simp)
  have hres := reusableResults_footprint Element.edge hedge qe.results
    (List.subset_cons_self _ _)
  refine (hsort tei s).bind (by simp [ResponseType.found]) fun tei t ht => ?_
  refine (hres tei t).bind (List.subset_cons_of_subset _ (ResponseType.kinds_found _))
    fun tei u hu => ?_
  have hfree : u.FreeEdge qe.identifier :=
    hu.freeEdge (fun κ hκ h => ResponseType.not_mem_kinds _ hκ (List.mem_cons_of_mem _ h))
      (ht.freeEdge (by simp) hs)
  refine (cacheEdgeResult_footprintAt tei hfree).bind (by simp [ResponseType.found])
    fun _ v _ => ?_
  exact ((resetAll_footprint refs).mono (by simp [ResponseType.found])).bind
    (fun _ => Footprint.pure _) v

theorem queryEdgeReusable_footprintAt (refs : List ℤ) (ei : NodeEdgeIteratorImpl)
    (hs : s.FreeEdge qe.identifier) :
    FootprintAt (.cacheEdge :: qe.results.rType.found) (queryEdgeReusable qe refs ei) s := by
  have hnext := ReusableIterator.next_footprint (τ := EdgeID) NodeEdgeIteratorImpl.footprint
  refine (hnext _ s).bind (by simp [ResponseType.found]) fun tei t ht => ?_
  have hfree := ht.freeEdge (by simp) hs
  refine FootprintAt.ite (fun _ => ?_) fun _ => queryEdgeFinish_footprintAt refs tei hfree
  refine (hnext tei t).bind (by simp [ResponseType.found]) fun tei u hu => ?_
  refine FootprintAt.ite (fun _ => ?_) fun _ =>
    queryEdgeFinish_footprintAt refs _ (hu.freeEdge (by simp) hfree)
  refine Footprint.bind ((setError_footprint _ _).mono (by simp [ResponseType.found]))
    (fun _ => ?_) u
  exact ((resetAll_footprint refs).mono (by simp [ResponseType.found])).bind
    fun _ => Footprint.pure _

theorem queryEdgeFound_footprintAt (ei : NodeEdgeIteratorImpl) (refs : List ℤ)
    (hs : s.FreeEdge qe.identifier) :
    FootprintAt (.cacheEdge :: qe.results.rType.found) (queryEdgeFound qe ei refs) s := by
  refine (setType_footprint _ _ s).bind (by simp [ResponseType.found]) fun _ t ht => ?_
  refine FootprintAt.ite (fun _ => ?_) fun _ =>
    queryEdgeReusable_footprintAt refs ei (ht.freeEdge (by simp) hs)
  have hedge : IterFootprint (.move :: qe.results.rType.kinds) NodeEdgeIteratorImpl.iter :=
    NodeEdgeIteratorImpl.footprint.mono (by simp)
  have hres := buildResults_footprint Element.edge hedge qe.results
    (List.subset_cons_self _ _) ei
  refine Footprint.bind (hres.mono (List.subset_cons_of_subset _ (ResponseType.kinds_found _)))
    (fun _ => ?_) t
  exact ((resetAll_footprint refs).mono (by simp [ResponseType.found])).bind
    fun _ => Footprint.pure _

theorem queryEdgeFrom_footprintAt (ei : NodeEdgeIteratorImpl) (refs : List ℤ)
    (hs : s.FreeEdge qe.identifier) :
    FootprintAt (.report .empty :: .cacheEdge :: qe.results.rType.found)
      (queryEdgeFrom qe ei refs) s := by
  refine FootprintAt.ite (fun _ => ?_) fun _ => ?_
  · refine Footprint.bind ((setError_footprint _ _).mono (by simp)) (fun _ => ?_) s
    exact ((resetAll_footprint refs).mono (by simp [ResponseType.found])).bind
      fun _ => Footprint.pure _
  · exact (queryEdgeFound_footprintAt ei refs hs).mono (by simp)

/-- The footprint of a query for edges, given the type of its result. -/
theorem queryEdge_typed (qe : QueryEdge) : Footprint qe.kinds (queryEdge qe) := by
  intro s
  have hfail : ∀ msg, Footprint qe.kinds (fail .error msg) := fun msg =>
    (fail_footprint _ msg).mono (by simp [QueryEdge.kinds, ResponseType.found])
  refine (nodeEdge_footprint s).bind (by simp [QueryEdge.kinds]) fun _ t _ => ?_
  refine FootprintAt.get_bind (FootprintAt.ite (fun _ => hfail _ t) fun _ => ?_)
  refine FootprintAt.ite (fun _ => hfail _ t) fun hused => ?_
  have hfree := Handler.freeEdge_of_not hused
  refine (queryEdgeSearch_footprint qe t).bind (by simp [QueryEdge.kinds, ResponseType.found])
    fun p u hu => ?_
  refine (queryEdgeFrom_footprintAt p.1 p.2 (hu.freeEdge (by simp) hfree)).mono ?_
  exact List.cons_subset_cons _ (List.cons_subset_cons _ (List.subset_cons_self _ _))

/-- **Queries for edges.** A query caches a reference only under a free identifier, and
it only moves the node references. -/
theorem queryEdge_footprint (qe : QueryEdge) : Footprint queryEdgeKinds (queryEdge qe) :=
  (queryEdge_typed qe).mono qe.kinds_subset

end QueryEdge

/-! ### Additions and updates -/

theorem setElementProperty_footprint (x : Element) (key : StringID) (v : Property) :
    Footprint [.update] (setElementProperty x key v) :=
  (call_readOnly _).footprint.bind fun _ =>
    Footprint.modify (List.mem_singleton.2 rfl) fun _ => .update x _

theorem removeElementProperty_footprint (x : Element) (key : StringID) :
    Footprint [.update] (removeElementProperty x key) :=
  (call_readOnly _).footprint.bind fun _ =>
    Footprint.modify (List.mem_singleton.2 rfl) fun _ => .update x _

theorem setProperty_footprint (x : Element) (p : PMGDProp) :
    Footprint [.update] (setProperty x p) := by
  refine (ofExcept_readOnly _).footprint.bind fun v => ?_
  cases v with
  | none => exact Footprint.pure _
  | some v => exact setElementProperty_footprint x _ v

theorem setNodeProperties_footprint (x : Element) (flag : Bool) (expiration : ℕ)
    (ps : List PMGDProp) :
    Footprint [.update] (setNodeProperties x flag expiration ps) := by
  induction ps generalizing expiration with
  | nil => exact Footprint.pure _
  | cons p ps ih => exact (setProperty_footprint x p).bind fun _ => ih _

theorem updateElement_footprint (x : Element) (properties : List PMGDProp)
    (removeProps : List String) :
    Footprint [.update] (updateElement x properties removeProps) :=
  (Footprint.forEach fun p => setProperty_footprint x p).bind fun _ =>
    Footprint.forEach fun _ => removeElementProperty_footprint x _

/-- What an addition of a node may do. -/
def addNodeKinds : List Kind :=
  .enter :: .add :: .update :: .report .alreadyExists :: queryNodeKinds

/-- What the addition of a new node may do. Without the flag it is not entered. -/
def AddNode.newKinds (cn : AddNode) : List Kind :=
  [.add, .cacheNode, .update, .report .success, .respond] ++
    if cn.expirationFlag then [.enter] else []

theorem dbAddNode_footprint (tag : StringID) : Footprint [.add] (dbAddNode tag) :=
  (call_readOnly _).footprint.bind fun _ => Footprint.get_bind fun _ =>
    (Footprint.modify (List.mem_singleton.2 rfl) fun _ => .addNode tag).bind fun _ =>
      Footprint.pure _

omit [Platform] in
theorem AddNode.newKinds_subset (cn : AddNode) : cn.newKinds ⊆ addNodeKinds := by
  rw [AddNode.newKinds]
  cases cn.expirationFlag <;> simp [addNodeKinds, queryNodeKinds, foundKinds]

theorem addNewNode_footprintAt {s : Handler} {cn : AddNode} (hs : s.FreeNode cn.identifier) :
    FootprintAt cn.newKinds (addNewNode cn) s := by
  refine (dbAddNode_footprint _ s).bind (by simp [AddNode.newKinds]) fun n t ht => ?_
  have hcache : FootprintAt [.cacheNode] (when (0 ≤ cn.identifier)
      (modify fun s : Handler => s.cacheNode (toInt cn.identifier) (.ofElement n))) t :=
    FootprintAt.ite (fun hid => FootprintAt.modify (by simp)
      (.cacheNode _ (ht.freeNode (by simp) hs hid))) fun _ => Footprint.pure _ t
  refine hcache.bind (by simp [AddNode.newKinds]) fun _ u _ => ?_
  refine Footprint.bind ((setNodeProperties_footprint _ _ _ _).mono
    (by simp [AddNode.newKinds])) (fun expiration => ?_) u
  refine Footprint.bind (fun v => ?_) fun _ => ?_
  · refine FootprintAt.ite (fun hflag => ?_) fun _ => Footprint.pure _ v
    exact FootprintAt.modify (by simp [AddNode.newKinds, hflag]) (.enter _)
  · refine ((setType_footprint _ _).mono (by simp [AddNode.newKinds])).bind fun _ => ?_
    exact ((setInt_footprint _).mono (by simp [AddNode.newKinds])).bind fun _ => Footprint.pure _

/-- What an addition of a node may do, given its query. -/
def AddNode.kinds (cn : AddNode) : List Kind :=
  .report .error :: .report .alreadyExists :: (cn.newKinds ++ cn.queryNode.elim [] QueryNode.kinds)

omit [Platform] in
theorem AddNode.kinds_subset (cn : AddNode) : cn.kinds ⊆ addNodeKinds := by
  have hquery : cn.queryNode.elim [] QueryNode.kinds ⊆ addNodeKinds := by
    have hsub : queryNodeKinds ⊆ addNodeKinds := fun κ hκ => by simp [addNodeKinds, hκ]
    cases cn.queryNode with
    | none => exact List.nil_subset _
    | some qn => exact List.Subset.trans qn.kinds_subset hsub
  refine List.cons_subset.2 ⟨by simp [addNodeKinds, queryNodeKinds, foundKinds], ?_⟩
  refine List.cons_subset.2 ⟨by simp [addNodeKinds], ?_⟩
  exact List.append_subset.2 ⟨cn.newKinds_subset, hquery⟩

/-- **Additions of nodes.** If the query of a conditional addition comes out empty it has
not taken the identifier of the addition. -/
theorem addNode_typed (cn : AddNode) {s : Handler}
    (hcode : s.response.errorCode ≠ .empty) : FootprintAt cn.kinds (addNode cn) s := by
  have hfail : ∀ msg, Footprint cn.kinds (fail .error msg) := fun msg =>
    (fail_footprint _ msg).mono (by simp [AddNode.kinds])
  have hnew : cn.newKinds ⊆ cn.kinds := fun κ hκ => by simp [AddNode.kinds, hκ]
  refine FootprintAt.get_bind (FootprintAt.ite (fun _ => hfail _ s) fun hused => ?_)
  have hfree := Handler.freeNode_of_not hused
  cases hqn : cn.queryNode with
  | none => exact (addNewNode_footprintAt hfree).mono hnew
  | some qn =>
      have hmono : ∀ {t}, NodeQueried qn.results.rType s t → Does cn.kinds s t := fun h =>
        h.typed.mono fun κ hκ => by simp [AddNode.kinds, hqn, QueryNode.kinds, hκ]
      refine Sat.bind (Sat.mono (queryNode_queried qn s) (fun _ _ h => h)
        fun _ _ h => hmono h) fun _ t ht => ?_
      have hrest : FootprintAt cn.kinds (do
          let s ← get
          if s.response.rType = .nodeID ∧ s.response.errorCode = .success then do
            modifyResponse fun r => { r with errorCode := .alreadyExists }
            pure 0
          else if s.response.errorCode ≠ .empty then pure (-1)
          else addNewNode cn) t := by
        refine FootprintAt.get_bind (FootprintAt.ite (fun _ => ?_) fun _ => ?_)
        · refine Footprint.bind ((report_footprint fun _ => rfl).mono ?_)
            (fun _ => Footprint.pure _) t
          simp [AddNode.kinds]
        · refine FootprintAt.ite (fun _ => Footprint.pure _ t) fun hempty => ?_
          exact (addNewNode_footprintAt (ht.freeNode hfree hcode (not_not.1 hempty))).mono hnew
      exact Sat.mono hrest (fun _ _ h => (hmono ht).trans h) fun _ _ h => (hmono ht).trans h

/-- What an addition of edges may do. -/
def addEdgeKinds : List Kind :=
  [.respond, .report .error, .report .empty, .report .success, .move, .add, .update,
    .cacheEdge]

theorem dbAddEdge_footprint (src dst : NodeID) (tag : StringID) :
    Footprint [.add] (dbAddEdge src dst tag) :=
  (call_readOnly _).footprint.bind fun _ => Footprint.get_bind fun _ =>
    (Footprint.modify (List.mem_singleton.2 rfl) fun _ => .addEdge src dst tag).bind fun _ =>
      Footprint.pure _

theorem addEdgeBetween_footprint (ce : AddEdge) (acc : ℕ × List EdgeID) (src dst : NodeID) :
    Footprint [.add, .update] (addEdgeBetween ce acc src dst) := by
  refine ((dbAddEdge_footprint _ _ _).mono (by simp)).bind fun e => ?_
  refine Footprint.bind (Footprint.forEach fun p => ?_) fun _ => Footprint.pure _
  exact (setProperty_footprint _ p).mono (by simp)

theorem addEdgesBetween_footprint (ce : AddEdge) (src dst : ℤ) :
    Footprint [.move, .add, .update] (addEdgesBetween ce src dst) := by
  refine Footprint.bind (forCached_footprint (by simp) (fun acc n => ?_) _) fun acc => ?_
  · refine Footprint.bind (forCached_footprint (by simp) (fun acc m => ?_) _) fun acc => ?_
    · exact (addEdgeBetween_footprint ce acc n m).mono (by simp)
    · exact ((resetCached_footprint _).mono (by simp)).bind fun _ => Footprint.pure _
  · exact ((resetCached_footprint _).mono (by simp)).bind fun _ => Footprint.pure _

theorem addEdgeFinish_footprintAt {s : Handler} {ce : AddEdge} (eid : ℕ)
    (added : List EdgeID) (hs : s.FreeEdge ce.identifier) :
    FootprintAt addEdgeKinds (addEdgeFinish ce eid added) s := by
  have hcache : FootprintAt [.cacheEdge] (when (0 ≤ ce.identifier)
      (modify fun s : Handler => s.cacheEdge (toInt ce.identifier) ⟨none, [], added⟩)) s :=
    FootprintAt.ite (fun hid => FootprintAt.modify (by simp) (.cacheEdge _ (hs hid)))
      fun _ => Footprint.pure _ s
  refine hcache.bind (by simp [addEdgeKinds]) fun _ t _ => ?_
  refine Footprint.bind ((setType_footprint _ _).mono (by simp [addEdgeKinds]))
    (fun _ => ?_) t
  exact ((setInt_footprint _).mono (by simp [addEdgeKinds])).bind fun _ => Footprint.pure _

/-- **Additions of edges.** -/
theorem addEdge_footprint (ce : AddEdge) : Footprint addEdgeKinds (addEdge ce) := by
  intro s
  have hfail : ∀ {code} msg, .report code ∈ addEdgeKinds →
      Footprint addEdgeKinds (fail code msg) := fun msg h =>
    (fail_footprint _ msg).mono (by simpa using h)
  refine (nodeEdge_footprint s).bind (by simp [addEdgeKinds]) fun _ t _ => ?_
  refine FootprintAt.get_bind (FootprintAt.ite
    (fun _ => hfail _ (by simp [addEdgeKinds]) t) fun hused => ?_)
  have hfree := Handler.freeEdge_of_not hused
  cases t.cachedNodes (toInt ce.edge.src) with
  | none => exact hfail _ (by simp [addEdgeKinds]) t
  | some srcni =>
      cases t.cachedNodes (toInt ce.edge.dst) with
      | none => exact hfail _ (by simp [addEdgeKinds]) t
      | some dstni =>
          refine FootprintAt.ite (fun _ => hfail _ (by simp [addEdgeKinds]) t) fun _ => ?_
          refine (addEdgesBetween_footprint ce _ _ t).bind (by simp [addEdgeKinds])
            fun p u hu => addEdgeFinish_footprintAt p.1 p.2 (hu.freeEdge (by simp) hfree)

/-- What an update of nodes may do. -/
def updateNodeKinds : List Kind := .update :: queryNodeKinds

/-- What an update of edges may do. -/
def updateEdgeKinds : List Kind := .update :: .stepEdge :: queryEdgeKinds

/-- What the loop of an update of nodes may do, and what comes after it. -/
def updateNodesKinds : List Kind := [.respond, .report .error, .report .success, .move, .update]

/-- What the loop of an update of edges may do, and what comes after it. -/
def updateEdgesKinds : List Kind :=
  [.respond, .report .error, .report .success, .update, .stepEdge]

omit [Platform] in
theorem updateNodesKinds_subset : updateNodesKinds ⊆ updateNodeKinds := by
  simp [updateNodesKinds, updateNodeKinds, queryNodeKinds, foundKinds]

omit [Platform] in
theorem updateEdgesKinds_subset : updateEdgesKinds ⊆ updateEdgeKinds := by
  simp [updateEdgesKinds, updateEdgeKinds, queryEdgeKinds, foundKinds]

/-- The answer of an update. -/
theorem answerCount_footprint {K : List Kind} (hK : [.respond, .report .success] ⊆ K) (n : ℕ) :
    Footprint K (do
      setType .count .success
      setInt n
      pure 0 : Handling ℤ) := by
  refine Footprint.mono ?_ hK
  refine Footprint.bind ((setType_footprint _ _).mono (by simp)) fun _ => ?_
  exact ((setInt_footprint _).mono (by simp)).bind fun _ => Footprint.pure _

theorem updateNodesAt_footprint (un : UpdateNode) (k : ℤ) :
    Footprint updateNodesKinds (updateNodesAt un k) := by
  refine Footprint.bind (forCached_footprint ?_ (fun updated n => ?_) 0) fun updated => ?_
  · simp [updateNodesKinds]
  · refine Footprint.bind ((updateElement_footprint _ _ _).mono ?_) fun _ => Footprint.pure _
    simp [updateNodesKinds]
  · refine Footprint.bind ((resetCached_footprint k).mono (by simp [updateNodesKinds])) fun _ => ?_
    exact answerCount_footprint (by simp [updateNodesKinds]) _

theorem updateNodeFound_footprint (un : UpdateNode) (qn : QueryNode) :
    Footprint updateNodesKinds (updateNodeFound un qn) := by
  refine Footprint.get_bind fun t => Footprint.ite (Footprint.pure _) ?_
  refine Footprint.ite (updateNodesAt_footprint un _) ((fail_footprint _ _).mono ?_)
  simp [updateNodesKinds]

/-- What an update of nodes may do, given its query. -/
def UpdateNode.kinds (un : UpdateNode) : List Kind :=
  updateNodesKinds ++ un.queryNode.elim [] QueryNode.kinds

/-- What an update of edges may do, given its query. -/
def UpdateEdge.kinds (ue : UpdateEdge) : List Kind :=
  updateEdgesKinds ++ ue.queryEdge.elim [] QueryEdge.kinds

omit [Platform] in
theorem UpdateNode.kinds_subset (un : UpdateNode) : un.kinds ⊆ updateNodeKinds := by
  refine List.append_subset.2 ⟨updateNodesKinds_subset, ?_⟩
  cases un.queryNode with
  | none => exact List.nil_subset _
  | some qn => exact List.Subset.trans qn.kinds_subset (List.subset_cons_self _ _)

omit [Platform] in
theorem UpdateEdge.kinds_subset (ue : UpdateEdge) : ue.kinds ⊆ updateEdgeKinds := by
  refine List.append_subset.2 ⟨updateEdgesKinds_subset, ?_⟩
  cases ue.queryEdge with
  | none => exact List.nil_subset _
  | some qe =>
      refine List.Subset.trans qe.kinds_subset ?_
      exact List.subset_cons_of_subset _ (List.subset_cons_self _ _)

/-- **Updates of nodes.** -/
theorem updateNode_typed (un : UpdateNode) : Footprint un.kinds (updateNode un) := by
  have hat : updateNodesKinds ⊆ un.kinds := List.subset_append_left _ _
  refine Footprint.get_bind fun s => Footprint.ite ((updateNodesAt_footprint un _).mono hat) ?_
  cases hqn : un.queryNode with
  | none => exact (fail_footprint _ _).mono (by simp [UpdateNode.kinds, updateNodesKinds])
  | some qn =>
      have hsub : qn.kinds ⊆ un.kinds := fun κ hκ => by simp [UpdateNode.kinds, hqn, hκ]
      exact ((queryNode_typed qn).mono hsub).bind fun _ =>
        (updateNodeFound_footprint un qn).mono hat

/-- The loop over a cached edge reference moves it and keeps its list. -/
theorem updateEdgesFrom_footprintAt (ue : UpdateEdge) (k : ℤ) (rest : List EdgeID) :
    ∀ {passed : List EdgeID} {s : Handler} {r : ReusableEdgeIterator},
      s.cachedEdges k = some r → r.traversed = passed ++ rest →
      Sat (updateEdgesFrom ue k passed rest) s
        (fun _ t => Does [.update, .stepEdge] s t ∧
          ∃ r', t.cachedEdges k = some r' ∧ r'.traversed = r.traversed)
        fun _ t => Does [.update, .stepEdge] s t := by
  induction rest with
  | nil => exact fun hk _ => Sat.pure ⟨.refl, _, hk, rfl⟩
  | cons e rest ih =>
      intro passed s r hk hr
      refine Sat.bind (Sat.mono (updateElement_footprint (.edge e) _ _ s) (fun _ _ h => h)
        fun _ _ h => h.mono (by simp)) fun _ t ht => ?_
      have hkt : t.cachedEdges k = some r := by rw [ht.cachedEdges_eq (by simp), hk]
      have hr' : (⟨none, passed ++ [e], rest⟩ : ReusableEdgeIterator).traversed =
          r.traversed := by
        rw [hr]
        simp [ReusableIterator.traversed]
      have hst : Does [.update, .stepEdge] s (t.cacheEdge k ⟨none, passed ++ [e], rest⟩) :=
        (ht.mono (by simp)).trans (.single (by simp) (.stepEdge hkt hr'))
      refine Sat.modify_bind ?_
      have hkeep := Handler.cacheEdge_same t k ⟨none, passed ++ [e], rest⟩
      have hrest := ih hkeep rfl
      refine Sat.mono hrest (fun _ v h => ?_) fun _ v h => hst.trans h
      obtain ⟨hv, r', hk', hr''⟩ := h
      exact ⟨hst.trans hv, r', hk', hr''.trans hr'⟩

theorem updateEdgesAt_footprint (ue : UpdateEdge) (k : ℤ) :
    Footprint updateEdgesKinds (updateEdgesAt ue k) := by
  intro s
  refine FootprintAt.get_bind ?_
  cases hk : s.cachedEdges k with
  | none => exact Footprint.stuck s
  | some r =>
      have hloop := updateEdgesFrom_footprintAt ue k r.rest hk rfl
      have hsub : [.update, .stepEdge] ⊆ updateEdgesKinds := by simp [updateEdgesKinds]
      refine Sat.bind (Sat.mono hloop (fun _ _ h => h) fun _ _ h => h.mono hsub) ?_
      rintro _ t ⟨ht, r', hk', hr'⟩
      have hreset : r.reset.traversed = r'.traversed := by
        rw [hr']
        rfl
      have hst := (ht.trans (.single (by simp) (.stepEdge hk' hreset))).mono hsub
      have hrest := answerCount_footprint (K := updateEdgesKinds) (by simp [updateEdgesKinds])
        r.rest.length
      refine Sat.modify_bind ?_
      exact Sat.mono (hrest _) (fun _ _ h => hst.trans h) fun _ _ h => hst.trans h

theorem updateEdgeFound_footprint (ue : UpdateEdge) (qe : QueryEdge) :
    Footprint updateEdgesKinds (updateEdgeFound ue qe) := by
  refine Footprint.get_bind fun t => Footprint.ite (Footprint.pure _) ?_
  refine Footprint.ite (updateEdgesAt_footprint ue _) ((fail_footprint _ _).mono ?_)
  simp [updateEdgesKinds]

/-- **Updates of edges.** -/
theorem updateEdge_typed (ue : UpdateEdge) : Footprint ue.kinds (updateEdge ue) := by
  have hat : updateEdgesKinds ⊆ ue.kinds := List.subset_append_left _ _
  refine Footprint.get_bind fun s => Footprint.ite ((updateEdgesAt_footprint ue _).mono hat) ?_
  cases hqe : ue.queryEdge with
  | none => exact (fail_footprint _ _).mono (by simp [UpdateEdge.kinds, updateEdgesKinds])
  | some qe =>
      have hsub : qe.kinds ⊆ ue.kinds := fun κ hκ => by simp [UpdateEdge.kinds, hqe, hκ]
      exact ((queryEdge_typed qe).mono hsub).bind fun _ =>
        (updateEdgeFound_footprint ue qe).mono hat

/-! ### Expired nodes -/

theorem deleteFile_footprint (x : Element) (key : String) :
    Footprint [.expire] (deleteFile x key) := by
  refine (checkProperty_readOnly _ _).footprint.bind fun v => ?_
  cases v with
  | none => exact Footprint.pure _
  | some v =>
      refine (stringValue_readOnly v).footprint.bind fun file => ?_
      exact Footprint.modify (List.mem_singleton.2 rfl) fun s => .removeFile _

/-- **Expired nodes.** -/
theorem deleteExpiredNodes_footprint : Footprint [.expire] deleteExpiredNodes := by
  refine Footprint.get_bind fun s => Footprint.bind ?_ fun _ => Footprint.pure _
  induction s.expirationQueue with
  | nil => exact Footprint.pure _
  | cons a as ih =>
      refine Footprint.ite ?_ (Footprint.pure _)
      refine Footprint.bind (Footprint.forEach fun key => deleteFile_footprint _ _) fun _ => ?_
      refine (call_readOnly _).footprint.bind fun _ => ?_
      exact (Footprint.modify (List.mem_singleton.2 rfl) fun _ => .expire _ _).bind fun _ => ih

end Vdms
