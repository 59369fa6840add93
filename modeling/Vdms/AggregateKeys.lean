import Vdms.Building
import Vdms.ConstraintTranslation
import Vdms.FindCommands
import Vdms.JsonObjects

/-!
# The Key of an Aggregate

`get_response_type` iterates over what `list`, `sum` or `average` holds. The schema has the
property of a sum or an average as a string, and an iteration over a string has no steps: so
the response keys of a query are those of the list. `build_results` adds up the first of them.

## Main results

* `parseQueryResults_block`: the response type and the response keys that a results block
  leads to.
* `aggregate_key_iff`: when the first key is the one that the client has named.
-/

namespace Vdms

open Imp Imp.Prog Platform

/-! ### Results blocks -/

/-- A results block, as far as the schema fixes it, in the order in which jsoncpp keeps the
members. -/
structure ResultsBlock (ms : List (String × Json)) : Prop where
  sorted : SortedKeys ms
  sum : ∀ v, ms.lookup "sum" = some v → ∃ name, v = .string name
  average : ∀ v, ms.lookup "average" = some v → ∃ name, v = .string name
  list : ∀ v, ms.lookup "list" = some v → ∃ xs, v = .array xs
  blob : ∀ v, ms.lookup "blob" = some v → ∃ b, v = .bool b

/-- The response type: the last key of the block that has one decides. -/
def chosenType (ms : List (String × Json)) : ResponseType :=
  if (ms.lookup "sum").isSome then .sum
  else if (ms.lookup "list").isSome then .list
  else if (ms.lookup "count").isSome then .count
  else if (ms.lookup "average").isSome then .average
  else ({} : ResultInfo).rType

section

variable [Platform]

/-- The response keys: those of the list. -/
def listedKeys (ms : List (String × Json)) : Except QueryError (List String) :=
  match ms.lookup "list" with
  | some v => v.elements.mapM Json.asString
  | none => pure []

section Block

variable {ms : List (String × Json)} {m : String × Json} {qr qr' : ResultInfo}

theorem getResponseType_ok {res : Json} (h : getResponseType res qr = .ok qr') :
    ∃ keys, res.elements.mapM Json.asString = .ok keys ∧
      qr' = { qr with responseKeys := qr.responseKeys ++ keys } := by
  rw [getResponseType] at h
  cases hkeys : res.elements.mapM Json.asString with
  | error e =>
      rw [hkeys] at h
      cases h
  | ok keys =>
      rw [hkeys] at h
      exact ⟨keys, rfl, (Except.ok.inj h).symm⟩

/-- A name has no elements to iterate over. -/
theorem getResponseType_name {name : String} (h : getResponseType (.string name) qr = .ok qr') :
    qr' = qr := by
  obtain ⟨keys, hkeys, rfl⟩ := getResponseType_ok h
  obtain rfl : keys = [] := (Except.ok.inj hkeys).symm
  simp

/-- The other members do not touch the type and the keys. -/
theorem parseResult_other (h : parseResult qr m = .ok qr') (hlist : m.1 ≠ "list")
    (hcount : m.1 ≠ "count") (hsum : m.1 ≠ "sum") (haverage : m.1 ≠ "average") :
    qr'.rType = qr.rType ∧ qr'.responseKeys = qr.responseKeys := by
  rw [parseResult] at h
  rw [if_neg hlist, if_neg hcount, if_neg hsum] at h
  split_ifs at h with hsort hobject horder hlimit
  · obtain ⟨v, -, h⟩ := bind_ok_inv h
    obtain ⟨sortKey, -, h⟩ := bind_ok_inv h
    obtain ⟨order, -, h⟩ := bind_ok_inv h
    cases order <;> obtain rfl := Except.ok.inj h <;> exact ⟨rfl, rfl⟩
  · obtain ⟨v, -, h⟩ := bind_ok_inv h
    obtain ⟨sortKey, -, h⟩ := bind_ok_inv h
    obtain rfl := Except.ok.inj h
    exact ⟨rfl, rfl⟩
  · obtain ⟨sortKey, -, h⟩ := bind_ok_inv h
    obtain rfl := Except.ok.inj h
    exact ⟨rfl, rfl⟩
  · obtain ⟨limit, -, h⟩ := bind_ok_inv h
    obtain rfl := Except.ok.inj h
    exact ⟨rfl, rfl⟩
  · obtain rfl := Except.ok.inj h
    exact ⟨rfl, rfl⟩

omit [Platform] in
theorem ResultsBlock.front (h : ResultsBlock (ms ++ [m])) :
    ResultsBlock ms ∧ ∀ m' ∈ ms, m'.1 < m.1 := by
  have hsorted : (ms.map Prod.fst).Pairwise (· < ·) ∧ ∀ k ∈ ms.map Prod.fst, k < m.1 := by
    have := h.sorted
    rw [SortedKeys, List.map_append, List.pairwise_append] at this
    exact ⟨this.1, fun k hk => this.2.2 k hk m.1 (by simp)⟩
  have hlookup : ∀ {key v}, ms.lookup key = some v → (ms ++ [m]).lookup key = some v := by
    intro key v hv
    rw [List.lookup_append, hv, Option.some_or]
  exact ⟨⟨hsorted.1, fun v hv => h.sum v (hlookup hv), fun v hv => h.average v (hlookup hv),
    fun v hv => h.list v (hlookup hv), fun v hv => h.blob v (hlookup hv)⟩,
    fun m' hm' => hsorted.2 _ (List.mem_map_of_mem hm')⟩

/-- **Results blocks.** Induction on the members, from the last one on: the type is that of
the last member that sets it. -/
theorem parseQueryResults_block (h : ResultsBlock ms)
    (hqr : ms.foldlM parseResult {} = .ok qr) :
    qr.rType = chosenType ms ∧ listedKeys ms = .ok qr.responseKeys := by
  induction ms using List.reverseRecOn generalizing qr with
  | nil =>
      obtain rfl := Except.ok.inj hqr
      exact ⟨rfl, rfl⟩
  | append_singleton ms m ih =>
      obtain ⟨hfront, hbefore⟩ := h.front
      rw [List.foldlM_append] at hqr
      obtain ⟨qr₀, hqr₀, hlast⟩ := bind_ok_inv hqr
      have hm : parseResult qr₀ m = .ok qr := by
        obtain ⟨qr₁, hqr₁, hpure⟩ := bind_ok_inv hlast
        rwa [← Except.ok.inj hpure]
      obtain ⟨htype, hkeys⟩ := ih hfront hqr₀
      obtain ⟨key, v⟩ := m
      have habsent : ∀ k, key < k → ms.lookup k = none := fun k hlt =>
        Option.eq_none_iff_forall_ne_some.2 fun w hw => absurd
          (String.lt_trans hlt (hbefore _ (mem_of_lookup hw))) (String.lt_irrefl _)
      have hown : ms.lookup key = none := Option.eq_none_iff_forall_ne_some.2 fun w hw =>
        absurd (hbefore _ (mem_of_lookup hw)) (String.lt_irrefl _)
      have hlookup : ∀ k, (ms ++ [(key, v)]).lookup k =
          if k = key then some v else ms.lookup k := by
        intro k
        rw [List.lookup_append, List.lookup_cons]
        by_cases hk : k = key
        · simp [hk, hown]
        · simp [hk, beq_eq_false_iff_ne.2 hk]
      by_cases hlist : key = "list"
      · subst hlist
        have hv : getResponseType v { qr₀ with rType := .list } = .ok qr := hm
        obtain ⟨keys, hkeys', rfl⟩ := getResponseType_ok hv
        have hnokeys : qr₀.responseKeys = [] := by
          rw [listedKeys, hown] at hkeys
          exact (Except.ok.inj hkeys).symm
        simp [chosenType, listedKeys, hlookup, habsent "sum" (by decide), hnokeys, hkeys']
      have hlisted : listedKeys (ms ++ [(key, v)]) = listedKeys ms := by
        rw [listedKeys, listedKeys, hlookup, if_neg (Ne.symm hlist)]
      rw [hlisted, hkeys]
      by_cases hsum : key = "sum"
      · subst hsum
        obtain ⟨name, rfl⟩ := h.sum v (by simp [hlookup])
        obtain rfl := getResponseType_name hm
        simp [chosenType, hlookup]
      by_cases hcount : key = "count"
      · subst hcount
        obtain rfl := Except.ok.inj hm
        simp [chosenType, hlookup, habsent "sum" (by decide),
          habsent "list" (by decide)]
      by_cases haverage : key = "average"
      · subst haverage
        obtain ⟨name, rfl⟩ := h.average v (by simp [hlookup])
        obtain rfl := getResponseType_name hm
        simp [chosenType, hlookup, habsent "sum" (by decide),
          habsent "list" (by decide), habsent "count" (by decide)]
      obtain ⟨htype', hkeys'⟩ := parseResult_other hm hlist hcount hsum haverage
      have hsame : chosenType (ms ++ [(key, v)]) = chosenType ms := by
        simp only [chosenType, hlookup, if_neg (Ne.symm hlist), if_neg (Ne.symm hsum),
          if_neg (Ne.symm hcount), if_neg (Ne.symm haverage)]
      rw [htype', hkeys', hsame]
      exact ⟨htype, rfl⟩

end Block

/-! ### What the commands hand on -/

/-- The results block `j` is that of the client but for its list, which is `xs`, and its
limit. -/
structure PassedOn (ms : List (String × Json)) (j : Json) (xs : List Json) : Prop where
  block : ∃ ms', j = .object ms' ∧ SortedKeys ms' ∧
    (∀ key, key ≠ "list" → key ≠ "limit" → ms'.lookup key = ms.lookup key) ∧
    (ms'.lookup "list" = some (.array xs) ∨ ms'.lookup "list" = none ∧ xs = [])

section Passed

variable {ms : List (String × Json)} {j : Json} {xs : List Json}

omit [Platform] in
theorem PassedOn.setList (h : PassedOn ms j xs) (ys : List Json) :
    ∃ j', j.setMember "list" (.array ys) = .ok j' ∧ PassedOn ms j' ys := by
  obtain ⟨ms', rfl, hsorted, hsame, -⟩ := h.block
  obtain ⟨hsorted', hmem⟩ := insertMember_ordered hsorted "list" (.array ys)
  refine ⟨_, rfl, _, rfl, hsorted', fun key hkey hlimit => ?_, .inl ?_⟩
  · rw [← hsame key hkey hlimit]
    refine Option.ext fun v => ?_
    rw [hsorted'.lookup_eq, hsorted.lookup_eq, hmem]
    simp [hkey]
  · rw [hsorted'.lookup_eq, hmem]
    exact .inl rfl

omit [Platform] in
/-- The queries for the nearest descriptors have one result. -/
theorem PassedOn.setLimit (h : PassedOn ms j xs) (limit : Json) :
    ∃ j', j.setMember "limit" limit = .ok j' ∧ PassedOn ms j' xs := by
  obtain ⟨ms', rfl, hsorted, hsame, hlist⟩ := h.block
  obtain ⟨hsorted', hmem⟩ := insertMember_ordered hsorted "limit" limit
  have hother : ∀ key, key ≠ "limit" →
      (Json.insertMember "limit" limit ms').lookup key = ms'.lookup key := by
    intro key hkey
    refine Option.ext fun v => ?_
    rw [hsorted'.lookup_eq, hsorted.lookup_eq, hmem]
    simp [hkey]
  refine ⟨_, rfl, _, rfl, hsorted', fun key hkey hlimit => ?_, ?_⟩
  · rw [hother key hlimit, hsame key hkey hlimit]
  · rwa [hother "list" (by decide)]

omit [Platform] in
theorem PassedOn.append (h : PassedOn ms j xs) (name : String) :
    ∃ j', appendToList j name = .ok j' ∧ PassedOn ms j' (xs ++ [.string name]) := by
  obtain ⟨j', hset, h'⟩ := h.setList (xs ++ [.string name])
  obtain ⟨ms', rfl, -, -, hlist⟩ := h.block
  refine ⟨j', ?_, h'⟩
  rcases hlist with hlist | ⟨hlist, rfl⟩
  · simpa [appendToList, Json.get, hlist, bind, Except.bind] using hset
  · simpa [appendToList, Json.get, hlist, bind, Except.bind] using hset

omit [Platform] in
/-- Appending several names. Induction on the names. -/
theorem PassedOn.appendAll (h : PassedOn ms j xs) (names : List String) :
    ∃ j', names.foldlM appendToList j = .ok j' ∧ PassedOn ms j' (xs ++ names.map .string) := by
  induction names generalizing j xs with
  | nil => exact ⟨j, rfl, by simpa using h⟩
  | cons name names ih =>
      obtain ⟨j₁, hj₁, h₁⟩ := h.append name
      obtain ⟨j', hj', h'⟩ := ih h₁
      refine ⟨j', ?_, by simpa using h'⟩
      rw [List.foldlM_cons, hj₁]
      exact hj'

/-- What the client lists. -/
def clientList (ms : List (String × Json)) : List Json :=
  match ms.lookup "list" with
  | some (.array xs) => xs
  | _ => []

omit [Platform] in
/-- The block of the client itself. -/
theorem ResultsBlock.passedOn (h : ResultsBlock ms) :
    PassedOn ms (.object ms) (clientList ms) := by
  refine ⟨ms, rfl, h.sorted, fun _ _ _ => rfl, ?_⟩
  cases hlist : ms.lookup "list" with
  | none => exact .inr ⟨rfl, by simp [clientList, hlist]⟩
  | some v =>
      obtain ⟨xs, rfl⟩ := h.list v hlist
      exact .inl (by simp [clientList, hlist])

/-- Whether the blob is asked for. -/
def wantsBlob (dflt : Bool) (ms : List (String × Json)) : Bool :=
  match ms.lookup "blob" with
  | some (.bool b) => b
  | _ => dflt

theorem PassedOn.getValue_blob (h : PassedOn ms j xs) (hms : ResultsBlock ms) (dflt : Bool) :
    getValue Json.asBool j "blob" dflt = .ok (wantsBlob dflt ms) := by
  obtain ⟨ms', rfl, -, hsame, -⟩ := h.block
  have hblob := hsame "blob" (by decide) (by decide)
  cases hv : ms.lookup "blob" with
  | none =>
      rw [hv] at hblob
      simp [getValue, Json.hasMember, hblob, wantsBlob, hv, bind, Except.bind, pure, Except.pure]
  | some v =>
      obtain ⟨b, rfl⟩ := hms.blob v hv
      rw [hv] at hblob
      simp [getValue, Json.hasMember, Json.get, hblob, wantsBlob, hv, Json.asBool, bind,
        Except.bind]

end Passed

/-! ### Command by command -/

namespace FindCommand

/-- What of the client's list a command hands on. -/
def kept (F : FindCommand) (listed : List String) : List String :=
  match F with
  | boundingBox => listed.erase "_coordinates"
  | descriptorSet => []
  | descriptor => listed.filter fun key => !FindDescriptor.isSpecial key
  | _ => listed

/-- The properties of the regions that the metaconstraints ask for. -/
def regionKeys (names : List String) (constraints : Json) : List String :=
  names ++ constraints.members.map Prod.fst ++ regionProps

/-- What a command adds to the list. -/
def added (F : FindCommand) (ps ms : List (String × Json)) (listed : List String) :
    List String :=
  match F with
  | entity => if wantsBlob false ms then ["VD:blobPath"] else []
  | blob => if wantsBlob true ms then ["VD:blobPath"] else []
  | frames => ["VD:videoPath"]
  | image =>
      (if wantsBlob true ms then ["VD:imgPath"] else []) ++
        match ps.lookup "metaconstraints" with
        | some constraints => regionKeys ["image_name"] constraints
        | none => []
  | video =>
      (if wantsBlob true ms then ["VD:videoPath"] else []) ++
        match ps.lookup "metaconstraints" with
        | some constraints => regionKeys ["video_name", "frameID"] constraints
        | none => if (ps.lookup "frameconstraints").isSome then ["video_name", "frameID"] else []
  | boundingBox =>
      if "_coordinates" ∈ listed ∨ wantsBlob false ms then FindBoundingBox.coordinateProps else []
  | descriptorSet => ["VD:name", "VD:descSetPath", "VD:dimensions", "VD:engine"]
  | descriptor =>
      match ps.lookup "set" with
      | some (.string setName) => ["VD:label", FindDescriptor.descIdProp setName]
      | _ => []

end FindCommand

section Commands

variable {ps ms : List (String × Json)} {passed : Json}

omit [Platform] in
/-- The results block of a command. -/
theorem getValue_results (hresults : ps.lookup "results" = some (.object ms)) :
    getValue pure (.object ps) "results" .null = .ok (.object ms) := by
  simp [getValue, Json.hasMember, Json.get, hresults, bind, Except.bind, pure, Except.pure]

/-- A path that is listed if the blob is wanted. -/
theorem appendPath_passedOn {j : Json} {xs : List Json} (h : PassedOn ms j xs)
    (hms : ResultsBlock ms) (dflt : Bool) (path : String)
    (hpassed : (do
      if ← getValue Json.asBool j "blob" dflt then appendToList j path else pure j) =
        .ok passed) :
    PassedOn ms passed (xs ++ (if wantsBlob dflt ms then [path] else []).map .string) := by
  rw [h.getValue_blob hms] at hpassed
  cases hblob : wantsBlob dflt ms with
  | true =>
      obtain ⟨j', hj', h'⟩ := h.append path
      simp only [hblob, bind, Except.bind, if_true, hj'] at hpassed
      obtain rfl := Except.ok.inj hpassed
      simpa using h'
  | false =>
      simp only [hblob, bind, Except.bind, Bool.false_eq_true, if_false] at hpassed
      obtain rfl := Except.ok.inj hpassed
      simpa using h

theorem findResults_passedOn (hresults : ps.lookup "results" = some (.object ms))
    (hms : ResultsBlock ms) (path : String)
    (hpassed : findResults (.object ps) path = .ok passed) :
    PassedOn ms passed
      (clientList ms ++ (if wantsBlob true ms then [path] else []).map .string) := by
  rw [findResults, getValue_results hresults] at hpassed
  exact appendPath_passedOn hms.passedOn hms true path hpassed

omit [Platform] in
theorem memberNames_eq {j : Json} {names : List String} (h : j.memberNames = .ok names) :
    names = j.members.map Prod.fst := by
  cases j with
  | null => exact (Except.ok.inj h).symm
  | object cs => exact (Except.ok.inj h).symm
  | _ => cases h

omit [Platform] in
/-- The properties of regions, if there are metaconstraints. -/
theorem appendRegions_passedOn {j : Json} {xs : List Json} (h : PassedOn ms j xs)
    {constraints : Json} (names : List String)
    (hmeta : ps.lookup "metaconstraints" = some constraints)
    (hpassed : (do
      let constraints ← (Json.object ps).get "metaconstraints"
      let members ← constraints.memberNames
      (names ++ members ++ regionProps).foldlM appendToList j) = .ok passed) :
    PassedOn ms passed (xs ++ (FindCommand.regionKeys names constraints).map .string) := by
  simp only [Json.get, hmeta, Option.getD_some, bind, Except.bind] at hpassed
  cases hnames : constraints.memberNames with
  | error e =>
      rw [hnames] at hpassed
      cases hpassed
  | ok members =>
      obtain ⟨j', hj', h'⟩ := h.appendAll (FindCommand.regionKeys names constraints)
      rw [hnames, memberNames_eq hnames] at hpassed
      obtain rfl := Except.ok.inj (hj'.symm.trans hpassed)
      exact h'

theorem image_passedOn (hresults : ps.lookup "results" = some (.object ms))
    (hms : ResultsBlock ms) (listed : List String)
    (hpassed : FindImage.results (.object ps) = .ok passed) :
    PassedOn ms passed (clientList ms ++ (FindCommand.added .image ps ms listed).map .string) := by
  rw [FindImage.results] at hpassed
  obtain ⟨j, hj, hpassed⟩ := bind_ok_inv hpassed
  have h := findResults_passedOn hresults hms "VD:imgPath" hj
  cases hmeta : ps.lookup "metaconstraints" with
  | none =>
      simp only [Json.hasMember, hmeta, bind, Except.bind, Option.isSome_none,
        Bool.false_eq_true, if_false] at hpassed
      obtain rfl := Except.ok.inj hpassed
      simpa [FindCommand.added, hmeta] using h
  | some constraints =>
      simp only [Json.hasMember, hmeta, bind, Except.bind, Option.isSome_some, if_true] at hpassed
      have h' := appendRegions_passedOn h ["image_name"] hmeta hpassed
      simpa [FindCommand.added, hmeta] using h'

theorem video_passedOn (hresults : ps.lookup "results" = some (.object ms))
    (hms : ResultsBlock ms) (listed : List String)
    (hpassed : FindVideo.results (.object ps) = .ok passed) :
    PassedOn ms passed (clientList ms ++ (FindCommand.added .video ps ms listed).map .string) := by
  rw [FindVideo.results] at hpassed
  obtain ⟨j, hj, hpassed⟩ := bind_ok_inv hpassed
  have h := findResults_passedOn hresults hms "VD:videoPath" hj
  cases hmeta : ps.lookup "metaconstraints" with
  | some constraints =>
      simp only [Json.hasMember, hmeta, bind, Except.bind, Option.isSome_some, if_true] at hpassed
      have h' := appendRegions_passedOn h ["video_name", "frameID"] hmeta hpassed
      simpa [FindCommand.added, hmeta] using h'
  | none =>
      simp only [Json.hasMember, hmeta, bind, Except.bind, Option.isSome_none,
        Bool.false_eq_true, if_false] at hpassed
      cases hframe : ps.lookup "frameconstraints" with
      | none =>
          simp only [hframe, Option.isSome_none, Bool.false_eq_true, if_false] at hpassed
          obtain rfl := Except.ok.inj hpassed
          simpa [FindCommand.added, hmeta, hframe] using h
      | some v =>
          obtain ⟨j', hj', h'⟩ := h.appendAll ["video_name", "frameID"]
          simp only [hframe, Option.isSome_some, if_true] at hpassed
          obtain rfl := Except.ok.inj (hj'.symm.trans hpassed)
          simpa [FindCommand.added, hmeta, hframe] using h'

/-- Taking the coordinates out of a list. Induction on the list. -/
theorem takeCoordinates_ok {xs ys : List Json} {found : Bool}
    (h : FindBoundingBox.takeCoordinates xs = .ok (ys, found)) {keys : List String}
    (hkeys : ys.mapM Json.asString = .ok keys) :
    ∃ listed, xs.mapM Json.asString = .ok listed ∧ keys = listed.erase "_coordinates" ∧
      (found = true ↔ "_coordinates" ∈ listed) := by
  induction xs generalizing ys found keys with
  | nil =>
      obtain ⟨rfl, rfl⟩ := Prod.mk.inj (Except.ok.inj h)
      obtain rfl := Except.ok.inj hkeys
      exact ⟨[], rfl, rfl, by simp⟩
  | cons x xs ih =>
      obtain ⟨key, hkey, h⟩ := bind_ok_inv h
      by_cases hcoord : key = "_coordinates"
      · rw [if_pos hcoord] at h
        obtain ⟨rfl, rfl⟩ := Prod.mk.inj (Except.ok.inj h)
        refine ⟨key :: keys, ?_, by simp [hcoord], by simp [hcoord]⟩
        rw [List.mapM_cons, hkey, hkeys]
        rfl
      · rw [if_neg hcoord] at h
        obtain ⟨⟨zs, found'⟩, hzs, h⟩ := bind_ok_inv h
        obtain ⟨rfl, rfl⟩ := Prod.mk.inj (Except.ok.inj h)
        rw [List.mapM_cons] at hkeys
        obtain ⟨key', hkey', hkeys⟩ := bind_ok_inv hkeys
        obtain ⟨rest, hrest, hkeys⟩ := bind_ok_inv hkeys
        obtain rfl := Except.ok.inj hkeys
        obtain rfl := Except.ok.inj (hkey.symm.trans hkey')
        obtain ⟨listed, hlisted, rfl, hfound⟩ := ih hzs hrest
        refine ⟨key :: listed, ?_, ?_, ?_⟩
        · rw [List.mapM_cons, hkey, hlisted]
          rfl
        · rw [List.erase_cons_tail (by simpa using hcoord)]
        · rw [hfound, List.mem_cons]
          exact ⟨.inr, fun h => h.resolve_left fun heq => hcoord heq.symm⟩

/-- The keys of the client's list. -/
def clientKeys (ms : List (String × Json)) : List String :=
  match listedKeys ms with
  | .ok keys => keys
  | .error _ => []

theorem listedKeys_eq (hms : ResultsBlock ms) :
    listedKeys ms = (clientList ms).mapM Json.asString := by
  cases hlist : ms.lookup "list" with
  | none => simp [listedKeys, clientList, hlist]
  | some v =>
      obtain ⟨xs, rfl⟩ := hms.list v hlist
      simp [listedKeys, clientList, hlist, Json.elements_array]

theorem clientKeys_eq (hms : ResultsBlock ms) {listed : List String}
    (h : (clientList ms).mapM Json.asString = .ok listed) : clientKeys ms = listed := by
  rw [clientKeys, listedKeys_eq hms, h]

/-- What a query makes of the block that is handed on. -/
theorem PassedOn.parse {j : Json} {xs : List Json} (h : PassedOn ms j xs)
    (hms : ResultsBlock ms) {qr : ResultInfo} (hqr : parseQueryResults j = .ok qr) :
    xs.mapM Json.asString = .ok qr.responseKeys ∧
      (qr.rType = .sum ↔ (ms.lookup "sum").isSome) ∧
      (qr.rType = .average → qr.responseKeys = []) := by
  obtain ⟨ms', rfl, hsorted, hsame, hlist⟩ := h.block
  have hms' : ResultsBlock ms' := by
    refine ⟨hsorted, fun v hv => hms.sum v ?_, fun v hv => hms.average v ?_, fun v hv => ?_,
      fun v hv => hms.blob v ?_⟩
    · rwa [← hsame "sum" (by decide) (by decide)]
    · rwa [← hsame "average" (by decide) (by decide)]
    · rcases hlist with hlist | ⟨hlist, -⟩
      · exact ⟨xs, (Option.some.inj (hlist.symm.trans hv)).symm⟩
      · rw [hlist] at hv
        cases hv
    · rwa [← hsame "blob" (by decide) (by decide)]
  obtain ⟨htype, hkeys⟩ := parseQueryResults_block hms' hqr
  have hxs : listedKeys ms' = xs.mapM Json.asString := by
    rcases hlist with hlist | ⟨hlist, rfl⟩
    · simp [listedKeys, hlist, Json.elements_array]
    · simp [listedKeys, hlist]
  refine ⟨hxs ▸ hkeys, ?_, fun haverage => ?_⟩
  · rw [htype, ← hsame "sum" (by decide) (by decide), chosenType]
    split_ifs with hsum <;> simp [hsum]
  · rw [htype, chosenType] at haverage
    split_ifs at haverage with hsum hlist' hcount havg
    rw [listedKeys, Option.not_isSome_iff_eq_none.1 hlist'] at hkeys
    exact (Except.ok.inj hkeys).symm

theorem mapM_names (names : List String) :
    (names.map Json.string).mapM Json.asString = .ok names := by
  rw [mapM_ok_iff]
  induction names with
  | nil => exact .nil
  | cons name names ih => exact .cons rfl ih

theorem mapM_append_names {xs : List Json} {names keys : List String}
    (h : (xs ++ names.map Json.string).mapM Json.asString = .ok keys) :
    ∃ listed, xs.mapM Json.asString = .ok listed ∧ keys = listed ++ names := by
  rw [List.mapM_append, mapM_names] at h
  obtain ⟨listed, hlisted, h⟩ := bind_ok_inv h
  exact ⟨listed, hlisted, (Except.ok.inj h).symm⟩

/-- The list of the client without the coordinates, and whether they were there. -/
theorem takeList_passedOn (hms : ResultsBlock ms) {j : Json} {found : Bool}
    (h : FindBoundingBox.takeList (.object ms) = .ok (j, found)) :
    ∃ ys, PassedOn ms j ys ∧ ∀ keys, ys.mapM Json.asString = .ok keys →
      keys = (clientKeys ms).erase "_coordinates" ∧
        (found = true ↔ "_coordinates" ∈ clientKeys ms) := by
  rw [FindBoundingBox.takeList] at h
  cases hlist : ms.lookup "list" with
  | none =>
      simp only [Json.hasMember, hlist, bind, Except.bind, Option.isSome_none,
        Bool.false_eq_true, if_false] at h
      obtain ⟨rfl, rfl⟩ := Prod.mk.inj (Except.ok.inj h)
      have hclient : clientList ms = [] := by simp [clientList, hlist]
      refine ⟨clientList ms, hms.passedOn, fun keys hkeys => ?_⟩
      rw [clientKeys_eq hms hkeys]
      rw [hclient] at hkeys
      obtain rfl := Except.ok.inj hkeys
      simp
  | some v =>
      obtain ⟨xs, rfl⟩ := hms.list v hlist
      simp only [Json.hasMember, Json.get, hlist, bind, Except.bind, Option.isSome_some,
        Option.getD_some, if_true] at h
      cases htake : FindBoundingBox.takeCoordinates xs with
      | error e =>
          rw [htake] at h
          cases h
      | ok p =>
          obtain ⟨ys, found'⟩ := p
          obtain ⟨j', hj', h'⟩ := hms.passedOn.setList ys
          rw [htake] at h
          simp only [hj'] at h
          obtain ⟨rfl, rfl⟩ := Prod.mk.inj (Except.ok.inj h)
          refine ⟨ys, h', fun keys hkeys => ?_⟩
          obtain ⟨listed, hlisted, rfl, hfound⟩ := takeCoordinates_ok htake hkeys
          have hclient : clientList ms = xs := by simp [clientList, hlist]
          rw [clientKeys_eq hms (hclient ▸ hlisted)]
          exact ⟨rfl, hfound⟩

theorem boundingBox_keys (hresults : ps.lookup "results" = some (.object ms))
    (hms : ResultsBlock ms) (hpassed : FindBoundingBox.results (.object ps) = .ok passed) :
    ∃ xs, PassedOn ms passed xs ∧ ∀ keys, xs.mapM Json.asString = .ok keys →
      keys = FindCommand.kept .boundingBox (clientKeys ms) ++
        FindCommand.added .boundingBox ps ms (clientKeys ms) := by
  rw [FindBoundingBox.results, getValue_results hresults] at hpassed
  change (FindBoundingBox.takeList (.object ms) >>= _) = _ at hpassed
  obtain ⟨⟨j, found⟩, htake, hpassed⟩ := bind_ok_inv hpassed
  obtain ⟨ys, h, hys⟩ := takeList_passedOn hms htake
  simp only at hpassed
  rw [h.getValue_blob hms] at hpassed
  simp only [bind, Except.bind] at hpassed
  by_cases hcoords : (found || wantsBlob false ms) = true
  · rw [if_pos hcoords] at hpassed
    obtain ⟨j', hj', h'⟩ := h.appendAll FindBoundingBox.coordinateProps
    obtain rfl := Except.ok.inj (hj'.symm.trans hpassed)
    refine ⟨_, h', fun keys hkeys => ?_⟩
    obtain ⟨listed, hlisted, rfl⟩ := mapM_append_names hkeys
    obtain ⟨rfl, hfound⟩ := hys listed hlisted
    have hwant : "_coordinates" ∈ clientKeys ms ∨ wantsBlob false ms = true := by
      rw [← hfound]
      simpa using hcoords
    simp [FindCommand.kept, FindCommand.added, hwant]
  · rw [if_neg hcoords] at hpassed
    obtain rfl := Except.ok.inj hpassed
    refine ⟨ys, h, fun keys hkeys => ?_⟩
    obtain ⟨rfl, hfound⟩ := hys keys hkeys
    have hwant : ¬ ("_coordinates" ∈ clientKeys ms ∨ wantsBlob false ms = true) := by
      rw [← hfound]
      simpa using hcoords
    simp only [FindCommand.kept, FindCommand.added, if_neg hwant, List.append_nil]

theorem descriptor_keys {setName : String}
    (hresults : ps.lookup "results" = some (.object ms)) (hms : ResultsBlock ms)
    (hpassed : FindDescriptor.results setName (.object ps) = .ok passed) :
    ∃ xs, PassedOn ms passed xs ∧ ∀ keys, xs.mapM Json.asString = .ok keys →
      keys = FindCommand.kept .descriptor (clientKeys ms) ++
        ["VD:label", FindDescriptor.descIdProp setName] := by
  have hlist : ∃ list, (list = .null ∧ clientList ms = [] ∨ list = .array (clientList ms)) ∧
      (do
        let keys ← FindDescriptor.propertyKeys list
        (Json.object ms).setMember "list" (.array ((keys ++
          ["VD:label", FindDescriptor.descIdProp setName]).map .string))) = .ok passed := by
    rw [FindDescriptor.results] at hpassed
    simp only [Json.get, hresults, Option.getD_some, bind, Except.bind, Json.hasMember] at hpassed
    cases hl : ms.lookup "list" with
    | none =>
        simp only [hl, Option.isSome_none, Bool.false_eq_true, if_false] at hpassed
        exact ⟨.null, .inl ⟨rfl, by simp [clientList, hl]⟩, hpassed⟩
    | some v =>
        obtain ⟨xs, rfl⟩ := hms.list v hl
        simp only [hl, Option.isSome_some, if_true, Option.getD_some] at hpassed
        exact ⟨.array xs, .inr (by simp [clientList, hl]), hpassed⟩
  obtain ⟨list, hlist, hbody⟩ := hlist
  obtain ⟨keys, hkeys, hbody⟩ := bind_ok_inv hbody
  obtain ⟨j', hj', h'⟩ := hms.passedOn.setList ((keys ++
    ["VD:label", FindDescriptor.descIdProp setName]).map .string)
  obtain rfl := Except.ok.inj (hj'.symm.trans hbody)
  refine ⟨_, h', fun all hall => ?_⟩
  rw [mapM_names] at hall
  obtain rfl := Except.ok.inj hall
  have hkept : keys = FindCommand.kept .descriptor (clientKeys ms) := by
    rcases hlist with ⟨rfl, hnil⟩ | rfl
    · obtain rfl := Except.ok.inj hkeys
      have hclient : clientKeys ms = [] := clientKeys_eq hms (by rw [hnil]; rfl)
      simp [FindCommand.kept, hclient]
    · obtain ⟨listed, hlisted, hkeys⟩ := bind_ok_inv hkeys
      rw [clientKeys_eq hms hlisted]
      exact (Except.ok.inj hkeys).symm
  rw [hkept]

/-- The results object of a request that the schema accepts. -/
theorem resultsBlock_of_schema (hblock : ApiSchema.blockResults (.object ms) = true)
    (hsorted : SortedKeys ms) : ResultsBlock ms := by
  have hclosed : Schema.closed [("list", Schema.array), ("average", Schema.string),
      ("count", Schema.string), ("sum", Schema.string), ("limit", ApiSchema.positiveInt),
      ("sort", ApiSchema.oneOfSort), ("blob", ApiSchema.blob)] (.object ms) = true := by
    simpa [ApiSchema.blockResults, Schema.all, Schema.object, Json.isObject] using hblock
  refine ⟨hsorted, fun v hv => string_inv (closed_member hclosed rfl hv),
    fun v hv => string_inv (closed_member hclosed rfl hv), fun v hv => ?_, fun v hv => ?_⟩
  · have harray : Schema.array v = true := closed_member hclosed rfl hv
    cases v with
    | array xs => exact ⟨xs, rfl⟩
    | _ => cases harray
  · have hbool : ApiSchema.blob v = true := closed_member hclosed rfl hv
    cases v with
    | bool b => exact ⟨b, rfl⟩
    | _ => cases hbool

/-- Whatever the command, its schema has a results block. -/
theorem schema_results (F : FindCommand) (hschema : F.schema (.object ps) = true)
    (hresults : ps.lookup "results" = some (.object ms)) :
    ApiSchema.blockResults (.object ms) = true := by
  cases F with
  | entity => exact closed_member hschema rfl hresults
  | image => exact closed_member hschema rfl hresults
  | video => exact closed_member hschema rfl hresults
  | frames => exact closed_member hschema rfl hresults
  | blob => exact closed_member hschema rfl hresults
  | boundingBox => exact closed_member (Bool.and_eq_true_iff.1 hschema).1 rfl hresults
  | descriptorSet => exact closed_member (Bool.and_eq_true_iff.1 hschema).1 rfl hresults
  | descriptor => exact closed_member (Bool.and_eq_true_iff.1 hschema).1 rfl hresults

/-- The name of the set is required. -/
theorem schema_set (hschema : FindCommand.schema .descriptor (.object ps) = true) :
    ∃ setName, ps.lookup "set" = some (.string setName) := by
  obtain ⟨hclosed, hrequired⟩ := Bool.and_eq_true_iff.1 hschema
  have hset : (ps.lookup "set").isSome = true := by
    simpa [Schema.required] using hrequired
  obtain ⟨v, hv⟩ := Option.isSome_iff_exists.1 hset
  obtain ⟨setName, rfl⟩ := string_inv (closed_member hclosed rfl hv)
  exact ⟨setName, hv⟩

/-- **What the commands hand on**: the list of the client, as far as it is kept, and what the
command adds. -/
theorem results_passedOn (F : FindCommand) (hschema : F.schema (.object ps) = true)
    (hresults : ps.lookup "results" = some (.object ms)) (hms : ResultsBlock ms)
    (hpassed : F.results (.object ps) = .ok passed) :
    ∃ xs, PassedOn ms passed xs ∧ ∀ keys, xs.mapM Json.asString = .ok keys →
      keys = F.kept (clientKeys ms) ++ F.added ps ms (clientKeys ms) := by
  have hlisted : ∀ names, PassedOn ms passed (clientList ms ++ names.map .string) →
      ∃ xs, PassedOn ms passed xs ∧ ∀ keys, xs.mapM Json.asString = .ok keys →
        keys = clientKeys ms ++ names := by
    intro names h
    refine ⟨_, h, fun keys hkeys => ?_⟩
    obtain ⟨listed, hlisted, rfl⟩ := mapM_append_names hkeys
    rw [clientKeys_eq hms hlisted]
  cases F with
  | entity =>
      rw [FindCommand.results, FindEntity.results, getValue_results hresults] at hpassed
      exact hlisted _ (appendPath_passedOn hms.passedOn hms false "VD:blobPath" hpassed)
  | image => exact hlisted _ (image_passedOn hresults hms _ hpassed)
  | video => exact hlisted _ (video_passedOn hresults hms _ hpassed)
  | frames =>
      rw [FindCommand.results, FindFrames.results, getValue_results hresults] at hpassed
      obtain ⟨j', hj', h'⟩ := hms.passedOn.append "VD:videoPath"
      obtain rfl := Except.ok.inj (hj'.symm.trans hpassed)
      exact hlisted ["VD:videoPath"] h'
  | blob => exact hlisted _ (findResults_passedOn hresults hms "VD:blobPath" hpassed)
  | boundingBox => exact boundingBox_keys hresults hms hpassed
  | descriptorSet =>
      rw [FindCommand.results, FindDescriptorSet.results, getValue_results hresults] at hpassed
      obtain ⟨j', hj', h'⟩ := hms.passedOn.setList (["VD:name", "VD:descSetPath",
        "VD:dimensions", "VD:engine"].map .string)
      obtain rfl := Except.ok.inj (hj'.symm.trans hpassed)
      refine ⟨_, h', fun keys hkeys => ?_⟩
      rw [mapM_names] at hkeys
      exact (Except.ok.inj hkeys).symm
  | descriptor =>
      obtain ⟨setName, hset⟩ := schema_set hschema
      have hpassed : FindDescriptor.results setName (.object ps) = .ok passed := by
        simpa [FindCommand.results, Json.get, hset, Json.asString, bind, Except.bind]
          using hpassed
      simpa only [FindCommand.added, hset] using descriptor_keys hresults hms hpassed

end Commands

/-! ### The queries of a command -/

/-- What is added to the transaction are queries for nodes. Their results are parsed from these
blocks. -/
def AddsQueries (query query' : PMGDQuery) (blocks : List Json) : Prop :=
  ∃ cmds, query'.cmds = query.cmds ++ cmds ∧ List.Forall₂ (fun cmd block =>
    cmd.cmdId = .queryNode ∧ parseQueryResults block = .ok cmd.queryNode.results) cmds blocks

section Queries

variable {query query₁ query₂ : PMGDQuery}

theorem AddsQueries.trans {bs bs' : List Json} (h : AddsQueries query query₁ bs)
    (h' : AddsQueries query₁ query₂ bs') : AddsQueries query query₂ (bs ++ bs') := by
  obtain ⟨cmds, heq, hall⟩ := h
  obtain ⟨cmds', heq', hall'⟩ := h'
  refine ⟨cmds ++ cmds', ?_, List.rel_append hall hall'⟩
  rw [heq', heq, List.append_assoc]

theorem queryNode_adds {ref : ℤ} {tag : String} {link constraints results : Json}
    {unique intermediateQuery : Bool}
    (h : query.queryNode ref tag link constraints results unique intermediateQuery =
      .ok query₁) : AddsQueries query query₁ [results] := by
  rw [PMGDQuery.queryNode] at h
  split at h
  all_goals
    obtain ⟨l, -, h⟩ := bind_ok_inv h
    obtain ⟨p, -, h⟩ := bind_ok_inv h
    obtain ⟨parsed, hparsed, h⟩ := bind_ok_inv h
    obtain rfl := Except.ok.inj h
    exact ⟨_, rfl, .cons ⟨rfl, hparsed⟩ .nil⟩

/-- A reference is no query. -/
theorem addsQueries_reference {blocks : List Json}
    (h : AddsQueries { query with currentRef := query.currentRef + 1 } query₁ blocks) :
    AddsQueries query query₁ blocks :=
  h

theorem findNodes_adds {cmd results : Json} {tag member : String}
    (h : findNodes query cmd results tag member = .ok query₁) :
    AddsQueries query query₁ [results] := by
  rw [findNodes] at h
  obtain ⟨ref, -, h⟩ := bind_ok_inv h
  obtain ⟨link, -, h⟩ := bind_ok_inv h
  obtain ⟨constraints, -, h⟩ := bind_ok_inv h
  obtain ⟨unique, -, h⟩ := bind_ok_inv h
  exact queryNode_adds h

/-- The block of a query for the nearest descriptors. -/
def IsHandedOn (passed block : Json) : Prop :=
  block = passed ∨ passed.setMember "limit" (.int 1) = .ok block

/-- The blocks of the queries that the commands make for themselves. -/
def ownBlocks : List Json :=
  [FindDescriptor.setResults, .object [("list", .array [.string "VD:imgPath"])]]

/-- One query for each of the nearest descriptors. Induction on the ids. -/
theorem queryIds_adds {setName : String} {constraints results : Json} {ids : List ℤ}
    (h : FindDescriptor.queryIds setName constraints results ids query = .ok query₁) :
    ∃ blocks, AddsQueries query query₁ blocks ∧ blocks.length = ids.length ∧
      ∀ block ∈ blocks, results.setMember "limit" (.int 1) = .ok block := by
  induction ids generalizing query with
  | nil =>
      obtain rfl := Except.ok.inj h
      exact ⟨[], ⟨[], (List.append_nil _).symm, .nil⟩, rfl, by simp⟩
  | cons id ids ih =>
      obtain ⟨constraints', -, h⟩ := bind_ok_inv h
      obtain ⟨limited, hlimited, h⟩ := bind_ok_inv h
      obtain ⟨query', hquery', h⟩ := bind_ok_inv h
      obtain ⟨blocks, hadds, hlength, hall⟩ := ih h
      refine ⟨[limited] ++ blocks, (queryNode_adds hquery').trans hadds, by simp [hlength], ?_⟩
      intro block hblock
      rcases List.mem_cons.1 hblock with rfl | hblock
      · exact hlimited
      · exact hall block hblock

/-- The index has no descriptor near the one that is asked for. -/
def NoneNear (near : Option FindDescriptor.Nearest) : Prop :=
  near.map FindDescriptor.Nearest.idsArray = some []

/-- The command searches in the index, and the answer of the index begins with no id of a
descriptor. -/
def FindsNone (F : FindCommand) (handler : String → Except String DescriptorIndex)
    (setPath : String) (cmd : Json) (bytes : Bytes) : Prop :=
  F = .descriptor ∧ cmd.hasMember "link" = .ok false ∧ cmd.hasMember "k_neighbors" = .ok true ∧
    ∃ k index found, getValue Json.asInt cmd "k_neighbors" 0 = .ok k ∧
      handler setPath = .ok index ∧ index.search bytes k = .ok found ∧
        found.takeWhile (fun p => 0 ≤ p.1) = []

/-- Each result of a command is parsed from a block of its own, or from the one that it hands
on. None is from that one if there is no descriptor to query for. -/
def Answered (F : FindCommand) (cmd : Json) (query query' : PMGDQuery)
    (near : Option FindDescriptor.Nearest) : Prop :=
  ∃ passed blocks, F.results cmd = .ok passed ∧ AddsQueries query query' blocks ∧
    (∀ block ∈ blocks, block ∈ ownBlocks ∨ ¬ NoneNear near ∧ IsHandedOn passed block) ∧
    (NoneNear near ∨ ∃ block ∈ blocks, IsHandedOn passed block)

theorem answered_once {F : FindCommand} {cmd passed : Json}
    (hresults : F.results cmd = .ok passed) (h : AddsQueries query query₁ [passed]) :
    Answered F cmd query query₁ none :=
  ⟨passed, _, hresults, h, by simp [IsHandedOn, NoneNear], .inr ⟨passed, by simp, .inl rfl⟩⟩

theorem image_answered {cmd : Json}
    (h : FindImage.constructProtobuf query (.object [("FindImage", cmd)]) = .ok query₁) :
    Answered .image cmd query query₁ none := by
  change (findResults cmd "VD:imgPath" >>= _) = _ at h
  obtain ⟨results, hresults, h⟩ := bind_ok_inv h
  obtain ⟨hasMeta, hmeta, h⟩ := bind_ok_inv h
  replace hmeta : cmd.hasMember "metaconstraints" = .ok hasMeta := hmeta
  cases hasMeta with
  | true =>
      obtain ⟨constraints, hconstraints, h⟩ := bind_ok_inv h
      replace hconstraints : cmd.get "metaconstraints" = .ok constraints := hconstraints
      obtain ⟨members, hmembers, h⟩ := bind_ok_inv h
      obtain ⟨passed, hpassed, h⟩ := bind_ok_inv h
      refine answered_once ?_ (findNodes_adds h)
      simp only [FindCommand.results, FindImage.results, hresults, hmeta, hconstraints, hmembers,
        bind, Except.bind, if_true]
      exact hpassed
  | false =>
      refine answered_once ?_ (findNodes_adds h)
      simp only [FindCommand.results, FindImage.results, hresults, hmeta, bind, Except.bind]
      rfl

theorem video_answered {cmd : Json}
    (h : FindVideo.constructProtobuf query (.object [("FindVideo", cmd)]) = .ok query₁) :
    Answered .video cmd query query₁ none := by
  change (findResults cmd "VD:videoPath" >>= _) = _ at h
  obtain ⟨results, hresults, h⟩ := bind_ok_inv h
  obtain ⟨hasMeta, hmeta, h⟩ := bind_ok_inv h
  replace hmeta : cmd.hasMember "metaconstraints" = .ok hasMeta := hmeta
  cases hasMeta with
  | true =>
      obtain ⟨constraints, hconstraints, h⟩ := bind_ok_inv h
      replace hconstraints : cmd.get "metaconstraints" = .ok constraints := hconstraints
      obtain ⟨members, hmembers, h⟩ := bind_ok_inv h
      obtain ⟨passed, hpassed, h⟩ := bind_ok_inv h
      refine answered_once ?_ (findNodes_adds h)
      simp only [FindCommand.results, FindVideo.results, hresults, hmeta, hconstraints, hmembers,
        bind, Except.bind, if_true]
      exact hpassed
  | false =>
      obtain ⟨hasFrame, hframe, h⟩ := bind_ok_inv h
      replace hframe : cmd.hasMember "frameconstraints" = .ok hasFrame := hframe
      cases hasFrame with
      | true =>
          obtain ⟨passed, hpassed, h⟩ := bind_ok_inv h
          refine answered_once ?_ (findNodes_adds h)
          simp only [FindCommand.results, FindVideo.results, hresults, hmeta, hframe, bind,
            Except.bind, if_true]
          exact hpassed
      | false =>
          refine answered_once ?_ (findNodes_adds h)
          simp only [FindCommand.results, FindVideo.results, hresults, hmeta, hframe, bind,
            Except.bind]
          rfl

theorem boundingBox_answered {cmd : Json}
    (h : FindBoundingBox.constructProtobuf query cmd = .ok query₁) :
    Answered .boundingBox cmd query query₁ none := by
  obtain ⟨ref, -, h⟩ := bind_ok_inv h
  obtain ⟨passed, hpassed, h⟩ := bind_ok_inv h
  obtain ⟨link, -, h⟩ := bind_ok_inv h
  obtain ⟨constraints, -, h⟩ := bind_ok_inv h
  obtain ⟨unique, -, h⟩ := bind_ok_inv h
  obtain ⟨boxes, hboxes, h⟩ := bind_ok_inv h
  have hadds : AddsQueries query boxes [passed] := addsQueries_reference (queryNode_adds hboxes)
  rw [FindBoundingBox.findImages] at h
  obtain ⟨blob, -, h⟩ := bind_ok_inv h
  cases blob with
  | true =>
      rw [if_pos rfl] at h
      exact ⟨passed, _, hpassed, hadds.trans (queryNode_adds h),
        by simp [IsHandedOn, ownBlocks, NoneNear], .inr ⟨passed, by simp, .inl rfl⟩⟩
  | false =>
      obtain rfl := Except.ok.inj h
      exact answered_once hpassed hadds

/-- The descriptors of a link or of the set: both the search and the query for the set. -/
theorem searched_answered {F : FindCommand} {cmd passed : Json} {blocks : List Json}
    (hpassed : F.results cmd = .ok passed) (h : AddsQueries query query₁ blocks)
    (hblocks : blocks = [passed, FindDescriptor.setResults] ∨
      blocks = [FindDescriptor.setResults, passed]) : Answered F cmd query query₁ none := by
  refine ⟨passed, blocks, hpassed, h, ?_, .inr ⟨passed, ?_, .inl rfl⟩⟩ <;>
    rcases hblocks with rfl | rfl <;> simp [IsHandedOn, ownBlocks, NoneNear]

/-- A nearest search: behind the query for the set there is one for each id that the answer of
the index begins with. -/
theorem nearest_inv {handler : String → Except String DescriptorIndex}
    {setName setPath : String} {dimensions : ℤ} {constraints cmd passed : Json} {bytes : Bytes}
    {near : FindDescriptor.Nearest}
    (h : FindDescriptor.constructNearest handler setName setPath dimensions constraints passed
      query cmd bytes = .ok (query₁, near)) :
    ∃ k index found set, getValue Json.asInt cmd "k_neighbors" 0 = .ok k ∧
      handler setPath = .ok index ∧ index.search bytes k = .ok found ∧
      near.idsArray = (found.takeWhile fun p => 0 ≤ p.1).map Prod.fst ∧
      AddsQueries query set [FindDescriptor.setResults] ∧
      FindDescriptor.queryIds setName constraints passed near.idsArray set = .ok query₁ := by
  rw [FindDescriptor.constructNearest] at h
  obtain ⟨hasRef, -, h⟩ := bind_ok_inv h
  cases hasRef with
  | true => cases h
  | false =>
      obtain ⟨k, hk, h⟩ := bind_ok_inv h
      obtain ⟨set, hset, h⟩ := bind_ok_inv h
      cases hsize : DescriptorsCommand.checkBlobSize bytes dimensions 1 with
      | false =>
          rw [hsize] at h
          cases h
      | true =>
          rw [hsize] at h
          obtain ⟨index, hindex, h⟩ := bind_ok_inv h
          obtain ⟨found, hfound, h⟩ := bind_ok_inv h
          obtain ⟨query', hquery', h⟩ := bind_ok_inv h
          obtain ⟨rfl, rfl⟩ := Prod.mk.inj (Except.ok.inj h)
          exact ⟨k, index, found, set, ofJson_eq hk, ofVcl_eq hindex, ofVcl_eq hfound, rfl,
            addsQueries_reference (queryNode_adds (ofJson_eq hset)), ofJson_eq hquery'⟩

/-- The results of a nearest search. -/
theorem nearest_answered {handler : String → Except String DescriptorIndex}
    {setName setPath : String} {dimensions : ℤ} {constraints cmd passed : Json} {bytes : Bytes}
    {near : FindDescriptor.Nearest}
    (hpassed : FindCommand.results .descriptor cmd = .ok passed)
    (h : FindDescriptor.constructNearest handler setName setPath dimensions constraints passed
      query cmd bytes = .ok (query₁, near)) :
    Answered .descriptor cmd query query₁ (some near) := by
  obtain ⟨-, -, -, set, -, -, -, -, hset, hquery⟩ := nearest_inv h
  obtain ⟨blocks, hadds, hlength, hall⟩ := queryIds_adds hquery
  refine ⟨passed, _, hpassed, hset.trans hadds, ?_, ?_⟩
  · intro block hblock
    rcases List.mem_cons.1 hblock with rfl | hblock
    · exact .inl (by simp [ownBlocks])
    · refine .inr ⟨fun hnone => ?_, .inr (hall block hblock)⟩
      have hids := congrArg List.length (Option.some.inj hnone)
      rw [List.eq_nil_of_length_eq_zero (hlength.trans hids)] at hblock
      cases hblock
  · cases blocks with
    | nil => exact .inl (congrArg some (List.eq_nil_of_length_eq_zero hlength.symm))
    | cons block blocks => exact .inr ⟨block, by simp, .inr (hall block (by simp))⟩

/-- The three cases of `FindDescriptor`: a link, a search in the index, or all of the set. -/
theorem descriptor_inv {handler : String → Except String DescriptorIndex}
    {setPath : String} {dimensions : ℤ} {cmd : Json} {bytes : Bytes}
    {near : Option FindDescriptor.Nearest}
    (h : FindDescriptor.constructProtobuf handler setPath dimensions query cmd bytes =
      .ok (query₁, near)) :
    ∃ setName constraints passed, FindCommand.results .descriptor cmd = .ok passed ∧
      (cmd.hasMember "link" = .ok true ∧ near = none ∧
          FindDescriptor.constructLinked setName constraints passed query cmd = .ok query₁ ∨
        cmd.hasMember "link" = .ok false ∧ cmd.hasMember "k_neighbors" = .ok true ∧
          (∃ nearest, near = some nearest ∧ FindDescriptor.constructNearest handler setName
            setPath dimensions constraints passed query cmd bytes = .ok (query₁, nearest)) ∨
        cmd.hasMember "k_neighbors" = .ok false ∧ near = none ∧
          FindDescriptor.constructAll setName constraints passed query cmd = .ok query₁) := by
  rw [FindDescriptor.constructProtobuf] at h
  obtain ⟨set, hset, h⟩ := bind_ok_inv h
  obtain ⟨setName, hname, h⟩ := bind_ok_inv h
  by_cases hpath : setPath = ""
  · rw [if_pos hpath] at h
    cases h
  rw [if_neg hpath] at h
  obtain ⟨constraints, -, h⟩ := bind_ok_inv h
  obtain ⟨passed, hpassed, h⟩ := bind_ok_inv h
  have hpassed : FindCommand.results .descriptor cmd = .ok passed := by
    simp only [FindCommand.results, ofJson_eq hset, ofJson_eq hname, bind, Except.bind]
    exact ofJson_eq hpassed
  refine ⟨setName, constraints, passed, hpassed, ?_⟩
  obtain ⟨hasLink, hlink, h⟩ := bind_ok_inv h
  cases hasLink with
  | true =>
      obtain ⟨query', hquery', h⟩ := bind_ok_inv h
      obtain ⟨rfl, rfl⟩ := Prod.mk.inj (Except.ok.inj h)
      exact .inl ⟨ofJson_eq hlink, rfl, ofJson_eq hquery'⟩
  | false =>
      obtain ⟨nearest, hnearest, h⟩ := bind_ok_inv h
      cases nearest with
      | true =>
          obtain ⟨⟨query', nearest⟩, hquery', h⟩ := bind_ok_inv h
          obtain ⟨rfl, rfl⟩ := Prod.mk.inj (Except.ok.inj h)
          exact .inr (.inl ⟨ofJson_eq hlink, ofJson_eq hnearest, nearest, rfl, hquery'⟩)
      | false =>
          obtain ⟨query', hquery', h⟩ := bind_ok_inv h
          obtain ⟨rfl, rfl⟩ := Prod.mk.inj (Except.ok.inj h)
          exact .inr (.inr ⟨ofJson_eq hnearest, rfl, ofJson_eq hquery'⟩)

/-- The results of `FindDescriptor`. -/
theorem descriptor_answered {handler : String → Except String DescriptorIndex}
    {setPath : String} {dimensions : ℤ} {cmd : Json} {bytes : Bytes}
    {near : Option FindDescriptor.Nearest}
    (h : FindDescriptor.constructProtobuf handler setPath dimensions query cmd bytes =
      .ok (query₁, near)) : Answered .descriptor cmd query query₁ near := by
  obtain ⟨setName, constraints, passed, hpassed, ⟨-, rfl, hlinked⟩ |
    ⟨-, -, nearest, rfl, hnearest⟩ | ⟨-, rfl, hquery⟩⟩ := descriptor_inv h
  · rw [FindDescriptor.constructLinked] at hlinked
    obtain ⟨ref, -, hlinked⟩ := bind_ok_inv hlinked
    obtain ⟨link, -, hlinked⟩ := bind_ok_inv hlinked
    obtain ⟨found, hfound, hlinked⟩ := bind_ok_inv hlinked
    exact searched_answered hpassed
      ((addsQueries_reference (queryNode_adds hfound)).trans (queryNode_adds hlinked)) (.inl rfl)
  · exact nearest_answered hpassed hnearest
  · rw [FindDescriptor.constructAll] at hquery
    obtain ⟨set, hset, hquery⟩ := bind_ok_inv hquery
    obtain ⟨ref, -, hquery⟩ := bind_ok_inv hquery
    exact searched_answered hpassed
      ((addsQueries_reference (queryNode_adds hset)).trans (queryNode_adds hquery)) (.inr rfl)

/-- **The queries of a command.** -/
theorem construct_answered (F : FindCommand) {handler : String → Except String DescriptorIndex}
    {setPath : String} {dimensions : ℤ} {cmd : Json} {bytes : Bytes}
    {near : Option FindDescriptor.Nearest}
    (h : F.construct handler setPath dimensions query cmd bytes = .ok (query₁, near)) :
    Answered F cmd query query₁ near := by
  have halone : ∀ {built : Except Stop PMGDQuery},
      built.map (fun query => (query, (none : Option FindDescriptor.Nearest))) =
        .ok (query₁, near) → built = .ok query₁ ∧ near = none := by
    intro built hbuilt
    cases built with
    | error e => cases hbuilt
    | ok query' =>
        obtain ⟨rfl, rfl⟩ := Prod.mk.inj (Except.ok.inj hbuilt)
        exact ⟨rfl, rfl⟩
  cases F with
  | entity =>
      obtain ⟨hquery, rfl⟩ := halone h
      obtain ⟨passed, hpassed, h⟩ := bind_ok_inv (ofJson_eq hquery)
      obtain ⟨tag, -, h⟩ := bind_ok_inv h
      exact answered_once hpassed (findNodes_adds h)
  | image =>
      obtain ⟨hquery, rfl⟩ := halone h
      exact image_answered (ofJson_eq hquery)
  | video =>
      obtain ⟨hquery, rfl⟩ := halone h
      exact video_answered (ofJson_eq hquery)
  | frames =>
      obtain ⟨hquery, rfl⟩ := halone h
      rw [FindFrames.constructProtobuf] at hquery
      obtain ⟨interval, -, h⟩ := bind_ok_inv hquery
      obtain ⟨frames, -, h⟩ := bind_ok_inv h
      by_cases hone : frames = interval
      · rw [if_pos hone] at h
        cases h
      rw [if_neg hone] at h
      obtain ⟨passed, hpassed, h⟩ := bind_ok_inv h
      exact answered_once (ofJson_eq hpassed) (findNodes_adds (ofJson_eq h))
  | blob =>
      obtain ⟨hquery, rfl⟩ := halone h
      obtain ⟨passed, hpassed, h⟩ := bind_ok_inv (ofJson_eq hquery)
      exact answered_once hpassed (findNodes_adds h)
  | boundingBox =>
      obtain ⟨hquery, rfl⟩ := halone h
      exact boundingBox_answered (ofJson_eq hquery)
  | descriptorSet =>
      obtain ⟨hquery, rfl⟩ := halone h
      obtain ⟨passed, hpassed, h⟩ := bind_ok_inv (ofJson_eq hquery)
      obtain ⟨set, -, h⟩ := bind_ok_inv h
      obtain ⟨setName, -, h⟩ := bind_ok_inv h
      exact answered_once hpassed (queryNode_adds h)
  | descriptor => exact descriptor_answered h

/-- **No query for a descriptor** is made exactly if the index finds none. -/
theorem noneNear_iff (F : FindCommand) {handler : String → Except String DescriptorIndex}
    {setPath : String} {dimensions : ℤ} {cmd : Json} {bytes : Bytes}
    {near : Option FindDescriptor.Nearest}
    (h : F.construct handler setPath dimensions query cmd bytes = .ok (query₁, near)) :
    NoneNear near ↔ FindsNone F handler setPath cmd bytes := by
  have halone : ∀ {built : Except Stop PMGDQuery},
      built.map (fun query => (query, (none : Option FindDescriptor.Nearest))) =
        .ok (query₁, near) → F ≠ .descriptor →
          (NoneNear near ↔ FindsNone F handler setPath cmd bytes) := by
    intro built hbuilt hF
    cases built with
    | error e => cases hbuilt
    | ok query' =>
        obtain ⟨rfl, rfl⟩ := Prod.mk.inj (Except.ok.inj hbuilt)
        exact iff_of_false nofun fun hnone => hF hnone.1
  cases F with
  | descriptor =>
      obtain ⟨setName, constraints, passed, -, ⟨hlink, rfl, -⟩ |
        ⟨hlink, hk, nearest, rfl, hnearest⟩ | ⟨hk, rfl, -⟩⟩ := descriptor_inv h
      · refine iff_of_false nofun fun hnone => ?_
        cases hlink.symm.trans hnone.2.1
      · obtain ⟨k, index, found, -, hget, hindex, hfound, hids, -⟩ := nearest_inv hnearest
        rw [NoneNear, Option.map_some, Option.some.injEq, hids, List.map_eq_nil_iff]
        constructor
        · intro hnone
          exact ⟨rfl, hlink, hk, k, index, found, hget, hindex, hfound, hnone⟩
        · rintro ⟨-, -, -, k', index', found', hget', hindex', hfound', hnone⟩
          obtain rfl := Except.ok.inj (hget.symm.trans hget')
          obtain rfl := Except.ok.inj (hindex.symm.trans hindex')
          obtain rfl := Except.ok.inj (hfound.symm.trans hfound')
          exact hnone
      · refine iff_of_false nofun fun hnone => ?_
        cases hk.symm.trans hnone.2.2.1
  | _ => exact halone h nofun

end Queries

/-! ### The key of an aggregate -/

/-- The query has a response key, and the first one is the property that the client has named
for the aggregate whose response type was chosen. -/
structure AggregateKeyed (ms : List (String × Json)) (qr : ResultInfo) : Prop where
  present : qr.responseKeys ≠ []
  sum : qr.rType = .sum → ∀ name, ms.lookup "sum" = some (.string name) →
    qr.responseKeys.head? = some name
  average : qr.rType = .average → ∀ name, ms.lookup "average" = some (.string name) →
    qr.responseKeys.head? = some name

/-- Without a key the loop of `build_results` has nothing to look up. -/
theorem buildSum_absent {ι τ : Type} {I : Iter Handler PMGDException ι τ} {el : τ → Element}
    {avg : Bool} {limit : Option ℕ} {qn : ResultInfo} {ni : ι} (hni : I.bool ni = true)
    (hkeys : qn.responseKeys = []) : buildSum I el avg limit qn ni = stuck := by
  rw [buildSum, if_pos hni, hkeys]

theorem PassedOn.keyed_iff {ms : List (String × Json)} {j : Json} {xs : List Json}
    {keys : List String} {qr : ResultInfo} (h : PassedOn ms j xs) (hms : ResultsBlock ms)
    (hkeys : ∀ keys', xs.mapM Json.asString = .ok keys' → keys' = keys)
    (hqr : parseQueryResults j = .ok qr) :
    AggregateKeyed ms qr ↔ ∃ first rest, keys = first :: rest ∧
      ∀ name, ms.lookup "sum" = some (.string name) → first = name := by
  obtain ⟨hxs, hsum, haverage⟩ := h.parse hms hqr
  rw [← hkeys _ hxs]
  constructor
  · rintro ⟨hpresent, hfirst, -⟩
    obtain ⟨first, rest, heq⟩ := List.exists_cons_of_ne_nil hpresent
    refine ⟨first, rest, heq, fun name hname => ?_⟩
    have := hfirst (hsum.2 (by rw [hname]; rfl)) name hname
    rw [heq] at this
    exact Option.some.inj this
  · rintro ⟨first, rest, heq, hfirst⟩
    refine ⟨by simp [heq], fun _ name hname => ?_, fun havg => ?_⟩
    · rw [heq, hfirst name hname]
      rfl
    · rw [haverage havg] at heq
      cases heq

/-- The queries that a command makes for itself list what they need. -/
theorem ownBlocks_keyed {ms : List (String × Json)} {block : Json} {qr : ResultInfo}
    (hblock : block ∈ ownBlocks) (hqr : parseQueryResults block = .ok qr) :
    AggregateKeyed ms qr := by
  have hlist : qr.rType = .list ∧ qr.responseKeys ≠ [] := by
    simp only [ownBlocks, List.mem_cons, List.not_mem_nil, or_false] at hblock
    rcases hblock with rfl | rfl <;> obtain rfl := Except.ok.inj hqr <;> simp
  exact ⟨hlist.2, fun h => by simp [hlist.1] at h, fun h => by simp [hlist.1] at h⟩

/-- The commands that are added to a transaction. -/
def newCommands (query query' : PMGDQuery) : List Command := query'.cmds.drop query.cmds.length

/-- **The key of an aggregate** is the first key that is listed. So there has to be one, and it
has to be the summand, unless the index has nothing to query for. -/
theorem aggregate_key_iff {F : FindCommand} {handler : String → Except String DescriptorIndex}
    {setPath : String} {dimensions : ℤ} {query query' : PMGDQuery}
    {ps ms : List (String × Json)} {bytes : Bytes} {near : Option FindDescriptor.Nearest}
    (hschema : F.schema (.object ps) = true)
    (hresults : ps.lookup "results" = some (.object ms)) (hsorted : SortedKeys ms)
    (hconstruct : F.construct handler setPath dimensions query (.object ps) bytes =
      .ok (query', near)) :
    (∀ cmd ∈ newCommands query query', AggregateKeyed ms cmd.queryNode.results) ↔
      FindsNone F handler setPath (.object ps) bytes ∨
      ∃ first rest, F.kept (clientKeys ms) ++ F.added ps ms (clientKeys ms) = first :: rest ∧
        ∀ name, ms.lookup "sum" = some (.string name) → first = name := by
  rw [← noneNear_iff F hconstruct]
  have hms := resultsBlock_of_schema (schema_results F hschema hresults) hsorted
  obtain ⟨passed, blocks, hpassed, ⟨cmds, hcmds, hall⟩, hblocks, hasked⟩ :=
    construct_answered F hconstruct
  have hnew : newCommands query query' = cmds := by
    rw [newCommands, hcmds, List.drop_left]
  obtain ⟨xs, h, hkeys⟩ := results_passedOn F hschema hresults hms hpassed
  have hhanded : ∀ {block}, IsHandedOn passed block → PassedOn ms block xs := by
    rintro block (rfl | hlimit)
    · exact h
    · obtain ⟨j', hj', h'⟩ := h.setLimit (.int 1)
      obtain rfl := Except.ok.inj (hj'.symm.trans hlimit)
      exact h'
  rw [hnew]
  constructor
  · intro hkeyed
    refine hasked.imp_right fun ⟨block, hblock, his⟩ => ?_
    obtain ⟨cmd, hcmd, -, hparsed⟩ := forall₂_mem_left hall.flip hblock
    exact ((hhanded his).keyed_iff hms hkeys hparsed).1 (hkeyed cmd hcmd)
  · intro hcond cmd hcmd
    obtain ⟨block, hblock, -, hparsed⟩ := forall₂_mem_left hall hcmd
    rcases hblocks block hblock with hown | ⟨hsome, his⟩
    · exact ownBlocks_keyed hown hparsed
    · exact ((hhanded his).keyed_iff hms hkeys hparsed).2 (hcond.resolve_left hsome)

end

/-- The results block of a search for the sum of the ages. -/
def sumOfAges (list : List (String × Json)) : List (String × Json) :=
  list ++ [("sum", .string "age")]

/-- The search in an empty transaction. -/
def searchAges (ms : List (String × Json)) :
    Except Stop (PMGDQuery × Option FindDescriptor.Nearest) :=
  @FindCommand.construct tableScan .entity (fun _ => .error "") "" 0 (.new 0 0)
    (.object [("class", .string "Person"), ("results", .object ms)]) []

theorem aggregate_key_iff_listed : ∃ query',
    searchAges (sumOfAges [("list", .array [.string "age"])]) = .ok (query', none) ∧
    ∀ cmd ∈ newCommands (.new 0 0) query',
      AggregateKeyed (sumOfAges [("list", .array [.string "age"])]) cmd.queryNode.results := by
  have hsorted : SortedKeys (sumOfAges [("list", .array [.string "age"])]) := by
    simp only [SortedKeys, sumOfAges]
    decide
  refine ⟨_, rfl, (@aggregate_key_iff tableScan .entity (fun _ => .error "") "" 0 (.new 0 0) _
    [("class", .string "Person"), ("results", .object _)] _ [] none (by decide) rfl hsorted
    rfl).2 (.inr ⟨"age", [], by decide, fun name hname => ?_⟩)⟩
  exact Json.string.inj (Option.some.inj hname)

/-- The sum alone: the schema accepts it, and there is no key. -/
theorem sum_not_keyed : ApiSchema.findEntity
      (.object [("class", .string "Person"), ("results", .object (sumOfAges []))]) = true ∧
    ∃ query', searchAges (sumOfAges []) = .ok (query', none) ∧
      ∃ cmd ∈ newCommands (.new 0 0) query', cmd.queryNode.results.rType = .sum ∧
        cmd.queryNode.results.responseKeys = [] ∧
        ¬ AggregateKeyed (sumOfAges []) cmd.queryNode.results := by
  refine ⟨by decide, _, rfl, _, List.mem_singleton_self _, rfl, rfl, fun h => h.present rfl⟩

end Vdms
