import Vdms.PMGDQueryHandler

/-!
# What a Command Can Do

Whatever a method of the handler does to its state, it does by steps of thirteen kinds.
`Effect` lists the kinds, with all that a step of each kind guarantees; `Footprint K m`
says that the computation `m` moves the state by steps of the kinds in `K` only, whether
it returns or raises an exception. A fact about all commands is proved by looking at the
kinds once, and no proof of an invariant unfolds a method.

## Main results

* `Does.tx_eq`, `Does.resultdeletion_eq`, `Does.position_eq`: no kind touches the
  transaction, its flags, or the position.
* `Does.cachedEdges_eq`, `Does.cachedNodes_none`, `Does.errorCode_eq`: frame facts for
  footprints without the kinds concerned.
* `FootprintAt.bind`, `Footprint.loop`, …: the rules by which the footprint of a method
  follows from those of its parts.
-/

namespace Vdms

open Imp Imp.Prog Platform Relation

/-- The kinds of steps. -/
inductive Kind where
  /-- write to the response, but not its error code -/
  | respond
  /-- write the error code of the response -/
  | report (code : ErrorCode)
  /-- enter a new node into the expiration queue -/
  | enter
  /-- go over an element of a `List` result: take it out of the expiration queue and note its
  files if it is to be deleted, or enter it at the start of the server -/
  | queue
  /-- move or reset a cached node reference -/
  | move
  /-- cache a new node reference -/
  | cacheNode
  /-- cache a new edge reference -/
  | cacheEdge
  /-- move or reset a cached edge reference -/
  | stepEdge
  /-- add a node or an edge -/
  | add
  /-- set or remove a property -/
  | update
  /-- go over an element of a `List` result, and leave it -/
  | list
  /-- go over an element of a `List` result, and delete it -/
  | purge
  /-- delete an expired element -/
  | expire
deriving DecidableEq

variable [Platform]

/-- A `List` result deletes the element. -/
def Handler.Purges (s : Handler) (x : Element) : Prop :=
  s.resultdeletion = true ∧ s.db.tag x ≠ descSetTag

/-- One step of a kind. -/
inductive Effect : Kind → Handler → Handler → Prop
  | respond {s : Handler} (f : Response → Response) : (∀ r, (f r).errorCode = r.errorCode) →
      Effect .respond s (s.modifyResponse f)
  | report {s : Handler} {code : ErrorCode} (f : Response → Response) :
      (∀ r, (f r).errorCode = code) → Effect (.report code) s (s.modifyResponse f)
  | enter {s : Handler} (a : AutoDeleteNode) :
      Effect .enter s { s with expirationQueue := insertIntoQueue s.expirationQueue a }
  | unqueue {s : Handler} {x : Element} : s.Purges x →
      Effect .queue s { s with expirationQueue := deleteByValue s.expirationQueue x }
  | noteFile {s : Handler} {x : Element} {key file : String} : s.Purges x → key ∈ pathProps →
      s.db.props x (stringID key) = some (.string file) →
      Effect .queue s { s with cleanupFiles := s.cleanupFiles ++ [file] }
  | enqueue {s : Handler} (a : AutoDeleteNode) : s.autodeleteInit = true →
      Effect .queue s { s with expirationQueue := insertIntoQueue s.expirationQueue a }
  | next {s : Handler} {k : ℤ} {r r' : ReusableNodeIterator} {n : ℕ} :
      s.cachedNodes k = some r → r.next SearchIterator.iter n s = .ret r' s →
      Effect .move s (s.cacheNode k r')
  | reset {s : Handler} {k : ℤ} {r : ReusableNodeIterator} :
      s.cachedNodes k = some r → Effect .move s (s.cacheNode k r.reset)
  | cacheNode {s : Handler} {k : ℤ} (r : ReusableNodeIterator) : s.cachedNodes k = none →
      Effect .cacheNode s (s.cacheNode k r)
  | cacheEdge {s : Handler} {k : ℤ} (r : ReusableEdgeIterator) : s.cachedEdges k = none →
      Effect .cacheEdge s (s.cacheEdge k r)
  | stepEdge {s : Handler} {k : ℤ} {r r' : ReusableEdgeIterator} :
      s.cachedEdges k = some r → r'.traversed = r.traversed →
      Effect .stepEdge s (s.cacheEdge k r')
  | addNode {s : Handler} (tag : StringID) : Effect .add s (s.setDb (s.db.addNode tag))
  | addEdge {s : Handler} (src dst : NodeID) (tag : StringID) :
      Effect .add s (s.setDb (s.db.addEdge src dst tag))
  | update {s : Handler} (x : Element) (f : Props → Props) :
      Effect .update s (s.setDb (s.db.modifyProps x f))
  | list {s : Handler} {x : Element} : ¬ s.Purges x → Effect .list s (s.list x)
  | purge {s : Handler} {x : Element} : s.Purges x →
      Effect .purge s ((s.list x).setDb (s.db.remove x))
  | removeFile {s : Handler} (files : List String) :
      Effect .expire s { s with removedFiles := files }
  | expire {s : Handler} (x : Element) (queue : List AutoDeleteNode) :
      Effect .expire s { s.setDb (s.db.remove x) with expirationQueue := queue }

/-- Any number of steps of the kinds in `K`. -/
def Does (K : List Kind) : Handler → Handler → Prop :=
  ReflTransGen fun s t => ∃ κ ∈ K, Effect κ s t

/-- From `s` the computation moves the state by steps of the kinds in `K` only. -/
def FootprintAt {α : Type} (K : List Kind) (m : Handling α) (s : Handler) : Prop :=
  Sat m s (fun _ t => Does K s t) (fun _ t => Does K s t)

/-- The computation moves the state by steps of the kinds in `K` only. -/
def Footprint {α : Type} (K : List Kind) (m : Handling α) : Prop :=
  ∀ s, FootprintAt K m s

/-- The computation does not change the state. -/
abbrev ReadOnly {α : Type} (m : Handling α) : Prop := Footprint [] m

/-! ### Frame facts -/

section Frame

variable {K K' : List Kind} {s t u : Handler}

theorem Does.refl : Does K s s := ReflTransGen.refl

theorem Does.trans (h : Does K s t) (h' : Does K t u) : Does K s u :=
  ReflTransGen.trans h h'

theorem Does.single {κ : Kind} (hκ : κ ∈ K) (h : Effect κ s t) : Does K s t :=
  ReflTransGen.single ⟨κ, hκ, h⟩

theorem Does.mono (h : Does K s t) (hK : K ⊆ K') : Does K' s t :=
  ReflTransGen.mono (fun _ _ ⟨κ, hκ, he⟩ => ⟨κ, hK hκ, he⟩) _ _ h

/-- What every step keeps, a run of steps keeps. -/
theorem Does.keeps {β : Type} {f : Handler → β} (h : Does K s t)
    (hf : ∀ {κ s t}, κ ∈ K → Effect κ s t → f t = f s) : f t = f s := by
  induction h with
  | refl => rfl
  | tail _ hstep ih =>
      obtain ⟨κ, hκ, he⟩ := hstep
      rw [hf hκ he, ih]

/-- **The invariant rule.** What every step preserves, a run of steps preserves. -/
theorem Does.invariant {P : Handler → Prop} (h : Does K s t) (hs : P s)
    (hP : ∀ {κ s t}, κ ∈ K → Effect κ s t → P s → P t) : P t := by
  induction h with
  | refl => exact hs
  | tail _ hstep ih =>
      obtain ⟨κ, hκ, he⟩ := hstep
      exact hP hκ he ih

omit [Platform] in
theorem list_eq (s : Handler) (x : Element) : ∃ l, s.list x = { s with listed := l } := by
  cases x with
  | node n => exact ⟨_, rfl⟩
  | edge e => exact ⟨s.listed, rfl⟩

/-- The fields that no step touches. -/
theorem Effect.fixed {κ : Kind} (h : Effect κ s t) :
    t.tx = s.tx ∧ t.resultdeletion = s.resultdeletion ∧ t.position = s.position ∧
      t.readonly = s.readonly ∧ t.now = s.now := by
  cases h with
  | @list _ x _ =>
      obtain ⟨l, hl⟩ := list_eq s x
      rw [hl]
      exact ⟨rfl, rfl, rfl, rfl, rfl⟩
  | @purge _ x _ =>
      obtain ⟨l, hl⟩ := list_eq s x
      rw [hl]
      exact ⟨rfl, rfl, rfl, rfl, rfl⟩
  | _ => exact ⟨rfl, rfl, rfl, rfl, rfl⟩

theorem Does.tx_eq (h : Does K s t) : t.tx = s.tx :=
  h.keeps fun _ he => he.fixed.1

theorem Does.resultdeletion_eq (h : Does K s t) : t.resultdeletion = s.resultdeletion :=
  h.keeps fun _ he => he.fixed.2.1

theorem Does.position_eq (h : Does K s t) : t.position = s.position :=
  h.keeps fun _ he => he.fixed.2.2.1

theorem Effect.autodeleteInit_eq {κ : Kind} (h : Effect κ s t) :
    t.autodeleteInit = s.autodeleteInit := by
  cases h with
  | @list _ x _ =>
      obtain ⟨l, hl⟩ := list_eq s x
      rw [hl]
  | @purge _ x _ =>
      obtain ⟨l, hl⟩ := list_eq s x
      rw [hl]
      rfl
  | _ => rfl

theorem Does.autodeleteInit_eq (h : Does K s t) : t.autodeleteInit = s.autodeleteInit :=
  h.keeps fun _ he => he.autodeleteInit_eq

theorem Effect.db_eq {κ : Kind} (h : Effect κ s t)
    (hκ : κ ∉ [Kind.add, .update, .purge, .expire]) : t.db = s.db := by
  cases h with
  | @list _ x _ =>
      obtain ⟨l, hl⟩ := list_eq s x
      rw [hl]
  | addNode | addEdge | update | purge | expire | removeFile => simp at hκ
  | _ => rfl

theorem Does.db_eq (h : Does K s t)
    (hK : ∀ κ ∈ K, κ ∉ [Kind.add, .update, .purge, .expire]) : t.db = s.db :=
  h.keeps fun hκ he => he.db_eq (hK _ hκ)

theorem Effect.cachedEdges_eq {κ : Kind} (h : Effect κ s t)
    (hκ : κ ∉ [Kind.cacheEdge, .stepEdge]) : t.cachedEdges = s.cachedEdges := by
  cases h with
  | @list _ x _ =>
      obtain ⟨l, hl⟩ := list_eq s x
      rw [hl]
  | @purge _ x _ =>
      obtain ⟨l, hl⟩ := list_eq s x
      rw [hl]
      rfl
  | cacheEdge | stepEdge => simp at hκ
  | _ => rfl

/-- Without the kinds that touch them, the edge references stay as they are. -/
theorem Does.cachedEdges_eq (h : Does K s t)
    (hK : ∀ κ ∈ K, κ ∉ [Kind.cacheEdge, .stepEdge]) : t.cachedEdges = s.cachedEdges :=
  h.keeps fun hκ he => he.cachedEdges_eq (hK _ hκ)

theorem Effect.cachedEdges_isSome {κ : Kind} {k : ℤ} (h : Effect κ s t)
    (hs : (s.cachedEdges k).isSome = true) : (t.cachedEdges k).isSome = true := by
  have hupdate : ∀ (k' : ℤ) (r : ReusableEdgeIterator),
      ((s.cacheEdge k' r).cachedEdges k).isSome = true := fun k' r => by
    by_cases hk : k = k'
    · subst hk
      rw [Handler.cacheEdge_same]
      rfl
    · rwa [Handler.cacheEdge_of_ne s r hk]
  cases h with
  | cacheEdge r _ => exact hupdate _ r
  | stepEdge _ _ => exact hupdate _ _
  | list hx => rwa [(Effect.list hx).cachedEdges_eq (by simp)]
  | purge hx => rwa [(Effect.purge hx).cachedEdges_eq (by simp)]
  | _ => exact hs

/-- An edge reference stays until the end of the transaction, and beyond. -/
theorem Does.cachedEdges_isSome {k : ℤ} (h : Does K s t)
    (hs : (s.cachedEdges k).isSome = true) : (t.cachedEdges k).isSome = true :=
  h.invariant (P := fun u => (u.cachedEdges k).isSome = true) hs
    fun _ he hu => he.cachedEdges_isSome hu

theorem Effect.cachedNodes_eq {κ : Kind} (h : Effect κ s t)
    (hκ : κ ∉ [Kind.move, .cacheNode]) : t.cachedNodes = s.cachedNodes := by
  cases h with
  | @list _ x _ =>
      obtain ⟨l, hl⟩ := list_eq s x
      rw [hl]
  | @purge _ x _ =>
      obtain ⟨l, hl⟩ := list_eq s x
      rw [hl]
      rfl
  | next | reset | cacheNode => simp at hκ
  | _ => rfl

/-- Moving references does not make one. -/
theorem Does.cachedNodes_none {k : ℤ} (h : Does K s t) (hK : .cacheNode ∉ K)
    (hk : s.cachedNodes k = none) : t.cachedNodes k = none := by
  refine h.invariant (P := fun u => u.cachedNodes k = none) hk fun {κ s t} hκ he hs => ?_
  cases he with
  | @next _ k' r r' n hr _ =>
      by_cases hkk : k = k'
      · rw [hkk, hr] at hs
        cases hs
      · rw [Handler.cacheNode_of_ne s r' hkk, hs]
  | @reset _ k' r hr =>
      by_cases hkk : k = k'
      · rw [hkk, hr] at hs
        cases hs
      · rw [Handler.cacheNode_of_ne s _ hkk, hs]
  | cacheNode => exact absurd hκ hK
  | list hx => rw [(Effect.list hx).cachedNodes_eq (by simp), hs]
  | purge hx => rw [(Effect.purge hx).cachedNodes_eq (by simp), hs]
  | _ => exact hs

/-- The error code is the one it was or one that was reported. -/
theorem Does.errorCode_eq (h : Does K s t) :
    t.response.errorCode = s.response.errorCode ∨ .report t.response.errorCode ∈ K := by
  refine h.invariant (P := fun u => u.response.errorCode = s.response.errorCode ∨
    .report u.response.errorCode ∈ K) (.inl rfl) fun {κ u v} hκ he hu => ?_
  cases he with
  | respond f hf =>
      simp only [Handler.modifyResponse, hf]
      exact hu
  | @report _ code f hf =>
      right
      simpa only [Handler.modifyResponse, hf] using hκ
  | @list _ x _ =>
      obtain ⟨l, hl⟩ := list_eq u x
      rw [hl]
      exact hu
  | @purge _ x _ =>
      obtain ⟨l, hl⟩ := list_eq u x
      rw [hl]
      exact hu
  | _ => exact hu

theorem Does.eq (h : Does [] s t) : t = s :=
  h.keeps (f := id) fun hκ => by cases hκ

end Frame

/-! ### Rules -/

section Rules

variable {α β : Type} {K K' : List Kind} {s : Handler} {m : Handling α}
  {f : α → Handling β}

theorem FootprintAt.mono (h : FootprintAt K m s) (hK : K ⊆ K') : FootprintAt K' m s :=
  Sat.mono h (fun _ _ h => h.mono hK) (fun _ _ h => h.mono hK)

/-- What a run that returned has done. -/
theorem FootprintAt.does {a : α} {t : Handler} (h : FootprintAt K m s)
    (hrun : Runs m s (.ret a t)) : Does K s t :=
  Sat.ret (Q := fun _ t => Does K s t) h hrun

theorem Footprint.mono (h : Footprint K m) (hK : K ⊆ K') : Footprint K' m :=
  fun s => (h s).mono hK

theorem ReadOnly.footprint (h : ReadOnly m) : Footprint K m :=
  Footprint.mono h (List.nil_subset K)

theorem ReadOnly.reads (h : ReadOnly m) (s : Handler) : Reads m s fun _ => True :=
  Sat.mono (h s) (fun _ _ ht => ⟨ht.eq, trivial⟩) fun _ _ _ => trivial

/-- A property of the error code that all codes have that may be reported. -/
theorem Footprint.keeps_code {C : ErrorCode → Prop} (hm : Footprint K m)
    (hK : ∀ code, .report code ∈ K → C code) (hs : C s.response.errorCode) :
    Sat m s (fun _ t => C t.response.errorCode) fun _ t => C t.response.errorCode := by
  have hkeeps : ∀ t, Does K s t → C t.response.errorCode := fun t ht => by
    rcases ht.errorCode_eq with heq | hmem
    · rwa [heq]
    · exact hK _ hmem
  exact Sat.mono (hm s) (fun _ => hkeeps) fun _ => hkeeps

theorem FootprintAt.bind (h : FootprintAt K' m s) (hK : K' ⊆ K)
    (hf : ∀ a t, Does K' s t → FootprintAt K (f a) t) : FootprintAt K (m >>= f) s := by
  refine Sat.bind (Sat.mono h (fun _ _ h => h) fun _ _ h => h.mono hK) fun a t hst => ?_
  exact Sat.mono (hf a t hst) (fun _ _ h => (hst.mono hK).trans h)
    fun _ _ h => (hst.mono hK).trans h

theorem Footprint.bind (h : Footprint K m) (hf : ∀ a, Footprint K (f a)) :
    Footprint K (m >>= f) :=
  fun s => (h s).bind (List.Subset.refl K) fun a t _ => hf a t

theorem Footprint.pure (a : α) : Footprint K (pure a : Handling α) :=
  fun _ => Sat.pure .refl

theorem Footprint.throw (e : PMGDException) : Footprint K (throw e : Handling α) :=
  fun _ => Sat.throw .refl

theorem Footprint.stuck : Footprint K (stuck : Handling α) :=
  fun _ => Sat.stuck

theorem FootprintAt.get_bind {f : Handler → Handling β} (h : FootprintAt K (f s) s) :
    FootprintAt K (Prog.get >>= f) s :=
  fun n => h n

theorem Footprint.get_bind {f : Handler → Handling β} (h : ∀ u, Footprint K (f u)) :
    Footprint K (Prog.get >>= f) :=
  fun s => FootprintAt.get_bind (h s s)

theorem FootprintAt.modify {g : Handler → Handler} {κ : Kind} (hκ : κ ∈ K)
    (h : Effect κ s (g s)) : FootprintAt K (modify g : Handling Unit) s :=
  Sat.modify (.single hκ h)

theorem Footprint.modify {g : Handler → Handler} {κ : Kind} (hκ : κ ∈ K)
    (h : ∀ s, Effect κ s (g s)) : Footprint K (modify g : Handling Unit) :=
  fun s => FootprintAt.modify hκ (h s)

theorem FootprintAt.ite {c : Prop} [Decidable c] {m m' : Handling α}
    (h : c → FootprintAt K m s) (h' : ¬ c → FootprintAt K m' s) :
    FootprintAt K (if c then m else m') s :=
  Sat.ite h h'

theorem Footprint.ite {c : Prop} [Decidable c] {m m' : Handling α}
    (h : Footprint K m) (h' : Footprint K m') : Footprint K (if c then m else m') :=
  fun s => FootprintAt.ite (fun _ => h s) fun _ => h' s

theorem Footprint.when {c : Prop} [Decidable c] {m : Handling Unit} (h : Footprint K m) :
    Footprint K (when c m) :=
  Footprint.ite h (Footprint.pure _)

theorem Footprint.loop {body : α → Handling (α ⊕ β)} (h : ∀ a, Footprint K (body a))
    (a : α) : Footprint K (loop body a) :=
  Within.loop h a

theorem Footprint.forEach {as : List α} {f : α → Handling Unit}
    (h : ∀ a, Footprint K (f a)) : Footprint K (forEach as f) :=
  Within.forEach fun a _ => h a

end Rules

end Vdms
