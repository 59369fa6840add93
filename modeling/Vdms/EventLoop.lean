import Mathlib.Data.List.Basic
import Mathlib.Logic.Relation

/-!
# The Event Loop

`ImageLoop` and `VideoLoop` are one design: a caller enqueues items, an operation thread
takes what is in its buffer and applies the items' operations, a remote thread sends items
to a remote service, and a map collects the items by their identifiers. `EventLoop.Step` is
one step of the caller or of one of the threads; `LoopKind` is what the two loops do
differently.

A step reads or writes what the threads share at most once, or is a run of writes with no
read between them. The destructor is not part of the model: it runs after the caller has
read the map, and it alone sets `destroyed`.

## Main results

* `EventLoop.Inv.step`: what a step preserves, if the loop is not ended while an item is
  in flight.
* `EventLoop.Inv.run`: what holds in every state of such a run.
* `EventLoop.Inv.complete`: when the loop has stopped, the map answers for every key.
-/

namespace Vdms

open Relation Std

/-- What the operation thread does with the item at hand. -/
inductive Turn (α : Type) where
  /-- Nothing is left to be done. -/
  | done
  /-- An operation was applied: the item is stored in the map and stays at hand. -/
  | applied (item : α)
  /-- The last operation was applied: the item is stored in the map. -/
  | stored (item : α)
  /-- A remote operation is next: the item goes to the remote thread. -/
  | remote (item : α)
  /-- An operation failed: the item is stored with its error, and the loop is ended. -/
  | failed (item : α)

/-- What an event loop does with its items. Operations depend on services outside of the
program, so they are relations. -/
structure LoopKind (α : Type) where
  /-- The identifier of the item: its key in the map. -/
  key : α → String
  /-- What `enqueue` and `r_enqueue` put into the buffers. -/
  copy : α → α
  turn : α → Turn α → Prop
  /-- The item can be sent: what is sent for it exists. -/
  sendable : α → Prop
  /-- The item, and what it is after the answer of the remote service. -/
  answer : α → α → Prop
  /-- The item, and what it is after an answer that cannot be decoded. -/
  undecoded : α → α → Prop
  /-- The item, and what it is after the remote service has failed. -/
  reject : α → α → Prop
  /-- The entry of the map after an item is stored over another. -/
  store : Option α → α → α
  storeAnswer : Option α → α → α
  storeError : Option α → α → α
  /-- A failed operation ends the work on the batch, not only on the item. -/
  leavesBatch : Bool

/-- Where the operation thread is, and what it has at hand. -/
inductive OperationThread (α : Type) where
  /-- At the head of `while (m_running)`. -/
  | looping
  /-- Waiting for the write buffer to be filled. -/
  | waiting
  | working (flag : Bool) (readBuffer : List α)
  /-- About to end the loop after a failed operation. -/
  | failing (readBuffer : List α)
  /-- At the test for the end: before `flag` and `_remote_running`, … -/
  | testing (flag : Bool)
  /-- … before the size of `m_writeBuffer`, … -/
  | testingWriteBuffer
  /-- … before the size of `r_writeBuffer`, … -/
  | testingRemoteBuffer
  /-- … and after it: about to end the loop. -/
  | stopping
  | exited

/-- Where the remote thread is, and what it has at hand. -/
inductive RemoteThread (α : Type) where
  | looping (readBuffer : List α)
  | waiting (readBuffer : List α)
  /-- Out of the critical section. -/
  | taken (readBuffer : List α)
  /-- The batch is sent to the remote service. -/
  | requesting (readBuffer : List α)
  /-- The answers are stored one by one; `pending` are those to be sent again. -/
  | storing (readBuffer pending : List α)
  | enqueueing (item : α) (readBuffer pending : List α)
  /-- About to end the loop after the remote service has failed. -/
  | rejected (readBuffer : List α)
  | finishing
  | exited

/-- The loop, its caller and its threads. -/
structure EventLoop (α : Type) where
  nrofEntities : ℕ
  /-- What the caller has yet to enqueue. -/
  entities : List α
  map : TreeMap String α
  mWriteBuffer : List α
  mRunning : Bool
  rWriteBuffer : List α
  rRunning : Bool
  remoteRunning : Bool
  operation : OperationThread α
  remote : RemoteThread α

namespace OperationThread

variable {α : Type}

/-- The items at hand. -/
@[simp]
def hand : OperationThread α → List α
  | working _ readBuffer => readBuffer
  | failing readBuffer => readBuffer
  | _ => []

@[simp]
def isFailing : OperationThread α → Bool
  | failing _ => true
  | _ => false

end OperationThread

namespace RemoteThread

variable {α : Type}

/-- The items at hand whose remote operation is not done. -/
@[simp]
def hand : RemoteThread α → List α
  | looping readBuffer => readBuffer
  | waiting readBuffer => readBuffer
  | taken readBuffer => readBuffer
  | requesting readBuffer => readBuffer
  | storing readBuffer pending => readBuffer ++ pending
  | enqueueing _ readBuffer pending => readBuffer ++ pending
  | rejected readBuffer => readBuffer
  | finishing => []
  | exited => []

/-- The item on its way back to the operation thread. -/
@[simp]
def returning : RemoteThread α → List α
  | enqueueing item _ _ => [item]
  | _ => []

@[simp]
def isRejected : RemoteThread α → Bool
  | rejected _ => true
  | _ => false

end RemoteThread

namespace EventLoop

variable {α : Type}

/-- The loop of a caller with these entities, before the first is enqueued. -/
def start (nrofEntities : ℕ) (entities : List α) : EventLoop α where
  nrofEntities := nrofEntities
  entities := entities
  map := ∅
  mWriteBuffer := []
  mRunning := true
  rWriteBuffer := []
  rRunning := true
  remoteRunning := false
  operation := .looping
  remote := .looping []

def isLoopRunning (s : EventLoop α) : Bool := s.mRunning || s.rRunning

/-- `m_writeBuffer.clear(); r_writeBuffer.clear();`, and the flags. -/
def shutDown (s : EventLoop α) : EventLoop α :=
  { s with
    remoteRunning := false
    mWriteBuffer := []
    rWriteBuffer := []
    mRunning := false
    rRunning := false }

/-- The item in the map, over the entry that is there. -/
def put (K : LoopKind α) (merge : Option α → α → α) (map : TreeMap String α) (item : α) :
    TreeMap String α :=
  map.insert (K.key item) (merge map[K.key item]? item)

/-- One step of the caller, of the operation thread or of the remote thread. -/
inductive Step (K : LoopKind α) (s : EventLoop α) : EventLoop α → Prop where
  | enqueue {item rest} : s.entities = item :: rest →
      Step K s { s with
        entities := rest
        mWriteBuffer := s.mWriteBuffer ++ [K.copy item] }
  -- the operation thread
  | enter : s.operation = .looping → s.mRunning = true →
      Step K s { s with operation := .waiting }
  | exit : s.operation = .looping → s.mRunning = false →
      Step K s { s with operation := .exited }
  | take : s.operation = .waiting → s.mWriteBuffer ≠ [] →
      Step K s { s with operation := .working false s.mWriteBuffer, mWriteBuffer := [] }
  | done {flag item rest} : s.operation = .working flag (item :: rest) → K.turn item .done →
      Step K s { s with operation := .working flag rest }
  | applied {flag item item' rest} : s.operation = .working flag (item :: rest) →
      K.turn item (.applied item') →
      Step K s { s with
        map := put K K.store s.map item'
        operation := .working flag (item' :: rest) }
  | stored {flag item item' rest} : s.operation = .working flag (item :: rest) →
      K.turn item (.stored item') →
      Step K s { s with
        map := put K K.store s.map item'
        operation := .working flag rest }
  | hand {flag item item' rest} : s.operation = .working flag (item :: rest) →
      K.turn item (.remote item') →
      Step K s { s with
        rWriteBuffer := s.rWriteBuffer ++ [K.copy item']
        operation := .working true rest }
  | fail {flag item item' rest} : s.operation = .working flag (item :: rest) →
      K.turn item (.failed item') →
      Step K s { s with
        map := put K K.storeError s.map item'
        operation := .failing rest }
  | abort {rest} : s.operation = .failing rest →
      Step K s { s.shutDown with
        operation := .working false (if K.leavesBatch then [] else rest) }
  | worked {flag} : s.operation = .working flag [] →
      Step K s { s with operation := .testing flag }
  | test {flag} : s.operation = .testing flag →
      Step K s { s with
        operation := if flag = false ∧ s.remoteRunning = false then .testingWriteBuffer
          else .looping }
  | testWriteBuffer : s.operation = .testingWriteBuffer →
      Step K s { s with
        operation := if s.mWriteBuffer = [] then .testingRemoteBuffer else .looping }
  | testRemoteBuffer : s.operation = .testingRemoteBuffer →
      Step K s { s with operation := if s.rWriteBuffer = [] then .stopping else .looping }
  | stop : s.operation = .stopping →
      Step K s { s with mRunning := false, rRunning := false, operation := .looping }
  -- the remote thread
  | enterRemote {batch} : s.remote = .looping batch → s.rRunning = true →
      Step K s { s with remote := .waiting batch }
  | exitRemote {batch} : s.remote = .looping batch → s.rRunning = false →
      Step K s { s with remote := .exited }
  | takeRemote {batch} : s.remote = .waiting batch → s.rWriteBuffer ≠ [] →
      s.rWriteBuffer.length = s.nrofEntities →
      Step K s { s with remote := .taken s.rWriteBuffer, rWriteBuffer := batch }
  | leaveRemote {batch} : s.remote = .waiting batch → s.rWriteBuffer ≠ [] →
      s.rWriteBuffer.length ≠ s.nrofEntities →
      Step K s { s with remote := .taken batch }
  | request {batch} : s.remote = .taken batch → batch.length = s.nrofEntities →
      Step K s { s with remoteRunning := true, remote := .requesting batch }
  | retry {batch} : s.remote = .taken batch → batch.length ≠ s.nrofEntities →
      Step K s { s with remote := .looping batch }
  | answered {batch} : s.remote = .requesting batch → (∀ item ∈ batch, K.sendable item) →
      Step K s { s with remote := .storing batch [] }
  | storeAnswer {item item' rest pending} : s.remote = .storing (item :: rest) pending →
      K.answer item item' →
      Step K s { s with
        map := put K K.storeAnswer s.map item'
        remoteRunning := if rest = [] ∧ pending = [] then false else s.remoteRunning
        remote := .enqueueing item' rest pending }
  | storeUndecoded {item item' rest pending} : s.remote = .storing (item :: rest) pending →
      K.undecoded item item' →
      Step K s { s with
        map := put K K.storeAnswer s.map item'
        remote := .enqueueing item' rest (pending ++ [item']) }
  | enqueueAnswer {item rest pending} : s.remote = .enqueueing item rest pending →
      Step K s { s with
        mWriteBuffer := s.mWriteBuffer ++ [K.copy item]
        remote := .storing rest pending }
  | again {pending} : s.remote = .storing [] pending → pending ≠ [] →
      Step K s { s with remote := .requesting pending }
  | finish : s.remote = .storing [] [] →
      Step K s { s with remote := .finishing }
  | reject {item item' rest} : s.remote = .requesting (item :: rest) →
      (∀ x ∈ item :: rest, K.sendable x) → K.reject item item' →
      Step K s { s with
        map := put K K.storeError s.map item'
        remote := .rejected rest }
  | abortRemote {rest} : s.remote = .rejected rest →
      Step K s { s.shutDown with remote := .finishing }
  | finished : s.remote = .finishing →
      Step K s { s with remoteRunning := false, remote := .looping [] }

/-- A step that ends the loop. -/
def Ends (s t : EventLoop α) : Prop := s.mRunning = true ∧ t.mRunning = false

/-- An operation, or the remote service, has just failed. -/
def failing (s : EventLoop α) : Bool := s.operation.isFailing || s.remote.isRejected

/-! ### Nothing in flight -/

/-- Nothing is left to be enqueued, sent or applied: what is in the write buffer or at hand
of the operation thread has nothing left to be done. -/
structure Quiet (left : α → Prop) (s : EventLoop α) : Prop where
  enqueued : s.entities = []
  sent : s.rWriteBuffer = []
  answered : s.remote.hand = []
  buffered : ∀ x ∈ s.mWriteBuffer, ¬left x
  worked : ∀ x ∈ s.operation.hand, ¬left x
  returned : ∀ x ∈ s.remote.returning, ¬left x

/-- An item that is not through. -/
inductive InFlight (left : α → Prop) (s : EventLoop α) (x : α) : Prop where
  | entity : x ∈ s.entities → InFlight left s x
  | buffered : x ∈ s.mWriteBuffer → left x → InFlight left s x
  | atHand : x ∈ s.operation.hand → left x → InFlight left s x
  | toSend : x ∈ s.rWriteBuffer → InFlight left s x
  | sent : x ∈ s.remote.hand → InFlight left s x
  | returning : x ∈ s.remote.returning → left x → InFlight left s x

/-- A step that ends the loop only if nothing is in flight. Where `fails` does not hold,
nothing fails. -/
structure QuietStep (K : LoopKind α) (left : α → Prop) (fails : Prop) (s t : EventLoop α) :
    Prop where
  step : Step K s t
  quiet : Ends s t → Quiet left s
  fails : t.failing = true → fails

/-- A step after which the loop goes on, and in which nothing fails. -/
theorem QuietStep.of_running {K : LoopKind α} {left : α → Prop} {fails : Prop}
    {s t : EventLoop α} (hstep : Step K s t) (hrun : t.mRunning = true)
    (hfails : t.failing = false) : QuietStep K left fails s t where
  step := hstep
  quiet h := absurd (hrun.symm.trans h.2) Bool.noConfusion
  fails h := absurd (hfails.symm.trans h) Bool.noConfusion

theorem Quiet.not_inFlight {left : α → Prop} {s : EventLoop α} (h : Quiet left s) (x : α) :
    ¬InFlight left s x := by
  rintro (hx | ⟨hx, hl⟩ | ⟨hx, hl⟩ | hx | hx | ⟨hx, hl⟩)
  · rw [h.enqueued] at hx
    cases hx
  · exact h.buffered x hx hl
  · exact h.worked x hx hl
  · rw [h.sent] at hx
    cases hx
  · rw [h.answered] at hx
    cases hx
  · exact h.returned x hx hl

end EventLoop

/-! ### Accounts -/

/-- What is known of the items of a loop, by where they are, and what the entries of the map
have to be. -/
structure Account {α : Type} (K : LoopKind α) (keys : List String) where
  /-- Items that the caller has yet to enqueue. -/
  fresh : α → Prop
  /-- Items of the operation thread. -/
  ready : α → Prop
  /-- Items of the remote thread. -/
  handed : α → Prop
  /-- Something is left to be done. -/
  left : α → Prop
  /-- The entry of the map answers for the key. -/
  recorded : String → α → Prop
  /-- A failed item is recorded by its error. -/
  recordsErrors : Prop
  copy_key : ∀ x, K.key (K.copy x) = K.key x
  fresh_copy : ∀ {x}, fresh x → ready (K.copy x) ∧ left (K.copy x)
  ready_copy : ∀ {x}, ready x → ready (K.copy x) ∧ (left (K.copy x) ↔ left x)
  handed_copy : ∀ {x}, handed x → handed (K.copy x)
  ready_key : ∀ {x}, ready x → K.key x ∈ keys
  handed_key : ∀ {x}, handed x → K.key x ∈ keys
  done : ∀ {x}, ready x → K.turn x .done → ¬left x
  settled : ∀ {x turn}, ready x → ¬left x → K.turn x turn → turn = .done
  applied : ∀ {x y}, ready x → K.turn x (.applied y) →
    K.key y = K.key x ∧ ready y ∧ (¬left y → ∀ prior, recorded (K.key y) (K.store prior y))
  stored : ∀ {x y}, ready x → K.turn x (.stored y) →
    K.key y = K.key x ∧ ∀ prior, recorded (K.key y) (K.store prior y)
  hand : ∀ {x y}, ready x → K.turn x (.remote y) → K.key y = K.key x ∧ handed y
  fail : ∀ {x y}, ready x → K.turn x (.failed y) →
    K.key y = K.key x ∧ (recordsErrors → ∀ prior, recorded (K.key y) (K.storeError prior y))
  sendable : ∀ {x}, handed x → K.sendable x
  answer : ∀ {x y}, handed x → K.answer x y →
    K.key y = K.key x ∧ ready y ∧ (¬left y → ∀ prior, recorded (K.key y) (K.storeAnswer prior y))
  undecoded : ∀ {x y}, handed x → K.undecoded x y →
    K.key y = K.key x ∧ ready y ∧ ¬K.sendable y
  reject : ∀ {x y}, handed x → K.reject x y →
    K.key y = K.key x ∧ (recordsErrors → ∀ prior, recorded (K.key y) (K.storeError prior y))

namespace EventLoop

variable {α : Type} {K : LoopKind α} {keys : List String} (A : Account K keys)
  {s t : EventLoop α}

/-- The items of the remote thread are on their way to the service, or cannot be sent. -/
def Batched : RemoteThread α → Prop
  | .looping batch => ∀ x ∈ batch, A.handed x
  | .waiting batch => ∀ x ∈ batch, A.handed x
  | .taken batch => ∀ x ∈ batch, A.handed x
  | .requesting batch => (∀ x ∈ batch, A.handed x) ∨ ∃ x ∈ batch, ¬K.sendable x
  | .storing batch pending => (∀ x ∈ batch, A.handed x) ∧ ∀ x ∈ pending, ¬K.sendable x
  | .enqueueing _ batch pending => (∀ x ∈ batch, A.handed x) ∧ ∀ x ∈ pending, ¬K.sendable x
  | .rejected _ => True
  | .finishing => True
  | .exited => True

/-- Every key is that of an item in flight, or the map answers for it. -/
def Covered (s : EventLoop α) : Prop :=
  ∀ k ∈ keys, (∃ x, InFlight A.left s x ∧ K.key x = k) ∨
    ∃ y, s.map[k]? = some y ∧ A.recorded k y

/-- The invariant of runs that end the loop when nothing is in flight. -/
structure Inv (s : EventLoop α) : Prop where
  fresh : ∀ x ∈ s.entities, A.fresh x
  buffered : ∀ x ∈ s.mWriteBuffer, A.ready x
  worked : ∀ x ∈ s.operation.hand, A.ready x
  returning : ∀ x ∈ s.remote.returning, A.ready x
  toSend : ∀ x ∈ s.rWriteBuffer, A.handed x
  batched : Batched A s.remote
  entries : ∀ k ∈ s.map, k ∈ keys
  covered : Covered A s
  quiet : s.mRunning = false → Quiet A.left s
  running : s.rRunning = s.mRunning


variable {A}

theorem mem_put {merge : Option α → α → α} {map : TreeMap String α} {y : α} {k : String}
    (h : k ∈ put K merge map y) : k ∈ map ∨ k = K.key y := by
  rw [put, TreeMap.mem_insert, Std.compare_eq_iff_eq] at h
  exact h.symm.imp id Eq.symm

theorem entries_put {merge : Option α → α → α} {map : TreeMap String α} {y : α}
    (h : ∀ k ∈ map, k ∈ keys) (hy : K.key y ∈ keys) : ∀ k ∈ put K merge map y, k ∈ keys := by
  intro k hk
  rcases mem_put hk with hk | rfl
  · exact h k hk
  · exact hy

theorem getElem?_put (merge : Option α → α → α) (map : TreeMap String α) (y : α) (k : String) :
    (put K merge map y)[k]? =
      if K.key y = k then some (merge map[K.key y]? y) else map[k]? := by
  simp only [put, TreeMap.getElem?_insert, Std.compare_eq_iff_eq]

/-- Items stay in flight, perhaps as others with their keys. -/
theorem Covered.keep (h : Covered A s) (hmap : t.map = s.map)
    (hkeep : ∀ x, InFlight A.left s x → ∃ y, InFlight A.left t y ∧ K.key y = K.key x) :
    Covered A t := by
  intro k hk
  rcases h k hk with ⟨x, hx, rfl⟩ | ⟨y, hy, hrec⟩
  · exact .inl (hkeep x hx)
  · exact .inr ⟨y, by rw [hmap, hy], hrec⟩

/-- An item is stored in the map: it stays in flight, or the entry answers for it. -/
theorem Covered.put (merge : Option α → α → α) {y : α} (h : Covered A s)
    (hmap : t.map = put K merge s.map y)
    (hkeep : ∀ x, InFlight A.left s x → K.key x ≠ K.key y → InFlight A.left t x)
    (hput : InFlight A.left t y ∨ ∀ old, A.recorded (K.key y) (merge old y)) : Covered A t := by
  intro k hk
  by_cases hkey : K.key y = k
  · rcases hput with hy | hrec
    · exact .inl ⟨y, hy, hkey⟩
    · refine .inr ⟨merge s.map[K.key y]? y, ?_, hkey ▸ hrec _⟩
      rw [hmap, getElem?_put, if_pos hkey]
  · rcases h k hk with ⟨x, hx, rfl⟩ | ⟨z, hz, hrec⟩
    · exact .inl ⟨x, hkeep x hx (Ne.symm hkey), rfl⟩
    · refine .inr ⟨z, ?_, hrec⟩
      rw [hmap, getElem?_put, if_neg hkey, hz]

/-- Where nothing is in flight, no step puts anything in flight. -/
theorem Quiet.step (h : Quiet A.left s) (hinv : Inv A s) (hstep : Step K s t) :
    Quiet A.left t := by
  have hsettled : ∀ {flag item rest turn}, s.operation = .working flag (item :: rest) →
      K.turn item turn → turn = .done := by
    intro flag item rest turn hop hturn
    have hmem : item ∈ s.operation.hand := by simp [hop]
    exact A.settled (hinv.worked item hmem) (h.worked item hmem) hturn
  have hworked := h.worked
  have hanswered := h.answered
  have hreturned := h.returned
  cases hstep with
  | enqueue hent => simp [h.enqueued] at hent
  | enter hop => exact { h with worked := by simp }
  | exit hop => exact { h with worked := by simp }
  | take hop hne => exact { h with buffered := by simp, worked := h.buffered }
  | done hop hturn =>
      rw [hop] at hworked
      exact { h with worked := fun x hx => hworked x (List.mem_cons_of_mem _ hx) }
  | applied hop hturn => cases hsettled hop hturn
  | stored hop hturn => cases hsettled hop hturn
  | hand hop hturn => cases hsettled hop hturn
  | fail hop hturn => cases hsettled hop hturn
  | @abort rest hop =>
      rw [hop] at hworked
      refine { h with sent := rfl, buffered := by simp [shutDown], worked := ?_ }
      cases K.leavesBatch with
      | false => simpa using hworked
      | true => simp
  | worked hop => exact { h with worked := by simp }
  | test hop => refine { h with worked := ?_ }; dsimp only; split <;> simp
  | testWriteBuffer hop => refine { h with worked := ?_ }; dsimp only; split <;> simp
  | testRemoteBuffer hop => refine { h with worked := ?_ }; dsimp only; split <;> simp
  | stop hop => exact { h with worked := by simp }
  | enterRemote hr =>
      rw [hr] at hanswered
      exact { h with answered := hanswered, returned := by simp }
  | exitRemote hr =>
      exact { h with answered := rfl, returned := by simp }
  | takeRemote hr hne => exact absurd h.sent hne
  | leaveRemote hr hne => exact absurd h.sent hne
  | request hr =>
      rw [hr] at hanswered
      exact { h with answered := hanswered, returned := by simp }
  | retry hr =>
      rw [hr] at hanswered
      exact { h with answered := hanswered, returned := by simp }
  | answered hr =>
      rw [hr] at hanswered
      refine { h with answered := ?_, returned := by simp }
      simpa using hanswered
  | storeAnswer hr => simp [hr] at hanswered
  | storeUndecoded hr => simp [hr] at hanswered
  | @enqueueAnswer item rest pending hr =>
      rw [hr] at hanswered hreturned
      have hready := hinv.returning item (by simp [hr])
      have hleft := hreturned item (by simp)
      refine { h with answered := hanswered, buffered := ?_,
                      returned := by simp }
      intro x hx
      rcases List.mem_append.mp hx with hx | hx
      · exact h.buffered x hx
      · rw [List.mem_singleton.mp hx, (A.ready_copy hready).2]
        exact hleft
  | again hr hne => simp [hr, hne] at hanswered
  | finish hr =>
      exact { h with answered := rfl, returned := by simp }
  | reject hr => simp [hr] at hanswered
  | abortRemote hr =>
      exact { h with sent := rfl, answered := rfl, buffered := by simp [shutDown],
                     returned := by simp }
  | finished hr =>
      exact { h with answered := rfl, returned := by simp }

theorem Inv.quiet_before (h : Inv A s) (hstep : QuietStep K A.left A.recordsErrors s t)
    (hrun : t.mRunning = false) : Quiet A.left s := by
  cases hs : s.mRunning with
  | false => exact h.quiet hs
  | true => exact hstep.quiet ⟨hs, hrun⟩

theorem Inv.quiet_step (h : Inv A s) (hstep : QuietStep K A.left A.recordsErrors s t)
    (hrun : t.mRunning = false) : Quiet A.left t :=
  (h.quiet_before hstep hrun).step h hstep.step

/-- Where nothing is in flight, the map answers for every key. -/
theorem Covered.recorded (h : Covered A s) (hquiet : Quiet A.left s) :
    ∀ k ∈ keys, ∃ y, s.map[k]? = some y ∧ A.recorded k y := fun k hk =>
  (h k hk).resolve_left fun ⟨x, hx, _⟩ => hquiet.not_inFlight x hx

theorem Covered.of_quiet (h : Covered A s) (hquiet : Quiet A.left s) (hmap : t.map = s.map) :
    Covered A t := by
  intro k hk
  rw [hmap]
  exact .inr (h.recorded hquiet k hk)

/-- An item that stays where it is stays in flight. -/
theorem InFlight.imp {left : α → Prop} {x : α} (h : InFlight left s x)
    (hentity : x ∈ s.entities → x ∈ t.entities)
    (hbuffered : x ∈ s.mWriteBuffer → x ∈ t.mWriteBuffer)
    (hhand : x ∈ s.operation.hand → left x → x ∈ t.operation.hand)
    (hsend : x ∈ s.rWriteBuffer → x ∈ t.rWriteBuffer)
    (hsent : x ∈ s.remote.hand → x ∈ t.remote.hand)
    (hreturning : x ∈ s.remote.returning → left x → x ∈ t.remote.returning) :
    InFlight left t x := by
  cases h with
  | entity hx => exact .entity (hentity hx)
  | buffered hx hl => exact .buffered (hbuffered hx) hl
  | atHand hx hl => exact .atHand (hhand hx hl) hl
  | toSend hx => exact .toSend (hsend hx)
  | sent hx => exact .sent (hsent hx)
  | returning hx hl => exact .returning (hreturning hx hl) hl

/-- The operation thread moves on with what it has at hand. -/
theorem Covered.operate (h : Covered A s) (hmap : t.map = s.map)
    (hentities : t.entities = s.entities) (hbuffer : t.mWriteBuffer = s.mWriteBuffer)
    (hsend : t.rWriteBuffer = s.rWriteBuffer) (hremote : t.remote = s.remote)
    (hhand : ∀ x ∈ s.operation.hand, A.left x → x ∈ t.operation.hand) : Covered A t := by
  refine h.keep hmap fun x hx => ⟨x, ?_, rfl⟩
  refine hx.imp (by rw [hentities]; exact id) (by rw [hbuffer]; exact id) (hhand x)
    (by rw [hsend]; exact id) (by rw [hremote]; exact id) ?_
  rw [hremote]
  exact fun hret _ => hret

/-- The remote thread moves on with what it has at hand. -/
theorem Covered.remoteMove (h : Covered A s) (hmap : t.map = s.map)
    (hentities : t.entities = s.entities) (hbuffer : t.mWriteBuffer = s.mWriteBuffer)
    (hsend : t.rWriteBuffer = s.rWriteBuffer) (hoperation : t.operation = s.operation)
    (hhand : ∀ x ∈ s.remote.hand, x ∈ t.remote.hand)
    (hreturning : s.remote.returning = []) : Covered A t := by
  refine h.keep hmap fun x hx => ⟨x, ?_, rfl⟩
  refine hx.imp (by rw [hentities]; exact id) (by rw [hbuffer]; exact id) ?_
    (by rw [hsend]; exact id) (hhand x) (by rw [hreturning]; exact nofun)
  rw [hoperation]
  exact fun hop _ => hop

/-- What a step preserves, apart from the coverage of the keys. -/
theorem Inv.held (h : Inv A s) (hstep : QuietStep K A.left A.recordsErrors s t)
    (hcovered : Covered A t) : Inv A t := by
  have hquiet := h.quiet_step hstep
  have hworked := h.worked
  have hreturning := h.returning
  have hbatched := h.batched
  have hfresh := h.fresh
  cases hstep.step with
  | @enqueue item rest hent =>
      rw [hent] at hfresh
      have hcopy := A.fresh_copy (hfresh item List.mem_cons_self)
      refine { h with fresh := fun x hx => hfresh x (List.mem_cons_of_mem _ hx),
                      buffered := ?_, covered := hcovered, quiet := hquiet }
      exact List.forall_mem_append.mpr ⟨h.buffered, List.forall_mem_singleton.mpr hcopy.1⟩
  | enter hop => exact { h with worked := by simp, covered := hcovered, quiet := hquiet }
  | exit hop => exact { h with worked := by simp, covered := hcovered, quiet := hquiet }
  | take hop hne =>
      exact { h with buffered := by simp, worked := h.buffered, covered := hcovered,
                     quiet := hquiet }
  | done hop hturn =>
      rw [hop] at hworked
      exact { h with worked := fun x hx => hworked x (List.mem_cons_of_mem _ hx),
                     covered := hcovered, quiet := hquiet }
  | @applied flag item item' rest hop hturn =>
      rw [hop] at hworked
      obtain ⟨hitem, hworked⟩ := List.forall_mem_cons.mp hworked
      obtain ⟨hkey, hready, -⟩ := A.applied hitem hturn
      exact { h with worked := List.forall_mem_cons.mpr ⟨hready, hworked⟩,
                     entries := entries_put h.entries (A.ready_key hready),
                     covered := hcovered, quiet := hquiet }
  | @stored flag item item' rest hop hturn =>
      rw [hop] at hworked
      obtain ⟨hitem, hworked⟩ := List.forall_mem_cons.mp hworked
      obtain ⟨hkey, -⟩ := A.stored hitem hturn
      exact { h with worked := hworked,
                     entries := entries_put h.entries (hkey ▸ A.ready_key hitem),
                     covered := hcovered, quiet := hquiet }
  | @hand flag item item' rest hop hturn =>
      rw [hop] at hworked
      obtain ⟨hitem, hworked⟩ := List.forall_mem_cons.mp hworked
      obtain ⟨hkey, hhanded⟩ := A.hand hitem hturn
      refine { h with worked := hworked, toSend := ?_, covered := hcovered, quiet := hquiet }
      exact List.forall_mem_append.mpr
        ⟨h.toSend, List.forall_mem_singleton.mpr (A.handed_copy hhanded)⟩
  | @fail flag item item' rest hop hturn =>
      rw [hop] at hworked
      obtain ⟨hitem, hworked⟩ := List.forall_mem_cons.mp hworked
      obtain ⟨hkey, -⟩ := A.fail hitem hturn
      exact { h with worked := hworked,
                     entries := entries_put h.entries (hkey ▸ A.ready_key hitem),
                     covered := hcovered, quiet := hquiet }
  | @abort rest hop =>
      rw [hop] at hworked
      refine { h with buffered := by simp [shutDown], toSend := by simp [shutDown],
                      worked := ?_, covered := hcovered, quiet := hquiet, running := rfl }
      cases K.leavesBatch with
      | false => simpa using hworked
      | true => simp
  | worked hop => exact { h with worked := by simp, covered := hcovered, quiet := hquiet }
  | test hop =>
      refine { h with worked := ?_, covered := hcovered, quiet := hquiet }
      dsimp only
      split <;> simp
  | testWriteBuffer hop =>
      refine { h with worked := ?_, covered := hcovered, quiet := hquiet }
      dsimp only
      split <;> simp
  | testRemoteBuffer hop =>
      refine { h with worked := ?_, covered := hcovered, quiet := hquiet }
      dsimp only
      split <;> simp
  | stop hop =>
      exact { h with worked := by simp, covered := hcovered, quiet := hquiet, running := rfl }
  | enterRemote hr =>
      rw [hr] at hbatched
      exact { h with returning := by simp, batched := hbatched, covered := hcovered,
                     quiet := hquiet }
  | exitRemote hr =>
      exact { h with returning := by simp, batched := trivial, covered := hcovered,
                     quiet := hquiet }
  | takeRemote hr hne hlen =>
      rw [hr] at hbatched
      exact { h with returning := by simp, batched := h.toSend, toSend := hbatched,
                     covered := hcovered, quiet := hquiet }
  | leaveRemote hr hne hlen =>
      rw [hr] at hbatched
      exact { h with returning := by simp, batched := hbatched, covered := hcovered,
                     quiet := hquiet }
  | request hr =>
      rw [hr] at hbatched
      exact { h with returning := by simp, batched := .inl hbatched, covered := hcovered,
                     quiet := hquiet }
  | retry hr =>
      rw [hr] at hbatched
      exact { h with returning := by simp, batched := hbatched, covered := hcovered,
                     quiet := hquiet }
  | answered hr hsend =>
      rw [hr] at hbatched
      have hhanded := hbatched.resolve_right fun ⟨x, hx, hnot⟩ => hnot (hsend x hx)
      exact { h with returning := by simp, batched := ⟨hhanded, by simp⟩,
                     covered := hcovered, quiet := hquiet }
  | @storeAnswer item item' rest pending hr hanswer =>
      rw [hr] at hbatched
      obtain ⟨hbatch, hpending⟩ := hbatched
      obtain ⟨hitem, hrest⟩ := List.forall_mem_cons.mp hbatch
      obtain ⟨hkey, hready, -⟩ := A.answer hitem hanswer
      exact { h with returning := by simpa using hready, batched := ⟨hrest, hpending⟩,
                     entries := entries_put h.entries (A.ready_key hready),
                     covered := hcovered, quiet := hquiet }
  | @storeUndecoded item item' rest pending hr hanswer =>
      rw [hr] at hbatched
      obtain ⟨hbatch, hpending⟩ := hbatched
      obtain ⟨hitem, hrest⟩ := List.forall_mem_cons.mp hbatch
      obtain ⟨hkey, hready, hsend⟩ := A.undecoded hitem hanswer
      refine { h with returning := by simpa using hready, batched := ⟨hrest, ?_⟩,
                      entries := entries_put h.entries (A.ready_key hready),
                      covered := hcovered, quiet := hquiet }
      exact List.forall_mem_append.mpr ⟨hpending, List.forall_mem_singleton.mpr hsend⟩
  | @enqueueAnswer item rest pending hr =>
      rw [hr] at hbatched hreturning
      have hready := A.ready_copy (hreturning item (by simp))
      refine { h with returning := by simp, batched := hbatched, buffered := ?_,
                      covered := hcovered, quiet := hquiet }
      exact List.forall_mem_append.mpr ⟨h.buffered, List.forall_mem_singleton.mpr hready.1⟩
  | again hr hne =>
      rw [hr] at hbatched
      obtain ⟨x, hx⟩ := List.exists_mem_of_ne_nil _ hne
      exact { h with returning := by simp, batched := .inr ⟨x, hx, hbatched.2 x hx⟩,
                     covered := hcovered, quiet := hquiet }
  | finish hr =>
      exact { h with returning := by simp, batched := trivial, covered := hcovered,
                     quiet := hquiet }
  | @reject item item' rest hr hsend hreject =>
      rw [hr] at hbatched
      have hhanded := hbatched.resolve_right fun ⟨x, hx, hnot⟩ => hnot (hsend x hx)
      have hitem := hhanded item List.mem_cons_self
      obtain ⟨hkey, -⟩ := A.reject hitem hreject
      exact { h with returning := by simp, batched := trivial,
                     entries := entries_put h.entries (hkey ▸ A.handed_key hitem),
                     covered := hcovered, quiet := hquiet }
  | abortRemote hr =>
      exact { h with returning := by simp, batched := trivial, buffered := by simp [shutDown],
                     toSend := by simp [shutDown], covered := hcovered, quiet := hquiet,
                     running := rfl }
  | finished hr =>
      exact { h with returning := by simp, batched := by simp [Batched], covered := hcovered,
                     quiet := hquiet }

/-- A step keeps every key covered: what leaves the flight is answered for by the map. -/
theorem Covered.step (hinv : Inv A s)
    (hstep : QuietStep K A.left A.recordsErrors s t) : Covered A t := by
  have h := hinv.covered
  have hworked := hinv.worked
  have hbatched := hinv.batched
  have hquiet := hinv.quiet_step hstep
  cases hstep.step with
  | @enqueue item rest hent =>
      have hcopy := A.fresh_copy (hinv.fresh item (by simp [hent]))
      refine h.keep rfl fun x hx => ?_
      by_cases hitem : x = item
      · exact ⟨K.copy x, .buffered (by simp [hitem]) (hitem ▸ hcopy.2), A.copy_key x⟩
      · refine ⟨x, hx.imp ?_ (List.mem_append_left _) (fun hop _ => hop) id id
          fun hret _ => hret, rfl⟩
        rw [hent]
        exact fun hmem => (List.mem_cons.mp hmem).resolve_left hitem
  | enter hop => exact h.operate rfl rfl rfl rfl rfl (by simp [hop])
  | exit hop => exact h.operate rfl rfl rfl rfl rfl (by simp [hop])
  | take hop hne =>
      refine h.keep rfl fun x hx => ⟨x, ?_, rfl⟩
      cases hx with
      | entity hx => exact .entity hx
      | buffered hx hl => exact .atHand hx hl
      | atHand hx hl => simp [hop] at hx
      | toSend hx => exact .toSend hx
      | sent hx => exact .sent hx
      | returning hx hl => exact .returning hx hl
  | @done flag item rest hop hturn =>
      have hdone := A.done (hworked item (by simp [hop])) hturn
      refine h.operate rfl rfl rfl rfl rfl ?_
      rw [hop]
      intro x hx hl
      exact (List.mem_cons.mp hx).resolve_left fun heq => hdone (heq ▸ hl)
  | @applied flag item item' rest hop hturn =>
      obtain ⟨hkey, hready, hrec⟩ := A.applied (hworked item (by simp [hop])) hturn
      refine h.put K.store rfl ?_ ?_
      · intro x hx hne
        refine hx.imp id id ?_ id id fun hret _ => hret
        rw [hop]
        intro hmem _
        have hx := (List.mem_cons.mp hmem).resolve_left fun heq => hne (by rw [heq, hkey])
        exact List.mem_cons_of_mem _ hx
      · by_cases hl : A.left item'
        · exact .inl (.atHand (by simp) hl)
        · exact .inr (hrec hl)
  | @stored flag item item' rest hop hturn =>
      obtain ⟨hkey, hrec⟩ := A.stored (hworked item (by simp [hop])) hturn
      refine h.put K.store rfl ?_ (.inr hrec)
      intro x hx hne
      refine hx.imp id id ?_ id id fun hret _ => hret
      rw [hop]
      exact fun hmem _ => (List.mem_cons.mp hmem).resolve_left fun heq => hne (by rw [heq, hkey])
  | @hand flag item item' rest hop hturn =>
      obtain ⟨hkey, -⟩ := A.hand (hworked item (by simp [hop])) hturn
      refine h.keep rfl fun x hx => ?_
      by_cases hitem : x = item
      · exact ⟨K.copy item', .toSend (by simp), by rw [A.copy_key, hkey, hitem]⟩
      · refine ⟨x, hx.imp id id ?_ (List.mem_append_left _) id fun hret _ => hret, rfl⟩
        rw [hop]
        exact fun hmem _ => (List.mem_cons.mp hmem).resolve_left hitem
  | @fail flag item item' rest hop hturn =>
      obtain ⟨hkey, hrec⟩ := A.fail (hworked item (by simp [hop])) hturn
      refine h.put K.storeError rfl ?_
        (.inr (hrec (hstep.fails (by simp [failing]))))
      intro x hx hne
      refine hx.imp id id ?_ id id fun hret _ => hret
      rw [hop]
      exact fun hmem _ => (List.mem_cons.mp hmem).resolve_left fun heq => hne (by rw [heq, hkey])
  | abort hop => exact h.of_quiet (hinv.quiet_before hstep rfl) rfl
  | worked hop => exact h.operate rfl rfl rfl rfl rfl (by simp [hop])
  | test hop => exact h.operate rfl rfl rfl rfl rfl (by simp [hop])
  | testWriteBuffer hop => exact h.operate rfl rfl rfl rfl rfl (by simp [hop])
  | testRemoteBuffer hop => exact h.operate rfl rfl rfl rfl rfl (by simp [hop])
  | stop hop => exact h.operate rfl rfl rfl rfl rfl (by simp [hop])
  | enterRemote hr =>
      exact h.remoteMove rfl rfl rfl rfl rfl (by rw [hr]; exact fun _ => id) (by simp [hr])
  | exitRemote hr hrun =>
      exact h.of_quiet (hinv.quiet (hinv.running ▸ hrun)) rfl
  | @takeRemote batch hr hne hlen =>
      refine h.keep rfl fun x hx => ⟨x, ?_, rfl⟩
      cases hx with
      | entity hx => exact .entity hx
      | buffered hx hl => exact .buffered hx hl
      | atHand hx hl => exact .atHand hx hl
      | toSend hx => exact .sent hx
      | sent hx => exact .toSend (by simpa [hr] using hx)
      | returning hx hl => simp [hr] at hx
  | leaveRemote hr hne hlen =>
      exact h.remoteMove rfl rfl rfl rfl rfl (by rw [hr]; exact fun _ => id) (by simp [hr])
  | request hr =>
      exact h.remoteMove rfl rfl rfl rfl rfl (by rw [hr]; exact fun _ => id) (by simp [hr])
  | retry hr =>
      exact h.remoteMove rfl rfl rfl rfl rfl (by rw [hr]; exact fun _ => id) (by simp [hr])
  | answered hr hsend =>
      exact h.remoteMove rfl rfl rfl rfl rfl (by simp [hr]) (by simp [hr])
  | @storeAnswer item item' rest pending hr hanswer =>
      rw [hr] at hbatched
      obtain ⟨hkey, -, hrec⟩ := A.answer (hbatched.1 item List.mem_cons_self) hanswer
      refine h.put K.storeAnswer rfl ?_ ?_
      · intro x hx hne
        refine hx.imp id id (fun hop _ => hop) id ?_ (by simp [hr])
        rw [hr]
        exact fun hmem => (List.mem_cons.mp hmem).resolve_left fun heq => hne (by rw [heq, hkey])
      · by_cases hl : A.left item'
        · exact .inl (.returning (by simp) hl)
        · exact .inr (hrec hl)
  | @storeUndecoded item item' rest pending hr hanswer =>
      rw [hr] at hbatched
      obtain ⟨hkey, -⟩ := A.undecoded (hbatched.1 item List.mem_cons_self) hanswer
      refine h.put K.storeAnswer rfl ?_ (.inl (.sent (by simp)))
      intro x hx hne
      refine hx.imp id id (fun hop _ => hop) id ?_ (by simp [hr])
      rw [hr]
      intro hmem
      have hx := (List.mem_cons.mp hmem).resolve_left fun heq => hne (by rw [heq, hkey])
      rcases List.mem_append.mp hx with hx | hx
      · exact List.mem_append_left _ hx
      · exact List.mem_append_right _ (List.mem_append_left _ hx)
  | @enqueueAnswer item rest pending hr =>
      have hcopy := A.ready_copy (hinv.returning item (by simp [hr]))
      refine h.keep rfl fun x hx => ?_
      cases hx with
      | entity hx => exact ⟨x, .entity hx, rfl⟩
      | buffered hx hl => exact ⟨x, .buffered (List.mem_append_left _ hx) hl, rfl⟩
      | atHand hx hl => exact ⟨x, .atHand hx hl, rfl⟩
      | toSend hx => exact ⟨x, .toSend hx, rfl⟩
      | sent hx => exact ⟨x, .sent (by simpa [hr] using hx), rfl⟩
      | returning hx hl =>
          obtain rfl : x = item := by simpa [hr] using hx
          exact ⟨K.copy x, .buffered (by simp) (hcopy.2.mpr hl), A.copy_key x⟩
  | again hr hne =>
      exact h.remoteMove rfl rfl rfl rfl rfl (by simp [hr]) (by simp [hr])
  | finish hr => exact h.remoteMove rfl rfl rfl rfl rfl (by simp [hr]) (by simp [hr])
  | @reject item item' rest hr hsend hreject =>
      rw [hr] at hbatched
      have hhanded := hbatched.resolve_right fun ⟨x, hx, hnot⟩ => hnot (hsend x hx)
      obtain ⟨hkey, hrec⟩ := A.reject (hhanded item List.mem_cons_self) hreject
      refine h.put K.storeError rfl ?_
        (.inr (hrec (hstep.fails (by simp [failing]))))
      intro x hx hne
      refine hx.imp id id (fun hop _ => hop) id ?_ (by simp [hr])
      rw [hr]
      exact fun hmem => (List.mem_cons.mp hmem).resolve_left fun heq => hne (by rw [heq, hkey])
  | abortRemote hr => exact h.of_quiet (hinv.quiet_before hstep rfl) rfl
  | finished hr => exact h.remoteMove rfl rfl rfl rfl rfl (by simp [hr]) (by simp [hr])

/-- What a step preserves. -/
theorem Inv.step (h : Inv A s) (hstep : QuietStep K A.left A.recordsErrors s t) : Inv A t :=
  h.held hstep (Covered.step h hstep)

/-- What holds in every state of a run. -/
theorem Inv.run (h : Inv A s)
    (hrun : ReflTransGen (QuietStep K A.left A.recordsErrors) s t) : Inv A t := by
  induction hrun with
  | refl => exact h
  | tail _ hstep ih => exact ih.step hstep

variable (A) in
/-- The invariant holds before the first item is enqueued. -/
theorem Inv.start {entities : List α} (nrofEntities : ℕ) (hfresh : ∀ x ∈ entities, A.fresh x)
    (hkeys : ∀ k ∈ keys, ∃ x ∈ entities, K.key x = k) :
    Inv A (start nrofEntities entities) where
  fresh := hfresh
  buffered := nofun
  worked := nofun
  returning := nofun
  toSend := nofun
  batched := nofun
  entries := fun k hk => absurd hk TreeMap.not_mem_emptyc
  covered := fun k hk => .inl (by
    obtain ⟨x, hx, hkey⟩ := hkeys k hk
    exact ⟨x, .entity hx, hkey⟩)
  quiet := nofun
  running := rfl

/-- When the loop has stopped, the map answers for every key. -/
theorem Inv.complete (h : Inv A s) (hstopped : s.isLoopRunning = false) :
    (∀ k ∈ keys, ∃ y, s.map[k]? = some y ∧ A.recorded k y) ∧ Quiet A.left s := by
  have hrun : s.mRunning = false := by
    rw [isLoopRunning, Bool.or_eq_false_iff] at hstopped
    exact hstopped.1
  exact ⟨h.covered.recorded (h.quiet hrun), h.quiet hrun⟩

/-- The map of a loop that has stopped has the keys. -/
theorem Inv.mem_map_iff (h : Inv A s) (hstopped : s.isLoopRunning = false) (k : String) :
    k ∈ s.map ↔ k ∈ keys := by
  refine ⟨h.entries k, fun hk => ?_⟩
  obtain ⟨y, hy, -⟩ := (h.complete hstopped).1 k hk
  exact TreeMap.mem_iff_isSome_getElem?.mpr (by simp [hy])

end EventLoop

end Vdms
