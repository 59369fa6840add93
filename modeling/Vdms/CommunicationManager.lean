import Vdms.Imp.Threads

/-!
# The Communication Manager

`Server::process_requests` passes the connections that it accepts to `add_connection`. The
threads of the pool run `process_queue`: each takes the first connection of `_workq`, has a
query handler process it, and deletes it. The destructor of the server calls `shutdown`, which
sets `_shutdown` and wakes the threads up with a connection that is `NULL`. The destructor of
the manager then shuts the sockets of the connections in `_conn_list` down, one after the other,
and waits for the threads to end.

A step of a thread is a critical section, or what a thread does between two of them. The
critical section of `process_queue` is in three steps, since `_shutdown` is set outside of
`_mlock`. A connection is a value of an arbitrary type, and `process_connection` is a call that
may return at any time.

The loop of the destructor does not lock `_conn_list`, in which the threads go on to insert and
to erase. A connection that a thread inserts once the loop has begun is in front of the
iterator, and is not shut down. If a thread erases the connection that the iterator is at, then
what the loop does next is undefined, and the model has no step for it. Each call of the list is
taken to be atomic.

## Main definitions

* `CommunicationManager`, `CommunicationManager.Step`: the queue, the pool and the server.
* `CommunicationManager.Inv`: where the connections are, and who wakes up whom.

## Main results

* `connections_served_in_order`: each connection is taken once and in order, by one thread.
* `no_thread_sleeps`: a connection does not wait in the queue while a thread sleeps.
* `shutdown_ends`: how every run ends after `shutdown`, and what it leaves in the queue.
-/

namespace Vdms

open Imp Pipe

/-- Where a thread is in `process_queue`, and what it has at hand. -/
inductive Worker (C : Type) where
  /-- About to lock `_mlock` and to test whether `_workq` is empty. -/
  | looking
  /-- In `_cv.wait`, until it is woken up. -/
  | waiting
  /-- It holds `_mlock`, `_workq` is not empty: before the test of `_shutdown`, … -/
  | testing
  /-- … and after it. -/
  | taking
  /-- Out of the critical section with what it took, which may be `NULL`. -/
  | holding (c : Option C)
  /-- The connection is in `_conn_list`, and `process_connection` runs. -/
  | processing (c : C)
  /-- `process_connection` has returned. -/
  | processed (c : C)
  | exited

/-- Where the thread of the server is. -/
inductive Caller where
  /-- In `process_requests`, between two calls of `add_connection`. -/
  | serving
  /-- In `add_connection`, before `notify_one`; the last call is that of `shutdown`. -/
  | notifying (last : Bool)
  /-- In `shutdown`, before `add_connection(NULL)`. -/
  | shuttingDown
  /-- In `shutdown`, before `notify_all`. -/
  | notifyingAll
  /-- Before the loop of the destructor, … -/
  | destroying
  /-- … in the loop, … -/
  | closing
  /-- … and after it, before the threads are joined. -/
  | joining
  | joined
  deriving DecidableEq

/-- `CommunicationManager` with the threads of `_pool` and the thread of the server. `mlock`
says that a thread of the pool holds `_mlock`. The iterator of the loop in the destructor is
given by the number of connections `toClose` from it to the end of `_conn_list`, and is `none`
once its own connection has been erased. What has been `added`, `taken`, `closed` by the loop
and `deleted` so far is kept as a record. -/
structure CommunicationManager (C : Type) where
  pool : List (Worker C)
  mlock : Bool
  workq : List (Option C)
  connList : List C
  shutdown : Bool
  caller : Caller
  toClose : Option ℕ
  added : List C
  taken : List C
  closed : List C
  deleted : List C

/-- `MAX_CONNECTED_CLIENTS`. -/
def maxConnectedClients : ℤ := 500

/-- `_num_threads`, for the `max_simultaneous_clients` of the configuration. -/
def numThreads (maxSimultaneousClients : ℤ) : ℤ :=
  if maxSimultaneousClients > maxConnectedClients then maxConnectedClients
  else maxSimultaneousClients

namespace Worker

variable {C : Type}

/-- `_cv.notify_all` for a thread. -/
def wake : Worker C → Worker C
  | waiting => looking
  | w => w

/-- In the critical section. -/
def inSection : Worker C → Bool
  | testing => true
  | taking => true
  | _ => false

/-- About to take the first element of the queue. -/
def isTaking : Worker C → Bool
  | taking => true
  | _ => false

/-- On the way to the first element of the queue. -/
def coming : Worker C → Bool
  | looking => true
  | testing => true
  | taking => true
  | _ => false

/-- What was taken and is not deleted yet. -/
def hand : Worker C → List C
  | holding c => c.toList
  | processing c => [c]
  | processed c => [c]
  | _ => []

/-- What is in `_conn_list`. -/
def listed : Worker C → List C
  | processing c => [c]
  | processed c => [c]
  | _ => []

/-- A thread in its critical section is on its way to the queue. -/
theorem coming_of_inSection {w : Worker C} (h : w.inSection = true) : w.coming = true := by
  cases w <;> first | rfl | cases h

/-- A thread that takes a connection is in its critical section. -/
theorem inSection_of_isTaking {w : Worker C} (h : w.isTaking = true) : w.inSection = true := by
  cases w <;> first | rfl | cases h

/-! What `notify_all` leaves as it is. -/

variable (pool : List (Worker C))

/-- Waking the threads up brings none into its critical section. -/
theorem countP_inSection_wake : (pool.map wake).countP inSection = pool.countP inSection := by
  rw [List.countP_map]
  congr 1
  funext w
  cases w <;> rfl

/-- Waking the threads up makes none take a connection. -/
theorem countP_isTaking_wake : (pool.map wake).countP isTaking = pool.countP isTaking := by
  rw [List.countP_map]
  congr 1
  funext w
  cases w <;> rfl

/-- Waking the threads up leaves the connections in their hands. -/
theorem flatMap_hand_wake : (pool.map wake).flatMap hand = pool.flatMap hand := by
  rw [List.flatMap_map]
  congr 1
  funext w
  cases w <;> rfl

/-- Waking the threads up leaves the connections that they have listed. -/
theorem flatMap_listed_wake : (pool.map wake).flatMap listed = pool.flatMap listed := by
  rw [List.flatMap_map]
  congr 1
  funext w
  cases w <;> rfl

/-- No thread waits after all have been woken up. -/
theorem not_mem_wake : waiting ∉ pool.map wake := by
  intro hmem
  obtain ⟨w, -, hw⟩ := List.mem_map.mp hmem
  cases w <;> cases hw

variable {pool}

/-- A thread that does something else than look was not woken up. -/
theorem mem_of_mem_wake {w : Worker C} (hmem : w ∈ pool.map wake) (hw : w ≠ looking) :
    w ∈ pool := by
  obtain ⟨w', hmem', rfl⟩ := List.mem_map.mp hmem
  cases w' with
  | waiting => exact absurd rfl hw
  | _ => exact hmem'

end Worker

/-- Who makes a step, if it matters. -/
inductive Act (C : Type) where
  /-- The server calls `add_connection`. -/
  | add
  /-- The server sets `_shutdown`. -/
  | shutdown
  /-- The server goes on in a call. -/
  | call
  /-- A thread of the pool. -/
  | work
  /-- The call of `process_connection` for a connection returns. -/
  | returned (c : C)
  /-- `_cv.wait` returns without a notification. -/
  | spurious

namespace CommunicationManager

variable {C : Type}

/-- The constructor, for the `max_simultaneous_clients` of the configuration. -/
def start (C : Type) (maxSimultaneousClients : ℤ) : CommunicationManager C where
  pool := List.replicate (numThreads maxSimultaneousClients).toNat .looking
  mlock := false
  workq := []
  connList := []
  shutdown := false
  caller := .serving
  toClose := some 0
  added := []
  taken := []
  closed := []
  deleted := []

/-- The iterator of the loop, once the connection is erased that has `behind` connections
behind it in the list. -/
def erased (behind : ℕ) (toClose : Option ℕ) : Option ℕ :=
  toClose.bind fun n =>
    if n ≤ behind then some n else if n = behind + 1 then none else some (n - 1)

/-- One step of the server or of a thread of the pool. -/
inductive Step (s : CommunicationManager C) : Act C → CommunicationManager C → Prop where
  -- `add_connection`
  | add {c : C} : s.caller = .serving → s.mlock = false →
      Step s .add { s with
        workq := s.workq ++ [some c]
        added := s.added ++ [c]
        caller := .notifying false }
  | notify {last : Bool} {pool' : List (Worker C)} : s.caller = .notifying last →
      Moves .waiting .looking s.pool pool' →
      Step s .call { s with
        pool := pool'
        caller := if last then .notifyingAll else .serving }
  | notifyNone {last : Bool} : s.caller = .notifying last → .waiting ∉ s.pool →
      Step s .call { s with caller := if last then .notifyingAll else .serving }
  -- `shutdown` and the destructor
  | shutdown : s.caller = .serving →
      Step s .shutdown { s with shutdown := true, caller := .shuttingDown }
  | addNull : s.caller = .shuttingDown → s.mlock = false →
      Step s .call { s with workq := s.workq ++ [none], caller := .notifying true }
  | notifyAll : s.caller = .notifyingAll →
      Step s .call { s with pool := s.pool.map Worker.wake, caller := .destroying }
  | begin : s.caller = .destroying →
      Step s .call { s with caller := .closing, toClose := some s.connList.length }
  | close {c : C} {before after : List C} : s.caller = .closing →
      s.toClose = some (after.length + 1) → s.connList = before ++ c :: after →
      Step s .call { s with toClose := some after.length, closed := s.closed ++ [c] }
  | endLoop : s.caller = .closing → s.toClose = some 0 →
      Step s .call { s with caller := .joining }
  | join : s.caller = .joining → (∀ w ∈ s.pool, w = .exited) →
      Step s .call { s with caller := .joined }
  -- `process_queue`
  | wait {pool' : List (Worker C)} : Moves .looking .waiting s.pool pool' → s.mlock = false →
      s.workq = [] → Step s .work { s with pool := pool' }
  | spurious {pool' : List (Worker C)} : Moves .waiting .looking s.pool pool' →
      Step s .spurious { s with pool := pool' }
  | enter {pool' : List (Worker C)} : Moves .looking .testing s.pool pool' → s.mlock = false →
      s.workq ≠ [] → Step s .work { s with pool := pool', mlock := true }
  | exit {pool' : List (Worker C)} : Moves .testing .exited s.pool pool' → s.shutdown = true →
      Step s .work { s with pool := pool', mlock := false }
  | goOn {pool' : List (Worker C)} : Moves .testing .taking s.pool pool' →
      s.shutdown = false → Step s .work { s with pool := pool' }
  | take {c : Option C} {rest : List (Option C)} {pool' : List (Worker C)} :
      Moves .taking (.holding c) s.pool pool' → s.workq = c :: rest →
      Step s .work { s with
        pool := pool'
        workq := rest
        taken := s.taken ++ c.toList
        mlock := false }
  | skip {pool' : List (Worker C)} : Moves (.holding none) .looking s.pool pool' →
      Step s .work { s with pool := pool' }
  | insert {c : C} {pool' : List (Worker C)} :
      Moves (.holding (some c)) (.processing c) s.pool pool' →
      Step s .work { s with pool := pool', connList := c :: s.connList }
  | returns {c : C} {pool' : List (Worker C)} :
      Moves (.processing c) (.processed c) s.pool pool' →
      Step s (.returned c) { s with pool := pool' }
  | delete {c : C} {before after : List C} {pool' : List (Worker C)} :
      Moves (.processed c) .looking s.pool pool' → s.connList = before ++ c :: after →
      Step s .work { s with
        pool := pool'
        connList := before ++ after
        toClose := erased after.length s.toClose
        deleted := s.deleted ++ [c] }

/-- The states of all runs. -/
inductive Reachable (maxSimultaneousClients : ℤ) : CommunicationManager C → Prop where
  | start : Reachable maxSimultaneousClients (start C maxSimultaneousClients)
  | step {s t : CommunicationManager C} {act : Act C} : Reachable maxSimultaneousClients s →
      s.Step act t → Reachable maxSimultaneousClients t

end CommunicationManager

/-! ### The critical section -/

namespace Caller

/-- `NULL`, once it is in the queue. -/
def nulls {C : Type} : Caller → List (Option C)
  | serving => []
  | notifying last => if last then [none] else []
  | shuttingDown => []
  | _ => [none]

/-- The notification that is still to come for an added connection. -/
def pending : Caller → ℕ
  | notifying _ => 1
  | _ => 0

/-- `_shutdown` has been set. -/
def down : Caller → Bool
  | serving => false
  | notifying last => last
  | _ => true

/-- `notify_all` has been called. -/
def notifiedAll : Caller → Bool
  | destroying => true
  | closing => true
  | joining => true
  | joined => true
  | _ => false

/-- The end of `add_connection` leaves no null behind, but for that of `shutdown`. -/
@[simp] theorem nulls_return {C : Type} (last : Bool) :
    (if last then notifyingAll else serving).nulls (C := C) =
      (notifying last).nulls := by
  cases last <;> rfl

/-- The caller is in `shutdown` at the end of the last `add_connection` only. -/
@[simp] theorem down_return (last : Bool) :
    (if last then notifyingAll else serving).down = last := by
  cases last <;> rfl

/-- No notification is pending at the end of `add_connection`. -/
@[simp] theorem pending_return (last : Bool) :
    (if last then notifyingAll else serving).pending = 0 := by
  cases last <;> rfl

/-- Not all threads have been notified yet at the end of `add_connection`. -/
@[simp] theorem notifiedAll_return (last : Bool) :
    (if last then notifyingAll else serving).notifiedAll = false := by
  cases last <;> rfl

/-- The nulls of the caller are no connections. -/
theorem filterMap_nulls {C : Type} (caller : Caller) :
    (caller.nulls (C := C)).filterMap id = [] := by
  cases caller with
  | notifying last => cases last <;> rfl
  | _ => rfl

/-- There is no null before `shutdown`. -/
theorem nulls_of_not_down {C : Type} {caller : Caller} (h : caller.down = false) :
    caller.nulls (C := C) = [] := by
  cases caller with
  | notifying last =>
      cases last with
      | false => rfl
      | true => cases h
  | serving => rfl
  | _ => cases h

end Caller

/-- Where the connections are, and who wakes up whom. -/
structure CommunicationManager.Inv {C : Type} (s : CommunicationManager C) : Prop where
  /-- One thread at most is in the critical section. -/
  locked : s.pool.countP Worker.inSection = s.mlock.toNat
  /-- The queue does not become empty while a thread is about to take from it. -/
  nonempty : s.mlock = true → s.workq ≠ []
  flag : s.shutdown = s.caller.down
  /-- A thread that has passed the test of `_shutdown` keeps `NULL` out of the queue. -/
  passed : Worker.taking ∈ s.pool → s.caller.nulls (C := C) = []
  queue : s.added.map some ++ s.caller.nulls = s.taken.map some ++ s.workq
  notNull : Worker.holding none ∉ s.pool
  hands : (s.pool.flatMap Worker.hand ++ s.deleted).Perm s.taken
  listed : s.connList.Perm (s.pool.flatMap Worker.listed)
  /-- The iterator of the loop is in the list. -/
  inList : ∀ n, s.toClose = some n → n ≤ s.connList.length
  /-- For each connection in the queue a thread is on its way, or a notification. -/
  woken : s.shutdown = false → Worker.waiting ∈ s.pool →
    s.workq.length ≤ s.pool.countP Worker.coming + s.caller.pending
  awake : s.caller.notifiedAll = true → Worker.waiting ∉ s.pool
  exits : Worker.exited ∈ s.pool → s.shutdown = true
  ended : s.caller = .joined → ∀ w ∈ s.pool, w = Worker.exited

namespace CommunicationManager

variable {C : Type} {s t : CommunicationManager C} {act : Act C} {pool' : List (Worker C)}

/-- What the move of a thread has to respect. The fields that are given by default say that
the move changes nothing there. -/
structure Moved (a b : Worker C) (s t : CommunicationManager C) : Prop where
  pool : Moves a b s.pool t.pool
  nonempty : t.mlock = true → t.workq ≠ []
  caller : t.caller = s.caller := by rfl
  flag : t.shutdown = s.shutdown := by rfl
  added : t.added = s.added := by rfl
  alive : a ≠ .exited := by simp
  locked : t.mlock.toNat + a.inSection.toNat = s.mlock.toNat + b.inSection.toNat := by rfl
  passed : b = .taking → s.shutdown = false := by simp
  exits : b = .exited → s.shutdown = true := by simp
  queue : t.taken.map some ++ t.workq = s.taken.map some ++ s.workq := by rfl
  notNull : b ≠ .holding none := by simp
  hands : (b.hand ++ (t.deleted ++ s.taken)).Perm (a.hand ++ (s.deleted ++ t.taken)) := by
    exact .refl _
  listed : (a.listed ++ t.connList).Perm (b.listed ++ s.connList) := by exact .refl _
  inList : (∀ n, s.toClose = some n → n ≤ s.connList.length) →
    ∀ n, t.toClose = some n → n ≤ t.connList.length := by exact id
  sleeps : b = .waiting → t.workq = [] ∧ s.caller.notifiedAll = false := by simp
  woken : s.shutdown = false → b ≠ .waiting →
    t.workq.length + a.coming.toNat ≤ s.workq.length + b.coming.toNat := by simp [Worker.coming]

/-- A step of one thread that touches nothing shared keeps the invariant. -/
theorem Inv.moved {a b : Worker C} (h : s.Inv) (hm : Moved a b s t) : t.Inv where
  locked := by
    have hcount := hm.pool.countP Worker.inSection
    have hlocked := hm.locked
    have := h.locked
    omega
  nonempty := hm.nonempty
  flag := by rw [hm.flag, hm.caller, h.flag]
  passed hmem := by
    rw [hm.caller]
    rcases hm.pool.mem_or hmem with hmem | hb
    · exact h.passed hmem
    · have hdown := hm.passed hb.symm
      rw [h.flag] at hdown
      exact Caller.nulls_of_not_down hdown
  queue := by rw [hm.queue, hm.caller, hm.added, h.queue]
  notNull hmem := by
    rcases hm.pool.mem_or hmem with hmem | hb
    · exact h.notNull hmem
    · exact hm.notNull hb.symm
  hands := by
    classical
    have hpool := hm.pool.flatMap Worker.hand
    have hhands := hm.hands
    have hbefore := h.hands
    simp only [List.perm_iff_count, List.count_append] at hpool hhands hbefore ⊢
    intro c
    have := hpool c
    have := hhands c
    have := hbefore c
    omega
  listed := by
    classical
    have hpool := hm.pool.flatMap Worker.listed
    have hlisted := hm.listed
    have hbefore := h.listed
    simp only [List.perm_iff_count, List.count_append] at hpool hlisted hbefore ⊢
    intro c
    have := hpool c
    have := hlisted c
    have := hbefore c
    omega
  inList := hm.inList h.inList
  woken hflag hmem := by
    rw [hm.caller]
    have hflag := hm.flag.symm.trans hflag
    by_cases hb : b = .waiting
    · rw [(hm.sleeps hb).1]
      exact Nat.zero_le _
    · have hcount := hm.pool.countP Worker.coming
      have hless := hm.woken hflag hb
      have := h.woken hflag ((hm.pool.mem_or hmem).resolve_right fun h => hb h.symm)
      omega
  awake hall hmem := by
    rw [hm.caller] at hall
    rcases hm.pool.mem_or hmem with hmem | hb
    · exact h.awake hall hmem
    · rw [(hm.sleeps hb.symm).2] at hall
      cases hall
  exits hmem := by
    rw [hm.flag]
    rcases hm.pool.mem_or hmem with hmem | hb
    · exact h.exits hmem
    · exact hm.exits hb.symm
  ended hjoined := by
    rw [hm.caller] at hjoined
    exact absurd (h.ended hjoined _ hm.pool.mem) hm.alive

/-- The first of the queue is not `NULL` while a thread is about to take it. -/
theorem Inv.exists_of_taking (h : s.Inv) (hmem : .taking ∈ s.pool) {c : Option C}
    {rest : List (Option C)} (hcons : s.workq = c :: rest) : ∃ conn, c = some conn := by
  have hqueue := h.queue
  rw [h.passed hmem, List.append_nil, hcons] at hqueue
  have hmem : c ∈ s.added.map some := by
    rw [hqueue]
    simp
  obtain ⟨conn, -, rfl⟩ := List.mem_map.mp hmem
  exact ⟨conn, rfl⟩

/-- What is left of the list behind the iterator, if it is still at a connection. -/
theorem exists_of_erased {behind n : ℕ} {toClose : Option ℕ}
    (h : erased behind toClose = some n) :
    ∃ m, toClose = some m ∧ (m = n ∧ n ≤ behind ∨ m = n + 1 ∧ behind < n) := by
  cases toClose with
  | none => cases h
  | some m =>
      simp only [erased, Option.bind_some] at h
      refine ⟨m, rfl, ?_⟩
      split at h
      · cases h
        exact .inl ⟨rfl, by omega⟩
      · split at h
        · cases h
        · cases h
          exact .inr ⟨by omega, by omega⟩

/-- A thread in the critical section holds the lock. -/
theorem Inv.locked_of_mem (h : s.Inv) {w : Worker C} (hmem : w ∈ s.pool)
    (hw : w.inSection = true) : s.mlock = true := by
  have hpos : 0 < s.pool.countP Worker.inSection := List.countP_pos_iff.mpr ⟨w, hmem, hw⟩
  rw [h.locked] at hpos
  cases hlock : s.mlock with
  | true => rfl
  | false => simp [hlock] at hpos

/-- A thread that leaves the critical section leaves none behind. -/
theorem Inv.not_taking (h : s.Inv) (hfree : s.mlock = false) : .taking ∉ s.pool := by
  intro hmem
  rw [h.locked_of_mem hmem rfl] at hfree
  cases hfree

/-- The invariant holds at the start. -/
theorem Inv.start (maxSimultaneousClients : ℤ) : (start C maxSimultaneousClients).Inv where
  locked := by simp [CommunicationManager.start, Worker.inSection]
  nonempty := by simp [CommunicationManager.start]
  flag := rfl
  passed _ := rfl
  queue := rfl
  notNull := by simp [CommunicationManager.start]
  hands := by simp [CommunicationManager.start, Worker.hand]
  listed := by simp [CommunicationManager.start, Worker.listed]
  inList := by simp [CommunicationManager.start]
  woken := by simp [CommunicationManager.start]
  awake := by simp [CommunicationManager.start]
  exits := by simp [CommunicationManager.start]
  ended hjoined := by cases hjoined

/-- `NULL` stays in the queue. -/
theorem Inv.ne_nil (h : s.Inv) (hnulls : s.caller.nulls (C := C) = [none]) : s.workq ≠ [] := by
  intro hnil
  have hqueue := h.queue
  rw [hnil, List.append_nil, hnulls] at hqueue
  have hmem : none ∈ s.taken.map some := by
    rw [← hqueue]
    simp
  simp at hmem

/-- No thread goes to sleep once all have been notified. -/
theorem Inv.notifiedAll_of_nil (h : s.Inv) (hempty : s.workq = []) :
    s.caller.notifiedAll = false := by
  cases hcaller : s.caller with
  | destroying => exact absurd hempty (h.ne_nil (by rw [hcaller]; rfl))
  | closing => exact absurd hempty (h.ne_nil (by rw [hcaller]; rfl))
  | joining => exact absurd hempty (h.ne_nil (by rw [hcaller]; rfl))
  | joined => exact absurd hempty (h.ne_nil (by rw [hcaller]; rfl))
  | _ => rfl

/-- **What one step preserves.** -/
theorem Inv.step (h : s.Inv) (hstep : s.Step act t) : t.Inv := by
  cases hstep with
  | @add c hserving hfree =>
      have hqueue := h.queue
      rw [hserving] at hqueue
      exact { h with
        nonempty := by simp
        flag := by rw [h.flag, hserving]; rfl
        passed := fun _ => rfl
        queue := by
          simp only [Caller.nulls, List.append_nil] at hqueue
          simp [Caller.nulls, hqueue]
        woken := fun hflag hmem => by
          have hwoken := h.woken hflag hmem
          simp only [hserving, Caller.pending] at hwoken
          simp only [List.length_append, List.length_singleton, Caller.pending]
          omega
        awake := by simp [Caller.notifiedAll]
        ended := by simp }
  | @notify last pool' hnotifying hm =>
      have hmoved : { s with pool := pool' }.Inv :=
        h.moved { pool := hm, nonempty := h.nonempty }
      exact { hmoved with
        flag := by rw [Caller.down_return, h.flag, hnotifying]; rfl
        passed := fun hmem => by
          rw [Caller.nulls_return, ← hnotifying]
          exact hmoved.passed hmem
        queue := by rw [Caller.nulls_return, ← hnotifying, h.queue]
        woken := fun hflag _ => by
          have hcount := hm.countP Worker.coming
          have hwoken := h.woken hflag hm.mem
          simp only [hnotifying, Caller.pending] at hwoken
          simp only [Caller.pending_return]
          simp only [Worker.coming, Bool.toNat_false, Bool.toNat_true] at hcount
          omega
        awake := by simp
        ended := by cases last <;> simp }
  | @notifyNone last hnotifying hnone =>
      exact { h with
        flag := by rw [Caller.down_return, h.flag, hnotifying]; rfl
        passed := fun hmem => by
          rw [Caller.nulls_return, ← hnotifying]
          exact h.passed hmem
        queue := by rw [Caller.nulls_return, ← hnotifying, h.queue]
        woken := fun _ hmem => absurd hmem hnone
        awake := by simp
        ended := by cases last <;> simp }
  | shutdown hserving =>
      have hqueue := h.queue
      rw [hserving] at hqueue
      exact { h with
        flag := rfl
        passed := fun _ => rfl
        queue := hqueue
        woken := by simp
        awake := by simp [Caller.notifiedAll]
        exits := fun _ => rfl
        ended := by simp }
  | addNull hdown hfree =>
      have hqueue := h.queue
      have hflag := h.flag
      rw [hdown] at hqueue hflag
      exact { h with
        nonempty := by simp
        flag := hflag
        passed := fun hmem => absurd hmem (h.not_taking hfree)
        queue := by
          simp only [Caller.nulls, List.append_nil] at hqueue
          simp [Caller.nulls, hqueue]
        woken := by simp [hflag, Caller.down]
        awake := by simp [Caller.notifiedAll]
        ended := by simp }
  | notifyAll hall =>
      have hflag := h.flag
      rw [hall] at hflag
      exact {
        locked := by rw [Worker.countP_inSection_wake, h.locked]
        nonempty := h.nonempty
        flag := by rw [hflag]; rfl
        passed := fun hmem => by
          have hnulls := h.passed (Worker.mem_of_mem_wake hmem (by simp))
          rw [hall] at hnulls
          cases hnulls
        queue := by rw [← h.queue, hall]; rfl
        notNull := fun hmem => h.notNull (Worker.mem_of_mem_wake hmem (by simp))
        hands := by rw [Worker.flatMap_hand_wake]; exact h.hands
        listed := by rw [Worker.flatMap_listed_wake]; exact h.listed
        inList := h.inList
        woken := by simp [hflag, Caller.down]
        awake := fun _ => Worker.not_mem_wake _
        exits := fun hmem => h.exits (Worker.mem_of_mem_wake hmem (by simp))
        ended := by simp }
  | begin hdestroying =>
      exact { h with
        flag := by rw [h.flag, hdestroying]; rfl
        passed := fun hmem => by
          have hnulls := h.passed hmem
          rwa [hdestroying] at hnulls
        queue := by rw [← h.queue, hdestroying]; rfl
        inList := by simp
        woken := fun hflag => by
          rw [h.flag, hdestroying] at hflag
          cases hflag
        awake := fun _ => h.awake (by rw [hdestroying]; rfl)
        ended := by simp }
  | close _ _ hlist =>
      refine { h with inList := ?_ }
      simp only [Option.some.injEq, forall_eq', hlist, List.length_append, List.length_cons]
      omega
  | endLoop hclosing _ =>
      exact { h with
        flag := by rw [h.flag, hclosing]; rfl
        passed := fun hmem => by
          have hnulls := h.passed hmem
          rwa [hclosing] at hnulls
        queue := by rw [← h.queue, hclosing]; rfl
        woken := fun hflag => by
          rw [h.flag, hclosing] at hflag
          cases hflag
        awake := fun _ => h.awake (by rw [hclosing]; rfl)
        ended := by simp }
  | join hjoining hexited =>
      exact { h with
        flag := by rw [h.flag, hjoining]; rfl
        passed := fun hmem => by cases hexited _ hmem
        queue := by rw [← h.queue, hjoining]; rfl
        woken := fun _ hmem => by cases hexited _ hmem
        awake := fun _ hmem => by cases hexited _ hmem
        ended := fun _ => hexited }
  | @wait pool' hm hfree hempty =>
      exact h.moved {
        pool := hm
        nonempty := h.nonempty
        sleeps := fun _ => ⟨hempty, h.notifiedAll_of_nil hempty⟩ }
  | @spurious pool' hm => exact h.moved { pool := hm, nonempty := h.nonempty }
  | @enter pool' hm hfree hne =>
      exact h.moved { pool := hm, nonempty := fun _ => hne, locked := by rw [hfree]; rfl }
  | @exit pool' hm hdown =>
      have hlock := h.locked_of_mem hm.mem rfl
      refine h.moved { pool := hm, nonempty := by simp, locked := by rw [hlock]; rfl,
                       exits := fun _ => hdown, woken := ?_ }
      rw [hdown]
      simp
  | @goOn pool' hm hup =>
      exact h.moved { pool := hm, nonempty := h.nonempty, passed := fun _ => hup }
  | @take c rest pool' hm hcons =>
      obtain ⟨conn, rfl⟩ := h.exists_of_taking hm.mem hcons
      have hlock := h.locked_of_mem hm.mem rfl
      exact h.moved {
        pool := hm
        nonempty := by simp
        locked := by rw [hlock]; rfl
        queue := by simp [hcons]
        hands := by
          simp only [Worker.hand, Option.toList_some, List.nil_append]
          exact List.perm_append_comm_assoc .. |>.trans (.append_left _ List.perm_append_comm)
        woken := by simp [hcons, Worker.coming] }
  | @skip pool' hm => exact absurd hm.mem h.notNull
  | @insert c pool' hm =>
      exact h.moved {
        pool := hm
        nonempty := h.nonempty
        inList := fun hin n hn => Nat.le_succ_of_le (hin n hn) }
  | @returns c pool' hm => exact h.moved { pool := hm, nonempty := h.nonempty }
  | @delete c before after pool' hm hlist =>
      exact h.moved {
        pool := hm
        nonempty := h.nonempty
        hands := by
          simp only [Worker.hand, List.nil_append, List.append_assoc]
          exact List.perm_append_comm_assoc ..
        listed := by
          simp only [Worker.listed, List.nil_append, List.singleton_append, hlist]
          exact List.perm_middle.symm
        inList := fun hin n hn => by
          obtain ⟨m, hm, hless⟩ := exists_of_erased hn
          have := hin m hm
          simp only [hlist, List.length_append, List.length_cons] at this ⊢
          omega }

/-- The invariant holds in every reachable state. -/
theorem Reachable.inv {n : ℤ} (h : Reachable n s) : s.Inv := by
  induction h with
  | start => exact .start n
  | step _ hstep ih => exact ih.step hstep

/-- The number of threads is the one of the start. -/
theorem Reachable.length_pool {n : ℤ} (h : Reachable n s) :
    s.pool.length = (numThreads n).toNat := by
  induction h with
  | start => simp [CommunicationManager.start]
  | step _ hstep ih =>
      rw [← ih]
      cases hstep with
      | notify _ hm => exact hm.length
      | notifyAll _ => exact List.length_map _
      | wait hm _ _ => exact hm.length
      | spurious hm => exact hm.length
      | enter hm _ _ => exact hm.length
      | exit hm _ => exact hm.length
      | goOn hm _ => exact hm.length
      | take hm _ => exact hm.length
      | skip hm => exact hm.length
      | insert hm => exact hm.length
      | returns hm => exact hm.length
      | delete hm _ => exact hm.length
      | _ => rfl

/-- What was added was taken, in order, or is in the queue. -/
theorem Inv.added_eq (h : s.Inv) :
    s.taken <+: s.added ∧
      s.workq = (s.added.drop s.taken.length).map some ++ s.caller.nulls := by
  have hqueue := h.queue
  obtain ⟨rest, hrest⟩ : ∃ rest, s.taken ++ rest = s.added := by
    have hconns := congrArg (List.filterMap id) hqueue
    rw [List.filterMap_append, List.filterMap_append, Caller.filterMap_nulls,
      List.filterMap_map, List.filterMap_map, List.append_nil] at hconns
    refine ⟨s.workq.filterMap id, ?_⟩
    calc s.taken ++ s.workq.filterMap id
        = s.taken.filterMap (id ∘ some) ++ s.workq.filterMap id := by
          rw [Function.id_comp, List.filterMap_some]
      _ = s.added.filterMap (id ∘ some) := hconns.symm
      _ = s.added := by rw [Function.id_comp, List.filterMap_some]
  refine ⟨⟨rest, hrest⟩, ?_⟩
  rw [← hrest, List.map_append, List.append_assoc, List.append_cancel_left_eq] at hqueue
  rw [← hrest, List.drop_left, hqueue]

/-- **Connections are served in order, each by one thread.** In every state of every run, the
queue is what was added and is not taken yet, in order, and `NULL` at its end after
`shutdown`. What was taken is in the hands of one thread or deleted, each connection once, and
no thread has taken `NULL`. `_conn_list` holds what the threads process. -/
theorem connections_served_in_order {n : ℤ} (h : Reachable n s) :
    s.taken <+: s.added ∧
    s.workq = (s.added.drop s.taken.length).map some ++ s.caller.nulls ∧
    (s.pool.flatMap Worker.hand ++ s.deleted).Perm s.taken ∧
    .holding none ∉ s.pool ∧
    s.connList.Perm (s.pool.flatMap Worker.listed) ∧
    s.pool.length = (numThreads n).toNat ∧ s.pool.countP Worker.inSection ≤ 1 := by
  have hinv := h.inv
  refine ⟨hinv.added_eq.1, hinv.added_eq.2, hinv.hands, hinv.notNull, hinv.listed,
    h.length_pool, ?_⟩
  rw [hinv.locked]
  exact Bool.toNat_le s.mlock

/-- The server accepts a connection while no thread sleeps. -/
theorem Reachable.accept {n : ℤ} (c : C) (h : Reachable n s) (hserving : s.caller = .serving)
    (hfree : s.mlock = false) (hnone : .waiting ∉ s.pool) :
    Reachable n { s with
      workq := s.workq ++ [some c], added := s.added ++ [c], caller := .serving } := by
  have hadded := h.step (.add (c := c) hserving hfree)
  have hnotified := hadded.step (.notifyNone rfl hnone)
  exact hnotified

/-- Of three connections, one of two threads has deleted the first and holds the third, and the
other thread processes the second. -/
theorem connections_served_in_order_three : ∃ s : CommunicationManager ℕ,
    s.added = [7, 8, 9] ∧ s.pool = [.holding (some 9), .processing 8] ∧ s.deleted = [7] ∧
    s.taken = [7, 8, 9] ∧ (s.pool.flatMap Worker.hand ++ s.deleted).Perm s.taken ∧
    s.connList.Perm (s.pool.flatMap Worker.listed) := by
  have hstart : Reachable 2 (start ℕ 2) := .start
  have hseven := hstart.accept 7 rfl rfl (by simp [start])
  have heighth := hseven.accept 8 rfl rfl (by simp [start])
  have hfirst := ((heighth.step (.enter (.intro [] [Worker.looking]) rfl (by simp))).step
    (.goOn (.intro [] _) rfl)).step (.take (.intro [] _) rfl)
  have hlisted := hfirst.step (.insert (.intro [] _))
  have hsecond := ((hlisted.step (.enter (.intro [Worker.processing 7] []) rfl (by simp))).step
    (.goOn (.intro [Worker.processing 7] []) rfl)).step
      (.take (.intro [Worker.processing 7] []) rfl)
  have hboth := hsecond.step (.insert (.intro [Worker.processing 7] []))
  have hreturned := hboth.step (.returns (.intro [] [Worker.processing 8]))
  have hdeleted := hreturned.step
    (.delete (.intro [] [Worker.processing 8]) (show [8, 7] = [8] ++ 7 :: [] from rfl))
  have hninth := hdeleted.accept 9 rfl rfl (by simp)
  have hthird := ((hninth.step
    (.enter (.intro [] [Worker.processing 8]) rfl (by simp))).step
      (.goOn (.intro [] [Worker.processing 8]) rfl)).step
        (.take (.intro [] [Worker.processing 8]) rfl)
  have hserved := connections_served_in_order hthird
  exact ⟨_, rfl, rfl, rfl, rfl, hserved.2.2.1, hserved.2.2.2.2.1⟩

/-! ### The wake-ups -/

/-- A step of the server in a call, or of a thread outside of `process_connection`. -/
def Advance (s t : CommunicationManager C) : Prop :=
  s.Step .call t ∨ s.Step .work t

/-- The places that a thread goes to by itself. -/
inductive Next : Worker C → Worker C → Prop where
  | wait : Next .looking .waiting
  | enter : Next .looking .testing
  | exit : Next .testing .exited
  | goOn : Next .testing .taking
  | take (c : C) : Next .taking (.holding (some c))
  | insert (c : C) : Next (.holding (some c)) (.processing c)
  | delete (c : C) : Next (.processed c) .looking

/-- What the step of a thread changes. -/
theorem Inv.next (h : s.Inv) (hstep : s.Step .work t) :
    ∃ a b, Moves a b s.pool t.pool ∧ Next a b ∧ (b = .taking → s.shutdown = false) ∧
      t.caller = s.caller ∧ t.shutdown = s.shutdown ∧ t.added = s.added := by
  cases hstep with
  | wait hm _ _ => exact ⟨_, _, hm, .wait, by simp, rfl, rfl, rfl⟩
  | enter hm _ _ => exact ⟨_, _, hm, .enter, by simp, rfl, rfl, rfl⟩
  | exit hm _ => exact ⟨_, _, hm, .exit, by simp, rfl, rfl, rfl⟩
  | goOn hm hup => exact ⟨_, _, hm, .goOn, fun _ => hup, rfl, rfl, rfl⟩
  | take hm hcons =>
      obtain ⟨c, rfl⟩ := h.exists_of_taking hm.mem hcons
      exact ⟨_, _, hm, .take c, by simp, rfl, rfl, rfl⟩
  | skip hm => exact absurd hm.mem h.notNull
  | insert hm => exact ⟨_, _, hm, .insert _, by simp, rfl, rfl, rfl⟩
  | delete hm _ => exact ⟨_, _, hm, .delete _, by simp, rfl, rfl, rfl⟩

/-- What a thread still does without a call of `process_connection` returning. -/
def workLeft : Worker C → ℕ
  | .processed _ => 5
  | .looking => 4
  | .testing => 3
  | .taking => 2
  | .holding _ => 1
  | _ => 0

/-- The next step of a thread leaves less work. -/
theorem Next.workLeft_less {a b : Worker C} (h : Next a b) : workLeft b < workLeft a := by
  cases h <;> simp [workLeft]

/-- A thread about to enter the critical section, or one in it, can go on. -/
theorem Inv.advance_of_coming (h : s.Inv) {w : Worker C} (hmem : w ∈ s.pool)
    (hw : w.coming = true) (hne : s.workq ≠ []) : ∃ t, s.Step .work t := by
  have hsection : ∀ w ∈ s.pool, w.inSection = true → ∃ t, s.Step .work t := by
    intro w hmem hw
    cases w with
    | testing =>
        cases hdown : s.shutdown with
        | true =>
            obtain ⟨pool', hm⟩ := Moves.exists_of_mem .exited hmem
            exact ⟨_, .exit hm hdown⟩
        | false =>
            obtain ⟨pool', hm⟩ := Moves.exists_of_mem .taking hmem
            exact ⟨_, .goOn hm hdown⟩
    | taking =>
        obtain ⟨c, rest, hcons⟩ := List.exists_cons_of_ne_nil hne
        obtain ⟨pool', hm⟩ := Moves.exists_of_mem (.holding c) hmem
        exact ⟨_, .take hm hcons⟩
    | _ => cases hw
  cases w with
  | looking =>
      cases hlock : s.mlock with
      | true =>
          have hpos : 0 < s.pool.countP Worker.inSection := by
            rw [h.locked, hlock]
            exact Nat.one_pos
          obtain ⟨w, hmem, hw⟩ := List.countP_pos_iff.mp hpos
          exact hsection w hmem hw
      | false =>
          obtain ⟨pool', hm⟩ := Moves.exists_of_mem .testing hmem
          exact ⟨_, .enter hm hlock hne⟩
  | testing => exact hsection _ hmem rfl
  | taking => exact hsection _ hmem rfl
  | _ => cases hw

/-- A thread that has a connection, and is not in `process_connection`, can go on. -/
theorem Inv.advance_of_hand (h : s.Inv) {w : Worker C} (hmem : w ∈ s.pool)
    (hhand : w.hand ≠ []) (hw : ∀ c, w ≠ .processing c) : ∃ t, s.Step .work t := by
  cases w with
  | holding c =>
      cases c with
      | none => exact absurd hmem h.notNull
      | some c =>
          obtain ⟨pool', hm⟩ := Moves.exists_of_mem (.processing c) hmem
          exact ⟨_, .insert hm⟩
  | processing c => exact absurd rfl (hw c)
  | processed c =>
      have hlisted : c ∈ s.connList := by
        rw [h.listed.mem_iff]
        exact List.mem_flatMap.mpr ⟨_, hmem, List.mem_singleton_self c⟩
      obtain ⟨before, after, hlist⟩ := List.append_of_mem hlisted
      obtain ⟨pool', hm⟩ := Moves.exists_of_mem .looking hmem
      exact ⟨_, .delete hm hlist⟩
  | _ => exact absurd rfl hhand

/-- A notification that is to come will come. -/
theorem exists_notify {last : Bool} (h : s.caller = .notifying last) :
    ∃ t, s.Step .call t := by
  by_cases hmem : .waiting ∈ s.pool
  · obtain ⟨pool', hm⟩ := Moves.exists_of_mem .looking hmem
    exact ⟨_, .notify h hm⟩
  · exact ⟨_, .notifyNone h hmem⟩

/-- Before the shutdown, every step of a thread or notification leaves less work. -/
theorem Inv.workLeft_less (h : s.Inv) (hup : s.shutdown = false) (hstep : s.Advance t) :
    (t.pool.map workLeft).sum + 5 * t.caller.pending <
      (s.pool.map workLeft).sum + 5 * s.caller.pending := by
  rcases hstep with hstep | hstep
  · have hflag := h.flag
    rw [hup] at hflag
    cases hstep with
    | notify hnotifying hm =>
        have hsum := hm.sum_map workLeft
        simp only [workLeft] at hsum
        rw [Caller.pending_return, hnotifying]
        simp only [Caller.pending]
        omega
    | notifyNone hnotifying _ =>
        rw [Caller.pending_return, hnotifying]
        simp only [Caller.pending]
        omega
    | addNull hdown _ => rw [hdown] at hflag; cases hflag
    | notifyAll hall => rw [hall] at hflag; cases hflag
    | begin hdestroying => rw [hdestroying] at hflag; cases hflag
    | close hclosing _ _ => rw [hclosing] at hflag; cases hflag
    | endLoop hclosing _ => rw [hclosing] at hflag; cases hflag
    | join hjoining _ => rw [hjoining] at hflag; cases hflag
  · obtain ⟨a, b, hm, hnext, -, hcaller, -, -⟩ := h.next hstep
    have hsum := hm.sum_map workLeft
    have hless := hnext.workLeft_less
    rw [hcaller]
    omega

/-- A step that advances keeps the invariant and adds no connection. -/
theorem Inv.advance (h : s.Inv) (hstep : s.Advance t) :
    t.Inv ∧ t.shutdown = s.shutdown ∧ t.added = s.added := by
  rcases hstep with hstep | hstep
  · refine ⟨h.step hstep, ?_⟩
    cases hstep <;> exact ⟨rfl, rfl⟩
  · obtain ⟨a, b, -, -, -, -, hshutdown, hadded⟩ := h.next hstep
    exact ⟨h.step hstep, hshutdown, hadded⟩

/-- Before `shutdown`, an idle thread or a notification keeps the system going as long as a
connection is in the queue. -/
theorem Inv.exists_advance (h : s.Inv) (hup : s.shutdown = false) (hne : s.workq ≠ [])
    {w : Worker C} (hmem : w ∈ s.pool) (hw : ∀ c, w ≠ .processing c) : ∃ t, s.Advance t := by
  cases w with
  | waiting =>
      have hwoken := h.woken hup hmem
      have hpos : 0 < s.workq.length := List.length_pos_iff.mpr hne
      cases hcaller : s.caller with
      | notifying last => exact (exists_notify hcaller).imp fun _ => .inl
      | _ =>
          rw [hcaller] at hwoken
          have hcoming : 0 < s.pool.countP Worker.coming := Nat.lt_of_lt_of_le hpos hwoken
          obtain ⟨w, hmem, hw⟩ := List.countP_pos_iff.mp hcoming
          exact (h.advance_of_coming hmem hw hne).imp fun _ => .inr
  | looking => exact (h.advance_of_coming hmem rfl hne).imp fun _ => .inr
  | testing => exact (h.advance_of_coming hmem rfl hne).imp fun _ => .inr
  | taking => exact (h.advance_of_coming hmem rfl hne).imp fun _ => .inr
  | holding c =>
      cases c with
      | none => exact absurd hmem h.notNull
      | some c => exact (h.advance_of_hand hmem (by simp [Worker.hand]) hw).imp fun _ => .inr
  | processing c => exact absurd rfl (hw c)
  | processed c => exact (h.advance_of_hand hmem (by simp [Worker.hand]) hw).imp fun _ => .inr
  | exited =>
      have hdown := h.exits hmem
      rw [hup] at hdown
      cases hdown

/-- **No thread sleeps while a connection waits.** Before `shutdown`, and without waiting for a
call of `process_connection` or for another connection, every run gets to a state in which the
queue is empty or all threads are in `process_connection`. -/
theorem no_thread_sleeps {n : ℤ} (h : Reachable n s) (hup : s.shutdown = false) :
    Inevitable Advance (fun t => t.added = s.added ∧
      (t.workq = [] ∨ ∀ w ∈ t.pool, ∃ c, w = .processing c)) s := by
  refine Inevitable.of_measure
    (fun t => t.Inv ∧ t.shutdown = false ∧ t.added = s.added)
    (fun t => (t.pool.map workLeft).sum + 5 * t.caller.pending) ?_ ?_ ?_ ⟨h.inv, hup, rfl⟩
  · rintro t u ⟨hinv, hup, hadded⟩ hstep
    obtain ⟨hinv', hshutdown, hadded'⟩ := hinv.advance hstep
    exact ⟨hinv', hshutdown.trans hup, hadded'.trans hadded⟩
  · rintro t u ⟨hinv, hup, -⟩ hstep
    exact hinv.workLeft_less hup hstep
  · rintro t ⟨hinv, hup, hadded⟩
    by_cases hnil : t.workq = []
    · exact .inl ⟨hadded, .inl hnil⟩
    · by_cases hall : ∀ w ∈ t.pool, ∃ c, w = .processing c
      · exact .inl ⟨hadded, .inr hall⟩
      · simp only [not_forall, not_exists] at hall
        obtain ⟨w, hmem, hw⟩ := hall
        exact .inr (hinv.exists_advance hup hnil hmem hw)

/-- Two connections are added while both threads sleep, and the first notification has woken
up the second thread. -/
theorem no_thread_sleeps_two : ∃ s : CommunicationManager ℕ,
    s.pool = [.waiting, .looking] ∧ s.workq = [some 7, some 8] ∧
    Inevitable Advance (fun t => t.added = [7, 8] ∧
      (t.workq = [] ∨ ∀ w ∈ t.pool, ∃ c, w = .processing c)) s := by
  have hwaiting : Reachable 2 _ :=
    .step .start (.wait (C := ℕ) (.intro [] [Worker.looking]) rfl rfl)
  have hasleep := hwaiting.step (.wait (.intro [Worker.waiting] []) rfl rfl)
  have hadded := hasleep.step (.add (c := 7) rfl rfl)
  have hnotified := hadded.step (.notify rfl (.intro [Worker.waiting] []))
  have hboth := hnotified.step (.add (c := 8) rfl rfl)
  exact ⟨_, rfl, rfl, no_thread_sleeps hboth rfl⟩

/-! ### The end -/

/-- A step that a run goes on with, for the clients that end their connections by themselves.
Without that, `process_connection` returns once the loop of the destructor has shut the socket
down. A wake-up without a notification need not happen. -/
def StepOn (ends : C → Prop) (s t : CommunicationManager C) : Prop :=
  ∃ act, act ≠ .spurious ∧ (∀ c, act = .returned c → ends c ∨ c ∈ s.closed) ∧ s.Step act t

/-- How a run ends after `shutdown`. -/
inductive Ended (ends : C → Prop) (t : CommunicationManager C) : Prop
  /-- All threads have ended, and what was taken has been deleted. -/
  | joined : t.caller = .joined → (∀ w ∈ t.pool, w = .exited) → t.deleted.Perm t.taken →
      t.connList = [] → Ended ends t
  /-- The connection has been erased that the loop of the destructor is at. -/
  | erased : t.caller = .closing → t.toClose = none → Ended ends t
  /-- The destructor waits for threads whose connections the loop has missed, and whose
  clients do not end them. -/
  | blocked : t.caller = .joining → (∃ w ∈ t.pool, w ≠ .exited) →
      (∀ w ∈ t.pool, w = .exited ∨ ∃ c, w = .processing c ∧ ¬ ends c ∧ c ∉ t.closed) →
      Ended ends t

/-- What a thread still does once `_shutdown` is set. -/
def endLeft : Worker C → ℕ
  | .taking => 7
  | .holding _ => 6
  | .processing _ => 5
  | .processed _ => 4
  | .looking => 3
  | .testing => 2
  | .waiting => 1
  | .exited => 0

/-- What the server still does, for a pool of `n` threads: its notifications give the threads
more to do, and there are no more connections in `_conn_list` than threads. -/
def callerLeft (n : ℕ) : Caller → ℕ
  | .joined => 0
  | .joining => 1
  | .closing => 2
  | .destroying => n + 3
  | .notifyingAll => 3 * n + 4
  | .notifying _ => 3 * n + 7
  | _ => 3 * n + 8

/-- Waking the threads up adds two steps for each of them at most. -/
theorem sum_endLeft_wake (pool : List (Worker C)) :
    ((pool.map Worker.wake).map endLeft).sum ≤ (pool.map endLeft).sum + 2 * pool.length := by
  induction pool with
  | nil => simp
  | cons w pool ih =>
      have hw : endLeft w.wake ≤ endLeft w + 2 := by
        cases w <;> simp [Worker.wake, endLeft]
      simp only [List.map_cons, List.sum_cons, List.length_cons]
      omega

/-- The next step of a thread leaves fewer steps to its end, unless it takes a connection. -/
theorem Next.endLeft_less {a b : Worker C} (h : Next a b) (hb : b ≠ .taking) :
    endLeft b < endLeft a := by
  cases h with
  | goOn => exact absurd rfl hb
  | _ => simp [endLeft]

/-- A thread has one connection in `_conn_list` at most. -/
theorem Inv.length_connList (h : s.Inv) : s.connList.length ≤ s.pool.length := by
  have hone : ∀ pool : List (Worker C), (pool.flatMap Worker.listed).length ≤ pool.length := by
    intro pool
    induction pool with
    | nil => simp
    | cons w pool ih =>
        have hw : w.listed.length ≤ 1 := by
          cases w <;> simp [Worker.listed]
        simp only [List.flatMap_cons, List.length_append, List.length_cons]
        omega
  rw [h.listed.length_eq]
  exact hone s.pool

/-- The loop has no more to do when a connection is erased. -/
theorem getD_erased (behind : ℕ) (toClose : Option ℕ) :
    (erased behind toClose).getD 0 ≤ toClose.getD 0 := by
  cases hn : erased behind toClose with
  | none => exact Nat.zero_le _
  | some n =>
      obtain ⟨m, rfl, hm⟩ := exists_of_erased hn
      simp only [Option.getD_some]
      omega

/-- No step of a thread gives the loop more to do. -/
theorem toClose_of_work (hstep : s.Step .work t) : t.toClose.getD 0 ≤ s.toClose.getD 0 := by
  cases hstep with
  | delete _ _ => exact getD_erased _ _
  | _ => exact Nat.le_refl _

/-- What is left for a run after `shutdown`. -/
def left (s : CommunicationManager C) : ℕ :=
  (s.pool.map endLeft).sum + callerLeft s.pool.length s.caller + s.toClose.getD 0

/-- Every step after `shutdown` leaves less to do. -/
theorem Inv.left_less {ends : C → Prop} (h : s.Inv) (hdown : s.shutdown = true)
    (hstep : s.StepOn ends t) : t.left < s.left := by
  obtain ⟨act, hact, -, hstep⟩ := hstep
  have hflag := h.flag
  rw [hdown] at hflag
  cases act with
  | add => cases hstep with | add hserving _ => rw [hserving] at hflag; cases hflag
  | shutdown => cases hstep with | shutdown hserving => rw [hserving] at hflag; cases hflag
  | spurious => exact absurd rfl hact
  | call =>
      cases hstep with
      | @notify last pool' hnotifying hm =>
          have hsum := hm.sum_map endLeft
          rw [hnotifying] at hflag
          simp only [Caller.down] at hflag
          simp only [left, hm.length, hnotifying, ← hflag, if_true, callerLeft]
          simp only [endLeft] at hsum
          omega
      | @notifyNone last hnotifying _ =>
          rw [hnotifying] at hflag
          simp only [Caller.down] at hflag
          simp only [left, hnotifying, ← hflag, if_true, callerLeft]
          omega
      | addNull hshutting _ =>
          simp only [left, hshutting, callerLeft]
          omega
      | notifyAll hall =>
          have hwake := sum_endLeft_wake s.pool
          simp only [left, hall, callerLeft, List.length_map]
          omega
      | begin hdestroying =>
          have hlist := h.length_connList
          simp only [left, hdestroying, callerLeft, Option.getD_some]
          omega
      | close _ hclose _ =>
          simp only [left, hclose, Option.getD_some]
          omega
      | endLoop hclosing _ =>
          simp only [left, hclosing, callerLeft]
          omega
      | join hjoining _ =>
          simp only [left, hjoining, callerLeft]
          omega
  | work =>
      obtain ⟨a, b, hm, hnext, hup, hcaller, -, -⟩ := h.next hstep
      have hsum := hm.sum_map endLeft
      have hless := hnext.endLeft_less fun hb => by
        rw [hup hb] at hdown
        cases hdown
      have hloop := toClose_of_work hstep
      simp only [left, hm.length, hcaller]
      omega
  | returned =>
      cases hstep with
      | returns hm =>
          have hsum := hm.sum_map endLeft
          simp only [endLeft] at hsum
          simp only [left, hm.length]
          omega

/-- A move of a thread that takes nothing. -/
theorem taken_of_moves {a b : Worker C} (hm : Moves a b s.pool t.pool) (hb : b ≠ .taking)
    (htaken : t.taken = s.taken) : s.taken <+: t.taken ∧
      t.taken.length + t.pool.countP Worker.isTaking ≤
        s.taken.length + s.pool.countP Worker.isTaking := by
  have hcount := hm.countP Worker.isTaking
  have hzero : b.isTaking = false := by
    cases b with
    | taking => exact absurd rfl hb
    | _ => rfl
  rw [hzero, Bool.toNat_false] at hcount
  rw [htaken]
  exact ⟨List.prefix_refl _, by omega⟩

/-- After `shutdown`, only the thread takes a connection that has passed the test. -/
theorem Inv.taken_step (h : s.Inv) (hdown : s.shutdown = true) (hstep : s.Step act t) :
    t.shutdown = true ∧ t.added = s.added ∧ s.taken <+: t.taken ∧
      t.taken.length + t.pool.countP Worker.isTaking ≤
        s.taken.length + s.pool.countP Worker.isTaking := by
  have hflag := h.flag
  rw [hdown] at hflag
  cases hstep with
  | add hserving _ => rw [hserving] at hflag; cases hflag
  | notify _ hm => exact ⟨hdown, rfl, taken_of_moves hm (by simp) rfl⟩
  | notifyNone _ _ => exact ⟨hdown, rfl, List.prefix_refl _, Nat.le_refl _⟩
  | shutdown hserving => rw [hserving] at hflag; cases hflag
  | addNull _ _ => exact ⟨hdown, rfl, List.prefix_refl _, Nat.le_refl _⟩
  | notifyAll _ =>
      have hcount := Worker.countP_isTaking_wake s.pool
      exact ⟨hdown, rfl, List.prefix_refl _, Nat.add_le_add_left (Nat.le_of_eq hcount) _⟩
  | begin _ => exact ⟨hdown, rfl, List.prefix_refl _, Nat.le_refl _⟩
  | close _ _ _ => exact ⟨hdown, rfl, List.prefix_refl _, Nat.le_refl _⟩
  | endLoop _ _ => exact ⟨hdown, rfl, List.prefix_refl _, Nat.le_refl _⟩
  | join _ _ => exact ⟨hdown, rfl, List.prefix_refl _, Nat.le_refl _⟩
  | wait hm _ _ => exact ⟨hdown, rfl, taken_of_moves hm (by simp) rfl⟩
  | spurious hm => exact ⟨hdown, rfl, taken_of_moves hm (by simp) rfl⟩
  | enter hm _ _ => exact ⟨hdown, rfl, taken_of_moves hm (by simp) rfl⟩
  | exit hm _ => exact ⟨hdown, rfl, taken_of_moves hm (by simp) rfl⟩
  | goOn _ hup => rw [hup] at hdown; cases hdown
  | take hm hcons =>
      obtain ⟨c, rfl⟩ := h.exists_of_taking hm.mem hcons
      refine ⟨hdown, rfl, List.prefix_append _ _, ?_⟩
      have hcount := hm.countP Worker.isTaking
      simp only [Worker.isTaking, Bool.toNat_true, Bool.toNat_false] at hcount
      simp only [Option.toList_some, List.length_append, List.length_singleton]
      omega
  | skip hm => exact ⟨hdown, rfl, taken_of_moves hm (by simp) rfl⟩
  | insert hm => exact ⟨hdown, rfl, taken_of_moves hm (by simp) rfl⟩
  | returns hm => exact ⟨hdown, rfl, taken_of_moves hm (by simp) rfl⟩
  | delete hm _ => exact ⟨hdown, rfl, taken_of_moves hm (by simp) rfl⟩

/-- The connection that the iterator of the loop is at. -/
theorem exists_behind {n : ℕ} {l : List C} (h : n + 1 ≤ l.length) :
    ∃ before c after, l = before ++ c :: after ∧ after.length = n := by
  have hless : l.length - (n + 1) < l.length := by omega
  refine ⟨l.take (l.length - (n + 1)), l[l.length - (n + 1)], l.drop (l.length - n), ?_, ?_⟩
  · have hdrop := List.drop_eq_getElem_cons hless
    rw [show l.length - (n + 1) + 1 = l.length - n by omega] at hdrop
    rw [← hdrop, List.take_append_drop]
  · rw [List.length_drop]
    omega

/-- Until a run has ended, a step is possible. -/
theorem Inv.exists_stepOn {ends : C → Prop} (h : s.Inv) (hdown : s.shutdown = true)
    (hcaller : s.caller ≠ .joined) : s.Ended ends ∨ ∃ t, s.StepOn ends t := by
  have hflag := h.flag
  rw [hdown] at hflag
  have hcall : ∀ {t : CommunicationManager C}, s.Step .call t → ∃ t, s.StepOn ends t :=
    fun hstep => ⟨_, .call, by simp, by simp, hstep⟩
  have hstepOn : (∃ t, s.Step .work t) → ∃ t, s.StepOn ends t := fun ⟨t, hstep⟩ =>
    ⟨t, .work, by simp, by simp, hstep⟩
  cases hc : s.caller with
  | serving => rw [hc] at hflag; cases hflag
  | notifying last =>
      obtain ⟨t, hstep⟩ := exists_notify hc
      exact .inr (hcall hstep)
  | shuttingDown =>
      cases hlock : s.mlock with
      | false => exact .inr (hcall (.addNull hc hlock))
      | true =>
          have hpos : 0 < s.pool.countP Worker.inSection := by
            rw [h.locked, hlock]
            exact Nat.one_pos
          obtain ⟨w, hmem, hw⟩ := List.countP_pos_iff.mp hpos
          exact .inr (hstepOn
            (h.advance_of_coming hmem (Worker.coming_of_inSection hw) (h.nonempty hlock)))
  | notifyingAll => exact .inr (hcall (.notifyAll hc))
  | destroying => exact .inr (hcall (.begin hc))
  | closing =>
      cases hclose : s.toClose with
      | none => exact .inl (.erased hc hclose)
      | some n =>
          cases n with
          | zero => exact .inr (hcall (.endLoop hc hclose))
          | succ n =>
              obtain ⟨before, c, after, hlist, hlen⟩ := exists_behind (h.inList _ hclose)
              rw [← hlen] at hclose
              exact .inr (hcall (.close hc hclose hlist))
  | joined => exact absurd hc hcaller
  | joining =>
      have hne : s.workq ≠ [] := h.ne_nil (by rw [hc]; rfl)
      by_cases hall : ∀ w ∈ s.pool, w = .exited
      · exact .inr (hcall (.join hc hall))
      · simp only [not_forall, exists_prop] at hall
        by_cases hblocked : ∀ w ∈ s.pool, w = .exited ∨
            ∃ c, w = .processing c ∧ ¬ ends c ∧ c ∉ s.closed
        · exact .inl (.blocked hc hall hblocked)
        · simp only [not_forall, not_or, not_exists, not_and] at hblocked
          obtain ⟨w, hmem, hw, hfree⟩ := hblocked
          refine .inr ?_
          cases w with
          | waiting => exact absurd hmem (h.awake (by rw [hc]; rfl))
          | looking => exact hstepOn (h.advance_of_coming hmem rfl hne)
          | testing => exact hstepOn (h.advance_of_coming hmem rfl hne)
          | taking => exact hstepOn (h.advance_of_coming hmem rfl hne)
          | holding c =>
              cases c with
              | none => exact absurd hmem h.notNull
              | some c =>
                  exact hstepOn (h.advance_of_hand hmem (by simp [Worker.hand]) (by simp))
          | processing c =>
              obtain ⟨pool', hm⟩ := Moves.exists_of_mem (.processed c) hmem
              refine ⟨_, .returned c, by simp, fun d hd => ?_, .returns hm⟩
              cases hd
              by_cases hends : ends c
              · exact .inl hends
              · exact .inr (not_not.mp (hfree c rfl hends))
          | processed c =>
              exact hstepOn (h.advance_of_hand hmem (by simp [Worker.hand]) (by simp))
          | exited => exact absurd rfl hw

/-- When the threads are joined, all that was taken is deleted. -/
theorem Inv.joined (ends : C → Prop) (h : s.Inv) (hjoined : s.caller = .joined) :
    s.Ended ends := by
  have hexited := h.ended hjoined
  have hhand : s.pool.flatMap Worker.hand = [] := by
    rw [List.flatMap_eq_nil_iff]
    intro w hmem
    rw [hexited w hmem]
    rfl
  have hlisted : s.pool.flatMap Worker.listed = [] := by
    rw [List.flatMap_eq_nil_iff]
    intro w hmem
    rw [hexited w hmem]
    rfl
  refine .joined hjoined hexited ?_ ?_
  · have hhands := h.hands
    rwa [hhand] at hhands
  · have hlist := h.listed
    rw [hlisted] at hlist
    exact hlist.eq_nil

/-- A run that has ended leaves the rest of the connections in the queue, and `NULL`. -/
theorem Ended.workq {ends : C → Prop} (hended : s.Ended ends) (h : s.Inv) :
    s.workq = (s.added.drop s.taken.length).map some ++ [none] := by
  have hqueue := h.added_eq.2
  cases hended with
  | joined hcaller => rwa [hcaller] at hqueue
  | erased hcaller => rwa [hcaller] at hqueue
  | blocked hcaller => rwa [hcaller] at hqueue

/-- **What `shutdown` comes to.** From every state after `_shutdown` is set, every run gets to
the end of the destructor, with all threads ended and every connection that was taken processed
and deleted, unless one of two things happens. A thread erases the connection that the unlocked
loop of the destructor is at; or the loop is over, and all threads that have not ended process
connections that the loop has missed, and that their clients do not end. One connection at most
is taken after `_shutdown` is set; the others stay in the queue. -/
theorem shutdown_ends {n : ℤ} (ends : C → Prop) (h : Reachable n s)
    (hdown : s.shutdown = true) :
    Inevitable (StepOn ends) (fun t => t.Ended ends ∧
      s.taken <+: t.taken ∧ t.taken.length ≤ s.taken.length + 1 ∧
      t.workq = (s.added.drop t.taken.length).map some ++ [none]) s := by
  have hone : s.pool.countP Worker.isTaking ≤ 1 :=
    calc s.pool.countP Worker.isTaking
        ≤ s.pool.countP Worker.inSection :=
          List.countP_mono_left fun _ _ => Worker.inSection_of_isTaking
      _ = s.mlock.toNat := h.inv.locked
      _ ≤ 1 := Bool.toNat_le s.mlock
  refine Inevitable.of_measure
    (fun t => t.Inv ∧ t.shutdown = true ∧ t.added = s.added ∧ s.taken <+: t.taken ∧
      t.taken.length + t.pool.countP Worker.isTaking ≤
        s.taken.length + s.pool.countP Worker.isTaking)
    left ?_ ?_ ?_ ⟨h.inv, hdown, rfl, List.prefix_refl _, Nat.le_refl _⟩
  · rintro t u ⟨hinv, hdown, hadded, htaken, hcount⟩ ⟨act, -, -, hstep⟩
    obtain ⟨hdown', hadded', htaken', hcount'⟩ := hinv.taken_step hdown hstep
    exact ⟨hinv.step hstep, hdown', hadded'.trans hadded, htaken.trans htaken',
      Nat.le_trans hcount' hcount⟩
  · rintro t u ⟨hinv, hdown, -⟩ hstep
    exact hinv.left_less hdown hstep
  · rintro t ⟨hinv, hdown, hadded, htaken, hcount⟩
    have hgo : t.Ended ends ∨ ∃ u, t.StepOn ends u := by
      by_cases hjoined : t.caller = .joined
      · exact .inl (hinv.joined ends hjoined)
      · exact hinv.exists_stepOn hdown hjoined
    rcases hgo with hended | hstep
    · have hqueue := hended.workq hinv
      rw [hadded] at hqueue
      exact .inl ⟨hended, htaken, by omega, hqueue⟩
    · exact .inr hstep

/-- `shutdown` is called while one of two threads processes a connection that its client does
not end, and two connections are in the queue. -/
theorem shutdown_ends_two : ∃ s : CommunicationManager ℕ, s.connList = [7] ∧
    s.workq = [some 8, some 9] ∧ Inevitable (StepOn (· ≠ 7)) (fun t => t.Ended (· ≠ 7) ∧
      s.taken <+: t.taken ∧ t.taken.length ≤ s.taken.length + 1 ∧
      t.workq = (s.added.drop t.taken.length).map some ++ [none]) s := by
  have hstart : Reachable 2 (start ℕ 2) := .start
  have hseven := hstart.accept 7 rfl rfl (by simp [start])
  have hentered := hseven.step (.enter (.intro [] [Worker.looking]) rfl (by simp))
  have hpassed := hentered.step (.goOn (.intro [] [Worker.looking]) rfl)
  have htaken := hpassed.step (.take (.intro [] [Worker.looking]) rfl)
  have hlisted := htaken.step (.insert (.intro [] [Worker.looking]))
  have hnine := (hlisted.accept 8 rfl rfl (by simp)).accept 9 rfl rfl (by simp)
  have hdown := hnine.step (.shutdown rfl)
  exact ⟨_, rfl, rfl, shutdown_ends _ hdown rfl⟩

end CommunicationManager

end Vdms
