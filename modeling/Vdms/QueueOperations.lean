import Vdms.ListAnswers
import Vdms.PurgeIsolation
import Vdms.RestartQueue

/-!
# The Operations on the Expiration Queue

`insert_into_queue`, `delete_by_value` and `delete_expired_nodes` go over the queue with
iterators: the first from the back, the others from the front, and these remove entries on the
way.

## Main results

* `insertByIterator_eq`, `deleteByIterator_eq`: what the first two loops do to the queue.
* `deleteExpired_total`: the third loop ends, having removed the expired nodes, or at the first
  of them that has a path that is not a string.
* `queue_operation_iff`: in whatever order the operations are called, when each does its part.
-/

namespace Vdms

open Imp Imp.Prog Platform Relation

/-! ### Loops over the list -/

section Iterators

/-- The loop of `insert_into_queue`: from the entry at the place of the iterator back to
`begin`, which it does not look at. It inserts behind the last entry that is earlier. -/
def insertSearch (queue : List AutoDeleteNode) (new : AutoDeleteNode) :
    ℕ → Option (List AutoDeleteNode)
  | 0 => none
  | it + 1 =>
      if queue[it + 1]?.any fun b => b.timestamp < new.timestamp then
        some (queue.insertIdx (it + 2) new)
      else insertSearch queue new it

/-- `insert_into_queue`. -/
def insertByIterator (queue : List AutoDeleteNode) (new : AutoDeleteNode) : List AutoDeleteNode :=
  match queue with
  | [] => [new]
  | first :: rest =>
      let back := (first :: rest).getLast (List.cons_ne_nil first rest)
      if back.timestamp ≤ new.timestamp then first :: rest ++ [new]
      else match insertSearch (first :: rest) new rest.length with
        | some queue => queue
        | none =>
            if new.timestamp < first.timestamp then new :: first :: rest
            else first :: new :: rest

/-- The loop of `delete_by_value`: it increments the iterator also when it has erased the entry
that it is at, which is undefined. `survives` says that this does nothing. -/
def deleteByIterator (survives : Bool) (x : Element) :
    List AutoDeleteNode → Option (List AutoDeleteNode)
  | [] => some []
  | a :: as =>
      if a.node = x then if survives then some as else none
      else (deleteByIterator survives x as).map (a :: ·)

variable {a b new : AutoDeleteNode} {q : List AutoDeleteNode}

/-- The loop over a list with one more entry at the front. Induction on the iterator. -/
theorem insertSearch_cons (it : ℕ) :
    insertSearch (a :: b :: q) new (it + 1) =
      match insertSearch (b :: q) new it with
      | some queue => some (a :: queue)
      | none => if b.timestamp < new.timestamp then some (a :: b :: new :: q) else none := by
  induction it with
  | zero => by_cases h : b.timestamp < new.timestamp <;> simp [insertSearch, h]
  | succ it ih =>
      have hsearch : ∀ l : List AutoDeleteNode, insertSearch l new (it + 1) =
          if l[it + 1]?.any fun b => b.timestamp < new.timestamp then
            some (l.insertIdx (it + 2) new)
          else insertSearch l new it := fun _ => rfl
      rw [insertSearch, hsearch (b :: q), ih, List.getElem?_cons_succ]
      by_cases h : (b :: q)[it + 1]?.any (fun b => b.timestamp < new.timestamp) = true
      · rw [if_pos h, if_pos h]
        rfl
      · rw [if_neg h, if_neg h]

/-- The loop finds a place behind one of the later entries, if one of them is earlier than the
new one. Induction on these. -/
theorem insertSearch_eq : insertSearch (a :: q) new q.length =
    if q.any (fun b => b.timestamp < new.timestamp) then some (a :: insertBefore new q)
    else none := by
  induction q generalizing a with
  | nil => rfl
  | cons b q ih =>
      rw [List.length_cons, insertSearch_cons, ih]
      by_cases hlater : q.any (fun b => b.timestamp < new.timestamp) = true
      · simp [insertBefore, hlater]
      · by_cases hb : b.timestamp < new.timestamp
        · have hnot : ¬ new.timestamp < b.timestamp := by omega
          simp [insertBefore, hlater, hb, hnot]
        · simp [hlater, hb]

/-- **Insertion.** -/
theorem insertByIterator_eq : insertByIterator q new = insertIntoQueue q new := by
  cases q with
  | nil => rfl
  | cons first rest =>
      rw [insertByIterator, insertIntoQueue,
        List.getLast?_eq_some_getLast (List.cons_ne_nil first rest)]
      simp only
      by_cases hback : ((first :: rest).getLast (List.cons_ne_nil first rest)).timestamp ≤
          new.timestamp
      · rw [if_pos hback, if_pos hback]
      · rw [if_neg hback, if_neg hback, insertSearch_eq, insertBefore]
        by_cases hany : rest.any (fun b => b.timestamp < new.timestamp) = true
        · rw [if_pos hany, if_pos hany]
        · rw [if_neg hany, if_neg hany]

/-- **Removal** of one entry. -/
theorem deleteByIterator_eq (survives : Bool) (x : Element) : deleteByIterator survives x q =
    if survives = true ∨ ∀ a ∈ q, a.node ≠ x then some (deleteByValue q x) else none := by
  induction q with
  | nil => simp [deleteByIterator, deleteByValue]
  | cons a q ih =>
      rw [deleteByIterator, ih]
      by_cases ha : a.node = x
      · cases survives <;> simp [deleteByValue, ha]
      · by_cases h : survives = true ∨ ∀ a ∈ q, a.node ≠ x
        · have h' : survives = true ∨ ∀ b ∈ a :: q, b.node ≠ x :=
            h.imp_right fun hq => List.forall_mem_cons.2 ⟨ha, hq⟩
          rw [if_neg ha, if_pos h, if_pos h', deleteByValue, deleteByValue,
            List.eraseP_cons_of_neg (by simpa using ha)]
          rfl
        · have h' : ¬ (survives = true ∨ ∀ b ∈ a :: q, b.node ≠ x) := fun h' =>
            h (h'.imp_right fun hq => (List.forall_mem_cons.1 hq).2)
          rw [if_neg ha, if_neg h, if_neg h']
          rfl

end Iterators

section

variable [Platform]

/-! ### Expired nodes -/

/-- A pass of the loop of `delete_expired_nodes`, given `current_timestamp` and
`this_timestamp`. -/
def deleteExpiredPass (current this : ℕ) : Handling (ℕ ⊕ Unit) := do
  let s ← get
  match s.expirationQueue with
  | [] => pure (.inr ())
  | a :: as =>
      if this < current then
        if a.timestamp < current then do
          forEach pathProps fun key => deleteFile a.node key
          call (.remove a.node)
          modify fun s => { s.setDb (s.db.remove a.node) with expirationQueue := as }
          pure (.inl (as.headD a).timestamp)
        else pure (.inl a.timestamp)
      else pure (.inr ())

/-- `delete_expired_nodes`. -/
def deleteExpiredLoop : Handling ℤ := do
  let s ← get
  loop (deleteExpiredPass s.now) 0
  pure 0

/-- The passes take the entries one by one, and one or two more find that there is nothing left
to do. Induction on the queue. -/
theorem loopN_deleteExpired (n current : ℕ) (q : List AutoDeleteNode) {k this : ℕ} {s : Handler}
    (hq : s.expirationQueue = q) (hthis : current ≤ this → ∀ a ∈ q.head?, current ≤ a.timestamp)
    (hk : q.length + 2 ≤ k) :
    loopN (deleteExpiredPass current) n k this s = deleteExpiredFrom current q n s := by
  induction q generalizing k this s with
  | nil =>
      obtain ⟨k, rfl⟩ : ∃ j, k = j + 1 := ⟨k - 1, by omega⟩
      simp [loopN, deleteExpiredPass, deleteExpiredFrom, hq]
  | cons a as ih =>
      obtain ⟨k, rfl⟩ : ∃ j, k = j + 2 := ⟨k - 2, by omega⟩
      rw [List.length_cons] at hk
      by_cases ha : a.timestamp < current
      · have hgo : this < current := by
          by_contra hnot
          have := hthis (by omega) a rfl
          omega
        have hnext : ∀ t : Handler, t.expirationQueue = as →
            loopN (deleteExpiredPass current) n (k + 1) (as.headD a).timestamp t =
              deleteExpiredFrom current as n t := fun t ht =>
          ih ht (fun h b hb => by
            cases as with
            | nil => cases hb
            | cons b' as =>
                obtain rfl := Option.some.inj hb
                exact h) (by omega)
        rw [loopN]
        simp only [deleteExpiredPass, deleteExpiredFrom, hq, if_pos hgo, if_pos ha, bind_apply,
          get_apply, modify_apply, pure_apply, Outcome.andThen_ret, Outcome.andThen_assoc]
        refine Outcome.andThen_congr fun _ t => Outcome.andThen_congr fun _ u => ?_
        exact hnext _ rfl
      · by_cases hgo : this < current
        · simp [loopN, deleteExpiredPass, deleteExpiredFrom, hq, hgo, ha]
        · simp [loopN, deleteExpiredPass, deleteExpiredFrom, hq, hgo, ha]

/-- `deleteExpiredNodes` is the loop. -/
theorem deleteExpiredLoop_runs_iff {s : Handler} {o : Outcome Handler PMGDException ℤ} :
    Runs deleteExpiredLoop s o ↔ Runs deleteExpiredNodes s o := by
  refine Runs.congr (N := s.expirationQueue.length + 2) (fun n hn => ?_) o
  have hloop : (loop (deleteExpiredPass s.now) 0 : Handling Unit) n s =
      deleteExpiredFrom s.now s.expirationQueue n s :=
    loopN_deleteExpired n s.now s.expirationQueue rfl (fun h a _ => by omega) hn
  simp only [deleteExpiredLoop, deleteExpiredNodes, bind_apply, get_apply, Outcome.andThen_ret,
    hloop]

/-- The graph without the nodes of the entries. -/
def Graph.removeAll (g : Graph) (es : List AutoDeleteNode) : Graph :=
  es.foldl (fun g a => g.remove a.node) g

omit [Platform] in
/-- Only the nodes of the entries are gone. Induction on the entries. -/
theorem node_removeAll {g : Graph} {es : List AutoDeleteNode}
    (hes : ∀ a ∈ es, ∃ n, a.node = .node n) (m : NodeID) :
    (g.removeAll es).node m = if ∃ a ∈ es, a.node = .node m then none else g.node m := by
  induction es generalizing g with
  | nil => simp [Graph.removeAll]
  | cons a es ih =>
      obtain ⟨⟨n, ha⟩, hes⟩ := List.forall_mem_cons.1 hes
      have hfirst : g.removeAll (a :: es) = (g.removeNode n).removeAll es := by
        rw [Graph.removeAll, List.foldl_cons, ha]
        rfl
      rw [hfirst, ih hes, Graph.node_removeNode]
      by_cases hrest : ∃ b ∈ es, b.node = .node m
      · rw [if_pos hrest, if_pos (by simpa using Or.inr hrest)]
      · by_cases hm : m = n
        · rw [if_neg hrest, if_pos hm, if_pos ⟨a, List.mem_cons_self, by rw [ha, hm]⟩]
        · have hnone : ¬ ∃ b ∈ a :: es, b.node = .node m := by
            rintro ⟨b, hb, hbm⟩
            rcases List.mem_cons.1 hb with rfl | hb
            · rw [ha] at hbm
              exact hm (Element.node.inj hbm).symm
            · exact hrest ⟨b, hb, hbm⟩
          rw [if_neg hrest, if_neg hm, if_neg hnone]

/-- The first entries of the queue and their nodes are gone. -/
structure Handler.Expires (s : Handler) (done rest : List AutoDeleteNode) (t : Handler) : Prop where
  db : t.db = s.db.removeAll done
  queue : t.expirationQueue = rest
  tx : t.tx = s.tx

/-- The files of these nodes can be deleted. -/
def FilesReadable (g : Graph) (es : List AutoDeleteNode) : Prop :=
  ∀ a ∈ es, PathsReadable g a.node pathProps

section Expiry

variable [Platform.Quiet] {s : Handler} {q : List AutoDeleteNode} {a : AutoDeleteNode}

/-- The removal of one expired node, and what comes after it. -/
theorem expireOne_total (as : List AutoDeleteNode) (hs : s.Writable) {m : Handling Unit}
    {Q : Unit → Handler → Prop} {R : PMGDException → Handler → Prop}
    (hrest : ∀ t, PathsReadable s.db a.node pathProps → s.Expires [a] as t → Total m t Q R)
    (hbad : ∀ e t, ¬ PathsReadable s.db a.node pathProps →
      s.Expires [] s.expirationQueue t → R e t) :
    Total (do
      forEach pathProps fun key => deleteFile a.node key
      call (.remove a.node)
      modify fun s => { s.setDb (s.db.remove a.node) with expirationQueue := as }
      m) s Q R := by
  have hfiles := eachPath_total (fun key => deleteFile a.node key) (x := a.node)
    (f := fun file s => { s with removedFiles := s.removedFiles ++ [file] })
    (fun _ => rfl)
    (P := fun t => ∃ files, t = { s with removedFiles := files }) (g := s.db)
    (fun file _ h => by
      obtain ⟨files, rfl⟩ := h
      exact ⟨files ++ [file], rfl⟩)
    (fun _ h => by
      obtain ⟨files, rfl⟩ := h
      rfl) pathProps ⟨s.removedFiles, rfl⟩
  refine Total.bind (hfiles.mono (fun _ _ h => h) ?_) ?_
  · rintro e _ ⟨hpaths, files, rfl⟩
    exact hbad e _ hpaths ⟨rfl, rfl, rfl⟩
  · rintro _ _ ⟨hpaths, files, rfl⟩
    have hcall : Runs (call (.remove a.node)) { s with removedFiles := files }
        (.ret () { s with removedFiles := files }) :=
      Runs.of_eq fun n => call_apply (by
        have hmode : s.txMode = some false := hs
        simp [Call.inOrder, Handler.txMode] at hmode ⊢
        exact hmode) n
    exact Total.after hcall (Total.modify_bind (hrest _ hpaths ⟨rfl, rfl, rfl⟩))

omit [Platform.Quiet] in
/-- The files of the nodes that are left are as readable as before. -/
theorem FilesReadable.congr {g : Graph} {es : List AutoDeleteNode}
    (hes : ∀ b ∈ es, ∃ n, b.node = .node n) {n : NodeID} (hother : ∀ b ∈ es, b.node ≠ .node n) :
    FilesReadable (g.remove (.node n)) es ↔ FilesReadable g es := by
  refine forall₂_congr fun b hb => ?_
  obtain ⟨m, hm⟩ := hes b hb
  have hne : n ≠ m := fun h => hother b hb (by rw [hm, h])
  simp only [PathsReadable, hm, node_apart.props g hne]

/-- The expired entries go, with their nodes, up to the first node that has a path that is not a
string. Induction on the queue. -/
theorem deleteExpiredFrom_total (current : ℕ) (hs : s.Writable) (hq : s.expirationQueue = q)
    (hnodup : (q.map AutoDeleteNode.node).Nodup) (hnodes : ∀ a ∈ q, ∃ n, a.node = .node n) :
    Total (deleteExpiredFrom current q) s
      (fun _ t => FilesReadable s.db (q.takeWhile fun a => a.timestamp < current) ∧
        s.Expires (q.takeWhile fun a => a.timestamp < current)
          (q.dropWhile fun a => a.timestamp < current) t)
      fun _ t => ¬ FilesReadable s.db (q.takeWhile fun a => a.timestamp < current) ∧
        ∃ done rest, q = done ++ rest ∧ s.Expires done rest t := by
  induction q generalizing s with
  | nil => exact Total.pure ⟨fun _ h => (by cases h), rfl, hq, rfl⟩
  | cons a as ih =>
      obtain ⟨ha, hnodup⟩ := List.nodup_cons.1 hnodup
      obtain ⟨⟨n, hn⟩, hnodes⟩ := List.forall_mem_cons.1 hnodes
      rw [deleteExpiredFrom]
      refine Total.ite (fun hlt => ?_) fun hge => ?_
      · have htake : (a :: as).takeWhile (fun a => decide (a.timestamp < current)) =
            a :: as.takeWhile fun a => a.timestamp < current :=
          List.takeWhile_cons_of_pos (by simpa using hlt)
        have hdrop : (a :: as).dropWhile (fun a => decide (a.timestamp < current)) =
            as.dropWhile fun a => a.timestamp < current :=
          List.dropWhile_cons_of_pos (by simpa using hlt)
        rw [htake, hdrop]
        have hexpired : ∀ b ∈ as.takeWhile (fun a => decide (a.timestamp < current)),
            (∃ m, b.node = .node m) ∧ b.node ≠ .node n := by
          intro b hb
          have hmem := (List.takeWhile_sublist _).subset hb
          exact ⟨hnodes b hmem, fun h => ha (by rw [hn, ← h]; exact List.mem_map_of_mem hmem)⟩
        have hcongr := FilesReadable.congr (g := s.db) (fun b hb => (hexpired b hb).1)
          fun b hb => (hexpired b hb).2
        refine expireOne_total as hs (fun t hpaths ht => ?_) fun e t hpaths ht =>
          ⟨fun hall => hpaths (hall a List.mem_cons_self), [], a :: as, rfl, ht.db,
            ht.queue.trans hq, ht.tx⟩
        have hdb : t.db = s.db.remove (.node n) := by rw [ht.db, ← hn]; rfl
        refine (ih (s := t) ?_ ht.queue hnodup hnodes).mono ?_ ?_
        · rw [Handler.Writable, Handler.txMode, ht.tx]
          exact hs
        · rintro _ u ⟨hfiles, hu⟩
          rw [hdb, hcongr] at hfiles
          refine ⟨List.forall_mem_cons.2 ⟨hpaths, hfiles⟩, ?_, hu.queue, hu.tx.trans ht.tx⟩
          rw [hu.db, ht.db]
          rfl
        · rintro _ u ⟨hfiles, done, rest, rfl, hu⟩
          rw [hdb, hcongr] at hfiles
          refine ⟨fun hall => hfiles (List.forall_mem_cons.1 hall).2, a :: done, rest, rfl, ?_,
            hu.queue, hu.tx.trans ht.tx⟩
          rw [hu.db, ht.db]
          rfl
      · have htake : (a :: as).takeWhile (fun a => decide (a.timestamp < current)) = [] :=
          List.takeWhile_cons_of_neg (by simpa using hge)
        have hdrop : (a :: as).dropWhile (fun a => decide (a.timestamp < current)) = a :: as :=
          List.dropWhile_cons_of_neg (by simpa using hge)
        rw [htake, hdrop]
        exact Total.pure ⟨fun _ h => (by cases h), rfl, hq, rfl⟩

end Expiry

/-! ### Histories -/

/-- The calls: `insert_into_queue` for a node, `delete_by_value`, and `delete_expired_nodes`. -/
inductive QueueOp
  | insert (timestamp : ℕ) (n : NodeID)
  | delete (x : Element)
  | expire

namespace QueueOp

/-- The call. Undefined behaviour has no outcome. -/
def run (survives : Bool) : QueueOp → Handling Unit
  | insert timestamp n => modify fun s => { s with
      expirationQueue := insertByIterator s.expirationQueue ⟨timestamp, .node n⟩ }
  | delete x => do
      let s ← get
      match deleteByIterator survives x s.expirationQueue with
      | some queue => modify fun s => { s with expirationQueue := queue }
      | none => stuck
  | expire => do
      let _ ← deleteExpiredLoop
      pure ()

/-- A node is inserted if it is there and is not in the queue. -/
def Allowed (s : Handler) : QueueOp → Prop
  | insert _ n => s.db.Has n ∧ ∀ a ∈ s.expirationQueue, a.node ≠ .node n
  | delete _ | expire => True

/-- What the call is to do. -/
def Effect (s : Handler) : QueueOp → Handler → Prop
  | insert timestamp n, t => t.db = s.db ∧ ∃ front back, s.expirationQueue = front ++ back ∧
      t.expirationQueue = front ++ ⟨timestamp, .node n⟩ :: back
  | delete x, t => t.db = s.db ∧ t.expirationQueue = s.expirationQueue.filter fun a => a.node ≠ x
  | expire, t => t.expirationQueue = s.expirationQueue.filter (fun a => s.now ≤ a.timestamp) ∧
      t.db = s.db.removeAll (s.expirationQueue.filter fun a => a.timestamp < s.now) ∧
      ∀ m, t.db.node m =
        if ∃ a ∈ s.expirationQueue, a.timestamp < s.now ∧ a.node = .node m then none
        else s.db.node m

/-- No iterator to an erased entry is incremented, unless that does nothing, and the paths of the
nodes that expire are strings. -/
def Clean (survives : Bool) (s : Handler) : QueueOp → Prop
  | insert _ _ => True
  | delete x => survives = true ∨ ∀ a ∈ s.expirationQueue, a.node ≠ x
  | expire => ∀ a ∈ s.expirationQueue, a.timestamp < s.now → PathsReadable s.db a.node pathProps

end QueueOp

/-- The queue: in order, with one entry for each of its nodes, which are there. -/
structure Handler.QueueHolds (s : Handler) : Prop where
  writable : s.Writable
  ordered : Ordered s.expirationQueue
  once : (s.expirationQueue.map AutoDeleteNode.node).Nodup
  live : ∀ a ∈ s.expirationQueue, ∃ n, a.node = .node n ∧ s.db.Has n

/-- The states that calls lead to from an empty queue, however they end, while between the calls
the graph changes in any way that leaves the nodes in the queue. -/
inductive QueueReachable (survives : Bool) : Handler → Prop
  | start {s : Handler} : s.Writable → s.expirationQueue = [] → QueueReachable survives s
  | between {s t : Handler} : QueueReachable survives s → t.Writable →
      t.expirationQueue = s.expirationQueue →
      (∀ a ∈ t.expirationQueue, ∀ n, a.node = .node n → t.db.Has n) → QueueReachable survives t
  | returns {s t : Handler} (op : QueueOp) : QueueReachable survives s → op.Allowed s →
      Runs (op.run survives) s (.ret () t) → QueueReachable survives t
  | throws {s t : Handler} (op : QueueOp) {e : PMGDException} : QueueReachable survives s →
      op.Allowed s → Runs (op.run survives) s (.throw e t) → QueueReachable survives t

section Operations

variable [Platform.Quiet] {survives : Bool} {s t : Handler}

omit [Platform] [Platform.Quiet] in
/-- In a queue in order the expired entries come first. Induction on the queue. -/
theorem takeWhile_expired {q : List AutoDeleteNode} (hq : Ordered q) (now : ℕ) :
    q.takeWhile (fun a => a.timestamp < now) = q.filter (fun a => a.timestamp < now) ∧
      q.dropWhile (fun a => a.timestamp < now) = q.filter fun a => now ≤ a.timestamp := by
  induction q with
  | nil => exact ⟨rfl, rfl⟩
  | cons a q ih =>
      obtain ⟨ha, hq⟩ := List.pairwise_cons.1 hq
      obtain ⟨htake, hdrop⟩ := ih hq
      by_cases hlt : a.timestamp < now
      · have hnot : ¬ now ≤ a.timestamp := by omega
        simp [hlt, hnot, htake, hdrop]
      · have hle : now ≤ a.timestamp := by omega
        have hnone : q.filter (fun a => decide (a.timestamp < now)) = [] :=
          List.filter_eq_nil_iff.2 fun b hb => by
            have := ha b hb
            simp
            omega
        have hall : q.filter (fun a => decide (now ≤ a.timestamp)) = q :=
          List.filter_eq_self.2 fun b hb => by
            have := ha b hb
            simp
            omega
        simp [hlt, hle, hnone, hall]

omit [Platform] [Platform.Quiet] in
/-- Where the new entry goes. -/
theorem insertIntoQueue_splits (q : List AutoDeleteNode) (a : AutoDeleteNode) :
    ∃ front back, q = front ++ back ∧ insertIntoQueue q a = front ++ a :: back := by
  have hbefore : ∀ q : List AutoDeleteNode,
      ∃ front back, q = front ++ back ∧ insertBefore a q = front ++ a :: back := by
    intro q
    induction q with
    | nil => exact ⟨[], [], rfl, rfl⟩
    | cons b q ih =>
        obtain ⟨front, back, hq, hinsert⟩ := ih
        rw [insertBefore]
        split
        · exact ⟨b :: front, back, by rw [hq]; rfl, by rw [hinsert]; rfl⟩
        · split
          · exact ⟨[], b :: q, rfl, rfl⟩
          · exact ⟨[b], q, rfl, rfl⟩
  rw [insertIntoQueue]
  split
  next hnone =>
    obtain rfl := List.getLast?_eq_none_iff.1 hnone
    exact ⟨[], [], rfl, rfl⟩
  next =>
    split
    · exact ⟨q, [], (List.append_nil q).symm, rfl⟩
    · exact hbefore q

omit [Platform] [Platform.Quiet] in
/-- A deletion removes the entry of the node and keeps the others in order. -/
theorem deleteByValue_eq_filter {q : List AutoDeleteNode} {x : Element}
    (hq : (q.map AutoDeleteNode.node).Nodup) :
    deleteByValue q x = q.filter fun a => a.node ≠ x := by
  induction q with
  | nil => rfl
  | cons a q ih =>
      obtain ⟨ha, hq⟩ := List.nodup_cons.1 hq
      rw [deleteByValue] at ih ⊢
      by_cases hx : a.node = x
      · have hall : q.filter (fun a => decide (a.node ≠ x)) = q :=
          List.filter_eq_self.2 fun b hb => by
            have hne : b.node ≠ x := fun h => ha (hx ▸ h ▸ List.mem_map_of_mem hb)
            simpa using hne
        rw [List.eraseP_cons_of_pos (by simpa using hx),
          List.filter_cons_of_neg (by simpa using hx), hall]
      · rw [List.eraseP_cons_of_neg (by simpa using hx),
          List.filter_cons_of_pos (by simpa using hx), ih hq]

omit [Platform] [Platform.Quiet] in
/-- A part of the queue that the graph still has the nodes of. -/
theorem Handler.QueueHolds.part (h : s.QueueHolds) (htx : t.tx = s.tx)
    (hsub : t.expirationQueue.Sublist s.expirationQueue)
    (hhas : ∀ a ∈ t.expirationQueue, ∀ n, a.node = .node n → s.db.Has n → t.db.Has n) :
    t.QueueHolds where
  writable := by
    rw [Handler.Writable, Handler.txMode, htx]
    exact h.writable
  ordered := h.ordered.sublist hsub
  once := h.once.sublist (hsub.map _)
  live a ha := by
    obtain ⟨n, hn, hhas'⟩ := h.live a (hsub.subset ha)
    exact ⟨n, hn, hhas a ha n hn hhas'⟩

omit [Platform] [Platform.Quiet] in
/-- What is left after some of the first entries have expired. -/
theorem Handler.QueueHolds.expires (h : s.QueueHolds) {done rest : List AutoDeleteNode}
    (hq : s.expirationQueue = done ++ rest) (ht : s.Expires done rest t) : t.QueueHolds := by
  have hsub : t.expirationQueue.Sublist s.expirationQueue := by
    rw [ht.queue, hq]
    exact List.sublist_append_right done rest
  refine h.part ht.tx hsub fun a ha n hn hhas => ?_
  have hdone : ∀ b ∈ done, ∃ m, b.node = .node m := fun b hb => by
    obtain ⟨m, hm, -⟩ := h.live b (by rw [hq]; exact List.mem_append_left _ hb)
    exact ⟨m, hm⟩
  have hother : ¬ ∃ b ∈ done, b.node = .node n := by
    rintro ⟨b, hb, hbn⟩
    have honce := h.once
    rw [hq, List.map_append] at honce
    refine (List.nodup_append.1 honce).2.2 _ (List.mem_map_of_mem hb) _
      (List.mem_map_of_mem (ht.queue ▸ ha)) ?_
    rw [hbn, hn]
  rw [Graph.Has, ht.db, node_removeAll hdone, if_neg hother]
  exact hhas

omit [Platform.Quiet] in
/-- An insertion. -/
theorem insert_settles (survives : Bool) {timestamp : ℕ} {n : NodeID} (h : s.QueueHolds)
    (hop : (QueueOp.insert timestamp n).Allowed s) :
    ∃ t, Runs ((QueueOp.insert timestamp n).run survives) s (.ret () t) ∧ t.QueueHolds ∧
      (QueueOp.insert timestamp n).Effect s t := by
  let new : AutoDeleteNode := ⟨timestamp, .node n⟩
  obtain ⟨hhas, hnew⟩ := hop
  have hperm := insertIntoQueue_perm s.expirationQueue new
  refine ⟨{ s with expirationQueue := insertIntoQueue s.expirationQueue new },
    Runs.of_eq fun _ => ?_, ⟨h.writable, insertIntoQueue_ordered h.ordered, ?_, ?_⟩, rfl,
    insertIntoQueue_splits s.expirationQueue new⟩
  · rw [QueueOp.run, modify_apply, insertByIterator_eq]
  · refine (hperm.map AutoDeleteNode.node).nodup_iff.2 (List.nodup_cons.2 ⟨fun hmem => ?_, h.once⟩)
    obtain ⟨a, ha, hsame⟩ := List.mem_map.1 hmem
    exact hnew a ha hsame
  · intro a ha
    rcases List.mem_cons.1 (hperm.mem_iff.1 ha) with rfl | ha
    · exact ⟨n, rfl, hhas⟩
    · exact h.live a ha

omit [Platform.Quiet] in
/-- A removal by value, if the iterator survives it. -/
theorem delete_settles {x : Element} (h : s.QueueHolds)
    (hclean : (QueueOp.delete x).Clean survives s) :
    ∃ t, Runs ((QueueOp.delete x).run survives) s (.ret () t) ∧ t.QueueHolds ∧
      (QueueOp.delete x).Effect s t := by
  have hfilter := deleteByValue_eq_filter (x := x) h.once
  have hdefined : survives = true ∨ ∀ a ∈ s.expirationQueue, a.node ≠ x := hclean
  let t := { s with expirationQueue := deleteByValue s.expirationQueue x }
  have hsub : t.expirationQueue.Sublist s.expirationQueue := List.eraseP_sublist
  refine ⟨t, Runs.of_eq fun _ => ?_, h.part rfl hsub fun _ _ _ _ hhas => hhas, rfl, hfilter⟩
  rw [QueueOp.run, bind_apply, get_apply, Outcome.andThen_ret, deleteByIterator_eq,
    if_pos hdefined]
  rfl

omit [Platform.Quiet] in
/-- A removal by value has no outcome otherwise. -/
theorem delete_undefined {x : Element} (hclean : ¬ (QueueOp.delete x).Clean survives s)
    {o : Outcome Handler PMGDException Unit} (hrun : Runs ((QueueOp.delete x).run survives) s o) :
    o = .stuck := by
  have hundefined : ¬ (survives = true ∨ ∀ a ∈ s.expirationQueue, a.node ≠ x) := hclean
  obtain ⟨N, hN⟩ := hrun
  have h := hN N le_rfl
  rw [QueueOp.run, bind_apply, get_apply, Outcome.andThen_ret, deleteByIterator_eq,
    if_neg hundefined] at h
  exact h.symm

/-- The removal of the expired nodes ends; what it has done is all there is to do if their paths
are strings. -/
theorem expire_total (survives : Bool) (h : s.QueueHolds) :
    Total (QueueOp.expire.run survives) s
      (fun _ t => QueueOp.expire.Clean survives s ∧ t.QueueHolds ∧ QueueOp.expire.Effect s t)
      fun _ t => ¬ QueueOp.expire.Clean survives s ∧ t.QueueHolds := by
  have hnodes : ∀ a ∈ s.expirationQueue, ∃ n, a.node = .node n := fun a ha => by
    obtain ⟨n, hn, -⟩ := h.live a ha
    exact ⟨n, hn⟩
  obtain ⟨htake, hdrop⟩ := takeWhile_expired h.ordered s.now
  have hsplit : s.expirationQueue = s.expirationQueue.filter (fun a => a.timestamp < s.now) ++
      s.expirationQueue.filter fun a => s.now ≤ a.timestamp := by
    rw [← htake, ← hdrop]
    exact List.takeWhile_append_dropWhile.symm
  have hclean : QueueOp.expire.Clean survives s ↔
      FilesReadable s.db (s.expirationQueue.filter fun a => a.timestamp < s.now) := by
    simp only [QueueOp.Clean, FilesReadable, List.mem_filter, decide_eq_true_eq, and_imp]
  have hloop := deleteExpiredFrom_total s.now h.writable rfl h.once hnodes
  rw [htake, hdrop, ← hclean] at hloop
  have hnodesLoop : Total deleteExpiredNodes s
      (fun _ t => QueueOp.expire.Clean survives s ∧
        s.Expires (s.expirationQueue.filter fun a => a.timestamp < s.now)
          (s.expirationQueue.filter fun a => s.now ≤ a.timestamp) t)
      fun _ t => ¬ QueueOp.expire.Clean survives s ∧
        ∃ done rest, s.expirationQueue = done ++ rest ∧ s.Expires done rest t :=
    Total.get_bind (Total.bind hloop fun _ t ht => Total.pure ht)
  have hiter : Total deleteExpiredLoop s
      (fun _ t => QueueOp.expire.Clean survives s ∧
        s.Expires (s.expirationQueue.filter fun a => a.timestamp < s.now)
          (s.expirationQueue.filter fun a => s.now ≤ a.timestamp) t)
      fun _ t => ¬ QueueOp.expire.Clean survives s ∧
        ∃ done rest, s.expirationQueue = done ++ rest ∧ s.Expires done rest t := by
    cases hnodesLoop with
    | ret hrun ht => exact .ret (deleteExpiredLoop_runs_iff.2 hrun) ht
    | throw hrun ht => exact .throw (deleteExpiredLoop_runs_iff.2 hrun) ht
  refine Total.bind (hiter.mono (fun _ _ h => h) ?_) ?_
  · rintro _ t ⟨hbad, done, rest, hq, ht⟩
    exact ⟨hbad, h.expires hq ht⟩
  · rintro _ t ⟨hgood, ht⟩
    refine Total.pure ⟨hgood, h.expires hsplit ht, ht.queue, ht.db, fun m => ?_⟩
    rw [ht.db, node_removeAll fun a ha => hnodes a (List.mem_of_mem_filter ha)]
    simp only [List.mem_filter, decide_eq_true_eq, and_assoc]

/-- Every call, as far as it is defined. -/
theorem QueueOp.settles {op : QueueOp} (h : s.QueueHolds) (hop : op.Allowed s) :
    ((∃ t, Runs (op.run survives) s (.ret () t) ∧ t.QueueHolds ∧ op.Effect s t) ↔
      op.Clean survives s) ∧
    (∀ t, Runs (op.run survives) s (.ret () t) → t.QueueHolds) ∧
    ∀ e t, Runs (op.run survives) s (.throw e t) → t.QueueHolds := by
  have hdone : ∀ t, Runs (op.run survives) s (.ret () t) → t.QueueHolds ∧ op.Effect s t →
      op.Clean survives s →
      ((∃ t, Runs (op.run survives) s (.ret () t) ∧ t.QueueHolds ∧ op.Effect s t) ↔
        op.Clean survives s) ∧
      (∀ t, Runs (op.run survives) s (.ret () t) → t.QueueHolds) ∧
      ∀ e t, Runs (op.run survives) s (.throw e t) → t.QueueHolds := by
    intro t hrun ht hclean
    refine ⟨⟨fun _ => hclean, fun _ => ⟨t, hrun, ht⟩⟩, fun u hu => ?_, fun e u hu => ?_⟩
    · obtain ⟨-, rfl⟩ := Outcome.ret.inj (hrun.unique hu)
      exact ht.1
    · exact absurd (hrun.unique hu) (by simp)
  cases op with
  | insert timestamp n =>
      obtain ⟨t, hrun, ht⟩ := insert_settles survives h hop
      exact hdone t hrun ht trivial
  | delete x =>
      by_cases hclean : (QueueOp.delete x).Clean survives s
      · obtain ⟨t, hrun, ht⟩ := delete_settles h hclean
        exact hdone t hrun ht hclean
      · refine ⟨⟨fun ⟨t, hrun, _⟩ => ?_, fun h => absurd h hclean⟩, fun t hrun => ?_,
          fun e t hrun => ?_⟩
        all_goals exact absurd (delete_undefined hclean hrun) (by simp)
  | expire =>
      cases expire_total survives h with
      | @ret _ t hrun ht => exact hdone t hrun ht.2 ht.1
      | @throw e t hrun ht =>
          refine ⟨⟨fun ⟨u, hu, _⟩ => ?_, fun h => absurd h ht.1⟩, fun u hu => ?_, fun e' u hu => ?_⟩
          · exact absurd (hrun.unique hu) (by simp)
          · exact absurd (hrun.unique hu) (by simp)
          · obtain ⟨-, rfl⟩ := Outcome.throw.inj (hrun.unique hu)
            exact ht.2

/-- What holds of the queue throughout. Induction on the history. -/
theorem QueueReachable.holds (h : QueueReachable survives s) : s.QueueHolds := by
  induction h with
  | start hs hq =>
      exact ⟨hs, by rw [hq]; exact List.Pairwise.nil, by rw [hq]; exact List.nodup_nil,
        fun a ha => by rw [hq] at ha; cases ha⟩
  | @between s t _ ht hq hlive ih =>
      refine ⟨ht, hq ▸ ih.ordered, hq ▸ ih.once, fun a ha => ?_⟩
      obtain ⟨n, hn, -⟩ := ih.live a (hq ▸ ha)
      exact ⟨n, hn, hlive a ha n hn⟩
  | returns op _ hop hrun ih => exact (QueueOp.settles ih hop).2.1 _ hrun
  | throws op _ hop hrun ih => exact (QueueOp.settles ih hop).2.2 _ _ hrun

/-- **The operations on the queue.** After every history the queue is in order, and a call does
its part, and leaves the queue in order, exactly if it is clean. -/
theorem queue_operation_iff (h : QueueReachable survives s) :
    Ordered s.expirationQueue ∧ ∀ op : QueueOp, op.Allowed s →
      ((∃ t, Runs (op.run survives) s (.ret () t) ∧ Ordered t.expirationQueue ∧ op.Effect s t) ↔
        op.Clean survives s) := by
  refine ⟨h.holds.ordered, fun op hop => ?_⟩
  rw [← (QueueOp.settles h.holds hop).1]
  constructor
  · rintro ⟨t, hrun, -, heffect⟩
    exact ⟨t, hrun, (QueueOp.settles h.holds hop).2.1 t hrun, heffect⟩
  · rintro ⟨t, hrun, ht, heffect⟩
    exact ⟨t, hrun, ht.ordered, heffect⟩

end Operations

end

/-! ### A node without a path -/

/-- A node whose path is a number. -/
def numberedImage : Graph where
  nodes := [some ⟨stringID "VD:IMG", fun key =>
    if key = stringID "VD:imgPath" then some (.integer 5) else none⟩]
  edges := []

/-- The node is in the queue. -/
def imageQueued (now : ℕ) : Handler :=
  { Handler.inTransaction numberedImage with expirationQueue := [⟨10, .node 0⟩], now }

/-- The state with one image in the queue is reachable. -/
theorem imageQueued_reachable (survives : Bool) (now : ℕ) :
    QueueReachable survives (imageQueued now) := by
  have hstart : QueueReachable survives { Handler.inTransaction numberedImage with now } :=
    .start rfl rfl
  refine .returns (.insert 10 0) hstart ⟨rfl, fun a ha => by cases ha⟩ ?_
  exact Runs.of_eq fun _ => rfl

/-- Four images, each with a path. -/
def fourImages : Graph where
  nodes := List.replicate 4 (some ⟨stringID "VD:IMG", fun key =>
    if key = stringID "VD:imgPath" then some (.string "a.png") else none⟩)
  edges := []

/-- The paths of the four images can be read. -/
theorem fourImages_readable (g : Graph) (n : NodeID)
    (hg : g.props (.node n) = fourImages.props (.node n)) (hn : n < 4) :
    PathsReadable g (.node n) pathProps := by
  intro key _ v hv
  have hprops : fourImages.props (.node n) = fun key =>
      if key = stringID "VD:imgPath" then some (.string "a.png") else none := by
    match n, hn with
    | 0, _ | 1, _ | 2, _ | 3, _ => rfl
  rw [hg, hprops] at hv
  beta_reduce at hv
  by_cases hkey : stringID key = stringID "VD:imgPath"
  · rw [if_pos hkey] at hv
    exact ⟨"a.png", (Option.some.inj hv).symm⟩
  · rw [if_neg hkey] at hv
    cases hv

/-- Three of them are in the queue, at the times 5, 10 and 30, and it is 7. -/
def threeQueued : Handler :=
  { Handler.inTransaction fourImages with
    expirationQueue := [⟨5, .node 3⟩, ⟨10, .node 0⟩, ⟨30, .node 2⟩], now := 7 }

/-- The state with three images in the queue is reachable. -/
theorem threeQueued_reachable : QueueReachable false threeQueued := by
  have hstart : QueueReachable false { Handler.inTransaction fourImages with now := 7 } :=
    .start rfl rfl
  have hone := QueueReachable.returns (.insert 30 2) hstart ⟨rfl, fun a ha => by cases ha⟩
    (Runs.of_eq fun _ => rfl)
  have htwo := QueueReachable.returns (.insert 5 3) hone
    ⟨rfl, List.forall_mem_cons.2 ⟨by decide, fun a ha => by cases ha⟩⟩ (Runs.of_eq fun _ => rfl)
  exact QueueReachable.returns (.insert 10 0) htwo
    ⟨rfl, List.forall_mem_cons.2 ⟨by decide, List.forall_mem_cons.2 ⟨by decide, fun a ha => by
      cases ha⟩⟩⟩ (Runs.of_eq fun _ => rfl)

/-- One of the three expires. Then a fourth image is entered, at the same time as the one that is
now the first, and later both expire. The last image stays. -/
theorem queue_operation_iff_expire : ∃ s t, QueueReachable false s ∧
    s.expirationQueue = [⟨10, .node 0⟩, ⟨10, .node 1⟩, ⟨30, .node 2⟩] ∧ s.now = 20 ∧
    s.db.node 3 = none ∧ Runs (QueueOp.expire.run false) s (.ret () t) ∧
    Ordered t.expirationQueue ∧ t.expirationQueue = [⟨30, .node 2⟩] ∧
    t.db.node 0 = none ∧ t.db.node 1 = none ∧ t.db.node 2 = fourImages.node 2 := by
  have hreach := threeQueued_reachable
  obtain ⟨t, hrun, -, hqueue, hdb, -⟩ := ((queue_operation_iff hreach).2 .expire trivial).2 (by
    refine List.forall_mem_cons.2 ⟨fun _ => fourImages_readable _ 3 rfl (by decide), ?_⟩
    exact List.forall_mem_cons.2 ⟨fun h => absurd h (by decide), List.forall_mem_cons.2
      ⟨fun h => absurd h (by decide), fun a ha => by cases ha⟩⟩)
  replace hqueue : t.expirationQueue = [⟨10, .node 0⟩, ⟨30, .node 2⟩] := hqueue
  replace hdb : t.db = fourImages.removeNode 3 := hdb
  have hreach := QueueReachable.returns .expire hreach trivial hrun
  have hhas : t.db.Has 1 := by rw [hdb]; rfl
  have hnew : ∀ a ∈ t.expirationQueue, a.node ≠ .node 1 := by
    rw [hqueue]
    decide
  have hreach := QueueReachable.returns (.insert 10 1) hreach ⟨hhas, hnew⟩ (Runs.of_eq fun _ => rfl)
  have hentries : insertByIterator t.expirationQueue ⟨10, .node 1⟩ =
      [⟨10, .node 0⟩, ⟨10, .node 1⟩, ⟨30, .node 2⟩] := by
    rw [hqueue]
    decide
  let s : Handler :=
    { t with expirationQueue := insertByIterator t.expirationQueue ⟨10, .node 1⟩, now := 20 }
  have hs : s.expirationQueue = [⟨10, .node 0⟩, ⟨10, .node 1⟩, ⟨30, .node 2⟩] := hentries
  have hreach : QueueReachable false s := .between hreach hreach.holds.writable rfl
    fun a ha n hn => by
      obtain ⟨m, hm, hhas⟩ := hreach.holds.live a ha
      rw [hn] at hm
      exact Element.node.inj hm ▸ hhas
  have hsdb : s.db = fourImages.removeNode 3 := hdb
  obtain ⟨u, hrun, hordered, hqueue, hdb, -⟩ := ((queue_operation_iff hreach).2 .expire trivial).2
    (by
      have hnow : s.now = 20 := rfl
      rw [QueueOp.Clean, hs, hnow]
      have hpaths : ∀ n, n < 2 → PathsReadable s.db (.node n) pathProps := fun n hn =>
        fourImages_readable _ n (by rw [hsdb]; match n, hn with | 0, _ | 1, _ => rfl)
          (Nat.lt_trans hn (by decide))
      exact List.forall_mem_cons.2 ⟨fun _ => hpaths 0 (by decide), List.forall_mem_cons.2
        ⟨fun _ => hpaths 1 (by decide), List.forall_mem_cons.2
          ⟨fun h => absurd h (by decide), fun a ha => by cases ha⟩⟩⟩)
  rw [hs] at hqueue hdb
  rw [hsdb] at hdb
  refine ⟨s, u, hreach, hs, rfl, ?_, hrun, hordered, hqueue, ?_, ?_, ?_⟩
  · rw [hsdb]
    rfl
  all_goals
    rw [hdb]
    rfl

/-- Neither if an erased iterator can be incremented nor if it cannot do all calls do their part:
`delete_by_value` of a node in the queue, and `delete_expired_nodes` with the path. -/
theorem calls_fail : ¬ ∃ survives : Bool, ∀ s, QueueReachable survives s → ∀ op : QueueOp,
    op.Allowed s → ∃ t, Runs (op.run survives) s (.ret () t) ∧ op.Effect s t := by
  rintro ⟨survives, h⟩
  cases survives with
  | false =>
      obtain ⟨t, hrun, -⟩ := h _ (imageQueued_reachable false 0) (.delete (.node 0)) trivial
      refine absurd (delete_undefined ?_ hrun) (by simp)
      rintro (h | h)
      · cases h
      · exact h _ (List.mem_singleton_self _) rfl
  | true =>
      obtain ⟨t, hrun, -⟩ := h _ (imageQueued_reachable true 20) .expire trivial
      have hholds := (imageQueued_reachable true 20).holds
      cases expire_total true hholds with
      | throw hthrow _ => exact absurd (hrun.unique hthrow) (by simp)
      | ret _ ht =>
          obtain ⟨file, hfile⟩ := ht.1 ⟨10, .node 0⟩ (List.mem_singleton_self _) (by decide)
            "VD:imgPath" (by decide) (.integer 5) (by decide +kernel)
          cases hfile

end Vdms
