import Vdms.JsonObjects
import Mathlib.Data.List.Induction
import Vdms.MediaResponses

/-!
# Copies of Videos

The copy constructor of `Video` lists the members that it copies, and `swap`, by which the
assignment operator takes over the members of a copy, lists them again, without four of them.
Among these are the operated file and the error. `VideoLoop` writes into its map by insertion or
by assignment, and `FindVideo` looks for an error in the first entry of the map only.

## Main results

* `VCL.VideoObject.same_assign_iff`: what an assignment preserves.
* `EventLoop.LoggedRun.map_eq`: the map of a loop is what its writes have made of it.
* `FindVideo.copies_faithful_iff`: the entries that carry what was last written for a video, and
  the replies that hide that an operation has failed.
-/

namespace Vdms

open Relation
open Std (TreeMap)

namespace VCL

/-- `Video::VideoSize`. -/
structure VideoSize where
  width : UInt32
  height : UInt32
  frameCount : UInt32

/-- `Video::Codec`. -/
inductive VideoCodec where
  | nocodec | mjpg | xvid | h263 | h264 | avc1

/-- The members of `Video` that are copied or swapped. -/
structure VideoObject where
  opLabels : List String
  videoId : String
  operatedVideoId : String
  noBlob : Bool
  queryErrorResponse : String
  flagStored : Bool
  size : VideoSize
  /-- The bits of the `float`. -/
  fps : UInt32
  codec : VideoCodec
  operations : List Operation
  remoteOpParams : Json

namespace VideoObject

/-- `Video(const Video &video)`. -/
def copyConstructor (video : VideoObject) : VideoObject where
  noBlob := video.noBlob
  size := video.size
  fps := video.fps
  videoId := video.videoId
  codec := video.codec
  flagStored := video.flagStored
  operations := video.operations
  operatedVideoId := video.operatedVideoId
  remoteOpParams := video.remoteOpParams
  queryErrorResponse := video.queryErrorResponse
  opLabels := video.opLabels

/-- The left-hand side of `swap` takes these members over. -/
def takeSwapped (lhs rhs : VideoObject) : VideoObject :=
  { lhs with
    videoId := rhs.videoId
    noBlob := rhs.noBlob
    flagStored := rhs.flagStored
    size := rhs.size
    fps := rhs.fps
    codec := rhs.codec
    operations := rhs.operations }

/-- `swap`. -/
def swap (lhs rhs : VideoObject) : VideoObject × VideoObject :=
  (lhs.takeSwapped rhs, rhs.takeSwapped lhs)

/-- `operator=`: its parameter is a copy. -/
def assign (lhs video : VideoObject) : VideoObject := (lhs.swap video.copyConstructor).1

/-- The copy means the same as the video. -/
structure Same (copy video : VideoObject) : Prop where
  videoId : copy.videoId = video.videoId
  operatedVideoId : copy.operatedVideoId = video.operatedVideoId
  operations : copy.operations = video.operations
  queryErrorResponse : copy.queryErrorResponse = video.queryErrorResponse

/-- The copy constructor copies every member. -/
theorem same_copyConstructor (video : VideoObject) : Same video.copyConstructor video :=
  ⟨rfl, rfl, rfl, rfl⟩

/-- **Assignment.** What is assigned to keeps its operated file and its error. -/
theorem same_assign_iff {lhs video : VideoObject} :
    Same (lhs.assign video) video ↔ lhs.operatedVideoId = video.operatedVideoId ∧
      lhs.queryErrorResponse = video.queryErrorResponse := by
  constructor
  · intro h
    exact ⟨h.operatedVideoId, h.queryErrorResponse⟩
  · rintro ⟨hoperated, herror⟩
    exact ⟨rfl, hoperated, rfl, herror⟩

/-- The video of the event loop, given the contents of the files. -/
def toVideo {Data : Type} (files : String → Option Data) (video : VideoObject) : Video Data where
  videoId := video.videoId
  operations := video.operations
  operated := if video.operatedVideoId = "" then none else files video.operatedVideoId
  queryErrorResponse := video.queryErrorResponse

/-- The event loop assigns as `operator=` does. -/
theorem toVideo_assign {Data : Type} (files : String → Option Data) (lhs video : VideoObject) :
    (lhs.assign video).toVideo files =
      Video.assign (some (lhs.toVideo files)) (video.toVideo files) := rfl

/-- As a video of the loop, a copy is what the assignment makes of the original. -/
theorem toVideo_copyConstructor {Data : Type} (files : String → Option Data)
    (video : VideoObject) :
    video.copyConstructor.toVideo files = Video.assign none (video.toVideo files) := rfl

end VideoObject

end VCL

/-! ### What is written into the map -/

/-- A write into the map of a loop. -/
inductive MapWrite (α : Type) where
  /-- After an operation, or after all of them. -/
  | store (item : α)
  /-- After the answer of the remote service. -/
  | answer (item : α)
  /-- After a failure. -/
  | error (item : α)

namespace MapWrite

variable {α : Type}

def item : MapWrite α → α
  | store item => item
  | answer item => item
  | error item => item

/-- How the item goes over the entry that is there. -/
def merge (K : LoopKind α) : MapWrite α → Option α → α → α
  | store _ => K.store
  | answer _ => K.storeAnswer
  | error _ => K.storeError

def key (K : LoopKind α) (w : MapWrite α) : String := K.key w.item

end MapWrite

namespace EventLoop

variable {α : Type} {K : LoopKind α}

/-- The map after a write. -/
def write (K : LoopKind α) (map : TreeMap String α) (w : MapWrite α) : TreeMap String α :=
  put K (w.merge K) map w.item

/-- The map after these writes. -/
def replay (K : LoopKind α) (log : List (MapWrite α)) : TreeMap String α :=
  log.foldl (write K) ∅

/-- The threads have just done this write. -/
def Wrote (K : LoopKind α) (s t : EventLoop α) : MapWrite α → Prop
  | .store item' => ∃ flag item rest, s.operation = .working flag (item :: rest) ∧
      (K.turn item (.stored item') ∧ t.operation = .working flag rest ∨
        K.turn item (.applied item') ∧ t.operation = .working flag (item' :: rest)) ∧
      t.map = put K K.store s.map item'
  | .answer item' => ∃ item rest pending pending', s.remote = .storing (item :: rest) pending ∧
      (K.answer item item' ∨ K.undecoded item item') ∧
      t.remote = .enqueueing item' rest pending' ∧ t.map = put K K.storeAnswer s.map item'
  | .error item' =>
      (∃ flag item rest, s.operation = .working flag (item :: rest) ∧
        K.turn item (.failed item') ∧ t.operation = .failing rest ∧
        t.map = put K K.storeError s.map item') ∨
      ∃ item rest, s.remote = .requesting (item :: rest) ∧ K.reject item item' ∧
        t.remote = .rejected rest ∧ t.map = put K K.storeError s.map item'

/-- A run, with the writes that are done in it. -/
inductive LoggedRun (K : LoopKind α) (s : EventLoop α) :
    List (MapWrite α) → EventLoop α → Prop where
  | refl : LoggedRun K s [] s
  | wrote {log t u w} : LoggedRun K s log t → Step K t u → Wrote K t u w →
      LoggedRun K s (log ++ [w]) u
  | silent {log t u} : LoggedRun K s log t → Step K t u → (∀ w, ¬ Wrote K t u w) →
      LoggedRun K s log u

/-- After a step that writes, the map is the one before with the write. -/
theorem Wrote.map_eq {s t : EventLoop α} {w : MapWrite α} (h : Wrote K s t w) :
    t.map = write K s.map w := by
  cases w with
  | store item' =>
      obtain ⟨_, _, _, _, _, hmap⟩ := h
      exact hmap
  | answer item' =>
      obtain ⟨_, _, _, _, _, _, _, hmap⟩ := h
      exact hmap
  | error item' =>
      rcases h with ⟨_, _, _, _, _, _, hmap⟩ | ⟨_, _, _, _, _, hmap⟩
      · exact hmap
      · exact hmap

/-- The remote thread is where it writes next. -/
def RemoteThread.writesNext : RemoteThread α → Bool
  | .storing (_ :: _) _ => true
  | .requesting (_ :: _) => true
  | _ => false

/-- Threads that have nothing at hand do not write. -/
theorem not_wrote {s t : EventLoop α} (hop : s.operation.hand = [])
    (hremote : RemoteThread.writesNext s.remote = false) (w : MapWrite α) : ¬ Wrote K s t w := by
  intro hwrote
  cases w with
  | store item' =>
      obtain ⟨flag, item, rest, hat, -⟩ := hwrote
      rw [hat] at hop
      cases hop
  | answer item' =>
      obtain ⟨item, rest, pending, _, hat, -⟩ := hwrote
      rw [hat] at hremote
      cases hremote
  | error item' =>
      rcases hwrote with ⟨flag, item, rest, hat, -⟩ | ⟨item, rest, hat, -⟩
      · rw [hat] at hop
        cases hop
      · rw [hat] at hremote
        cases hremote

/-- **Steps write once.** A step without a write leaves the map as it is. -/
theorem Step.map_eq {s t : EventLoop α} (h : Step K s t) (hsilent : ∀ w, ¬ Wrote K s t w) :
    t.map = s.map := by
  cases h with
  | @applied flag item item' rest hat hturn =>
      exact absurd ⟨flag, item, rest, hat, .inr ⟨hturn, rfl⟩, rfl⟩ (hsilent (.store item'))
  | @stored flag item item' rest hat hturn =>
      exact absurd ⟨flag, item, rest, hat, .inl ⟨hturn, rfl⟩, rfl⟩ (hsilent (.store item'))
  | @fail flag item item' rest hat hturn =>
      exact absurd (.inl ⟨flag, item, rest, hat, hturn, rfl, rfl⟩) (hsilent (.error item'))
  | @storeAnswer item item' rest pending hat hanswer =>
      exact absurd ⟨item, rest, pending, pending, hat, .inl hanswer, rfl, rfl⟩
        (hsilent (.answer item'))
  | @storeUndecoded item item' rest pending hat hanswer =>
      exact absurd ⟨item, rest, pending, _, hat, .inr hanswer, rfl, rfl⟩
        (hsilent (.answer item'))
  | @reject item item' rest hat hsend hreject =>
      exact absurd (.inr ⟨item, rest, hat, hreject, rfl, rfl⟩) (hsilent (.error item'))
  | _ => rfl

/-- **The map is what was written.** -/
theorem LoggedRun.map_eq {s t : EventLoop α} {log : List (MapWrite α)} (h : LoggedRun K s log t)
    (hempty : s.map = ∅) : t.map = replay K log := by
  induction h with
  | refl => exact hempty
  | wrote _ _ hwrote ih =>
      rw [hwrote.map_eq, ih, replay, replay, List.foldl_append]
      rfl
  | silent _ hstep hsilent ih => rw [hstep.map_eq hsilent, ih]

/-- Every run has its writes. -/
theorem exists_loggedRun {s t : EventLoop α} (h : ReflTransGen (Step K) s t) :
    ∃ log, LoggedRun K s log t := by
  induction h with
  | refl => exact ⟨[], .refl⟩
  | @tail t u _ hstep ih =>
      obtain ⟨log, hlog⟩ := ih
      by_cases hwrote : ∃ w, Wrote K t u w
      · obtain ⟨w, hwrote⟩ := hwrote
        exact ⟨_, hlog.wrote hstep hwrote⟩
      · exact ⟨log, hlog.silent hstep fun w hw => hwrote ⟨w, hw⟩⟩

/-- A run with a log is a run. -/
theorem LoggedRun.run {s t : EventLoop α} {log : List (MapWrite α)} (h : LoggedRun K s log t) :
    ReflTransGen (Step K) s t := by
  induction h with
  | refl => exact .refl
  | wrote _ hstep _ ih => exact ih.tail hstep
  | silent _ hstep _ ih => exact ih.tail hstep

/-! What all items of a run have in common. -/

/-- Nothing that is done to an item takes the property from it. -/
structure Kept (K : LoopKind α) (P : α → Prop) : Prop where
  copy : ∀ x, P x → P (K.copy x)
  applied : ∀ x y, P x → K.turn x (.applied y) → P y
  stored : ∀ x y, P x → K.turn x (.stored y) → P y
  handed : ∀ x y, P x → K.turn x (.remote y) → P y
  failed : ∀ x y, P x → K.turn x (.failed y) → P y
  answer : ∀ x y, P x → K.answer x y → P y
  undecoded : ∀ x y, P x → K.undecoded x y → P y
  reject : ∀ x y, P x → K.reject x y → P y

/-- All items have the property, wherever they are. -/
structure AllHave (P : α → Prop) (s : EventLoop α) : Prop where
  entities : ∀ x ∈ s.entities, P x
  buffered : ∀ x ∈ s.mWriteBuffer, P x
  toSend : ∀ x ∈ s.rWriteBuffer, P x
  atHand : ∀ x ∈ s.operation.hand, P x
  sent : ∀ x ∈ s.remote.hand, P x
  returning : ∀ x ∈ s.remote.returning, P x

variable {P : α → Prop} {s t : EventLoop α}

/-- What holds of all entities holds of all that is in the loop at the start. -/
theorem AllHave.start {entities : List α} (nrofEntities : ℕ) (h : ∀ x ∈ entities, P x) :
    AllHave P (.start nrofEntities entities) where
  entities := h
  buffered := nofun
  toSend := nofun
  atHand := nofun
  sent := nofun
  returning := nofun

/-- **A property that is kept stays with all items.** -/
theorem AllHave.step (h : AllHave P s) (hK : Kept K P) (hstep : Step K s t) : AllHave P t := by
  cases hstep with
  | @enqueue item rest hent =>
      have hall := h.entities
      rw [hent, List.forall_mem_cons] at hall
      exact { h with
        entities := hall.2
        buffered := List.forall_mem_append.2
          ⟨h.buffered, List.forall_mem_singleton.2 (hK.copy _ hall.1)⟩ }
  | enter _ _ => exact { h with atHand := nofun }
  | exit _ _ => exact { h with atHand := nofun }
  | take _ _ => exact { h with buffered := nofun, atHand := h.buffered }
  | @done flag item rest hat _ =>
      have hall := h.atHand
      rw [hat] at hall
      exact { h with atHand := (List.forall_mem_cons.1 hall).2 }
  | @applied flag item item' rest hat hturn =>
      have hall := h.atHand
      rw [hat] at hall
      obtain ⟨hitem, hrest⟩ := List.forall_mem_cons.1 hall
      exact { h with atHand := List.forall_mem_cons.2 ⟨hK.applied _ _ hitem hturn, hrest⟩ }
  | @stored flag item item' rest hat _ =>
      have hall := h.atHand
      rw [hat] at hall
      exact { h with atHand := (List.forall_mem_cons.1 hall).2 }
  | @hand flag item item' rest hat hturn =>
      have hall := h.atHand
      rw [hat] at hall
      obtain ⟨hitem, hrest⟩ := List.forall_mem_cons.1 hall
      exact { h with
        atHand := hrest
        toSend := List.forall_mem_append.2 ⟨h.toSend, List.forall_mem_singleton.2
          (hK.copy _ (hK.handed _ _ hitem hturn))⟩ }
  | @fail flag item item' rest hat _ =>
      have hall := h.atHand
      rw [hat] at hall
      exact { h with atHand := (List.forall_mem_cons.1 hall).2 }
  | @abort rest hat =>
      have hall := h.atHand
      rw [hat] at hall
      refine { h with buffered := nofun, toSend := nofun, atHand := ?_ }
      dsimp only [OperationThread.hand]
      split
      · exact nofun
      · exact hall
  | worked _ => exact { h with atHand := nofun }
  | test _ =>
      refine { h with atHand := ?_ }
      dsimp only
      split <;> exact nofun
  | testWriteBuffer _ =>
      refine { h with atHand := ?_ }
      dsimp only
      split <;> exact nofun
  | testRemoteBuffer _ =>
      refine { h with atHand := ?_ }
      dsimp only
      split <;> exact nofun
  | stop _ => exact { h with atHand := nofun }
  | enterRemote hat _ =>
      have hall := h.sent
      rw [hat] at hall
      exact { h with sent := hall, returning := nofun }
  | exitRemote _ _ => exact { h with sent := nofun, returning := nofun }
  | takeRemote hat _ _ =>
      have hall := h.sent
      rw [hat] at hall
      exact { h with toSend := hall, sent := h.toSend, returning := nofun }
  | leaveRemote hat _ _ =>
      have hall := h.sent
      rw [hat] at hall
      exact { h with sent := hall, returning := nofun }
  | request hat _ =>
      have hall := h.sent
      rw [hat] at hall
      exact { h with sent := hall, returning := nofun }
  | retry hat _ =>
      have hall := h.sent
      rw [hat] at hall
      exact { h with sent := hall, returning := nofun }
  | answered hat _ =>
      have hall := h.sent
      rw [hat] at hall
      exact { h with sent := List.forall_mem_append.2 ⟨hall, nofun⟩, returning := nofun }
  | @storeAnswer item item' rest pending hat hanswer =>
      have hall := h.sent
      rw [hat] at hall
      obtain ⟨hitem, hrest⟩ := List.forall_mem_cons.1 hall
      exact { h with
        sent := hrest
        returning := List.forall_mem_singleton.2 (hK.answer _ _ hitem hanswer) }
  | @storeUndecoded item item' rest pending hat hanswer =>
      have hall := h.sent
      rw [hat] at hall
      obtain ⟨hitem, hrest⟩ := List.forall_mem_cons.1 hall
      have hitem' := hK.undecoded _ _ hitem hanswer
      obtain ⟨hrest, hpending⟩ := List.forall_mem_append.1 hrest
      exact { h with
        sent := List.forall_mem_append.2 ⟨hrest,
          List.forall_mem_append.2 ⟨hpending, List.forall_mem_singleton.2 hitem'⟩⟩
        returning := List.forall_mem_singleton.2 hitem' }
  | @enqueueAnswer item rest pending hat =>
      have hall := h.sent
      have hreturning := h.returning
      rw [hat] at hall hreturning
      exact { h with
        buffered := List.forall_mem_append.2 ⟨h.buffered, List.forall_mem_singleton.2
          (hK.copy _ (hreturning item (List.mem_singleton_self item)))⟩
        sent := hall
        returning := nofun }
  | again hat _ =>
      have hall := h.sent
      rw [hat] at hall
      exact { h with sent := hall, returning := nofun }
  | finish _ => exact { h with sent := nofun, returning := nofun }
  | @reject item item' rest hat _ _ =>
      have hall := h.sent
      rw [hat] at hall
      exact { h with sent := (List.forall_mem_cons.1 hall).2, returning := nofun }
  | abortRemote _ =>
      exact { h with buffered := nofun, toSend := nofun, sent := nofun, returning := nofun }
  | finished _ => exact { h with sent := nofun, returning := nofun }

/-- What is written has it. -/
theorem AllHave.wrote {w : MapWrite α} (h : AllHave P s) (hK : Kept K P)
    (hwrote : Wrote K s t w) : P w.item := by
  cases w with
  | store item' =>
      obtain ⟨flag, item, rest, hat, hturn, -⟩ := hwrote
      have hitem := h.atHand
      rw [hat] at hitem
      rcases hturn with ⟨hturn, -⟩ | ⟨hturn, -⟩
      · exact hK.stored _ _ (hitem item (List.mem_cons_self ..)) hturn
      · exact hK.applied _ _ (hitem item (List.mem_cons_self ..)) hturn
  | answer item' =>
      obtain ⟨item, rest, pending, _, hat, hanswer, -⟩ := hwrote
      have hitem := h.sent
      rw [hat] at hitem
      rcases hanswer with hanswer | hanswer
      · exact hK.answer _ _ (hitem item (List.mem_cons_self ..)) hanswer
      · exact hK.undecoded _ _ (hitem item (List.mem_cons_self ..)) hanswer
  | error item' =>
      rcases hwrote with ⟨flag, item, rest, hat, hturn, -⟩ | ⟨item, rest, hat, hreject, -⟩
      · have hitem := h.atHand
        rw [hat] at hitem
        exact hK.failed _ _ (hitem item (List.mem_cons_self ..)) hturn
      · have hitem := h.sent
        rw [hat] at hitem
        exact hK.reject _ _ (hitem item (List.mem_cons_self ..)) hreject

/-- All that a run writes has it. -/
theorem LoggedRun.allHave {log : List (MapWrite α)} (h : LoggedRun K s log t) (hK : Kept K P)
    (hs : AllHave P s) : AllHave P t ∧ ∀ w ∈ log, P w.item := by
  induction h with
  | refl => exact ⟨hs, nofun⟩
  | wrote _ hstep hwrote ih =>
      exact ⟨ih.1.step hK hstep, List.forall_mem_append.2
        ⟨ih.2, List.forall_mem_singleton.2 (ih.1.wrote hK hwrote)⟩⟩
  | silent _ hstep _ ih => exact ⟨ih.1.step hK hstep, ih.2⟩

/-- One more write. -/
theorem replay_concat (log : List (MapWrite α)) (w : MapWrite α) (k : String) :
    (replay K (log ++ [w]))[k]? =
      if w.key K = k then some (w.merge K (replay K log)[w.key K]? w.item)
      else (replay K log)[k]? := by
  rw [replay, List.foldl_append]
  exact getElem?_put (w.merge K) (replay K log) w.item k

/-- Writes for other keys leave an entry alone. -/
theorem replay_append_of_ne {log after : List (MapWrite α)} {k : String}
    (h : ∀ w ∈ after, w.key K ≠ k) : (replay K (log ++ after))[k]? = (replay K log)[k]? := by
  induction after generalizing log with
  | nil => rw [List.append_nil]
  | cons w after ih =>
      obtain ⟨hw, hafter⟩ := List.forall_mem_cons.1 h
      rw [List.append_cons, ih hafter, replay_concat, if_neg hw]

/-- **The last write for a key** goes over the entry of the one before. -/
theorem replay_last (before : List (MapWrite α)) (w : MapWrite α) {after : List (MapWrite α)}
    (h : ∀ w' ∈ after, w'.key K ≠ w.key K) :
    (replay K (before ++ w :: after))[w.key K]? =
      some (w.merge K (replay K before)[w.key K]? w.item) := by
  rw [List.append_cons, replay_append_of_ne h, replay_concat, if_pos rfl]

/-- The keys of the map are those that were written. -/
theorem mem_replay {log : List (MapWrite α)} {k : String} :
    k ∈ replay K log ↔ ∃ w ∈ log, w.key K = k := by
  induction log using List.reverseRecOn with
  | nil => simp [replay]
  | append_singleton log w ih =>
      rw [TreeMap.mem_iff_isSome_getElem?, replay_concat]
      split
      next hkey =>
        exact iff_of_true rfl ⟨w, by simp, hkey⟩
      next hkey =>
        rw [← TreeMap.mem_iff_isSome_getElem?, ih]
        simp [hkey, or_and_right, exists_or]

/-- The write is the first one for its key. -/
def FirstWrite (K : LoopKind α) (log : List (MapWrite α)) (w : MapWrite α) : Prop :=
  ∃ before after, log = before ++ w :: after ∧ ∀ w' ∈ before, w'.key K ≠ w.key K

/-- The write is the last one for its key. -/
def LastWrite (K : LoopKind α) (log : List (MapWrite α)) (w : MapWrite α) : Prop :=
  ∃ before after, log = before ++ w :: after ∧ ∀ w' ∈ after, w'.key K ≠ w.key K

/-- A key that is written has a first write. -/
theorem exists_firstWrite {log : List (MapWrite α)} {k : String}
    (h : ∃ w ∈ log, w.key K = k) : ∃ w, FirstWrite K log w ∧ w.key K = k := by
  induction log with
  | nil => simp at h
  | cons first log ih =>
      by_cases hkey : first.key K = k
      · exact ⟨first, ⟨[], log, rfl, List.forall_mem_nil _⟩, hkey⟩
      · rw [List.exists_mem_cons_iff] at h
        obtain ⟨w, ⟨before, after, rfl, hbefore⟩, hw⟩ := ih (h.resolve_left hkey)
        refine ⟨w, ⟨first :: before, after, rfl, ?_⟩, hw⟩
        exact List.forall_mem_cons.2 ⟨fun h => hkey (h.trans hw), hbefore⟩

/-- A key that is written has a last write. -/
theorem exists_lastWrite {log : List (MapWrite α)} {k : String}
    (h : ∃ w ∈ log, w.key K = k) : ∃ w, LastWrite K log w ∧ w.key K = k := by
  induction log with
  | nil => simp at h
  | cons first log ih =>
      by_cases hlater : ∃ w ∈ log, w.key K = k
      · obtain ⟨w, ⟨before, after, rfl, hafter⟩, hw⟩ := ih hlater
        exact ⟨w, ⟨first :: before, after, rfl, hafter⟩, hw⟩
      · rw [List.exists_mem_cons_iff] at h
        have hkey := h.resolve_right hlater
        refine ⟨first, ⟨[], log, rfl, fun w hw hsame => ?_⟩, hkey⟩
        exact hlater ⟨w, hw, hsame.trans hkey⟩

/-- The first entry of a map is that of the least key. -/
theorem exists_head_iff {map : TreeMap String α} {Q : String × α → Prop} :
    (∃ entry ∈ map.toList.head?, Q entry) ↔
      ∃ k y, map[k]? = some y ∧ (∀ k' ∈ map, k ≤ k') ∧ Q (k, y) := by
  have hsorted : (map.toList.map Prod.fst).Pairwise (· < ·) := by
    rw [TreeMap.map_fst_toList_eq_keys]
    exact keys_sorted map
  have hmem : ∀ k y, map[k]? = some y ↔ (k, y) ∈ map.toList := fun k y =>
    TreeMap.mem_toList_iff_getElem?_eq_some.symm
  have hkey : ∀ k', k' ∈ map ↔ ∃ entry ∈ map.toList, entry.1 = k' := fun k' => by
    rw [← TreeMap.mem_keys, ← TreeMap.map_fst_toList_eq_keys, List.mem_map]
  simp only [hmem, hkey]
  cases hlist : map.toList with
  | nil => simp
  | cons entry rest =>
      rw [hlist, List.map_cons, List.pairwise_cons] at hsorted
      constructor
      · rintro ⟨_, hhead, hQ⟩
        obtain rfl := Option.some.inj hhead
        refine ⟨entry.1, entry.2, List.mem_cons_self .., ?_, hQ⟩
        rintro k' ⟨entry', hin, rfl⟩
        rcases List.mem_cons.1 hin with rfl | hin
        · exact String.le_refl _
        · have hlt := hsorted.1 _ (List.mem_map_of_mem hin)
          exact String.not_lt.mp fun h => String.lt_irrefl _ (String.lt_trans hlt h)
      · rintro ⟨k, y, hin, hleast, hQ⟩
        rcases List.mem_cons.1 hin with rfl | hin
        · exact ⟨_, rfl, hQ⟩
        · have hlt := hsorted.1 _ (List.mem_map_of_mem hin)
          have hle := hleast entry.1 ⟨entry, List.mem_cons_self .., rfl⟩
          exact absurd hlt (String.not_lt.mpr hle)

end EventLoop

/-! ### What is carried -/

open VCL

namespace VideoLoop

variable {Data : Type} {L : VideoLibrary Data}

/-- The entry has the operated file and the error of the video. -/
def Carries (entry video : Video Data) : Prop :=
  entry.operated = video.operated ∧ entry.queryErrorResponse = video.queryErrorResponse

/-- The file of a stored video is set after the assignment. -/
def setsOperated : MapWrite (Video Data) → Bool
  | .store _ => true
  | _ => false

/-- The video that is assigned to has the error of the one that is written, and its file unless
that is set. -/
def Agrees (w : MapWrite (Video Data)) (old : Video Data) : Prop :=
  (setsOperated w = true ∨ old.operated = w.item.operated) ∧
    old.queryErrorResponse = w.item.queryErrorResponse

/-- What is in the map carries the video that is written exactly if the entry before agrees with
it. -/
theorem merge_carries_iff (w : MapWrite (Video Data)) (prior : Option (Video Data)) :
    Carries (w.merge (videoLoop L) prior w.item) w.item ↔
      ∀ old, prior = some old → Agrees w old := by
  cases prior with
  | none =>
      refine iff_of_true ?_ fun old h => by cases h
      cases w with
      | store video => exact ⟨rfl, rfl⟩
      | answer video => exact ⟨rfl, rfl⟩
      | error video => exact ⟨rfl, rfl⟩
  | some old =>
      simp only [Option.some.injEq, forall_eq', Agrees]
      cases w with
      | store video => exact ⟨fun h => ⟨.inl rfl, h.2⟩, fun h => ⟨rfl, h.2⟩⟩
      | answer video =>
          exact ⟨fun h => ⟨.inr h.1, h.2⟩,
            fun h => ⟨h.1.resolve_left (by simp [setsOperated]), h.2⟩⟩
      | error video =>
          exact ⟨fun h => ⟨.inr h.1, h.2⟩,
            fun h => ⟨h.1.resolve_left (by simp [setsOperated]), h.2⟩⟩

/-- An entry has the error of the first write for its video: assignments keep it. -/
theorem error_of_firstWrite {log : List (MapWrite (Video Data))} {w : MapWrite (Video Data)}
    (h : EventLoop.FirstWrite (videoLoop L) log w) :
    ∃ entry, (EventLoop.replay (videoLoop L) log)[w.item.videoId]? = some entry ∧
      entry.queryErrorResponse = w.item.queryErrorResponse := by
  obtain ⟨before, after, rfl, hbefore⟩ := h
  induction after using List.reverseRecOn with
  | nil =>
      have hnone : (EventLoop.replay (videoLoop L) before)[w.key (videoLoop L)]? = none := by
        rw [← Option.not_isSome_iff_eq_none, ← TreeMap.mem_iff_isSome_getElem?,
          EventLoop.mem_replay]
        rintro ⟨w', hw', hkey⟩
        exact hbefore w' hw' hkey
      refine ⟨_, (EventLoop.replay_concat before w _).trans (if_pos rfl), ?_⟩
      rw [hnone]
      cases w <;> rfl
  | append_singleton after w' ih =>
      obtain ⟨entry, hentry, herror⟩ := ih
      rw [← List.cons_append, ← List.append_assoc, EventLoop.replay_concat]
      split
      next hkey =>
        rw [hkey, hentry]
        refine ⟨_, rfl, ?_⟩
        cases w' <;> exact herror
      next => exact ⟨entry, hentry, herror⟩

/-- **The first entry of the map** has the error of the first write for the least path. -/
theorem head_error_iff {log : List (MapWrite (Video Data))} :
    (∃ entry ∈ (EventLoop.replay (videoLoop L) log).toList.head?,
      entry.2.queryErrorResponse ≠ "") ↔
    ∃ w, EventLoop.FirstWrite (videoLoop L) log w ∧
      (∀ w' ∈ log, w.item.videoId ≤ w'.item.videoId) ∧ w.item.queryErrorResponse ≠ "" := by
  have hleast : ∀ k, (∀ k' ∈ EventLoop.replay (videoLoop L) log, k ≤ k') ↔
      ∀ w' ∈ log, k ≤ w'.item.videoId := fun k => by
    simp only [EventLoop.mem_replay, forall_exists_index, and_imp]
    exact ⟨fun h w' hw' => h _ w' hw' rfl, fun h _ w' hw' hkey => hkey ▸ h w' hw'⟩
  rw [EventLoop.exists_head_iff]
  simp only [hleast]
  constructor
  · rintro ⟨k, y, hy, hk, herror⟩
    have hwritten := EventLoop.mem_replay.mp (TreeMap.mem_iff_isSome_getElem?.mpr
      (by rw [hy]; rfl))
    obtain ⟨w, hfirst, rfl⟩ := EventLoop.exists_firstWrite hwritten
    obtain ⟨entry, hentry, hsame⟩ := error_of_firstWrite hfirst
    obtain rfl := Option.some.inj (hy.symm.trans hentry)
    exact ⟨w, hfirst, hk, hsame ▸ herror⟩
  · rintro ⟨w, hfirst, hk, herror⟩
    obtain ⟨entry, hentry, hsame⟩ := error_of_firstWrite hfirst
    exact ⟨_, entry, hentry, hk, hsame ▸ herror⟩

/-- The operation that the last write for some video was about has failed. -/
def LastFailed (log : List (MapWrite (Video Data))) : Prop :=
  ∃ before video after, log = before ++ .error video :: after ∧
    ∀ w ∈ after, w.item.videoId ≠ video.videoId

end VideoLoop

/-- The reply of a command says that it has succeeded. -/
def Reply.Succeeds (cmdName : String) (reply : Reply) : Prop :=
  ∃ response status, reply.result = .ok (.object [(cmdName, response)]) ∧
    response.get "status" = .ok status ∧ status ≠ .int (-1)

section

namespace FindVideo

variable {Data : Type} {L : VideoLibrary Data}

/-- The videos are collected exactly if each of them can be encoded. -/
theorem collect_ok_iff {container codec : String} {entries : List (String × Video Data)}
    {before : List Bytes} :
    (∃ blobs, collect L container codec entries before = .ok blobs) ↔
      ∀ entry ∈ entries, ∃ blob, getEncoded L container codec entry.2 = .ok blob := by
  induction entries generalizing before with
  | nil => simp [collect]
  | cons entry entries ih =>
      obtain ⟨key, video⟩ := entry
      rw [List.forall_mem_cons]
      cases henc : getEncoded L container codec video with
      | error e => simp [collect, henc]
      | ok blob =>
          cases blob with
          | nil => simp [collect, henc, ih]
          | cons byte blob => simp [collect, henc, ih]

/-- Removing a member of an object leaves the others as they are. -/
theorem filter_lookup_of_ne {key key' : String} (ms : List (String × Json)) (h : key ≠ key') :
    (ms.filter fun m => m.1 ≠ key).lookup key' = ms.lookup key' := by
  induction ms with
  | nil => rfl
  | cons m ms ih =>
      obtain ⟨k, w⟩ := m
      by_cases hk : k = key
      · subst hk
        rw [List.filter_cons_of_neg (by simp), ih, List.lookup_cons, beq_false_of_ne h.symm]
      · rw [List.filter_cons_of_pos (by simpa using hk), List.lookup_cons, List.lookup_cons, ih]

/-- If one of them cannot, the reply is an error. -/
theorem collect_error {container codec : String} {entries : List (String × Video Data)}
    {before : List Bytes} {reply : Reply}
    (h : collect L container codec entries before = .error reply) :
    ∃ blobs e, reply = ⟨blobs, .error e⟩ := by
  induction entries generalizing before with
  | nil => cases h
  | cons entry entries ih =>
      obtain ⟨key, video⟩ := entry
      rw [collect] at h
      split at h
      · cases h
        exact ⟨_, _, rfl⟩
      · exact ih h
      · exact ih h

/-- The answer at the end has the status of the response. -/
theorem finishReply_succeeds {cmdName : String} {resp status : Json} {entities : List Json}
    {dropEntities : Bool} {blobs : List Bytes} (hobject : resp.isObject = true)
    (hstatus : resp.get "status" = .ok status) (hne : status ≠ .int (-1)) :
    (finishReply cmdName resp entities dropEntities blobs).Succeeds cmdName := by
  cases resp with
  | object ms =>
      have hget : ∀ ms' : List (String × Json), ms'.lookup "status" = ms.lookup "status" →
          (Json.object ms').get "status" = .ok status := by
        intro ms' hsame
        rw [← hstatus, Json.get, Json.get, hsame]
      have hinsert := insertMember_lookup "entities" "status" (.array entities) ms
      rw [if_neg (by decide)] at hinsert
      cases dropEntities with
      | true =>
          refine ⟨_, status, rfl, hget _ ?_, hne⟩
          exact (filter_lookup_of_ne _ (by decide)).trans hinsert
      | false => exact ⟨_, status, rfl, hget _ hinsert, hne⟩
  | _ => cases hobject

/-- The first response has the status of a success, or that of an empty result. -/
theorem checkResponses_status {responses : List Json} {resp status : Json}
    (hresp : checkResponses responses = .ok resp) (hstatus : resp.get "status" = .ok status)
    (hzero : status.isZero = true) :
    ∃ first, (responses.headD .null).get "status" = .ok first ∧ first ≠ .int (-1) := by
  cases responses with
  | nil =>
      cases hresp
      cases hstatus
      cases hzero
  | cons response responses =>
      rw [checkResponses] at hresp
      obtain ⟨statuses, hstatuses, hresp⟩ := bind_ok_inv hresp
      rw [List.mapM_cons] at hstatuses
      obtain ⟨first, hfirst, hstatuses⟩ := bind_ok_inv hstatuses
      obtain ⟨rest, -, hstatuses⟩ := bind_ok_inv hstatuses
      cases hstatuses
      refine ⟨first, hfirst, ?_⟩
      rintro rfl
      rw [if_neg (by simp)] at hresp
      cases hresp
      cases hstatus.symm.trans hfirst
      cases hzero

variable [Platform]

/-- Every video of the map can be encoded as the command asks for. -/
def CanAnswer (L : VideoLibrary Data) (cmd : Json) (map : TreeMap String (Video Data)) : Prop :=
  ∃ container codec, getValue Json.asString cmd "container" "mp4" = .ok container ∧
    getValue Json.asString cmd "codec" "h264" = .ok codec ∧
    ∀ entry ∈ map.toList, ∃ blob, getEncoded L container codec entry.2 = .ok blob

/-- The response that is walked through is an object with the status of a success. -/
theorem listed_status {shortlisted : List String} {cmd findVideo : Json}
    {responses entities : List Json}
    (h : listed shortlisted cmd responses = .ok (findVideo, entities)) :
    findVideo.isObject = true ∧ ∃ status, findVideo.get "status" = .ok status ∧
      status ≠ .int (-1) := by
  rw [listed] at h
  obtain ⟨resp, hresp, h⟩ := bind_ok_inv h
  obtain ⟨status, hstatus, h⟩ := bind_ok_inv h
  have hresp := ofJson_eq hresp
  have hstatus := ofJson_eq hstatus
  dsimp only at h
  split at h
  · cases h
  rename_i hzero
  obtain ⟨entities', hentities, h⟩ := bind_ok_inv h
  have hentities := ofJson_eq hentities
  split at h
  · cases h
  rename_i hsize
  obtain ⟨byMetadata, -, h⟩ := bind_ok_inv h
  have hfirst : findVideo = responses.headD .null := by
    split at h
    · obtain ⟨videos, -, h⟩ := bind_ok_inv h
      cases h
      rfl
    · obtain ⟨byFrame, -, h⟩ := bind_ok_inv h
      split at h
      · obtain ⟨_, -, h⟩ := bind_ok_inv h
        obtain ⟨_, -, h⟩ := bind_ok_inv h
        obtain ⟨_, -, h⟩ := bind_ok_inv h
        cases h
      · cases h
        rfl
  rw [← hfirst] at hentities
  refine ⟨?_, ?_⟩
  · cases findVideo with
    | object ms => rfl
    | null =>
        cases hentities
        exact absurd rfl hsize
    | _ => cases hentities
  · rw [hfirst]
    exact checkResponses_status hresp hstatus (by simpa using hzero)

/-- What is known of the command where `construct_responses` waits. -/
theorem wait_command {shortlisted : List String} {responses : List Json} {json cmd : Json} {n : ℕ}
    {videos : List (Video Data)} {resumed : TreeMap String (Video Data) → Option Reply}
    (hcmd : json.get "FindVideo" = .ok cmd)
    (h : (constructResponses L shortlisted responses json).2 = .wait n videos resumed) :
    ∃ findVideo w entities, listed shortlisted cmd responses = .ok (findVideo, entities) ∧
      resumed = resume L cmd findVideo w := by
  rw [constructResponses] at h
  split at h
  · cases h
  · rename_i cmd' hasOperations findVideo entities hlisted
    obtain ⟨cmd'', hcmd', hlisted⟩ := bind_ok_inv hlisted
    obtain ⟨has, hhas, hlisted⟩ := bind_ok_inv hlisted
    obtain ⟨result, hlist, hlisted⟩ := bind_ok_inv hlisted
    cases hlisted
    obtain rfl := Except.ok.inj (hcmd.symm.trans (ofJson_eq hcmd'))
    split at h
    · cases h
    rename_i w hwalk
    split_ifs at h with hwait
    cases h
    exact ⟨findVideo, w, entities, hlist, rfl⟩

/-- **The reply.** It says that the command has failed only for the error of the first entry, or
where a video cannot be encoded. -/
theorem resume_succeeds_iff {cmd findVideo : Json} {w : Walk Data}
    {map : TreeMap String (Video Data)} {reply : Reply}
    (hobject : findVideo.isObject = true)
    (hstatus : ∃ status, findVideo.get "status" = .ok status ∧ status ≠ .int (-1))
    (h : resume L cmd findVideo w map = some reply) :
    reply.Succeeds "FindVideo" ↔
      (∀ entry ∈ map.toList.head?, entry.2.queryErrorResponse = "") ∧ CanAnswer L cmd map := by
  obtain ⟨status, hstatus, hne⟩ := hstatus
  have hfails : ∀ {blobs info}, ¬ Reply.Succeeds "FindVideo"
      ((Stop.returned (failure info)).reply "FindVideo" blobs) := by
    rintro blobs info ⟨response, status', hresult, hget, hne'⟩
    cases hresult
    cases hget
    exact hne' rfl
  have hthrows : ∀ {blobs e}, ¬ Reply.Succeeds "FindVideo" ⟨blobs, .error e⟩ := by
    rintro blobs e ⟨response, status', hresult, -⟩
    cases hresult
  rw [resume] at h
  split at h
  · cases h
  rename_i key video rest hentries
  rw [hentries]
  simp only [List.head?_cons, Option.mem_some_iff, forall_eq']
  split_ifs at h with herror
  · cases h
    exact iff_of_false hfails fun hand => herror hand.1
  rw [and_iff_right (by simpa using herror)]
  cases hcontainer : getValue Json.asString cmd "container" "mp4" with
  | error e =>
      rw [hcontainer] at h
      cases h
      refine iff_of_false hthrows ?_
      rintro ⟨container, codec, hok, -⟩
      rw [hcontainer] at hok
      cases hok
  | ok container =>
      cases hcodec : getValue Json.asString cmd "codec" "h264" with
      | error e =>
          rw [hcontainer, hcodec] at h
          cases h
          refine iff_of_false hthrows ?_
          rintro ⟨container, codec, -, hok, -⟩
          rw [hcodec] at hok
          cases hok
      | ok codec =>
          have hanswers : CanAnswer L cmd map ↔
              ∃ blobs, collect L container codec map.toList [] = .ok blobs := by
            rw [collect_ok_iff]
            constructor
            · rintro ⟨container', codec', hcontainer', hcodec', hall⟩
              cases hcontainer.symm.trans hcontainer'
              cases hcodec.symm.trans hcodec'
              exact hall
            · exact fun hall => ⟨container, codec, hcontainer, hcodec, hall⟩
          rw [hanswers, hentries]
          rw [hcontainer, hcodec] at h
          simp only [bind, Except.bind, pure, Except.pure] at h
          split at h
          · rename_i failed hcollect
            cases h
            refine iff_of_false ?_ ?_
            · obtain ⟨blobs, e, rfl⟩ := collect_error hcollect
              exact hthrows
            · rintro ⟨blobs, hok⟩
              rw [hcollect] at hok
              cases hok
          · rename_i blobs hcollect
            cases h
            exact iff_of_true (finishReply_succeeds hobject hstatus hne) ⟨blobs, hcollect⟩

/-- **Copies of videos.** A copy that is constructed is the same, one that is assigned exactly if
operated file and error were the same before. So an entry of the map carries what was last written
for its video exactly if the entry that the write went over agrees with it. The reply for videos
of which one has failed does not say so, unless the first write for the least path has an error,
or one of the videos cannot be encoded. -/
theorem copies_faithful_iff (L : VideoLibrary Data) :
    (∀ video : VideoObject, VideoObject.Same video.copyConstructor video) ∧
    (∀ lhs video : VideoObject, VideoObject.Same (lhs.assign video) video ↔
      lhs.operatedVideoId = video.operatedVideoId ∧
        lhs.queryErrorResponse = video.queryErrorResponse) ∧
    (∀ (n : ℕ) (videos : List (Video Data)) (log before after : List (MapWrite (Video Data)))
      (w : MapWrite (Video Data)) (s : EventLoop (Video Data)),
      EventLoop.LoggedRun (videoLoop L) (.start n videos) log s → log = before ++ w :: after →
      (∀ w' ∈ after, w'.item.videoId ≠ w.item.videoId) →
      ∃ entry, s.map[w.item.videoId]? = some entry ∧ (VideoLoop.Carries entry w.item ↔
        ∀ old, (EventLoop.replay (videoLoop L) before)[w.item.videoId]? = some old →
          VideoLoop.Agrees w old)) ∧
    (∀ (shortlisted : List String) (responses : List Json) (json cmd : Json) (n : ℕ)
      (videos : List (Video Data)) (resumed : TreeMap String (Video Data) → Option Reply)
      (log : List (MapWrite (Video Data))) (s : EventLoop (Video Data)) (reply : Reply),
      json.get "FindVideo" = .ok cmd →
      (constructResponses L shortlisted responses json).2 = .wait n videos resumed →
      EventLoop.LoggedRun (videoLoop L) (.start n videos) log s → s.isLoopRunning = false →
      VideoLoop.LastFailed log → resumed s.map = some reply →
      (¬ reply.Succeeds "FindVideo" ↔
        (∃ w, EventLoop.FirstWrite (videoLoop L) log w ∧
          (∀ w' ∈ log, w.item.videoId ≤ w'.item.videoId) ∧ w.item.queryErrorResponse ≠ "") ∨
          ¬ CanAnswer L cmd s.map)) := by
  refine ⟨VideoObject.same_copyConstructor, fun _ _ => VideoObject.same_assign_iff, ?_, ?_⟩
  · intro n videos log before after w s hrun hlog hafter
    have hentry := EventLoop.replay_last (K := videoLoop L) before w hafter
    rw [← hlog, ← hrun.map_eq rfl] at hentry
    exact ⟨_, hentry, VideoLoop.merge_carries_iff w _⟩
  · intro shortlisted responses json cmd n videos resumed log s reply hcmd hwait hrun _ _ hreply
    obtain ⟨findVideo, w, entities, hlisted, rfl⟩ := wait_command hcmd hwait
    obtain ⟨hobject, hstatus⟩ := listed_status hlisted
    rw [resume_succeeds_iff hobject hstatus hreply, not_and_or, ← VideoLoop.head_error_iff,
      ← hrun.map_eq rfl]
    simp only [not_forall, exists_prop, ne_eq]

end FindVideo

end

/-! ### A failure after a remote operation -/

namespace FindVideo

open EventLoop

/-- No operation but a remote one succeeds. -/
def refusing : VideoLibrary ℕ where
  source _ := some 0
  perform _ _ result := result = .error ⟨"Invalid operation", by decide⟩
  answer data result := result = data + 1
  opens _ := true
  readFile _ := some [0]
  encode _ _ data := .ok [data.toUInt8]

/-- `{"type": "remoteOp"}`. -/
def remoteOp : Json := .object [("type", .string "remoteOp")]

/-- A video for the remote service, before the operation that fails. -/
def remoteFirst : Video ℕ where
  videoId := "a.mp4"
  operations := [.remote remoteOp, .apply ImageLoop.threshold]
  operated := none
  queryErrorResponse := ""

/-- After the answer of the remote service. -/
def answered : Video ℕ :=
  { remoteFirst with operations := [.apply ImageLoop.threshold], operated := some 1 }

/-- After the failure. -/
def refused : Video ℕ := { answered with queryErrorResponse := "Invalid operation" }

/-- One step of the loop sends the video to the remote operation. -/
theorem turn_remoteFirst : Video.Turn refusing remoteFirst
    (.remote { remoteFirst with operations := [.apply ImageLoop.threshold], operated := some 0 }) :=
  .remote (.nothing rfl) rfl

/-- One step of the loop fails at the operation behind the remote one. -/
theorem turn_answered : Video.Turn refusing answered (.failed refused) :=
  .failed (@Video.ExecuteOperations.thrown _ _ answered 1 ⟨"Invalid operation", by decide⟩
    (by simp [Video.toRemote, answered, Operation.isRemote]) rfl rfl)

/-- The loop after the failure. -/
theorem refused_run : ∃ s, LoggedRun (videoLoop refusing) (.start 1 [remoteFirst])
    [.answer answered, .error refused] s ∧ s.isLoopRunning = false ∧
      s.map.toList = [("a.mp4", answered)] := by
  have hrun := LoggedRun.refl (K := videoLoop refusing) (s := .start 1 [remoteFirst])
  have hrun := hrun.silent (.enqueue rfl) (not_wrote rfl rfl)
  have hrun := hrun.silent (.enter rfl rfl) (not_wrote rfl rfl)
  have hrun := hrun.silent (.take rfl (by simp [start])) (not_wrote rfl rfl)
  have hrun := hrun.silent (.hand rfl turn_remoteFirst) fun w hwrote => by
    rcases w with video | video | video
    · obtain ⟨_, _, _, hat, ⟨_, hto⟩ | ⟨_, hto⟩, -⟩ := hwrote
      · cases hat
        cases hto
      · cases hat
        cases hto
    · obtain ⟨_, _, _, _, hat, -⟩ := hwrote
      cases hat
    · obtain ⟨_, _, _, _, _, hto, -⟩ | ⟨_, _, hat, -⟩ := hwrote
      · cases hto
      · cases hat
  have hrun := hrun.silent (.worked rfl) (not_wrote rfl rfl)
  have hrun := hrun.silent (.test rfl) (not_wrote rfl rfl)
  have hrun := hrun.silent (.enter rfl rfl) (not_wrote rfl rfl)
  have hrun := hrun.silent (.enterRemote rfl rfl) (not_wrote rfl rfl)
  have hrun := hrun.silent (.takeRemote rfl (by simp [start]) rfl) (not_wrote rfl rfl)
  have hrun := hrun.silent (.request rfl rfl) (not_wrote rfl rfl)
  have hrun := hrun.silent (.answered rfl fun _ _ => trivial) fun w hwrote => by
    rcases w with video | video | video
    · obtain ⟨_, _, _, hat, -⟩ := hwrote
      cases hat
    · obtain ⟨_, _, _, _, hat, -⟩ := hwrote
      cases hat
    · obtain ⟨_, _, _, hat, -⟩ | ⟨_, _, _, _, hto, -⟩ := hwrote
      · cases hat
      · cases hto
  have hanswer : (videoLoop refusing).answer
      { remoteFirst with operations := [.apply ImageLoop.threshold], operated := some 0 }
      answered :=
    ⟨0, 1, rfl, rfl, rfl⟩
  have hrun := hrun.wrote (w := .answer answered) (.storeAnswer rfl hanswer)
    ⟨_, _, _, _, rfl, .inl hanswer, rfl, rfl⟩
  have hrun := hrun.silent (.enqueueAnswer rfl) (not_wrote rfl rfl)
  have hrun := hrun.silent (.take rfl (by simp)) (not_wrote rfl rfl)
  have hrun := hrun.wrote (w := .error refused) (.fail rfl turn_answered)
    (.inl ⟨_, _, _, rfl, turn_answered, rfl, rfl⟩)
  have hrun := hrun.silent (.abort rfl) (not_wrote rfl rfl)
  exact ⟨_, hrun, rfl, rfl⟩

/-- `{"operations": […]}`. -/
def remoteCommand : Json := .object [("operations", .array [remoteOp, ImageLoop.threshold])]

/-- `FindVideo` with a remote operation waits for the loop. -/
theorem waits_for_remote : ∃ findVideo w, (constructResponses refusing []
    [.object [("entities", .array [.object [("VD:videoPath", .string "a.mp4")]]),
      ("status", .int 0)]] (.object [("FindVideo", remoteCommand)])).2 =
      .wait 1 [remoteFirst] (resume refusing remoteCommand findVideo w) ∧
    findVideo.isObject = true ∧ findVideo.get "status" = .ok (.int 0) :=
  ⟨_, _, rfl, rfl, rfl⟩

/-- The map of the loop can be answered. -/
theorem canAnswer_answered {map : TreeMap String (Video ℕ)}
    (h : map.toList = [("a.mp4", answered)]) : CanAnswer refusing remoteCommand map := by
  refine ⟨_, _, rfl, rfl, fun entry hentry => ?_⟩
  rw [h] at hentry
  obtain rfl := List.mem_singleton.1 hentry
  exact ⟨_, rfl⟩

/-- `FindVideo` goes on with a reply. -/
theorem resume_answered {findVideo : Json} {w : Walk ℕ} {map : TreeMap String (Video ℕ)}
    (h : map.toList = [("a.mp4", answered)]) :
    ∃ reply, resume refusing remoteCommand findVideo w map = some reply := by
  rw [resume, h]
  exact ⟨_, rfl⟩

/-- The last write of the log is an error. -/
theorem lastFailed_refused : VideoLoop.LastFailed [.answer answered, .error refused] :=
  ⟨[.answer answered], refused, [], rfl, by simp⟩

/-- The entry is that of the answer, without the error. -/
theorem copies_faithful_iff_refused : ∃ s, LoggedRun (videoLoop refusing) (.start 1 [remoteFirst])
    [.answer answered, .error refused] s ∧
    (∃ entry, s.map["a.mp4"]? = some entry ∧ ¬ VideoLoop.Carries entry refused) ∧
    ∃ findVideo w reply, resume refusing remoteCommand findVideo w s.map = some reply ∧
      reply.Succeeds "FindVideo" := by
  obtain ⟨s, hrun, hstopped, hmap⟩ := refused_run
  obtain ⟨findVideo, w, hwait, -⟩ := waits_for_remote
  obtain ⟨reply, hreply⟩ := @resume_answered findVideo w s.map hmap
  refine ⟨s, hrun, ?_, findVideo, w, reply, hreply, ?_⟩
  · obtain ⟨entry, hentry, hcarries⟩ := (copies_faithful_iff refusing).2.2.1 _ _ _
      [.answer answered] [] (.error refused) s hrun rfl (by simp)
    refine ⟨entry, hentry, fun h => ?_⟩
    have hold : (replay (videoLoop refusing) [.answer answered])["a.mp4"]? = some answered :=
      replay_last (K := videoLoop refusing) [] (.answer answered) (List.forall_mem_nil _)
    have hagrees := (hcarries.1 h answered hold).2
    revert hagrees
    decide
  · by_contra hno
    rcases ((copies_faithful_iff refusing).2.2.2 _ _ _ _ _ _ _ _ s reply rfl hwait hrun hstopped
      lastFailed_refused hreply).1 hno with hfirst | hcannot
    · rw [← VideoLoop.head_error_iff, ← hrun.map_eq rfl, hmap] at hfirst
      obtain ⟨entry, hentry, herror⟩ := hfirst
      cases hentry
      exact herror rfl
    · exact hcannot (canAnswer_answered hmap)

/-- `FindVideo` reports success for the only video, whose last operation has failed. -/
theorem failed_video_succeeds : ∃ findVideo w s reply, (constructResponses refusing []
    [.object [("entities", .array [.object [("VD:videoPath", .string "a.mp4")]]),
      ("status", .int 0)]] (.object [("FindVideo", remoteCommand)])).2 =
      .wait 1 [remoteFirst] (resume refusing remoteCommand findVideo w) ∧
    LoggedRun (videoLoop refusing) (.start 1 [remoteFirst]) [.answer answered, .error refused] s ∧
    s.isLoopRunning = false ∧ VideoLoop.LastFailed [.answer answered, .error refused] ∧
    resume refusing remoteCommand findVideo w s.map = some reply ∧
    reply.Succeeds "FindVideo" := by
  obtain ⟨s, hrun, hstopped, hmap⟩ := refused_run
  obtain ⟨findVideo, w, hwait, hobject, hstatus⟩ := waits_for_remote
  obtain ⟨reply, hreply⟩ := @resume_answered findVideo w s.map hmap
  refine ⟨findVideo, w, s, reply, hwait, hrun, hstopped, lastFailed_refused, hreply, ?_⟩
  refine (resume_succeeds_iff hobject ⟨_, hstatus, by simp⟩ hreply).2
    ⟨fun entry hentry => ?_, canAnswer_answered hmap⟩
  rw [hmap] at hentry
  cases hentry
  rfl

end FindVideo

end Vdms
