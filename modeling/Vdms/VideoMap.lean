import Vdms.VideoLoop

/-!
# The Map of Videos

What `FindVideo` takes its blobs from: the map of a video loop that has stopped. In a run in
which no video fails, it has every video that was given to the loop.

## Main results

* `VideoLoop.video_map_complete`: what the map holds when the loop has stopped.
-/

namespace Vdms

open Relation VCL
open Std (TreeMap)

namespace VideoLoop

open VCL.Video EventLoop

variable {Data : Type} {L : VideoLibrary Data}

/-- **The map has every video.** In a run in which nothing fails, and which is not ended while
a video is in flight, the map of a loop that has stopped has the identifiers of the videos and
no others, each with the video that all operations have been applied to, once and in order;
and none is left in a buffer. -/
theorem video_map_complete {videos : List (Video Data)} {n : ℕ} {s : EventLoop (Video Data)}
    (hrun : ReflTransGen (QuietStep (videoLoop L) (fun _ => True) False) (.start n videos) s)
    (hstopped : s.isLoopRunning = false) :
    (∀ id, id ∈ s.map ↔ ∃ video ∈ videos, video.videoId = id) ∧
      (∀ id entry, s.map[id]? = some entry →
        ∃ video ∈ videos, video.videoId = id ∧ Finished L video entry) ∧
      s.entities = [] ∧ s.mWriteBuffer = [] ∧ s.rWriteBuffer = [] := by
  have hstart : Inv (account L videos) (.start n videos) :=
    .start (account L videos) n (fun _ h => h) fun _ => List.mem_map.mp
  have hinv : Inv (account L videos) s := hstart.run hrun
  obtain ⟨hrecorded, hquiet⟩ := hinv.complete hstopped
  have hmem : ∀ id, id ∈ s.map ↔ ∃ video ∈ videos, video.videoId = id := fun id =>
    (hinv.mem_map_iff hstopped id).trans List.mem_map
  refine ⟨hmem, fun id entry hentry => ?_, hquiet.enqueued, ?_, hquiet.sent⟩
  · have hid : id ∈ s.map := TreeMap.mem_iff_isSome_getElem?.mpr (by simp [hentry])
    obtain ⟨found, hfound, hkey, entity, hentity, hfinished⟩ :=
      hrecorded id (List.mem_map.mpr ((hmem id).mp hid))
    obtain rfl : found = entry := Option.some.inj (hfound.symm.trans hentry)
    exact ⟨entity, hentity, hfinished.videoId.symm.trans hkey, hfinished⟩
  · exact List.eq_nil_iff_forall_not_mem.mpr fun x hx => hquiet.buffered x hx trivial

/-- Frames are counted: every operation takes one away. -/
def lastFrames : VideoLibrary ℕ where
  source _ := some 3
  perform _ frames result := result = .ok (frames - 1)
  answer frames result := result = frames - 1
  opens _ := true
  readFile _ := none
  encode _ _ _ := .ok []

/-- A video with one operation. -/
def oneOperation (path : String) : Video ℕ := ⟨path, [.apply ImageLoop.threshold], none, ""⟩

/-- Its operation is performed, and the result is stored. -/
theorem oneOperation_turn (path : String) : Video.Turn lastFrames (oneOperation path)
    (.stored { oneOperation path with operations := [], operated := some 2 }) :=
  .stored (.performed (by simp [oneOperation, Video.toRemote, Operation.isRemote]) rfl rfl) rfl

/-- The loop of two videos. -/
theorem video_map_complete_two : ∃ s : EventLoop (Video ℕ), s.isLoopRunning = false ∧
    "a.mp4" ∈ s.map ∧ "b.mp4" ∈ s.map ∧ "c.mp4" ∉ s.map ∧ s.mWriteBuffer = [] := by
  have hrun : ReflTransGen (QuietStep (videoLoop lastFrames) (fun _ => True) False)
      (.start 2 [oneOperation "a.mp4", oneOperation "b.mp4"]) _ :=
    .head (.of_running (.enqueue rfl) rfl rfl) <|
    .head (.of_running (.enqueue rfl) rfl rfl) <|
    .head (.of_running (.enter rfl rfl) rfl rfl) <|
    .head (.of_running (.take rfl (by simp [EventLoop.start])) rfl rfl) <|
    .head (.of_running (.stored rfl (oneOperation_turn "a.mp4")) rfl rfl) <|
    .head (.of_running (.stored rfl (oneOperation_turn "b.mp4")) rfl rfl) <|
    .head (.of_running (.worked rfl) rfl rfl) <|
    .head (.of_running (.test rfl) rfl rfl) <|
    .head (.of_running (.testWriteBuffer rfl) rfl rfl) <|
    .head (.of_running (.testRemoteBuffer rfl) rfl rfl) <|
    .single ⟨.stop rfl, fun _ => ⟨rfl, rfl, rfl, fun _ hx => absurd hx List.not_mem_nil,
      fun _ hx => absurd hx List.not_mem_nil, fun _ hx => absurd hx List.not_mem_nil⟩,
      fun hfails => Bool.noConfusion hfails⟩
  obtain ⟨hmem, -, -, hnil, -⟩ := video_map_complete hrun rfl
  refine ⟨_, rfl, (hmem "a.mp4").mpr ⟨oneOperation "a.mp4", .head _, rfl⟩,
    (hmem "b.mp4").mpr ⟨oneOperation "b.mp4", .tail _ (.head _), rfl⟩, fun h => ?_, hnil⟩
  obtain ⟨video, hvideo, hid⟩ := (hmem "c.mp4").mp h
  simp only [List.mem_cons, List.not_mem_nil, or_false] at hvideo
  rcases hvideo with rfl | rfl <;> simp [oneOperation] at hid

end VideoLoop

end Vdms
