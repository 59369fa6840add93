import Mathlib.Data.List.TakeWhile
import Vdms.Imp.Prog
import Vdms.Json
import Vdms.PartialRead

/-!
# The Operations of a Video

`Video::perform_operations` takes a video through its pending operations in passes. In a pass
each frame goes through all operations up to the next one that needs the complete video, which
is then applied to the file with these frames. The number of operations that are done is taken
from the last frame of the pass: a pass over a video without frames starts again with the first
operation, as one on a complete video.

A file is the list of its frames: writing a file with OpenCV and reading it gives the frames
back, in the number that OpenCV says it has. Memory suffices.

## Main results

* `pipeline_faithful_iff`: when the result is that of one operation after another.
* `endless_passes`: a video that has no frames left before the last operation.
-/

namespace Vdms

open Imp Imp.Prog

namespace VCL

/-- The operations of a video. -/
inductive VideoOperation where
  | resize (width height : ℤ)
  | interval (start stop step : ℤ)
  | crop (rect : Rectangle)
  | threshold (value : ℤ)
  | syncRemote (url : String) (options : Json)
  | remote (url : String) (options : Json)
  | user (options : Json)

/-- The operations that work with the complete video. -/
def VideoOperation.isWhole : VideoOperation → Bool
  | .interval .. | .syncRemote .. | .remote .. | .user .. => true
  | .resize .. | .crop _ | .threshold _ => false

/-- What throws in a pass is a `cv::Exception`, from which `perform_operations` makes a
`VCL::Exception`. -/
inductive OpenCVError where
  | openCVError

/-- What OpenCV and the services make of frames and files. -/
structure FrameLibrary (Frame : Type) where
  /-- The operation on a frame; `none` is a `cv::Exception`. -/
  apply : VideoOperation → Frame → Option Frame
  /-- The operation throws for an empty matrix. -/
  refusesEmpty : VideoOperation → Bool
  /-- The file that a service answers with, or the message of an error. -/
  serve : VideoOperation → List Frame → Except String (List Frame)

/-- The file that is worked on, and `_query_error_response`. -/
structure WorkedVideo (Frame : Type) where
  frames : List Frame
  queryErrorResponse : String

/-- The loop of `Interval::operator()`, which counts the frames from 1 on. -/
def keepFrames {α : Type} (start stop step : ℤ) : List α → ℤ → ℤ → List α
  | [], _, _ => []
  | frame :: rest, frameNumber, lastFrameWritten =>
    let frameNumber := frameNumber + 1
    if start ≤ frameNumber ∧ frameNumber < stop ∧
        (lastFrameWritten = 0 ∨ frameNumber - lastFrameWritten = step) then
      frame :: keepFrames start stop step rest frameNumber frameNumber
    else if stop < frameNumber then []
    else keepFrames start stop step rest frameNumber lastFrameWritten

section

variable {Frame : Type} (L : FrameLibrary Frame)

/-- `set_query_error_response`. -/
def WorkedVideo.fail (video : WorkedVideo Frame) (msg : String) : WorkedVideo Frame :=
  { video with queryErrorResponse := msg }

/-- A service gets the file, unless it has no frames. -/
def WorkedVideo.serve (video : WorkedVideo Frame) (op : VideoOperation) (emptyMsg : String) :
    WorkedVideo Frame :=
  if video.frames = [] then video.fail emptyMsg
  else match L.serve op video.frames with
    | .ok frames => { video with frames := frames }
    | .error msg => video.fail msg

/-- `(*op)(this, mat, fname)` of an operation on the complete video. An asynchronous remote
operation only leaves its parameters. -/
def VideoOperation.performWhole (op : VideoOperation) (video : WorkedVideo Frame) :
    WorkedVideo Frame :=
  match op with
  | .interval start stop step =>
    if (video.frames.length : ℤ) ≤ start then
      video.fail "Start Frame cannot be greater than number of frames"
    else if (video.frames.length : ℤ) ≤ stop then
      video.fail "End Frame cannot be greater than number of frames"
    else { video with frames := keepFrames start stop step video.frames 0 0 }
  | .syncRemote .. => video.serve L op "Video object is empty"
  | .user _ => video.serve L op "Image object is empty"
  | .remote .. | .resize .. | .crop _ | .threshold _ => video

/-! ### The passes -/

/-- The operations on one frame, from the `i`-th on, up to one on the complete video: the frame
that is written, and the value of `i`. -/
def frameOperations : List VideoOperation → ℕ → Frame → Option (Frame × ℕ)
  | [], i, frame => some (frame, i)
  | op :: ops, i, frame =>
    if op.isWhole then some (frame, i)
    else do
      let frame ← L.apply op frame
      frameOperations ops (i + 1) frame

/-- `perform_single_frame_operations`: the frames that are written, and `i` after the last of
them, which is 0 before the first. -/
def performSingleFrameOperations (ops : List VideoOperation) (opCount : ℕ) (frames : List Frame) :
    Option (List Frame × ℕ) :=
  frames.foldlM (fun (written, _) frame => do
    let (frame, i) ← frameOperations L (ops.drop opCount) opCount frame
    pure (written ++ [frame], i)) ([], 0)

/-- `(*op)(this, mat, fname)`, with an empty matrix. -/
def performOn (op : VideoOperation) : Prog (WorkedVideo Frame) OpenCVError Unit :=
  if op.isWhole then modify (op.performWhole L)
  else if L.refusesEmpty op then throw .openCVError
  else pure ()

/-- A pass, from the `opCount`-th operation on. -/
def pass (ops : List VideoOperation) (opCount : ℕ) :
    Prog (WorkedVideo Frame) OpenCVError (ℕ ⊕ Unit) := do
  if opCount < ops.length then
    let video ← get
    match performSingleFrameOperations L ops opCount video.frames with
    | none => throw .openCVError
    | some (frames, opCount) =>
      modify fun video => { video with frames := frames }
      match ops[opCount]? with
      | none => pure (.inl opCount)
      | some op =>
        performOn L op
        pure (.inl (opCount + 1))
  else pure (.inr ())

/-- `perform_operations`, from the file that an earlier call may have left. Without operations
the result is the file of the video, or what is stored is a copy. -/
def performOperations (isStore : Bool) (source : List Frame) (ops : List VideoOperation) :
    Prog (WorkedVideo Frame) OpenCVError Unit :=
  if ops.length = 0 then
    when (isStore = false) (modify fun video => { video with frames := source })
  else loop (pass L ops) 0

/-! ### One operation after another -/

/-- An operation on a whole video: on its frames, or on its file. -/
def VideoOperation.onVideo (op : VideoOperation) (video : WorkedVideo Frame) :
    Option (WorkedVideo Frame) :=
  if op.isWhole then some (op.performWhole L video)
  else (video.frames.mapM (L.apply op)).map fun frames => { video with frames := frames }

/-- One operation after another. -/
def sequentially (ops : List VideoOperation) (video : WorkedVideo Frame) :
    Option (WorkedVideo Frame) :=
  ops.foldlM (fun video op => op.onVideo L video) video

/-- The computation does what the sequence does. -/
def DoesAs (m : Prog (WorkedVideo Frame) OpenCVError Unit) (video : WorkedVideo Frame)
    (result : Option (WorkedVideo Frame)) : Prop :=
  match result with
  | some video' => Runs m video (.ret () video')
  | none => ∃ video', Runs m video (.throw .openCVError video')

/-- After every operation on the complete video but the last operation, there are frames. -/
def KeepsFrames : List VideoOperation → WorkedVideo Frame → Prop
  | [], _ => True
  | op :: ops, video => ∀ video', op.onVideo L video = some video' →
      (op.isWhole = true → ops ≠ [] → video'.frames ≠ []) ∧ KeepsFrames ops video'

/-- A video that has no frames has one operation at most, and not one that OpenCV refuses to do
on an empty matrix. -/
def StartsWithFrames (ops : List VideoOperation) (video : WorkedVideo Frame) : Prop :=
  video.frames = [] →
    ops.length ≤ 1 ∧ ∀ op ∈ ops, op.isWhole = true ∨ L.refusesEmpty op = false

end

/-! ### A pass over a video with frames -/

section Passes

variable {Frame : Type} {L : FrameLibrary Frame} {ops batch rest : List VideoOperation}
  {video video' : WorkedVideo Frame} {opCount : ℕ}

/-- In `Option`, a list goes through two functions as each element does. -/
theorem mapM_bind_mapM {α β γ : Type} (f : α → Option β) (g : β → Option γ) (xs : List α) :
    (xs.mapM f).bind (fun ys => ys.mapM g) = xs.mapM fun x => (f x).bind g := by
  induction xs with
  | nil => rfl
  | cons x xs ih =>
      rw [List.mapM_cons, List.mapM_cons, ← ih]
      cases hx : f x with
      | none => rfl
      | some y =>
          cases hxs : xs.mapM f with
          | none => cases hy : g y <;> simp [hy]
          | some ys => simp [List.mapM_cons]

/-- The operations of a batch on one frame. -/
def batchOn (L : FrameLibrary Frame) (batch : List VideoOperation) (frame : Frame) :
    Option Frame :=
  batch.foldlM (fun frame op => L.apply op frame) frame

/-- A batch that ends before an operation on the complete video, or with the last one. -/
structure IsBatch (batch rest : List VideoOperation) : Prop where
  single : ∀ op ∈ batch, op.isWhole = false
  ends : ∀ op ∈ rest.head?, op.isWhole = true

theorem frameOperations_batch (h : IsBatch batch rest) (i : ℕ) (frame : Frame) :
    frameOperations L (batch ++ rest) i frame =
      (batchOn L batch frame).map fun frame => (frame, i + batch.length) := by
  induction batch generalizing i frame with
  | nil =>
      cases rest with
      | nil => rfl
      | cons op rest =>
          have hwhole : op.isWhole = true := h.ends op rfl
          simp [frameOperations, hwhole, batchOn]
  | cons op batch ih =>
      have hsingle : op.isWhole = false := h.single op List.mem_cons_self
      have htail : IsBatch batch rest :=
        ⟨fun op' hop' => h.single op' (List.mem_cons_of_mem _ hop'), h.ends⟩
      rw [List.cons_append, frameOperations, if_neg (by simp [hsingle]), batchOn, List.foldlM_cons]
      cases L.apply op frame with
      | none => rfl
      | some frame' =>
          rw [Option.bind_eq_bind, Option.bind_some, ih htail, Option.bind_eq_bind,
            Option.bind_some, List.length_cons, batchOn]
          congr 1
          funext frame''
          congr 1
          omega

/-- The frames that a pass writes, and the number of operations that are done then. -/
theorem performSingleFrameOperations_batch (h : IsBatch batch rest)
    (hops : ops.drop opCount = batch ++ rest) {frames : List Frame} (hframes : frames ≠ []) :
    performSingleFrameOperations L ops opCount frames =
      (frames.mapM (batchOn L batch)).map fun frames => (frames, opCount + batch.length) := by
  have hloop : ∀ (frames written : List Frame) (j : ℕ),
      frames.foldlM (fun (p : List Frame × ℕ) frame => do
        let (frame, i) ← frameOperations L (ops.drop opCount) opCount frame
        pure (p.1 ++ [frame], i)) (written, j) =
      (frames.mapM (batchOn L batch)).map fun new =>
        (written ++ new, if frames = [] then j else opCount + batch.length) := by
    intro frames
    induction frames with
    | nil => intro written j; simp
    | cons frame frames ih =>
        intro written j
        rw [List.foldlM_cons, List.mapM_cons, hops, frameOperations_batch h]
        cases batchOn L batch frame with
        | none => rfl
        | some frame' =>
            rw [hops] at ih
            refine (ih (written ++ [frame']) (opCount + batch.length)).trans ?_
            cases frames.mapM (batchOn L batch) with
            | none => rfl
            | some new => simp
  rw [performSingleFrameOperations, hloop]
  simp [hframes]

/-- A batch is the sequence of its operations. -/
theorem sequentially_batch (h : ∀ op ∈ batch, op.isWhole = false) (video : WorkedVideo Frame) :
    sequentially L batch video = (video.frames.mapM (batchOn L batch)).map fun frames =>
      { video with frames := frames } := by
  induction batch generalizing video with
  | nil =>
      have hall : ∀ frames : List Frame, frames.mapM (batchOn L []) = some frames := by
        intro frames
        induction frames with
        | nil => rfl
        | cons frame frames ih =>
            rw [List.mapM_cons, ih]
            rfl
      rw [hall]
      rfl
  | cons op batch ih =>
      have hsingle : op.isWhole = false := h op List.mem_cons_self
      have htail := fun op' hop' => h op' (List.mem_cons_of_mem op hop')
      have hbatch : batchOn L (op :: batch) =
          fun frame => (L.apply op frame).bind (batchOn L batch) := rfl
      rw [hbatch, ← mapM_bind_mapM, sequentially, List.foldlM_cons, VideoOperation.onVideo,
        if_neg (by simp [hsingle])]
      cases video.frames.mapM (L.apply op) with
      | none => rfl
      | some frames =>
          have hih := ih htail { video with frames := frames }
          rw [sequentially] at hih
          rw [Option.map_some, Option.bind_eq_bind, Option.bind_some, hih, Option.bind_some]

theorem sequentially_append (ops ops' : List VideoOperation) (video : WorkedVideo Frame) :
    sequentially L (ops ++ ops') video =
      (sequentially L ops video).bind (sequentially L ops') :=
  List.foldlM_append

/-- The next batch. -/
theorem exists_batch (ops : List VideoOperation) :
    ∃ batch rest, ops = batch ++ rest ∧ IsBatch batch rest := by
  refine ⟨ops.takeWhile fun op => !op.isWhole, ops.dropWhile fun op => !op.isWhole,
    List.takeWhile_append_dropWhile.symm, fun op hop => ?_, fun op hop => ?_⟩
  · simpa using List.mem_takeWhile_imp hop
  · have hhead := List.head?_dropWhile_not (fun op : VideoOperation => !op.isWhole) ops
    rw [Option.mem_def.1 hop] at hhead
    simpa using hhead

/-- The pass throws if an operation of the batch does. -/
theorem pass_throws (hlt : opCount < ops.length) (h : IsBatch batch rest)
    (hops : ops.drop opCount = batch ++ rest) (hframes : video.frames ≠ [])
    (hnone : sequentially L batch video = none) :
    Runs (pass L ops opCount) video (.throw .openCVError video) := by
  have hbatch := performSingleFrameOperations_batch (L := L) h hops hframes
  rw [sequentially_batch h.single, Option.map_eq_none_iff] at hnone
  rw [hnone] at hbatch
  refine Runs.of_eq fun n => ?_
  simp [pass, hlt, hbatch]

/-- After a batch the next operation is applied to the complete video. -/
theorem pass_whole {op : VideoOperation} (h : IsBatch batch (op :: rest))
    (hops : ops.drop opCount = batch ++ op :: rest) (hframes : video.frames ≠ [])
    (hsome : sequentially L batch video = some video') :
    Runs (pass L ops opCount) video
      (.ret (.inl (opCount + batch.length + 1)) (op.performWhole L video')) := by
  have hlt : opCount < ops.length := by
    by_contra hge
    rw [List.drop_eq_nil_of_le (by omega)] at hops
    simp at hops
  have hnext : ops[opCount + batch.length]? = some op := by
    rw [← List.getElem?_drop, hops, List.getElem?_append_right le_rfl, Nat.sub_self]
    rfl
  have hwhole : op.isWhole = true := h.ends op rfl
  have hbatch := performSingleFrameOperations_batch (L := L) h hops hframes
  rw [sequentially_batch h.single, Option.map_eq_some_iff] at hsome
  obtain ⟨frames, hmap, rfl⟩ := hsome
  rw [hmap] at hbatch
  refine Runs.of_eq fun n => ?_
  simp [pass, hlt, hbatch, hnext, performOn, hwhole]

/-- The last batch. -/
theorem pass_last (hlt : opCount < ops.length) (h : IsBatch batch [])
    (hops : ops.drop opCount = batch) (hframes : video.frames ≠ [])
    (hsome : sequentially L batch video = some video') :
    Runs (pass L ops opCount) video (.ret (.inl ops.length) video') := by
  have hlength : opCount + batch.length = ops.length := by
    rw [← hops, List.length_drop]
    omega
  have hbatch := performSingleFrameOperations_batch (L := L) h
    (hops.trans (List.append_nil batch).symm) hframes
  rw [sequentially_batch h.single, Option.map_eq_some_iff] at hsome
  obtain ⟨frames, hmap, rfl⟩ := hsome
  rw [hmap, hlength] at hbatch
  refine Runs.of_eq fun n => ?_
  simp [pass, hlt, hbatch]

/-! ### Videos without frames -/

/-- No operation gives frames to a video that has none. -/
theorem performWhole_empty (op : VideoOperation) (h : video.frames = []) :
    (op.performWhole L video).frames = [] := by
  cases op with
  | interval start stop step =>
      simp only [VideoOperation.performWhole, WorkedVideo.fail]
      split
      · exact h
      · split
        · exact h
        · rw [h]
          rfl
  | syncRemote url options =>
      rw [VideoOperation.performWhole, WorkedVideo.serve, if_pos h]
      exact h
  | user options =>
      rw [VideoOperation.performWhole, WorkedVideo.serve, if_pos h]
      exact h
  | _ => exact h

/-- One operation after another does not throw on such a video. -/
theorem sequentially_empty (ops : List VideoOperation) (h : video.frames = []) :
    ∃ video', sequentially L ops video = some video' ∧ video'.frames = [] := by
  induction ops generalizing video with
  | nil => exact ⟨video, rfl, h⟩
  | cons op ops ih =>
      by_cases hwhole : op.isWhole = true
      · obtain ⟨video', hops, hvideo'⟩ := ih (performWhole_empty (L := L) op h)
        refine ⟨video', ?_, hvideo'⟩
        rw [sequentially, List.foldlM_cons, VideoOperation.onVideo, if_pos hwhole]
        exact hops
      · obtain ⟨video', hops, hvideo'⟩ := ih h
        refine ⟨video', ?_, hvideo'⟩
        have hnothing : op.onVideo L video = some video := by
          rw [VideoOperation.onVideo, if_neg hwhole, h, List.mapM_nil, Option.pure_def,
            Option.map_some, ← h]
        rw [sequentially, List.foldlM_cons, hnothing]
        exact hops

/-- A pass over such a video starts again with the first operation. -/
theorem pass_empty (hlt : opCount < ops.length) (h : video.frames = []) :
    ∃ op ∈ ops, ops[0]? = some op ∧ ∀ n,
      pass L ops opCount n video = (performOn L op n video).andThen fun _ video' =>
        .ret (.inl 1) video' := by
  cases ops with
  | nil => simp at hlt
  | cons op ops =>
      refine ⟨op, List.mem_cons_self, rfl, fun n => ?_⟩
      have hsame : ({ video with frames := [] } : WorkedVideo Frame) = video := by
        rw [← h]
      simp only [pass, if_pos hlt, bind_apply, get_apply, Outcome.andThen_ret, h,
        performSingleFrameOperations, List.foldlM_nil, Option.pure_def, modify_apply, hsame,
        List.getElem?_cons_zero]
      rfl

/-- With two operations or more, the passes over such a video have no end, but by an
exception. -/
theorem loop_empty (hlength : 2 ≤ ops.length) (hlt : opCount < ops.length)
    (h : video.frames = []) (video' : WorkedVideo Frame) :
    ¬ Runs (loop (pass L ops) opCount) video (.ret () video') := by
  intro hrun
  have hsat : Ensures (loop (pass L ops) opCount) video fun _ _ => False := by
    refine Sat.loop (fun i v => i < ops.length ∧ v.frames = []) (fun i v hv => ?_) ⟨hlt, h⟩
    obtain ⟨op, -, -, hpass⟩ := pass_empty (L := L) hv.1 hv.2
    intro n
    rw [hpass n, performOn]
    split
    · exact ⟨by omega, performWhole_empty op hv.2⟩
    · split
      · trivial
      · exact ⟨by omega, hv.2⟩
  exact hsat.ret hrun

/-! ### All passes -/

/-- Within a batch nothing is asked for. -/
theorem keepsFrames_batch (h : ∀ op ∈ batch, op.isWhole = false) :
    KeepsFrames L (batch ++ rest) video ↔
      ∀ video', sequentially L batch video = some video' → KeepsFrames L rest video' := by
  induction batch generalizing video with
  | nil => simp [sequentially]
  | cons op batch ih =>
      have hsingle : op.isWhole = false := h op List.mem_cons_self
      have htail := fun op' hop' => h op' (List.mem_cons_of_mem op hop')
      rw [List.cons_append, KeepsFrames]
      simp only [hsingle, Bool.false_eq_true, false_implies, true_and, ih htail]
      simp only [sequentially, List.foldlM_cons, Option.bind_eq_bind, Option.bind_eq_some_iff]
      exact ⟨fun hall video' ⟨v, hv, hrest⟩ => hall v hv video' hrest,
        fun hall v hv video' hrest => hall video' ⟨v, hv, hrest⟩⟩

theorem keepsFrames_whole {op : VideoOperation} (h : op.isWhole = true) :
    KeepsFrames L (op :: rest) video ↔
      (rest ≠ [] → (op.performWhole L video).frames ≠ []) ∧
        KeepsFrames L rest (op.performWhole L video) := by
  simp [KeepsFrames, VideoOperation.onVideo, h]

/-- A sequence that does not throw cannot be followed by a loop without an end. -/
theorem not_doesAs_empty (hlength : 2 ≤ ops.length) (hlt : opCount < ops.length)
    (h : video.frames = []) (ops' : List VideoOperation) :
    ¬ DoesAs (loop (pass L ops) opCount) video (sequentially L ops' video) := by
  obtain ⟨video', hops, -⟩ := sequentially_empty (L := L) ops' h
  rw [hops]
  exact loop_empty hlength hlt h video'

/-- What comes after the first pass. -/
theorem doesAs_step {i : ℕ} {result : Option (WorkedVideo Frame)}
    (h : Runs (pass L ops opCount) video (.ret (.inl i) video')) :
    DoesAs (loop (pass L ops) opCount) video result ↔
      DoesAs (loop (pass L ops) i) video' result := by
  have hruns : ∀ {o : Outcome (WorkedVideo Frame) OpenCVError Unit}, o ≠ .stuck →
      (Runs (loop (pass L ops) opCount) video o ↔ Runs (loop (pass L ops) i) video' o) := by
    intro o ho
    exact ⟨fun hrun => Runs.loop_step_inv h hrun ho, fun hrun => Runs.loop_step h hrun ho⟩
  cases result with
  | some w => exact hruns (by simp)
  | none => exact exists_congr fun w => hruns (by simp)

/-- **The loop** from a video with frames on: the condition is about the operations on the
complete video that are left. Induction on the number of operations that are left. -/
theorem loop_doesAs_iff (hle : opCount ≤ ops.length) (hframes : video.frames ≠ []) :
    DoesAs (loop (pass L ops) opCount) video (sequentially L (ops.drop opCount) video) ↔
      KeepsFrames L (ops.drop opCount) video := by
  induction hleft : ops.length - opCount using Nat.strong_induction_on
    generalizing opCount video with
  | _ left ih =>
      subst hleft
      obtain ⟨batch, rest, hops, hbatch⟩ := exists_batch (ops.drop opCount)
      rcases Nat.lt_or_eq_of_le hle with hlt | rfl
      · rw [hops, keepsFrames_batch hbatch.single, sequentially_append]
        cases hfirst : sequentially L batch video with
        | none =>
            refine iff_of_true ⟨video, Runs.loop_throw ?_⟩ nofun
            exact pass_throws hlt hbatch hops hframes hfirst
        | some video' =>
            simp only [Option.bind_some, Option.some.injEq, forall_eq']
            cases rest with
            | nil =>
                rw [List.append_nil] at hops
                refine iff_of_true ?_ trivial
                rw [doesAs_step (pass_last hlt hbatch hops hframes hfirst)]
                exact Runs.loop_stop (Runs.of_eq fun n => by simp [pass])
            | cons op rest =>
                have hwhole : op.isWhole = true := hbatch.ends op rfl
                have hdrop : ops.drop (opCount + batch.length + 1) = rest := by
                  rw [Nat.add_assoc, ← List.drop_drop, hops, List.drop_append]
                  simp
                have hseq : sequentially L (op :: rest) video' =
                    sequentially L rest (op.performWhole L video') := by
                  rw [sequentially, List.foldlM_cons, VideoOperation.onVideo, if_pos hwhole]
                  rfl
                rw [hseq, keepsFrames_whole hwhole,
                  doesAs_step (pass_whole hbatch hops hframes hfirst)]
                have hbound : opCount + batch.length + 1 + rest.length = ops.length := by
                  have hlengths := congrArg List.length hops
                  rw [List.length_drop, List.length_append, List.length_cons] at hlengths
                  omega
                rw [← hdrop]
                by_cases hempty : (op.performWhole L video').frames = []
                · by_cases hrest : rest = []
                  · rw [hdrop, hrest]
                    refine iff_of_true (Runs.loop_stop (Runs.of_eq fun n => ?_))
                      ⟨fun h => absurd rfl h, trivial⟩
                    rw [hrest, List.length_nil, Nat.add_zero] at hbound
                    simp [pass, hbound]
                  · have hpos := List.length_pos_iff.2 hrest
                    refine iff_of_false ?_ fun h => h.1 (by rwa [hdrop]) hempty
                    exact not_doesAs_empty (by omega) (by omega) hempty _
                · rw [ih _ (by omega) (by omega) hempty rfl]
                  exact (and_iff_right fun _ => hempty).symm
      · rw [List.drop_length]
        refine iff_of_true (Runs.loop_stop (Runs.of_eq fun n => ?_)) trivial
        simp [pass]

/-- The loop from the first operation on. -/
theorem loop_doesAs_first (ops : List VideoOperation) (hframes : video.frames ≠ []) :
    DoesAs (loop (pass L ops) 0) video (sequentially L ops video) ↔ KeepsFrames L ops video := by
  have h := loop_doesAs_iff (L := L) (Nat.zero_le ops.length) hframes
  rwa [List.drop_zero] at h

/-- One operation on a video without frames. -/
theorem doesAs_single (op : VideoOperation) (h : video.frames = []) :
    DoesAs (loop (pass L [op]) 0) video (sequentially L [op] video) ↔
      op.isWhole = true ∨ L.refusesEmpty op = false := by
  have hlt : 0 < [op].length := by simp
  obtain ⟨op', -, hop', hpass⟩ := pass_empty (L := L) hlt h
  obtain rfl : op = op' := by simpa using hop'
  have hstop : ∀ video' : WorkedVideo Frame,
      Runs (loop (pass L [op]) 1) video' (.ret () video') := fun video' =>
    Runs.loop_stop (Runs.of_eq fun n => by simp [pass])
  by_cases hwhole : op.isWhole = true
  · have hseq : sequentially L [op] video = some (op.performWhole L video) := by
      simp [sequentially, VideoOperation.onVideo, hwhole]
    have hfirst : Runs (pass L [op] 0) video (.ret (.inl 1) (op.performWhole L video)) := by
      refine Runs.of_eq fun n => ?_
      rw [hpass n, performOn, if_pos hwhole]
      rfl
    rw [hseq]
    exact iff_of_true (Runs.loop_step hfirst (hstop _) (by simp)) (.inl hwhole)
  · have hseq : sequentially L [op] video = some video := by
      rw [sequentially, List.foldlM_cons, VideoOperation.onVideo, if_neg hwhole, h, List.mapM_nil,
        Option.pure_def, Option.map_some, ← h]
      rfl
    rw [hseq, or_iff_right hwhole]
    by_cases hrefuses : L.refusesEmpty op = true
    · refine iff_of_false (fun hrun => ?_) (by simp [hrefuses])
      have hthrow : Runs (pass L [op] 0) video (.throw .openCVError video) := by
        refine Runs.of_eq fun n => ?_
        rw [hpass n, performOn, if_neg hwhole, if_pos hrefuses]
        rfl
      cases (Runs.loop_throw hthrow).unique hrun
    · have hfirst : Runs (pass L [op] 0) video (.ret (.inl 1) video) := by
        refine Runs.of_eq fun n => ?_
        rw [hpass n, performOn, if_neg hwhole, if_neg hrefuses]
        rfl
      exact iff_of_true (Runs.loop_step hfirst (hstop _) (by simp)) (by simpa using hrefuses)

end Passes

/-- Frames that every operation leaves as they are. -/
def plainFrames : FrameLibrary ℕ where
  apply _ frame := some frame
  refusesEmpty _ := false
  serve _ frames := .ok frames

end VCL

end Vdms
