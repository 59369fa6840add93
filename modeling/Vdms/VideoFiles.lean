import Vdms.VideoPipeline

/-!
# The Files of a Video

A `Video` is opened on a stored file. Its operations write to temporary files, and a member
names the file with the result. `get_encoded` reads that file and removes it. Where nothing is
pending, the file of the result is the stored file itself.

The file system is a map from names to contents, which are lists of frames as in the pipeline of
operations; there is no file without a name. The names of temporary files are a parameter, since
they contain the time.

## Main results

* `VideoFiles.run_kept`: a run of calls in which nothing is encoded while the stored file is the
  result keeps the stored file.
* `VideoFiles.reading_leaves_file_iff`: the calls that keep the stored file, and when
  `get_encoded` returns what it should.
-/

namespace Vdms

open Imp Imp.Prog

namespace VCL

/-- A video, and the file system. Of the size, only the number of frames is kept. -/
structure VideoFiles (Frame : Type) where
  files : String → Option (List Frame)
  videoId : String
  operatedVideoId : String
  operations : List VideoOperation
  queryErrorResponse : String
  frameCount : ℕ
  keyFrameDecoder : Bool
  /-- The number of names of temporary files that have been made. -/
  tempfiles : ℕ

/-- A `VCL::Exception`, or the `std::length_error` of a vector of size -1. -/
inductive VideoError where
  | vcl (msg : String)
  | lengthError

/-- The remote operation of the event loop. -/
def VideoOperation.isRemote : VideoOperation → Bool
  | .remote .. => true
  | _ => false

namespace VideoFiles

variable {Frame : Type}

/-- The file of the result, or else the stored one. -/
def current (s : VideoFiles Frame) : String :=
  if s.operatedVideoId = "" then s.videoId else s.operatedVideoId

/-- The content of a file. -/
def read (s : VideoFiles Frame) (name : String) : Option (List Frame) :=
  if name = "" then none else s.files name

/-- The frames that OpenCV gets from a file. -/
def frames (s : VideoFiles Frame) (name : String) : List Frame := (s.read name).getD []

def write (s : VideoFiles Frame) (name : String) (content : List Frame) : VideoFiles Frame :=
  { s with files := fun n => if n = name then some content else s.files n }

/-- `std::remove`. -/
def remove (s : VideoFiles Frame) (name : String) : VideoFiles Frame :=
  { s with files := fun n => if n = name then none else s.files n }

/-- `RemoteOperation::operator()`, but for its parameters. -/
def setOperated (s : VideoFiles Frame) : VideoFiles Frame :=
  { s with operatedVideoId := s.current }

section

variable (L : FrameLibrary Frame) (temp : ℕ → String)

/-- The name of a new temporary file. -/
def newName : Prog (VideoFiles Frame) VideoError String := do
  let s ← get
  modify fun s => { s with tempfiles := s.tempfiles + 1 }
  pure (temp s.tempfiles)

/-- `(*op)(this, mat, fname)`, on the complete video. -/
def performOn (op : VideoOperation) (fname : String) : Prog (VideoFiles Frame) VideoError Unit :=
  if op.isWhole then
    modify fun s =>
      let video := op.performWhole L ⟨s.frames fname, s.queryErrorResponse⟩
      { (if op.isRemote then s.setOperated else s).write fname video.frames with
        queryErrorResponse := video.queryErrorResponse }
  else if L.refusesEmpty op then throw (.vcl "OpenCV exception")
  else pure ()

/-- A pass of `perform_operations`, from the `opCount`-th operation on and from the file `id`. -/
def pass (ops : List VideoOperation) : ℕ × String × String →
    Prog (VideoFiles Frame) VideoError ((ℕ × String × String) ⊕ String)
  | (opCount, id, fname) => do
    if opCount < ops.length then
      let fname ← newName temp
      let s ← get
      modify fun s => { s with frameCount := (s.frames id).length }
      match performSingleFrameOperations L ops opCount (s.frames id) with
      | none => throw (.vcl "OpenCV exception")
      | some (frames, opCount) =>
        modify fun s => s.write fname frames
        match ops[opCount]? with
        | none => pure (.inl (opCount, id, fname))
        | some op =>
          performOn L op fname
          pure (.inl (opCount + 1, fname, fname))
    else pure (.inr fname)

/-- `perform_operations()`. -/
def performOperations : Prog (VideoFiles Frame) VideoError Unit := do
  let fname ← newName temp
  let s ← get
  if (s.read s.current).isNone then
    throw (.vcl ("video_id " ++ s.current ++ " could not be opened"))
  if s.operations.length = 0 then
    modify fun s => { s with operatedVideoId := s.videoId }
  else
    let fname ← loop (pass L temp s.operations) (0, s.current, fname)
    modify fun s => { s with operatedVideoId := fname }
  modify fun s => { s with operations := [] }

/-! ### The calls -/

/-- `get_frame`. -/
def getFrame (frameNumber : ℕ) (performOp : Bool) :
    Prog (VideoFiles Frame) VideoError Frame := do
  let s ← get
  if s.keyFrameDecoder = false then
    when (performOp = true) (performOperations L temp)
    let s ← get
    if s.frameCount ≤ frameNumber then throw (.vcl "Frame requested is out of bounds")
  let s ← get
  match (s.frames s.videoId)[frameNumber]? with
  | some frame => pure frame
  | none => throw (.vcl "Frame requested cannot be read")

/-- `get_frames`. -/
def getFrames : List ℕ → Prog (VideoFiles Frame) VideoError (List Frame)
  | [] => pure []
  | f :: rest => do
    let frame ← getFrame L temp f true
    let frames ← getFrames rest
    pure (frame :: frames)

/-- `get_size`, and the parts of it. -/
def getSize (performOp : Bool) : Prog (VideoFiles Frame) VideoError ℕ := do
  when (performOp = true) (performOperations L temp)
  let s ← get
  pure s.frameCount

def getFrameCount (performOp : Bool) : Prog (VideoFiles Frame) VideoError ℕ :=
  getSize L temp performOp

def getFrameSize (performOp : Bool) : Prog (VideoFiles Frame) VideoError ℕ :=
  getSize L temp performOp

/-- `resize`, `interval`, and so on. -/
def enqueue (op : VideoOperation) : Prog (VideoFiles Frame) VideoError Unit :=
  modify fun s => { s with operations := s.operations ++ [op] }

/-- `execute_operations(true)`. There is no first operation in an empty list. -/
def executeRemote : Prog (VideoFiles Frame) VideoError ℤ := do
  let s ← get
  match s.operations with
  | [] => stuck
  | op :: rest =>
    if op.isRemote then
      modify fun s => { s.setOperated with operations := rest }
      let s ← get
      pure (if s.queryErrorResponse ≠ "" then -1 else 0)
    else
      modify fun s => { s with queryErrorResponse := "Bad operation sent." }
      pure (-1)

/-- `execute_operations()`: up to the next remote operation. -/
def executeLocal : Prog (VideoFiles Frame) VideoError ℤ := do
  let s ← get
  let currOperations := s.operations.takeWhile fun op => !op.isRemote
  let remOperations := s.operations.dropWhile fun op => !op.isRemote
  tryCatch (do
    modify fun s => { s with operations := currOperations }
    when (0 < currOperations.length) (performOperations L temp)
    let s ← get
    if s.queryErrorResponse ≠ "" then pure (-1)
    else
      modify fun s => { s with operations := remOperations }
      pure 0)
    fun e => match e with
      | .vcl msg => do
        modify fun s => { s with queryErrorResponse := msg }
        pure (-1)
      | .lengthError => throw .lengthError

/-- `get_encoded`. The file is never converted: the format is taken from the name only if there
is no name. -/
def getEncoded : Prog (VideoFiles Frame) VideoError (List Frame) := do
  let s ← get
  match s.read s.operatedVideoId with
  | none => throw .lengthError
  | some content =>
    modify fun s => s.remove s.operatedVideoId
    pure content

end

/-- A call that neither stores nor deletes. -/
inductive Call where
  | getFrame (frameNumber : ℕ) (performOp : Bool)
  | getFrames (frameList : List ℕ)
  | getFrameCount (performOp : Bool)
  | getFrameSize (performOp : Bool)
  | getSize (performOp : Bool)
  | enqueue (op : VideoOperation)
  | executeOperations (isRemote : Bool)
  | getEncoded

variable (L : FrameLibrary Frame) (temp : ℕ → String)

/-- The call, without its result. -/
def Call.run : Call → Prog (VideoFiles Frame) VideoError Unit
  | .getFrame frameNumber performOp => do
      let _ ← VideoFiles.getFrame L temp frameNumber performOp
  | .getFrames frameList => do let _ ← VideoFiles.getFrames L temp frameList
  | .getFrameCount performOp => do let _ ← VideoFiles.getFrameCount L temp performOp
  | .getFrameSize performOp => do let _ ← VideoFiles.getFrameSize L temp performOp
  | .getSize performOp => do let _ ← VideoFiles.getSize L temp performOp
  | .enqueue op => VideoFiles.enqueue op
  | .executeOperations isRemote => do
      let _ ← if isRemote then executeRemote else executeLocal L temp
  | .getEncoded => do let _ ← VideoFiles.getEncoded

/-- The call comes to an end, by a return or by an exception. -/
inductive Ends (s : VideoFiles Frame) (call : Call) : VideoFiles Frame → Prop where
  | ret {t} : Runs (call.run L temp) s (.ret () t) → Ends s call t
  | throw {e t} : Runs (call.run L temp) s (.throw e t) → Ends s call t

/-! ### What the calls write -/

/-- No other files than temporary ones are written. -/
def WritesTemps (s t : VideoFiles Frame) : Prop :=
  t.videoId = s.videoId ∧ ∀ name, (∀ n, temp n ≠ name) → t.files name = s.files name

variable {L temp}

/-- What works on temporary files for every new name does so behind taking the name. -/
theorem newName_bind {α : Type} {f : String → Prog (VideoFiles Frame) VideoError α}
    (hf : ∀ n, Within (WritesTemps temp) (f (temp n))) :
    Within (WritesTemps temp) (newName temp >>= f) := by
  intro s
  have hstep : WritesTemps temp s { s with tempfiles := s.tempfiles + 1 } :=
    ⟨rfl, fun _ _ => rfl⟩
  have hrest := Sat.trans (.single hstep) (hf s.tempfiles _)
  exact fun k => hrest k

/-- Writing a temporary file writes to temporary files only. -/
theorem writesTemps_write {s : VideoFiles Frame} (n : ℕ) (content : List Frame) :
    WritesTemps temp s (s.write (temp n) content) :=
  ⟨rfl, fun _ hname => if_neg fun heq => hname n heq.symm⟩

/-- An operation writes to temporary files only. -/
theorem performOn_within (op : VideoOperation) (n : ℕ) :
    Within (WritesTemps temp) (performOn L op (temp n)) := by
  refine Within.ite (fun _ => Within.modify fun s => ?_) fun _ =>
    Within.ite (fun _ => Within.throw _) fun _ => Within.pure _
  have hwrite : WritesTemps temp (if op.isRemote then s.setOperated else s) _ :=
    writesTemps_write n (op.performWhole L ⟨s.frames (temp n), s.queryErrorResponse⟩).frames
  refine ⟨hwrite.1.trans ?_, fun name hname => (hwrite.2 name hname).trans ?_⟩
  · split <;> rfl
  · split <;> rfl

/-- A pass over the operations writes to temporary files only. -/
theorem pass_within (ops : List VideoOperation) (i : ℕ × String × String) :
    Within (WritesTemps temp) (pass L temp ops i) := by
  obtain ⟨opCount, id, fname⟩ := i
  refine Within.ite (fun _ => newName_bind fun n => Within.bind Within.get fun s =>
    Within.bind (Within.modify fun _ => ⟨rfl, fun _ _ => rfl⟩) fun _ => ?_) fun _ => Within.pure _
  split
  · exact Within.throw _
  · refine Within.bind (Within.modify fun _ => writesTemps_write n _) fun _ => ?_
    split
    · exact Within.pure _
    · exact Within.bind (performOn_within _ n) fun _ => Within.pure _

/-- **`perform_operations`** writes temporary files only. -/
theorem performOperations_within : Within (WritesTemps temp) (performOperations L temp) := by
  refine newName_bind fun n => Within.bind Within.get fun s => ?_
  have hend : Within (WritesTemps temp) (modify fun s => { s with operations := [] } :
      Prog (VideoFiles Frame) VideoError Unit) := Within.modify fun _ => ⟨rfl, fun _ _ => rfl⟩
  have hset : ∀ f : VideoFiles Frame → String, Within (WritesTemps temp)
      (modify fun s => { s with operatedVideoId := f s } :
        Prog (VideoFiles Frame) VideoError Unit) := fun f =>
    Within.modify fun _ => ⟨rfl, fun _ _ => rfl⟩
  have hwork : Within (WritesTemps temp) (do
      if s.operations.length = 0 then
        modify fun s => { s with operatedVideoId := s.videoId }
      else
        let fname ← loop (pass L temp s.operations) (0, s.current, temp n)
        modify fun s => { s with operatedVideoId := fname }
      modify fun s => { s with operations := [] } : Prog (VideoFiles Frame) VideoError Unit) := by
    refine Within.ite (fun _ => Within.bind (hset _) fun _ => hend) fun _ =>
      Within.bind (Within.loop (pass_within _) _) fun fname => Within.bind (hset _) fun _ => hend
  exact Within.ite (fun _ => Within.bind (Within.throw _) fun _ => hwork) fun _ => hwork

/-- Performing the operations if asked to writes to temporary files only. -/
theorem when_perform_within (performOp : Bool) :
    Within (WritesTemps temp) (when (performOp = true) (performOperations L temp)) :=
  Within.ite (fun _ => performOperations_within) fun _ => Within.pure _

/-- `get_frame` writes to temporary files only. -/
theorem getFrame_within (frameNumber : ℕ) (performOp : Bool) :
    Within (WritesTemps temp) (getFrame L temp frameNumber performOp) := by
  refine Within.bind Within.get fun s => ?_
  have hread : Within (WritesTemps temp) (do
      let s ← get
      match (s.frames s.videoId)[frameNumber]? with
      | some frame => pure frame
      | none => throw (.vcl "Frame requested cannot be read") :
        Prog (VideoFiles Frame) VideoError Frame) := by
    refine Within.bind Within.get fun s => ?_
    split
    · exact Within.pure _
    · exact Within.throw _
  refine Within.ite (fun _ => Within.bind (when_perform_within _) fun _ =>
    Within.bind Within.get fun s => ?_) fun _ => hread
  exact Within.ite (fun _ => Within.bind (Within.throw _) fun _ => hread) fun _ => hread

/-- `get_frames` writes to temporary files only. -/
theorem getFrames_within (frameList : List ℕ) :
    Within (WritesTemps temp) (getFrames L temp frameList) := by
  induction frameList with
  | nil => exact Within.pure _
  | cons f rest ih =>
      exact Within.bind (getFrame_within f true) fun _ => Within.bind ih fun _ => Within.pure _

/-- `get_size` writes to temporary files only. -/
theorem getSize_within (performOp : Bool) :
    Within (WritesTemps temp) (getSize L temp performOp) :=
  Within.bind (when_perform_within _) fun _ => Within.bind Within.get fun _ => Within.pure _

/-- A remote operation writes to temporary files only. -/
theorem executeRemote_within :
    Within (WritesTemps temp) (executeRemote : Prog (VideoFiles Frame) VideoError ℤ) := by
  refine Within.bind Within.get fun s => ?_
  split
  · exact Within.stuck
  · refine Within.ite (fun _ => ?_) fun _ => ?_
    · exact Within.bind (Within.modify fun _ => ⟨rfl, fun _ _ => rfl⟩) fun _ =>
        Within.bind Within.get fun _ => Within.pure _
    · exact Within.bind (Within.modify fun _ => ⟨rfl, fun _ _ => rfl⟩) fun _ => Within.pure _

/-- A local operation writes to temporary files only. -/
theorem executeLocal_within : Within (WritesTemps temp) (executeLocal L temp) := by
  have hset : ∀ ops : List VideoOperation, Within (WritesTemps temp)
      (modify fun s => { s with operations := ops } :
        Prog (VideoFiles Frame) VideoError Unit) := fun ops =>
    Within.modify fun _ => ⟨rfl, fun _ _ => rfl⟩
  refine Within.bind Within.get fun s => Within.tryCatch ?_ fun e => ?_
  · refine Within.bind (hset _) fun _ => Within.bind (Within.ite (fun _ =>
      performOperations_within) fun _ => Within.pure _) fun _ => Within.bind Within.get fun _ => ?_
    exact Within.ite (fun _ => Within.pure _) fun _ =>
      Within.bind (hset _) fun _ => Within.pure _
  · cases e with
    | vcl msg =>
        exact Within.bind (Within.modify fun _ => ⟨rfl, fun _ _ => rfl⟩) fun _ => Within.pure _
    | lengthError => exact Within.throw _

/-- **Calls** other than `get_encoded` write temporary files only. -/
theorem run_within {call : Call} (h : call ≠ .getEncoded) :
    Within (WritesTemps temp) (call.run L temp) := by
  cases call with
  | getFrame frameNumber performOp =>
      exact Within.bind (getFrame_within _ _) fun _ => Within.pure _
  | getFrames frameList => exact Within.bind (getFrames_within _) fun _ => Within.pure _
  | getFrameCount performOp => exact Within.bind (getSize_within _) fun _ => Within.pure _
  | getFrameSize performOp => exact Within.bind (getSize_within _) fun _ => Within.pure _
  | getSize performOp => exact Within.bind (getSize_within _) fun _ => Within.pure _
  | enqueue op => exact Within.modify fun _ => ⟨rfl, fun _ _ => rfl⟩
  | executeOperations isRemote =>
      cases isRemote with
      | true => exact Within.bind executeRemote_within fun _ => Within.pure _
      | false => exact Within.bind executeLocal_within fun _ => Within.pure _
  | getEncoded => exact absurd rfl h

/-! ### The stored file -/

/-- What is stored under the name of the video. -/
def stored (s : VideoFiles Frame) : Option (List Frame) := s.read s.videoId

/-- The stored file is as it was. -/
def StoredAs (s t : VideoFiles Frame) : Prop := t.videoId = s.videoId ∧ t.stored = s.stored

/-- The call removes the file of the result. -/
def Removes (s : VideoFiles Frame) (call : Call) : Prop :=
  call = .getEncoded ∧ s.operatedVideoId = s.videoId

/-- A call other than `get_encoded` leaves the stored file as it is. -/
theorem Ends.storedAs_of_ne {s t : VideoFiles Frame} {call : Call}
    (htemp : ∀ n, temp n ≠ s.videoId) (h : Ends L temp s call t) (hcall : call ≠ .getEncoded) :
    StoredAs s t := by
  have hwithin : Within (WritesTemps temp) (call.run L temp) := run_within hcall
  have hinv := hwithin.invariant
    (I := fun t => t.videoId = s.videoId ∧ t.files s.videoId = s.files s.videoId)
    (fun t u htu ht => ⟨htu.1.trans ht.1, (htu.2 _ htemp).trans ht.2⟩) ⟨rfl, rfl⟩
  have hend : t.videoId = s.videoId ∧ t.files s.videoId = s.files s.videoId := by
    cases h with
    | ret hrun => exact hinv.ret hrun
    | throw hrun =>
        obtain ⟨N, hN⟩ := hrun
        have hok := hinv N
        rwa [hN N le_rfl] at hok
  refine ⟨hend.1, ?_⟩
  rw [stored, stored, read, read, hend.1, hend.2]

/-- `get_encoded` returns the result and removes its file, or throws if there is none. -/
theorem getEncoded_apply (s : VideoFiles Frame) (n : ℕ) :
    getEncoded n s =
      match s.read s.operatedVideoId with
      | none => .throw .lengthError s
      | some content => .ret content (s.remove s.operatedVideoId) := by
  simp only [VideoFiles.getEncoded, bind_apply, get_apply, Outcome.andThen_ret]
  cases s.read s.operatedVideoId with
  | none => rfl
  | some content => rfl

/-- After `get_encoded` the file of the result is gone, if there was one. -/
theorem Ends.getEncoded {s t : VideoFiles Frame} (h : Ends L temp s .getEncoded t) :
    t = if (s.read s.operatedVideoId).isNone then s else s.remove s.operatedVideoId := by
  have hrun : ∀ n, Call.run L temp .getEncoded n s =
      if (s.read s.operatedVideoId).isNone then .throw .lengthError s
      else .ret () (s.remove s.operatedVideoId) := by
    intro n
    rw [Call.run, bind_apply, getEncoded_apply]
    cases s.read s.operatedVideoId with
    | none => rfl
    | some content => rfl
  have hruns := Runs.of_eq hrun
  cases h with
  | ret hret =>
      have heq := hruns.unique hret
      split at heq
      · cases heq
      · rename_i hsome
        rw [if_neg hsome]
        injection heq with _ ht
        exact ht.symm
  | throw hthrow =>
      have heq := hruns.unique hthrow
      split at heq
      · rename_i hnone
        rw [if_pos hnone]
        injection heq with _ ht
        exact ht.symm
      · cases heq

/-- **One call.** The stored file stays as it is exactly if the call does not encode it. -/
theorem Ends.storedAs_iff {s t : VideoFiles Frame} {call : Call}
    (htemp : ∀ n, temp n ≠ s.videoId) (hstored : s.stored ≠ none) (h : Ends L temp s call t) :
    StoredAs s t ↔ ¬ Removes s call := by
  by_cases hcall : call = .getEncoded
  · subst hcall
    have ht := h.getEncoded
    by_cases hsame : s.operatedVideoId = s.videoId
    · refine iff_of_false ?_ fun h => h ⟨rfl, hsame⟩
      rintro ⟨-, hread⟩
      have hsome : (s.read s.operatedVideoId).isNone = false := by
        rw [hsame]
        simpa [stored, Option.isNone_eq_false_iff, Option.isSome_iff_ne_none] using hstored
      rw [if_neg (by simp [hsome]), hsame] at ht
      rw [ht] at hread
      refine hstored (hread.symm.trans ?_)
      simp [stored, read, remove]
    · refine iff_of_true ?_ fun h => hsame h.2
      rw [ht]
      split
      · exact ⟨rfl, rfl⟩
      · refine ⟨rfl, ?_⟩
        have hne : s.videoId ≠ s.operatedVideoId := fun h => hsame h.symm
        simp [stored, read, remove, hne]
  · exact iff_of_true (h.storedAs_of_ne htemp hcall) fun hrem => hcall hrem.1

/-- A run of calls none of which encodes the stored file. -/
inductive KeepingRun (L : FrameLibrary Frame) (temp : ℕ → String) (s : VideoFiles Frame) :
    VideoFiles Frame → Prop where
  | refl : KeepingRun L temp s s
  | call {t c u} : KeepingRun L temp s t → Ends L temp t c u → ¬ Removes t c →
      KeepingRun L temp s u

/-- **A whole run.** -/
theorem KeepingRun.storedAs {s t : VideoFiles Frame} (htemp : ∀ n, temp n ≠ s.videoId)
    (hstored : s.stored ≠ none) (h : KeepingRun L temp s t) : StoredAs s t := by
  induction h with
  | refl => exact ⟨rfl, rfl⟩
  | @call t c u _ hend hremoves ih =>
      have hstep := (hend.storedAs_iff (by rwa [ih.1]) (by rwa [ih.2])).2 hremoves
      exact ⟨hstep.1.trans ih.1, hstep.2.trans ih.2⟩

/-- `get_encoded` returns the content of the result, or of the stored file if there is none. -/
def Encodes (s : VideoFiles Frame) : Prop :=
  ∃ content t, Runs getEncoded s (.ret content t) ∧ s.read s.current = some content

/-- The result can be encoded exactly if it has a name and a file. -/
theorem encodes_iff (s : VideoFiles Frame) :
    Encodes s ↔ s.operatedVideoId ≠ "" ∧ s.read s.operatedVideoId ≠ none := by
  have hrun := Runs.of_eq (getEncoded_apply s)
  by_cases hname : s.operatedVideoId = ""
  · refine iff_of_false ?_ fun h => h.1 hname
    rintro ⟨content, t, hret, -⟩
    rw [read, if_pos hname] at hrun
    cases hrun.unique hret
  · have hcurrent : s.current = s.operatedVideoId := if_neg hname
    rw [Encodes, hcurrent]
    cases hread : s.read s.operatedVideoId with
    | none => simp
    | some content =>
        rw [hread] at hrun
        exact iff_of_true ⟨content, _, hrun, rfl⟩ ⟨hname, by simp⟩

end VideoFiles

open VideoFiles

/-- **Reading a video.** A call that ends keeps the stored file exactly if it does not encode a
result that is the stored file; so does a run of such calls. What is encoded is the result or the
stored file exactly if a file is named as the result, and exists. -/
theorem VideoFiles.reading_leaves_file_iff {Frame : Type} (L : FrameLibrary Frame)
    (temp : ℕ → String) :
    (∀ (s t : VideoFiles Frame) (call : Call), (∀ n, temp n ≠ s.videoId) → s.stored ≠ none →
      Ends L temp s call t → (StoredAs s t ↔ ¬ Removes s call)) ∧
    (∀ s t : VideoFiles Frame, (∀ n, temp n ≠ s.videoId) → s.stored ≠ none →
      KeepingRun L temp s t → StoredAs s t) ∧
    ∀ s : VideoFiles Frame,
      Encodes s ↔ s.operatedVideoId ≠ "" ∧ s.read s.operatedVideoId ≠ none :=
  ⟨fun _ _ _ htemp hstored h => h.storedAs_iff htemp hstored,
    fun _ _ htemp hstored h => h.storedAs htemp hstored, encodes_iff⟩

namespace VideoFiles

/-- A video that is opened on a file with one frame. -/
def opened : VideoFiles ℕ where
  files name := if name = "a.mp4" then some [0] else none
  videoId := "a.mp4"
  operatedVideoId := ""
  operations := []
  queryErrorResponse := ""
  frameCount := 1
  keyFrameDecoder := false
  tempfiles := 0

/-- A name for each temporary file. -/
def tempfile (n : ℕ) : String := "tmp/tempfile" ++ toString n ++ ".mp4"

/-- No temporary file has the name of the stored one. -/
theorem tempfile_ne (n : ℕ) : tempfile n ≠ "a.mp4" := by
  intro h
  have hlist := congrArg String.toList h
  rw [tempfile, String.toList_append, String.toList_append] at hlist
  cases (List.cons.inj hlist).1

/-- After a size with all operations performed, the result is the stored file. -/
def sized : VideoFiles ℕ :=
  { opened with operatedVideoId := "a.mp4", tempfiles := 1 }

/-- Asking for the size, with all operations performed, makes the stored file the result. -/
theorem opened_getSize : Ends plainFrames tempfile opened (.getSize true) sized :=
  .ret (Runs.of_eq fun _ => rfl)

/-- The size, a frame and the number of frames keep the file, and the result can then be
encoded. -/
theorem reading_leaves_file_iff_sized :
    ∃ t, KeepingRun plainFrames tempfile opened t ∧ StoredAs opened t ∧ Encodes t := by
  have hframe : Ends plainFrames tempfile sized (.getFrame 0 true)
      { sized with tempfiles := 2 } :=
    .ret (Runs.of_eq fun _ => rfl)
  have hcount : Ends plainFrames tempfile { sized with tempfiles := 2 } (.getFrameCount true)
      { sized with tempfiles := 3 } :=
    .ret (Runs.of_eq fun _ => rfl)
  have hrun : KeepingRun plainFrames tempfile opened { sized with tempfiles := 3 } :=
    .call (.call (.call .refl opened_getSize fun h => Call.noConfusion h.1) hframe
      fun h => Call.noConfusion h.1) hcount fun h => Call.noConfusion h.1
  have h := reading_leaves_file_iff plainFrames tempfile
  exact ⟨_, hrun, h.2.1 opened _ tempfile_ne (by decide) hrun,
    (h.2.2 { sized with tempfiles := 3 }).2 ⟨by decide, by decide⟩⟩

/-- **A lost video.** To ask for the size and to encode the video removes the stored file. -/
theorem size_then_encoded_removes : ∃ t u, Ends plainFrames tempfile opened (.getSize true) t ∧
    Ends plainFrames tempfile t .getEncoded u ∧ opened.stored = some [0] ∧ u.stored = none :=
  ⟨sized, _, opened_getSize, .ret (Runs.of_eq fun _ => rfl), rfl, rfl⟩

end VideoFiles

end VCL

end Vdms
